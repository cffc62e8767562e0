import MachineMonitor.Proofs.Expr.Dereference
import MachineMonitor.Protocol.Response

/-!
# Expressions that are one numeral

An expression may be a single number, in base 10, or in base 16 behind `0x` or `0X`. It has the
value that its digits denote if this fits a word, and is out of range otherwise. So the texts in
which a value is answered are expressions of this value: its decimal text, and the one in base 16,
which is filled up with zeros.

Results:
* `evaluate_operand`: a text that is a single operand has the value of its token.
* `evaluate_of_denotes`: a numeral has the value that its digits denote.
* `evaluate_decimal`, `evaluate_hexWord`: the texts in which a value is answered.
* `evaluate_numeral`: digits of any number, behind any number of zeros.
-/

namespace MachineMonitor.Expr

open Numeral (Denotes IsDigit)

/-- What an expression gives that is a numeral of `n`: the word, if the number fits one. -/
def literalValue (n : Nat) (text : String) : Except EvalError UInt32 :=
  if n < UInt32.size then .ok (UInt32.ofNat n) else .error (.numberOutOfRange text)

theorem literalValue_toNat (v : UInt32) (text : String) : literalValue v.toNat text = .ok v := by
  rw [literalValue, if_pos v.toNat_lt_size, UInt32.ofNat_toNat]

/-- Reading a numeral as a word gives its value. -/
theorem literalValue_of_denotes {base n : Nat} {cs : List Char} (hbase : base ≤ 16)
    (h : Denotes base cs n) (text : String) :
    (match Numeral.word? base cs with
      | some value => .ok value
      | none => .error (.numberOutOfRange text)) = literalValue n text := by
  rw [Numeral.word?_of_denotes hbase h, literalValue]
  split_ifs <;> rfl

/-- What stands in front of the digits of a base. -/
inductive BaseMark : Nat → List Char → Prop
  | decimal : BaseMark 10 []
  | hex {x : Char} (hx : x = 'x' ∨ x = 'X') : BaseMark 16 ['0', x]

theorem BaseMark.base_le {base : Nat} {mark : List Char} (hmark : BaseMark base mark) :
    base ≤ 16 := by
  cases hmark <;> decide

theorem BaseMark.printable {base n : Nat} {mark cs : List Char} (hmark : BaseMark base mark)
    (h : Denotes base cs n) : ∀ c ∈ mark ++ cs, IsPrintable c := by
  have hdigits := h.isDigitIn hmark.base_le
  cases hmark with
  | decimal => exact Rule.printable_of_mem (Rule.mem_number.mpr ⟨h.ne_nil, hdigits⟩)
  | hex hx =>
    exact Rule.printable_of_mem (Rule.mem_hexNumber.mpr ⟨_, cs, rfl, hx, h.ne_nil, hdigits⟩)

section Literal

variable {τ : Type} [Target τ] {limits : Limits} (t : τ) (hcount : 1 ≤ limits.maxTokens)

include hcount

/-- **A text that is a single operand** has the value of its token. -/
theorem evaluate_operand {k : TokenKind} {s : String} (hk : k.isOperand = true)
    (hs : Spelled k s.toList) (hsize : s.utf8ByteSize ≤ limits.maxTokenLen) :
    evaluate limits t s = evalOperand t ⟨k, s⟩ := by
  have hspaced : Spaced [⟨k, s⟩] (s.toList ++ []) := .token .nil
  rw [List.append_nil] at hspaced
  rw [evaluate_of_phrase (.operand hk) (List.forall_mem_singleton.mpr hs) hspaced
    (List.forall_mem_singleton.mpr hsize), List.length_singleton, if_pos hcount,
    evalTokens_singleton]

/-- **A numeral** has the value that its digits denote. -/
theorem evaluate_of_denotes {base n : Nat} {mark cs : List Char} {s : String}
    (hmark : BaseMark base mark) (h : Denotes base cs n) (hs : s.toList = mark ++ cs)
    (hsize : s.utf8ByteSize ≤ limits.maxTokenLen) : evaluate limits t s = literalValue n s := by
  have hvalue := literalValue_of_denotes hmark.base_le h s
  cases hmark with
  | decimal =>
    rw [List.nil_append] at hs
    have hspelled : Spelled .number s.toList := hs ▸ .number h
    rw [evaluate_operand t hcount rfl hspelled hsize, evalOperand]
    simp only [hs]
    exact hvalue
  | hex hx =>
    have hdrop : Numeral.dropBytes? 2 s.toList = some cs := hs ▸ dropBytes?_prefix hx cs
    have hspelled : Spelled .hexNumber s.toList := hs ▸ .hexNumber hx h
    rw [evaluate_operand t hcount rfl hspelled hsize, evalOperand]
    simp only [hdrop]
    exact hvalue

/-! ## The texts in which a value is answered -/

/-- A numeral of a value, with no more characters than a token may have bytes, has this value. -/
theorem evaluate_of_denotes_toNat {base : Nat} {mark cs : List Char} {v : UInt32}
    (hmark : BaseMark base mark) (h : Denotes base cs v.toNat)
    (hlength : (mark ++ cs).length ≤ limits.maxTokenLen) :
    evaluate limits t (String.ofList (mark ++ cs)) = .ok v := by
  rw [evaluate_of_denotes t hcount hmark h String.toList_ofList, literalValue_toNat]
  rwa [utf8ByteSize_eq_length (hmark.printable h)]

/-- **The decimal text of a value** has this value. -/
theorem evaluate_decimal (hsize : 10 ≤ limits.maxTokenLen) (v : UInt32) :
    evaluate limits t (Json.Value.natural v.toNat).print = .ok v := by
  have hlength : (Nat.toDigits 10 v.toNat).length ≤ 10 :=
    (Nat.length_toDigits_le_iff (by decide) (by decide)).mpr (v.toNat_lt_size.trans (by decide))
  have hprint : (Json.Value.natural v.toNat).print =
      String.ofList ([] ++ Nat.toDigits 10 v.toNat) := by
    rw [Json.Value.print, Json.Value.natural, Json.render]
    rfl
  rw [hprint]
  exact evaluate_of_denotes_toNat t hcount .decimal (Numeral.denotes_toDigits (by decide) _)
    (hlength.trans hsize)

/-- **The text of a value in base 16** has this value. -/
theorem evaluate_hexWord (hsize : 10 ≤ limits.maxTokenLen) (v : UInt32) :
    evaluate limits t (Response.hexWord v) = .ok v := by
  have hdigits : (Nat.toDigits 16 v.toNat).length ≤ 8 :=
    (Nat.length_toDigits_le_iff (by decide) (by decide)).mpr v.toNat_lt_size
  have hdenotes : Denotes 16 (Nat.toDigits 16 v.toNat) v.toNat :=
    Numeral.denotes_toDigits (by decide) _
  have hword : Response.hexWord v = String.ofList (['0', 'x'] ++
      (List.replicate (8 - (Nat.toDigits 16 v.toNat).length) '0' ++ Nat.toDigits 16 v.toNat)) := rfl
  rw [hword]
  -- the zeros fill the digits up to eight, behind the two characters of the mark
  refine evaluate_of_denotes_toNat t hcount (.hex (Or.inl rfl)) (hdenotes.zeros _) ?_
  simp only [List.length_append, List.length_cons, List.length_nil, List.length_replicate]
  omega

end Literal

/-- **An expression that is one numeral.** Digits of base 10, and of base 16 in either case behind
`0x` or `0X`, denote just one number, and with any number of zeros in front of them they are an
expression of this number: it has its value if it fits a word, and is out of range otherwise. So
both texts of the answer with a value, sent back as expressions, have this value again. -/
theorem evaluate_numeral {τ : Type} [Target τ] {limits : Limits} (t : τ)
    (hcount : 1 ≤ limits.maxTokens) :
    (∀ base mark, BaseMark base mark → ∀ (zeros : Nat) (cs : List Char) (s : String),
      cs ≠ [] → (∀ c ∈ cs, ∃ d < base, IsDigit c d) →
      s.toList = mark ++ (List.replicate zeros '0' ++ cs) →
      s.utf8ByteSize ≤ limits.maxTokenLen →
      ∃ n, (∀ m, Denotes base cs m ↔ m = n) ∧ evaluate limits t s = literalValue n s) ∧
    (10 ≤ limits.maxTokenLen → ∀ v : UInt32,
      (Response.ofValue v).fields =
        [("value", .natural v.toNat), ("hex", .text (Response.hexWord v))] ∧
      evaluate limits t (Json.Value.natural v.toNat).print = .ok v ∧
      evaluate limits t (Response.hexWord v) = .ok v) := by
  constructor
  · intro base mark hmark zeros cs s hne hdigits hs hsize
    have hdigit : ∀ c ∈ cs, Numeral.isDigitIn base c = true := fun c hc =>
      (Numeral.isDigitIn_iff hmark.base_le).mpr (hdigits c hc)
    obtain ⟨n, hn⟩ := Numeral.exists_denotes_iff hmark.base_le hne hdigit
    have hzeros := ((hn n).mpr rfl).zeros zeros
    exact ⟨n, hn, evaluate_of_denotes t hcount hmark hzeros hs hsize⟩
  · intro hsize v
    exact ⟨rfl, evaluate_decimal t hcount hsize v, evaluate_hexWord t hcount hsize v⟩

/-- The largest word and the number behind it, in both bases, and the texts of an answer. -/
theorem evaluate_numeral_bounds :
    evaluate {} ({} : Machine) "0004294967295" = .ok 4294967295 ∧
      evaluate {} ({} : Machine) "4294967296" = .error (.numberOutOfRange "4294967296") ∧
      evaluate {} ({} : Machine) "0X0fFfFFfff" = .ok 4294967295 ∧
      evaluate {} ({} : Machine) "0x100000000" = .error (.numberOutOfRange "0x100000000") ∧
      evaluate {} ({} : Machine) "31" = .ok 31 ∧
      evaluate {} ({} : Machine) "0x0000001f" = .ok 31 := by
  obtain ⟨hnumeral, hanswer⟩ := @evaluate_numeral Machine _ {} {} (by decide)
  have hlargest : Denotes 10 "4294967295".toList 4294967295 :=
    (Numeral.natural?_eq_some_iff (by decide)).mp (by decide +kernel)
  have htooLarge : Denotes 10 "4294967296".toList 4294967296 :=
    (Numeral.natural?_eq_some_iff (by decide)).mp (by decide +kernel)
  have hlargestHex : Denotes 16 "fFfFFfff".toList 4294967295 :=
    (Numeral.natural?_eq_some_iff (by decide)).mp (by decide +kernel)
  have htooLargeHex : Denotes 16 "100000000".toList 4294967296 :=
    (Numeral.natural?_eq_some_iff (by decide)).mp (by decide +kernel)
  obtain ⟨n, hn, heval⟩ := hnumeral 10 [] .decimal 3 _ "0004294967295" hlargest.ne_nil
    hlargest.exists_isDigit (by decide) (by decide)
  obtain ⟨n', hn', heval'⟩ := hnumeral 10 [] .decimal 0 _ "4294967296" htooLarge.ne_nil
    htooLarge.exists_isDigit (by decide) (by decide)
  obtain ⟨m, hm, hevalHex⟩ := hnumeral 16 _ (.hex (Or.inr rfl)) 1 _ "0X0fFfFFfff"
    hlargestHex.ne_nil hlargestHex.exists_isDigit (by decide) (by decide)
  obtain ⟨m', hm', hevalHex'⟩ := hnumeral 16 _ (.hex (Or.inl rfl)) 0 _ "0x100000000"
    htooLargeHex.ne_nil htooLargeHex.exists_isDigit (by decide) (by decide)
  obtain rfl := (hn _).mp hlargest
  obtain rfl := (hn' _).mp htooLarge
  obtain rfl := (hm _).mp hlargestHex
  obtain rfl := (hm' _).mp htooLargeHex
  obtain ⟨-, hvalue, hhex⟩ := hanswer (by decide) 31
  rw [show (Json.Value.natural (UInt32.toNat 31)).print = "31" by decide] at hvalue
  rw [show Response.hexWord 31 = "0x0000001f" by decide +kernel] at hhex
  exact ⟨heval, heval', hevalHex, hevalHex', hvalue, hhex⟩

end MachineMonitor.Expr
