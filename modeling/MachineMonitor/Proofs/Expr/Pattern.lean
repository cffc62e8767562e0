import Mathlib.Computability.Language
import MachineMonitor.Proofs.Expr.Spelling

/-!
# The languages of the lexical rules

Each lexical rule is a regular expression. Here these expressions are syntax trees with a text,
which is the text that the rule is written as, and with a language, the texts that match. What a
rule matches at the beginning of an input is the longest text of its language that stands there,
although the alternatives of an expression are tried in order and the first one wins.

Results:
* `Rule.text_regex`: the expression of a rule is written as the rule is.
* `Pattern.mem_words_iff`: the texts of an expression without repetition can be listed.
* `Pattern.printable_of_mem`: an expression that names printable characters matches printable texts.
* `Rule.longest_matchLength`: a rule matches the longest text of its language.
-/

namespace MachineMonitor.Expr

/-! ## Regular expressions -/

/-- A regular expression: a character, a class of characters, one expression after the other, either
of two, the same in parentheses, or one or more times the same. -/
inductive Pattern where
  | char (c : Char)
  | oneOf (ranges : List (Char × Char))
  | seq (p q : Pattern)
  | alt (p q : Pattern)
  | group (p : Pattern)
  | many (p : Pattern)

namespace Pattern

/-- The characters that stand for themselves only after a backslash. -/
def special : List Char := ['+', '*', '(', ')', '|', '$']

/-- A range of a class, as it is written: a single character, or the first and the last one. -/
def rangeText (range : Char × Char) : List Char :=
  if range.1 = range.2 then [range.1] else [range.1, '-', range.2]

/-- The expression as it is written. -/
def text : Pattern → List Char
  | char c => if c ∈ special then ['\\', c] else [c]
  | oneOf ranges => '[' :: (ranges.flatMap rangeText ++ [']'])
  | seq p q => p.text ++ q.text
  | alt p q => p.text ++ '|' :: q.text
  | group p => '(' :: (p.text ++ [')'])
  | many p => p.text ++ ['+']

/-- Is a character in one of the ranges of a class? -/
def inClass (ranges : List (Char × Char)) (c : Char) : Bool :=
  ranges.any fun range => range.1 ≤ c && c ≤ range.2

/-- The texts that match. -/
def language : Pattern → Language Char
  | char c => {[c]}
  | oneOf ranges => {cs | ∃ c, cs = [c] ∧ inClass ranges c = true}
  | seq p q => p.language * q.language
  | alt p q => p.language + q.language
  | group p => p.language
  | many p => p.language * KStar.kstar p.language

theorem mem_char {c : Char} {cs : List Char} : cs ∈ (char c).language ↔ cs = [c] := Iff.rfl

theorem mem_oneOf {ranges : List (Char × Char)} {cs : List Char} :
    cs ∈ (oneOf ranges).language ↔ ∃ c, cs = [c] ∧ inClass ranges c = true := Iff.rfl

theorem mem_seq {p q : Pattern} {cs : List Char} :
    cs ∈ (seq p q).language ↔ ∃ u ∈ p.language, ∃ v ∈ q.language, u ++ v = cs :=
  Language.mem_mul

theorem mem_alt {p q : Pattern} {cs : List Char} :
    cs ∈ (alt p q).language ↔ cs ∈ p.language ∨ cs ∈ q.language :=
  Language.mem_add _ _ _

/-- What a class matches one or more times is a run of its characters. -/
theorem mem_many {p : Pattern} {f : Char → Bool} {cs : List Char}
    (hp : ∀ us, us ∈ p.language ↔ ∃ c, us = [c] ∧ f c = true) :
    cs ∈ (many p).language ↔ cs ≠ [] ∧ ∀ c ∈ cs, f c = true := by
  rw [language, Language.mem_mul]
  constructor
  · rintro ⟨us, hus, vs, hvs, rfl⟩
    obtain ⟨c, rfl, hc⟩ := (hp us).mp hus
    obtain ⟨parts, rfl, hparts⟩ := Language.mem_kstar.mp hvs
    refine ⟨by simp, fun d hd => ?_⟩
    rcases List.mem_cons.mp hd with rfl | hd
    · exact hc
    · obtain ⟨part, hpart, hd⟩ := List.mem_flatten.mp hd
      obtain ⟨e, rfl, he⟩ := (hp part).mp (hparts part hpart)
      rwa [List.mem_singleton.mp hd]
  · rintro ⟨hne, hall⟩
    obtain ⟨c, cs, rfl⟩ := List.exists_cons_of_ne_nil hne
    refine ⟨[c], (hp _).mpr ⟨c, rfl, hall c List.mem_cons_self⟩, cs, ?_, rfl⟩
    refine Language.mem_kstar.mpr ⟨cs.map ([·]), by simp [← List.flatMap_def], fun part hpart => ?_⟩
    obtain ⟨d, hd, rfl⟩ := List.mem_map.mp hpart
    exact (hp _).mpr ⟨d, rfl, hall d (List.mem_cons_of_mem c hd)⟩

/-! ## Listing the texts of an expression -/

/-- The ASCII characters of a class. -/
def classChars (ranges : List (Char × Char)) : List Char :=
  ((List.range 128).map Char.ofNat).filter (inClass ranges)

/-- Is this an expression without repetition, with ASCII classes only? -/
def isFinite : Pattern → Bool
  | char _ => true
  | oneOf ranges => ranges.all fun range => range.2.toNat < 128
  | seq p q | alt p q => p.isFinite && q.isFinite
  | group p => p.isFinite
  | many _ => false

/-- All texts of such an expression. -/
def words : Pattern → List (List Char)
  | char c => [[c]]
  | oneOf ranges => (classChars ranges).map ([·])
  | seq p q => p.words.flatMap fun u => q.words.map (u ++ ·)
  | alt p q => p.words ++ q.words
  | group p => p.words
  | many _ => []

theorem mem_classChars {ranges : List (Char × Char)}
    (h : (ranges.all fun range => range.2.toNat < 128) = true) {c : Char} :
    c ∈ classChars ranges ↔ inClass ranges c = true := by
  rw [classChars, List.mem_filter]
  refine ⟨And.right, fun hc => ⟨?_, hc⟩⟩
  obtain ⟨range, hmem, hrange⟩ := List.any_eq_true.mp hc
  have hlast : range.2.toNat < 128 := of_decide_eq_true (List.all_eq_true.mp h range hmem)
  have hle : c.toNat ≤ range.2.toNat := of_decide_eq_true (Bool.and_eq_true_iff.mp hrange).2
  exact List.mem_map.mpr ⟨c.toNat, List.mem_range.mpr (by omega), Char.ofNat_toNat c⟩

/-- **The texts of an expression without repetition** are the listed ones. -/
theorem mem_words_iff {p : Pattern} (h : p.isFinite = true) {cs : List Char} :
    cs ∈ p.words ↔ cs ∈ p.language := by
  induction p generalizing cs with
  | char c => exact List.mem_singleton
  | oneOf ranges =>
    rw [words, mem_oneOf, List.mem_map]
    constructor
    · rintro ⟨c, hc, rfl⟩
      exact ⟨c, rfl, (mem_classChars h).mp hc⟩
    · rintro ⟨c, rfl, hc⟩
      exact ⟨c, (mem_classChars h).mpr hc, rfl⟩
  | seq p q ihp ihq =>
    obtain ⟨hp, hq⟩ := Bool.and_eq_true_iff.mp h
    rw [words, mem_seq, List.mem_flatMap]
    simp only [List.mem_map, ihp hp, ihq hq]
  | alt p q ihp ihq =>
    obtain ⟨hp, hq⟩ := Bool.and_eq_true_iff.mp h
    rw [words, mem_alt, List.mem_append, ihp hp, ihq hq]
  | group p ih => exact ih h
  | many p => exact absurd h (by simp [isFinite])

end Pattern

/-! ## Printable texts -/

/-- A printable ASCII character. -/
def IsPrintable (c : Char) : Prop := ' ' ≤ c ∧ c ≤ '~'

instance (c : Char) : Decidable (IsPrintable c) := inferInstanceAs (Decidable (_ ∧ _))

theorem IsPrintable.utf8Size_eq {c : Char} (h : IsPrintable c) : c.utf8Size = 1 := by
  have hle : c.toNat ≤ 126 := h.2
  rw [Char.utf8Size_eq_one_iff]
  exact UInt32.le_iff_toNat_le.mpr (Nat.le_succ_of_le hle)

theorem IsPrintable.ne_newline {c : Char} (h : IsPrintable c) : c ≠ '\n' := by
  rintro rfl
  exact absurd h.1 (by decide)

/-- A printable text has as many bytes as characters. -/
theorem utf8ByteSize_eq_length {cs : List Char} (h : ∀ c ∈ cs, IsPrintable c) :
    (String.ofList cs).utf8ByteSize = cs.length := by
  induction cs with
  | nil => rfl
  | cons c cs ih =>
    obtain ⟨hc, hcs⟩ := List.forall_mem_cons.mp h
    rw [String.ofList_cons, String.utf8ByteSize_append, String.utf8ByteSize_singleton,
      hc.utf8Size_eq, ih hcs, List.length_cons, Nat.add_comm]

namespace Pattern

/-- Does an expression name printable characters only? -/
def isPrintable : Pattern → Bool
  | char c => ' ' ≤ c && c ≤ '~'
  | oneOf ranges => ranges.all fun range => ' ' ≤ range.1 && range.2 ≤ '~'
  | seq p q | alt p q => p.isPrintable && q.isPrintable
  | group p | many p => p.isPrintable

/-- Then all texts that match are printable. -/
theorem printable_of_mem {p : Pattern} (hp : p.isPrintable = true) {cs : List Char}
    (h : cs ∈ p.language) : ∀ c ∈ cs, IsPrintable c := by
  induction p generalizing cs with
  | char d =>
    rw [mem_char.mp h]
    obtain ⟨hlo, hhi⟩ := Bool.and_eq_true_iff.mp hp
    exact List.forall_mem_singleton.mpr ⟨of_decide_eq_true hlo, of_decide_eq_true hhi⟩
  | oneOf ranges =>
    obtain ⟨d, rfl, hd⟩ := mem_oneOf.mp h
    obtain ⟨range, hmem, hrange⟩ := List.any_eq_true.mp hd
    obtain ⟨hfirst, hlast⟩ := Bool.and_eq_true_iff.mp hrange
    obtain ⟨hlo, hhi⟩ := Bool.and_eq_true_iff.mp (List.all_eq_true.mp hp range hmem)
    exact List.forall_mem_singleton.mpr
      ⟨Char.le_trans (of_decide_eq_true hlo) (of_decide_eq_true hfirst),
        Char.le_trans (of_decide_eq_true hlast) (of_decide_eq_true hhi)⟩
  | seq p q ihp ihq =>
    obtain ⟨hp, hq⟩ := Bool.and_eq_true_iff.mp hp
    obtain ⟨u, hu, v, hv, rfl⟩ := mem_seq.mp h
    exact List.forall_mem_append.mpr ⟨ihp hp hu, ihq hq hv⟩
  | alt p q ihp ihq =>
    obtain ⟨hp, hq⟩ := Bool.and_eq_true_iff.mp hp
    exact (mem_alt.mp h).elim (ihp hp) (ihq hq)
  | group p ih => exact ih hp h
  | many p ih =>
    obtain ⟨u, hu, v, hv, rfl⟩ := Language.mem_mul.mp h
    obtain ⟨parts, rfl, hparts⟩ := Language.mem_kstar.mp hv
    refine List.forall_mem_append.mpr ⟨ih hp hu, fun c hc => ?_⟩
    obtain ⟨part, hpart, hc⟩ := List.mem_flatten.mp hc
    exact ih hp (hparts part hpart) c hc

end Pattern

/-! ## The expressions of the rules -/

namespace Rule

open Pattern

/-- A class that is one range. -/
def range (first last : Char) : Pattern := oneOf [(first, last)]

/-- The expression for the name of a register. -/
def registerName : Pattern :=
  alt (seq (char '$') (char '0')) <|
  alt (seq (char 'r') (char 'a')) <|
  alt (seq (oneOf [('s', 's'), ('g', 'g'), ('t', 't')]) (char 'p')) <|
  alt (seq (char 't') (range '0' '6')) <|
  alt (seq (char 'a') (range '0' '7')) <|
  seq (char 's') (group (alt (seq (char '1') (oneOf [('0', '0'), ('1', '1')])) (range '0' '9')))

/-- The regular expression of a rule. -/
def regex : Rule → Pattern
  | spaces => many (char ' ')
  | plus => char '+'
  | eq => seq (char '=') (char '=')
  | minus => char '-'
  | star => char '*'
  | slash => char '/'
  | lparen => char '('
  | rparen => char ')'
  | notEq => seq (char '!') (char '=')
  | and => seq (char '&') (char '&')
  | or => seq (char '|') (char '|')
  | register => seq (char '$') (group registerName)
  | hexNumber => seq (char '0') (seq (oneOf [('x', 'x'), ('X', 'X')])
      (many (oneOf [('0', '9'), ('a', 'f'), ('A', 'F')])))
  | number => many (range '0' '9')

/-- The expression of a rule is written as the rule is. -/
theorem text_regex (r : Rule) : r.regex.text = r.pattern.toList := by
  cases r <;> decide

/-- The texts that match a rule. -/
def language (r : Rule) : Language Char := r.regex.language

/-! ### Digits -/

theorem le_iff_toNat {c d : Char} : c ≤ d ↔ c.toNat ≤ d.toNat := Iff.rfl

theorem isDigitIn_ten (c : Char) : Numeral.isDigitIn 10 c = inClass [('0', '9')] c := by
  rw [Bool.eq_iff_iff]
  unfold Numeral.isDigitIn Numeral.digitIn? Numeral.digit? inClass
  simp only [le_iff_toNat, Char.reduceToNat]
  split_ifs <;> simp <;> omega

theorem isDigitIn_sixteen (c : Char) :
    Numeral.isDigitIn 16 c = inClass [('0', '9'), ('a', 'f'), ('A', 'F')] c := by
  rw [Bool.eq_iff_iff]
  unfold Numeral.isDigitIn Numeral.digitIn? Numeral.digit? inClass
  simp only [le_iff_toNat, Char.reduceToNat]
  split_ifs <;> simp <;> omega

/-! ### The texts of each rule -/

/-- The only text of a rule for a sign. -/
def literal? : Rule → Option (List Char)
  | plus => some ['+']
  | eq => some ['=', '=']
  | minus => some ['-']
  | star => some ['*']
  | slash => some ['/']
  | lparen => some ['(']
  | rparen => some [')']
  | notEq => some ['!', '=']
  | and => some ['&', '&']
  | or => some ['|', '|']
  | spaces | register | hexNumber | number => none

theorem mem_language_of_literal {r : Rule} {w : List Char} (h : r.literal? = some w)
    {cs : List Char} : cs ∈ r.language ↔ cs = w := by
  have hwords : r.regex.isFinite = true ∧ r.regex.words = [w] := by
    cases r <;> first
      | (obtain rfl := Option.some.inj h; exact ⟨rfl, rfl⟩)
      | exact absurd h (by simp [literal?])
  rw [language, ← mem_words_iff hwords.1, hwords.2, List.mem_singleton]

theorem mem_spaces {cs : List Char} :
    cs ∈ spaces.language ↔ cs ≠ [] ∧ ∀ c ∈ cs, (c == ' ') = true :=
  mem_many fun us => by simp [mem_char]

theorem mem_number {cs : List Char} :
    cs ∈ number.language ↔ cs ≠ [] ∧ ∀ c ∈ cs, Numeral.isDigitIn 10 c = true :=
  mem_many fun us => by simp only [range, mem_oneOf, isDigitIn_ten]

theorem mem_hexNumber {cs : List Char} :
    cs ∈ hexNumber.language ↔ ∃ x ds, cs = '0' :: x :: ds ∧ (x = 'x' ∨ x = 'X') ∧
      ds ≠ [] ∧ ∀ c ∈ ds, Numeral.isDigitIn 16 c = true := by
  have hx : ∀ x, inClass [('x', 'x'), ('X', 'X')] x = true ↔ x = 'x' ∨ x = 'X' := by
    intro x
    have hsingle : ∀ d : Char, d ≤ x ∧ x ≤ d ↔ x = d := fun d =>
      ⟨fun h => Char.le_antisymm h.2 h.1, fun h => h ▸ ⟨Char.le_refl x, Char.le_refl x⟩⟩
    simp [inClass, hsingle]
  have hrun : ∀ ds, ds ∈ (many (oneOf [('0', '9'), ('a', 'f'), ('A', 'F')])).language ↔
      ds ≠ [] ∧ ∀ c ∈ ds, Numeral.isDigitIn 16 c = true := fun ds =>
    mem_many fun us => by simp only [mem_oneOf, isDigitIn_sixteen]
  simp only [language, regex, mem_seq, mem_char, mem_oneOf, hx, hrun]
  constructor
  · rintro ⟨_, rfl, _, ⟨_, ⟨x, rfl, hx⟩, ds, hds, rfl⟩, rfl⟩
    exact ⟨x, ds, rfl, hx, hds⟩
  · rintro ⟨x, ds, rfl, hx, hds⟩
    exact ⟨['0'], rfl, x :: ds, ⟨[x], ⟨x, rfl, hx⟩, ds, hds, rfl⟩, rfl⟩

theorem mem_register {cs : List Char} :
    cs ∈ register.language ↔ ∃ name ∈ registerNames, cs = '$' :: name := by
  have hwords : (∀ cs ∈ register.regex.words, cs ∈ registerNames.map ('$' :: ·)) ∧
      ∀ cs ∈ registerNames.map ('$' :: ·), cs ∈ register.regex.words := by
    decide +kernel
  have hiff : cs ∈ register.language ↔ cs ∈ registerNames.map ('$' :: ·) := by
    rw [language, ← mem_words_iff (by decide)]
    exact ⟨hwords.1 cs, hwords.2 cs⟩
  simp only [hiff, List.mem_map, eq_comm]

/-- The texts of the lexical rules are printable. -/
theorem printable_of_mem {r : Rule} {u : List Char} (h : u ∈ r.language) :
    ∀ c ∈ u, IsPrintable c := by
  have hr : r.regex.isPrintable = true := by cases r <;> decide
  exact Pattern.printable_of_mem hr h

/-! ## What a rule matches -/

/-- The length of the longest text of a language that stands at the beginning of an input; 0 if
none does. -/
structure IsLongestIn (L : Language Char) (cs : List Char) (n : Nat) : Prop where
  le_length : n ≤ cs.length
  mem : n ≠ 0 → cs.take n ∈ L
  le : ∀ u ∈ L, u <+: cs → u.length ≤ n

theorem longest_zero {L : Language Char} {cs : List Char} (h : ∀ u ∈ L, ¬ u <+: cs) :
    IsLongestIn L cs 0 :=
  ⟨Nat.zero_le _, fun hne => absurd rfl hne, fun u hu hpre => absurd hpre (h u hu)⟩

theorem longest_literal {L : Language Char} {w : List Char} (hL : ∀ u, u ∈ L ↔ u = w)
    (cs : List Char) : IsLongestIn L cs (literalLength w cs) := by
  unfold literalLength
  split
  · rename_i hpre
    obtain ⟨v, rfl⟩ := List.isPrefixOf_iff_prefix.mp hpre
    refine ⟨by simp, fun _ => ?_, fun u hu _ => ?_⟩
    · rw [List.take_left, hL]
    · rw [(hL u).mp hu]
  · rename_i hpre
    refine longest_zero fun u hu hu' => hpre ?_
    rwa [← (hL u).mp hu, List.isPrefixOf_iff_prefix]

theorem longest_run {L : Language Char} {f : Char → Bool}
    (hL : ∀ u, u ∈ L ↔ u ≠ [] ∧ ∀ c ∈ u, f c = true) (cs : List Char) :
    IsLongestIn L cs (runLength f cs) := by
  have hpre := List.takeWhile_prefix f (l := cs)
  refine ⟨hpre.length_le, fun h => ?_, fun u hu hu' => ?_⟩
  · rw [runLength, ← List.prefix_iff_eq_take.mp hpre, hL]
    refine ⟨fun hnil => h (by rw [runLength, hnil]; rfl), fun c hc => ?_⟩
    exact List.all_eq_true.mp List.all_takeWhile c hc
  · obtain ⟨v, rfl⟩ := hu'
    rw [runLength, List.takeWhile_append_of_pos ((hL u).mp hu).2, List.length_append]
    exact Nat.le_add_right _ _

theorem hexLength_cons {x : Char} (hx : x = 'x' ∨ x = 'X') (ds : List Char) :
    hexLength ('0' :: x :: ds) =
      match runLength (Numeral.isDigitIn 16) ds with
      | 0 => 0
      | n + 1 => n + 3 := by
  rcases hx with rfl | rfl <;> rfl

theorem longest_hexNumber (cs : List Char) : IsLongestIn hexNumber.language cs (hexLength cs) := by
  by_cases hcs : ∃ x ds, cs = '0' :: x :: ds ∧ (x = 'x' ∨ x = 'X')
  · obtain ⟨x, ds, rfl, hx⟩ := hcs
    -- the digits after the first two characters are a run
    obtain ⟨hlen, hmem, hle⟩ := longest_run
      (L := {us | us ≠ [] ∧ ∀ c ∈ us, Numeral.isDigitIn 16 c = true}) (fun _ => Iff.rfl) ds
    have hdigits : ∀ u ∈ hexNumber.language, u <+: '0' :: x :: ds →
        ∃ us : List Char, u.length = us.length + 2 ∧ us ≠ [] ∧
          us.length ≤ runLength (Numeral.isDigitIn 16) ds := by
      intro u hu hpre
      obtain ⟨y, us, rfl, -, hus⟩ := mem_hexNumber.mp hu
      have hpre := (List.cons_prefix_cons.mp (List.cons_prefix_cons.mp hpre).2).2
      exact ⟨us, rfl, hus.1, hle us hus hpre⟩
    rw [hexLength_cons hx]
    cases hrun : runLength (Numeral.isDigitIn 16) ds with
    | zero =>
      refine longest_zero fun u hu hpre => ?_
      obtain ⟨us, -, hne, hle⟩ := hdigits u hu hpre
      exact hne (List.length_eq_zero_iff.mp (by omega))
    | succ n =>
      rw [hrun] at hlen hmem
      refine ⟨by simp only [List.length_cons]; omega, fun _ => ?_, fun u hu hpre => ?_⟩
      · exact mem_hexNumber.mpr ⟨x, ds.take (n + 1), rfl, hx, hmem (by omega)⟩
      · obtain ⟨us, hlen, -, hle⟩ := hdigits u hu hpre
        show u.length ≤ n + 3
        omega
  · have hzero : hexLength cs = 0 := by
      unfold hexLength
      split
      · exact absurd ⟨_, _, rfl, Or.inl rfl⟩ hcs
      · exact absurd ⟨_, _, rfl, Or.inr rfl⟩ hcs
      · rfl
    rw [hzero]
    refine longest_zero fun u hu hpre => hcs ?_
    obtain ⟨x, ds, rfl, hx, -⟩ := mem_hexNumber.mp hu
    obtain ⟨v, rfl⟩ := hpre
    exact ⟨x, ds ++ v, rfl, hx⟩

/-- No name is the beginning of one that is tried after it. -/
theorem registerNames_pairwise : registerNames.Pairwise fun p q => ¬ p <+: q := by
  decide +kernel

/-- Where no text of a list is the beginning of a later one, the first text that an input begins
with is the longest one. -/
theorem length_le_of_find? {texts : List (List Char)}
    (hpairwise : texts.Pairwise fun p q => ¬ p <+: q) {cs first u : List Char}
    (h : texts.find? (·.isPrefixOf cs) = some first) (hu : u ∈ texts) (hpre : u <+: cs) :
    u.length ≤ first.length := by
  obtain ⟨hfirst, before, after, rfl, hbefore⟩ := List.find?_eq_some_iff_append.mp h
  rcases List.mem_append.mp hu with hu | hu
  · have hnot := hbefore u hu
    rw [List.isPrefixOf_iff_prefix.mpr hpre] at hnot
    exact absurd hnot (by simp)
  · rcases List.mem_cons.mp hu with rfl | hu
    · exact Nat.le_refl _
    · have hnot : ¬ first <+: u :=
        (List.pairwise_cons.mp (List.pairwise_append.mp hpairwise).2.1).1 u hu
      have hfirst := List.isPrefixOf_iff_prefix.mp hfirst
      rcases List.prefix_or_prefix_of_prefix hfirst hpre with hle | hle
      · exact absurd hle hnot
      · exact hle.length_le

theorem longest_register (cs : List Char) :
    IsLongestIn register.language cs (registerLength cs) := by
  by_cases hcs : ∃ ds, cs = '$' :: ds
  · obtain ⟨ds, rfl⟩ := hcs
    have hprefix : ∀ u ∈ register.language, u <+: '$' :: ds →
        ∃ q ∈ registerNames, u.length = q.length + 1 ∧ q <+: ds := by
      intro u hu hpre
      obtain ⟨q, hq, rfl⟩ := mem_register.mp hu
      exact ⟨q, hq, rfl, (List.cons_prefix_cons.mp hpre).2⟩
    rw [registerLength]
    cases hfind : registerNames.find? (·.isPrefixOf ds) with
    | none =>
      refine longest_zero fun u hu hpre => ?_
      obtain ⟨q, hq, -, hpre⟩ := hprefix u hu hpre
      exact List.find?_eq_none.mp hfind q hq (List.isPrefixOf_iff_prefix.mpr hpre)
    | some name =>
      have hname : name <+: ds :=
        List.isPrefixOf_iff_prefix.mp (List.find?_eq_some_iff_append.mp hfind).1
      refine ⟨?_, fun _ => ?_, fun u hu hpre => ?_⟩
      · exact Nat.succ_le_succ hname.length_le
      · refine mem_register.mpr ⟨name, List.mem_of_find?_eq_some hfind, ?_⟩
        rw [List.take_succ_cons, ← List.prefix_iff_eq_take.mp hname]
      · obtain ⟨q, hq, hlen, hpre⟩ := hprefix u hu hpre
        rw [hlen]
        exact Nat.succ_le_succ (length_le_of_find? registerNames_pairwise hfind hq hpre)
  · have hzero : registerLength cs = 0 := by
      unfold registerLength
      split
      · exact absurd ⟨_, rfl⟩ hcs
      · rfl
    rw [hzero]
    refine longest_zero fun u hu hpre => hcs ?_
    obtain ⟨q, -, rfl⟩ := mem_register.mp hu
    obtain ⟨v, rfl⟩ := hpre
    exact ⟨q ++ v, rfl⟩

/-- **A rule matches the longest text of its language** that stands at the beginning. -/
theorem longest_matchLength (r : Rule) (cs : List Char) :
    IsLongestIn r.language cs (r.matchLength cs) := by
  cases r with
  | spaces => exact longest_run (fun _ => mem_spaces) cs
  | register => exact longest_register cs
  | hexNumber => exact longest_hexNumber cs
  | number => exact longest_run (fun _ => mem_number) cs
  | _ => exact longest_literal (fun _ => mem_language_of_literal rfl) cs

end Rule

end MachineMonitor.Expr
