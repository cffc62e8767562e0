import MachineMonitor.Monitor
import MachineMonitor.Proofs.Expr.Dereference

/-!
# Memory page by page

A scan of memory counts words from the value of an expression, and wraps around at the end of the
address space. A scan in two parts, the second from the address behind the first, shows what one
scan shows.

Results:
* `wordAddress_eq`: the address of a word of a scan, modulo the size of the address space.
* `wordAddress_add`: counting on from a word of a scan.
* `scanMemory_paged`: a scan in two parts, its entries, and its failure.
-/

namespace MachineMonitor.Monitor

/-! ## Addresses -/

/-- The address of a word of a scan, modulo the size of the address space. -/
theorem wordAddress_eq (base : UInt32) (i : Nat) :
    wordAddress base i = UInt32.ofNat (base.toNat + 4 * i) := by
  rw [wordAddress, UInt32.ofNat_add, UInt32.ofNat_mul, UInt32.ofNat_toNat, UInt32.mul_comm]
  rfl

/-- Counting on from a word of a scan. -/
theorem wordAddress_add (base : UInt32) (n i : Nat) :
    wordAddress (wordAddress base n) i = wordAddress base (n + i) := by
  rw [wordAddress, wordAddress, wordAddress, UInt32.ofNat_add, UInt32.add_mul, UInt32.add_assoc]

/-! ## Scans -/

section Scans

variable {τ : Type} [Target τ]

/-- The words of a scan from an address. -/
def wordsFrom (t : τ) (base : UInt32) (count : Nat) : List MemoryWord :=
  (List.range count).map fun i => ⟨wordAddress base i, Target.readWord t (wordAddress base i)⟩

theorem wordsFrom_add (t : τ) (base : UInt32) (n k : Nat) :
    wordsFrom t base (n + k) = wordsFrom t base n ++ wordsFrom t (wordAddress base n) k := by
  rw [wordsFrom, List.range_add, List.map_append, List.map_map]
  refine congrArg (wordsFrom t base n ++ ·) (List.map_congr_left fun i _ => ?_)
  rw [wordAddress_add]
  rfl

theorem eq_of_getElem?_wordsFrom {t : τ} {base : UInt32} {count i : Nat} {entry : MemoryWord}
    (h : (wordsFrom t base count)[i]? = some entry) :
    entry = ⟨wordAddress base i, Target.readWord t (wordAddress base i)⟩ := by
  rw [wordsFrom, List.getElem?_map, Option.map_eq_some_iff] at h
  obtain ⟨j, hj, rfl⟩ := h
  obtain ⟨-, rfl⟩ := List.getElem?_eq_some_iff.mp hj
  rw [List.getElem_range]

theorem scanMemory_of_ok {m : Monitor τ} {e : String} {base : UInt32} (h : m.evaluate e = .ok base)
    (count : UInt32) : m.scanMemory count e = .ok (wordsFrom m.target base count.toNat) := by
  rw [scanMemory, h]
  rfl

end Scans

/-- Texts of a dereference of an address give a word: a star in front of a numeral of the address,
and a star in front of any expression in parentheses that has the address as value. What can go
wrong is that there is no room for the tokens. -/
structure DereferencesTo {τ : Type} [Target τ] (m : Monitor τ) (address word : UInt32) : Prop where
  numeral (token : Expr.Token) (htoken : Expr.Spells token (.literal address))
    (hsize : token.text.utf8ByteSize ≤ m.limits.maxTokenLen) :
    m.evaluate ("*" ++ token.text) = if 2 ≤ m.limits.maxTokens then .ok word
      else .error (.lex (.tooManyTokens m.limits.maxTokens))
  parens (x : String) (hx : m.evaluate x = .ok address) :
    ∃ b, Expr.tokenize m.limits x = .ok b ∧ m.evaluate ("*(" ++ x ++ ")") =
      if b.tokens.length + 3 ≤ m.limits.maxTokens then .ok word
      else .error (.lex (.tooManyTokens m.limits.maxTokens))

theorem dereferencesTo_readWord {τ : Type} [Target τ] (m : Monitor τ) (address : UInt32) :
    m.DereferencesTo address (Target.readWord m.target address) where
  numeral _ htoken hsize := Expr.evaluate_star_numeral htoken hsize
  parens _ hx := Expr.evaluate_star_parens hx

/-- **Memory page by page.** A scan of some words and a scan of others from the address behind them
show, one after the other, what one scan of all shows, also where the addresses pass the end of the
address space. Entry `i` of a scan has the address `4 * i` behind the value of the expression,
modulo the size of the address space, and the word that a dereference of that address gives. If the
expression has no value, a scan fails as the expression does, however many words it is of. -/
theorem scanMemory_paged {τ : Type} [Target τ] (m : Monitor τ) :
    (∀ (n k : UInt32) (e e' : String) (base : UInt32), n.toNat + k.toNat < UInt32.size →
      m.evaluate e = .ok base → m.evaluate e' = .ok (UInt32.ofNat (base.toNat + 4 * n.toNat)) →
      ∃ first second, m.scanMemory n e = .ok first ∧ m.scanMemory k e' = .ok second ∧
        m.scanMemory (n + k) e = .ok (first ++ second)) ∧
    (∀ (count : UInt32) (e : String) (base : UInt32), m.evaluate e = .ok base →
      ∃ words, m.scanMemory count e = .ok words ∧ words.length = count.toNat ∧
        ∀ i entry, words[i]? = some entry →
          entry.address = UInt32.ofNat (base.toNat + 4 * i) ∧
          m.DereferencesTo entry.address entry.value) ∧
    (∀ (count : UInt32) (e : String) (err : Expr.EvalError), m.evaluate e = .error err →
      m.scanMemory count e = .error err) := by
  refine ⟨fun n k e e' base hlt he he' => ?_, fun count e base he => ?_, fun count e err he => ?_⟩
  · rw [← wordAddress_eq] at he'
    have hsum : (n + k).toNat = n.toNat + k.toNat := by
      rw [UInt32.toNat_add]
      exact Nat.mod_eq_of_lt hlt
    refine ⟨_, _, scanMemory_of_ok he n, scanMemory_of_ok he' k, ?_⟩
    rw [scanMemory_of_ok he, hsum, wordsFrom_add]
  · refine ⟨_, scanMemory_of_ok he count, length_scanMemory (scanMemory_of_ok he count), ?_⟩
    intro i entry hentry
    obtain rfl := eq_of_getElem?_wordsFrom hentry
    exact ⟨wordAddress_eq base i, dereferencesTo_readWord m _⟩
  · rw [scanMemory, he]

/-- A word on either side of the end of the address space: one after the other, and together. The
word at the end is that of `*4294967292` and of `*(0-4)`. -/
theorem scanMemory_paged_around :
    let m : Monitor Machine := { target := { memory := Memory.store {} 0xFFFFFFFC 4 7 } }
    (∃ first second, m.scanMemory 1 "0-4" = .ok first ∧ m.scanMemory 1 "0" = .ok second ∧
      m.scanMemory (1 + 1) "0-4" = .ok (first ++ second)) ∧
    m.scanMemory 2 "0-4" = .ok [⟨0xFFFFFFFC, 7⟩, ⟨0, 0⟩] ∧
    m.evaluate "*4294967292" = .ok 7 ∧ m.evaluate "*(0-4)" = .ok 7 ∧
    m.scanMemory 0 "1/0" = .error .divideByZero := by
  intro m
  have hbase : m.evaluate "0-4" = .ok 0xFFFFFFFC := by decide +kernel
  have hnext : m.evaluate "0" = .ok 0 := by decide +kernel
  have hfails : m.evaluate "1/0" = .error .divideByZero := by decide +kernel
  have hscan : m.scanMemory 2 "0-4" = .ok [⟨0xFFFFFFFC, 7⟩, ⟨0, 0⟩] := by decide +kernel
  have htoken : Expr.Spells ⟨.number, "4294967292"⟩ (.literal 0xFFFFFFFC) :=
    .decimal (Numeral.denotes_toDigits (by decide) 4294967292)
  obtain ⟨hpaged, hentries, herror⟩ := scanMemory_paged m
  obtain ⟨words, hwords, -, hentry⟩ := hentries 2 "0-4" _ hbase
  obtain rfl := Except.ok.inj (hscan.symm.trans hwords)
  obtain ⟨-, hnumeral, hparens⟩ := hentry 0 _ rfl
  obtain ⟨b, hb, hvalue⟩ := hparens "0-4" hbase
  refine ⟨hpaged 1 1 "0-4" "0" _ (by decide) hbase hnext, hscan,
    hnumeral _ htoken (by decide), ?_, herror 0 "1/0" _ hfails⟩
  have htokens : Expr.tokenize m.limits "0-4" =
      .ok ⟨[⟨.number, "0"⟩, ⟨.minus, "-"⟩, ⟨.number, "4"⟩], {}⟩ := by decide +kernel
  obtain rfl := Except.ok.inj (hb.symm.trans htokens)
  exact hvalue

end MachineMonitor.Monitor
