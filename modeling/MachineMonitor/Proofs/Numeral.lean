import MachineMonitor.Numeral

/-!
# What a numeral denotes

A numeral of a base is one or more digits, letters in either case, and denotes their positional
value; leading zeros do not change it.

Results:
* `denotes_toDigits`: the digits of a number are a numeral of it, so that every number has one.
* `exists_denotes_of_isDigitIn`: any digits of a base are a numeral.
* `Denotes.zeros`: leading zeros do not change the number.
* `natural?_eq_some_iff`: what can be read is a numeral, and what is read is what it denotes.
* `exists_denotes_iff`: any digits of a base denote just one number.
* `word?_of_denotes`: it gives the word if the number fits one.
-/

namespace MachineMonitor.Numeral

/-- The character of a digit, in either case if it is a letter. -/
def IsDigit (c : Char) (d : Nat) : Prop := c = Nat.digitChar d ∨ c = (Nat.digitChar d).toUpper

instance (c : Char) (d : Nat) : Decidable (IsDigit c d) :=
  inferInstanceAs (Decidable (_ ∨ _))

/-- A text of digits of a base and the number it denotes. -/
inductive Denotes (base : Nat) : List Char → Nat → Prop
  | digit {c : Char} {d : Nat} (hd : d < base) (hc : IsDigit c d) : Denotes base [c] d
  | snoc {cs : List Char} {n d : Nat} {c : Char} (h : Denotes base cs n) (hd : d < base)
      (hc : IsDigit c d) : Denotes base (cs ++ [c]) (n * base + d)

/-- The digits of a number are a numeral of it, in every base that has two digits at least. -/
theorem denotes_toDigits {base : Nat} (hbase : 1 < base) (n : Nat) :
    Denotes base (Nat.toDigits base n) n := by
  induction n using Nat.strongRecOn with
  | ind n ih =>
    by_cases hn : n < base
    · rw [Nat.toDigits_of_lt_base hn]
      exact .digit hn (Or.inl rfl)
    · have hlt : n / base < n := Nat.div_lt_self (by omega) hbase
      have h := (ih (n / base) hlt).snoc (Nat.mod_lt n (by omega)) (Or.inl rfl)
      rw [Nat.div_add_mod'] at h
      rwa [Nat.toDigits_of_base_le hbase (Nat.le_of_not_lt hn)]

/-- Every number has a numeral in every such base. -/
theorem exists_denotes {base : Nat} (hbase : 1 < base) (n : Nat) : ∃ cs, Denotes base cs n :=
  ⟨_, denotes_toDigits hbase n⟩

/-- A zero in front does not change the number. -/
theorem Denotes.zero_cons {base : Nat} {cs : List Char} {n : Nat} (h : Denotes base cs n) :
    Denotes base ('0' :: cs) n := by
  induction h with
  | @digit c d hd hc =>
    have hzero : Denotes base ['0'] 0 := .digit (Nat.zero_lt_of_lt hd) (Or.inl rfl)
    have hsnoc := hzero.snoc hd hc
    rwa [Nat.zero_mul, Nat.zero_add] at hsnoc
  | snoc _ hd hc ih => exact ih.snoc hd hc

/-- **Leading zeros** do not change the number. -/
theorem Denotes.zeros {base : Nat} {cs : List Char} {n : Nat} (h : Denotes base cs n) (k : Nat) :
    Denotes base (List.replicate k '0' ++ cs) n := by
  induction k with
  | zero => exact h
  | succ k ih => exact ih.zero_cons

/-! ## Digits -/

theorem digit?_digitChar : ∀ d, d < 16 →
    digit? (Nat.digitChar d) = some d ∧ digit? (Nat.digitChar d).toUpper = some d := by
  decide

theorem digit?_of_isDigit {c : Char} {d : Nat} (h : IsDigit c d) (hd : d < 16) :
    digit? c = some d := by
  rcases h with rfl | rfl
  · exact (digit?_digitChar d hd).1
  · exact (digit?_digitChar d hd).2

section Base

variable {base : Nat} (hbase : base ≤ 16)

include hbase

theorem digitIn?_of_isDigit {c : Char} {d : Nat} (h : IsDigit c d) (hd : d < base) :
    digitIn? base c = some d := by
  rw [digitIn?, digit?_of_isDigit h (Nat.lt_of_lt_of_le hd hbase), Option.filter_some, if_pos]
  exact decide_eq_true hd

omit hbase in
theorem toNat_lt_of_digit? {c : Char} {d : Nat} (h : digit? c = some d) : c.toNat < 128 := by
  have hlt : ∀ e : Char, c ≤ e → e.toNat < 128 → c.toNat < 128 := fun _ => Nat.lt_of_le_of_lt
  unfold digit? at h
  split at h
  · rename_i hc
    exact hlt '9' hc.2 (by decide)
  · split at h
    · rename_i hc
      exact hlt 'z' hc.2 (by decide)
    · split at h
      · rename_i hc
        exact hlt 'Z' hc.2 (by decide)
      · exact absurd h (by simp)

omit hbase in
theorem isDigit_ofNat : ∀ n, n < 128 → ∀ d, d < 16 → digit? (Char.ofNat n) = some d →
    IsDigit (Char.ofNat n) d := by
  decide +kernel

/-- The digits of a base. -/
theorem isDigitIn_iff {c : Char} : isDigitIn base c = true ↔ ∃ d < base, IsDigit c d := by
  constructor
  · intro h
    obtain ⟨d, hd⟩ := Option.isSome_iff_exists.mp h
    have hlt := lt_of_digitIn? hd
    obtain ⟨hdigit, -⟩ := Option.filter_eq_some_iff.mp hd
    have hofNat :=
      isDigit_ofNat c.toNat (toNat_lt_of_digit? hdigit) d (Nat.lt_of_lt_of_le hlt hbase)
    rw [Char.ofNat_toNat] at hofNat
    exact ⟨d, hlt, hofNat hdigit⟩
  · rintro ⟨d, hd, hc⟩
    rw [isDigitIn, digitIn?_of_isDigit hbase hc hd]
    rfl

omit hbase in
theorem Denotes.exists_isDigit {cs : List Char} {n : Nat} (h : Denotes base cs n) :
    ∀ c ∈ cs, ∃ d < base, IsDigit c d := by
  induction h with
  | digit hd hc => exact List.forall_mem_singleton.mpr ⟨_, hd, hc⟩
  | snoc _ hd hc ih =>
    exact List.forall_mem_append.mpr ⟨ih, List.forall_mem_singleton.mpr ⟨_, hd, hc⟩⟩

theorem Denotes.isDigitIn {cs : List Char} {n : Nat} (h : Denotes base cs n) :
    ∀ c ∈ cs, isDigitIn base c = true := fun c hc =>
  (isDigitIn_iff hbase).mpr (h.exists_isDigit c hc)

theorem Denotes.exists_append {cs : List Char} {n : Nat} (hcs : Denotes base cs n) {ds : List Char}
    (hds : ∀ c ∈ ds, Numeral.isDigitIn base c = true) : ∃ m, Denotes base (cs ++ ds) m := by
  induction ds generalizing cs n with
  | nil =>
    rw [List.append_nil]
    exact ⟨n, hcs⟩
  | cons c ds ih =>
    obtain ⟨d, hd, hc⟩ := (isDigitIn_iff hbase).mp (hds c List.mem_cons_self)
    rw [List.append_cons]
    exact ih (hcs.snoc hd hc) fun c' hc' => hds c' (List.mem_cons_of_mem c hc')

/-- **Any digits of a base are a numeral** of some number. -/
theorem exists_denotes_of_isDigitIn {cs : List Char} (hne : cs ≠ [])
    (h : ∀ c ∈ cs, isDigitIn base c = true) : ∃ n, Denotes base cs n := by
  obtain ⟨c, ds, rfl⟩ := List.exists_cons_of_ne_nil hne
  obtain ⟨d, hd, hc⟩ := (isDigitIn_iff hbase).mp (h c List.mem_cons_self)
  exact (Denotes.digit hd hc).exists_append hbase fun c' hc' => h c' (List.mem_cons_of_mem c hc')

/-! ## Reading -/

omit hbase in
theorem Denotes.ne_nil {cs : List Char} {n : Nat} (h : Denotes base cs n) : cs ≠ [] := by
  cases h <;> simp

omit hbase in
theorem digitsFrom?_append (acc : Nat) (cs ds : List Char) :
    digitsFrom? base acc (cs ++ ds) =
      (digitsFrom? base acc cs).bind fun n => digitsFrom? base n ds := by
  induction cs generalizing acc with
  | nil => rfl
  | cons c cs ih =>
    rw [List.cons_append, digitsFrom?, digitsFrom?]
    cases digitIn? base c with
    | none => rfl
    | some d => exact ih (acc * base + d)

theorem digitsFrom?_of_denotes {cs : List Char} {n : Nat} (h : Denotes base cs n) :
    digitsFrom? base 0 cs = some n := by
  induction h with
  | digit hd hc => simp [digitsFrom?, digitIn?_of_isDigit hbase hc hd]
  | snoc _ hd hc ih =>
    rw [digitsFrom?_append, ih, Option.bind_some]
    simp [digitsFrom?, digitIn?_of_isDigit hbase hc hd]

/-- **Reading a numeral** gives the number it denotes. -/
theorem natural?_of_denotes {cs : List Char} {n : Nat} (h : Denotes base cs n) :
    natural? base cs = some n := by
  obtain ⟨c, cs, rfl⟩ := List.exists_cons_of_ne_nil h.ne_nil
  exact digitsFrom?_of_denotes hbase h

/-- A numeral denotes one number. -/
theorem Denotes.unique {cs : List Char} {n m : Nat} (h : Denotes base cs n)
    (h' : Denotes base cs m) : n = m :=
  Option.some.inj ((natural?_of_denotes hbase h).symm.trans (natural?_of_denotes hbase h'))

/-- **Any digits of a base** denote just one number. -/
theorem exists_denotes_iff {cs : List Char} (hne : cs ≠ [])
    (h : ∀ c ∈ cs, isDigitIn base c = true) : ∃ n, ∀ m, Denotes base cs m ↔ m = n := by
  obtain ⟨n, hn⟩ := exists_denotes_of_isDigitIn hbase hne h
  exact ⟨n, fun m => ⟨fun hm => hm.unique hbase hn, fun hm => hm ▸ hn⟩⟩

omit hbase in
theorem isDigitIn_of_digitsFrom? {acc n : Nat} {cs : List Char}
    (h : digitsFrom? base acc cs = some n) : ∀ c ∈ cs, isDigitIn base c = true := by
  induction cs generalizing acc with
  | nil => exact List.forall_mem_nil _
  | cons c cs ih =>
    rw [digitsFrom?] at h
    split at h
    · rename_i d hd
      exact List.forall_mem_cons.mpr ⟨Option.isSome_iff_exists.mpr ⟨d, hd⟩, ih h⟩
    · exact absurd h (by simp)

/-- **What can be read** is a numeral of the number that is read. -/
theorem natural?_eq_some_iff {cs : List Char} {n : Nat} :
    natural? base cs = some n ↔ Denotes base cs n := by
  refine ⟨fun h => ?_, natural?_of_denotes hbase⟩
  cases cs with
  | nil => exact absurd h (by simp [natural?])
  | cons c cs =>
    obtain ⟨m, hm⟩ := exists_denotes_of_isDigitIn hbase (List.cons_ne_nil c cs)
      (isDigitIn_of_digitsFrom? h)
    rwa [← Option.some.inj ((natural?_of_denotes hbase hm).symm.trans h)]

omit hbase in
theorem isDigitIn_plus : isDigitIn base '+' = false := by
  rw [isDigitIn, digitIn?, show digit? '+' = none by decide]
  rfl

/-- A numeral that begins with a digit has no plus sign to drop. -/
theorem Denotes.dropPlus_eq {cs : List Char} {n : Nat} (h : Denotes base cs n) :
    dropPlus cs = cs := by
  obtain ⟨c, cs, rfl⟩ := List.exists_cons_of_ne_nil h.ne_nil
  have hc := h.isDigitIn hbase c List.mem_cons_self
  unfold dropPlus
  split
  · rename_i heq
    obtain ⟨rfl, -⟩ := List.cons.inj heq
    rw [isDigitIn_plus] at hc
    exact absurd hc (by simp)
  · rfl

/-- **Reading a word** gives the number a numeral denotes, if it fits. -/
theorem word?_of_denotes {cs : List Char} {n : Nat} (h : Denotes base cs n) :
    word? base cs = if n < UInt32.size then some (UInt32.ofNat n) else none := by
  rw [word?, h.dropPlus_eq hbase, natural?_of_denotes hbase h]

theorem word?_of_denotes_toNat {cs : List Char} {v : UInt32} (h : Denotes base cs v.toNat) :
    word? base cs = some v := by
  rw [word?_of_denotes hbase h, if_pos v.toNat_lt_size, UInt32.ofNat_toNat]

end Base

end MachineMonitor.Numeral
