import MachineMonitor.Proofs.Expr.Grammar
import MachineMonitor.Proofs.Numeral
import MachineMonitor.Register

/-!
# How tokens are spelled

Which texts a token of each kind may have, and that the lexical rules find such a text again in
front of whatever may follow it.

Results:
* `Rule.first?_of_spelled`: in front of a text that does not go on with a letter or digit, the
  first rule that matches is the rule of the token, and it matches just the text of the token.
-/

namespace MachineMonitor.Expr

/-! ## Texts of a kind -/

/-- The kind before prefix operators are told from binary ones. -/
def TokenKind.lexical : TokenKind → TokenKind
  | .negate => .minus
  | .dereference => .star
  | kind => kind

/-- The lexical rule that reads tokens of a kind. -/
def TokenKind.rule : TokenKind → Rule
  | .plus => .plus
  | .minus | .negate => .minus
  | .star | .dereference => .star
  | .slash => .slash
  | .lparen => .lparen
  | .rparen => .rparen
  | .eq => .eq
  | .notEq => .notEq
  | .and => .and
  | .or => .or
  | .number => .number
  | .hexNumber => .hexNumber
  | .register => .register

/-- The sign of a kind that is always written in one way. -/
def TokenKind.sign? : TokenKind → Option (List Char)
  | .plus => some ['+']
  | .minus | .negate => some ['-']
  | .star | .dereference => some ['*']
  | .slash => some ['/']
  | .lparen => some ['(']
  | .rparen => some [')']
  | .eq => some ['=', '=']
  | .notEq => some ['!', '=']
  | .and => some ['&', '&']
  | .or => some ['|', '|']
  | _ => none

/-- A text that a token of a kind may have. -/
inductive Spelled : TokenKind → List Char → Prop
  | sign {k : TokenKind} {cs : List Char} (h : k.sign? = some cs) : Spelled k cs
  | number {cs : List Char} {n : Nat} (h : Numeral.Denotes 10 cs n) : Spelled .number cs
  | hexNumber {x : Char} {cs : List Char} {n : Nat} (hx : x = 'x' ∨ x = 'X')
      (h : Numeral.Denotes 16 cs n) : Spelled .hexNumber ('0' :: x :: cs)
  | register (r : Register) : Spelled .register ('$' :: r.name.toList)

theorem Spelled.ne_nil {k : TokenKind} {cs : List Char} (h : Spelled k cs) : cs ≠ [] := by
  cases h with
  | sign h =>
    rintro rfl
    cases k <;> exact absurd h (by simp [TokenKind.sign?])
  | number h => exact h.ne_nil
  | hexNumber => simp
  | register => simp

/-- A text that does not go on with a letter or digit. -/
def Boundary (cs : List Char) : Prop := ∀ c, cs.head? = some c → c.isAlphanum = false

theorem kind?_rule (k : TokenKind) : k.rule.kind? = some k.lexical := by
  cases k <;> rfl

/-! ## Runs of characters -/

theorem takeWhile_append_boundary {p : Char → Bool} {cs rest : List Char}
    (hcs : ∀ c ∈ cs, p c = true) (hp : ∀ c, p c = true → c.isAlphanum = true)
    (hr : Boundary rest) : (cs ++ rest).takeWhile p = cs := by
  rw [List.takeWhile_append_of_pos hcs]
  cases rest with
  | nil => simp
  | cons c rest =>
    have hc : p c = false := by
      rw [Bool.eq_false_iff]
      intro hpc
      exact absurd (hp c hpc) (by rw [hr c rfl]; simp)
    rw [List.takeWhile_cons, hc, if_neg Bool.false_ne_true, List.append_nil]

theorem isAlphanum_of_digit? {c : Char} {d : Nat} (h : Numeral.digit? c = some d) :
    c.isAlphanum = true := by
  show (c.isUpper || c.isLower || c.isDigit) = true
  rw [Bool.or_eq_true, Bool.or_eq_true]
  unfold Numeral.digit? at h
  split at h
  · rename_i hc
    exact Or.inr (Bool.and_eq_true_iff.mpr ⟨decide_eq_true hc.1, decide_eq_true hc.2⟩)
  · split at h
    · rename_i hc
      refine Or.inl (Or.inr ?_)
      exact Bool.and_eq_true_iff.mpr ⟨decide_eq_true hc.1, decide_eq_true hc.2⟩
    · split at h
      · rename_i hc
        exact Or.inl (Or.inl (decide_eq_true hc))
      · exact absurd h (by simp)

theorem isAlphanum_of_isDigitIn {base : Nat} {c : Char} (h : Numeral.isDigitIn base c = true) :
    c.isAlphanum = true := by
  obtain ⟨d, hd⟩ := Option.isSome_iff_exists.mp h
  exact isAlphanum_of_digit? (Option.filter_eq_some_iff.mp hd).1

theorem runLength_append {base : Nat} {cs rest : List Char}
    (hcs : ∀ c ∈ cs, Numeral.isDigitIn base c = true) (hr : Boundary rest) :
    Rule.runLength (Numeral.isDigitIn base) (cs ++ rest) = cs.length := by
  rw [Rule.runLength, takeWhile_append_boundary hcs (fun _ => isAlphanum_of_isDigitIn) hr]

/-! ## Rules and their texts -/

namespace Rule

/-- A rule that matches a nonempty text, and how many characters after the first one. -/
def attempt (cs : List Char) (r : Rule) : Option (Rule × Nat) :=
  match r.matchLength cs with
  | 0 => none
  | n + 1 => some (r, n)

theorem first?_eq (cs : List Char) : first? cs = all.findSome? (attempt cs) := rfl

theorem attempt_of_matchLength {cs : List Char} {r : Rule} {n : Nat}
    (h : r.matchLength cs = n + 1) : attempt cs r = some (r, n) := by
  rw [attempt, h]

theorem attempt_eq_none {cs : List Char} {r : Rule} (h : r.matchLength cs = 0) :
    attempt cs r = none := by
  rw [attempt, h]

theorem literalLength_eq_zero {x c : Char} {xs cs : List Char} (h : x ≠ c) :
    literalLength (x :: xs) (c :: cs) = 0 := by
  rw [literalLength, List.isPrefixOf, beq_eq_false_iff_ne.mpr h, Bool.false_and,
    if_neg Bool.false_ne_true]

theorem registerLength_eq_zero {c : Char} {cs : List Char} (h : c ≠ '$') :
    registerLength (c :: cs) = 0 := by
  unfold registerLength
  split
  · rename_i heq
    exact absurd (List.cons.inj heq).1 h
  · rfl

/-- The characters with which spaces and signs begin. -/
def signChars : List Char := [' ', '+', '=', '-', '*', '/', '(', ')', '!', '&', '|']

/-- Where neither spaces nor a sign begin, only the rules for operands are left. -/
theorem first?_of_not_sign {c : Char} {cs : List Char} (hc : c ∉ signChars) :
    first? (c :: cs) = [register, hexNumber, number].findSome? (attempt (c :: cs)) := by
  have hne : ∀ x ∈ signChars, x ≠ c := fun x hx h => hc (h ▸ hx)
  have hnone : ∀ r ∈ all.take 11, attempt (c :: cs) r = none := by
    intro r hr
    apply attempt_eq_none
    cases r with
    | spaces =>
      have hsp : (c == ' ') = false := beq_eq_false_iff_ne.mpr (hne ' ' (by decide)).symm
      rw [matchLength, runLength, List.takeWhile_cons, hsp, if_neg Bool.false_ne_true]
      rfl
    | register | hexNumber | number => exact absurd hr (by decide)
    | _ => exact literalLength_eq_zero (hne _ (by decide))
  have hall : all = all.take 11 ++ [register, hexNumber, number] := rfl
  rw [first?_eq, hall, List.findSome?_append, List.findSome?_eq_none_iff.mpr hnone, Option.none_or]

theorem not_sign_of_isAlphanum {c : Char} (hc : c.isAlphanum = true) : c ∉ signChars := by
  have hall : signChars.all (fun x => !x.isAlphanum) = true := by decide
  intro hmem
  have hnot := List.all_eq_true.mp hall c hmem
  rw [hc] at hnot
  exact absurd hnot (by decide)

/-- Before a letter or digit only the rules for numbers are left. -/
theorem first?_of_isAlphanum {c : Char} {cs : List Char} (hc : c.isAlphanum = true) :
    first? (c :: cs) = [hexNumber, number].findSome? (attempt (c :: cs)) := by
  have hdollar : c ≠ '$' := by
    rintro rfl
    exact absurd hc (by decide)
  have hreg : register.matchLength (c :: cs) = 0 := registerLength_eq_zero hdollar
  rw [first?_of_not_sign (not_sign_of_isAlphanum hc), List.findSome?_cons, attempt_eq_none hreg]

/-! ### Numbers -/

theorem hexLength_eq_zero {c : Char} {cs : List Char}
    (h : ∀ x, cs.head? = some x → x ≠ 'x' ∧ x ≠ 'X') : hexLength (c :: cs) = 0 := by
  unfold hexLength
  split
  · rename_i heq
    obtain ⟨-, rfl⟩ := List.cons.inj heq
    exact absurd rfl (h 'x' rfl).1
  · rename_i heq
    obtain ⟨-, rfl⟩ := List.cons.inj heq
    exact absurd rfl (h 'X' rfl).2
  · rfl

theorem first?_number {cs rest : List Char} {n : Nat} (h : Numeral.Denotes 10 cs n)
    (hr : Boundary rest) : ∃ k, cs.length = k + 1 ∧ first? (cs ++ rest) = some (number, k) := by
  have hdigits := h.isDigitIn (by decide)
  obtain ⟨c, cs, rfl⟩ := List.exists_cons_of_ne_nil h.ne_nil
  have hrun : number.matchLength (c :: (cs ++ rest)) = cs.length + 1 :=
    runLength_append hdigits hr
  have hhex : hexNumber.matchLength (c :: (cs ++ rest)) = 0 := by
    refine hexLength_eq_zero fun x hx => ?_
    have hx' : Numeral.isDigitIn 10 x = true ∨ x.isAlphanum = false := by
      cases cs with
      | nil => exact Or.inr (hr x hx)
      | cons d cs =>
        obtain rfl := Option.some.inj hx
        exact Or.inl (hdigits d (by simp))
    constructor <;> rintro rfl <;> revert hx' <;> decide
  refine ⟨cs.length, rfl, ?_⟩
  rw [List.cons_append, first?_of_isAlphanum (isAlphanum_of_isDigitIn (hdigits c (by simp))),
    List.findSome?_cons, attempt_eq_none hhex, List.findSome?_cons, attempt_of_matchLength hrun]

theorem first?_hexNumber {x : Char} {cs rest : List Char} {n : Nat} (hx : x = 'x' ∨ x = 'X')
    (h : Numeral.Denotes 16 cs n) (hr : Boundary rest) :
    first? ('0' :: x :: (cs ++ rest)) = some (hexNumber, cs.length + 1) := by
  have hrun := runLength_append (h.isDigitIn (by decide)) hr
  obtain ⟨c, cs, rfl⟩ := List.exists_cons_of_ne_nil h.ne_nil
  have hhex : hexNumber.matchLength ('0' :: x :: (c :: cs ++ rest)) = (c :: cs).length + 2 := by
    rcases hx with rfl | rfl <;> rw [matchLength, hexLength, hrun] <;> rfl
  rw [first?_of_isAlphanum rfl, List.findSome?_cons, attempt_of_matchLength hhex]

/-! ### Registers -/

/-- The register names that are tried before another one. -/
def triedBefore (name : List Char) : List (List Char) := registerNames.takeWhile (· != name)

theorem registerNames_split :
    (Register.all.all fun r => registerNames == triedBefore r.name.toList ++
      r.name.toList :: (registerNames.dropWhile (· != r.name.toList)).tail) = true := by
  decide +kernel

theorem registerNames_order :
    (Register.all.all fun r => (triedBefore r.name.toList).all fun q =>
      !q.isPrefixOf r.name.toList &&
        (q.drop r.name.toList.length).head?.all Char.isAlphanum) = true := by
  decide +kernel

/-- A name that is tried before another is no beginning of it, and what it may add to it begins
with a letter or digit. -/
theorem not_prefix_of_triedBefore {r : Register} {q : List Char}
    (hq : q ∈ triedBefore r.name.toList) : ¬ q <+: r.name.toList ∧
      ∀ c, (q.drop r.name.toList.length).head? = some c → c.isAlphanum = true := by
  have hr := List.all_eq_true.mp registerNames_order r (List.mem_finRange r)
  have h := List.all_eq_true.mp hr q hq
  rw [Bool.and_eq_true, Bool.not_eq_true'] at h
  refine ⟨fun hpre => ?_, fun c hc => ?_⟩
  · rw [List.isPrefixOf_iff_prefix.mpr hpre] at h
    exact absurd h.1 (by decide)
  · have hall := h.2
    rw [hc] at hall
    exact hall

theorem find?_registerNames {r : Register} {rest : List Char} (hr : Boundary rest) :
    registerNames.find? (·.isPrefixOf (r.name.toList ++ rest)) = some r.name.toList := by
  have hsplit := List.all_eq_true.mp registerNames_split r (List.mem_finRange r)
  refine List.find?_eq_some_iff_append.mpr ⟨by simp, _, _, beq_iff_eq.mp hsplit, fun q hq => ?_⟩
  obtain ⟨hnot, hnext⟩ := not_prefix_of_triedBefore hq
  rw [Bool.not_eq_true', Bool.eq_false_iff]
  intro hpre
  rw [List.isPrefixOf_iff_prefix] at hpre
  rcases List.prefix_or_prefix_of_prefix hpre (List.prefix_append _ rest) with h | ⟨ds, rfl⟩
  · exact hnot h
  · rw [List.drop_left] at hnext
    obtain ⟨c, ds, rfl⟩ : ∃ c ds', ds = c :: ds' := by
      refine List.exists_cons_of_ne_nil fun hnil => hnot ?_
      simp [hnil]
    obtain ⟨us, hus⟩ := List.prefix_append_right_inj _ |>.mp hpre
    have hc := hr c (by rw [← hus]; rfl)
    rw [hnext c rfl] at hc
    exact absurd hc (by simp)

theorem first?_register (r : Register) {rest : List Char} (hr : Boundary rest) :
    first? ('$' :: (r.name.toList ++ rest)) = some (register, r.name.toList.length) := by
  have hreg : register.matchLength ('$' :: (r.name.toList ++ rest)) =
      r.name.toList.length + 1 := by
    rw [matchLength, registerLength, find?_registerNames hr]
  rw [first?_of_not_sign (by decide), List.findSome?_cons, attempt_of_matchLength hreg]

/-! ### All tokens -/

theorem first?_sign {k : TokenKind} {cs : List Char} (h : k.sign? = some cs) (rest : List Char) :
    ∃ n, cs.length = n + 1 ∧ first? (cs ++ rest) = some (k.rule, n) := by
  cases k <;> first
    | (obtain rfl := Option.some.inj h; exact ⟨0, rfl, rfl⟩)
    | (obtain rfl := Option.some.inj h; exact ⟨1, rfl, rfl⟩)
    | exact absurd h (by simp [TokenKind.sign?])

/-- **The lexical rules find a spelled token again**, with nothing after it taken along. -/
theorem first?_of_spelled {k : TokenKind} {cs rest : List Char} (h : Spelled k cs)
    (hr : k.isOperand = true → Boundary rest) :
    ∃ n, cs.length = n + 1 ∧ first? (cs ++ rest) = some (k.rule, n) := by
  cases h with
  | sign h => exact first?_sign h rest
  | number h => exact first?_number h (hr rfl)
  | @hexNumber x cs n hx h => exact ⟨cs.length + 1, rfl, first?_hexNumber hx h (hr rfl)⟩
  | register r => exact ⟨r.name.toList.length, rfl, first?_register r (hr rfl)⟩

end Rule

end MachineMonitor.Expr
