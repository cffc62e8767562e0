import Mathlib.Algebra.Group.Int.Defs
import Mathlib.Algebra.Group.Nat.Defs
import Mathlib.Order.Bounds.Defs
import MachineMonitor.Proofs.Expr.Grammar

/-!
# Splitting by counts of parentheses

Where the evaluator takes a token list apart, in terms of how many parentheses of each kind stand in
the beginnings of the list. Nothing is asked of the list: it may close more than it opens and open
again later. The scans keep the difference of both counts as a depth; the depth after some tokens is
at most their number away from zero, so for lists shorter than `2 ^ 31` it fits 32 bits with sign.

Results:
* `staysOpen_iff`: a depth that changes by one at a time is not below zero before it is one below.
* `isWrapped32_eq`, `dominantOperator32_eq`: a depth of 32 bits is enough.
* `isWrapped_iff_isLeast`: a list is wrapped iff its first parenthesis is closed at its last place.
* `dominantOperator_iff_loosest`: the dominant operator is the loosest one outside all parentheses.
-/

namespace MachineMonitor.Expr

/-! ## Counts -/

/-- A list opens as many parentheses as it closes, whether they match or not. -/
def OpensAsCloses (ts : List Token) : Prop :=
  ts.countP (·.kind == .lparen) = ts.countP (·.kind == .rparen)

instance (ts : List Token) : Decidable (OpensAsCloses ts) := inferInstanceAs (Decidable (_ = _))

theorem opensAsCloses_iff {ts : List Token} : OpensAsCloses ts ↔ depth ts = 0 := by
  rw [OpensAsCloses, depth_eq_count]
  omega

theorem neg_one_le_nesting (k : TokenKind) : -1 ≤ k.nesting := by
  cases k <;> decide

theorem nesting_le_one (k : TokenKind) : k.nesting ≤ 1 := by
  cases k <;> decide

theorem eq_rparen_of_nesting {k : TokenKind} (h : k.nesting < 0) : k = .rparen := by
  cases k <;> first | rfl | exact absurd h (by decide)

/-- **A depth that changes by one at a time** does not drop below zero without being one below. -/
theorem staysOpen_iff {d : Int} (hd : 0 ≤ d) {ts : List Token} :
    StaysOpen d ts ↔ ∀ i ≤ ts.length, d + depth (ts.take i) ≠ -1 := by
  constructor
  · intro h i _
    rw [← List.take_append_drop i ts] at h
    have hnonneg := (staysOpen_append.mp h).1.depth_nonneg hd
    omega
  · intro h
    induction ts generalizing d with
    | nil => trivial
    | cons t ts ih =>
      have hfirst := h 1 (Nat.le_add_left 1 _)
      rw [List.take_succ_cons, List.take_zero, depth_cons, depth_nil] at hfirst
      have hstep := neg_one_le_nesting t.kind
      have hopen : 0 ≤ d + t.kind.nesting := by omega
      refine ⟨hopen, ih hopen fun i hi => ?_⟩
      rw [Int.add_assoc]
      exact h (i + 1) (Nat.succ_le_succ hi)

/-! ## A depth of 32 bits -/

/-- The depth after a token, kept in 32 bits with sign. -/
def depthAfter32 (depth : Int32) (kind : TokenKind) : Int32 :=
  match kind with
  | .lparen => depth + 1
  | .rparen => depth - 1
  | _ => depth

/-- Does a depth of 32 bits stay at zero or above, and end at zero? -/
def isBalancedFrom32 (depth : Int32) : List Token → Bool
  | [] => depth == 0
  | t :: ts =>
    let depth' := depthAfter32 depth t.kind
    0 ≤ depth' && isBalancedFrom32 depth' ts

/-- Are the first and the last token a matching pair, by a depth of 32 bits? -/
def isWrapped32 : List Token → Bool
  | [] | [_] => false
  | t :: ts =>
    t.kind == .lparen && (ts.getLast?.map (·.kind)) == some .rparen
      && isBalancedFrom32 0 ts.dropLast

/-- The dominant operator of a list whose first token has index `i` and stands at a depth of 32
bits. -/
def dominantFrom32 (i : Nat) (depth : Int32) (best : Option Candidate) :
    List Token → Option Candidate
  | [] => best
  | t :: ts =>
    dominantFrom32 (i + 1) (depthAfter32 depth t.kind) (nextCandidate i depth.toInt best t) ts

/-- The index of the operator to split at, by a depth of 32 bits. -/
def dominantOperator32 (ts : List Token) : Option Nat :=
  (dominantFrom32 0 0 none ts).map (·.1)

/-- From a depth of 32 bits, so many tokens cannot lead out of 32 bits. -/
def InRange (d : Int32) (tokens : Nat) : Prop :=
  -2 ^ 31 ≤ d.toInt - tokens ∧ d.toInt + tokens < 2 ^ 31

theorem toInt_depthAfter32 {d : Int32} {n : Nat} (h : InRange d (n + 1)) (k : TokenKind) :
    (depthAfter32 d k).toInt = depthAfter d.toInt k ∧ InRange (depthAfter32 d k) n := by
  obtain ⟨hlo, hhi⟩ := h
  have heq : (depthAfter32 d k).toInt = depthAfter d.toInt k := by
    cases k <;> first
      | rfl
      | (simp only [depthAfter32, depthAfter, Int32.toInt_add, Int32.toInt_sub, Int32.toInt_one]
         exact Int.bmod_eq_of_le (by omega) (by omega))
  have hstep := nesting_le_one k
  have hstep' := neg_one_le_nesting k
  rw [depthAfter_eq] at heq
  refine ⟨by rw [heq, depthAfter_eq], ?_, ?_⟩ <;> omega

theorem isBalancedFrom32_eq {d : Int32} {ts : List Token} (h : InRange d ts.length) :
    isBalancedFrom32 d ts = isBalancedFrom d.toInt ts := by
  induction ts generalizing d with
  | nil =>
    rw [isBalancedFrom32, isBalancedFrom, Bool.eq_iff_iff, beq_iff_eq, beq_iff_eq,
      ← Int32.toInt_inj, Int32.toInt_zero]
  | cons t ts ih =>
    obtain ⟨heq, hrange⟩ := toInt_depthAfter32 h t.kind
    simp only [isBalancedFrom32, isBalancedFrom, ih hrange, heq, Int32.le_iff_toInt_le,
      Int32.toInt_zero]

/-- **A depth of 32 bits** is enough to tell whether a list is wrapped. -/
theorem isWrapped32_eq {ts : List Token} (h : ts.length < 2 ^ 31) :
    isWrapped32 ts = isWrapped ts := by
  rcases ts with - | ⟨t, - | ⟨u, ts⟩⟩
  · rfl
  · rfl
  · have hrange : InRange 0 (u :: ts).dropLast.length := by
      rw [List.length_cons] at h
      rw [InRange, Int32.toInt_zero, List.length_dropLast]
      omega
    simp only [isWrapped32, isWrapped, isBalancedFrom32_eq hrange, Int32.toInt_zero]

theorem dominantFrom32_eq {i : Nat} {d : Int32} {best : Option Candidate} {ts : List Token}
    (h : InRange d ts.length) : dominantFrom32 i d best ts = dominantFrom i d.toInt best ts := by
  induction ts generalizing i d best with
  | nil => rfl
  | cons t ts ih =>
    obtain ⟨heq, hrange⟩ := toInt_depthAfter32 h t.kind
    rw [dominantFrom32, dominantFrom_cons, ih hrange, heq, depthAfter_eq]

/-- **A depth of 32 bits** is enough to find the dominant operator. -/
theorem dominantOperator32_eq {ts : List Token} (h : ts.length < 2 ^ 31) :
    dominantOperator32 ts = dominantOperator ts := by
  have hrange : InRange 0 ts.length := by
    rw [InRange, Int32.toInt_zero]
    omega
  rw [dominantOperator32, dominantOperator, dominantFrom32_eq hrange, Int32.toInt_zero]

/-! ## Wrapped lists -/

/-- A list between two tokens is wrapped iff the first one opens a parenthesis and the depth comes
back to zero just behind the last one. -/
theorem isWrapped_iff_depth {l r : Token} {us : List Token} :
    isWrapped (l :: (us ++ [r])) = true ↔ l.kind = .lparen ∧ depth (l :: (us ++ [r])) = 0 ∧
      ∀ i ≤ us.length, depth ((l :: (us ++ [r])).take (i + 1)) ≠ 0 := by
  have hall : depth (l :: (us ++ [r])) = l.kind.nesting + (depth us + r.kind.nesting) := by
    rw [depth_cons, depth_append, depth_cons, depth_nil, Int.add_zero]
  simp only [isWrapped_cons_concat, Bool.and_eq_true, beq_iff_eq, isBalancedFrom_zero_iff,
    and_assoc]
  refine and_congr_right fun hl => ?_
  rw [nesting_lparen hl] at hall
  have hopen : StaysOpen 0 us ↔ ∀ i ≤ us.length, depth ((l :: (us ++ [r])).take (i + 1)) ≠ 0 := by
    rw [staysOpen_iff (Int.le_refl 0)]
    refine forall₂_congr fun i hi => ?_
    rw [List.take_succ_cons, List.take_append_of_le_length hi, depth_cons, nesting_lparen hl]
    omega
  rw [Balanced, ← hopen, hall]
  constructor
  · rintro ⟨hr, hus, hdepth⟩
    rw [hdepth, nesting_rparen hr]
    exact ⟨rfl, hus⟩
  · rintro ⟨hdepth, hus⟩
    -- the depth between them is not below zero, so the last token closes one
    have hnonneg := hus.depth_nonneg (Int.le_refl 0)
    have hr : r.kind = .rparen := eq_rparen_of_nesting (by omega)
    rw [nesting_rparen hr] at hdepth
    exact ⟨hr, hus, by omega⟩

/-- **A list is wrapped** iff it begins with an opening parenthesis, has two tokens at least, and
its last place is the first one up to which as many parentheses are opened as closed. For lists
shorter than `2 ^ 31` a depth of 32 bits tells the same. -/
theorem isWrapped_iff_isLeast (ts : List Token) :
    (isWrapped ts = true ↔ 2 ≤ ts.length ∧ ts.head?.map (·.kind) = some .lparen ∧
      IsLeast {i | i < ts.length ∧ OpensAsCloses (ts.take (i + 1))} (ts.length - 1)) ∧
    (ts.length < 2 ^ 31 → isWrapped32 ts = isWrapped ts) := by
  refine ⟨?_, isWrapped32_eq⟩
  rcases ts with - | ⟨l, ts⟩
  · exact iff_of_false (by simp [isWrapped]) (by simp)
  rcases List.eq_nil_or_concat ts with rfl | ⟨us, r, rfl⟩
  · exact iff_of_false (by simp [isWrapped]) (by simp)
  rw [List.concat_eq_append, isWrapped_iff_depth]
  have hlength : (l :: (us ++ [r])).length = us.length + 2 := by simp
  have htake : (l :: (us ++ [r])).take (us.length + 2 - 1 + 1) = l :: (us ++ [r]) :=
    List.take_of_length_le (Nat.le_of_eq hlength)
  simp only [hlength, List.head?_cons, Option.map_some, Option.some.injEq, opensAsCloses_iff]
  constructor
  · rintro ⟨hl, hdepth, hne⟩
    refine ⟨Nat.le_add_left 2 _, hl, ⟨Nat.lt_succ_self _, ?_⟩, fun i hi => ?_⟩
    · rwa [htake]
    · exact Nat.lt_of_not_le fun hle => hne i hle hi.2
  · rintro ⟨-, hl, ⟨-, hdepth⟩, hleast⟩
    rw [htake] at hdepth
    refine ⟨hl, hdepth, fun i hi hzero => ?_⟩
    have hle := hleast (show i < us.length + 2 ∧ _ from ⟨by omega, hzero⟩)
    omega

/-- `(())` is wrapped; `()()` is not, since it is closed in the middle; nor is `)(`. -/
theorem isWrapped_iff_isLeast_pairs :
    let l : Token := ⟨.lparen, "("⟩
    let r : Token := ⟨.rparen, ")"⟩
    isWrapped32 [l, l, r, r] = true ∧ isWrapped32 [l, r, l, r] = false ∧
      isWrapped32 [r, l] = false := by
  intro l r
  exact ⟨((isWrapped_iff_isLeast [l, l, r, r]).2 (by decide)).trans (by decide),
    ((isWrapped_iff_isLeast [l, r, l, r]).2 (by decide)).trans (by decide),
    ((isWrapped_iff_isLeast [r, l]).2 (by decide)).trans (by decide)⟩

/-! ## The dominant operator -/

/-- Is this an operator? Operands and parentheses are none. -/
def TokenKind.isOperator (k : TokenKind) : Bool := !k.isOperand && k != .lparen && k != .rparen

/-- The operators are the kinds that have a precedence. -/
theorem isOperator_iff {k : TokenKind} : k.isOperator = true ↔ ∃ p, k.precedence = some p := by
  cases k <;> simp [TokenKind.isOperator, TokenKind.isOperand, TokenKind.precedence]

/-- The token at index `i` is an operator, and as many parentheses are opened as closed in front of
it. -/
structure IsOuterOperator (ts : List Token) (i : Nat) (t : Token) : Prop where
  getElem? : ts[i]? = some t
  isOperator : t.kind.isOperator = true
  opensAsCloses : OpensAsCloses (ts.take i)

theorem outerAt_iff {ts : List Token} {i p : Nat} :
    OuterAt ts i p ↔ ∃ t, IsOuterOperator ts i t ∧ t.kind.precedence = some p := by
  rw [OuterAt, OuterFrom, Int.zero_add, ← opensAsCloses_iff]
  constructor
  · rintro ⟨hcount, t, ht, hp⟩
    exact ⟨t, ⟨ht, isOperator_iff.mpr ⟨p, hp⟩, hcount⟩, hp⟩
  · rintro ⟨t, ⟨ht, -, hcount⟩, hp⟩
    exact ⟨hcount, t, ht, hp⟩

/-- What it means to be chosen before another operator, by the kind of the first. -/
theorem outranks_iff {k : TokenKind} {i j p q : Nat} (hk : k.precedence = some p) :
    Outranks (i, p) (j, q) ↔ p ≤ q ∧ (q = p → if k.isUnary then i ≤ j else j ≤ i) := by
  have hunary : (k.isUnary = true) = (p = prefixPrecedence) := propext (isUnary_iff hk)
  simp only [Outranks, hunary]
  split <;> omega

/-- **The dominant operator** of any list, whether its parentheses match or not. There is none iff
no operator has as many opening as closing parentheses in front of it. Otherwise it is one of the
loosest of these, the last one if they stand between operands and the first one if they are prefix
operators. For lists shorter than `2 ^ 31` a depth of 32 bits finds the same. -/
theorem dominantOperator_iff_loosest (ts : List Token) :
    (dominantOperator ts = none ↔ ∀ i t, ¬ IsOuterOperator ts i t) ∧
    (∀ i, dominantOperator ts = some i ↔ ∃ t p, IsOuterOperator ts i t ∧
      t.kind.precedence = some p ∧ ∀ j u, IsOuterOperator ts j u → ∃ q,
        u.kind.precedence = some q ∧ p ≤ q ∧ (q = p → if t.kind.isUnary then i ≤ j else j ≤ i)) ∧
    (ts.length < 2 ^ 31 → dominantOperator32 ts = dominantOperator ts) := by
  refine ⟨?_, fun i => ?_, dominantOperator32_eq⟩
  · rw [dominantOperator_eq_none_iff]
    constructor
    · intro h i t ht
      obtain ⟨p, hp⟩ := isOperator_iff.mp ht.isOperator
      exact h i p (outerAt_iff.mpr ⟨t, ht, hp⟩)
    · intro h i p hip
      obtain ⟨t, ht, -⟩ := outerAt_iff.mp hip
      exact h i t ht
  · rw [dominantOperator_eq_some_iff]
    constructor
    · rintro ⟨p, hip, hall⟩
      obtain ⟨t, ht, hp⟩ := outerAt_iff.mp hip
      refine ⟨t, p, ht, hp, fun j u hu => ?_⟩
      obtain ⟨q, hq⟩ := isOperator_iff.mp hu.isOperator
      exact ⟨q, hq, (outranks_iff hp).mp (hall j q (outerAt_iff.mpr ⟨u, hu, hq⟩))⟩
    · rintro ⟨t, p, ht, hp, hall⟩
      refine ⟨p, outerAt_iff.mpr ⟨t, ht, hp⟩, fun j q hjq => ?_⟩
      obtain ⟨u, hu, hq⟩ := outerAt_iff.mp hjq
      obtain ⟨q', hq', hrank⟩ := hall j u hu
      obtain rfl := Option.some.inj (hq'.symm.trans hq)
      exact (outranks_iff hp).mpr hrank

/-- In `) + ( 7 - 7 * 7` only what stands behind both parentheses is outside of them, and the minus
sign binds looser; of two prefix operators the first dominates; in `(+)` there is none. -/
theorem dominantOperator_iff_loosest_unbalanced :
    let l : Token := ⟨.lparen, "("⟩
    let r : Token := ⟨.rparen, ")"⟩
    let n : Token := ⟨.number, "7"⟩
    dominantOperator32 [r, ⟨.plus, "+"⟩, l, n, ⟨.minus, "-"⟩, n, ⟨.star, "*"⟩, n] = some 4 ∧
      dominantOperator32 [⟨.negate, "-"⟩, ⟨.dereference, "*"⟩, n] = some 0 ∧
      dominantOperator32 [l, ⟨.plus, "+"⟩, r] = none := by
  intro l r n
  exact ⟨((dominantOperator_iff_loosest [r, _, l, n, _, n, _, n]).2.2 (by simp)).trans (by decide),
    ((dominantOperator_iff_loosest [_, _, n]).2.2 (by simp)).trans (by decide),
    ((dominantOperator_iff_loosest [l, _, r]).2.2 (by simp)).trans (by decide)⟩

end MachineMonitor.Expr
