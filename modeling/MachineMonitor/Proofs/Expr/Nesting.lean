import MachineMonitor.Expr.Evaluator

/-!
# Nesting depth, wrapped lists and outer operators

How deep a place of a token list lies inside parentheses, and what the two scans of the evaluator
make of it. Parentheses need not match: the depth may drop below zero and come back.

An operator is *outer* if as many parentheses are opened as closed before it. Outer operators are
ordered by `Outranks`: a looser one comes before a tighter one, of one binary class the later one
comes first, and of the prefix class the earlier one.

Results:
* `isWrapped_iff`: a list is wrapped iff it is a balanced list between a pair of parentheses.
* `dominantOperator_eq_some_iff`: the dominant operator is the outer operator that outranks all.
* `dominantOperator_eq_none_iff`: there is none iff no operator is outer.
-/

namespace MachineMonitor.Expr

/-! ## Depth -/

/-- By how much a token of this kind changes the nesting depth. -/
def TokenKind.nesting : TokenKind → Int
  | .lparen => 1
  | .rparen => -1
  | _ => 0

/-- How many more parentheses a list opens than it closes. -/
def depth : List Token → Int
  | [] => 0
  | t :: ts => t.kind.nesting + depth ts

@[simp] theorem depth_nil : depth [] = 0 := rfl

@[simp] theorem depth_cons (t : Token) (ts : List Token) :
    depth (t :: ts) = t.kind.nesting + depth ts := rfl

@[simp] theorem depth_append (ts us : List Token) : depth (ts ++ us) = depth ts + depth us := by
  induction ts with
  | nil => simp
  | cons t ts ih => rw [List.cons_append, depth_cons, depth_cons, ih, Int.add_assoc]

theorem depthAfter_eq (d : Int) (k : TokenKind) : depthAfter d k = d + k.nesting := by
  cases k <;> simp [depthAfter, TokenKind.nesting, Int.sub_eq_add_neg]

/-- The depth is the difference of two counts. -/
theorem depth_eq_count (ts : List Token) :
    depth ts = (ts.countP (·.kind == .lparen) : Int) - ts.countP (·.kind == .rparen) := by
  induction ts with
  | nil => rfl
  | cons t ts ih =>
    rw [depth_cons, List.countP_cons, List.countP_cons, ih]
    cases t.kind <;> simp [TokenKind.nesting] <;> omega

theorem nesting_lparen {t : Token} (h : t.kind = .lparen) : t.kind.nesting = 1 := by
  rw [h]; rfl

theorem nesting_rparen {t : Token} (h : t.kind = .rparen) : t.kind.nesting = -1 := by
  rw [h]; rfl

/-- An operator leaves the depth as it is. -/
theorem nesting_of_precedence {k : TokenKind} {p : Nat} (h : k.precedence = some p) :
    k.nesting = 0 := by
  cases k <;> first | rfl | exact absurd h (by simp [TokenKind.precedence])

/-! ## Balanced lists -/

/-- The depth, which is `d` before the list, never drops below zero in it. -/
def StaysOpen (d : Int) : List Token → Prop
  | [] => True
  | t :: ts => 0 ≤ d + t.kind.nesting ∧ StaysOpen (d + t.kind.nesting) ts

/-- Every closing parenthesis closes one that was opened before it, and none is left open. -/
def Balanced (ts : List Token) : Prop := StaysOpen 0 ts ∧ depth ts = 0

theorem staysOpen_append {d : Int} {ts us : List Token} :
    StaysOpen d (ts ++ us) ↔ StaysOpen d ts ∧ StaysOpen (d + depth ts) us := by
  induction ts generalizing d with
  | nil => simp [StaysOpen]
  | cons t ts ih =>
    simp only [List.cons_append, StaysOpen, ih, depth_cons, Int.add_assoc, and_assoc]

theorem StaysOpen.mono {d d' : Int} {ts : List Token} (h : StaysOpen d ts) (hd : d ≤ d') :
    StaysOpen d' ts := by
  induction ts generalizing d d' with
  | nil => trivial
  | cons t ts ih =>
    obtain ⟨hge, hrest⟩ := h
    exact ⟨by omega, ih hrest (by omega)⟩

theorem StaysOpen.depth_nonneg {d : Int} {ts : List Token} (h : StaysOpen d ts) (hd : 0 ≤ d) :
    0 ≤ d + depth ts := by
  induction ts generalizing d with
  | nil => rwa [depth_nil, Int.add_zero]
  | cons t ts ih =>
    rw [depth_cons, ← Int.add_assoc]
    exact ih h.2 h.1

theorem isBalancedFrom_iff {d : Int} {ts : List Token} :
    isBalancedFrom d ts = true ↔ StaysOpen d ts ∧ d + depth ts = 0 := by
  induction ts generalizing d with
  | nil => simp [isBalancedFrom, StaysOpen]
  | cons t ts ih =>
    simp only [isBalancedFrom, depthAfter_eq, Bool.and_eq_true, decide_eq_true_eq, ih, StaysOpen,
      depth_cons, Int.add_assoc, and_assoc]

theorem isBalancedFrom_zero_iff {ts : List Token} : isBalancedFrom 0 ts = true ↔ Balanced ts := by
  rw [isBalancedFrom_iff, Balanced, Int.zero_add]

/-- A token that is no parenthesis may stand anywhere. -/
theorem Balanced.singleton {t : Token} (h : t.kind.nesting = 0) : Balanced [t] := by
  simp [Balanced, StaysOpen, h]

theorem Balanced.append {ts us : List Token} (ht : Balanced ts) (hu : Balanced us) :
    Balanced (ts ++ us) := by
  refine ⟨staysOpen_append.mpr ⟨ht.1, ?_⟩, by rw [depth_append, ht.2, hu.2, Int.add_zero]⟩
  rw [ht.2]
  exact hu.1

theorem Balanced.parens {l r : Token} {ts : List Token} (hl : l.kind = .lparen)
    (hr : r.kind = .rparen) (h : Balanced ts) : Balanced (l :: (ts ++ [r])) := by
  have hopen : StaysOpen 1 ts := h.1.mono (by omega)
  simp [Balanced, StaysOpen, staysOpen_append, nesting_lparen hl, nesting_rparen hr, h.2, hopen]

/-! ## Wrapped lists -/

theorem isWrapped_cons_concat (l r : Token) (us : List Token) :
    isWrapped (l :: (us ++ [r])) =
      (l.kind == .lparen && r.kind == .rparen && isBalancedFrom 0 us) := by
  have hne : us ++ [r] ≠ [] := by simp
  obtain ⟨t, ts, hts⟩ := List.exists_cons_of_ne_nil hne
  rw [hts, isWrapped, ← hts, List.getLast?_concat, List.dropLast_concat]
  · rfl
  · exact List.cons_ne_nil t ts

/-- **A list is wrapped** iff it is a balanced list between an opening and a closing parenthesis. -/
theorem isWrapped_iff {ts : List Token} :
    isWrapped ts = true ↔ ∃ l us r, ts = l :: (us ++ [r]) ∧ l.kind = .lparen ∧
      r.kind = .rparen ∧ Balanced us := by
  constructor
  · intro h
    rcases ts with - | ⟨l, ts⟩
    · exact absurd h (by simp [isWrapped])
    · rcases List.eq_nil_or_concat ts with rfl | ⟨us, r, rfl⟩
      · exact absurd h (by simp [isWrapped])
      · rw [List.concat_eq_append] at h ⊢
        simp only [isWrapped_cons_concat, Bool.and_eq_true, beq_iff_eq,
          isBalancedFrom_zero_iff] at h
        exact ⟨l, us, r, rfl, h.1.1, h.1.2, h.2⟩
  · rintro ⟨l, us, r, rfl, hl, hr, hus⟩
    rw [isWrapped_cons_concat, hl, hr, isBalancedFrom_zero_iff.mpr hus]
    rfl

/-! ## Outer operators -/

/-- The token at index `i` is an operator of precedence `p`, and the depth before it is zero if it
is `d` before the list. -/
def OuterFrom (d : Int) (ts : List Token) (i p : Nat) : Prop :=
  d + depth (ts.take i) = 0 ∧ ∃ t, ts[i]? = some t ∧ t.kind.precedence = some p

/-- The token at index `i` is an operator of precedence `p`, with as many opening as closing
parentheses before it. -/
def OuterAt (ts : List Token) (i p : Nat) : Prop := OuterFrom 0 ts i p

theorem not_outerFrom_nil {d : Int} {i p : Nat} : ¬ OuterFrom d [] i p := by
  rintro ⟨-, t, ht, -⟩
  exact absurd ht (by simp)

theorem outerFrom_cons_zero {d : Int} {t : Token} {ts : List Token} {p : Nat} :
    OuterFrom d (t :: ts) 0 p ↔ d = 0 ∧ t.kind.precedence = some p := by
  simp [OuterFrom]

theorem outerFrom_cons_succ {d : Int} {t : Token} {ts : List Token} {i p : Nat} :
    OuterFrom d (t :: ts) (i + 1) p ↔ OuterFrom (d + t.kind.nesting) ts i p := by
  simp [OuterFrom, Int.add_assoc]

theorem outerFrom_append_left {d : Int} {ts us : List Token} {i p : Nat} (h : OuterFrom d ts i p) :
    OuterFrom d (ts ++ us) i p := by
  obtain ⟨hd, t, ht, hp⟩ := h
  have hi : i < ts.length := (List.getElem?_eq_some_iff.mp ht).1
  refine ⟨?_, t, ?_, hp⟩
  · rwa [List.take_append_of_le_length (by omega)]
  · rwa [List.getElem?_append_left hi]

theorem outerFrom_append_right {d : Int} {ts us : List Token} {i p : Nat} :
    OuterFrom d (ts ++ us) (ts.length + i) p ↔ OuterFrom (d + depth ts) us i p := by
  rw [OuterFrom, List.take_length_add_append, depth_append, ← Int.add_assoc,
    List.getElem?_append_right (by omega), Nat.add_sub_cancel_left, OuterFrom]

/-- An outer operator of two lists in a row is one of the first or one of the second. -/
theorem outerFrom_append {d : Int} {ts us : List Token} {i p : Nat} :
    OuterFrom d (ts ++ us) i p ↔
      OuterFrom d ts i p ∨ ∃ j, i = ts.length + j ∧ OuterFrom (d + depth ts) us j p := by
  constructor
  · intro h
    by_cases hi : i < ts.length
    · obtain ⟨hd, t, ht, hp⟩ := h
      rw [List.take_append_of_le_length (by omega)] at hd
      rw [List.getElem?_append_left hi] at ht
      exact Or.inl ⟨hd, t, ht, hp⟩
    · obtain ⟨j, rfl⟩ := Nat.exists_eq_add_of_le (Nat.le_of_not_lt hi)
      exact Or.inr ⟨j, rfl, outerFrom_append_right.mp h⟩
  · rintro (h | ⟨j, rfl, h⟩)
    · exact outerFrom_append_left h
    · exact outerFrom_append_right.mpr h

/-- An operator between two lists is outer iff the first one closes as much as it opens. -/
theorem outerAt_length_iff {t : Token} {ls rs : List Token} {p : Nat} :
    OuterAt (ls ++ t :: rs) ls.length p ↔ depth ls = 0 ∧ t.kind.precedence = some p := by
  simp [OuterAt, OuterFrom]

/-! ## The dominant operator -/

/-- The precedence of the prefix operators. -/
def prefixPrecedence : Nat := 6

theorem isUnary_iff {k : TokenKind} {p : Nat} (h : k.precedence = some p) :
    k.isUnary = true ↔ p = prefixPrecedence := by
  cases k <;> simp_all [TokenKind.precedence, TokenKind.isUnary, prefixPrecedence] <;> omega

/-- A candidate is chosen before another: it binds looser, or they are of one class and it stands
further right, further left if that is the class of the prefix operators. -/
def Outranks (c c' : Candidate) : Prop :=
  c.2 < c'.2 ∨ c.2 = c'.2 ∧ if c.2 = prefixPrecedence then c.1 ≤ c'.1 else c'.1 ≤ c.1

theorem Outranks.refl (c : Candidate) : Outranks c c := by
  refine Or.inr ⟨rfl, ?_⟩
  split <;> exact Nat.le_refl _

theorem Outranks.trans {a b c : Candidate} (hab : Outranks a b) (hbc : Outranks b c) :
    Outranks a c := by
  unfold Outranks at *
  split at hab <;> split at hbc <;> split <;> omega

theorem Outranks.total (a b : Candidate) : Outranks a b ∨ Outranks b a := by
  unfold Outranks
  split <;> split <;> omega

theorem Outranks.antisymm {a b : Candidate} (hab : Outranks a b) (hba : Outranks b a) : a = b := by
  unfold Outranks at *
  refine Prod.ext ?_ ?_ <;> split at hab <;> split at hba <;> omega

/-- The candidate after a token, given the one before it. -/
def nextCandidate (i : Nat) (d : Int) (best : Option Candidate) (t : Token) : Option Candidate :=
  match t.kind.precedence with
  | some p => if d = 0 ∧ supersedes t.kind p best then some (i, p) else best
  | none => best

theorem dominantFrom_cons (i : Nat) (d : Int) (best : Option Candidate) (t : Token)
    (ts : List Token) :
    dominantFrom i d best (t :: ts) =
      dominantFrom (i + 1) (d + t.kind.nesting) (nextCandidate i d best t) ts := by
  rw [dominantFrom, depthAfter_eq]
  rfl

/-- `c` may be chosen from `best` and the outer operators of a list whose first index is `i`. -/
def Eligible (i : Nat) (d : Int) (best : Option Candidate) (ts : List Token) (c : Candidate) :
    Prop :=
  best = some c ∨ ∃ j, c.1 = i + j ∧ OuterFrom d ts j c.2

theorem eligible_cons {i : Nat} {d : Int} {best : Option Candidate} {t : Token} {ts : List Token}
    {c : Candidate} :
    Eligible i d best (t :: ts) c ↔
      best = some c ∨ (c.1 = i ∧ d = 0 ∧ t.kind.precedence = some c.2) ∨
        ∃ j, c.1 = i + 1 + j ∧ OuterFrom (d + t.kind.nesting) ts j c.2 := by
  refine or_congr Iff.rfl ⟨?_, ?_⟩
  · rintro ⟨j, hj, h⟩
    cases j with
    | zero => exact Or.inl ⟨hj, outerFrom_cons_zero.mp h⟩
    | succ j => exact Or.inr ⟨j, by omega, outerFrom_cons_succ.mp h⟩
  · rintro (⟨hi, h⟩ | ⟨j, hj, h⟩)
    · exact ⟨0, hi, outerFrom_cons_zero.mpr h⟩
    · exact ⟨j + 1, by omega, outerFrom_cons_succ.mpr h⟩

/-- A later operator takes the place of a candidate iff it outranks it. -/
theorem supersedes_iff {k : TokenKind} {i p : Nat} {b : Candidate} (hk : k.precedence = some p)
    (hb : b.1 < i) : supersedes k p (some b) = true ↔ Outranks (i, p) b := by
  have hu : k.isUnary = false ↔ p ≠ prefixPrecedence := by
    rw [← Bool.not_eq_true, isUnary_iff hk]
  obtain ⟨j, q⟩ := b
  simp only [supersedes, Bool.or_eq_true, Bool.and_eq_true, decide_eq_true_eq, beq_iff_eq,
    Bool.not_eq_true', hu, Outranks]
  simp only at hb
  constructor
  · rintro (h | ⟨h, hne⟩)
    · exact Or.inl h
    · exact Or.inr ⟨h, by rw [if_neg hne]; omega⟩
  · rintro (h | ⟨h, hif⟩)
    · exact Or.inl h
    · refine Or.inr ⟨h, fun he => ?_⟩
      rw [if_pos he] at hif
      omega

theorem nextCandidate_eq_some {i : Nat} {d : Int} {best : Option Candidate} {t : Token}
    {c : Candidate} (h : nextCandidate i d best t = some c) :
    best = some c ∨ c.1 = i ∧ d = 0 ∧ t.kind.precedence = some c.2 := by
  unfold nextCandidate at h
  split at h
  · rename_i p hp
    split at h
    · rename_i hc
      cases h
      exact Or.inr ⟨rfl, hc.1, hp⟩
    · exact Or.inl h
  · exact Or.inl h

/-- The next candidate outranks the one before and the token. -/
theorem nextCandidate_outranks {i : Nat} {d : Int} {best : Option Candidate} {t : Token}
    {c : Candidate} (hbest : ∀ b, best = some b → b.1 < i)
    (hc : best = some c ∨ c.1 = i ∧ d = 0 ∧ t.kind.precedence = some c.2) :
    ∃ b, nextCandidate i d best t = some b ∧ Outranks b c := by
  unfold nextCandidate
  cases hp : t.kind.precedence with
  | none =>
    rcases hc with rfl | ⟨-, -, h⟩
    · exact ⟨c, rfl, Outranks.refl c⟩
    · rw [hp] at h
      exact absurd h (by simp)
  | some p =>
    simp only
    by_cases hs : d = 0 ∧ supersedes t.kind p best = true
    · rw [if_pos hs]
      refine ⟨(i, p), rfl, ?_⟩
      rcases hc with rfl | ⟨hi, -, h⟩
      · exact (supersedes_iff hp (hbest c rfl)).mp hs.2
      · rw [hp] at h
        obtain rfl := Option.some.inj h
        rw [← hi]
        exact Outranks.refl c
    · rw [if_neg hs]
      rcases hc with rfl | ⟨hi, hd, h⟩
      · exact ⟨c, rfl, Outranks.refl c⟩
      · rw [hp] at h
        obtain rfl := Option.some.inj h
        rw [← hi] at hbest
        cases best with
        | none => exact absurd ⟨hd, rfl⟩ hs
        | some b =>
          refine ⟨b, rfl, (Outranks.total b c).resolve_right fun hcb => hs ⟨hd, ?_⟩⟩
          exact (supersedes_iff hp (hbest b rfl)).mpr hcb

/-- The scan ends with an eligible candidate. -/
theorem eligible_of_dominantFrom {i : Nat} {d : Int} {best : Option Candidate} {ts : List Token}
    {c : Candidate} (h : dominantFrom i d best ts = some c) : Eligible i d best ts c := by
  induction ts generalizing i d best with
  | nil => exact Or.inl h
  | cons t ts ih =>
    rw [dominantFrom_cons] at h
    rw [eligible_cons]
    rcases ih h with hb | ho
    · rcases nextCandidate_eq_some hb with hb | ht
      · exact Or.inl hb
      · exact Or.inr (Or.inl ht)
    · exact Or.inr (Or.inr ho)

/-- The candidate that the scan ends with outranks every eligible one. -/
theorem dominantFrom_outranks {i : Nat} {d : Int} {best : Option Candidate} {ts : List Token}
    {c : Candidate} (hbest : ∀ b, best = some b → b.1 < i) (hc : Eligible i d best ts c) :
    ∃ b, dominantFrom i d best ts = some b ∧ Outranks b c := by
  induction ts generalizing i d best c with
  | nil =>
    rcases hc with rfl | ⟨j, -, h⟩
    · exact ⟨c, rfl, Outranks.refl c⟩
    · exact absurd h not_outerFrom_nil
  | cons t ts ih =>
    have hnext : ∀ b, nextCandidate i d best t = some b → b.1 < i + 1 := by
      intro b hb
      rcases nextCandidate_eq_some hb with hb | ⟨hi, -⟩
      · exact Nat.lt_succ_of_lt (hbest b hb)
      · omega
    rw [dominantFrom_cons]
    rw [eligible_cons, ← or_assoc] at hc
    rcases hc with hc | hc
    · obtain ⟨b, hb, hbc⟩ := nextCandidate_outranks hbest hc
      obtain ⟨b', hb', hbb⟩ := ih hnext (Or.inl hb)
      exact ⟨b', hb', hbb.trans hbc⟩
    · exact ih hnext (Or.inr hc)

theorem eligible_zero_iff {ts : List Token} (c : Candidate) :
    Eligible 0 0 none ts c ↔ OuterAt ts c.1 c.2 := by
  simp [Eligible, OuterAt]

/-- **The dominant operator** is the outer operator that outranks all outer operators. -/
theorem dominantOperator_eq_some_iff {ts : List Token} {i : Nat} :
    dominantOperator ts = some i ↔
      ∃ p, OuterAt ts i p ∧ ∀ j q, OuterAt ts j q → Outranks (i, p) (j, q) := by
  have hnone : ∀ b : Candidate, none = some b → b.1 < 0 := fun b hb => absurd hb (by simp)
  simp only [dominantOperator, Option.map_eq_some_iff]
  constructor
  · rintro ⟨⟨i, p⟩, h, rfl⟩
    refine ⟨p, (eligible_zero_iff _).mp (eligible_of_dominantFrom h), fun j q hjq => ?_⟩
    obtain ⟨b, hb, hout⟩ := dominantFrom_outranks hnone ((eligible_zero_iff (j, q)).mpr hjq)
    rw [h] at hb
    obtain rfl := Option.some.inj hb
    exact hout
  · rintro ⟨p, hip, hall⟩
    obtain ⟨b, hb, hout⟩ := dominantFrom_outranks hnone ((eligible_zero_iff (i, p)).mpr hip)
    have hback := hall b.1 b.2 ((eligible_zero_iff b).mp (eligible_of_dominantFrom hb))
    exact ⟨b, hb, by rw [hout.antisymm hback]⟩

/-- There is no dominant operator iff no operator is outer. -/
theorem dominantOperator_eq_none_iff {ts : List Token} :
    dominantOperator ts = none ↔ ∀ i p, ¬ OuterAt ts i p := by
  have hnone : ∀ b : Candidate, none = some b → b.1 < 0 := fun b hb => absurd hb (by simp)
  constructor
  · intro h i p hip
    obtain ⟨b, hb, -⟩ := dominantFrom_outranks hnone ((eligible_zero_iff (i, p)).mpr hip)
    rw [dominantOperator, hb] at h
    exact absurd h (by simp)
  · intro h
    rw [dominantOperator, Option.map_eq_none_iff, Option.eq_none_iff_forall_ne_some]
    intro c hc
    exact h c.1 c.2 ((eligible_zero_iff c).mp (eligible_of_dominantFrom hc))

end MachineMonitor.Expr
