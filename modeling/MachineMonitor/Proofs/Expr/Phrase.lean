import MachineMonitor.Proofs.Expr.Denotation

/-!
# The grammar without levels

A phrase is an operand, a phrase in parentheses, a prefix operator before a phrase, or a binary
operator between two phrases. How operators group is left open, so a phrase may be built in several
ways. The levels of the stratified grammar choose one of them and reject no phrase.

Results:
* `Phrase.split`: what stands on either side of an outer binary operator is a phrase.
* `Phrase.exists_parses`: every phrase derives a tree.
* `phrase_iff_parses`: the phrases are the token lists that derive a tree.
-/

namespace MachineMonitor.Expr

/-- A token list that reads as an expression, however its operators group. -/
inductive Phrase : List Token → Prop
  | operand {t : Token} (h : t.kind.isOperand = true) : Phrase [t]
  | parens {l r : Token} {ts : List Token} (hl : l.kind = .lparen) (h : Phrase ts)
      (hr : r.kind = .rparen) : Phrase (l :: (ts ++ [r]))
  | unary {t : Token} {ts : List Token} (op : PrefixOp) (ht : t.kind = op.kind) (h : Phrase ts) :
      Phrase (t :: ts)
  | binary {t : Token} {ls rs : List Token} (op : BinaryOp) (hl : Phrase ls) (ht : t.kind = op.kind)
      (hr : Phrase rs) : Phrase (ls ++ t :: rs)

/-- What derives a tree is a phrase. -/
theorem Derives.phrase {n : Nat} {ts : List Token} {e : Tree Token}
    (h : Derives IsOperand n ts e) : Phrase ts := by
  induction h with
  | operand h => exact .operand h.1
  | parens hl _ hr ih => exact .parens hl ih hr
  | unary ht _ ih => exact .unary _ ht ih
  | binary _ _ ht _ ihl ihr => exact .binary _ ihl ht ihr
  | tighter _ ih => exact ih

theorem PrefixOp.nesting_kind (op : PrefixOp) : op.kind.nesting = 0 :=
  nesting_of_precedence op.precedence_kind

theorem BinaryOp.nesting_kind (op : BinaryOp) : op.kind.nesting = 0 :=
  nesting_of_precedence op.precedence_kind

namespace Phrase

theorem balanced {ts : List Token} (h : Phrase ts) : Balanced ts := by
  induction h with
  | operand h => exact .singleton (nesting_of_isOperand h)
  | parens hl _ hr ih => exact ih.parens hl hr
  | unary op ht _ ih => exact (Balanced.singleton (ht ▸ op.nesting_kind)).append ih
  | binary op _ ht _ ihl ihr =>
    exact ihl.append ((Balanced.singleton (ht ▸ op.nesting_kind)).append ihr)

/-! ## Splitting a phrase -/

/-- **What stands on either side of an outer binary operator** is a phrase. -/
theorem split {ts xs ys : List Token} {o : Token} (h : Phrase ts) (hts : ts = xs ++ o :: ys)
    (op : BinaryOp) (ho : o.kind = op.kind) (hdepth : depth xs = 0) : Phrase xs ∧ Phrase ys := by
  induction h generalizing xs ys with
  | operand h =>
    obtain ⟨rfl, hcons⟩ | ⟨us, rfl, hnil⟩ := List.cons_eq_append_iff.mp hts
    · obtain ⟨rfl, -⟩ := List.cons.inj hcons
      rw [ho, op.isOperand_kind] at h
      exact absurd h (by simp)
    · exact absurd hnil (by simp)
  | parens hl h hr _ =>
    have hout : OuterAt (xs ++ o :: ys) xs.length op.level :=
      outerAt_length_iff.mpr ⟨hdepth, ho ▸ op.precedence_kind⟩
    rw [← hts] at hout
    exact absurd hout (not_outerAt_parens hl hr h.balanced _ _)
  | @unary t ts op' ht h ih =>
    obtain ⟨rfl, hcons⟩ | ⟨us, rfl, hus⟩ := List.cons_eq_append_iff.mp hts
    · obtain ⟨rfl, -⟩ := List.cons.inj hcons
      have hu := op'.isUnary_kind
      rw [← ht, ho, op.isUnary_kind] at hu
      exact absurd hu (by simp)
    · rw [depth_cons, ht, op'.nesting_kind, Int.zero_add] at hdepth
      obtain ⟨hxs, hys⟩ := ih hus hdepth
      exact ⟨.unary op' ht hxs, hys⟩
  | @binary t ls rs op' hl ht hr ihl ihr =>
    -- the operator that is split at stands left of the root, is the root, or stands right of it
    obtain ⟨us, rfl, hus⟩ | ⟨us, rfl, hus⟩ := List.append_eq_append_iff.mp hts
    · obtain ⟨rfl, hcons⟩ | ⟨vs, rfl, hvs⟩ := List.cons_eq_append_iff.mp hus
      · obtain ⟨-, rfl⟩ := List.cons.inj hcons
        rw [List.append_nil]
        exact ⟨hl, hr⟩
      · rw [depth_append, hl.balanced.2, depth_cons, ht, op'.nesting_kind, Int.zero_add,
          Int.zero_add] at hdepth
        obtain ⟨hxs, hys⟩ := ihr hvs hdepth
        exact ⟨.binary op' hl ht hxs, hys⟩
    · obtain ⟨rfl, hcons⟩ | ⟨vs, rfl, hvs⟩ := List.cons_eq_append_iff.mp hus
      · obtain ⟨-, rfl⟩ := List.cons.inj hcons
        rw [List.append_nil] at hl
        exact ⟨hl, hr⟩
      · obtain ⟨hxs, hys⟩ := ihl rfl hdepth
        rw [hvs]
        exact ⟨hxs, .binary op' hys ht hr⟩

/-- A prefix operator that dominates a phrase is its first token. -/
theorem of_dominant_unary {ts ls rs : List Token} {o : Token} (h : Phrase ts)
    (hts : ts = ls ++ o :: rs) (hd : dominantOperator ts = some ls.length)
    (hu : o.kind.isUnary = true) : ls = [] ∧ Phrase rs := by
  obtain ⟨p, hp, hall⟩ := dominantOperator_eq_some_iff.mp hd
  have hop : o.kind.precedence = some p := by
    rw [hts] at hp
    exact (outerAt_length_iff.mp hp).2
  obtain rfl := (isUnary_iff hop).mp hu
  cases h with
  | operand h =>
    have hprec := (outerFrom_singleton.mp hp).2.2
    rw [precedence_of_isOperand h] at hprec
    exact absurd hprec (by simp)
  | parens hl h hr => exact absurd hp (not_outerAt_parens hl hr h.balanced _ _)
  | @unary t ts op ht h =>
    -- of the outer prefix operators the first one dominates
    have hfirst : OuterAt (t :: ts) 0 prefixPrecedence :=
      outerFrom_cons_zero.mpr ⟨rfl, ht ▸ op.precedence_kind⟩
    have hls : ls = [] := by
      rcases hall 0 _ hfirst with hlt | ⟨-, hle⟩
      · exact absurd hlt (Nat.lt_irrefl _)
      · rw [if_pos rfl] at hle
        exact List.length_eq_zero_iff.mp (Nat.le_zero.mp hle)
    subst hls
    obtain ⟨-, rfl⟩ := List.cons.inj hts
    exact ⟨rfl, h⟩
  | @binary t ls' rs' op hl ht hr =>
    have hroot : OuterAt (ls' ++ t :: rs') ls'.length op.level :=
      outerAt_length_iff.mpr ⟨hl.balanced.2, ht ▸ op.precedence_kind⟩
    have hlt := op.level_lt
    rcases hall _ _ hroot with hlt' | ⟨heq, -⟩
    · exact absurd hlt' (Nat.lt_asymm hlt)
    · exact absurd heq.symm (Nat.ne_of_lt hlt)

/-- A phrase in which no operator is outer is an operand, or stands in parentheses. -/
theorem of_dominant_none {ts : List Token} (h : Phrase ts) (hd : dominantOperator ts = none) :
    (∃ t, ts = [t] ∧ t.kind.isOperand = true) ∨
      ∃ l us r, ts = l :: (us ++ [r]) ∧ l.kind = .lparen ∧ Phrase us ∧ r.kind = .rparen := by
  have hnone := dominantOperator_eq_none_iff.mp hd
  cases h with
  | @operand t h => exact Or.inl ⟨t, rfl, h⟩
  | @parens l r us hl h hr => exact Or.inr ⟨l, us, r, rfl, hl, h, hr⟩
  | unary op ht h =>
    exact absurd (outerFrom_cons_zero.mpr ⟨rfl, ht ▸ op.precedence_kind⟩)
      (hnone 0 prefixPrecedence)
  | @binary t ls rs op hl ht hr =>
    exact absurd (outerAt_length_iff.mpr ⟨hl.balanced.2, ht ▸ op.precedence_kind⟩)
      (hnone ls.length op.level)

/-- **Every phrase derives a tree.** -/
theorem exists_parses {ts : List Token} (h : Phrase ts) : ∃ e, Parses ts e := by
  induction hlen : ts.length using Nat.strongRecOn generalizing ts with
  | ind n ih =>
    subst hlen
    cases hd : dominantOperator ts with
    | none =>
      rcases h.of_dominant_none hd with ⟨t, rfl, ht⟩ | ⟨l, us, r, rfl, hl, hus, hr⟩
      · exact ⟨.operand t, (Derives.operand ⟨ht, rfl⟩).mono (by decide)⟩
      · have hlt : us.length < (l :: (us ++ [r])).length := by
          rw [List.length_cons, List.length_append]
          omega
        obtain ⟨e, he⟩ := ih us.length hlt hus rfl
        exact ⟨e, (Derives.parens hl he hr).mono (by decide)⟩
    | some i =>
      obtain ⟨ls, o, rs, rfl, rfl⟩ := exists_split_of_dominant hd
      have hlen : (ls ++ o :: rs).length = ls.length + (rs.length + 1) := List.length_append
      by_cases hu : o.kind.isUnary = true
      · obtain ⟨rfl, hrs⟩ := h.of_dominant_unary rfl hd hu
        obtain ⟨e, he⟩ := ih rs.length (by omega) hrs rfl
        exact he.unary hu hd
      · rw [Bool.not_eq_true] at hu
        obtain ⟨p, hp, -⟩ := dominantOperator_eq_some_iff.mp hd
        obtain ⟨hdepth, hop⟩ := outerAt_length_iff.mp hp
        obtain ⟨op, ho, -⟩ := exists_binaryOp hop hu
        obtain ⟨hls, hrs⟩ := h.split rfl op ho hdepth
        obtain ⟨left, hl⟩ := ih ls.length (by omega) hls rfl
        obtain ⟨right, hr⟩ := ih rs.length (by omega) hrs rfl
        exact hl.binary hr hu hd

end Phrase

/-- **The phrases are the token lists that derive a tree.** -/
theorem phrase_iff_parses {ts : List Token} : Phrase ts ↔ ∃ e, Parses ts e :=
  ⟨Phrase.exists_parses, fun ⟨_, he⟩ => he.phrase⟩

end MachineMonitor.Expr
