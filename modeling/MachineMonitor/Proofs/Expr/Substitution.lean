import MachineMonitor.Proofs.Expr.Denotation
import MachineMonitor.Proofs.Numeral

/-!
# Replacing a part in parentheses by its value

From outside, a balanced list in parentheses is like a single operand: it shows no operator, and no
parenthesis in it matches one that stands outside. So the evaluator takes a list apart at the same
places whichever of the two stands in it, also if the list is malformed elsewhere. This needs the
part to stand where no more parentheses are closed than opened; after a parenthesis that closes too
much, an operator inside the part may be outer, but then no list has a value.

Results:
* `Sealed.parens`, `Sealed.operand`: what shows no operator.
* `Sealed.isWrapped_swap`, `Sealed.dominant_swap`: the evaluator takes a list apart at the same
  place whichever sealed part stands in it.
* `Sealed.evalTokens_swap`: it gives the same value, if the parts have the same value.
* `evalTokens_value_for_parens`: a part in parentheses and the decimal text of its value.
-/

namespace MachineMonitor.Expr

/-! ## Sealed parts -/

/-- A part of a list that shows no operator where at least as many parentheses are opened as closed
before it, and whose parentheses match. -/
structure Sealed (u : List Token) : Prop where
  ne_nil : u ≠ []
  balanced : Balanced u
  hidden : ∀ {d : Int} {i p : Nat}, 0 ≤ d → ¬ OuterFrom d u i p

theorem Sealed.operand {t : Token} (h : t.kind.isOperand = true) : Sealed [t] where
  ne_nil := List.cons_ne_nil t []
  balanced := .singleton (nesting_of_isOperand h)
  hidden _ ho := by
    have hp := (outerFrom_singleton.mp ho).2.2
    rw [precedence_of_isOperand h] at hp
    exact absurd hp (by simp)

theorem Sealed.parens {l r : Token} {ts : List Token} (hl : l.kind = .lparen)
    (hr : r.kind = .rparen) (h : Balanced ts) : Sealed (l :: (ts ++ [r])) where
  ne_nil := List.cons_ne_nil l _
  balanced := h.parens hl hr
  hidden hd := not_outerFrom_parens hd hl hr h _ _

namespace Sealed

variable {u v before after : List Token} (hu : Sealed u) (hv : Sealed v)

include hu

/-! ### Parentheses around a part -/

/-- Around a sealed part, parentheses match iff they do without it. -/
theorem balanced_around : Balanced (before ++ u ++ after) ↔ Balanced (before ++ after) := by
  have hdepth : depth (before ++ u) = depth before := by
    rw [depth_append, hu.balanced.2, Int.add_zero]
  have hall : depth (before ++ u ++ after) = depth (before ++ after) := by
    rw [depth_append, hdepth, depth_append]
  rw [Balanced, Balanced, hall, staysOpen_append, staysOpen_append, staysOpen_append, hdepth]
  refine and_congr (and_congr_left' (and_iff_left_of_imp fun hb => ?_)) Iff.rfl
  exact hu.balanced.1.mono (hb.depth_nonneg (Int.le_refl 0))

/-- Parentheses that wrap more than a sealed part stand outside of it, one on each side. -/
theorem exists_of_isWrapped (hne : before ≠ [] ∨ after ≠ [])
    (h : isWrapped (before ++ u ++ after) = true) :
    ∃ l before' after' r, before = l :: before' ∧ after = after' ++ [r] ∧ l.kind = .lparen ∧
      r.kind = .rparen ∧ Balanced (before' ++ u ++ after') := by
  obtain ⟨l, us, r, heq, hl, hr, hus⟩ := isWrapped_iff.mp h
  have hdepth := hu.balanced.2
  rcases before with - | ⟨l', before'⟩
  · -- the part would begin with the first parenthesis, which is closed inside the part
    obtain ⟨x, u', rfl⟩ := List.exists_cons_of_ne_nil hu.ne_nil
    rcases List.eq_nil_or_concat after with rfl | ⟨after', r', rfl⟩
    · exact absurd hne (by simp)
    · rw [List.concat_eq_append] at heq
      have heq' : x :: ((u' ++ after') ++ [r']) = l :: (us ++ [r]) := by
        simpa using heq
      obtain ⟨rfl, htail⟩ := List.cons.inj heq'
      obtain ⟨rfl, -⟩ := List.append_inj' htail rfl
      have hopen := (staysOpen_append.mp hus.1).1.depth_nonneg (Int.le_refl 0)
      rw [depth_cons, nesting_lparen hl] at hdepth
      omega
  · obtain ⟨rfl, htail⟩ := List.cons.inj heq
    rcases List.eq_nil_or_concat after with rfl | ⟨after', r', rfl⟩
    · -- the part would end with the last parenthesis, which is opened inside the part
      obtain ⟨u', z, rfl⟩ := (List.eq_nil_or_concat u).resolve_left hu.ne_nil
      rw [List.concat_eq_append] at hdepth htail
      have heq' : (before' ++ u') ++ [z] = us ++ [r] := by simpa using htail
      obtain ⟨rfl, hz⟩ := List.append_inj' heq' rfl
      obtain rfl := (List.cons.inj hz).1
      have hopen := (staysOpen_append.mp hus.1).1.depth_nonneg (Int.le_refl 0)
      have hall := hus.2
      rw [depth_append] at hall
      rw [depth_append, depth_cons, depth_nil, nesting_rparen hr] at hdepth
      omega
    · rw [List.concat_eq_append] at htail ⊢
      have heq' : (before' ++ u ++ after') ++ [r'] = us ++ [r] := by simpa using htail
      obtain ⟨rfl, hr'⟩ := List.append_inj' heq' rfl
      obtain rfl := (List.cons.inj hr').1
      exact ⟨l', before', after', r', rfl, rfl, hl, hr, hus⟩

include hv in
/-- Whether a list is wrapped does not depend on which sealed part stands in it. -/
theorem isWrapped_swap (hne : before ≠ [] ∨ after ≠ [])
    (h : isWrapped (before ++ u ++ after) = true) : isWrapped (before ++ v ++ after) = true := by
  obtain ⟨l, before', after', r, rfl, rfl, hl, hr, hus⟩ := hu.exists_of_isWrapped hne h
  have hvs := hv.balanced_around.mpr (hu.balanced_around.mp hus)
  exact isWrapped_iff.mpr ⟨l, before' ++ v ++ after', r, by simp, hl, hr, hvs⟩

/-! ### Operators around a part -/

variable (hopen : 0 ≤ depth before)

include hopen

/-- The outer operators around a sealed part are those on its left and those on its right. -/
theorem outerAt_around {i p : Nat} :
    OuterAt (before ++ u ++ after) i p ↔
      OuterAt before i p ∨
        ∃ j, i = before.length + u.length + j ∧ OuterFrom (depth before) after j p := by
  have hdepth : depth (before ++ u) = depth before := by
    rw [depth_append, hu.balanced.2, Int.add_zero]
  rw [OuterAt, outerFrom_append, outerFrom_append, hdepth, List.length_append, Int.zero_add]
  refine or_congr ⟨?_, Or.inl⟩ Iff.rfl
  rintro (h | ⟨j, -, h⟩)
  · exact h
  · exact absurd h (hu.hidden hopen)

/-- Where a token beside a part of length `k` stands when a part of length `l` takes its place, `a`
tokens being in front of both. -/
def Moved (a k l i i' : Nat) : Prop := i < a ∧ i' = i ∨ ∃ j, i = a + k + j ∧ i' = a + l + j

omit hu hopen in
theorem Moved.symm {a k l i i' : Nat} (h : Moved a k l i i') : Moved a l k i' i := by
  rcases h with ⟨hi, rfl⟩ | ⟨j, hi, hi'⟩
  · exact Or.inl ⟨hi, rfl⟩
  · exact Or.inr ⟨j, hi', hi⟩

omit hu hopen in
/-- Tokens that are moved keep their order. -/
theorem Moved.outranks {a k l i i' j j' p q : Nat} (hi : Moved a k l i i') (hj : Moved a k l j j')
    (h : Outranks (i, p) (j, q)) : Outranks (i', p) (j', q) := by
  unfold Outranks at *
  rcases hi with ⟨hi, rfl⟩ | ⟨m, rfl, rfl⟩ <;> rcases hj with ⟨hj, rfl⟩ | ⟨n, rfl, rfl⟩ <;>
    split at h <;> split <;> omega

include hv

theorem exists_moved {i p : Nat} (h : OuterAt (before ++ u ++ after) i p) :
    ∃ i', Moved before.length u.length v.length i i' ∧ OuterAt (before ++ v ++ after) i' p := by
  rcases (hu.outerAt_around hopen).mp h with hleft | ⟨j, hi, hright⟩
  · obtain ⟨-, token, ht, -⟩ := id hleft
    have hi : i < before.length := (List.getElem?_eq_some_iff.mp ht).1
    exact ⟨i, Or.inl ⟨hi, rfl⟩, (hv.outerAt_around hopen).mpr (Or.inl hleft)⟩
  · exact ⟨_, Or.inr ⟨j, hi, rfl⟩, (hv.outerAt_around hopen).mpr (Or.inr ⟨j, rfl, hright⟩)⟩

/-- The dominant operator does not depend on which sealed part stands in a list. -/
theorem dominant_swap {i : Nat} (h : dominantOperator (before ++ u ++ after) = some i) :
    ∃ i', Moved before.length u.length v.length i i' ∧
      dominantOperator (before ++ v ++ after) = some i' := by
  obtain ⟨p, hip, hall⟩ := dominantOperator_eq_some_iff.mp h
  obtain ⟨i', hmoved, hip'⟩ := hu.exists_moved hv hopen hip
  refine ⟨i', hmoved, dominantOperator_eq_some_iff.mpr ⟨p, hip', fun j' q hjq' => ?_⟩⟩
  obtain ⟨j, hback, hjq⟩ := hv.exists_moved hu hopen hjq'
  exact hmoved.outranks hback.symm (hall j q hjq)

theorem dominant_swap_none (h : dominantOperator (before ++ u ++ after) = none) :
    dominantOperator (before ++ v ++ after) = none := by
  cases hd : dominantOperator (before ++ v ++ after) with
  | none => rfl
  | some i =>
    obtain ⟨i', -, hi'⟩ := hv.dominant_swap hu hopen hd
    rw [h] at hi'
    exact absurd hi' (by simp)

end Sealed

/-! ## Values around a part -/

section Target

variable {τ : Type} [Target τ] (t : τ)

theorem evalTokens_split_congr {op : Token} {ls ls' rs rs' : List Token}
    (hlen : ls ≠ [] ∨ rs ≠ []) (hlen' : ls' ≠ [] ∨ rs' ≠ []) (hempty : ls = [] ↔ ls' = [])
    (hd : dominantOperator (ls ++ op :: rs) = some ls.length)
    (hd' : dominantOperator (ls' ++ op :: rs') = some ls'.length)
    (hl : evalTokens t ls = evalTokens t ls') (hr : evalTokens t rs = evalTokens t rs') :
    evalTokens t (ls ++ op :: rs) = evalTokens t (ls' ++ op :: rs') := by
  rw [evalTokens_split t hlen hd, evalTokens_split t hlen' hd', hl, hr]
  simp only [hempty]

namespace Sealed

variable {u v before after : List Token} (hu : Sealed u) (hv : Sealed v)

include hu

theorem append_ne_nil : before ++ u ++ after ≠ [] := by
  simp [hu.ne_nil]

theorem two_le_length (hne : before ≠ [] ∨ after ≠ []) : 2 ≤ (before ++ u ++ after).length := by
  have hpos := List.length_pos_iff.mpr hu.ne_nil
  have hrest := hne.imp List.length_pos_iff.mpr List.length_pos_iff.mpr
  rw [List.length_append, List.length_append]
  omega

include hv

/-- The part stands in the parentheses that wrap the list. -/
theorem evalTokens_swap_parens {l r : Token} (hl : l.kind = .lparen) (hr : r.kind = .rparen)
    (hus : Balanced (before ++ u ++ after))
    (hinside : evalTokens t (before ++ u ++ after) = evalTokens t (before ++ v ++ after)) :
    evalTokens t (l :: before ++ u ++ (after ++ [r])) =
      evalTokens t (l :: before ++ v ++ (after ++ [r])) := by
  have hvs : Balanced (before ++ v ++ after) := hv.balanced_around.mpr (hu.balanced_around.mp hus)
  have hparens : ∀ w, l :: before ++ w ++ (after ++ [r]) =
      l :: ((before ++ w ++ after) ++ [r]) := by simp
  rw [hparens, hparens, evalTokens_parens t hl hr hus, evalTokens_parens t hl hr hvs, hinside]

/-- The part stands on the right of the dominant operator. -/
theorem evalTokens_swap_right {op : Token} {ls rs : List Token}
    (hd : dominantOperator (ls ++ op :: rs ++ u ++ after) = some ls.length)
    (hd' : dominantOperator (ls ++ op :: rs ++ v ++ after) = some ls.length)
    (hright : evalTokens t (rs ++ u ++ after) = evalTokens t (rs ++ v ++ after)) :
    evalTokens t (ls ++ op :: rs ++ u ++ after) = evalTokens t (ls ++ op :: rs ++ v ++ after) := by
  have hsplit : ∀ w, ls ++ op :: rs ++ w ++ after = ls ++ op :: (rs ++ w ++ after) := by simp
  rw [hsplit] at hd hd'
  rw [hsplit, hsplit]
  exact evalTokens_split_congr t (Or.inr hu.append_ne_nil) (Or.inr hv.append_ne_nil) Iff.rfl hd hd'
    rfl hright

/-- The part stands on the left of the dominant operator. -/
theorem evalTokens_swap_left {op : Token} {ls rs : List Token}
    (hd : dominantOperator (before ++ u ++ (ls ++ op :: rs)) = some (before ++ u ++ ls).length)
    (hd' : dominantOperator (before ++ v ++ (ls ++ op :: rs)) = some (before ++ v ++ ls).length)
    (hleft : evalTokens t (before ++ u ++ ls) = evalTokens t (before ++ v ++ ls)) :
    evalTokens t (before ++ u ++ (ls ++ op :: rs)) =
      evalTokens t (before ++ v ++ (ls ++ op :: rs)) := by
  have hsplit : ∀ w, before ++ w ++ (ls ++ op :: rs) = (before ++ w ++ ls) ++ op :: rs := by simp
  rw [hsplit] at hd hd'
  rw [hsplit, hsplit]
  exact evalTokens_split_congr t (Or.inl hu.append_ne_nil) (Or.inl hv.append_ne_nil)
    (iff_of_false hu.append_ne_nil hv.append_ne_nil) hd hd' hleft rfl

/-- **A part may be replaced by another one of the same value** where no more parentheses are closed
than opened. The rest of the list may be anything. -/
theorem evalTokens_swap (hvalue : evalTokens t u = evalTokens t v) (hopen : 0 ≤ depth before) :
    evalTokens t (before ++ u ++ after) = evalTokens t (before ++ v ++ after) := by
  induction hn : before.length + after.length using Nat.strongRecOn generalizing before after with
  | ind n ih =>
    subst hn
    by_cases hnil : before = [] ∧ after = []
    · obtain ⟨rfl, rfl⟩ := hnil
      simpa using hvalue
    have hne : before ≠ [] ∨ after ≠ [] := Decidable.not_and_iff_or_not.mp hnil
    cases hw : isWrapped (before ++ u ++ after) with
    | true =>
      obtain ⟨l, before, after, r, rfl, rfl, hl, hr, hus⟩ := hu.exists_of_isWrapped hne hw
      have hstays := (staysOpen_append.mp (hu.balanced_around.mp hus).1).1
      exact hu.evalTokens_swap_parens t hv hl hr hus
        (ih _ (by simp; omega) (by simpa using hstays.depth_nonneg (Int.le_refl 0)) rfl)
    | false =>
      cases hd : dominantOperator (before ++ u ++ after) with
      | none =>
        have hw' : isWrapped (before ++ v ++ after) = false :=
          Bool.eq_false_iff.mpr fun h => Bool.eq_false_iff.mp hw (hv.isWrapped_swap hu hne h)
        rw [evalTokens_of_dominant_none t (hu.two_le_length hne) hw hd,
          evalTokens_of_dominant_none t (hv.two_le_length hne) hw'
            (hu.dominant_swap_none hv hopen hd)]
      | some i =>
        obtain ⟨i', hmoved, hd'⟩ := hu.dominant_swap hv hopen hd
        rcases hmoved with ⟨hi, rfl⟩ | ⟨j, rfl, rfl⟩
        · obtain ⟨ls, op, rs, rfl, rfl⟩ := exists_split hi
          -- as many parentheses are opened as closed in front of the operator
          obtain ⟨p, hp, -⟩ := dominantOperator_eq_some_iff.mp hd
          rw [List.append_assoc, List.append_assoc, List.cons_append] at hp
          obtain ⟨hdepth, hop⟩ := outerAt_length_iff.mp hp
          rw [depth_append, depth_cons, hdepth, nesting_of_precedence hop] at hopen
          exact hu.evalTokens_swap_right t hv hd hd' (ih _ (by simp; omega) (by omega) rfl)
        · have hlt := dominantOperator_lt hd
          simp only [List.length_append] at hlt
          obtain ⟨ls, op, rs, rfl, rfl⟩ := exists_split (show j < after.length by omega)
          have hlength : ∀ w : List Token, before.length + w.length + ls.length =
              (before ++ w ++ ls).length := by simp [Nat.add_assoc]
          rw [hlength] at hd hd'
          exact hu.evalTokens_swap_left t hv hd hd' (ih _ (by simp) hopen rfl)

end Sealed

/-- After a parenthesis that closes too much, nothing has a value. -/
theorem exists_error_of_depth_neg {before : List Token} (h : depth before < 0)
    (rest : List Token) : ∃ e, evalTokens t (before ++ rest) = .error e := by
  cases hv : evalTokens t (before ++ rest) with
  | error e => exact ⟨e, rfl⟩
  | ok value =>
    obtain ⟨tree, htree⟩ := exists_parses_of_evalTokens hv
    have hbalanced := Derives.balanced (fun _ _ hl => hl.1) htree
    have hopen := (staysOpen_append.mp hbalanced.1).1.depth_nonneg (Int.le_refl 0)
    omega

/-- The token for the decimal text of a word. -/
def decimalToken (value : UInt32) : Token := ⟨.number, toString value.toNat⟩

theorem evalOperand_decimalToken (value : UInt32) :
    evalOperand t (decimalToken value) = .ok value := by
  have htext : (toString value.toNat).toList = Nat.toDigits 10 value.toNat := String.toList_ofList
  have hdenotes : Numeral.Denotes 10 (toString value.toNat).toList value.toNat := by
    rw [htext]
    exact Numeral.denotes_toDigits (by decide) _
  rw [decimalToken, evalOperand]
  dsimp only
  rw [Numeral.word?_of_denotes_toNat (by decide) hdenotes]

/-- **A part in parentheses and the decimal text of its value** are interchangeable. Where at least
as many parentheses are opened as closed in front of them, the whole lists have the same value or
fail with the same error, whatever stands around; where more are closed than opened, both fail. If
the list with the part is shorter than `2 ^ 31`, a depth of 32 bits leads to the same for both. -/
theorem evalTokens_value_for_parens {part : List Token} {value : UInt32}
    (hpart : evalTokens t part = .ok value) (opening closing : String)
    (before after : List Token) :
    let inParens := before ++ [⟨.lparen, opening⟩] ++ part ++ [⟨.rparen, closing⟩] ++ after
    let asValue := before ++ [decimalToken value] ++ after
    (before.countP (·.kind == .rparen) ≤ before.countP (·.kind == .lparen) →
      evalTokens t inParens = evalTokens t asValue) ∧
    (before.countP (·.kind == .lparen) < before.countP (·.kind == .rparen) →
      (∃ e, evalTokens t inParens = .error e) ∧ ∃ e, evalTokens t asValue = .error e) ∧
    (inParens.length < 2 ^ 31 →
      evalTokens32 t inParens = evalTokens t inParens ∧
        evalTokens32 t asValue = evalTokens t asValue) := by
  intro inParens asValue
  have hdepth := depth_eq_count before
  refine ⟨?_, ?_, fun hlength => ?_⟩
  · intro hcount
    obtain ⟨tree, htree⟩ := exists_parses_of_evalTokens hpart
    have hbalanced := Derives.balanced (fun _ _ hl => hl.1) htree
    have hparens : Sealed (⟨.lparen, opening⟩ :: (part ++ [⟨.rparen, closing⟩])) :=
      .parens rfl rfl hbalanced
    have hvalue : evalTokens t (⟨.lparen, opening⟩ :: (part ++ [⟨.rparen, closing⟩])) =
        evalTokens t [decimalToken value] := by
      rw [evalTokens_parens t rfl rfl hbalanced, hpart, evalTokens_singleton,
        evalOperand_decimalToken]
    have hswap : evalTokens t (before ++ _ ++ after) = evalTokens t (before ++ _ ++ after) :=
      hparens.evalTokens_swap t (.operand rfl) hvalue (by omega)
    simpa [inParens, asValue] using hswap
  · intro hcount
    have hneg : depth before < 0 := by omega
    have hfails := exists_error_of_depth_neg t hneg
    simp only [inParens, asValue, List.append_assoc]
    exact ⟨hfails _, hfails _⟩
  · have hshorter : asValue.length ≤ inParens.length := by
      simp only [asValue, inParens, List.length_append, List.length_singleton]
      omega
    exact ⟨evalTokens32_eq t hlength,
      evalTokens32_eq t (Nat.lt_of_le_of_lt hshorter hlength)⟩

end Target

/-- `1 + 2` in parentheses is as good as `3` in `7 - (1 + 2) * 2`, with a depth of 32 bits too, and
also in `((1 + 2) * 2`, which is malformed. After a closing parenthesis neither has a value. -/
theorem evalTokens_value_for_parens_product :
    let t : Machine := {}
    let part : List Token := [⟨.number, "1"⟩, ⟨.plus, "+"⟩, ⟨.number, "2"⟩]
    let after : List Token := [⟨.star, "*"⟩, ⟨.number, "2"⟩]
    let inParens (before : List Token) :=
      before ++ [⟨.lparen, "("⟩] ++ part ++ [⟨.rparen, ")"⟩] ++ after
    evalTokens t part = .ok 3 ∧
      evalTokens t (inParens [⟨.number, "7"⟩, ⟨.minus, "-"⟩]) = .ok 1 ∧
      evalTokens32 t (inParens [⟨.number, "7"⟩, ⟨.minus, "-"⟩]) = .ok 1 ∧
      evalTokens t (inParens [⟨.lparen, "("⟩]) = .error .malformed ∧
      ∃ e, evalTokens t (inParens [⟨.rparen, ")"⟩]) = .error e := by
  intro t part after inParens
  have hpart : evalTokens t part = .ok 3 := by cbv
  have hswap := fun before => evalTokens_value_for_parens t hpart "(" ")" before after
  have hproduct : evalTokens t (inParens [⟨.number, "7"⟩, ⟨.minus, "-"⟩]) = .ok 1 :=
    ((hswap _).1 (by decide)).trans (by cbv)
  refine ⟨hpart, hproduct, ((hswap _).2.2 (by decide)).1.trans hproduct,
    ((hswap _).1 (by decide)).trans (by cbv), ((hswap _).2.1 (by decide)).1⟩

end MachineMonitor.Expr
