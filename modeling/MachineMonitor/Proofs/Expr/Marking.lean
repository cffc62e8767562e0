import MachineMonitor.Proofs.Expr.Reading
import MachineMonitor.Proofs.Transcript

/-!
# Marking again

Marking decides on a token by the kind of the one before it, and it never changes whether that one
ends an operand. So nothing depends on how much was marked before: tokens may be overwritten one
after the other, a buffer may be marked twice, and it may be marked while tokens are still being
pushed. The buffer may hold prefix operators from the start, in any places.

Results:
* `getElem?_markUnary`: what becomes of the token at an index.
* `markUnary_append`, `TokenBuffer.markUnary_markUnary`: marking again, with further tokens or
  without.
* `TokenBuffer.apply_markUnary`: an operation on a buffer that was marked before.
* `TokenBuffer.carryOut_run`: pushing and marking in place.
* `TokenBuffer.markUnary_by_place`: which kinds marking changes, and runs with marks in between.
-/

namespace MachineMonitor.Expr

/-! ## Prefix places -/

/-- Index `i` is a place for prefix operators: the first one, or one right after a token that is
neither an operand nor a closing parenthesis. -/
def IsPrefixPlace (ts : List Token) : Nat → Prop
  | 0 => True
  | i + 1 => ∃ t ∈ ts[i]?, t.kind ∉ [TokenKind.number, .hexNumber, .register, .rparen]

instance (ts : List Token) : DecidablePred (IsPrefixPlace ts)
  | 0 => inferInstanceAs (Decidable True)
  | i + 1 => inferInstanceAs (Decidable (∃ t ∈ ts[i]?, t.kind ∉ _))

theorem endsOperand_eq_false_iff {k : TokenKind} :
    k.endsOperand = false ↔ k ∉ [TokenKind.number, .hexNumber, .register, .rparen] := by
  cases k <;> decide

/-- A prefix place is one in front of which no operand ends. -/
theorem isPrefixPlace_iff {ts : List Token} {i : Nat} (hi : i ≤ ts.length) :
    IsPrefixPlace ts i ↔ endsAfter false (ts.take i) = false := by
  cases i with
  | zero => exact iff_of_true trivial rfl
  | succ i =>
    rw [← List.take_append_getElem hi, endsAfter_append, endsAfter, endsAfter,
      endsOperand_eq_false_iff, IsPrefixPlace, List.getElem?_eq_getElem hi]
    simp only [Option.mem_some_iff, exists_eq_left']

theorem getElem?_markUnaryAfter (after : Bool) (ts : List Token) (i : Nat) :
    (markUnaryAfter after ts)[i]? = ts[i]?.map fun t =>
      { t with kind := if endsAfter after (ts.take i) then t.kind else t.kind.unaryForm } := by
  induction ts generalizing after i with
  | nil => rfl
  | cons t ts ih =>
    cases i with
    | zero => rfl
    | succ i => exact ih t.kind.endsOperand i

/-- **What becomes of a token** is told by its place and its kind. -/
theorem getElem?_markUnary {ts : List Token} {i : Nat} {t : Token} (h : ts[i]? = some t) :
    (markUnary ts)[i]? =
      some { t with kind := if IsPrefixPlace ts i then t.kind.unaryForm else t.kind } := by
  have hi : i ≤ ts.length := Nat.le_of_lt (List.getElem?_eq_some_iff.mp h).1
  rw [markUnary, getElem?_markUnaryAfter, h, Option.map_some,
    if_congr (isPrefixPlace_iff hi) rfl rfl]
  cases endsAfter false (ts.take i) <;> rfl

/-! ## Marking twice -/

theorem unaryForm_unaryForm (k : TokenKind) : k.unaryForm.unaryForm = k.unaryForm := by
  cases k <;> rfl

/-- Only minus signs and stars have another prefix form. -/
theorem unaryForm_of_not_sign {k : TokenKind} (h : ¬ (k = .minus ∨ k = .star)) :
    k.unaryForm = k := by
  cases k with
  | minus => exact absurd (Or.inl rfl) h
  | star => exact absurd (Or.inr rfl) h
  | _ => rfl

/-- What was marked is a neighbour like what it was before, and marking leaves it as it is. -/
theorem markUnaryAfter_append (after : Bool) (ts us : List Token) :
    markUnaryAfter after (markUnaryAfter after ts ++ us) = markUnaryAfter after (ts ++ us) := by
  induction ts generalizing after with
  | nil => rfl
  | cons t ts ih =>
    cases after with
    | true => exact congrArg (t :: ·) (ih t.kind.endsOperand)
    | false =>
      have hends : t.kind.unaryForm.endsOperand = t.kind.endsOperand :=
        (Token.Reads.unaryForm t).endsOperand_eq
      simp only [markUnaryAfter, List.cons_append, Bool.false_eq_true, if_false,
        unaryForm_unaryForm, hends, ih t.kind.endsOperand]

/-- **Further tokens** find what was marked as they find what was not. -/
theorem markUnary_append (ts us : List Token) :
    markUnary (markUnary ts ++ us) = markUnary (ts ++ us) :=
  markUnaryAfter_append false ts us

/-- **Marking twice** is marking once. -/
theorem TokenBuffer.markUnary_markUnary (b : TokenBuffer) :
    b.markUnary.markUnary = b.markUnary := by
  have h := markUnary_append b.tokens []
  rw [List.append_nil, List.append_nil] at h
  exact congrArg (TokenBuffer.mk · b.limits) h

namespace TokenBuffer

/-! ## Pushing and marking -/

/-- What may be done to a buffer. -/
inductive Op where
  | push (position : Nat) (t : Token)
  | mark
  deriving DecidableEq, Repr

/-- Is this a push? -/
def Op.isPush : Op → Bool
  | push _ _ => true
  | mark => false

/-- Does an operation. -/
def apply (b : TokenBuffer) : Op → Except LexError TokenBuffer
  | .push position t => b.push position t
  | .mark => .ok b.markUnary

/-- A token is pushed, or refused, alike on a buffer that is marked. -/
theorem push_markUnary (b : TokenBuffer) (position : Nat) (t : Token) :
    (b.markUnary.push position t).map markUnary = (b.push position t).map markUnary := by
  have hlimits : b.markUnary.limits = b.limits := rfl
  have hlength : b.markUnary.tokens.length = b.tokens.length :=
    (isReading_markUnary b.tokens).length_eq.symm
  unfold push
  rw [hlimits, hlength]
  split_ifs
  · rfl
  · rfl
  · exact congrArg (fun ts => Except.ok (mk ts b.limits)) (markUnary_append b.tokens [t])

/-- **Marking first** makes no difference to what an operation does, once that is marked. -/
theorem apply_markUnary (b : TokenBuffer) (op : Op) :
    (b.markUnary.apply op).map markUnary = (b.apply op).map markUnary := by
  cases op with
  | push position t => exact b.push_markUnary position t
  | mark => exact congrArg Except.ok b.markUnary.markUnary_markUnary

/-- Buffers that are alike once they are marked answer alike and stay so. -/
theorem attempt_of_markUnary_eq {b c : TokenBuffer} (h : b.markUnary = c.markUnary) (op : Op) :
    (attempt apply b op).1 = (attempt apply c op).1 ∧
      (attempt apply b op).2.markUnary = (attempt apply c op).2.markUnary := by
  have hmarked (d : TokenBuffer) :=
    attempt_simulates (g := fun d op => (apply d op).map markUnary) (d.apply_markUnary op).symm
  have hb := hmarked b
  rw [h] at hb
  exact ⟨hb.1.trans (hmarked c).1.symm, hb.2.trans (hmarked c).2.symm⟩

/-! ## In place -/

/-- Overwrites the tokens at some indices, one after the other. What is remembered of a token for
the next one is the kind that it had before. -/
def putKinds {ε : Type} (previous : Option TokenKind) : List Nat → EStateM ε TokenBuffer Unit
  | [] => return
  | i :: indices => do
    match (← get).tokens[i]? with
    | none => putKinds previous indices
    | some t =>
      unless previous.any TokenKind.endsOperand do
        modify fun b => { b with tokens := b.tokens.set i { t with kind := t.kind.unaryForm } }
      putKinds (some t.kind) indices

/-- What was overwritten stands in front of what is left, and its last kind is remembered. -/
theorem putKinds_run {ε : Type} (limits : Limits) (previous : Option TokenKind)
    (done rest : List Token) :
    (putKinds previous (List.range' done.length rest.length) : EStateM ε _ _).run
        ⟨done ++ rest, limits⟩ =
      .ok () ⟨done ++ markUnaryAfter (previous.any TokenKind.endsOperand) rest, limits⟩ := by
  induction rest generalizing done previous with
  | nil => rfl
  | cons t rest ih =>
    have hget : (done ++ t :: rest)[done.length]? = some t := by
      rw [List.getElem?_append_right (Nat.le_refl _), Nat.sub_self, List.getElem?_cons_zero]
    have hset (u : Token) : (done ++ t :: rest).set done.length u = done ++ u :: rest := by
      rw [List.set_append_right _ _ (Nat.le_refl _), Nat.sub_self, List.set_cons_zero]
    have hrest (u : Token) := ih (some t.kind) (done ++ [u])
    simp only [List.length_append, List.length_singleton, List.append_assoc,
      List.singleton_append] at hrest
    rw [List.length_cons, List.range'_succ, putKinds, EStateM.run_bind, EStateM.run_get]
    dsimp only
    rw [hget]
    -- the kind that is remembered next is the one from before, in both cases
    cases previous.any TokenKind.endsOperand with
    | true => exact hrest t
    | false =>
      dsimp only
      rw [if_neg Bool.false_ne_true, EStateM.run_bind, EStateM.run_modify]
      dsimp only
      rw [hset]
      exact hrest { t with kind := t.kind.unaryForm }

/-- Carries out an operation in place. -/
def carryOut : Op → EStateM LexError TokenBuffer Unit
  | .push position t => do
    let b ← get
    if b.limits.maxTokenLen < t.text.utf8ByteSize then
      throw (.tokenTooLong position t.text.utf8ByteSize b.limits.maxTokenLen)
    else if b.limits.maxTokens ≤ b.tokens.length then
      throw (.tooManyTokens b.limits.maxTokens)
    else modify fun b => { b with tokens := b.tokens ++ [t] }
  | .mark => do putKinds none (List.range (← get).tokens.length)

theorem carryOut_run (b : TokenBuffer) (op : Op) :
    (carryOut op).run b = orKeep b ((b.apply op).map fun b' => ((), b')) := by
  cases op with
  | push position t =>
    unfold carryOut apply push
    rw [EStateM.run_bind, EStateM.run_get]
    dsimp only
    split_ifs <;> rfl
  | mark =>
    have h := putKinds_run (ε := LexError) b.limits none [] b.tokens
    rw [List.length_nil, ← List.range_eq_range'] at h
    exact h

/-! ## Runs -/

/-- **Marking goes by places.** It changes no limit, no text and not the number of tokens, and of
the kinds just those of the minus signs and stars in prefix places. A buffer that was marked stays
as it is when it is marked again. Pushing and marking in place do the same. However often a buffer
is marked while tokens are being pushed, the pushes are answered alike, and marking it in the end
gives what it gives when all tokens are pushed first and marked once. -/
theorem markUnary_by_place (b : TokenBuffer) :
    (b.markUnary.limits = b.limits ∧ b.markUnary.tokens.length = b.tokens.length ∧
      b.markUnary.tokens.map Token.text = b.tokens.map Token.text) ∧
    (∀ i t, b.tokens[i]? = some t →
      (IsPrefixPlace b.tokens i → t.kind = .minus →
        b.markUnary.tokens[i]? = some { t with kind := .negate }) ∧
      (IsPrefixPlace b.tokens i → t.kind = .star →
        b.markUnary.tokens[i]? = some { t with kind := .dereference }) ∧
      (¬ (IsPrefixPlace b.tokens i ∧ (t.kind = .minus ∨ t.kind = .star)) →
        b.markUnary.tokens[i]? = some t)) ∧
    b.markUnary.markUnary = b.markUnary ∧
    (∀ op, attemptInPlace carryOut b op = attempt apply b op) ∧
    ∀ ops : List Op,
      let pushes := ops.filter Op.isPush
      answers (attempt apply) b pushes = answersTo Op.isPush ops (answers (attempt apply) b ops) ∧
        (stateAfter (attempt apply) b ops).markUnary =
          (stateAfter (attempt apply) b pushes).markUnary := by
  have hreading : IsReading b.tokens b.markUnary.tokens := isReading_markUnary b.tokens
  refine ⟨⟨rfl, hreading.length_eq.symm, hreading.map_text⟩, fun i t ht => ?_, ?_, fun op => ?_,
    fun ops => ?_⟩
  · have hmark : b.markUnary.tokens[i]? =
        some { t with kind := if IsPrefixPlace b.tokens i then t.kind.unaryForm else t.kind } :=
      getElem?_markUnary ht
    rw [hmark]
    refine ⟨fun hplace hk => ?_, fun hplace hk => ?_, fun hnot => ?_⟩
    · rw [if_pos hplace, hk]
      rfl
    · rw [if_pos hplace, hk]
      rfl
    · by_cases hplace : IsPrefixPlace b.tokens i
      · rw [if_pos hplace, unaryForm_of_not_sign fun hk => hnot ⟨hplace, hk⟩]
      · rw [if_neg hplace]
  · exact b.markUnary_markUnary
  · exact attemptInPlace_eq (b.carryOut_run op)
  · refine answers_filter (R := fun b c : TokenBuffer => b.markUnary = c.markUnary)
      (fun b c op h _ => attempt_of_markUnary_eq h op) (fun b c op h hop => ?_) rfl ops
    cases op with
    | push position t => exact absurd hop (by simp [Op.isPush])
    | mark => exact b.markUnary_markUnary.trans h

/-- A buffer with a negation from the start is marked twice while a token is refused and two minus
signs are pushed; only the second of them is a negation. -/
theorem markUnary_by_place_between :
    let b : TokenBuffer := ⟨[⟨.negate, "-"⟩, ⟨.star, "*"⟩, ⟨.number, "7"⟩], ⟨5, 4⟩⟩
    let ops : List Op := [.mark, .push 3 ⟨.minus, "-"⟩, .push 4 ⟨.number, "12345"⟩, .mark,
      .push 4 ⟨.minus, "-"⟩]
    IsPrefixPlace b.tokens 1 ∧ b.markUnary.tokens[1]? = some ⟨.dereference, "*"⟩ ∧
      (stateAfter (attempt apply) b ops).markUnary = ⟨[⟨.negate, "-"⟩, ⟨.dereference, "*"⟩,
        ⟨.number, "7"⟩, ⟨.minus, "-"⟩, ⟨.negate, "-"⟩], ⟨5, 4⟩⟩ := by
  intro b ops
  obtain ⟨-, hkinds, -, -, hruns⟩ := markUnary_by_place b
  have hplace : IsPrefixPlace b.tokens 1 := by decide
  exact ⟨hplace, (hkinds 1 ⟨.star, "*"⟩ rfl).2.1 hplace rfl, (hruns ops).2.trans (by decide)⟩

end TokenBuffer

end MachineMonitor.Expr
