import Mathlib.Data.List.Forall2
import MachineMonitor.Proofs.Expr.Alternation
import MachineMonitor.Proofs.Expr.Phrase

/-!
# Readings of a token list

The rules of the lexer read every minus sign and every star as a binary operator. A reading takes
some of them for prefix operators, so a list with `k` such signs has `2 ^ k` readings. Marking
chooses one of them by looking at left neighbours only, and no other one can be a phrase.

Results:
* `isReading_markUnary`: marking gives a reading.
* `markUnary_of_isReading`: a reading that alternates between operands and operators is the one that
  marking gives.
* `markUnary_eq_reading`: at most one reading is a phrase, marking finds it, and it has the value
  that its tree denotes.
-/

namespace MachineMonitor.Expr

/-- A way to read a token: a minus sign may be a negation and a star may be a dereference, and any
token may be just what it is. -/
inductive Token.Reads (t : Token) : Token → Prop
  | same : t.Reads t
  | negate (h : t.kind = .minus) : t.Reads { t with kind := .negate }
  | dereference (h : t.kind = .star) : t.Reads { t with kind := .dereference }

/-- A reading of a token list reads each of its tokens in one way. -/
def IsReading (ts us : List Token) : Prop := List.Forall₂ Token.Reads ts us

namespace Token.Reads

variable {t u : Token}

theorem text_eq (h : t.Reads u) : u.text = t.text := by
  cases h <;> rfl

/-- A token ends an operand in all its readings or in none. -/
theorem endsOperand_eq (h : t.Reads u) : u.kind.endsOperand = t.kind.endsOperand := by
  cases h with
  | same => rfl
  | negate h => rw [h]; rfl
  | dereference h => rw [h]; rfl

/-- After an operand, what does not begin one is read as it is. -/
theorem eq_of_not_startsOperand (h : t.Reads u) (hu : u.kind.startsOperand = false) : u = t := by
  cases h with
  | same => rfl
  | negate | dereference => exact absurd hu (by simp [TokenKind.startsOperand])

/-- Where no operand has ended, what begins one is read in the prefix form. -/
theorem eq_of_startsOperand (h : t.Reads u) (hu : u.kind.startsOperand = true) :
    u = { t with kind := t.kind.unaryForm } := by
  cases h with
  | same =>
    obtain ⟨kind, text⟩ := t
    cases kind <;> first | rfl | exact absurd hu (by simp [TokenKind.startsOperand])
  | negate h => rw [h]; rfl
  | dereference h => rw [h]; rfl

/-- Operands are read as they are. -/
theorem eq_of_isOperand (h : t.Reads u) (hu : u.kind.isOperand = true) : u = t := by
  cases h with
  | same => rfl
  | negate | dereference => exact absurd hu (by simp [TokenKind.isOperand])

theorem unaryForm (t : Token) : t.Reads { t with kind := t.kind.unaryForm } := by
  obtain ⟨kind, text⟩ := t
  cases kind with
  | minus => exact .negate rfl
  | star => exact .dereference rfl
  | _ => exact .same

end Token.Reads

/-! ## Marking -/

theorem isReading_markUnaryAfter (after : Bool) (ts : List Token) :
    IsReading ts (markUnaryAfter after ts) := by
  induction ts generalizing after with
  | nil => exact List.Forall₂.nil
  | cons t ts ih =>
    refine List.Forall₂.cons ?_ (ih t.kind.endsOperand)
    cases after with
    | true => exact .same
    | false => exact .unaryForm t

/-- **Marking gives a reading.** -/
theorem isReading_markUnary (ts : List Token) : IsReading ts (markUnary ts) :=
  isReading_markUnaryAfter false ts

theorem markUnaryAfter_of_isReading {after : Bool} {ts us : List Token} (h : IsReading ts us)
    (halt : Alternates after us) : markUnaryAfter after ts = us := by
  induction h generalizing after with
  | nil => rfl
  | @cons t u ts us ht _ ih =>
    obtain ⟨hstart, hrest⟩ := halt
    rw [ht.endsOperand_eq] at hrest
    rw [markUnaryAfter, ih hrest]
    cases after with
    | true => rw [ht.eq_of_not_startsOperand hstart, if_pos rfl]
    | false => rw [ht.eq_of_startsOperand hstart, if_neg Bool.false_ne_true]

/-- **A reading that alternates** between operands and operators is the one that marking gives. -/
theorem markUnary_of_isReading {ts us : List Token} (h : IsReading ts us)
    (halt : Alternates false us) : markUnary ts = us :=
  markUnaryAfter_of_isReading h halt

theorem IsReading.map_text {ts us : List Token} (h : IsReading ts us) :
    us.map Token.text = ts.map Token.text := by
  induction h with
  | nil => rfl
  | cons ht _ ih => rw [List.map_cons, List.map_cons, ht.text_eq, ih]

theorem IsReading.exists_of_mem {ts us : List Token} (h : IsReading ts us) :
    ∀ u ∈ us, ∃ t ∈ ts, t.Reads u := by
  induction h with
  | nil => exact fun u hu => absurd hu List.not_mem_nil
  | @cons t u ts us ht _ ih =>
    refine List.forall_mem_cons.mpr ⟨⟨t, List.mem_cons_self, ht⟩, fun v hv => ?_⟩
    obtain ⟨w, hw, hread⟩ := ih v hv
    exact ⟨w, List.mem_cons_of_mem t hw, hread⟩

/-- Marking leaves operands as they were read. -/
theorem mem_of_mem_markUnary {ts : List Token} {u : Token} (h : u ∈ markUnary ts)
    (hu : u.kind.isOperand = true) : u ∈ ts := by
  obtain ⟨t, ht, hread⟩ := (isReading_markUnary ts).exists_of_mem u h
  rwa [hread.eq_of_isOperand hu]

/-! ## Readings that are phrases -/

theorem Phrase.alternates {ts : List Token} (h : Phrase ts) : Alternates false ts := by
  obtain ⟨e, he⟩ := h.exists_parses
  exact (Derives.alternates (fun _ _ hl => hl.1) he).1

/-- **Marking finds the only reading that is a phrase.** Marking a buffer changes no text and no
limit, and takes some minus signs and stars for prefix operators. If any reading of the tokens is a
phrase, it is this one and no other. It derives a tree, and the marked tokens have the value, or the
first error, that the tree denotes. -/
theorem markUnary_eq_reading (b : TokenBuffer) :
    IsReading b.tokens b.markUnary.tokens ∧
    b.markUnary.tokens.map Token.text = b.tokens.map Token.text ∧
    b.markUnary.limits = b.limits ∧
    ∀ us, IsReading b.tokens us → Phrase us →
      b.markUnary.tokens = us ∧
      (∀ vs, IsReading b.tokens vs → Phrase vs → vs = us) ∧
      ∃ e, Parses us e ∧ ∀ {τ : Type} [Target τ] (t : τ),
        evalTokens t b.markUnary.tokens = e.denote (evalOperand t) (Target.readMemory t · 4) := by
  have hreading : IsReading b.tokens b.markUnary.tokens := isReading_markUnary b.tokens
  have hmark : ∀ us, IsReading b.tokens us → Phrase us → b.markUnary.tokens = us :=
    fun us hus hphrase => markUnary_of_isReading hus hphrase.alternates
  refine ⟨hreading, hreading.map_text, rfl, fun us hus hphrase => ?_⟩
  obtain ⟨e, he⟩ := hphrase.exists_parses
  refine ⟨hmark us hus hphrase, fun vs hvs hphrase' => ?_, e, he, fun t => ?_⟩
  · rw [← hmark vs hvs hphrase', hmark us hus hphrase]
  · rw [hmark us hus hphrase]
    exact evalTokens_of_derives t (fun _ _ hl => hl.1) (fun token a hl => by rw [hl.2]) he

/-- `2**-*3` has 16 readings, of which only `2` times the word at the address `-`(word at `3`) is a
phrase. -/
theorem markUnary_eq_reading_stacked :
    let ts : List Token := [⟨.number, "2"⟩, ⟨.star, "*"⟩, ⟨.star, "*"⟩, ⟨.minus, "-"⟩, ⟨.star, "*"⟩,
      ⟨.number, "3"⟩]
    let us : List Token := [⟨.number, "2"⟩, ⟨.star, "*"⟩, ⟨.dereference, "*"⟩, ⟨.negate, "-"⟩,
      ⟨.dereference, "*"⟩, ⟨.number, "3"⟩]
    IsReading ts us ∧ Phrase us ∧ (TokenBuffer.mk ts {}).markUnary.tokens = us ∧
      ∀ vs, IsReading ts vs → Phrase vs → vs = us := by
  intro ts us
  have hreading : List.Forall₂ Token.Reads ts us :=
    .cons .same <| .cons .same <| .cons (.dereference rfl) <| .cons (.negate rfl) <|
      .cons (.dereference rfl) <| .cons .same .nil
  have hright : Phrase [⟨.dereference, "*"⟩, ⟨.negate, "-"⟩, ⟨.dereference, "*"⟩, ⟨.number, "3"⟩] :=
    .unary .dereference rfl <| .unary .negate rfl <| .unary .dereference rfl <| .operand rfl
  have hleft : Phrase [⟨.number, "2"⟩] := .operand rfl
  have hphrase : Phrase us := hleft.binary .mul rfl hright
  obtain ⟨-, -, -, hfind⟩ := markUnary_eq_reading ⟨ts, {}⟩
  obtain ⟨hmark, hunique, -⟩ := hfind us hreading hphrase
  exact ⟨hreading, hphrase, hmark, hunique⟩

end MachineMonitor.Expr
