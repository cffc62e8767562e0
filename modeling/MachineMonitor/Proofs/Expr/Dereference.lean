import MachineMonitor.Proofs.Expr.Printing
import MachineMonitor.Proofs.Expr.Respacing
import MachineMonitor.Proofs.Expr.Truncation

/-!
# Texts of a dereference

A star in front of a numeral or of an expression in parentheses gives the word at the address that
stands there, if there is room for the tokens that are added.

Results:
* `evaluate_of_phrase`: a text in which a phrase is laid out has its value, or too many tokens.
* `evaluate_star_numeral`: a star in front of a numeral.
* `evaluate_star_parens`: a star in front of an expression in parentheses.
-/

namespace MachineMonitor.Expr

section Dereference

variable {τ : Type} [Target τ] {limits : Limits} {t : τ} {address : UInt32}

/-- **A text in which a phrase is laid out** has its value, or too many tokens. -/
theorem evaluate_of_phrase {us : List Token} {s : String} (hphrase : Phrase us)
    (hspelled : ∀ u ∈ us, Spelled u.kind u.text.toList) (hs : Spaced us s.toList)
    (hsize : ∀ u ∈ us, u.text.utf8ByteSize ≤ limits.maxTokenLen) :
    evaluate limits t s = if us.length ≤ limits.maxTokens then evalTokens t us
      else .error (.lex (.tooManyTokens limits.maxTokens)) := by
  obtain ⟨htok, hstuck⟩ := scan_of_phrase hphrase hspelled hs
  have hshort : ∀ u ∈ (scan s).tokens, u.text.utf8ByteSize ≤ limits.maxTokenLen := by
    rw [htok, List.forall_mem_map]
    exact hsize
  rw [evaluate, tokenize_of_short hshort, htok, List.length_map, Scan.settle_of_none hstuck]
  split_ifs
  · exact congrArg (evalTokens t) (markUnary_lexical hphrase.alternates)
  · rfl

/-- What evaluates has a token, so limits that leave room for its tokens leave room for a sign. -/
theorem one_le_maxTokenLen {us : List Token} (hus : evalTokens t us = .ok address)
    (hspelled : ∀ u ∈ us, Spelled u.kind u.text.toList)
    (hsize : ∀ u ∈ us, u.text.utf8ByteSize ≤ limits.maxTokenLen) : 1 ≤ limits.maxTokenLen := by
  cases us with
  | nil => exact absurd hus (by simp [evalTokens_nil])
  | cons u us =>
    have htext : u.text ≠ "" :=
      mt String.toList_eq_nil_iff.mpr (hspelled u List.mem_cons_self).ne_nil
    have hpos : u.text.utf8ByteSize ≠ 0 := mt String.utf8ByteSize_eq_zero_iff.mp htext
    exact (Nat.one_le_iff_ne_zero.mpr hpos).trans (hsize u List.mem_cons_self)

/-- A star in front of an operand, or of an expression in parentheses. -/
theorem evaluate_star {us : List Token} {e : Tree Token} {s : String} {cs : List Char}
    (h : Derives IsOperand primaryLevel us e) (hus : evalTokens t us = .ok address)
    (hspelled : ∀ u ∈ us, Spelled u.kind u.text.toList)
    (hsize : ∀ u ∈ us, u.text.utf8ByteSize ≤ limits.maxTokenLen) (hcs : Spaced us cs)
    (hs : s.toList = '*' :: cs) :
    evaluate limits t s = if us.length + 1 ≤ limits.maxTokens then
        .ok (Target.readWord t address)
      else .error (.lex (.tooManyTokens limits.maxTokens)) := by
  have hlevel : Derives IsOperand prefixLevel us e := h.mono (by decide)
  have hstar : TokenKind.dereference = PrefixOp.dereference.kind := rfl
  have hvalue : evalTokens t (⟨.dereference, "*"⟩ :: us) = .ok (Target.readWord t address) := by
    rw [evalTokens_unary t rfl (hlevel.dominant_unary (fun _ _ hl => hl.1) hstar), hus]
    rfl
  have hpos := one_le_maxTokenLen hus hspelled hsize
  have hphrase : Phrase (⟨.dereference, "*"⟩ :: us) := .unary .dereference rfl h.phrase
  rw [evaluate_of_phrase hphrase (List.forall_mem_cons.mpr ⟨.sign rfl, hspelled⟩)
    (hs ▸ hcs.token) (List.forall_mem_cons.mpr ⟨hpos, hsize⟩), hvalue, List.length_cons]

/-- **A star in front of a numeral.** -/
theorem evaluate_star_numeral {token : Token} (h : Spells token (.literal address))
    (hsize : token.text.utf8ByteSize ≤ limits.maxTokenLen) :
    evaluate limits t ("*" ++ token.text) = if 2 ≤ limits.maxTokens then
        .ok (Target.readWord t address)
      else .error (.lex (.tooManyTokens limits.maxTokens)) := by
  have hderives : Derives IsOperand primaryLevel [token] (.operand token) :=
    .operand ⟨isOperand_of_spells h, rfl⟩
  have hvalue : evalTokens t [token] = .ok address := by
    rw [evalTokens_singleton, evalOperand_of_spells t h]
    rfl
  refine evaluate_star hderives hvalue ?_ ?_ (Spaced.token .nil) ?_
  · exact List.forall_mem_singleton.mpr (spelled_of_spells h)
  · exact List.forall_mem_singleton.mpr hsize
  · rw [String.toList_append, List.append_nil]
    rfl

/-- **A star in front of an expression in parentheses.** -/
theorem evaluate_star_parens {x : String} (h : evaluate limits t x = .ok address) :
    ∃ b, tokenize limits x = .ok b ∧ evaluate limits t ("*(" ++ x ++ ")") =
      if b.tokens.length + 3 ≤ limits.maxTokens then .ok (Target.readWord t address)
      else .error (.lex (.tooManyTokens limits.maxTokens)) := by
  obtain ⟨b, hb, hvalue, hphrase⟩ := exists_phrase_of_evaluate h
  obtain ⟨e, he⟩ := hphrase.exists_parses
  have hspelled := spelled_markUnary hb
  have hsize : ∀ u ∈ b.markUnary.tokens, u.text.utf8ByteSize ≤ limits.maxTokenLen := by
    obtain ⟨-, hfit, rfl⟩ := tokenize_eq_ok_iff.mp hb
    intro u hu
    obtain ⟨token, htoken, hread⟩ := (isReading_markUnary _).exists_of_mem u hu
    rw [hread.text_eq]
    exact hfit.size token htoken
  have hpos := one_le_maxTokenLen hvalue hspelled hsize
  have hlength : b.markUnary.tokens.length = b.tokens.length :=
    (isReading_markUnary b.tokens).length_eq.symm
  have hparens : evalTokens t (⟨.lparen, "("⟩ :: (b.markUnary.tokens ++ [⟨.rparen, ")"⟩])) =
      .ok address := by
    rw [evalTokens_parens t rfl rfl hphrase.balanced, hvalue]
  have hspaced : Spaced (⟨.lparen, "("⟩ :: (b.markUnary.tokens ++ [⟨.rparen, ")"⟩]))
      ('(' :: (x.toList ++ [')'])) :=
    ((spaced_markUnary (spaced_of_tokenize hb)).append (Spaced.token .nil)).token
  refine ⟨b, hb, ?_⟩
  rw [evaluate_star (.parens rfl he rfl) hparens ?_ ?_ hspaced ?_]
  · rw [List.length_cons, List.length_append, hlength]
    rfl
  · exact List.forall_mem_cons.mpr ⟨.sign rfl, List.forall_mem_append.mpr
      ⟨hspelled, List.forall_mem_singleton.mpr (.sign rfl)⟩⟩
  · exact List.forall_mem_cons.mpr ⟨hpos, List.forall_mem_append.mpr
      ⟨hsize, List.forall_mem_singleton.mpr hpos⟩⟩
  · rw [String.toList_append, String.toList_append]
    rfl

end Dereference

end MachineMonitor.Expr
