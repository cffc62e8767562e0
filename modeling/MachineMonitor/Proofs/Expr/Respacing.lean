import MachineMonitor.Proofs.Expr.Breaks
import MachineMonitor.Proofs.Expr.Reading

/-!
# Spaces carry no meaning

Without its spaces a text may have other tokens: two numbers become one, and so do a register and a
digit. In a text that evaluates no two operands stand next to each other, so its tokens are the same
with any spaces around them.

Results:
* `spelled_of_mem_language`: what a rule reads is a text of its kind.
* `Spaced.filter`: a layout without its spaces.
* `tokenize_of_layout`: a text that is a phrase has the tokens that any other layout of them has.
* `evaluate_respaced`: spaces may be taken out of a text that evaluates, and put in at its breaks.
-/

namespace MachineMonitor.Expr

/-! ## Tokens of a text that was read -/

theorem exists_register_of_mem {cs : List Char} (h : cs ∈ Rule.registerNames) :
    ∃ r : Register, r.name.toList = cs := by
  have hall : (Rule.registerNames.all fun cs => Register.all.any (·.name.toList == cs)) = true := by
    decide +kernel
  obtain ⟨r, -, hr⟩ := List.any_eq_true.mp (List.all_eq_true.mp hall cs h)
  exact ⟨r, beq_iff_eq.mp hr⟩

theorem sign?_of_literal? {r : Rule} {k : TokenKind} {cs : List Char} (hk : r.kind? = some k)
    (h : r.literal? = some cs) : k.sign? = some cs := by
  cases r <;> first
    | (obtain rfl := Option.some.inj hk; exact h)
    | exact absurd h (by simp [Rule.literal?])

/-- **What a rule reads is a text of its kind.** -/
theorem spelled_of_mem_language {k : TokenKind} {cs : List Char} (h : cs ∈ k.language) :
    Spelled k cs := by
  obtain ⟨r, hk, hcs⟩ := h
  cases r with
  | spaces => exact absurd hk (by simp [Rule.kind?])
  | register =>
    obtain rfl := Option.some.inj hk
    obtain ⟨name, hname, rfl⟩ := Rule.mem_register.mp hcs
    obtain ⟨r, rfl⟩ := exists_register_of_mem hname
    exact .register r
  | hexNumber =>
    obtain rfl := Option.some.inj hk
    obtain ⟨x, ds, rfl, hx, hne, hds⟩ := Rule.mem_hexNumber.mp hcs
    obtain ⟨n, hn⟩ := Numeral.exists_denotes_of_isDigitIn (by decide) hne hds
    exact .hexNumber hx hn
  | number =>
    obtain rfl := Option.some.inj hk
    obtain ⟨hne, hcs⟩ := Rule.mem_number.mp hcs
    obtain ⟨n, hn⟩ := Numeral.exists_denotes_of_isDigitIn (by decide) hne hcs
    exact .number hn
  | _ =>
    rw [(Rule.mem_language_of_literal rfl).mp hcs]
    exact .sign (sign?_of_literal? hk rfl)

theorem lexical_of_mem_language {k : TokenKind} {cs : List Char} (h : cs ∈ k.language) :
    k.lexical = k := by
  obtain ⟨r, hk, -⟩ := h
  cases r <;> first
    | (obtain rfl := Option.some.inj hk; rfl)
    | exact absurd hk (by simp [Rule.kind?])

theorem not_mem_space_of_mem_language {k : TokenKind} {cs : List Char} (h : cs ∈ k.language) :
    ' ' ∉ cs := by
  obtain ⟨r, hk, hcs⟩ := h
  refine Rule.space_not_mem ?_ hcs
  rintro rfl
  exact absurd hk (by simp [Rule.kind?])

/-! ## Readings and their texts -/

theorem Token.Reads.lexical {t u : Token} (h : t.Reads u) (ht : t.kind.lexical = t.kind) :
    u.lexical = t := by
  cases h with
  | same => rw [Token.lexical, ht]
  | negate h | dereference h =>
    obtain ⟨kind, text⟩ := t
    obtain rfl := h
    rfl

theorem IsReading.map_lexical {ts us : List Token} (h : IsReading ts us)
    (hts : ∀ t ∈ ts, t.kind.lexical = t.kind) : us.map Token.lexical = ts := by
  induction h with
  | nil => rfl
  | @cons t u ts us ht _ ih =>
    obtain ⟨hhead, htail⟩ := List.forall_mem_cons.mp hts
    rw [List.map_cons, ht.lexical hhead, ih htail]

theorem Token.Reads.spelled {t u : Token} (h : t.Reads u) (ht : Spelled t.kind t.text.toList) :
    Spelled u.kind u.text.toList := by
  cases h with
  | same => exact ht
  | negate h | dereference h =>
    rw [h] at ht
    cases ht with
    | sign hsign => exact .sign hsign

/-- A layout is one of texts; the kinds have no part in it. -/
theorem Spaced.of_map_text {ts us : List Token} {cs : List Char} (h : Spaced ts cs)
    (htext : us.map Token.text = ts.map Token.text) : Spaced us cs := by
  induction h generalizing us with
  | nil =>
    obtain rfl := List.map_eq_nil_iff.mp htext
    exact .nil
  | space _ ih => exact .space (ih htext)
  | @token t ts cs _ ih =>
    obtain ⟨u, us, rfl, hu, hus⟩ := List.map_eq_cons_iff.mp htext
    rw [← hu]
    exact .token (ih hus)

/-- **A layout without its spaces** is a layout of the same tokens. -/
theorem Spaced.filter {ts : List Token} {cs : List Char} (h : Spaced ts cs)
    (hts : ∀ t ∈ ts, ' ' ∉ t.text.toList) : Spaced ts (cs.filter (· != ' ')) := by
  induction h with
  | nil => exact .nil
  | space _ ih => exact ih hts
  | @token t ts cs _ ih =>
    obtain ⟨hhead, htail⟩ := List.forall_mem_cons.mp hts
    have hfilter : t.text.toList.filter (· != ' ') = t.text.toList := by
      refine List.filter_eq_self.mpr fun c hc => bne_iff_ne.mpr ?_
      rintro rfl
      exact hhead hc
    rw [List.filter_append, hfilter]
    exact .token (ih htail)

/-! ## Layouts of what evaluates -/

section Layouts

variable {limits : Limits} {s : String} {b : TokenBuffer}

/-- What is read are tokens with texts of their kinds, laid out in the text. -/
theorem mem_language_of_tokenize (h : tokenize limits s = .ok b) :
    ∀ t ∈ b.tokens, t.text.toList ∈ t.kind.language := by
  obtain ⟨-, -, rfl⟩ := tokenize_eq_ok_iff.mp h
  obtain ⟨_, _, -, -, hts, -⟩ := exists_scan s
  exact hts.mem_language

theorem spaced_of_tokenize (h : tokenize limits s = .ok b) : Spaced b.tokens s.toList := by
  obtain ⟨hstuck, -, rfl⟩ := tokenize_eq_ok_iff.mp h
  exact (munches_scan hstuck).spaced rfl

/-- A text in which the tokens of a phrase are laid out is read as these tokens. -/
theorem scan_of_phrase {us : List Token} (hphrase : Phrase us)
    (hspelled : ∀ u ∈ us, Spelled u.kind u.text.toList) (hs : Spaced us s.toList) :
    (scan s).tokens = us.map Token.lexical ∧ (scan s).stuckAt = none :=
  tokens_scanFrom hs hspelled hphrase.alternates 0

theorem spelled_markUnary (h : tokenize limits s = .ok b) :
    ∀ u ∈ b.markUnary.tokens, Spelled u.kind u.text.toList := by
  intro u hu
  obtain ⟨t, ht, hread⟩ := (isReading_markUnary b.tokens).exists_of_mem u hu
  exact hread.spelled (spelled_of_mem_language (mem_language_of_tokenize h t ht))

theorem spaced_markUnary (h : Spaced b.tokens s.toList) : Spaced b.markUnary.tokens s.toList :=
  h.of_map_text (isReading_markUnary b.tokens).map_text

/-- **A text that is a phrase** has the tokens that any other layout of them has. -/
theorem tokenize_of_layout (h : tokenize limits s = .ok b) (hphrase : Phrase b.markUnary.tokens)
    {s' : String} (hs' : Spaced b.tokens s'.toList) : tokenize limits s' = .ok b := by
  have hlexical : b.markUnary.tokens.map Token.lexical = b.tokens :=
    (isReading_markUnary b.tokens).map_lexical fun t ht =>
      lexical_of_mem_language (mem_language_of_tokenize h t ht)
  obtain ⟨htok, hstuck⟩ := scan_of_phrase hphrase (spelled_markUnary h) (spaced_markUnary hs')
  obtain ⟨-, hfit, hb⟩ := tokenize_eq_ok_iff.mp h
  have htok' : (scan s').tokens = (scan s).tokens := by
    rw [htok, hlexical, hb]
  exact tokenize_eq_ok_iff.mpr ⟨hstuck, by rwa [htok'], by rw [htok', hb]⟩

variable {τ : Type} [Target τ] {t : τ} {v : UInt32}

/-- A text that evaluates has tokens that are a phrase. -/
theorem exists_phrase_of_evaluate (h : evaluate limits t s = .ok v) :
    ∃ b, tokenize limits s = .ok b ∧ evalTokens t b.markUnary.tokens = .ok v ∧
      Phrase b.markUnary.tokens := by
  unfold evaluate at h
  cases hb : tokenize limits s with
  | error e =>
    rw [hb] at h
    exact absurd h (by simp)
  | ok b =>
    rw [hb] at h
    obtain ⟨e, he⟩ := exists_parses_of_evalTokens h
    exact ⟨b, rfl, h, he.phrase⟩

theorem evaluate_of_tokenize {s' : String} (h : evaluate limits t s = .ok v)
    (htok : tokenize limits s' = tokenize limits s) : evaluate limits t s' = .ok v := by
  rw [evaluate, htok]
  exact h

end Layouts

/-- **Spaces carry no meaning in a text that evaluates.** Its value is that of the text without any
spaces, of the text with any number of spaces at one of its breaks, and of any other layout of its
tokens. Its beginning and its end are breaks, and there is one between any two of its tokens. -/
theorem evaluate_respaced {τ : Type} [Target τ] {limits : Limits} {t : τ} {s : String} {v : UInt32}
    (h : evaluate limits t s = .ok v) :
    evaluate limits t (String.ofList (s.toList.filter (· != ' '))) = .ok v ∧
    (∀ before after n, s = before ++ after → IsBreak before after →
      evaluate limits t (before ++ spaces n ++ after) = .ok v) ∧
    IsBreak "" s ∧ IsBreak s "" ∧
    ∃ b, tokenize limits s = .ok b ∧ Spaced b.tokens s.toList ∧
      (∀ xs ys, b.tokens = xs ++ ys → ∃ before after, s = before ++ after ∧
        IsBreak before after ∧ (scan before).tokens = xs ∧ (scan before).stuckAt = none) ∧
      ∀ s' : String, Spaced b.tokens s'.toList → evaluate limits t s' = .ok v := by
  obtain ⟨b, hb, -, hphrase⟩ := exists_phrase_of_evaluate h
  obtain ⟨hstuck, hfit, hb'⟩ := tokenize_eq_ok_iff.mp hb
  have hlayout : ∀ s' : String, Spaced b.tokens s'.toList → evaluate limits t s' = .ok v :=
    fun s' hs' => evaluate_of_tokenize h ((tokenize_of_layout hb hphrase hs').trans hb.symm)
  have hspaced := spaced_of_tokenize hb
  refine ⟨?_, ?_, isBreak_start s, isBreak_end hstuck, b, hb, hspaced, ?_, hlayout⟩
  · refine hlayout _ ?_
    rw [String.toList_ofList]
    exact hspaced.filter fun t ht =>
      not_mem_space_of_mem_language (mem_language_of_tokenize hb t ht)
  · rintro before after n rfl hbreak
    exact evaluate_of_tokenize h ((tokenize_spaces_of_ok hbreak hb n).trans hb.symm)
  · intro xs ys hsplit
    rw [hb'] at hsplit
    exact exists_isBreak hsplit

/-- `3 -  2` has the value of `3-2` and of `3    -  2`. -/
theorem evaluate_respaced_minus : evaluate {} ({} : Machine) "3 -  2" = .ok 1 ∧
    evaluate {} ({} : Machine) (String.ofList ("3 -  2".toList.filter (· != ' '))) = .ok 1 ∧
    evaluate {} ({} : Machine) ("3" ++ spaces 3 ++ " -  2") = .ok 1 := by
  have h : evaluate {} ({} : Machine) "3 -  2" = .ok 1 := by decide +kernel
  have hbreak : IsBreak "3" " -  2" := by
    have hfirst : Rule.first? "3 -  2".toList = some (.number, 0) := by decide +kernel
    exact ⟨_, .token rfl (Rule.isLongest_of_first? hfirst).2 (.nil _)⟩
  obtain ⟨hwithout, hmore, -⟩ := evaluate_respaced h
  exact ⟨h, hwithout, hmore "3" " -  2" 3 rfl hbreak⟩

end MachineMonitor.Expr
