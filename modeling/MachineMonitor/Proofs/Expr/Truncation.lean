import MachineMonitor.Proofs.Expr.Breaks

/-!
# Limits cut a scan short

Which tokens a text has, and where no rule matches, is found without the limits. What the limits
add is the first token, in the order of the text, for which they have no room: the answer is that it
is too long or that there are too many. If there is no such token the limits have no say.

Results:
* `exists_front`: what stands in front of a token of a text has the tokens before it, by itself.
* `foldlM_add_of_size`: tokens that are not too long are collected while there is room.
* `tokenize_of_refuse`: the first token that is refused decides the error.
* `tokenize_of_fit`: without such a token the answer is that of the scan.
* `tokenize_truncates`: the answer is that of the scan, cut short at the first refused token.
-/

namespace MachineMonitor.Expr

/-! ## The place of a token -/

/-- A scan begins with the token of the first rule that matches, if it makes one. -/
theorem tokenLexemes_append {p n : Nat} {r : Rule} {cs rest : List Char} (hlen : cs.length = n + 1)
    (h : Rule.first? (cs ++ rest) = some (r, n)) :
    (scanFrom p (cs ++ rest)).tokenLexemes =
      (if r = .spaces then [] else [⟨r, p, String.ofList cs⟩]) ++
        (scanFrom (p + (String.ofList cs).utf8ByteSize) rest).tokenLexemes := by
  obtain ⟨hlex, -⟩ := scanFrom_append (p := p) hlen h
  rw [Scan.tokenLexemes, Scan.withoutSpaces, hlex]
  by_cases hr : r = .spaces
  · rw [if_pos hr, List.filter_cons_of_neg (by simp [hr])]
    rfl
  · rw [if_neg hr, List.filter_cons_of_pos (by simp [hr])]
    rfl

theorem tokenLexemes_of_none {p : Nat} {cs : List Char} (h : Rule.first? cs = none) :
    (scanFrom p cs).tokenLexemes = [] := by
  cases cs with
  | nil =>
    rw [scanFrom_nil]
    rfl
  | cons c cs =>
    rw [scanFrom, h]
    rfl

/-- The tokens in front of one are as many as the lexemes that make them. -/
theorem length_of_tokenLexemes {s : Scan} {before after : List Lexeme} {l : Lexeme}
    (h : s.tokenLexemes = before ++ l :: after) :
    (before.filterMap Lexeme.token?).length = before.length ∧ ∃ k, l.rule.kind? = some k := by
  have htoken : ∀ l' ∈ before ++ l :: after, ∃ k, l'.rule.kind? = some k ∧
      l'.token? = some ⟨k, l'.text⟩ := by
    rw [← h]
    exact fun l' => Scan.token?_of_mem
  constructor
  · refine List.filterMap_length_eq_length.mpr fun l' hl' => ?_
    obtain ⟨k, -, hk⟩ := htoken l' (List.mem_append_left _ hl')
    rw [hk]
    rfl
  · obtain ⟨k, hk, -⟩ := htoken l (List.mem_append_right before List.mem_cons_self)
    exact ⟨k, hk⟩

/-- What a scan finds in front of one of its tokens is what the text begins with. -/
theorem munches_of_scanFrom {p : Nat} {cs : List Char} {before after : List Lexeme} {l : Lexeme}
    (h : (scanFrom p cs).tokenLexemes = before ++ l :: after) :
    ∃ us vs, cs = us ++ (l.text.toList ++ vs) ∧
      l.position = p + (String.ofList us).utf8ByteSize ∧
      Munches (before.filterMap Lexeme.token?) cs (l.text.toList ++ vs) := by
  induction hlen : cs.length using Nat.strongRecOn generalizing cs p before with
  | ind m ih =>
    cases hfirst : Rule.first? cs with
    | none =>
      rw [tokenLexemes_of_none hfirst] at h
      exact absurd h (by simp)
    | some found =>
      obtain ⟨r, n⟩ := found
      obtain ⟨hle, hlongest⟩ := Rule.isLongest_of_first? hfirst
      -- the text of the rule and what stands behind it
      obtain ⟨us, vs, rfl, hus⟩ : ∃ us vs, cs = us ++ vs ∧ us.length = n + 1 :=
        ⟨_, _, (List.take_append_drop (n + 1) cs).symm, List.length_take_of_le hle⟩
      rw [← hus, List.take_left] at hlongest
      have hlt : vs.length < m := by
        rw [← hlen, List.length_append]
        omega
      rw [tokenLexemes_append hus hfirst] at h
      have hbehind : ∀ {before'}, (scanFrom (p + (String.ofList us).utf8ByteSize) vs).tokenLexemes =
          before' ++ l :: after → ∃ ws xs, us ++ vs = (us ++ ws) ++ (l.text.toList ++ xs) ∧
            l.position = p + (String.ofList (us ++ ws)).utf8ByteSize ∧
            Munches (before'.filterMap Lexeme.token?) vs (l.text.toList ++ xs) := by
        intro before' h
        obtain ⟨ws, xs, rfl, hpos, hmunches⟩ := ih _ hlt h rfl
        refine ⟨ws, xs, (List.append_assoc us ws _).symm, ?_, hmunches⟩
        rw [hpos, String.ofList_append, String.utf8ByteSize_append, Nat.add_assoc]
      by_cases hr : r = .spaces
      · subst hr
        obtain ⟨ws, xs, heq, hpos, hmunches⟩ := hbehind h
        exact ⟨_, _, heq, hpos, hmunches.spaces (Rule.mem_spaces.mp hlongest.mem).2⟩
      · rw [if_neg hr, List.singleton_append] at h
        rcases List.cons_eq_append_iff.mp h with ⟨rfl, hcons⟩ | ⟨before', rfl, hafter⟩
        · obtain ⟨rfl, -⟩ := List.cons.inj hcons
          rw [String.toList_ofList]
          exact ⟨[], vs, rfl, rfl, .nil _⟩
        · obtain ⟨ws, xs, heq, hpos, hmunches⟩ := hbehind hafter
          obtain ⟨k, hk⟩ := Option.ne_none_iff_exists'.mp (mt kind?_eq_none_iff.mp hr)
          refine ⟨_, _, heq, hpos, ?_⟩
          rw [filterMap_token?_cons, Lexeme.token?, hk]
          exact .token hk hlongest hmunches

/-- **What stands in front of a token** of a text has the tokens before it, by itself. -/
theorem exists_front {input : String} {before after : List Lexeme} {l : Lexeme}
    (h : (scan input).tokenLexemes = before ++ l :: after) :
    ∃ front rest, input = front ++ l.text ++ rest ∧ l.position = front.utf8ByteSize ∧
      (scan front).tokens = before.filterMap Lexeme.token? ∧ (scan front).stuckAt = none := by
  obtain ⟨us, vs, hsplit, hpos, hmunches⟩ := munches_of_scanFrom h
  obtain ⟨us', hsplit', hfront⟩ := hmunches.exists_before
  obtain rfl := List.append_cancel_right (hsplit.symm.trans hsplit')
  rw [← String.toList_ofList (l := us)] at hfront
  refine ⟨String.ofList us, String.ofList vs, ?_, ?_, scan_of_munches hfront⟩
  · rw [← String.toList_inj, hsplit, String.toList_append, String.toList_append,
      String.toList_ofList, String.toList_ofList, List.append_assoc]
  · rw [hpos, Nat.zero_add]

/-! ## What the limits refuse -/

/-- The limits have no room for a token in front of which `before` others stand: it is too long, or
they are too many. -/
def Limits.Refuse (limits : Limits) (before : Nat) (l : Lexeme) : Prop :=
  limits.maxTokenLen < l.text.utf8ByteSize ∨ limits.maxTokens ≤ before

/-- How they refuse it: a token that is too long is reported as such, also when they are too
many. -/
def Limits.refusal (limits : Limits) (l : Lexeme) : LexError :=
  if limits.maxTokenLen < l.text.utf8ByteSize then
    .tokenTooLong l.position l.text.utf8ByteSize limits.maxTokenLen
  else .tooManyTokens limits.maxTokens

theorem Limits.position_of_refusal {limits : Limits} {l : Lexeme} {p : Nat}
    (h : p ∈ (limits.refusal l).position?) : p = l.position := by
  unfold refusal at h
  split_ifs at h
  · exact (Option.some.inj h).symm
  · exact absurd h (by simp [LexError.position?])

namespace TokenBuffer

variable {b : TokenBuffer}

theorem add_of_refuse {l : Lexeme} {k : TokenKind} (hk : l.rule.kind? = some k)
    (h : b.limits.Refuse b.tokens.length l) : b.add l = .error (b.limits.refusal l) := by
  simp only [add, hk, push, Limits.refusal]
  by_cases hlen : b.limits.maxTokenLen < l.text.utf8ByteSize
  · rw [if_pos hlen, if_pos hlen]
  · rw [if_neg hlen, if_neg hlen, if_pos (h.resolve_left hlen)]

end TokenBuffer

namespace Limits

variable {limits : Limits}

/-- There is room for all tokens of a list. -/
def Admit (limits : Limits) (ls : List Lexeme) : Prop :=
  ∀ i l, ls[i]? = some l → ¬ limits.Refuse i l

instance (before : Nat) (l : Lexeme) : Decidable (limits.Refuse before l) :=
  inferInstanceAs (Decidable (_ ∨ _))

theorem admit_iff_fin {ls : List Lexeme} :
    limits.Admit ls ↔ ∀ i : Fin ls.length, ¬ limits.Refuse i ls[i] := by
  constructor
  · exact fun h i => h i ls[i] (List.getElem?_eq_getElem i.isLt)
  · intro h i l hi
    obtain ⟨hlt, rfl⟩ := List.getElem?_eq_some_iff.mp hi
    exact h ⟨i, hlt⟩

instance : DecidablePred limits.Admit := fun _ => decidable_of_iff _ admit_iff_fin.symm

theorem admit_nil : limits.Admit [] := fun i l h => absurd h (by simp)

theorem admit_concat {ls : List Lexeme} {l : Lexeme} (h : limits.Admit ls)
    (hl : ¬ limits.Refuse ls.length l) : limits.Admit (ls ++ [l]) := by
  intro i l' hi
  rcases Nat.lt_or_ge i ls.length with hlt | hge
  · rw [List.getElem?_append_left hlt] at hi
    exact h i l' hi
  · rw [List.getElem?_append_right hge, List.getElem?_singleton] at hi
    split at hi
    · rename_i hzero
      obtain rfl := Option.some.inj hi
      obtain rfl := Nat.le_antisymm hge (Nat.sub_eq_zero_iff_le.mp hzero)
      exact hl
    · exact absurd hi (by simp)

/-- Where there is not room for all tokens, one is the first that is refused. -/
theorem exists_refuse (ls : List Lexeme) : limits.Admit ls ∨ ∃ before l after,
    ls = before ++ l :: after ∧ limits.Admit before ∧ limits.Refuse before.length l := by
  induction ls using List.reverseRecOn with
  | nil => exact Or.inl admit_nil
  | append_singleton ls l ih =>
    rcases ih with h | ⟨before, l', after, rfl, hbefore, hl'⟩
    · by_cases hl : limits.Refuse ls.length l
      · exact Or.inr ⟨ls, l, [], rfl, h, hl⟩
      · exact Or.inl (admit_concat h hl)
    · exact Or.inr ⟨before, l', after ++ [l], by simp, hbefore, hl'⟩

/-- Tokens for which there is room are within the limits. -/
theorem Admit.fit {ls : List Lexeme} (h : limits.Admit ls) :
    limits.Fit (ls.filterMap Lexeme.token?) where
  count := by
    refine (List.length_filterMap_le _ ls).trans (Nat.le_of_not_lt fun hlt => ?_)
    exact h _ _ (List.getElem?_eq_getElem hlt) (Or.inr (Nat.le_refl _))
  size t ht := by
    obtain ⟨l, hl, htoken⟩ := List.mem_filterMap.mp ht
    obtain ⟨k, -, rfl⟩ := Option.map_eq_some_iff.mp htoken
    obtain ⟨i, hi⟩ := List.getElem?_of_mem hl
    exact Nat.le_of_not_lt fun hlt => h i l hi (Or.inl hlt)

end Limits

/-! ## What is answered -/

section Answers

variable {limits : Limits} {input : String}

/-- **Tokens that are not too long** are collected for as long as there is room for them. -/
theorem foldlM_add_of_size {ls : List Lexeme} {ta : List Token} (hta : ta.length ≤ limits.maxTokens)
    (hsize : ∀ t ∈ ls.filterMap Lexeme.token?, t.text.utf8ByteSize ≤ limits.maxTokenLen) :
    ls.foldlM TokenBuffer.add ⟨ta, limits⟩ =
      if ta.length + (ls.filterMap Lexeme.token?).length ≤ limits.maxTokens then
        .ok ⟨ta ++ ls.filterMap Lexeme.token?, limits⟩
      else .error (.tooManyTokens limits.maxTokens) := by
  by_cases hcount : ta.length + (ls.filterMap Lexeme.token?).length ≤ limits.maxTokens
  · rw [if_pos hcount, TokenBuffer.foldlM_add_eq_ok hcount hsize]
  rw [if_neg hcount]
  induction ls generalizing ta with
  | nil => exact absurd hta hcount
  | cons l ls ih =>
    rw [filterMap_token?_cons] at hcount hsize
    rw [List.length_append] at hcount
    have hl : ∀ t ∈ l.token?, t.text.utf8ByteSize ≤ limits.maxTokenLen := fun t ht =>
      hsize t (List.mem_append_left _ (Option.mem_toList.mpr ht))
    rw [List.foldlM_cons]
    by_cases hroom : ta.length + l.token?.toList.length ≤ limits.maxTokens
    · rw [TokenBuffer.add_eq_ok hroom hl]
      refine ih ?_ (fun t ht => hsize t (List.mem_append_right _ ht)) ?_
      · exact List.length_append.trans_le hroom
      · rw [List.length_append, Nat.add_assoc]
        exact hcount
    · -- there is no room for this lexeme, so it makes a token and the buffer is full
      cases hk : l.rule.kind? with
      | none =>
        rw [Lexeme.token?, hk] at hroom
        exact absurd hta hroom
      | some k =>
        rw [Lexeme.token?, hk] at hroom hl
        have hl : ¬ limits.maxTokenLen < l.text.utf8ByteSize := Nat.not_lt.mpr (hl _ rfl)
        have hfull : limits.maxTokens ≤ ta.length := Nat.le_of_lt_succ (Nat.lt_of_not_le hroom)
        have hadd : TokenBuffer.add ⟨ta, limits⟩ l = .error (limits.refusal l) :=
          TokenBuffer.add_of_refuse hk (Or.inr hfull)
        rw [hadd, Limits.refusal, if_neg hl]
        rfl

/-- A text of which no token is too long, behind other tokens: its own are collected if there is
room for them. -/
theorem collect_of_short
    (h : ∀ t ∈ (scan input).tokens, t.text.utf8ByteSize ≤ limits.maxTokenLen) (ta : List Token)
    (hta : ta.length ≤ limits.maxTokens) :
    (scan input).collect ⟨ta, limits⟩ =
      if ta.length + (scan input).tokens.length ≤ limits.maxTokens then
        (scan input).settle ⟨ta ++ (scan input).tokens, limits⟩
      else .error (.tooManyTokens limits.maxTokens) := by
  rw [Scan.collect, foldlM_add_of_size hta h, ← Scan.tokens]
  split <;> rfl

/-- A text with a token that is refused, behind other tokens: it is refused again if there is room
for those in front of it. -/
theorem collect_of_refuse {before after : List Lexeme} {l : Lexeme}
    (h : (scan input).tokenLexemes = before ++ l :: after) (hbefore : limits.Admit before)
    (hl : limits.Refuse before.length l) (ta : List Token) (hta : ta.length ≤ limits.maxTokens) :
    (scan input).collect ⟨ta, limits⟩ =
      .error (if limits.maxTokens < ta.length + (before.filterMap Lexeme.token?).length then
        .tooManyTokens limits.maxTokens else limits.refusal l) := by
  obtain ⟨hlength, k, hk⟩ := length_of_tokenLexemes h
  rw [Scan.tokenLexemes] at h
  rw [← Scan.collect_withoutSpaces, Scan.collect, h, List.foldlM_append,
    foldlM_add_of_size hta hbefore.fit.size]
  by_cases hroom : limits.maxTokens < ta.length + (before.filterMap Lexeme.token?).length
  · rw [if_pos hroom, if_neg (Nat.not_le.mpr hroom)]
    rfl
  · rw [if_neg hroom, if_pos (Nat.not_lt.mp hroom)]
    have hrefuse : limits.Refuse (ta ++ before.filterMap Lexeme.token?).length l := by
      refine hl.imp_right fun hcount => hcount.trans ?_
      rw [List.length_append, hlength]
      exact Nat.le_add_left _ _
    have hadd : TokenBuffer.add ⟨ta ++ before.filterMap Lexeme.token?, limits⟩ l =
        .error (limits.refusal l) :=
      TokenBuffer.add_of_refuse hk hrefuse
    show ((l :: after).foldlM TokenBuffer.add _ >>= _) = _
    rw [List.foldlM_cons, hadd]
    rfl

/-- A text of which no token is too long has its tokens or too many. -/
theorem tokenize_of_short
    (h : ∀ t ∈ (scan input).tokens, t.text.utf8ByteSize ≤ limits.maxTokenLen) :
    tokenize limits input = if (scan input).tokens.length ≤ limits.maxTokens then
      (scan input).settle ⟨(scan input).tokens, limits⟩
    else .error (.tooManyTokens limits.maxTokens) := by
  have hcollect := collect_of_short h [] (Nat.zero_le _)
  rwa [List.length_nil, Nat.zero_add, List.nil_append] at hcollect

/-- **Without a token that is refused** the answer is that of the scan. -/
theorem tokenize_of_fit (h : limits.Fit (scan input).tokens) :
    tokenize limits input = (scan input).settle ⟨(scan input).tokens, limits⟩ := by
  rw [tokenize_of_short h.size, if_pos h.count]

/-- **The first token that is refused** decides the error. -/
theorem tokenize_of_refuse {before after : List Lexeme} {l : Lexeme}
    (h : (scan input).tokenLexemes = before ++ l :: after) (hbefore : limits.Admit before)
    (hl : limits.Refuse before.length l) : tokenize limits input = .error (limits.refusal l) := by
  have hcollect := collect_of_refuse h hbefore hl [] (Nat.zero_le _)
  rwa [List.length_nil, Nat.zero_add, if_neg (Nat.not_lt.mpr hbefore.fit.count)] at hcollect

/-- Limits that a text cannot reach leave its scan as it is. -/
theorem tokenize_of_size (hcount : input.utf8ByteSize ≤ limits.maxTokens)
    (hsize : input.utf8ByteSize ≤ limits.maxTokenLen) :
    tokenize limits input = (scan input).settle ⟨(scan input).tokens, limits⟩ := by
  obtain ⟨before, after, -, hafter, hts, -⟩ := exists_scan input
  exact tokenize_of_fit (Limits.hold_of_size hcount hsize _ _ hts hafter)

/-- Limits that are raised change no text that is split into tokens. -/
theorem tokenize_of_le {limits' : Limits} {b : TokenBuffer}
    (hcount : limits.maxTokens ≤ limits'.maxTokens)
    (hsize : limits.maxTokenLen ≤ limits'.maxTokenLen) (h : tokenize limits input = .ok b) :
    tokenize limits' input = .ok { b with limits := limits' } := by
  obtain ⟨hstuck, hfit, rfl⟩ := tokenize_eq_ok_iff.mp h
  exact tokenize_eq_ok_iff.mpr ⟨hstuck, ⟨hfit.count.trans hcount, fun t ht =>
    (hfit.size t ht).trans hsize⟩, rfl⟩

end Answers

/-- **Limits cut a scan short.** A text is read and its tokens are collected in turn, but the answer
is that of a scan without limits, which is also the answer under limits that the text cannot reach.
Each token of the scan stands behind the text that has the tokens before it. The first one that is
too long, or in front of which as many tokens stand as there may be, decides the error; without one
the answer is the scan's. So limits that are raised change no success. Spaces are no tokens of the
scan: any number of them, put in where no token is torn apart, changes nothing but where the errors
behind them are. -/
theorem tokenize_truncates (limits : Limits) (input : String) :
    tokenize limits input = (TokenBuffer.empty limits).read 0 input.toList ∧
    (∀ limits' : Limits, input.utf8ByteSize ≤ limits'.maxTokens →
      input.utf8ByteSize ≤ limits'.maxTokenLen →
      tokenize limits' input = (scan input).settle ⟨(scan input).tokens, limits'⟩) ∧
    (∀ before l after, (scan input).tokenLexemes = before ++ l :: after →
      ∃ front rest, input = front ++ l.text ++ rest ∧ l.position = front.utf8ByteSize ∧
        (scan front).tokens = before.filterMap Lexeme.token? ∧ (scan front).stuckAt = none) ∧
    (∀ before l after, (scan input).tokenLexemes = before ++ l :: after → limits.Admit before →
      limits.Refuse before.length l → tokenize limits input = .error (limits.refusal l)) ∧
    (limits.Admit (scan input).tokenLexemes →
      tokenize limits input = (scan input).settle ⟨(scan input).tokens, limits⟩) ∧
    (∀ limits' b, limits.maxTokens ≤ limits'.maxTokens → limits.maxTokenLen ≤ limits'.maxTokenLen →
      tokenize limits input = .ok b → tokenize limits' input = .ok { b with limits := limits' }) ∧
    (∀ before after n, input = before ++ after → IsBreak before after →
      tokenize limits (before ++ spaces n ++ after) =
        match tokenize limits before with
        | .error e => .error e
        | .ok _ => (tokenize limits input).mapError (LexError.shift n)) := by
  refine ⟨tokenize_eq_read limits input, fun _ => tokenize_of_size, fun _ _ _ => exists_front,
    fun _ _ _ => tokenize_of_refuse, fun h => ?_, fun _ _ => tokenize_of_le, ?_⟩
  · have hfit := h.fit
    rw [← Scan.tokens_eq] at hfit
    exact tokenize_of_fit hfit
  · rintro before after n rfl hbreak
    exact tokenize_spaces limits hbreak n

/-- With room for two tokens of three bytes: the third of `1  2 3456` is too long as well, and is
reported as such; if one more stands in front of it, there are too many. -/
theorem tokenize_truncates_three :
    tokenize ⟨2, 3⟩ "1  2 3456 #" = .error (.tokenTooLong 5 4 3) ∧
      tokenize ⟨2, 3⟩ "1 2 3 4567" = .error (.tooManyTokens 2) ∧
      (∃ front rest, "1 2 3 4567" = front ++ "3" ++ rest ∧ 4 = front.utf8ByteSize ∧
        (scan front).tokens = [⟨.number, "1"⟩, ⟨.number, "2"⟩] ∧ (scan front).stuckAt = none) ∧
      tokenize ⟨2, 3⟩ "1 2 #" = .error (.noMatch 4) ∧
      tokenize ⟨5, 5⟩ "1 2 #" = .error (.noMatch 4) ∧
      tokenize ⟨2, 3⟩ ("1" ++ spaces 7 ++ " 2 #") = .error (.noMatch 11) ∧
      tokenize ⟨9, 3⟩ "1 2" = .ok ⟨[⟨.number, "1"⟩, ⟨.number, "2"⟩], ⟨9, 3⟩⟩ := by
  have hlong : (scan "1  2 3456 #").tokenLexemes =
      [⟨.number, 0, "1"⟩, ⟨.number, 3, "2"⟩] ++ [⟨.number, 5, "3456"⟩] := by decide +kernel
  have hmany : (scan "1 2 3 4567").tokenLexemes =
      [⟨.number, 0, "1"⟩, ⟨.number, 2, "2"⟩] ++ ⟨.number, 4, "3"⟩ :: [⟨.number, 6, "4567"⟩] := by
    decide +kernel
  have hstuck : (scan "1 2 #").tokenLexemes = [⟨.number, 0, "1"⟩, ⟨.number, 2, "2"⟩] := by
    decide +kernel
  have hsettle : ∀ b, (scan "1 2 #").settle b = .error (.noMatch 4) :=
    Scan.settle_of_stuckAt (by decide +kernel)
  have hbreak : IsBreak "1" " 2 #" := by
    have hfirst : Rule.first? "1 2 #".toList = some (.number, 0) := by decide +kernel
    exact ⟨_, .token rfl (Rule.isLongest_of_first? hfirst).2 (.nil _)⟩
  obtain ⟨-, -, -, hfirst, -⟩ := tokenize_truncates ⟨2, 3⟩ "1  2 3456 #"
  obtain ⟨-, -, hplace', hfirst', -⟩ := tokenize_truncates ⟨2, 3⟩ "1 2 3 4567"
  obtain ⟨-, hwide, -, -, hroom, -, hspaces⟩ := tokenize_truncates ⟨2, 3⟩ "1 2 #"
  obtain ⟨-, -, -, -, -, hraise, -⟩ := tokenize_truncates ⟨2, 3⟩ "1 2"
  have hnoMatch : tokenize ⟨2, 3⟩ "1 2 #" = .error (.noMatch 4) :=
    (hroom (hstuck ▸ by decide)).trans (hsettle _)
  refine ⟨hfirst _ _ _ hlong (by decide) (by decide), hfirst' _ _ _ hmany (by decide) (by decide),
    hplace' _ _ _ hmany, hnoMatch, (hwide ⟨5, 5⟩ (by decide) (by decide)).trans (hsettle _), ?_,
    hraise _ ⟨_, ⟨2, 3⟩⟩ (by decide) (by decide) (by decide +kernel)⟩
  · rw [hspaces "1" " 2 #" 7 rfl hbreak, hnoMatch]
    decide +kernel

end MachineMonitor.Expr
