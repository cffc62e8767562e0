import MachineMonitor.Proofs.Expr.Truncation

/-!
# Two texts with a space between them

What the second text gives behind the first differs from what it gives alone in two ways: its errors
are reported further right, and there is less room for its tokens.

Results:
* `tokenize_space`: the second text is read into the tokens of the first.
* `collect_of_error`: where the second text fails, also with less room.
* `tokenize_append_space`: the answer for both texts from the two answers.
-/

namespace MachineMonitor.Expr

/-- The second text is read into the tokens of the first. -/
theorem tokenize_space (limits : Limits) (a b : String) :
    tokenize limits (a ++ " " ++ b) = (tokenize limits a >>= fun ta =>
      ((scan b).collect ta).mapError (LexError.shift (a.utf8ByteSize + 1))) := by
  have hlist : (a ++ " " ++ b).toList = a.toList ++ ' ' :: b.toList := by
    rw [String.toList_append, String.toList_append, List.append_assoc]
    rfl
  rw [tokenize_eq_read, hlist, TokenBuffer.read_append_space, ← tokenize_eq_read]
  refine bind_congr fun ta => ?_
  rw [Nat.add_assoc, TokenBuffer.read_shift, TokenBuffer.read_eq, String.ofList_toList]
  rfl

/-! ## The second text behind the first -/

section Second

variable {limits : Limits} {input : String}

/-- **Where a text fails**, the text up to there has tokens by itself. Behind other tokens the text
fails at the same place, if there is room for the tokens up to there. -/
theorem collect_of_error {e : LexError} (h : tokenize limits input = .error e) :
    ∃ front rest tb, input = front ++ rest ∧ (∀ p ∈ e.position?, p = front.utf8ByteSize) ∧
      tokenize limits front = .ok ⟨tb, limits⟩ ∧
      ∀ ta : List Token, ta.length ≤ limits.maxTokens → (scan input).collect ⟨ta, limits⟩ =
        .error (if limits.maxTokens < ta.length + tb.length then
          .tooManyTokens limits.maxTokens else e) := by
  rcases limits.exists_refuse (scan input).tokenLexemes with
    hroom | ⟨before, l, after, hsplit, hbefore, hl⟩
  · -- no token is refused, so the text fails where no rule matches
    have hfit := hroom.fit
    rw [← Scan.tokens_eq] at hfit
    rw [tokenize_of_fit hfit] at h
    obtain ⟨p, hp, rfl⟩ := Scan.of_settle_eq_error h
    obtain ⟨front, rest, hinput, -, -, hfront, hstuck⟩ := exists_scan input
    obtain ⟨htok, hnone⟩ := scan_of_munches hfront
    refine ⟨front, rest, (scan input).tokens, hinput, fun p' hp' => ?_, ?_, fun ta hta => ?_⟩
    · obtain rfl := Option.some.inj hp'
      rw [hp] at hstuck
      split_ifs at hstuck
      exact Option.some.inj hstuck
    · exact tokenize_eq_ok_iff.mpr ⟨hnone, by rwa [htok], by rw [htok]⟩
    · rw [collect_of_short hfit.size ta hta, Scan.settle_of_stuckAt hp]
      simp only [← Nat.not_lt]
      split_ifs <;> rfl
  · -- it fails at the first token that is refused
    rw [tokenize_of_refuse hsplit hbefore hl] at h
    obtain rfl := Except.error.inj h
    obtain ⟨front, rest, hinput, hpos, htok, hnone⟩ := exists_front hsplit
    refine ⟨front, l.text ++ rest, before.filterMap Lexeme.token?, ?_, fun p hp => ?_, ?_,
      collect_of_refuse hsplit hbefore hl⟩
    · rw [hinput, String.append_assoc]
    · rw [← hpos]
      exact Limits.position_of_refusal hp
    · exact tokenize_eq_ok_iff.mpr ⟨hnone, by rw [htok]; exact hbefore.fit, by rw [htok]⟩

end Second

/-! ## Both texts -/

/-- **Two texts with a space between them.** If the first text fails, both fail so. If both have
tokens, both together have those of the first and then those of the second, or too many. If the
second text fails, the part of it in front of the place of its error, if that has one, has tokens by
itself; if those of the first text and these are not too many, both fail with the error of the
second, and it is reported behind the first text and the space. -/
theorem tokenize_append_space (limits : Limits) (a b : String) :
    (∀ e, tokenize limits a = .error e → tokenize limits (a ++ " " ++ b) = .error e) ∧
    (∀ ta tb, tokenize limits a = .ok ta → tokenize limits b = .ok tb →
      tokenize limits (a ++ " " ++ b) =
        if ta.tokens.length + tb.tokens.length ≤ limits.maxTokens then
          .ok ⟨ta.tokens ++ tb.tokens, limits⟩
        else .error (.tooManyTokens limits.maxTokens)) ∧
    (∀ ta e, tokenize limits a = .ok ta → tokenize limits b = .error e →
      ∃ front rest tb, b = front ++ rest ∧ (∀ p ∈ e.position?, p = front.utf8ByteSize) ∧
        tokenize limits front = .ok ⟨tb, limits⟩ ∧ tokenize limits (a ++ " " ++ b) =
          .error (if limits.maxTokens < ta.tokens.length + tb.length then
            .tooManyTokens limits.maxTokens else e.shift (a.utf8ByteSize + 1))) := by
  refine ⟨fun e he => ?_, fun ta tb hta htb => ?_, fun ta e hta he => ?_⟩
  · rw [tokenize_space, he]
    rfl
  · rw [tokenize_space, hta]
    obtain ⟨-, hfit, rfl⟩ := tokenize_eq_ok_iff.mp hta
    obtain ⟨hstuck, hfit', rfl⟩ := tokenize_eq_ok_iff.mp htb
    show Except.mapError _ ((scan b).collect _) = _
    rw [collect_of_short hfit'.size _ hfit.count, Scan.settle_of_none hstuck]
    split_ifs <;> rfl
  · obtain ⟨front, rest, tb, hb, hp, hfront, hcollect⟩ := collect_of_error he
    refine ⟨front, rest, tb, hb, hp, hfront, ?_⟩
    rw [tokenize_space, hta]
    obtain ⟨-, hfit, rfl⟩ := tokenize_eq_ok_iff.mp hta
    show Except.mapError _ ((scan b).collect _) = _
    rw [hcollect _ hfit.count]
    split_ifs <;> rfl

/-- A sign is not read across the space: `1 =` fails in front of `= 2` as it does alone. -/
theorem tokenize_append_space_sign :
    tokenize ⟨3, 4⟩ ("1 =" ++ " " ++ "= 2") = .error (.noMatch 2) ∧
      tokenize ⟨3, 4⟩ ("1" ++ " " ++ "+ 2") =
        .ok ⟨[⟨.number, "1"⟩, ⟨.plus, "+"⟩, ⟨.number, "2"⟩], ⟨3, 4⟩⟩ ∧
      tokenize ⟨3, 4⟩ ("1 +" ++ " " ++ "2 3") = .error (.tooManyTokens 3) ∧
      ∃ front rest tb, "2 0xabcd" = front ++ rest ∧ (∀ p ∈ some 2, p = front.utf8ByteSize) ∧
        tokenize ⟨3, 4⟩ front = .ok ⟨tb, ⟨3, 4⟩⟩ ∧ tokenize ⟨3, 4⟩ ("1" ++ " " ++ "2 0xabcd") =
          .error (if 3 < 1 + tb.length then .tooManyTokens 3 else .tokenTooLong 4 6 4) := by
  obtain ⟨hfails, -⟩ := tokenize_append_space ⟨3, 4⟩ "1 =" "= 2"
  obtain ⟨-, hboth, -⟩ := tokenize_append_space ⟨3, 4⟩ "1" "+ 2"
  obtain ⟨-, hmany, -⟩ := tokenize_append_space ⟨3, 4⟩ "1 +" "2 3"
  obtain ⟨-, -, hsecond⟩ := tokenize_append_space ⟨3, 4⟩ "1" "2 0xabcd"
  exact ⟨hfails (.noMatch 2) (by decide +kernel),
    hboth ⟨[⟨.number, "1"⟩], ⟨3, 4⟩⟩ ⟨[⟨.plus, "+"⟩, ⟨.number, "2"⟩], ⟨3, 4⟩⟩ (by decide +kernel)
      (by decide +kernel),
    hmany ⟨[⟨.number, "1"⟩, ⟨.plus, "+"⟩], ⟨3, 4⟩⟩ ⟨[⟨.number, "2"⟩, ⟨.number, "3"⟩], ⟨3, 4⟩⟩
      (by decide +kernel) (by decide +kernel),
    hsecond ⟨[⟨.number, "1"⟩], ⟨3, 4⟩⟩ (.tokenTooLong 2 6 4) (by decide +kernel)
      (by decide +kernel)⟩

end MachineMonitor.Expr
