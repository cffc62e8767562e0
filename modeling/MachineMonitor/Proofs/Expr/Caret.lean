import MachineMonitor.Proofs.Expr.Joining

/-!
# The column of the caret

An error is shown in three parts, each beginning a line: its message, the input, and a caret behind
as many blanks as the position of the error says. Positions count bytes and columns count
characters. They agree because all that is read in front of an error is printable ASCII, which is a
property of the expressions of the lexical rules; what stands behind may be anything.

The blanks and the caret make a field, and a field has a largest width. The place where the caret
would stand further right is not shown: there is no text for the error then.

Results:
* `printable_of_tokenize`: a text that is split into tokens is printable.
* `render?_eq`: the text of an error, and where there is none.
* `lines_render?`: the lines of a rendered error.
* `render?_caret`: the caret stands in the column of the error, up to the largest width.
* `render?_too_wide`: an error further right is not rendered.
-/

namespace MachineMonitor.Expr

/-! ## What stands in front of an error -/

/-- What is read as tokens to its end is printable. -/
theorem Munches.printable {ts : List Token} {cs rest : List Char} (h : Munches ts cs rest)
    (hrest : rest = []) : ∀ c ∈ cs, IsPrintable c := by
  induction h with
  | nil => simp [hrest]
  | space _ ih => exact List.forall_mem_cons.mpr ⟨by decide, ih hrest⟩
  | token _ hu _ ih =>
    exact List.forall_mem_append.mpr ⟨Rule.printable_of_mem hu.mem, ih hrest⟩

/-- **A text that is split into tokens** is printable. -/
theorem printable_of_tokenize {limits : Limits} {s : String} {b : TokenBuffer}
    (h : tokenize limits s = .ok b) : ∀ c ∈ s.toList, IsPrintable c :=
  (munches_scan (tokenize_eq_ok_iff.mp h).1).printable rfl

/-! ## Lines -/

/-- The lines of a text. -/
def lines (s : String) : List String := (s.toList.splitOn '\n').map String.ofList

/-- A text that does not go on in another line. -/
def IsLine (s : String) : Prop := '\n' ∉ s.toList

instance (s : String) : Decidable (IsLine s) := inferInstanceAs (Decidable (¬ _))

theorem IsLine.append {s t : String} (hs : IsLine s) (ht : IsLine t) : IsLine (s ++ t) := by
  unfold IsLine
  rw [String.toList_append, List.mem_append]
  exact not_or.mpr ⟨hs, ht⟩

theorem isLine_toString (n : Nat) : IsLine (toString n) := by
  intro h
  have hlist : (toString n).toList = Nat.toDigits 10 n := String.toList_ofList
  rw [hlist] at h
  exact absurd (Nat.isDigit_of_mem_toDigits (by decide) (by decide) h) (by decide)

theorem isLine_message (e : LexError) : IsLine e.message := by
  cases e with
  | noMatch p => exact .append (by decide) (isLine_toString p)
  | tokenTooLong p len max =>
    exact ((((IsLine.append (by decide) (isLine_toString p)).append (by decide)).append
      (isLine_toString len)).append (by decide)).append (isLine_toString max)
  | tooManyTokens max => exact (IsLine.append (by decide) (isLine_toString max)).append (by decide)

theorem lines_of_isLine {s : String} (h : IsLine s) : lines s = [s] := by
  have hne : ∀ c ∈ s.toList, (c == '\n') = false := fun c hc =>
    beq_eq_false_iff_ne.mpr fun heq => h (heq ▸ hc)
  rw [lines, List.splitOn, List.splitOnP_eq_singleton hne, List.map_singleton, String.ofList_toList]

theorem lines_append_newline (s t : String) : lines (s ++ "\n" ++ t) = lines s ++ lines t := by
  have hlist : (s ++ "\n" ++ t).toList = s.toList ++ '\n' :: t.toList := by
    rw [String.toList_append, String.toList_append, List.append_assoc]
    rfl
  have hsplit : (s.toList ++ '\n' :: t.toList).splitOn '\n' =
      s.toList.splitOn '\n' ++ t.toList.splitOn '\n' :=
    List.splitOnP_append_cons _ _ (beq_self_eq_true '\n')
  rw [lines, hlist, hsplit, List.map_append, lines, lines]

/-! ## The caret -/

theorem pushn_eq_spaces (n : Nat) : "".pushn ' ' n = spaces n := by
  rw [String.pushn_eq_repeat_push]
  induction n with
  | zero => rfl
  | succ n ih =>
    show (Nat.repeat (fun s : String => s.push ' ') n "").push ' ' = _
    rw [ih, spaces, spaces, List.replicate_succ', String.ofList_append, String.push_eq_append]
    rfl

theorem isLine_spaces (n : Nat) : IsLine (spaces n) := by
  unfold IsLine
  rw [spaces, String.toList_ofList, List.mem_replicate]
  exact fun h => absurd h.2 (by decide)

/-- A caret has a field, unless that would be too wide. -/
theorem alignRight?_caret (p : Nat) : Text.alignRight? (p + 1) "^" =
    if p < Text.maxFieldWidth then some (spaces p ++ "^") else none := by
  rw [Text.alignRight?, ← pushn_eq_spaces]
  rfl

section Rendered

variable {e : LexError} {p : Nat}

/-- The text of an error that lies at one place, and where there is none. -/
theorem render?_eq (hp : e.position? = some p) (input : String) : e.render? input =
    if p < Text.maxFieldWidth then
      some (e.message ++ "\n" ++ input ++ "\n" ++ (spaces p ++ "^"))
    else none := by
  rw [LexError.render?, hp]
  simp only [alignRight?_caret]
  split_ifs <;> rfl

theorem render?_eq_none_iff (hp : e.position? = some p) (input : String) :
    e.render? input = none ↔ Text.maxFieldWidth ≤ p := by
  rw [render?_eq hp, ite_eq_right_iff, ← Nat.not_lt]
  exact forall_congr' fun _ => iff_of_false (Option.some_ne_none _) id

/-- **A rendered error** is the message in one line, the lines of the input, and the caret behind as
many blanks as the position says. -/
theorem lines_render? (hp : e.position? = some p) {input text : String}
    (h : e.render? input = some text) :
    lines text = e.message :: (lines input ++ [spaces p ++ "^"]) := by
  rw [render?_eq hp, Option.ite_none_right_eq_some] at h
  obtain rfl := Option.some.inj h.2
  rw [lines_append_newline, lines_append_newline, lines_of_isLine (isLine_message e),
    lines_of_isLine ((isLine_spaces p).append (by decide))]
  rfl

end Rendered

/-- **The caret stands in the right column**, where it can stand. If a text cannot be split into
tokens and the error lies at one place, all characters in front of the place have one byte and are
in the first line. So the position of the error, which counts bytes, is the number of characters in
front of it. Up to the largest width of a field, the error has a text, whose last line is the caret
behind as many blanks; further right it has none. -/
theorem render?_caret {limits : Limits} {input : String} {e : LexError} {p : Nat}
    (h : tokenize limits input = .error e) (hp : e.position? = some p) :
    ∃ before after, input = before ++ after ∧ before.utf8ByteSize = p ∧ before.length = p ∧
      (∀ c ∈ before.toList, c.utf8Size = 1 ∧ c ≠ '\n') ∧
      (p < Text.maxFieldWidth → ∃ text, e.render? input = some text ∧
        lines text = e.message :: (lines input ++ [spaces p ++ "^"]) ∧
        (lines text).getLast? = some (spaces p ++ "^")) ∧
      (Text.maxFieldWidth ≤ p → e.render? input = none) := by
  obtain ⟨before, after, tb, hinput, hplace, hbefore, -⟩ := collect_of_error h
  have hprintable := printable_of_tokenize hbefore
  have hbytes : before.utf8ByteSize = p := (hplace p hp).symm
  have hlength : before.length = p := by
    rw [← hbytes, ← String.length_toList, ← utf8ByteSize_eq_length hprintable, String.ofList_toList]
  refine ⟨before, after, hinput, hbytes, hlength, fun c hc => ?_, fun hwidth => ?_,
    (render?_eq_none_iff hp input).mpr⟩
  · exact ⟨(hprintable c hc).utf8Size_eq, (hprintable c hc).ne_newline⟩
  · have htext := render?_eq hp input
    rw [if_pos hwidth] at htext
    have hlines := lines_render? hp htext
    refine ⟨_, htext, hlines, ?_⟩
    rw [hlines, ← List.cons_append, List.getLast?_concat]

/-- Behind the place there may be characters of more bytes and more lines, and also what is left of
a token that is too long. -/
theorem render?_caret_accent :
    tokenize {} "12 + é\n(" = .error (.noMatch 5) ∧
      (LexError.render? (.noMatch 5) "12 + é\n(").map lines =
        some ["No token matches at position 5", "12 + é", "(", "     ^"] ∧
      tokenize ⟨5, 3⟩ "(0x12é" = .error (.tokenTooLong 1 4 3) ∧
      ((LexError.render? (.tokenTooLong 1 4 3) "(0x12é").bind (lines · |>.getLast?)) =
        some " ^" := by
  have hnoMatch : tokenize {} "12 + é\n(" = .error (.noMatch 5) := by decide +kernel
  have htooLong : tokenize ⟨5, 3⟩ "(0x12é" = .error (.tokenTooLong 1 4 3) := by decide +kernel
  have hinput : lines "12 + é\n(" = ["12 + é", "("] := by
    rw [show "12 + é\n(" = "12 + é" ++ "\n" ++ "(" by decide, lines_append_newline,
      lines_of_isLine (by decide), lines_of_isLine (by decide)]
    rfl
  obtain ⟨_, _, -, -, -, -, hshown, -⟩ := render?_caret hnoMatch rfl
  obtain ⟨_, _, -, -, -, -, hshown', -⟩ := render?_caret htooLong rfl
  obtain ⟨text, htext, hlines, -⟩ := hshown (by decide)
  obtain ⟨text', htext', -, hlast⟩ := hshown' (by decide)
  rw [hinput, show LexError.message (.noMatch 5) = "No token matches at position 5" by decide,
    show spaces 5 ++ "^" = "     ^" by decide] at hlines
  rw [htext, htext']
  exact ⟨hnoMatch, congrArg some hlines, htooLong, hlast.trans (by decide)⟩

/-! ## Errors that are too far right -/

/-- Any number of spaces is read before a character with which no rule begins. -/
theorem tokenize_spaces_unmatched {c : Char} {cs : List Char} (h : Rule.first? (c :: cs) = none)
    (limits : Limits) (n : Nat) :
    tokenize limits (spaces n ++ String.ofList (c :: cs)) = .error (.noMatch n) := by
  rw [tokenize_eq_read, String.toList_append, spaces, String.toList_ofList, String.toList_ofList,
    TokenBuffer.read_replicate, TokenBuffer.read_of_unmatched (List.cons_ne_nil c cs) h,
    Nat.zero_add]

/-- The first place that is too far right, in a text of one line. The error is found there, but its
last line is not the caret behind 65535 blanks: it has no lines at all. -/
theorem render?_too_wide :
    let input := spaces 65535 ++ "#"
    tokenize {} input = .error (.noMatch 65535) ∧
      LexError.render? (.noMatch 65535) input = none := by
  intro input
  have hunmatched : Rule.first? ['#'] = none := by decide
  exact ⟨tokenize_spaces_unmatched hunmatched {} 65535,
    (render?_eq_none_iff rfl input).mpr (Nat.le_refl _)⟩

end MachineMonitor.Expr
