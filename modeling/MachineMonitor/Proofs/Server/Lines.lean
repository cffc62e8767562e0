import Mathlib.Data.List.ReduceOption
import MachineMonitor.Proofs.Json.Plain
import MachineMonitor.Proofs.Protocol.Request
import MachineMonitor.Proofs.Session.Answered
import MachineMonitor.Proofs.Transcript
import MachineMonitor.Server

/-!
# Lines and answers

The server writes one line for each line that asks something, in order, until a line asks for the
end. The transcript of a session tells which line is answered by which: it has an entry for each
line, which is empty where nothing is written.

There is one kind of line for which this is not so: a request that has no answer, because the caret
under its failure would stand too far right, breaks the server, and nothing is written for it or for
any line after it.

Lines that ask nothing leave no trace at all, and lines that hold no message leave none but their
own refusals.

Results:
* `requestLine?_eq_some_iff`: the lines that ask something are the ones that hold a text in UTF-8
  with a character other than white space.
* `takes_step`: what one line can do.
* `run_eq`: the lines written are the entries of the transcript.
* `answered_iff`, `broken_iff`: the lines that have an answer, and the ones that break the server.
* `answersAll_iff`: all lines have their answers unless the server breaks.
* `take_of_not_message`: a line without a message leaves the session as it was.
* `run_without`, `transcript_without`: lines that are left out.
* `run_lines`: all of this, and that each line written is one line.
* `run_too_wide`: two lines that ask something, and no answer.
-/

namespace MachineMonitor.Server

/-! ## What a line asks -/

/-- Lines that ask something: they hold a text in UTF-8 that is not all white space. -/
def Asks (line : List UInt8) : Prop :=
  ∃ text : String, text.toUTF8.data.toList = line ∧ ∃ c ∈ text.toList, Text.isWhiteSpace c = false

/-- The message that a line holds. -/
def message? (line : List UInt8) : Option (Message Request) :=
  requestLine? line >>= Message.parseRequest?

/-- Lines that ask for the end. -/
def Ends (line : List UInt8) : Prop := ∃ m, message? line = some m ∧ m.content = .shutdown

/-- Lines with a request that has no answer under these limits. -/
def Breaks (limits : Expr.Limits) (line : List UInt8) : Prop :=
  ∃ m, message? line = some m ∧ m.content.Unanswerable limits

theorem fromUTF8?_eq_some_iff {bytes : ByteArray} {text : String} :
    String.fromUTF8? bytes = some text ↔ text.toUTF8 = bytes := by
  unfold String.fromUTF8?
  constructor
  · intro h
    split at h
    · exact congrArg String.toUTF8 (Option.some.inj h).symm
    · cases h
  · rintro rfl
    rw [String.toUTF8_eq_toByteArray, dif_pos text.isValidUTF8]
    rfl

theorem toUTF8_eq_iff {line : List UInt8} {text : String} :
    text.toUTF8 = ⟨line.toArray⟩ ↔ text.toUTF8.data.toList = line := by
  refine ⟨fun h => by rw [h], ?_⟩
  rintro rfl
  rw [Array.toArray_toList]

theorem isBlank_eq_false_iff {text : String} :
    Text.isBlank text = false ↔ ∃ c ∈ text.toList, Text.isWhiteSpace c = false := by
  simp [Text.isBlank]

theorem requestLine?_eq_some_iff {line : List UInt8} {text : String} :
    requestLine? line = some text ↔
      text.toUTF8.data.toList = line ∧ ∃ c ∈ text.toList, Text.isWhiteSpace c = false := by
  rw [← toUTF8_eq_iff, ← isBlank_eq_false_iff, ← fromUTF8?_eq_some_iff, requestLine?]
  cases String.fromUTF8? ⟨line.toArray⟩ with
  | none => simp
  | some found =>
    show (if Text.isBlank found = true then none else some found) = some text ↔ _
    rw [Option.ite_none_left_eq_some, and_comm]
    refine and_congr_right fun h => ?_
    obtain rfl := Option.some.inj h
    rw [Bool.not_eq_true]

theorem isSome_requestLine?_iff {line : List UInt8} : (requestLine? line).isSome ↔ Asks line := by
  rw [Option.isSome_iff_exists, Asks]
  exact exists_congr fun text => requestLine?_eq_some_iff

theorem requestLine?_eq_none_iff {line : List UInt8} : requestLine? line = none ↔ ¬ Asks line := by
  rw [← isSome_requestLine?_iff, Option.not_isSome_iff_eq_none]

theorem message?_of_request {line : List UInt8} {request : String}
    (h : requestLine? line = some request) : message? line = Message.parseRequest? request := by
  rw [message?, h]
  rfl

theorem message?_of_not_asks {line : List UInt8} (h : ¬ Asks line) : message? line = none := by
  rw [message?, requestLine?_eq_none_iff.mpr h]
  rfl

theorem not_ends_of_none {line : List UInt8} (h : message? line = none) : ¬ Ends line := by
  rintro ⟨m, hm, -⟩
  exact nomatch h.symm.trans hm

theorem not_breaks_of_none {limits : Expr.Limits} {line : List UInt8} (h : message? line = none) :
    ¬ Breaks limits line := by
  rintro ⟨m, hm, -⟩
  exact nomatch h.symm.trans hm

theorem Breaks.asks {limits : Expr.Limits} {line : List UInt8} (h : Breaks limits line) :
    Asks line := by
  by_contra hasks
  exact not_breaks_of_none (message?_of_not_asks hasks) h

/-- A line that asks for the end has an answer. -/
theorem Breaks.not_ends {limits : Expr.Limits} {line : List UInt8} (h : Breaks limits line) :
    ¬ Ends line := by
  obtain ⟨m, hm, hcontent⟩ := h
  rintro ⟨m', hm', hshutdown⟩
  obtain rfl := Option.some.inj (hm.symm.trans hm')
  rw [hshutdown] at hcontent
  exact Request.not_unanswerable_of_none rfl hcontent

/-- What is printed as a request is read as its message. -/
theorem message?_printRequest (m : Message Request) :
    message? m.printRequest.toUTF8.data.toList = some m := by
  have hrequest : requestLine? m.printRequest.toUTF8.data.toList = some m.printRequest := by
    refine requestLine?_eq_some_iff.mpr ⟨rfl, '\x7b', ?_, by decide⟩
    rw [Message.printRequest, Message.print, Json.Value.print, String.toList_ofList]
    exact List.mem_cons_self
  rw [message?_of_request hrequest]
  exact Message.parseRequest?_of_hasFields m.hasFields_envelope

/-! ## One line -/

section Explained

variable (explain : String → String)

/-- **What one line can do**: ask nothing, be refused, break the server, ask for the end, or be
served. -/
inductive Takes (s : Session) (line : List UInt8) : Option String × Stage → Prop
  | silent (h : ¬ Asks line) : Takes s line (none, .serving s)
  | refused {request : String} (h : requestLine? line = some request) (hm : message? line = none) :
      Takes s line (some (Message.printResponse (refusal explain request)), .serving s)
  | broken (h : Breaks s.limits line) : Takes s line (none, .broken)
  | ended {response : Message Response} (h : Ends line) :
      Takes s line (some response.printResponse, .ended)
  | served {response : Message Response} {s' : Session} (h : Asks line) (he : ¬ Ends line)
      (hb : ¬ Breaks s.limits line) (hlimits : s'.limits = s.limits) :
      Takes s line (some response.printResponse, .serving s')

theorem takes_step (s : Session) (line : List UInt8) :
    Takes explain s line (step explain s line) := by
  cases hrequest : requestLine? line with
  | none =>
    rw [step, hrequest]
    exact .silent (requestLine?_eq_none_iff.mp hrequest)
  | some request =>
    have hmessage := message?_of_request hrequest
    simp only [step, hrequest, answer]
    cases hm : Message.parseRequest? request with
    | none => exact .refused hrequest (hmessage.trans hm)
    | some m =>
      have hm := hmessage.trans hm
      have hanswered := s.handle_eq_none_iff m.content
      have hlimits := s.limits_handle m.content
      simp only [Session.reply]
      generalize s.handle m.content = handled at hanswered hlimits
      obtain ⟨response, s'⟩ := handled
      cases response with
      | none => exact .broken ⟨m, hm, hanswered.mp rfl⟩
      | some response =>
        simp only [Option.map_some]
        by_cases hshutdown : m.content = .shutdown
        · rw [if_pos hshutdown]
          exact .ended ⟨m, hm, hshutdown⟩
        · rw [if_neg hshutdown]
          refine .served ?_ ?_ ?_ hlimits
          · exact isSome_requestLine?_iff.mp (by rw [hrequest]; rfl)
          · rintro ⟨m', hm', hends⟩
            obtain rfl := Option.some.inj (hm.symm.trans hm')
            exact hshutdown hends
          · rintro ⟨m', hm', hcontent⟩
            obtain rfl := Option.some.inj (hm.symm.trans hm')
            exact Option.some_ne_none _ (hanswered.mpr hcontent)

theorem isSome_step_iff (s : Session) (line : List UInt8) :
    (step explain s line).1.isSome ↔ Asks line ∧ ¬ Breaks s.limits line := by
  have h := takes_step explain s line
  generalize step explain s line = taken at h
  cases h with
  | silent h => exact iff_of_false Bool.false_ne_true fun ⟨hasks, _⟩ => h hasks
  | refused h hm =>
    exact iff_of_true rfl ⟨isSome_requestLine?_iff.mp (by rw [h]; rfl), not_breaks_of_none hm⟩
  | broken h => exact iff_of_false Bool.false_ne_true fun ⟨_, hb⟩ => hb h
  | ended h =>
    refine iff_of_true rfl ⟨?_, fun hb => hb.not_ends h⟩
    by_contra hasks
    exact not_ends_of_none (message?_of_not_asks hasks) h
  | served h _ hb _ => exact iff_of_true rfl ⟨h, hb⟩

/-- After a line the server serves with the same limits, has ended, or is broken. -/
theorem stage_of_step (s : Session) (line : List UInt8) :
    (∃ s', (step explain s line).2 = .serving s' ∧ s'.limits = s.limits ∧
        ¬ Ends line ∧ ¬ Breaks s.limits line) ∨
      ((step explain s line).2 = .ended ∧ Ends line) ∨
      ((step explain s line).2 = .broken ∧ Breaks s.limits line) := by
  have h := takes_step explain s line
  generalize step explain s line = taken at h
  cases h with
  | silent h =>
    have hm := message?_of_not_asks h
    exact .inl ⟨s, rfl, rfl, not_ends_of_none hm, not_breaks_of_none hm⟩
  | refused _ hm => exact .inl ⟨s, rfl, rfl, not_ends_of_none hm, not_breaks_of_none hm⟩
  | broken h => exact .inr (.inr ⟨rfl, h⟩)
  | ended h => exact .inr (.inl ⟨rfl, h⟩)
  | served _ he hb hlimits => exact .inl ⟨_, rfl, hlimits, he, hb⟩

theorem step_of_breaks {s : Session} {line : List UInt8} (hb : Breaks s.limits line) :
    step explain s line = (none, .broken) := by
  have h := takes_step explain s line
  generalize step explain s line = taken at h
  cases h with
  | silent h => exact absurd hb.asks h
  | refused _ hm => exact absurd hb (not_breaks_of_none hm)
  | broken _ => rfl
  | ended h => exact absurd h hb.not_ends
  | served _ _ h _ => exact absurd hb h

theorem isPlain_of_step {s : Session} {line : List UInt8} {out : String}
    (hout : (step explain s line).1 = some out) : Json.IsPlain out := by
  have h := takes_step explain s line
  generalize step explain s line = taken at h hout
  cases h with
  | silent | broken => exact nomatch hout
  | refused | ended | served =>
    obtain rfl := Option.some.inj hout
    exact Message.isPlain_printResponse _

/-- A line without a message leaves the session as it was, and what is written is a refusal. -/
theorem step_of_not_message {line : List UInt8} (h : message? line = none) (s : Session) :
    step explain s line =
      ((requestLine? line).map (Message.printResponse <| refusal explain ·), .serving s) := by
  cases hrequest : requestLine? line with
  | none => simp only [step, hrequest, Option.map_none]
  | some request =>
    simp only [step, hrequest, answer, (message?_of_request hrequest).symm.trans h,
      Option.map_some]

/-! ## Whole sessions -/

/-- Takes a line, unless the server has ended or is broken. -/
def take : Stage → List UInt8 → Option String × Stage
  | .serving s, line => step explain s line
  | stage, _ => (none, stage)

/-- What is written for each line, if anything. -/
def transcript (s : Session) (lines : List (List UInt8)) : List (Option String) :=
  answers (take explain) (.serving s) lines

/-- The server at the end of some lines. -/
def stageAfter (s : Session) (lines : List (List UInt8)) : Stage :=
  stateAfter (take explain) (.serving s) lines

theorem getElem?_transcript (s : Session) (lines : List (List UInt8)) (i : Nat) :
    (transcript explain s lines)[i]? =
      lines[i]?.map fun line => (take explain (stageAfter explain s (lines.take i)) line).1 :=
  getElem?_answers ..

theorem stageAfter_append (s : Session) (before after : List (List UInt8)) :
    stageAfter explain s (before ++ after) =
      stateAfter (take explain) (stageAfter explain s before) after :=
  stateAfter_append ..

/-- Every line that asks something is answered, if no line before it asked for the end, and no other
line is. -/
def AnswersAll (s : Session) (lines : List (List UInt8)) : Prop :=
  ∀ i line, lines[i]? = some line →
    ((∃ out, (transcript explain s lines)[i]? = some (some out)) ↔
      Asks line ∧ ∀ earlier ∈ lines.take i, ¬ Ends earlier)

/-- A server that takes no more lines. -/
inductive Stage.Stopped : Stage → Prop
  | ended : Stopped .ended
  | broken : Stopped .broken

theorem take_of_stopped {stage : Stage} (h : stage.Stopped) (line : List UInt8) :
    take explain stage line = (none, stage) := by
  cases h with
  | ended | broken => rfl

/-- Once it has stopped, a server stays as it is. -/
theorem stateAfter_of_stopped {stage : Stage} (h : stage.Stopped) (lines : List (List UInt8)) :
    stateAfter (take explain) stage lines = stage := by
  induction lines with
  | nil => rfl
  | cons line lines ih => rwa [stateAfter_cons, take_of_stopped explain h]

/-- Once it has stopped, a server writes nothing. -/
theorem reduceOption_of_stopped {stage : Stage} (h : stage.Stopped) (lines : List (List UInt8)) :
    (answers (take explain) stage lines).reduceOption = [] := by
  induction lines with
  | nil => rfl
  | cons line lines ih => rwa [answers, take_of_stopped explain h, List.reduceOption_cons_of_none]

theorem reduceOption_cons (entry : Option String) (entries : List (Option String)) :
    (entry :: entries).reduceOption = entry.toList ++ entries.reduceOption := by
  cases entry <;> rfl

/-- The lines written are the entries of the transcript, in order. -/
theorem run_eq (s : Session) (lines : List (List UInt8)) :
    run explain s lines =
      ((transcript explain s lines).reduceOption, stageAfter explain s lines) := by
  unfold transcript stageAfter
  induction lines generalizing s with
  | nil => rfl
  | cons line lines ih =>
    rw [run, answers, stateAfter_cons, take, reduceOption_cons]
    obtain ⟨out, stage⟩ := step explain s line
    cases stage with
    | serving s' => simp only [ih s']
    | ended =>
      simp only [stateAfter_of_stopped explain .ended, reduceOption_of_stopped explain .ended,
        List.append_nil]
    | broken =>
      simp only [stateAfter_of_stopped explain .broken, reduceOption_of_stopped explain .broken,
        List.append_nil]

/-- **After some lines** the server serves with the limits it had, or one line was the first to stop
it. -/
theorem stageAfter_cases (s : Session) (lines : List (List UInt8)) :
    (∃ s', stageAfter explain s lines = .serving s' ∧ s'.limits = s.limits ∧
        ∀ line ∈ lines, ¬ Ends line ∧ ¬ Breaks s.limits line) ∨
      ∃ before line after, lines = before ++ line :: after ∧
        (∀ earlier ∈ before, ¬ Ends earlier ∧ ¬ Breaks s.limits earlier) ∧
        (stageAfter explain s lines = .ended ∧ Ends line ∨
          stageAfter explain s lines = .broken ∧ Breaks s.limits line) := by
  unfold stageAfter
  induction lines generalizing s with
  | nil => exact .inl ⟨s, rfl, rfl, List.forall_mem_nil _⟩
  | cons line lines ih =>
    rw [stateAfter_cons, take]
    rcases stage_of_step explain s line with
      ⟨s₁, hs₁, hlimits, hopen⟩ | ⟨hstage, hends⟩ | ⟨hstage, hbreaks⟩
    · rw [hs₁, ← hlimits]
      rw [← hlimits] at hopen
      rcases ih s₁ with ⟨s', hs', hlimits', hall⟩ | ⟨before, last, after, rfl, hbefore, hlast⟩
      · exact .inl ⟨s', hs', hlimits', List.forall_mem_cons.mpr ⟨hopen, hall⟩⟩
      · exact .inr ⟨line :: before, last, after, rfl, List.forall_mem_cons.mpr ⟨hopen, hbefore⟩,
          hlast⟩
    · rw [hstage, stateAfter_of_stopped explain .ended]
      exact .inr ⟨[], line, lines, rfl, List.forall_mem_nil _, .inl ⟨rfl, hends⟩⟩
    · rw [hstage, stateAfter_of_stopped explain .broken]
      exact .inr ⟨[], line, lines, rfl, List.forall_mem_nil _, .inr ⟨rfl, hbreaks⟩⟩

/-- **The lines that have an answer**: a line is answered if it asks something and does not break
the server, and no line before it ended or broke it. -/
theorem answered_iff (s : Session) {lines : List (List UInt8)} {i : Nat} {line : List UInt8}
    (h : lines[i]? = some line) :
    (∃ out, (transcript explain s lines)[i]? = some (some out)) ↔
      (Asks line ∧ ¬ Breaks s.limits line) ∧
        ∀ earlier ∈ lines.take i, ¬ Ends earlier ∧ ¬ Breaks s.limits earlier := by
  rw [getElem?_transcript, h, Option.map_some]
  rcases stageAfter_cases explain s (lines.take i) with
    ⟨s', hs', hlimits, hopen⟩ | ⟨before, stop, after, htake, -, hstop⟩
  · have hanswered := isSome_step_iff explain s' line
    rw [and_iff_left hopen, hs', ← hlimits, ← hanswered, Option.isSome_iff_exists]
    exact exists_congr fun out => Option.some_inj
  · have hmem : stop ∈ lines.take i := htake ▸ List.mem_append_right _ List.mem_cons_self
    refine iff_of_false (fun ⟨out, hout⟩ => ?_) fun ⟨_, hopen⟩ => ?_
    · rcases hstop with ⟨hstage, -⟩ | ⟨hstage, -⟩ <;> rw [hstage] at hout <;> exact nomatch hout
    · rcases hstop with ⟨-, hends⟩ | ⟨-, hbreaks⟩
      · exact (hopen stop hmem).1 hends
      · exact (hopen stop hmem).2 hbreaks

/-- **The lines that break the server**: ones with a request that has no answer, if no line before
them asked for the end. -/
theorem broken_iff (s : Session) (lines : List (List UInt8)) :
    (run explain s lines).2 = .broken ↔
      ∃ before line after, lines = before ++ line :: after ∧ Breaks s.limits line ∧
        ∀ earlier ∈ before, ¬ Ends earlier := by
  rw [run_eq]
  constructor
  · intro hbroken
    rcases stageAfter_cases explain s lines with
      ⟨s', hs', -⟩ | ⟨before, line, after, hsplit, hbefore, ⟨hended, -⟩ | ⟨-, hbreaks⟩⟩
    · exact nomatch hbroken.symm.trans hs'
    · exact nomatch hbroken.symm.trans hended
    · exact ⟨before, line, after, hsplit, hbreaks, fun earlier h => (hbefore earlier h).1⟩
  · rintro ⟨before, line, after, rfl, hbreaks, hopen⟩
    have hnext : (take explain (stageAfter explain s before) line).2 = .broken := by
      rcases stageAfter_cases explain s before with
        ⟨s', hs', hlimits, -⟩ | ⟨_, stop, _, hsplit, -, ⟨-, hends⟩ | ⟨hbroken, -⟩⟩
      · rw [hs', take, step_of_breaks explain (hlimits ▸ hbreaks)]
      · exact absurd hends (hopen stop (hsplit ▸ List.mem_append_right _ List.mem_cons_self))
      · rw [hbroken]
        rfl
    rw [stageAfter_append, stateAfter_cons, hnext]
    exact stateAfter_of_stopped explain .broken after

/-- **All lines have their answers** unless the server breaks. -/
theorem answersAll_iff (s : Session) (lines : List (List UInt8)) :
    AnswersAll explain s lines ↔ (run explain s lines).2 ≠ .broken := by
  rw [ne_eq, broken_iff]
  constructor
  · rintro hall ⟨before, line, after, rfl, hbreaks, hopen⟩
    have hline : (before ++ line :: after)[before.length]? = some line := by simp
    have hanswered := (hall _ _ hline).mpr
      ⟨hbreaks.asks, by rwa [List.take_left]⟩
    exact ((answered_iff explain s hline).mp hanswered).1.2 hbreaks
  · intro hwhole i line hline
    have hnot : ∀ before stop after, lines = before ++ stop :: after →
        (∀ earlier ∈ before, ¬ Ends earlier) → ¬ Breaks s.limits stop :=
      fun before stop after hsplit hopen hbreaks =>
        hwhole ⟨before, stop, after, hsplit, hbreaks, hopen⟩
    rw [answered_iff explain s hline]
    refine ⟨fun ⟨⟨hasks, _⟩, hopen⟩ => ⟨hasks, fun earlier h => (hopen earlier h).1⟩,
      fun ⟨hasks, hopen⟩ => ⟨⟨hasks, ?_⟩, fun earlier h => ⟨hopen earlier h, ?_⟩⟩⟩
    · obtain ⟨hi, rfl⟩ := List.getElem?_eq_some_iff.mp hline
      refine hnot (lines.take i) _ (lines.drop (i + 1)) ?_ hopen
      rw [List.getElem_cons_drop, List.take_append_drop]
    · obtain ⟨before, after, hsplit⟩ := List.append_of_mem h
      refine hnot before earlier (after ++ lines.drop i) ?_ fun e he => hopen e ?_
      · rw [← List.cons_append, ← List.append_assoc, ← hsplit, List.take_append_drop]
      · exact hsplit ▸ List.mem_append_left _ he

theorem isPlain_of_mem_run {s : Session} {lines : List (List UInt8)} {out : String}
    (h : out ∈ (run explain s lines).1) : Json.IsPlain out := by
  rw [run_eq, List.reduceOption_mem_iff] at h
  obtain ⟨stage, line, -, hout⟩ := exists_of_mem_answers h
  cases stage with
  | serving s' => exact isPlain_of_step explain hout
  | ended | broken => exact nomatch hout

/-! ## Leaving lines out -/

/-- A line without a message leaves the server as it was, and nothing but a refusal of its text is
written for it. -/
theorem take_of_not_message {line : List UInt8} (h : message? line = none) (stage : Stage) :
    (take explain stage line).2 = stage ∧
      ∀ out, (take explain stage line).1 = some out → ∃ request,
        requestLine? line = some request ∧
          out = Message.printResponse (refusal explain request) := by
  cases stage with
  | ended | broken => exact ⟨rfl, fun out hout => nomatch hout⟩
  | serving s =>
    rw [take, step_of_not_message explain h s]
    refine ⟨rfl, fun out hout => ?_⟩
    obtain ⟨request, hrequest, hrefused⟩ := Option.map_eq_some_iff.mp hout
    exact ⟨request, hrequest, hrefused.symm⟩

section Without

variable {s : Session} {lines : List (List UInt8)} {D : Nat → Bool}

theorem transcript_without
    (h : ∀ i line, lines[i]? = some line → D i = true → message? line = none) :
    transcript explain s (without D lines) = without D (transcript explain s lines) :=
  answers_without fun i line hline hD => (take_of_not_message explain (h i line hline hD) _).1

theorem stageAfter_without
    (h : ∀ i line, lines[i]? = some line → D i = true → message? line = none) :
    stageAfter explain s (without D lines) = stageAfter explain s lines :=
  stateAfter_without fun i line hline hD => (take_of_not_message explain (h i line hline hD) _).1

theorem refusal_of_not_message {i : Nat} {line : List UInt8} {out : String}
    (hline : lines[i]? = some line) (h : message? line = none)
    (hout : (transcript explain s lines)[i]? = some (some out)) : ∃ request,
      requestLine? line = some request ∧
        out = Message.printResponse (refusal explain request) := by
  rw [getElem?_transcript, hline] at hout
  exact (take_of_not_message explain h _).2 out (Option.some.inj hout)

/-- Nothing is written for a line that asks nothing, so nothing is missing without it. -/
theorem run_without (h : ∀ i line, lines[i]? = some line → D i = true → ¬ Asks line) :
    run explain s (without D lines) = run explain s lines := by
  have hmessage : ∀ i line, lines[i]? = some line → D i = true → message? line = none :=
    fun i line hline hD => message?_of_not_asks (h i line hline hD)
  rw [run_eq, run_eq, transcript_without explain hmessage, stageAfter_without explain hmessage]
  refine congrArg (·, _) (reduceOption_without fun i entry hentry hD => ?_)
  cases entry with
  | none => rfl
  | some out =>
    have hi : i < lines.length := by
      rw [← length_answers (take explain) (.serving s) lines]
      exact (List.getElem?_eq_some_iff.mp hentry).1
    have hline := List.getElem?_eq_getElem hi
    have hasks := ((answered_iff explain s hline).mp ⟨out, hentry⟩).1.1
    exact absurd hasks (h i _ hline hD)

end Without

/-! ## The lines that are written -/

/-- **A session as it is seen from outside**, whatever configuration it started with and whatever is
said about lines that are refused. The transcript has one entry for each line, and the lines written
are the ones in it, in order. A line has an answer if it asks something and is no request without an
answer, and no line before it asked for the end or was such a request. So all lines up to the first
that asks for the end have their answers just when the server does not break, and it breaks at the
first request without an answer that is not too late. What is written holds no control characters,
and no message would, whatever its texts. Lines that ask nothing can be left out, and nothing
changes; lines that hold no message can be left out, and nothing but their own refusals goes with
them. -/
theorem run_lines (s : Session) (lines : List (List UInt8)) :
    (transcript explain s lines).length = lines.length ∧
      (run explain s lines).1 = (transcript explain s lines).reduceOption ∧
      (∀ i line, lines[i]? = some line →
        ((∃ out, (transcript explain s lines)[i]? = some (some out)) ↔
          (Asks line ∧ ¬ Breaks s.limits line) ∧
            ∀ earlier ∈ lines.take i, ¬ Ends earlier ∧ ¬ Breaks s.limits earlier)) ∧
      (AnswersAll explain s lines ↔ (run explain s lines).2 ≠ .broken) ∧
      ((run explain s lines).2 = .broken ↔
        ∃ before line after, lines = before ++ line :: after ∧ Breaks s.limits line ∧
          ∀ earlier ∈ before, ¬ Ends earlier) ∧
      (∀ out ∈ (run explain s lines).1, Json.IsPlain out) ∧
      (∀ m : Message Response, Json.IsPlain m.printResponse) ∧
      (∀ D : Nat → Bool, (∀ i line, lines[i]? = some line → D i = true → ¬ Asks line) →
        run explain s (without D lines) = run explain s lines) ∧
      ∀ D : Nat → Bool, (∀ i line, lines[i]? = some line → D i = true → message? line = none) →
        transcript explain s (without D lines) = without D (transcript explain s lines) ∧
          (run explain s (without D lines)).2 = (run explain s lines).2 ∧
          ∀ i line out, D i = true → lines[i]? = some line →
            (transcript explain s lines)[i]? = some (some out) → ∃ request,
              requestLine? line = some request ∧
                out = Message.printResponse (refusal explain request) := by
  refine ⟨length_answers (take explain) (.serving s) lines, by rw [run_eq],
    fun i line h => answered_iff explain s h, answersAll_iff explain s lines,
    broken_iff explain s lines, fun out h => isPlain_of_mem_run explain h,
    Message.isPlain_printResponse, fun D h => run_without explain h, fun D h => ?_⟩
  refine ⟨transcript_without explain h, ?_, fun i line out hD hline hout => ?_⟩
  · rw [run_eq, run_eq]
    exact stageAfter_without explain h
  · exact refusal_of_not_message explain hline (h i line hline hD) hout

end Explained

/-- A blank line, one that is refused, one that asks for the end and one that comes too late. -/
theorem run_lines_shutdown :
    let explain : String → String := fun line => line ++ " is no value"
    let s : Session := { target := {}, capacity := 1 }
    let request := "\x7b\"jsonrpc\":\"2.0\",\"id\":7,\"method\":\"shutdown\"\x7d".toUTF8.data.toList
    let lines : List (List UInt8) := [[0x20], [0x78], request, [0x78]]
    let D : Nat → Bool := fun i => i == 0
    let E : Nat → Bool := fun i => i == 0 || i == 1
    (∀ i line, lines[i]? = some line → D i = true → ¬ Asks line) ∧
      (∀ i line, lines[i]? = some line → E i = true → message? line = none) ∧
      run explain s [[0x78], request, [0x78]] = run explain s lines ∧
      transcript explain s [request, [0x78]] =
        [some (Message.printResponse (.reply 7 .done)), none] := by
  intro explain s request lines D E
  have hblank : ∀ i line, lines[i]? = some line → D i = true → ¬ Asks line := by
    intro i line hline hD
    obtain rfl : i = 0 := by simpa [D] using hD
    obtain rfl := Option.some.inj hline
    exact requestLine?_eq_none_iff.mp (by decide)
  have hmessage : ∀ i line, lines[i]? = some line → E i = true → message? line = none := by
    intro i line hline hE
    have hi : i = 0 ∨ i = 1 := by simpa [E] using hE
    rcases hi with rfl | rfl <;> obtain rfl := Option.some.inj hline <;> decide
  obtain ⟨-, -, -, -, -, -, -, hrun, htranscript⟩ := run_lines explain s lines
  refine ⟨hblank, hmessage, hrun D hblank, (htranscript E hmessage).1.trans ?_⟩
  decide +kernel

/-- An expression of 65535 spaces and a sign that no token begins with, sent to the server as it
starts without a configuration, and then a line that is no message. Both lines ask something and
none asks for the end, but neither is answered. -/
theorem run_too_wide :
    let explain : String → String := fun line => line ++ " is no value"
    let s : Session := { target := {} }
    let m : Message Request := .reply 1 (.eval (Expr.spaces 65535 ++ "#"))
    let line := m.printRequest.toUTF8.data.toList
    Session.ofConfig {} = .ok s ∧ Asks line ∧ Asks [0x78] ∧ ¬ Ends line ∧
      run explain s [line, [0x78]] = ([], .broken) ∧ ¬ AnswersAll explain s [line, [0x78]] := by
  intro explain s m line
  have hunmatched : Expr.Rule.first? ['#'] = none := by decide
  have hbreaks : Breaks s.limits line :=
    ⟨m, message?_printRequest m, _, 65535, rfl, Expr.tokenize_spaces_unmatched hunmatched _ _,
      Nat.le_refl _⟩
  have hrun : run explain s [line, [0x78]] = ([], .broken) := by
    rw [run, step_of_breaks explain hbreaks]
    rfl
  refine ⟨rfl, hbreaks.asks, ?_, hbreaks.not_ends, hrun, fun hall => ?_⟩
  · exact isSome_requestLine?_iff.mp (by decide)
  · rw [answersAll_iff, hrun] at hall
    exact hall rfl

end MachineMonitor.Server
