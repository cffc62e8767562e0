import Mathlib.Data.List.Forall2
import Mathlib.Data.List.ReduceOption
import MachineMonitor.Proofs.Outcome

/-!
# Transcripts

A system that takes one input after the other and answers each is a step function from a state and
an input to an answer and the next state. Its transcript is the list of its answers, one for each
input.

Results:
* `getElem?_answers`: an answer depends on its input and on the inputs before it.
* `answers_without`: inputs that leave the state as it is can be left out.
* `reduceOption_without`: so can answers that are empty, from what is written.
* `answers_filter`: so can inputs that change nothing that the other inputs can see.
* `answers_eq_of_simulates`: two systems whose steps agree answer alike.
* `answers_of_performs`: commands that succeed in order, carried out by inputs.
-/

namespace MachineMonitor

variable {σ τ α β γ ε : Type}

/-! ## Runs -/

/-- The state after some inputs. -/
def stateAfter (step : σ → α → β × σ) (s : σ) (inputs : List α) : σ :=
  inputs.foldl (fun s a => (step s a).2) s

/-- The answers to some inputs, in order. -/
def answers (step : σ → α → β × σ) : σ → List α → List β
  | _, [] => []
  | s, a :: inputs => (step s a).1 :: answers step (step s a).2 inputs

theorem stateAfter_cons (step : σ → α → β × σ) (s : σ) (a : α) (inputs : List α) :
    stateAfter step s (a :: inputs) = stateAfter step (step s a).2 inputs := rfl

theorem stateAfter_concat (step : σ → α → β × σ) (s : σ) (inputs : List α) (a : α) :
    stateAfter step s (inputs ++ [a]) = (step (stateAfter step s inputs) a).2 :=
  List.foldl_append

theorem stateAfter_append (step : σ → α → β × σ) (s : σ) (inputs later : List α) :
    stateAfter step s (inputs ++ later) = stateAfter step (stateAfter step s inputs) later :=
  List.foldl_append

@[simp] theorem length_answers (step : σ → α → β × σ) (s : σ) (inputs : List α) :
    (answers step s inputs).length = inputs.length := by
  induction inputs generalizing s with
  | nil => rfl
  | cons a inputs ih => simp [answers, ih]

theorem answers_append (step : σ → α → β × σ) (s : σ) (inputs later : List α) :
    answers step s (inputs ++ later) =
      answers step s inputs ++ answers step (stateAfter step s inputs) later := by
  induction inputs generalizing s with
  | nil => rfl
  | cons a inputs ih => exact congrArg ((step s a).1 :: ·) (ih (step s a).2)

/-- The answer at a place is the one to the input at that place, in the state that the inputs before
it lead to. -/
theorem getElem?_answers (step : σ → α → β × σ) (s : σ) (inputs : List α) (i : Nat) :
    (answers step s inputs)[i]? =
      inputs[i]?.map fun a => (step (stateAfter step s (inputs.take i)) a).1 := by
  induction inputs generalizing s i with
  | nil => rfl
  | cons a inputs ih =>
    cases i with
    | zero => rfl
    | succ i => exact ih (step s a).2 i

theorem exists_of_mem_answers {step : σ → α → β × σ} {s : σ} {inputs : List α} {b : β}
    (h : b ∈ answers step s inputs) : ∃ s' a, a ∈ inputs ∧ (step s' a).1 = b := by
  obtain ⟨i, hi⟩ := List.mem_iff_getElem?.mp h
  rw [getElem?_answers] at hi
  obtain ⟨a, ha, hb⟩ := Option.map_eq_some_iff.mp hi
  exact ⟨_, a, List.mem_of_getElem? ha, hb⟩

/-! ## Leaving inputs out -/

/-- The entries of a list that are left when those at some positions are taken out. -/
def without (D : Nat → Bool) : List α → List α
  | [] => []
  | a :: as =>
    let rest := without (fun i => D (i + 1)) as
    if D 0 then rest else a :: rest

/-- **Inputs that leave the state as it is can be left out**: the answers to all the others stay the
same. -/
theorem answers_without {step : σ → α → β × σ} {s : σ} {inputs : List α} {D : Nat → Bool}
    (h : ∀ i a, inputs[i]? = some a → D i = true →
      (step (stateAfter step s (inputs.take i)) a).2 = stateAfter step s (inputs.take i)) :
    answers step s (without D inputs) = without D (answers step s inputs) := by
  induction inputs generalizing s D with
  | nil => rfl
  | cons a inputs ih =>
    have hrest := ih (s := (step s a).2) (D := fun i => D (i + 1)) fun i b hb hD =>
      h (i + 1) b hb hD
    rw [answers, without, without, ← hrest]
    by_cases hD : D 0 = true
    · have hs : (step s a).2 = s := h 0 a rfl hD
      rw [if_pos hD, if_pos hD, hs]
    · rw [if_neg hD, if_neg hD, answers]

/-- They can be left out, and the state after all inputs stays the same too. -/
theorem stateAfter_without {step : σ → α → β × σ} {s : σ} {inputs : List α} {D : Nat → Bool}
    (h : ∀ i a, inputs[i]? = some a → D i = true →
      (step (stateAfter step s (inputs.take i)) a).2 = stateAfter step s (inputs.take i)) :
    stateAfter step s (without D inputs) = stateAfter step s inputs := by
  induction inputs generalizing s D with
  | nil => rfl
  | cons a inputs ih =>
    have hrest := ih (s := (step s a).2) (D := fun i => D (i + 1)) fun i b hb hD =>
      h (i + 1) b hb hD
    rw [without, stateAfter_cons, ← hrest]
    by_cases hD : D 0 = true
    · have hs : (step s a).2 = s := h 0 a rfl hD
      rw [if_pos hD, hs]
    · rw [if_neg hD, stateAfter_cons]

/-- Entries that are empty can be left out of what is written. -/
theorem reduceOption_without {entries : List (Option β)} {D : Nat → Bool}
    (h : ∀ i entry, entries[i]? = some entry → D i = true → entry = none) :
    (without D entries).reduceOption = entries.reduceOption := by
  induction entries generalizing D with
  | nil => rfl
  | cons entry entries ih =>
    have hrest := ih (D := fun i => D (i + 1)) fun i b hb hD => h (i + 1) b hb hD
    rw [without]
    by_cases hD : D 0 = true
    · obtain rfl := h 0 entry rfl hD
      rw [if_pos hD, hrest, List.reduceOption_cons_of_none]
    · rw [if_neg hD]
      cases entry with
      | none => rw [List.reduceOption_cons_of_none, List.reduceOption_cons_of_none, hrest]
      | some b => rw [List.reduceOption_cons_of_some, List.reduceOption_cons_of_some, hrest]

/-- The answers to the inputs of some kind, picked from the answers to all inputs. -/
def answersTo (p : α → Bool) : List α → List β → List β
  | a :: inputs, b :: answers =>
    let rest := answersTo p inputs answers
    if p a then b :: rest else rest
  | _, _ => []

/-- **Inputs that change nothing that the other inputs can see can be left out.** `R` relates the
states that inputs of a kind `p` cannot tell apart, and inputs of other kinds lead from a state to
one of these. Then the answers to the inputs of kind `p` are those that they have by themselves. -/
theorem answers_filter {step : σ → α → β × σ} {p : α → Bool} {R : σ → σ → Prop}
    (hkeep : ∀ s t a, R s t → p a = true →
      (step s a).1 = (step t a).1 ∧ R (step s a).2 (step t a).2)
    (hdrop : ∀ s t a, R s t → p a = false → R (step s a).2 t)
    {s t : σ} (hst : R s t) (inputs : List α) :
    answers step t (inputs.filter p) = answersTo p inputs (answers step s inputs) ∧
      R (stateAfter step s inputs) (stateAfter step t (inputs.filter p)) := by
  induction inputs generalizing s t with
  | nil => exact ⟨rfl, hst⟩
  | cons a inputs ih =>
    rw [answers, answersTo, stateAfter_cons]
    by_cases hp : p a = true
    · obtain ⟨hanswer, hnext⟩ := hkeep s t a hst hp
      obtain ⟨hanswers, hlast⟩ := ih hnext
      rw [List.filter_cons_of_pos hp, if_pos hp, answers, stateAfter_cons, hanswer, hanswers]
      exact ⟨rfl, hlast⟩
    · rw [List.filter_cons_of_neg hp, if_neg hp]
      exact ih (hdrop s t a hst (Bool.eq_false_iff.mpr hp))

/-! ## Systems that agree -/

/-- **Two systems whose steps agree answer alike**, and their states stay related. -/
theorem answers_eq_of_simulates {step : σ → α → β × σ} {step' : τ → α → β × τ} {R : σ → τ → Prop}
    (h : ∀ s t a, R s t → (step s a).1 = (step' t a).1 ∧ R (step s a).2 (step' t a).2)
    {s : σ} {t : τ} (hst : R s t) (inputs : List α) :
    answers step s inputs = answers step' t inputs ∧
      R (stateAfter step s inputs) (stateAfter step' t inputs) := by
  induction inputs generalizing s t with
  | nil => exact ⟨rfl, hst⟩
  | cons a inputs ih =>
    obtain ⟨hanswer, hnext⟩ := h s t a hst
    obtain ⟨hanswers, hlast⟩ := ih hnext
    exact ⟨List.cons_eq_cons.mpr ⟨hanswer, hanswers⟩, hlast⟩

/-- What every step keeps holds after all inputs. -/
theorem stateAfter_induction {step : σ → α → β × σ} {P : σ → Prop}
    (h : ∀ s a, P s → P (step s a).2) {s : σ} (hs : P s) (inputs : List α) :
    P (stateAfter step s inputs) := by
  induction inputs generalizing s with
  | nil => exact hs
  | cons a inputs ih => exact ih (h s a hs)

/-- What none of the steps changes is the same after all inputs. -/
theorem stateAfter_eq_of_forall {step : σ → α → β × σ} {f : σ → γ} {inputs : List α}
    (h : ∀ s, ∀ a ∈ inputs, f (step s a).2 = f s) (s : σ) :
    f (stateAfter step s inputs) = f s := by
  induction inputs generalizing s with
  | nil => rfl
  | cons a inputs ih =>
    rw [stateAfter_cons, ih (fun s b hb => h s b (List.mem_cons_of_mem a hb)),
      h s a List.mem_cons_self]

/-! ## Inputs that may be refused -/

/-- Tries an input; one that is refused is answered with the error and leaves the state as it is. -/
def attempt (f : σ → α → Except ε σ) (s : σ) (a : α) : Except ε Unit × σ :=
  match f s a with
  | .ok s' => (.ok (), s')
  | .error e => (.error e, s)

/-- Tries an input in place; it leaves what its program has written, whether it is refused or
not. -/
def attemptInPlace (program : α → EStateM ε σ Unit) (s : σ) (a : α) : Except ε Unit × σ :=
  match (program a).run s with
  | .ok () s' => (.ok (), s')
  | .error e s' => (.error e, s')

theorem attemptInPlace_eq {program : α → EStateM ε σ Unit} {f : σ → α → Except ε σ} {s : σ} {a : α}
    (h : (program a).run s = orKeep s ((f s a).map fun s' => ((), s'))) :
    attemptInPlace program s a = attempt f s a := by
  unfold attemptInPlace attempt
  rw [h]
  cases f s a <;> rfl

/-- Two operations that succeed and fail alike agree when they are tried. -/
theorem attempt_simulates {f : σ → α → Except ε σ} {g : τ → α → Except ε τ} {abstraction : σ → τ}
    {s : σ} {a : α} (h : (f s a).map abstraction = g (abstraction s) a) :
    (attempt f s a).1 = (attempt g (abstraction s) a).1 ∧
      abstraction (attempt f s a).2 = (attempt g (abstraction s) a).2 := by
  unfold attempt
  rw [← h]
  cases f s a <;> exact ⟨rfl, rfl⟩

/-! ## Commands carried out by inputs -/

/-- An input carries out a command on a part of the state, and only if this succeeds the answer is
the one that tells so. -/
structure Performs (step : σ → α → β × σ) (whole : τ → σ) (success : β) (f : τ → γ → Except ε τ)
    (a : α) (c : γ) : Prop where
  ok : ∀ {t t' : τ}, f t c = .ok t' → step (whole t) a = (success, whole t')
  error : ∀ {t : τ} {e : ε}, f t c = .error e → (step (whole t) a).1 ≠ success

variable {step : σ → α → β × σ} {whole : τ → σ} {success : β} {f : τ → γ → Except ε τ}
  {inputs : List α} {commands : List γ}

/-- **Commands that succeed in order** are carried out by their inputs, and all answers tell so. -/
theorem answers_of_performs (h : List.Forall₂ (Performs step whole success f) inputs commands)
    {t t' : τ} (hf : commands.foldlM f t = .ok t') :
    answers step (whole t) inputs = inputs.map (fun _ => success) ∧
      stateAfter step (whole t) inputs = whole t' := by
  induction h generalizing t with
  | nil =>
    obtain rfl := Except.ok.inj hf
    exact ⟨rfl, rfl⟩
  | @cons a c inputs commands hac _ ih =>
    rw [List.foldlM_cons] at hf
    obtain ⟨t₁, hc, hf⟩ := ok_of_bind hf
    obtain ⟨hanswers, hlast⟩ := ih hf
    rw [answers, stateAfter_cons, hac.ok hc, hanswers, hlast]
    exact ⟨rfl, rfl⟩

/-- Commands of which one fails have an input whose answer tells so. -/
theorem exists_ok_of_answers (h : List.Forall₂ (Performs step whole success f) inputs commands)
    {t : τ} (hall : ∀ b ∈ answers step (whole t) inputs, b = success) :
    ∃ t', commands.foldlM f t = .ok t' := by
  induction h generalizing t with
  | nil => exact ⟨t, rfl⟩
  | @cons a c inputs commands hac _ ih =>
    obtain ⟨hanswer, hrest⟩ := List.forall_mem_cons.mp hall
    rw [List.foldlM_cons]
    cases hc : f t c with
    | error e => exact absurd hanswer (hac.error hc)
    | ok t₁ =>
      rw [hac.ok hc] at hrest
      exact ih hrest

/-- What every command keeps holds after all commands. -/
theorem foldlM_induction {P : τ → Prop}
    (h : ∀ c ∈ commands, ∀ t t', P t → f t c = .ok t' → P t') {t t' : τ} (ht : P t)
    (hf : commands.foldlM f t = .ok t') : P t' := by
  induction commands generalizing t with
  | nil =>
    obtain rfl := Except.ok.inj hf
    exact ht
  | cons c commands ih =>
    rw [List.foldlM_cons] at hf
    obtain ⟨t₁, hc, hf⟩ := ok_of_bind hf
    obtain ⟨hhead, htail⟩ := List.forall_mem_cons.mp h
    exact ih htail (hhead t t₁ ht hc) hf

end MachineMonitor
