import Mathlib.Data.Fin.Basic
import Mathlib.Data.List.FinRange
import MachineMonitor.Proofs.Monitor.InPlace
import MachineMonitor.Proofs.Watch.Operations

/-!
# Slots by plain indices

An arena holds its records in a list and finds them by plain natural numbers, so an access to a
slot may be out of bounds. Its operations are programs that work in place, with their checks, their
accesses and their writes in the order in which they are made. On the arena of a pool they do what
the operations of the pool do.

Results:
* `look_run`, `write_run`, `takeSlot_run`, `giveBack_run`, `giveAllBack_run`, `readAll_run`,
  `update_run`: the programs, on the arena of a pool.
* `perform_run`, `step_arena`: one operation, on the arena of a pool.
* `partition_of_run`: in every run no access is out of bounds, and every index is free or active,
  once.
-/

namespace MachineMonitor

open Pool

/-- The records, the free indices with the next one to be taken first, and the active indices with
the newest first. -/
structure Arena where
  slots : List Watchpoint
  free : List Nat
  active : List Nat
  deriving DecidableEq, Repr

namespace Arena

variable {ε σ : Type}

/-- Why a program stops: it was refused, or no slot has the index. -/
inductive Fault (ε : Type) where
  | refused (e : Refusal ε)
  | outOfBounds (index : Nat)
  deriving DecidableEq, Repr

/-- A program that works on an arena in place. -/
abbrev Program (ε α : Type) := EStateM (Fault ε) Arena α

/-- An arena whose slots are all free, the first one on top. The id of a slot is its index. -/
def fresh (capacity : Nat) : Arena where
  slots := (List.range capacity).map fun index => ⟨UInt32.ofNat index, "", 0⟩
  free := List.range capacity
  active := []

/-! ## Programs -/

/-- The record of a slot. -/
def look (index : Nat) : Program ε Watchpoint := do
  match (← get).slots[index]? with
  | some w => return w
  | none => throw (.outOfBounds index)

/-- Writes the record of a slot. -/
def write (index : Nat) (w : Watchpoint) : Program ε Unit := do
  let _ ← look index
  modify fun a => { a with slots := a.slots.set index w }

/-- Pops a free index and makes it the newest active one. -/
def takeSlot : Program ε Nat := do
  let a ← get
  match a.free with
  | [] => throw (.refused (.watch (.poolExhausted a.slots.length)))
  | index :: free =>
    modify fun a => { a with free }
    modify fun a => { a with active := index :: a.active }
    return index

/-- The first of some indices whose record has an id. -/
def find (id : WatchpointId) : List Nat → Program ε (Option Nat)
  | [] => return none
  | index :: indices => do
    if (← look index).id == id then return some index else find id indices

/-- Takes the oldest active index with an id from the active ones and pushes it on the free ones. -/
def giveBack (id : WatchpointId) : Program ε Unit := do
  match ← find id (← get).active.reverse with
  | none => throw (.refused (.watch (.notFound id)))
  | some index =>
    modify fun a => { a with active := a.active.erase index }
    modify fun a => { a with free := index :: a.free }

/-- Pops active indices, the newest first, and pushes them on the free ones. -/
def moveAll : List Nat → Program ε Unit
  | [] => return
  | index :: indices => do
    modify fun a => { a with active := indices }
    modify fun a => { a with free := index :: a.free }
    moveAll indices

/-- Gives back all active indices. -/
def giveAllBack : Program ε Unit := do moveAll (← get).active

/-- Evaluates the expressions of some slots. The evaluator keeps its own state in between. -/
def readAll (eval : String → EStateM ε σ UInt32) (s : σ) :
    List Nat → Program ε (List (Nat × UInt32))
  | [] => return []
  | index :: indices => do
    match (eval (← look index).expression).run s with
    | .error e _ => throw (.refused (.eval e))
    | .ok value s' => return (index, value) :: (← readAll eval s' indices)

/-- Stores the values that are not the ones on record, and reports these changes. -/
def update : List (Nat × UInt32) → Program ε (List WatchChange)
  | [] => return []
  | (index, value) :: readings => do
    let w ← look index
    match change? w value with
    | none => update readings
    | some change =>
      write index { w with lastValue := value }
      return change :: (← update readings)

/-- Does an operation. -/
def perform : Op ε σ → Program ε Answer
  | .allocate expression value => do
    let index ← takeSlot
    let w ← look index
    write index (overwrite expression value w)
    return .taken w
  | .release id => do
    giveBack id
    return .done
  | .sweep eval start => do
    let readings ← readAll eval start (← get).active
    return .swept (← update readings)
  | .clear => do
    giveAllBack
    return .done

/-- Does an operation; one that stops leaves what has been written by then. -/
def step (a : Arena) (op : Op ε σ) : Except (Fault ε) Answer × Arena :=
  match (perform op).run a with
  | .ok answer a' => (.ok answer, a')
  | .error e a' => (.error e, a')

end Arena

/-! ## The arena of a pool -/

namespace Pool

variable {n : Nat} {ε α : Type}

/-- The arena of a pool. -/
def arena (p : Pool n) : Arena where
  slots := p.slots.toList
  free := p.free.map Fin.val
  active := p.active.map Fin.val

/-- What was tried on a pool, as an outcome on its arena: no access is out of bounds, and what is
refused leaves the arena as it was. -/
def onArena (p : Pool n) : Except (Refusal ε) (α × Pool n) → EStateM.Result (Arena.Fault ε) Arena α
  | .ok (a, p') => .ok a p'.arena
  | .error e => .error (.refused e) p.arena

theorem arena_empty (capacity : Nat) : (empty capacity).arena = Arena.fresh capacity := by
  have hslots : (empty capacity).slots.toList = (Arena.fresh capacity).slots := by
    simp [empty, Arena.fresh, Vector.toList_ofFn, List.ofFn_eq_map,
      ← List.map_coe_finRange_eq_range]
  have hfree : (empty capacity).free.map Fin.val = (Arena.fresh capacity).free :=
    List.map_coe_finRange_eq_range
  rw [arena, hslots, hfree]
  rfl

theorem arena_setRecord (p : Pool n) (s : Fin n) (w : Watchpoint) :
    (p.setRecord s w).arena = { p.arena with slots := p.arena.slots.set s w } := by
  unfold arena setRecord
  rw [Vector.toList_set]

end Pool

namespace Arena

variable {n : Nat} {ε σ : Type}

/-! ## Programs on the arena of a pool -/

theorem look_run (p : Pool n) (s : Fin n) :
    (look s : Program ε Watchpoint).run p.arena = .ok (p.record s) p.arena := by
  have hslot : p.arena.slots[s.val]? = some (p.record s) := by simp [arena, record]
  unfold look
  rw [EStateM.run_bind, EStateM.run_get]
  dsimp only
  rw [hslot]
  rfl

theorem write_run (p : Pool n) (s : Fin n) (w : Watchpoint) :
    (write s w : Program ε Unit).run p.arena = .ok () (p.setRecord s w).arena := by
  unfold write
  rw [EStateM.run_bind, look_run, arena_setRecord]
  rfl

theorem takeSlot_run (p : Pool n) :
    (takeSlot : Program ε Nat).run p.arena =
      p.onArena ((p.allocate.map fun (s, p') => (s.val, p')).mapError .watch) := by
  have hlen : p.arena.slots.length = n := by simp [arena]
  unfold takeSlot
  rw [EStateM.run_bind, EStateM.run_get]
  dsimp only
  rw [hlen]
  rcases p.allocate_cases with ⟨hfree, ha⟩ | ⟨s, free, hfree, ha⟩
  · have hnil : p.arena.free = [] := by rw [arena, hfree, List.map_nil]
    rw [ha, hnil]
    rfl
  · have hcons : p.arena.free = s.val :: free.map Fin.val := by rw [arena, hfree, List.map_cons]
    rw [ha, hcons]
    rfl

theorem find_run (p : Pool n) (id : WatchpointId) (slots : List (Fin n)) :
    (find id (slots.map Fin.val) : Program ε (Option Nat)).run p.arena =
      .ok ((slots.find? fun s => (p.record s).id == id).map Fin.val) p.arena := by
  induction slots with
  | nil => rfl
  | cons s slots ih =>
    rw [List.map_cons, find, EStateM.run_bind, look_run, List.find?_cons]
    dsimp only
    cases (p.record s).id == id with
    | true => rfl
    | false => exact ih

theorem giveBack_run (p : Pool n) (id : WatchpointId) :
    (giveBack id : Program ε Unit).run p.arena =
      p.onArena (((p.release id).map fun p' => ((), p')).mapError .watch) := by
  have hfind : (find id p.arena.active.reverse : Program ε (Option Nat)).run p.arena =
      .ok ((p.slotOf? id).map Fin.val) p.arena := by
    rw [arena, ← List.map_reverse]
    exact find_run p id p.active.reverse
  unfold giveBack release
  rw [EStateM.run_bind, EStateM.run_get]
  dsimp only
  rw [EStateM.run_bind, hfind]
  cases p.slotOf? id with
  | none => rfl
  | some s =>
    have herase : p.arena.active.erase s.val = (p.active.erase s).map Fin.val :=
      (List.map_erase Fin.val_injective p.active).symm
    have harena : Arena.mk p.arena.slots (s.val :: p.arena.free) (p.arena.active.erase s.val) =
        arena { p with free := s :: p.free, active := p.active.erase s } := by
      rw [herase]
      rfl
    exact congrArg (EStateM.Result.ok ()) harena

theorem giveAllBack_run (p : Pool n) :
    (giveAllBack : Program ε Unit).run p.arena = .ok () p.clear.arena := by
  show (moveAll (p.active.map Fin.val) : Program ε Unit).run p.arena = _
  obtain ⟨records, free, active⟩ := p
  unfold clear
  induction active generalizing free with
  | nil => rfl
  | cons s active ih =>
    rw [List.reverse_cons, List.append_assoc]
    exact ih (s :: free)

/-- Readings by plain indices. -/
def plain (readings : Readings n) : List (Nat × UInt32) :=
  readings.map fun (s, value) => (s.val, value)

theorem readAll_run (p : Pool n) (eval : String → EStateM ε σ UInt32) (start : σ)
    (slots : List (Fin n)) :
    (readAll eval start (slots.map Fin.val)).run p.arena =
      match (slots.mapM fun s => return (s, ← eval (p.record s).expression)).run start with
      | .ok readings _ => .ok (plain readings) p.arena
      | .error e _ => .error (.refused (.eval e)) p.arena := by
  induction slots generalizing start with
  | nil => rfl
  | cons s slots ih =>
    rw [List.map_cons, readAll, EStateM.run_bind, look_run, List.mapM_cons, EStateM.run_bind,
      EStateM.run_bind]
    dsimp only
    cases (eval (p.record s).expression).run start with
    | error e s' => rfl
    | ok value s' =>
      dsimp only [EStateM.run_pure]
      rw [EStateM.run_bind, EStateM.run_bind, ih]
      cases (slots.mapM fun s => return (s, ← eval (p.record s).expression)).run s' <;> rfl

/-- Updating by plain indices is updating in place. -/
theorem update_plain_run (p : Pool n) (readings : Readings n) :
    (update (plain readings)).run p.arena =
      within arena ((Pool.update readings : EStateM (Fault ε) _ _).run p) := by
  induction readings generalizing p with
  | nil => rfl
  | cons r readings ih =>
    obtain ⟨s, value⟩ := r
    rw [plain, List.map_cons, update, Pool.update, EStateM.run_bind, EStateM.run_bind, look_run,
      EStateM.run_get]
    dsimp only
    cases change? (p.record s) value with
    | none => exact ih p
    | some change =>
      have hstored : (modify fun p => p.store s value : EStateM (Fault ε) (Pool n) Unit).run p =
        .ok () (p.store s value) := rfl
      have hrest := ih (p.store s value)
      dsimp only
      rw [EStateM.run_bind, EStateM.run_bind, write_run, hstored]
      dsimp only
      rw [EStateM.run_bind, EStateM.run_bind]
      rw [plain, store] at hrest
      rw [hrest, store]
      cases (Pool.update readings : EStateM (Fault ε) _ _).run
        (p.setRecord s { p.record s with lastValue := value }) <;> rfl

theorem update_run (p : Pool n) {readings : Readings n} (h : (readings.map (·.1)).Nodup) :
    (update (plain readings) : Program ε (List WatchChange)).run p.arena =
      .ok (p.changes readings) (p.storeAll readings).arena := by
  rw [update_plain_run, p.update_run h]
  rfl

/-! ## One operation -/

theorem perform_run {p : Pool n} (h : p.WellFormed) (op : Op ε σ) :
    (perform op).run p.arena = p.onArena (p.apply op) := by
  unfold perform apply
  cases op with
  | allocate expression value =>
    dsimp only
    rw [EStateM.run_bind, takeSlot_run]
    cases p.allocate with
    | error e => rfl
    | ok taken =>
      obtain ⟨s, p'⟩ := taken
      show ((do let w ← look s.val; write s.val (overwrite expression value w); return .taken w) :
        Program ε Answer).run p'.arena = _
      rw [EStateM.run_bind, look_run]
      dsimp only
      rw [EStateM.run_bind, write_run]
      rfl
  | release id =>
    dsimp only
    rw [EStateM.run_bind, giveBack_run]
    cases p.release id <;> rfl
  | sweep eval start =>
    dsimp only
    rw [EStateM.run_bind, EStateM.run_get]
    dsimp only
    rw [EStateM.run_bind, show p.arena.active = p.active.map Fin.val from rfl, readAll_run,
      sweep_run, Pool.read]
    cases hread : (p.active.mapM fun s => return (s, ← eval (p.record s).expression)).run start with
    | error e s => rfl
    | ok readings s =>
      have hslots := map_fst_of_run hread
      dsimp only
      rw [EStateM.run_bind, update_run p (hslots ▸ h.active_nodup)]
      rfl
  | clear =>
    dsimp only
    rw [EStateM.run_bind, giveAllBack_run]
    rfl

theorem step_arena {p : Pool n} (h : p.WellFormed) (op : Op ε σ) :
    p.arena.step op = ((p.step op).1.mapError .refused, (p.step op).2.arena) := by
  unfold step Pool.step
  rw [perform_run h]
  cases p.apply op <;> rfl

/-! ## Runs -/

theorem run_arena {p : Pool n} (h : p.WellFormed) (ops : List (Op ε σ)) :
    stateAfter step p.arena ops = (stateAfter Pool.step p ops).arena ∧
      answers step p.arena ops = (answers Pool.step p ops).map (Except.mapError .refused) := by
  induction ops generalizing p with
  | nil => exact ⟨rfl, rfl⟩
  | cons op ops ih =>
    obtain ⟨hlast, hanswers⟩ := ih (wellFormed_step p op h)
    rw [stateAfter_cons, stateAfter_cons, answers, answers, step_arena h, List.map_cons]
    exact ⟨hlast, congrArg (_ :: ·) hanswers⟩

theorem perm_arena {p : Pool n} (h : p.WellFormed) :
    (p.arena.free ++ p.arena.active).Perm (List.range n) := by
  rw [arena, ← List.map_append, ← List.map_coe_finRange_eq_range]
  exact h.perm.map Fin.val

theorem ids_arena {p : Pool n} (h : p.WellFormed) :
    p.arena.slots.map (·.id) = (List.range n).map UInt32.ofNat := by
  refine List.ext_getElem? fun i => ?_
  by_cases hi : i < n
  · have hid := h.id_eq ⟨i, hi⟩
    rw [record] at hid
    simp [arena, hi, ← hid]
  · simp [arena, hi]

/-- A slot is refused just when all are active, and nothing is changed. -/
theorem step_allocate_eq_error_iff {p : Pool n} (h : p.WellFormed) {expression : Option String}
    {value : Option UInt32} {e : Fault ε} {a : Arena} :
    p.arena.step (.allocate expression value : Op ε σ) = (.error e, a) ↔
      e = .refused (.watch (.poolExhausted n)) ∧ a = p.arena ∧ p.active.length = n := by
  rw [step_arena h, Pool.step, apply]
  cases ha : p.allocate with
  | error e' =>
    obtain ⟨rfl, hlen⟩ := h.allocate_eq_error_iff.mp ha
    simp [Except.mapError, hlen, eq_comm]
  | ok taken =>
    have hlen : p.active.length ≠ n := fun hlen => by
      rw [h.allocate_eq_error_iff.mpr ⟨rfl, hlen⟩] at ha
      exact absurd ha (by simp)
    simp [Except.mapError, hlen]

/-- **The two lists share the slots out.** In every run of operations on `capacity` fresh slots,
with any evaluators, no access is out of bounds, every index is free or active and stands in its
list once, and every slot keeps the id that it had at first. To take a slot is refused just when all
of them are active, and that changes nothing. The run does what it does on a pool, whose slots can
only be found by indices that are in bounds. -/
theorem partition_of_run (capacity : Nat) (ops : List (Op ε σ)) :
    let p := stateAfter Pool.step (Pool.empty capacity) ops
    let a := stateAfter step (fresh capacity) ops
    (a.free ++ a.active).Perm (List.range capacity) ∧
      a.slots.map (·.id) = (List.range capacity).map UInt32.ofNat ∧
      (∀ (op : Op ε σ) (index : Nat), (a.step op).1 ≠ .error (.outOfBounds index)) ∧
      (∀ expression value (e : Fault ε) (a' : Arena),
        a.step (.allocate expression value : Op ε σ) = (.error e, a') ↔
          e = .refused (.watch (.poolExhausted capacity)) ∧ a' = a ∧ a.active.length = capacity) ∧
      p.WellFormed ∧ a = p.arena ∧
      answers step (fresh capacity) ops =
        (answers Pool.step (Pool.empty capacity) ops).map (Except.mapError .refused) := by
  intro p a
  have hp : p.WellFormed := wellFormed_stateAfter capacity ops
  obtain ⟨ha, hanswers⟩ := run_arena (Pool.wellFormed_empty capacity) ops
  rw [arena_empty] at ha hanswers
  have hap : a = p.arena := ha
  rw [hap]
  refine ⟨perm_arena hp, ids_arena hp, fun op index => ?_, fun expression value e a' => ?_, hp, rfl,
    hanswers⟩
  · rw [step_arena hp]
    cases (p.step op).1 <;> simp [Except.mapError]
  · rw [step_allocate_eq_error_iff hp]
    simp [arena]

end Arena

end MachineMonitor
