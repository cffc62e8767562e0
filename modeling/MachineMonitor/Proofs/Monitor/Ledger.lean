import Mathlib.Order.Basic
import MachineMonitor.Machine
import MachineMonitor.Proofs.Monitor.InPlace
import MachineMonitor.Proofs.Monitor.Run
import MachineMonitor.Proofs.Transcript

/-!
# The watchpoints of a monitor by its ledger

A ledger is what the users of a monitor have to know of its watchpoints: a list of those that there
are, newest first, and a stack of the ids that are free. It has no slots, and its list and its stack
run in the order in which they are used. Up to 2^32 watchpoints, a monitor answers every sequence of
queries as its ledger does.

Results:
* `Ledger.sweep_eq_ok`: a sweep of a ledger that succeeds changes values only.
* `create_ledger`, `delete_ledger`, `sweep_ledger`, `clear_ledger`, `get?_ledger`: one operation on
  a monitor and on its ledger.
* `serve_ledger`: one query to a monitor and to its ledger.
* `serveInPlace_eq`: one query to a monitor, answered in place.
* `answers_ledger`: a monitor and its ledger, on every sequence of queries.
-/

namespace MachineMonitor

/-! ## Ledgers -/

/-- What there is to inspect, the watchpoints, newest first, and the ids that are free, the next one
to be taken on top. -/
structure Ledger (τ : Type) where
  target : τ
  limits : Expr.Limits
  capacity : Nat
  watched : List Watchpoint
  spare : List WatchpointId

namespace Ledger

variable {τ : Type}

/-- A ledger without watchpoints. The ids are free in ascending order. -/
def new (target : τ) (limits : Expr.Limits) (capacity : Nat) : Ledger τ where
  target := target
  limits := limits
  capacity := capacity
  watched := []
  spare := (List.range capacity).map UInt32.ofNat

/-- Stops watching an expression; its id is the next one to be taken. -/
def delete (l : Ledger τ) (id : WatchpointId) : Except WatchError (Ledger τ) :=
  if ∃ w ∈ l.watched, w.id = id then
    .ok { l with watched := l.watched.filter (·.id != id), spare := id :: l.spare }
  else .error (.notFound id)

/-- Gives back all ids, newest first. -/
def clear (l : Ledger τ) : Ledger τ :=
  { l with watched := [], spare := l.watched.foldl (fun spare w => w.id :: spare) l.spare }

/-- The watchpoint with this id. -/
def get? (l : Ledger τ) (id : WatchpointId) : Option Watchpoint := l.watched.find? (·.id == id)

variable [Target τ]

/-- The value of an expression. -/
def evaluate (l : Ledger τ) (expr : String) : Except Expr.EvalError UInt32 :=
  Expr.evaluate l.limits l.target expr

/-- Watches an expression that has a value, under the id on top of the stack. -/
def create (l : Ledger τ) (expr : String) :
    Except MonitorError ((WatchpointId × UInt32) × Ledger τ) :=
  match l.evaluate expr, l.spare with
  | .error e, _ => .error (.eval e)
  | .ok _, [] => .error (.watch (.poolExhausted l.capacity))
  | .ok value, id :: spare =>
    .ok ((id, value), { l with watched := ⟨id, expr, value⟩ :: l.watched, spare })

/-- Evaluates all watched expressions, newest first, reports those whose value is not the one on
record, and records the new values. -/
def sweep (l : Ledger τ) : Except Expr.EvalError (List WatchChange × Ledger τ) := do
  let seen ← l.watched.mapM fun w => return (w, ← l.evaluate w.expression)
  let changes := seen.filterMap fun (w, value) =>
    if value = w.lastValue then none else some ⟨w.id, w.expression, w.lastValue, value⟩
  return (changes, { l with watched := seen.map fun (w, value) => { w with lastValue := value } })

/-- What is looked at comes with its value and is otherwise left as it is. -/
theorem map_fst_of_mapM {f : Watchpoint → Except Expr.EvalError UInt32} {watched : List Watchpoint}
    {seen : List (Watchpoint × UInt32)}
    (h : (watched.mapM fun w => return (w, ← f w)) = .ok seen) : seen.map (·.1) = watched := by
  induction watched generalizing seen with
  | nil =>
    obtain rfl := Except.ok.inj h
    rfl
  | cons w watched ih =>
    rw [List.mapM_cons] at h
    obtain ⟨r, hr, h⟩ := ok_of_bind h
    obtain ⟨value, -, hr⟩ := ok_of_bind hr
    obtain ⟨rest, hrest, h⟩ := ok_of_bind h
    obtain rfl := Except.ok.inj hr
    obtain rfl := Except.ok.inj h
    exact congrArg (w :: ·) (ih hrest)

/-- A sweep that succeeds changes values only. -/
theorem sweep_eq_ok {l l' : Ledger τ} {changes : List WatchChange}
    (h : l.sweep = .ok (changes, l')) :
    l'.watched.map (fun w => (w.id, w.expression)) =
        l.watched.map (fun w => (w.id, w.expression)) ∧
      l' = { l with watched := l'.watched } := by
  obtain ⟨seen, hseen, h⟩ := ok_of_bind h
  obtain ⟨-, rfl⟩ := Prod.mk.inj (Except.ok.inj h)
  refine ⟨?_, rfl⟩
  rw [← map_fst_of_mapM hseen, List.map_map, List.map_map]
  rfl

end Ledger

/-! ## Queries -/

/-- What may be asked about watchpoints, and a change of the target. -/
inductive Query (τ : Type) where
  | create (expr : String)
  | delete (id : WatchpointId)
  | list
  | get (id : WatchpointId)
  | sweep
  | clear
  | mutate (f : τ → τ)

/-- What is answered. -/
inductive Reply where
  | created (id : WatchpointId) (value : UInt32)
  | listed (watchpoints : List Watchpoint)
  | got (found : Option Watchpoint)
  | swept (changes : List WatchChange)
  | done
  | refused (e : MonitorError)
  deriving DecidableEq, Repr

/-- The operations of something that keeps watchpoints. -/
structure WatchOperations (τ σ : Type) where
  create : σ → String → Except MonitorError ((WatchpointId × UInt32) × σ)
  delete : σ → WatchpointId → Except WatchError σ
  list : σ → List Watchpoint
  get? : σ → WatchpointId → Option Watchpoint
  sweep : σ → Except Expr.EvalError (List WatchChange × σ)
  clear : σ → σ
  mutate : σ → (τ → τ) → σ

/-- Answers a query; one that is refused changes nothing. -/
def WatchOperations.serve {τ σ : Type} (ops : WatchOperations τ σ) (s : σ) : Query τ → Reply × σ
  | .create expr =>
    match ops.create s expr with
    | .ok ((id, value), s') => (.created id value, s')
    | .error e => (.refused e, s)
  | .delete id =>
    match ops.delete s id with
    | .ok s' => (.done, s')
    | .error e => (.refused (.watch e), s)
  | .list => (.listed (ops.list s), s)
  | .get id => (.got (ops.get? s id), s)
  | .sweep =>
    match ops.sweep s with
    | .ok (changes, s') => (.swept changes, s')
    | .error e => (.refused (.eval e), s)
  | .clear => (.done, ops.clear s)
  | .mutate f => (.done, ops.mutate s f)

variable {τ : Type} [Target τ]

/-- The operations of a ledger. -/
def Ledger.operations : WatchOperations τ (Ledger τ) where
  create := create
  delete := delete
  list := watched
  get? := get?
  sweep := sweep
  clear := clear
  mutate l f := { l with target := f l.target }

/-- The operations of a monitor. -/
def Monitor.operations : WatchOperations τ (Monitor τ) where
  create := watchCreate
  delete := watchDelete
  list := watchList
  get? m id := m.pool.get? id
  sweep := watchSweep
  clear := watchClear
  mutate m f := { m with target := f m.target }

namespace Pool

variable {n : Nat} {p p' : Pool n}

/-- The ids of the free slots, the next one to be taken on top. -/
def freeIds (p : Pool n) : List WatchpointId := p.free.map fun s => (p.record s).id

theorem freeIds_empty (capacity : Nat) :
    (empty capacity).freeIds = (List.range capacity).map UInt32.ofNat := by
  rw [← List.map_coe_finRange_eq_range, List.map_map]
  refine List.map_congr_left fun s _ => ?_
  exact (wellFormed_empty capacity).id_eq s

/-- A record is written without a change to an id, so the free ids are the same. -/
theorem freeIds_fill (p : Pool n) (s : Fin n) (expression : String) (value : UInt32) :
    (p.fill s expression value).freeIds = p.freeIds :=
  List.map_congr_left fun i _ => p.id_fill s expression value i

theorem freeIds_storeAll (p : Pool n) (rs : Readings n) : (p.storeAll rs).freeIds = p.freeIds := by
  rw [freeIds, free_storeAll]
  exact List.map_congr_left fun i _ => id_storeAll p rs i

theorem freeIds_clear (p : Pool n) :
    p.clear.freeIds = p.toList.foldl (fun ids w => w.id :: ids) p.freeIds := by
  rw [List.foldl_flip_cons_eq_append, toList, List.map_map, ← List.map_reverse]
  exact List.map_append

/-- Under ids that do not repeat, the first record with an id is the one that the id finds. -/
theorem WellFormed.find?_toList (h : p.WellFormed) (hn : n ≤ UInt32.size) (id : WatchpointId) :
    p.toList.find? (·.id == id) = p.get? id := by
  cases hfound : p.toList.find? (·.id == id) with
  | none =>
    have hnone : p.slotOf? id = none := by
      rw [slotOf?_eq_none_iff]
      simpa using hfound
    rw [get?, hnone]
    rfl
  | some w =>
    have hmem := List.mem_of_find?_eq_some hfound
    have hid := List.find?_some hfound
    exact ((h.get?_eq_some_iff hn).mpr ⟨hmem, by simpa using hid⟩).symm

/-- Looking at the active records is looking at the records of the active slots. -/
theorem mapM_toList {ε : Type} (eval : String → Except ε UInt32) (p : Pool n) :
    (p.toList.mapM fun w => return (w, ← eval w.expression)) =
      (p.read eval).map (List.map fun (s, value) => (p.record s, value)) := by
  rw [toList, read]
  induction p.active with
  | nil => rfl
  | cons s slots ih =>
    rw [List.map_cons, List.mapM_cons, List.mapM_cons, ih]
    cases eval (p.record s).expression with
    | error e => rfl
    | ok value =>
      cases (slots.mapM fun s => return (s, ← eval (p.record s).expression)) <;> rfl

end Pool

namespace Monitor

/-- The ledger of a monitor. -/
def ledger (m : Monitor τ) : Ledger τ where
  target := m.target
  limits := m.limits
  capacity := m.capacity
  watched := m.watchList
  spare := m.pool.freeIds

omit [Target τ] in
/-- A change of the pool changes the list and the stack. -/
theorem ledger_pool (m : Monitor τ) (p : Pool m.capacity) :
    ledger { m with pool := p } = { m.ledger with watched := p.toList, spare := p.freeIds } := rfl

/-! ## Operations -/

theorem create_ledger {m : Monitor τ} (hm : m.pool.WellFormed) (expr : String) :
    (m.watchCreate expr).map (Prod.map id ledger) = m.ledger.create expr := by
  have hvalue : m.ledger.evaluate expr = m.evaluate expr := rfl
  rw [watchCreate, Ledger.create, hvalue]
  cases m.evaluate expr with
  | error e => rfl
  | ok value =>
    cases hfree : m.pool.free with
    | nil =>
      have halloc : m.pool.allocate = .error (.poolExhausted m.capacity) := by
        rw [Pool.allocate, hfree]
      have hspare : m.ledger.spare = [] := by
        rw [ledger, Pool.freeIds, hfree, List.map_nil]
      rw [halloc, hspare]
      rfl
    | cons s free =>
      let p : Pool m.capacity := { m.pool with free, active := s :: m.pool.active }
      have halloc : m.pool.allocate = .ok (s, p) := Pool.allocate_of_free hfree
      have hspare : m.ledger.spare = (m.pool.record s).id :: p.freeIds := by
        rw [ledger, Pool.freeIds, hfree, List.map_cons]
        rfl
      have hpool := m.ledger_pool (p.fill s expr value)
      rw [hm.toList_fill halloc, Pool.freeIds_fill] at hpool
      rw [halloc, hspare]
      exact congrArg (fun l => Except.ok ((_, value), l)) hpool

omit [Target τ] in
theorem delete_ledger {m : Monitor τ} (hm : m.pool.WellFormed) (hcap : m.capacity ≤ UInt32.size)
    (id : WatchpointId) : (m.watchDelete id).map ledger = m.ledger.delete id := by
  have hwatched : m.ledger.watched = m.pool.toList := rfl
  rw [watchDelete, Ledger.delete, hwatched]
  cases hs : m.pool.slotOf? id with
  | none =>
    have hrelease : m.pool.release id = .error (.notFound id) := by rw [Pool.release, hs]
    rw [hrelease, if_neg (Pool.slotOf?_eq_none_iff.mp hs)]
    rfl
  | some s =>
    have hrelease : m.pool.release id = .ok
        { m.pool with free := s :: m.pool.free, active := m.pool.active.erase s } := by
      rw [Pool.release, hs]
    obtain ⟨hmem, rfl⟩ := Pool.slotOf?_eq_some hs
    have hex : ∃ w ∈ m.pool.toList, w.id = (m.pool.record s).id :=
      ⟨m.pool.record s, List.mem_map_of_mem hmem, rfl⟩
    rw [hrelease, if_pos hex, ← hm.toList_release hcap hrelease]
    rfl

omit [Target τ] in
theorem clear_ledger (m : Monitor τ) : m.watchClear.ledger = m.ledger.clear := by
  rw [watchClear, ledger_pool, Pool.freeIds_clear]
  rfl

omit [Target τ] in
theorem get?_ledger {m : Monitor τ} (hm : m.pool.WellFormed) (hcap : m.capacity ≤ UInt32.size)
    (id : WatchpointId) : m.pool.get? id = m.ledger.get? id :=
  (hm.find?_toList hcap id).symm

theorem sweep_ledger {m : Monitor τ} (hm : m.pool.WellFormed) :
    m.watchSweep.map (Prod.map id ledger) = m.ledger.sweep := by
  have hseen : (m.ledger.watched.mapM fun w => return (w, ← m.ledger.evaluate w.expression)) =
      (m.pool.read m.evaluate).map (List.map fun (s, value) => (m.pool.record s, value)) :=
    m.pool.mapM_toList m.evaluate
  rw [watchSweep, Pool.sweep, Ledger.sweep, hseen]
  cases hread : m.pool.read m.evaluate with
  | error e => rfl
  | ok rs =>
    obtain ⟨hslots, -⟩ := Pool.reads_of_mapM hread
    have hpool := m.ledger_pool (m.pool.storeAll rs)
    rw [hm.toList_storeAll hslots, Pool.freeIds_storeAll] at hpool
    have hchanges : m.pool.changes rs =
        (rs.map fun (s, value) => (m.pool.record s, value)).filterMap fun (w, value) =>
          if value = w.lastValue then none else some ⟨w.id, w.expression, w.lastValue, value⟩ := by
      rw [List.filterMap_map]
      rfl
    have hwatched : (rs.map fun (s, value) => { m.pool.record s with lastValue := value }) =
        (rs.map fun (s, value) => (m.pool.record s, value)).map fun (w, value) =>
          { w with lastValue := value } := by
      rw [List.map_map]
      rfl
    rw [hwatched] at hpool
    show Except.ok (m.pool.changes rs, ledger { m with pool := m.pool.storeAll rs }) = _
    rw [hchanges, hpool]
    rfl

/-! ## Queries to both -/

/-- A query leads a monitor where the action that it asks for does. -/
theorem serve_eq_step (m : Monitor τ) (q : Query τ) :
    (operations.serve m q).2 = m ∨ ∃ a, (operations.serve m q).2 = m.step a := by
  cases q with
  | list | get _ => exact Or.inl rfl
  | create expr =>
    refine Or.inr ⟨.create expr, ?_⟩
    simp only [WatchOperations.serve, step, operations]
    cases m.watchCreate expr <;> rfl
  | delete id =>
    refine Or.inr ⟨.delete id, ?_⟩
    simp only [WatchOperations.serve, step, operations]
    cases m.watchDelete id <;> rfl
  | sweep =>
    refine Or.inr ⟨.sweep, ?_⟩
    simp only [WatchOperations.serve, step, operations]
    cases m.watchSweep <;> rfl
  | clear => exact Or.inr ⟨.clear, rfl⟩
  | mutate f => exact Or.inr ⟨.mutate f, rfl⟩

/-- **One query to a monitor and to its ledger** is answered alike, and has the same effect. -/
theorem serve_ledger {m : Monitor τ} (hm : m.pool.WellFormed) (hcap : m.capacity ≤ UInt32.size)
    (q : Query τ) :
    (operations.serve m q).1 = (Ledger.operations.serve m.ledger q).1 ∧
      (operations.serve m q).2.ledger = (Ledger.operations.serve m.ledger q).2 := by
  cases q with
  | create expr =>
    simp only [WatchOperations.serve, operations, Ledger.operations, ← create_ledger hm expr]
    cases m.watchCreate expr <;> exact ⟨rfl, rfl⟩
  | delete id =>
    simp only [WatchOperations.serve, operations, Ledger.operations, ← delete_ledger hm hcap id]
    cases m.watchDelete id <;> exact ⟨rfl, rfl⟩
  | list => exact ⟨rfl, rfl⟩
  | get id => exact ⟨congrArg Reply.got (get?_ledger hm hcap id), rfl⟩
  | sweep =>
    simp only [WatchOperations.serve, operations, Ledger.operations, ← sweep_ledger hm]
    cases m.watchSweep <;> exact ⟨rfl, rfl⟩
  | clear => exact ⟨rfl, m.clear_ledger⟩
  | mutate f => exact ⟨rfl, rfl⟩

/-! ## Queries in place -/

/-- Asks a monitor in place. -/
def ask : Query τ → EStateM MonitorError (Monitor τ) Reply
  | .create expr => do
    let (id, value) ← putWatch expr
    return .created id value
  | .delete id => do
    (onPool (Pool.giveBack id)).adaptExcept .watch
    return .done
  | .list => return .listed (← get).watchList
  | .get id => return .got ((← get).pool.get? id)
  | .sweep => do
    let m ← get
    return .swept (← (onPool (Pool.updateAll m.evaluate)).adaptExcept .eval)
  | .clear => do
    onPool Pool.giveAllBack
    return .done
  | .mutate f => do
    modify fun m => { m with target := f m.target }
    return .done

/-- Answers a query in place; one that is refused leaves what has been written by then. -/
def serveInPlace (m : Monitor τ) (q : Query τ) : Reply × Monitor τ :=
  match (ask q).run m with
  | .ok reply m' => (reply, m')
  | .error e m' => (.refused e, m')

theorem serveInPlace_eq {m : Monitor τ} (hm : m.pool.WellFormed) (q : Query τ) :
    m.serveInPlace q = operations.serve m q := by
  unfold serveInPlace ask
  cases q with
  | list | get _ | mutate _ => rfl
  | create expr =>
    dsimp only
    rw [EStateM.run_bind, putWatch_run]
    simp only [WatchOperations.serve, operations]
    cases m.watchCreate expr <;> rfl
  | delete id =>
    dsimp only
    rw [EStateM.run_bind, adaptExcept_run, giveBack_run]
    simp only [WatchOperations.serve, operations]
    cases m.watchDelete id <;> rfl
  | sweep =>
    dsimp only
    rw [EStateM.run_bind, EStateM.run_get]
    dsimp only
    rw [EStateM.run_bind, adaptExcept_run, updateAll_run hm]
    simp only [WatchOperations.serve, operations]
    cases m.watchSweep <;> rfl
  | clear =>
    dsimp only
    rw [EStateM.run_bind, giveAllBack_run]
    rfl

/-! ## Runs -/

/-- The ledger of a monitor whose pool is in order and whose ids do not repeat. -/
def HasLedger (m : Monitor τ) (l : Ledger τ) : Prop :=
  m.ledger = l ∧ m.pool.WellFormed ∧ m.capacity ≤ UInt32.size

theorem HasLedger.serve {m : Monitor τ} {l : Ledger τ} (h : m.HasLedger l) (q : Query τ) :
    (operations.serve m q).1 = (Ledger.operations.serve l q).1 ∧
      (operations.serve m q).2.HasLedger (Ledger.operations.serve l q).2 := by
  obtain ⟨rfl, hm, hcap⟩ := h
  obtain ⟨hreply, hledger⟩ := serve_ledger hm hcap q
  refine ⟨hreply, hledger, ?_⟩
  rcases m.serve_eq_step q with h | ⟨a, h⟩
  · rw [h]
    exact ⟨hm, hcap⟩
  · have hmoves := moves_step m a
    rw [h]
    exact ⟨hmoves.wellFormed hm, hmoves.capacity_eq.trans_le hcap⟩

/-- **A monitor answers as its ledger does**, in every sequence of queries about its watchpoints,
and it keeps the watchpoints and the free ids that its ledger has. A query that is answered in place
does the same. A sweep of the ledger that succeeds changes values only. -/
theorem answers_ledger (target : τ) (limits : Expr.Limits) {capacity : Nat}
    (hcap : capacity ≤ UInt32.size) (queries : List (Query τ)) :
    let start : Monitor τ := { target, limits, capacity }
    let m := stateAfter operations.serve start queries
    let l := stateAfter Ledger.operations.serve (Ledger.new target limits capacity) queries
    answers operations.serve start queries =
        answers Ledger.operations.serve (Ledger.new target limits capacity) queries ∧
      m.ledger = l ∧
      (∀ q, m.serveInPlace q = operations.serve m q) ∧
      ∀ changes l', l.sweep = .ok (changes, l') →
        l'.watched.map (fun w => (w.id, w.expression)) =
            l.watched.map (fun w => (w.id, w.expression)) ∧
          l' = { l with watched := l'.watched } := by
  intro start m l
  have hstart : start.HasLedger (Ledger.new target limits capacity) := by
    refine ⟨?_, Pool.wellFormed_empty capacity, hcap⟩
    rw [ledger, Ledger.new, ← Pool.freeIds_empty]
    rfl
  obtain ⟨hanswers, hledger, hm, -⟩ :=
    answers_eq_of_simulates (fun _ _ q h => HasLedger.serve h q) hstart queries
  exact ⟨hanswers, hledger, serveInPlace_eq hm, fun _ _ h => Ledger.sweep_eq_ok h⟩

/-- Two watchpoints fill a pool of two. The one that is deleted leaves its id to the next one, and
all that are cleared leave theirs with the oldest on top. -/
theorem answers_ledger_two :
    let queries : List (Query Machine) :=
      [.create "7", .create "$ra", .create "1", .create "1 +", .delete 0, .delete 0,
        .mutate fun t => { t with registers := t.registers.set 1 5 (by decide) },
        .create "1", .sweep, .list, .clear, .get 0, .create "2"]
    2 ≤ UInt32.size ∧
      answers operations.serve ({ target := {}, capacity := 2 } : Monitor Machine) queries =
        [.created 0 7, .created 1 0, .refused (.watch (.poolExhausted 2)),
          .refused (.eval .malformed), .done, .refused (.watch (.notFound 0)), .done,
          .created 0 1, .swept [⟨1, "$ra", 0, 5⟩], .listed [⟨0, "1", 1⟩, ⟨1, "$ra", 5⟩], .done,
          .got none, .created 1 2] := by
  intro queries
  have hcap : 2 ≤ UInt32.size := by decide
  refine ⟨hcap, (answers_ledger {} {} hcap queries).1.trans ?_⟩
  decide +kernel

end Monitor

end MachineMonitor
