/-!
# The watchpoint pool

Model of `WatchpointPool` (`with_capacity`, `allocate`, `release`, `get`, `list`, `sweep`, `clear`)
and of the records and errors it speaks of. A pool has a fixed number of slots. The free slots form
a stack and the active ones a list, newest first. A slot keeps its record when it is released and
its id for ever, so an id is used again as soon as its slot is. Ids are 32-bit words: beyond 2^32
slots they repeat.

* A slot is an index below the capacity, so none is out of bounds; `Proofs/Watch/Arena` has the pool
  over plain indices.
* `sweep` gives a new pool; `Proofs/Watch/Calls` has the sweep that writes in place.

Left out: what is traced, which `Monitor/Log` has, and `active_len`, `free_len` and `is_empty`, for
which the lists stand. Idealised: there is memory for all slots.

Results:
* `record_setRecord`: a slot that is written holds what was written, and no other slot changes.
* `id_fill`, `id_store`: what is written to a slot never changes an id.
* `slotOf?_eq_some`: a slot found by id is active and has that id.
-/

namespace MachineMonitor

/-- Names a watchpoint. -/
abbrev WatchpointId := UInt32

/-- A watched expression and the value it had when it was last looked at. -/
structure Watchpoint where
  id : WatchpointId
  expression : String
  lastValue : UInt32
  deriving DecidableEq, Repr

/-- A watched expression that no longer has the value it had. -/
structure WatchChange where
  id : WatchpointId
  expression : String
  oldValue : UInt32
  newValue : UInt32
  deriving DecidableEq, Repr

/-- Why a pool refused a request. -/
inductive WatchError where
  | poolExhausted (capacity : Nat)
  | notFound (id : WatchpointId)
  deriving DecidableEq, Repr

/-- The text shown for a refused request. -/
def WatchError.message : WatchError → String
  | poolExhausted capacity => s!"No more watchpoints (capacity {capacity})"
  | notFound id => s!"No such watchpoint: {id}"

/-- The records of all slots, the free slots with the next one to be taken first, and the active
slots with the newest first. -/
structure Pool (capacity : Nat) where
  slots : Vector Watchpoint capacity
  free : List (Fin capacity)
  active : List (Fin capacity)
  deriving DecidableEq, Repr

namespace Pool

/-- The number of slots of a pool that is not told otherwise. -/
def defaultCapacity : Nat := 32

variable {n : Nat}

/-- A pool whose slots are all free, the first one on top. The id of a slot is its index. -/
def empty (capacity : Nat) : Pool capacity where
  slots := Vector.ofFn fun slot => ⟨UInt32.ofNat slot, "", 0⟩
  free := List.finRange capacity
  active := []

/-! ### Slots -/

/-- The record of a slot. -/
def record (p : Pool n) (slot : Fin n) : Watchpoint := p.slots[slot]

/-- Writes the record of a slot. -/
def setRecord (p : Pool n) (slot : Fin n) (w : Watchpoint) : Pool n :=
  { p with slots := p.slots.set slot w }

theorem record_setRecord (p : Pool n) (slot : Fin n) (w : Watchpoint) (i : Fin n) :
    (p.setRecord slot w).record i = if slot = i then w else p.record i := by
  simp only [record, setRecord, Fin.getElem_fin, Vector.getElem_set, Fin.ext_iff]

/-! ### Looking -/

/-- The active records, newest first. -/
def toList (p : Pool n) : List Watchpoint := p.active.map p.record

/-- The active slot with this id; the oldest one, should there be several. -/
def slotOf? (p : Pool n) (id : WatchpointId) : Option (Fin n) :=
  p.active.reverse.find? fun slot => (p.record slot).id == id

/-- The active record with this id; the oldest one, should there be several. -/
def get? (p : Pool n) (id : WatchpointId) : Option Watchpoint :=
  (p.slotOf? id).map p.record

theorem slotOf?_eq_some {p : Pool n} {id : WatchpointId} {slot : Fin n}
    (h : p.slotOf? id = some slot) : slot ∈ p.active ∧ (p.record slot).id = id := by
  have hmem := List.mem_of_find?_eq_some h
  have hid := List.find?_some h
  exact ⟨by simpa using hmem, by simpa using hid⟩

/-! ### Taking and giving back -/

/-- Takes the next free slot and makes it the newest active one. Its record is the one it held when
it was last released, for `fill` to overwrite. -/
def allocate (p : Pool n) : Except WatchError (Fin n × Pool n) :=
  match p.free with
  | [] => .error (.poolExhausted n)
  | slot :: free => .ok (slot, { p with free, active := slot :: p.active })

/-- Writes the expression and the value of a slot. -/
def fill (p : Pool n) (slot : Fin n) (expression : String) (value : UInt32) : Pool n :=
  p.setRecord slot { p.record slot with expression, lastValue := value }

/-- Gives back the active slot with this id; the slot is the next one to be taken. -/
def release (p : Pool n) (id : WatchpointId) : Except WatchError (Pool n) :=
  match p.slotOf? id with
  | none => .error (.notFound id)
  | some slot => .ok { p with free := slot :: p.free, active := p.active.erase slot }

/-- Gives back all active slots, newest first; the oldest one is the next to be taken. -/
def clear (p : Pool n) : Pool n := { p with free := p.active.reverse ++ p.free, active := [] }

@[simp] theorem id_fill (p : Pool n) (slot : Fin n) (expression : String) (value : UInt32)
    (i : Fin n) : ((p.fill slot expression value).record i).id = (p.record i).id := by
  rw [fill, record_setRecord]
  split
  · rename_i h
    rw [h]
  · rfl

/-! ### Sweeping -/

/-- Active slots and the values their expressions have now. -/
abbrev Readings (n : Nat) := List (Fin n × UInt32)

/-- The change that a new value makes to a record, if it makes one. -/
def change? (w : Watchpoint) (value : UInt32) : Option WatchChange :=
  if value = w.lastValue then none else some ⟨w.id, w.expression, w.lastValue, value⟩

/-- What new values change. -/
def changes (p : Pool n) (readings : Readings n) : List WatchChange :=
  readings.filterMap fun (slot, value) => change? (p.record slot) value

/-- Stores a new value in a slot. -/
def store (p : Pool n) (slot : Fin n) (value : UInt32) : Pool n :=
  p.setRecord slot { p.record slot with lastValue := value }

/-- Stores new values. -/
def storeAll (p : Pool n) (readings : Readings n) : Pool n :=
  readings.foldl (fun p (slot, value) => p.store slot value) p

/-- Evaluates the active expressions, newest first. -/
def read {m : Type → Type} [Monad m] (eval : String → m UInt32) (p : Pool n) : m (Readings n) :=
  p.active.mapM fun slot => return (slot, ← eval (p.record slot).expression)

/-- Evaluates the active expressions, newest first, reports what changed and stores the values.
Nothing is stored unless every evaluation succeeds, so a change seen by a failing sweep is still
there for the next one. -/
def sweep {m : Type → Type} [Monad m] (eval : String → m UInt32) (p : Pool n) :
    m (List WatchChange × Pool n) := do
  let readings ← p.read eval
  return (p.changes readings, p.storeAll readings)

@[simp] theorem id_store (p : Pool n) (slot : Fin n) (value : UInt32) (i : Fin n) :
    ((p.store slot value).record i).id = (p.record i).id := by
  rw [store, record_setRecord]
  split
  · rename_i h
    rw [h]
  · rfl

end Pool

end MachineMonitor
