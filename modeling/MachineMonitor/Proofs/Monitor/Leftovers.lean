import MachineMonitor.Monitor.Log
import MachineMonitor.Proofs.Monitor.Identity
import MachineMonitor.Proofs.Monitor.Ledger

/-!
# What is left in released slots

A slot that is given back keeps its expression and its value, and the next watchpoint that takes the
slot overwrites both. So nothing that a monitor answers or logs depends on them.

Results:
* `Pool.Alike`, `Monitor.Alike`: to differ at most in what is left in slots that are not active.
* `operate_alike`: one operation on two monitors that are alike.
* `Pool.alike_of_detour`: a slot that is taken and given back at once.
* `leftovers_hidden`: nothing that is left shows, in any sequence of operations.
-/

namespace MachineMonitor

namespace Pool

variable {n : Nat} {p p' : Pool n}

/-- Two pools that differ at most in the expressions and values of slots that are not active. -/
structure Alike (p p' : Pool n) : Prop where
  free_eq : p.free = p'.free
  active_eq : p.active = p'.active
  id_eq : ∀ s, (p.record s).id = (p'.record s).id
  record_eq : ∀ s ∈ p.active, p.record s = p'.record s

namespace Alike

theorem toList_eq (h : p.Alike p') : p.toList = p'.toList := by
  rw [toList, toList, ← h.active_eq]
  exact List.map_congr_left h.record_eq

theorem slotOf?_eq (h : p.Alike p') (id : WatchpointId) : p.slotOf? id = p'.slotOf? id := by
  simp only [slotOf?, h.active_eq, h.id_eq]

theorem get?_eq (h : p.Alike p') (id : WatchpointId) : p.get? id = p'.get? id := by
  rw [get?, get?, ← h.slotOf?_eq]
  cases hs : p.slotOf? id with
  | none => rfl
  | some s => exact congrArg some (h.record_eq s (slotOf?_eq_some hs).1)

/-- A slot that is taken is overwritten. -/
theorem fill (h : p.Alike p') (s : Fin n) (free : List (Fin n)) (expression : String)
    (value : UInt32) :
    Alike (Pool.fill { p with free, active := s :: p.active } s expression value)
      (Pool.fill { p' with free, active := s :: p'.active } s expression value) where
  free_eq := rfl
  active_eq := congrArg (s :: ·) h.active_eq
  id_eq i := by
    rw [id_fill, id_fill]
    exact h.id_eq i
  record_eq i hi := by
    rw [record_fill, record_fill]
    by_cases hs : s = i
    · rw [if_pos hs, if_pos hs]
      exact congrArg (fun id => (⟨id, expression, value⟩ : Watchpoint)) (h.id_eq s)
    · rw [if_neg hs, if_neg hs]
      rcases List.mem_cons.mp hi with rfl | hi
      · exact absurd rfl hs
      · exact h.record_eq i hi

/-- A slot that is given back is no longer looked at. -/
theorem giveBack (h : p.Alike p') (s : Fin n) :
    Alike { p with free := s :: p.free, active := p.active.erase s }
      { p' with free := s :: p'.free, active := p'.active.erase s } where
  free_eq := congrArg (s :: ·) h.free_eq
  active_eq := congrArg (·.erase s) h.active_eq
  id_eq := h.id_eq
  record_eq i hi := h.record_eq i (List.mem_of_mem_erase hi)

theorem clear (h : p.Alike p') : p.clear.Alike p'.clear where
  free_eq := by rw [Pool.clear, Pool.clear, h.free_eq, h.active_eq]
  active_eq := rfl
  id_eq := h.id_eq
  record_eq i hi := absurd hi List.not_mem_nil

theorem store (h : p.Alike p') (s : Fin n) (value : UInt32) :
    (p.store s value).Alike (p'.store s value) where
  free_eq := h.free_eq
  active_eq := h.active_eq
  id_eq i := by
    rw [id_store, id_store]
    exact h.id_eq i
  record_eq i hi := by
    rw [record_store, record_store]
    by_cases hs : s = i
    · subst hs
      rw [if_pos rfl, if_pos rfl, h.record_eq s hi]
    · rw [if_neg hs, if_neg hs]
      exact h.record_eq i hi

theorem storeAll (h : p.Alike p') (rs : Readings n) : (p.storeAll rs).Alike (p'.storeAll rs) := by
  induction rs generalizing p p' with
  | nil => exact h
  | cons r rs ih => exact ih (h.store r.1 r.2)

/-- The same expressions are read, those of the active slots. -/
theorem read_eq {ε : Type} (h : p.Alike p') (eval : String → Except ε UInt32) :
    p.read eval = p'.read eval := by
  rw [read, read, ← h.active_eq]
  have hrecord := h.record_eq
  generalize p.active = slots at hrecord
  induction slots with
  | nil => rfl
  | cons s slots ih =>
    obtain ⟨hs, hslots⟩ := List.forall_mem_cons.mp hrecord
    rw [List.mapM_cons, List.mapM_cons, hs, ih hslots]

theorem changes_eq (h : p.Alike p') {rs : Readings n} (hrs : rs.map (·.1) = p.active) :
    p.changes rs = p'.changes rs := by
  refine List.filterMap_congr fun r hr => ?_
  show change? (p.record r.1) r.2 = change? (p'.record r.1) r.2
  rw [h.record_eq r.1 (hrs ▸ List.mem_map_of_mem hr)]

end Alike

/-- A slot that is taken, filled and given back at once is found by its id if no active record
carries it, and the pool is then as it was, but for what is left in the slot. -/
theorem alike_of_detour {s : Fin n} {free : List (Fin n)} (hfree : p.free = s :: free)
    (hfresh : ∀ w ∈ p.toList, w.id ≠ (p.record s).id) (expression : String) (value : UInt32) :
    ∃ p', (fill { p with free, active := s :: p.active } s expression value).release
        (p.record s).id = .ok p' ∧ p'.Alike p := by
  let q := fill { p with free, active := s :: p.active } s expression value
  have hid : ∀ i, (q.record i).id = (p.record i).id := fun i => id_fill _ s expression value i
  have hs : s ∉ p.active := fun hmem => hfresh _ (List.mem_map_of_mem hmem) rfl
  have hslot : q.slotOf? (p.record s).id = some s := by
    have hnone : p.slotOf? (p.record s).id = none :=
      slotOf?_eq_none_iff.mpr fun ⟨w, hw, hwid⟩ => hfresh w hw hwid
    rw [slotOf?] at hnone
    rw [slotOf?, show q.active = s :: p.active from rfl, List.reverse_cons, List.find?_append]
    simp only [hid]
    rw [hnone, Option.none_or]
    exact List.find?_cons_of_pos (beq_self_eq_true _)
  have herase : q.active.erase s = p.active := List.erase_cons_head s p.active
  refine ⟨{ q with free := s :: q.free, active := q.active.erase s }, ?_, hfree.symm, herase, hid,
    fun i hi => ?_⟩
  · show q.release _ = _
    rw [release, hslot]
  have hi' : i ∈ p.active := herase ▸ hi
  have hne : s ≠ i := fun heq => hs (heq ▸ hi')
  exact (record_fill _ s expression value i).trans (if_neg hne)

end Pool

namespace Monitor

variable {τ : Type}

/-! ## Operations -/

/-- All that a monitor can be asked for. -/
inductive Operation (τ : Type) where
  | query (q : Query τ)
  | evaluate (expr : String)
  | registers
  | scan (count : UInt32) (expr : String)
  | target
  | counts

/-- What is seen of an operation. -/
inductive Observation (τ : Type) where
  | replied (r : Reply)
  | evaluated (value : Except Expr.EvalError UInt32)
  | registers (values : List RegisterValue)
  | scanned (words : Except Expr.EvalError (List MemoryWord))
  | target (t : τ)
  | counts (capacity active free : Nat)

variable [Target τ]

/-- The events that a query logs. -/
def queryLog (m : Monitor τ) : Query τ → List LogEvent
  | .create expr => m.watchCreateLog expr
  | .delete id => m.watchDeleteLog id
  | .sweep => m.watchSweepLog
  | .clear => m.watchClearLog
  | .list | .get _ | .mutate _ => []

/-- What is seen of an operation and logged during it, and the monitor after it. -/
def operate (m : Monitor τ) : Operation τ → (Observation τ × List LogEvent) × Monitor τ
  | .query q => ((.replied (operations.serve m q).1, m.queryLog q), (operations.serve m q).2)
  | .evaluate expr => ((.evaluated (m.evaluate expr), m.evaluateLog expr), m)
  | .registers => ((.registers m.registers, []), m)
  | .scan count expr => ((.scanned (m.scanMemory count expr), m.evaluateLog expr), m)
  | .target => ((.target m.target, []), m)
  | .counts => ((.counts m.capacity m.pool.active.length m.pool.free.length, []), m)

/-! ## Monitors that are alike -/

/-- Two monitors that differ at most in the expressions and values of slots that are not active. -/
inductive Alike : Monitor τ → Monitor τ → Prop
  | mk (target : τ) (limits : Expr.Limits) {capacity : Nat} {p p' : Pool capacity}
      (h : p.Alike p') :
      Alike { target, limits, capacity, pool := p } { target, limits, capacity, pool := p' }

/-- The same failure, or two successes that are related. -/
inductive SameOutcome {ε α : Type} (R : α → α → Prop) : Except ε α → Except ε α → Prop
  | error (e : ε) : SameOutcome R (.error e) (.error e)
  | ok {a a' : α} (h : R a a') : SameOutcome R (.ok a) (.ok a')

/-- The same answer, and monitors that are alike. -/
def SameAnswer {β : Type} (a a' : β × Monitor τ) : Prop := a.1 = a'.1 ∧ a.2.Alike a'.2

namespace Alike

variable {m m' : Monitor τ}

omit [Target τ] in
theorem watchList_eq (h : m.Alike m') : m.watchList = m'.watchList := by
  obtain ⟨target, limits, h⟩ := h
  exact h.toList_eq

omit [Target τ] in
theorem evaluateLog_eq (h : m.Alike m') (expr : String) :
    m.evaluateLog expr = m'.evaluateLog expr := by
  obtain ⟨target, limits, h⟩ := h
  rfl

theorem evaluateAllLog_eq (h : m.Alike m') (exprs : List String) :
    m.evaluateAllLog exprs = m'.evaluateAllLog exprs := by
  obtain ⟨target, limits, h⟩ := h
  induction exprs with
  | nil => rfl
  | cons expr exprs ih =>
    rw [evaluateAllLog, evaluateAllLog, ih]
    rfl

theorem watchCreate (h : m.Alike m') (expr : String) :
    SameOutcome SameAnswer (m.watchCreate expr) (m'.watchCreate expr) := by
  obtain @⟨target, limits, capacity, p, p', h⟩ := h
  rw [Monitor.watchCreate, Monitor.watchCreate]
  unfold Monitor.evaluate Pool.allocate
  dsimp only
  cases Expr.evaluate limits target expr with
  | error e => exact .error _
  | ok value =>
    rw [← h.free_eq]
    cases p.free with
    | nil => exact .error _
    | cons s free =>
      refine .ok ⟨?_, .mk target limits (h.fill s free expr value)⟩
      exact congrArg (·, value) (h.id_eq s)

omit [Target τ] in
theorem watchDelete (h : m.Alike m') (id : WatchpointId) :
    SameOutcome Alike (m.watchDelete id) (m'.watchDelete id) := by
  obtain @⟨target, limits, capacity, p, p', h⟩ := h
  rw [Monitor.watchDelete, Monitor.watchDelete, Pool.release, Pool.release, ← h.slotOf?_eq]
  cases p.slotOf? id with
  | none => exact .error _
  | some s => exact .ok (.mk target limits (h.giveBack s))

theorem watchSweep (h : m.Alike m') : SameOutcome SameAnswer m.watchSweep m'.watchSweep := by
  obtain @⟨target, limits, capacity, p, p', h⟩ := h
  have heval : ∀ q : Pool capacity,
      Monitor.evaluate { target, limits, capacity, pool := q } = Expr.evaluate limits target :=
    fun _ => rfl
  rw [Monitor.watchSweep, Monitor.watchSweep, heval, heval, Pool.sweep, Pool.sweep, ← h.read_eq]
  cases hread : p.read (Expr.evaluate limits target) with
  | error e => exact .error e
  | ok rs =>
    obtain ⟨hslots, -⟩ := Pool.reads_of_mapM hread
    exact .ok ⟨h.changes_eq hslots, .mk target limits (h.storeAll rs)⟩

end Alike

/-- One query to two monitors that are alike is answered alike, logs the same and leads to monitors
that are alike. -/
theorem serve_alike {m m' : Monitor τ} (h : m.Alike m') (q : Query τ) :
    (operations.serve m q).1 = (operations.serve m' q).1 ∧ m.queryLog q = m'.queryLog q ∧
      (operations.serve m q).2.Alike (operations.serve m' q).2 := by
  cases q with
  | create expr =>
    have hout := h.watchCreate expr
    simp only [WatchOperations.serve, operations, queryLog, watchCreateLog, h.evaluateLog_eq]
    generalize m.watchCreate expr = out, m'.watchCreate expr = out' at hout
    cases hout with
    | error e => exact ⟨rfl, rfl, h⟩
    | @ok a a' hsame =>
      obtain ⟨answer, n⟩ := a
      obtain ⟨rfl, hnext⟩ := hsame
      exact ⟨rfl, rfl, hnext⟩
  | delete id =>
    have hout := h.watchDelete id
    simp only [WatchOperations.serve, operations, queryLog, watchDeleteLog]
    generalize m.watchDelete id = out, m'.watchDelete id = out' at hout
    cases hout with
    | error e => exact ⟨rfl, rfl, h⟩
    | ok hnext => exact ⟨rfl, rfl, hnext⟩
  | sweep =>
    have hout := h.watchSweep
    simp only [WatchOperations.serve, operations, queryLog, watchSweepLog, h.evaluateAllLog_eq,
      h.watchList_eq]
    generalize m.watchSweep = out, m'.watchSweep = out' at hout
    cases hout with
    | error e => exact ⟨rfl, rfl, h⟩
    | @ok a a' hsame =>
      obtain ⟨changes, n⟩ := a
      obtain ⟨rfl, hnext⟩ := hsame
      exact ⟨rfl, rfl, hnext⟩
  | list => exact ⟨congrArg Reply.listed h.watchList_eq, rfl, h⟩
  | get id =>
    obtain ⟨target, limits, h⟩ := h
    exact ⟨congrArg Reply.got (h.get?_eq id), rfl, .mk target limits h⟩
  | clear =>
    obtain ⟨target, limits, h⟩ := h
    refine ⟨rfl, ?_, .mk target limits h.clear⟩
    rw [queryLog, queryLog, watchClearLog, watchClearLog, h.active_eq]
  | mutate f =>
    obtain ⟨target, limits, h⟩ := h
    exact ⟨rfl, rfl, .mk (f target) limits h⟩

/-- **One operation on two monitors that are alike** shows the same, logs the same and leads to
monitors that are alike. -/
theorem operate_alike {m m' : Monitor τ} (h : m.Alike m') (op : Operation τ) :
    (m.operate op).1 = (m'.operate op).1 ∧ (m.operate op).2.Alike (m'.operate op).2 := by
  cases op with
  | query q =>
    obtain ⟨hreply, hlog, hnext⟩ := serve_alike h q
    refine ⟨?_, hnext⟩
    rw [operate, operate, hreply, hlog]
  | evaluate expr | registers | scan count expr | target =>
    obtain ⟨target, limits, h⟩ := h
    exact ⟨rfl, .mk target limits h⟩
  | counts =>
    obtain ⟨target, limits, h⟩ := h
    refine ⟨?_, .mk target limits h⟩
    simp only [operate, h.active_eq, h.free_eq]

/-! ## Detours -/

/-- A watchpoint that is created and deleted at once leaves the pool as it was, but for what is left
in its slot, if no active record carries its id. -/
theorem alike_of_detour {m n : Monitor τ} {expr : String} {id : WatchpointId} {value : UInt32}
    (h : m.watchCreate expr = .ok ((id, value), n)) (hfresh : ∀ w ∈ m.watchList, w.id ≠ id) :
    ∃ n', n.watchDelete id = .ok n' ∧ n'.Alike m := by
  obtain ⟨s, p, -, halloc, rfl, rfl⟩ := watchCreate_eq_ok h
  obtain ⟨free, hfree, rfl⟩ := Pool.allocate_eq_ok halloc
  obtain ⟨p', hrelease, hp'⟩ := Pool.alike_of_detour hfree hfresh expr value
  exact ⟨_, watchDelete_of_release hrelease, .mk m.target m.limits hp'⟩

/-! ## Runs -/

theorem answers_alike {m m' : Monitor τ} (h : m.Alike m') (ops : List (Operation τ)) :
    answers operate m ops = answers operate m' ops :=
  (answers_eq_of_simulates (fun _ _ op h => operate_alike h op) h ops).1

/-- An operation leaves a monitor as it is or leads where an action does. -/
theorem operate_eq_step (m : Monitor τ) (op : Operation τ) :
    (m.operate op).2 = m ∨ ∃ a, (m.operate op).2 = m.step a := by
  cases op with
  | query q => exact m.serve_eq_step q
  | evaluate | registers | scan | target | counts => exact Or.inl rfl

theorem wellFormed_operations {m : Monitor τ} (hm : m.pool.WellFormed)
    (hcap : m.capacity ≤ UInt32.size) (ops : List (Operation τ)) :
    (stateAfter operate m ops).pool.WellFormed ∧
      (stateAfter operate m ops).capacity ≤ UInt32.size := by
  refine stateAfter_induction
    (P := fun m : Monitor τ => m.pool.WellFormed ∧ m.capacity ≤ UInt32.size)
    (fun m op h => ?_) ⟨hm, hcap⟩ ops
  rcases m.operate_eq_step op with hsame | ⟨a, hstep⟩
  · rw [hsame]
    exact h
  · have hmoves := moves_step m a
    rw [hstep]
    exact ⟨hmoves.wellFormed h.1, hmoves.capacity_eq.trans_le h.2⟩

theorem operate_create {m n : Monitor τ} {expr : String} {answer : WatchpointId × UInt32}
    (h : m.watchCreate expr = .ok (answer, n)) : (m.operate (.query (.create expr))).2 = n := by
  simp only [operate, WatchOperations.serve, operations, h]

theorem operate_create_refused {m : Monitor τ} {expr : String} {e : MonitorError}
    (h : m.watchCreate expr = .error e) : (m.operate (.query (.create expr))).2 = m := by
  simp only [operate, WatchOperations.serve, operations, h]

theorem operate_delete {m n : Monitor τ} {id : WatchpointId} (h : m.watchDelete id = .ok n) :
    (m.operate (.query (.delete id))).2 = n := by
  simp only [operate, WatchOperations.serve, operations, h]

/-- The operations that create watchpoints of one expression, one after the other. -/
def creates (k : Nat) (expr : String) : List (Operation τ) :=
  List.replicate k (.query (.create expr))

theorem stateAfter_creates (m : Monitor τ) (k : Nat) (expr : String) :
    stateAfter operate m (creates k expr) = m.run (List.replicate k (.create expr)) := by
  induction k with
  | zero => rfl
  | succ k ih =>
    rw [creates] at ih ⊢
    rw [List.replicate_succ', List.replicate_succ', stateAfter_concat, run_concat, ih, step]
    cases h : (m.run (List.replicate k (.create expr))).watchCreate expr with
    | error e => exact operate_create_refused h
    | ok created => exact operate_create h

/-- The operations of a detour: a watchpoint is created and its id is deleted at once. -/
def detour (expr : String) (id : WatchpointId) : List (Operation τ) :=
  [.query (.create expr), .query (.delete id)]

theorem stateAfter_detour {m n n' : Monitor τ} {expr : String} {id : WatchpointId}
    {value : UInt32} {before : List (Operation τ)}
    (h : (stateAfter operate m before).watchCreate expr = .ok ((id, value), n))
    (h' : n.watchDelete id = .ok n') : stateAfter operate m (before ++ detour expr id) = n' := by
  rw [detour, List.append_cons, stateAfter_concat, stateAfter_concat, operate_create h,
    operate_delete h']

/-- No detour in a run of a monitor changes what is seen and logged after it. -/
def HidesDetours (m : Monitor τ) : Prop :=
  ∀ before expr id value n,
    (stateAfter operate m before).watchCreate expr = .ok ((id, value), n) →
      ∀ later, answers operate (stateAfter operate m (before ++ detour expr id)) later =
        answers operate (stateAfter operate m before) later

/-- Up to 2^32 slots, a detour leaves nothing but what is left in its slot. -/
theorem hidesDetours {m : Monitor τ} (hm : m.pool.WellFormed) (hcap : m.capacity ≤ UInt32.size) :
    m.HidesDetours := by
  intro before expr id value n hcreate later
  obtain ⟨hm', hcap'⟩ := wellFormed_operations hm hcap before
  have hmoves := moves_create hcreate
  have hnodup := (hmoves.wellFormed hm').nodup_ids (hmoves.capacity_eq.trans_le hcap')
  have hfresh : ∀ w ∈ (stateAfter operate m before).watchList, w.id ≠ id := by
    intro w hw hid
    change (n.watchList.map (·.id)).Nodup at hnodup
    rw [watchList_create hm' hcreate, List.map_cons, List.nodup_cons] at hnodup
    exact hnodup.1 (List.mem_map.mpr ⟨w, hw, hid⟩)
  obtain ⟨n', hdelete, halike⟩ := alike_of_detour hcreate hfresh
  rw [stateAfter_detour hcreate hdelete]
  exact answers_alike halike later

/-- With more slots than there are ids, a detour can show in the list that is asked for next. -/
theorem list_after_detour (target : τ) {c d : Config} (h : c.validate = .ok d)
    (hcap : UInt32.size < d.capacity) :
    ∃ n, (stateAfter operate (ofConfig target d) (creates UInt32.size "0")).watchCreate "1" =
        .ok ((0, 1), n) ∧
      answers operate
          (stateAfter operate (ofConfig target d) (creates UInt32.size "0" ++ detour "1" 0))
          [.query .list] ≠
        answers operate (stateAfter operate (ofConfig target d) (creates UInt32.size "0"))
          [.query .list] := by
  obtain ⟨hcount, hlen⟩ := Config.limits_pos h
  obtain ⟨newer, n, n', hold, hcreate, -, hdelete, hlist⟩ :=
    exists_repeated_id target hcount hlen hcap
  have hbefore := stateAfter_creates (ofConfig target d) UInt32.size "0"
  change (run (ofConfig target d) _).watchCreate _ = _ at hcreate
  change (run (ofConfig target d) _).watchList = _ at hold
  rw [← hbefore] at hcreate hold
  refine ⟨n, hcreate, fun hsame => ?_⟩
  have hlists := congrArg List.head? hsame
  rw [stateAfter_detour hcreate hdelete] at hlists
  simp only [answers, operate, WatchOperations.serve, operations, hlist, hold, List.head?_cons,
    Option.some.injEq, Prod.mk.injEq, Observation.replied.injEq, Reply.listed.injEq] at hlists
  -- The records of the second expression are counted in both lists.
  have hcounts := congrArg (List.countP (·.expression == "1")) hlists.1
  simp at hcounts

/-- **What is left in released slots never shows.** Two monitors that differ in nothing else answer
and log the same in every sequence of operations. A watchpoint that is refused changes nothing that
comes after it, and neither does one that is created and deleted at once, with no more slots than
there are ids. A valid configuration may ask for more, and then there is a detour that shows. -/
theorem leftovers_hidden :
    (∀ m m' : Monitor τ, m.Alike m' → ∀ ops, answers operate m ops = answers operate m' ops) ∧
    (∀ (m : Monitor τ) before expr e,
      (stateAfter operate m before).watchCreate expr = .error e → ∀ later,
        answers operate (stateAfter operate m (before ++ [.query (.create expr)])) later =
          answers operate (stateAfter operate m before) later) ∧
    (∀ (target : τ) (limits : Expr.Limits) (capacity : Nat), capacity ≤ UInt32.size →
      HidesDetours { target, limits, capacity }) ∧
    ∀ (target : τ) (c d : Config), c.validate = .ok d →
      ((ofConfig target d).HidesDetours ↔ d.capacity ≤ UInt32.size) := by
  refine ⟨fun m m' h => answers_alike h, ?_, ?_, ?_⟩
  · intro m before expr e h later
    rw [stateAfter_concat, operate_create_refused h]
  · intro target limits capacity hcap
    exact hidesDetours (m := { target, limits, capacity }) (Pool.wellFormed_empty capacity) hcap
  · intro target c d h
    refine ⟨fun hhides => ?_,
      hidesDetours (m := ofConfig target d) (Pool.wellFormed_empty d.capacity)⟩
    by_contra hcap
    obtain ⟨n, hcreate, hdiffer⟩ := list_after_detour target h (Nat.lt_of_not_le hcap)
    exact hdiffer (hhides _ _ _ _ n hcreate [.query .list])

/-- Two monitors with different leftovers in the slot that is free, under a configuration that is
valid. -/
theorem leftovers_hidden_two :
    let p : Pool 2 := ⟨#v[⟨0, "7", 7⟩, ⟨1, "$ra", 9⟩], [1], [0]⟩
    let p' : Pool 2 := ⟨#v[⟨0, "7", 7⟩, ⟨1, "", 0⟩], [1], [0]⟩
    ({} : Config).validate = .ok {} ∧ p.Alike p' ∧
      (∀ ops, answers operate ({ target := {}, pool := p } : Monitor Machine) ops =
        answers operate { target := {}, pool := p' } ops) ∧
      (ofConfig ({} : Machine) {}).HidesDetours := by
  intro p p'
  have hvalid : ({} : Config).validate = .ok {} := by decide
  have halike : p.Alike p' := ⟨rfl, rfl, by decide, by decide⟩
  obtain ⟨hanswers, -, -, hdetours⟩ := leftovers_hidden (τ := Machine)
  exact ⟨hvalid, halike, hanswers _ _ (.mk _ _ halike), (hdetours _ _ _ hvalid).mpr (by decide)⟩

/-- One slot more than there are ids is valid. Once all ids are taken, a watchpoint that is created
and deleted at once is still listed, and the oldest one is not. -/
theorem detour_shows_of_valid :
    let c : Config := { capacity := UInt32.size + 1 }
    let start := ofConfig ({} : Machine) c
    c.validate = .ok c ∧
      ∃ n, (stateAfter operate start (creates UInt32.size "0")).watchCreate "1" = .ok ((0, 1), n) ∧
        answers operate (stateAfter operate start (creates UInt32.size "0" ++ detour "1" 0))
            [.query .list] ≠
          answers operate (stateAfter operate start (creates UInt32.size "0")) [.query .list] := by
  intro c start
  have hvalid : c.validate = .ok c := Config.validate_eq_ok_iff.mpr ⟨by decide, rfl⟩
  exact ⟨hvalid, list_after_detour ({} : Machine) hvalid (Nat.lt_succ_self UInt32.size)⟩

end Monitor

end MachineMonitor
