import MachineMonitor.Machine
import MachineMonitor.Proofs.Monitor.Run

/-!
# The history of a watchpoint

From the request that creates a watchpoint until it is deleted or cleared, the changes reported
under its id form a chain: the first one begins at the value that the request answered, each begins
where the one before it ended, and the record always holds the value where the last one ended.

Results:
* `watchList_create`: a new watchpoint stands in front of the others.
* `Moves.continues`: what one action does to a watchpoint.
* `continues_run`: what a run does to a watchpoint.
* `chain_of_watchCreate`: the history of a watchpoint, in every run of a new monitor.
-/

namespace MachineMonitor.Monitor

/-! ## Chains of changes -/

/-- Changes of one watchpoint between two values. Each begins where the one before it ended. -/
inductive Chain (id : WatchpointId) (expr : String) : UInt32 → List WatchChange → UInt32 → Prop
  | nil (value : UInt32) : Chain id expr value [] value
  | cons {old new last : UInt32} {changes : List WatchChange} (hne : old ≠ new)
      (h : Chain id expr new changes last) :
      Chain id expr old (⟨id, expr, old, new⟩ :: changes) last

theorem Chain.append {id : WatchpointId} {expr : String} {first middle last : UInt32}
    {before after : List WatchChange} (h : Chain id expr first before middle)
    (h' : Chain id expr middle after last) : Chain id expr first (before ++ after) last := by
  induction h with
  | nil => exact h'
  | cons hne _ ih => exact .cons hne (ih h')

/-- The change of a record, if there is one, is a chain. -/
theorem chain_change? (w : Watchpoint) (value : UInt32) :
    Chain w.id w.expression w.lastValue (Pool.change? w value).toList value := by
  rw [Pool.change?]
  by_cases h : value = w.lastValue
  · rw [if_pos h, h]
    exact .nil _
  · rw [if_neg h]
    exact .cons (Ne.symm h) (.nil value)

variable {τ : Type} [Target τ]

/-! ## One action -/

/-- The actions that end the watchpoint with an id. -/
def Action.Ends (id : WatchpointId) : Action τ → Prop
  | .clear => True
  | .delete i => i = id
  | _ => False

theorem watchList_create {m m' : Monitor τ} {expr : String} {id : WatchpointId} {value : UInt32}
    (hm : m.pool.WellFormed) (h : m.watchCreate expr = .ok ((id, value), m')) :
    m'.watchList = ⟨id, expr, value⟩ :: m.watchList := by
  obtain ⟨s, p, -, halloc, rfl, rfl⟩ := watchCreate_eq_ok h
  obtain ⟨free, -, rfl⟩ := Pool.allocate_eq_ok halloc
  exact hm.toList_fill halloc expr value

/-- The changes reported under the id of a record lead from its value to one that the same
watchpoint has afterwards. -/
def Continues (w : Watchpoint) (changes : List WatchChange) (m : Monitor τ) : Prop :=
  ∃ last, Chain w.id w.expression w.lastValue (changes.filter (·.id == w.id)) last ∧
    { w with lastValue := last } ∈ m.watchList

omit [Target τ] in
theorem continues_nil {w : Watchpoint} {m : Monitor τ} (hw : w ∈ m.watchList) :
    Continues w [] m := ⟨w.lastValue, .nil w.lastValue, hw⟩

/-- **What one action does to a watchpoint** that it does not end. -/
theorem Moves.continues {m m' : Monitor τ} {a : Action τ} {changes : List WatchChange}
    (h : Moves m a changes m') (hm : m.pool.WellFormed) (hcap : m.capacity ≤ UInt32.size)
    {w : Watchpoint} (hw : w ∈ m.watchList) (ha : ¬ a.Ends w.id) :
    Continues w changes m' ∧ (changes.filter (·.id == w.id)).length ≤ 1 := by
  cases h with
  | create _ halloc =>
    refine ⟨continues_nil ?_, Nat.zero_le 1⟩
    show w ∈ Pool.toList _
    rw [hm.toList_fill halloc]
    exact List.mem_cons_of_mem _ hw
  | createRefused | deleteRefused | sweepRefused | mutate =>
    exact ⟨continues_nil hw, Nat.zero_le 1⟩
  | @delete id p h =>
    refine ⟨continues_nil ?_, Nat.zero_le 1⟩
    show w ∈ Pool.toList _
    rw [hm.toList_release hcap h]
    have hne : w.id ≠ id := fun heq => ha heq.symm
    exact List.mem_filter.mpr ⟨hw, bne_iff_ne.mpr hne⟩
  | clear => exact absurd trivial ha
  | sweep h =>
    obtain ⟨value, -, hmem, hchanges⟩ := hm.mem_toList_sweep hcap h hw
    rw [Continues, hchanges]
    exact ⟨⟨value, chain_change? w value, hmem⟩, Option.length_toList_le⟩

/-! ## Runs -/

/-- **What a run does to a watchpoint** that it does not end. -/
theorem continues_run {m : Monitor τ} (hm : m.pool.WellFormed) (hcap : m.capacity ≤ UInt32.size)
    {w : Watchpoint} (hw : w ∈ m.watchList) {actions : List (Action τ)}
    (h : ∀ a ∈ actions, ¬ a.Ends w.id) :
    Continues w (m.reports actions).flatten (m.run actions) ∧
      ∀ changes ∈ m.reports actions, (changes.filter (·.id == w.id)).length ≤ 1 := by
  induction actions generalizing m w with
  | nil => exact ⟨continues_nil hw, fun changes hc => absurd hc (by simp [reports])⟩
  | cons a actions ih =>
    have hmoves := moves_step m a
    obtain ⟨⟨middle, hchain, hmem⟩, hlen⟩ :=
      hmoves.continues hm hcap hw (h a List.mem_cons_self)
    obtain ⟨⟨last, hchain', hmem'⟩, hlen'⟩ := ih (hmoves.wellFormed hm)
      (hmoves.capacity_eq ▸ hcap) hmem fun b hb => h b (List.mem_cons_of_mem a hb)
    rw [reports, List.flatten_cons, Continues, List.filter_append]
    exact ⟨⟨last, hchain.append hchain', hmem'⟩, List.forall_mem_cons.mpr ⟨hlen, hlen'⟩⟩

/-- **The history of a watchpoint.** In every run of a new monitor, from the request that answers
an id and a value until the id is deleted or all is cleared, each sweep reports at most one change
under the id, these changes form a chain that begins at the value answered, and the record holds
the value where the chain ends. A sweep that succeeds leaves the value that the expression has. -/
theorem chain_of_watchCreate (target : τ) (limits : Expr.Limits) {capacity : Nat}
    (hcap : capacity ≤ UInt32.size) (before span : List (Action τ)) {expr : String}
    {id : WatchpointId} {value : UInt32} {m : Monitor τ}
    (hcreate : (run { target, limits, capacity } before).watchCreate expr = .ok ((id, value), m))
    (hspan : ∀ a ∈ span, ¬ a.Ends id) :
    (∀ changes ∈ m.reports span, (changes.filter (·.id == id)).length ≤ 1) ∧
    (∃ last, Chain id expr value ((m.reports span).flatten.filter (·.id == id)) last ∧
      (m.run span).pool.get? id = some ⟨id, expr, last⟩) ∧
    ∀ changes m', (m.run span).watchSweep = .ok (changes, m') →
      ∃ now, (m.run span).evaluate expr = .ok now ∧ m'.pool.get? id = some ⟨id, expr, now⟩ := by
  have hmoves := moves_create hcreate
  have hstart : (run { target, limits, capacity } before).pool.WellFormed :=
    wellFormed_run (Pool.wellFormed_empty capacity) before
  have hm : m.pool.WellFormed := hmoves.wellFormed hstart
  have hcap' : m.capacity ≤ UInt32.size := by
    rw [hmoves.capacity_eq, capacity_run]
    exact hcap
  have hw : ⟨id, expr, value⟩ ∈ m.watchList := by
    rw [watchList_create hstart hcreate]
    exact List.mem_cons_self
  obtain ⟨⟨last, hchain, hmem⟩, hlen⟩ := continues_run hm hcap' hw hspan
  have hm' := wellFormed_run hm span
  have hcap'' : (m.run span).capacity ≤ UInt32.size := (capacity_run m span).symm ▸ hcap'
  refine ⟨hlen, ⟨last, hchain, (hm'.get?_eq_some_iff hcap'').mpr ⟨hmem, rfl⟩⟩, ?_⟩
  intro changes m' hsweep
  obtain ⟨p, hp, rfl⟩ := watchSweep_eq_ok hsweep
  obtain ⟨now, hnow, hmem', -⟩ := hm'.mem_toList_sweep hcap'' hp hmem
  have hwf : p.WellFormed := (Moves.sweep hp).wellFormed hm'
  exact ⟨now, hnow, (hwf.get?_eq_some_iff hcap'').mpr ⟨hmem', rfl⟩⟩

/-- The register `ra` is watched, written and swept twice: one change is reported. -/
theorem chain_of_watchCreate_register :
    let m : Monitor Machine :=
      { target := {}, capacity := 2, pool := ⟨#v[⟨0, "$ra", 0⟩, ⟨1, "", 0⟩], [1], [0]⟩ }
    let span : List (Action Machine) :=
      [.create "7", .mutate fun t => { t with registers := t.registers.set 1 5 }, .sweep,
        .delete 1, .sweep]
    (run ({ target := {}, capacity := 2 } : Monitor Machine) []).watchCreate "$ra" =
        .ok ((0, 0), m) ∧
      ∃ last, Chain 0 "$ra" 0 [⟨0, "$ra", 0, 5⟩] last ∧
        (m.run span).pool.get? 0 = some ⟨0, "$ra", last⟩ := by
  intro m span
  have hcreate : (run ({ target := {}, capacity := 2 } : Monitor Machine) []).watchCreate "$ra" =
      .ok ((0, 0), m) := by decide +kernel
  have hreports : (m.reports span).flatten.filter (·.id == 0) = [⟨0, "$ra", 0, 5⟩] := by
    decide +kernel
  refine ⟨hcreate, ?_⟩
  rw [← hreports]
  have hspan : ∀ a ∈ span, ¬ a.Ends 0 := by simp [span, Action.Ends]
  exact (chain_of_watchCreate {} {} (by decide) [] span hcreate hspan).2.1

end MachineMonitor.Monitor
