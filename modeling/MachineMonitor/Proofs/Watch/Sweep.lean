import MachineMonitor.Proofs.Outcome
import MachineMonitor.Proofs.Watch.Slots

/-!
# What a sweep reads and reports

A sweep that succeeds has read every active slot once, and what it reports about one id is the
change of the one record that carries it. A sweep that fails does so on an active expression.

Results:
* `sweep_eq_ok`, `sweep_eq_error`: what a sweep has read.
* `sweep_again`: a sweep of expressions that have not changed since the last one.
* `WellFormed.filter_changes`: what a sweep reports about one id.
* `WellFormed.mem_toList_sweep`: what a sweep does to a record.
-/

namespace MachineMonitor.Pool

variable {n : Nat} {ε : Type} {eval : String → Except ε UInt32} {p p' : Pool n}

/-! ## Reading -/

/-- The slots that were read, in order, and the values of their expressions. -/
def Reads (eval : String → Except ε UInt32) (p : Pool n) (slots : List (Fin n))
    (rs : Readings n) : Prop :=
  rs.map (·.1) = slots ∧ ∀ r ∈ rs, eval (p.record r.1).expression = .ok r.2

theorem reads_of_mapM {slots : List (Fin n)} {rs : Readings n}
    (h : (slots.mapM fun s => return (s, ← eval (p.record s).expression)) = .ok rs) :
    Reads eval p slots rs := by
  induction slots generalizing rs with
  | nil =>
    obtain rfl := Except.ok.inj h
    exact ⟨rfl, by simp⟩
  | cons s slots ih =>
    rw [List.mapM_cons] at h
    obtain ⟨r, hr, h⟩ := ok_of_bind h
    obtain ⟨v, hv, hr⟩ := ok_of_bind hr
    obtain ⟨rest, hrest, h⟩ := ok_of_bind h
    obtain rfl := Except.ok.inj hr
    obtain rfl := Except.ok.inj h
    obtain ⟨hslots, hvalues⟩ := ih hrest
    exact ⟨congrArg (s :: ·) hslots, List.forall_mem_cons.mpr ⟨hv, hvalues⟩⟩

theorem mapM_of_reads {slots : List (Fin n)} {rs : Readings n} (h : Reads eval p slots rs) :
    (slots.mapM fun s => return (s, ← eval (p.record s).expression)) = .ok rs := by
  obtain ⟨rfl, hvalues⟩ := h
  induction rs with
  | nil => rfl
  | cons r rs ih =>
    obtain ⟨hr, hrs⟩ := List.forall_mem_cons.mp hvalues
    rw [List.map_cons, List.mapM_cons, hr, ih hrs]
    rfl

theorem exists_of_mapM_eq_error {slots : List (Fin n)} {e : ε}
    (h : (slots.mapM fun s => return (s, ← eval (p.record s).expression)) = .error e) :
    ∃ s ∈ slots, eval (p.record s).expression = .error e := by
  induction slots with
  | nil => exact absurd h (by simp [pure, Except.pure])
  | cons s slots ih =>
    rw [List.mapM_cons] at h
    rcases error_of_bind h with hs | ⟨r, -, h⟩
    · rcases error_of_bind hs with hv | ⟨v, -, hr⟩
      · exact ⟨s, List.mem_cons_self, hv⟩
      · exact absurd hr (by simp [pure, Except.pure])
    · rcases error_of_bind h with hrest | ⟨rest, -, hpure⟩
      · obtain ⟨i, hi, hv⟩ := ih hrest
        exact ⟨i, List.mem_cons_of_mem s hi, hv⟩
      · exact absurd hpure (by simp [pure, Except.pure])

/-- What a sweep that succeeds has read, reported and stored. -/
theorem sweep_eq_ok {changes : List WatchChange} (h : p.sweep eval = .ok (changes, p')) :
    ∃ rs, Reads eval p p.active rs ∧ changes = p.changes rs ∧ p' = p.storeAll rs := by
  obtain ⟨rs, hrs, h⟩ := ok_of_bind h
  obtain ⟨hchanges, hp'⟩ := Prod.mk.inj (Except.ok.inj h)
  exact ⟨rs, reads_of_mapM hrs, hchanges.symm, hp'.symm⟩

/-- A sweep that fails does so with the error of an active expression. -/
theorem sweep_eq_error {e : ε} (h : p.sweep eval = .error e) :
    ∃ w ∈ p.toList, eval w.expression = .error e := by
  rcases error_of_bind h with h | ⟨rs, -, h⟩
  · obtain ⟨s, hs, hv⟩ := exists_of_mapM_eq_error h
    exact ⟨p.record s, mem_toList.mpr ⟨s, hs, rfl⟩, hv⟩
  · exact absurd h (by simp [pure, Except.pure])

/-- **A sweep right after a sweep finds nothing new**, if the active expressions still have the
values that they had. -/
theorem sweep_again {eval' : String → Except ε UInt32} {changes : List WatchChange}
    (h : p.sweep eval = .ok (changes, p'))
    (hsame : ∀ w ∈ p.toList, eval' w.expression = eval w.expression) :
    p'.sweep eval' = .ok ([], p') := by
  obtain ⟨rs, ⟨hslots, hvalues⟩, -, rfl⟩ := sweep_eq_ok h
  have hreads : Reads eval' (p.storeAll rs) (p.storeAll rs).active rs := by
    refine ⟨hslots.trans (active_storeAll p rs).symm, fun r hr => ?_⟩
    have hactive : r.1 ∈ p.active := hslots ▸ List.mem_map_of_mem hr
    rw [expression_storeAll, hsame _ (mem_toList.mpr ⟨r.1, hactive, rfl⟩), hvalues r hr]
  have hrecorded : ∀ r ∈ rs, r.2 = ((p.storeAll rs).record r.1).lastValue := by
    intro r hr
    -- a slot that is read twice gives the same value both times
    have honce : ∀ v, (r.1, v) ∈ rs → v = r.2 := fun v hv =>
      Except.ok.inj ((hvalues _ hv).symm.trans (hvalues r hr))
    rw [record_storeAll_of_forall honce hr]
  unfold sweep
  rw [Pool.read, mapM_of_reads hreads]
  exact congrArg Except.ok
    (Prod.ext (changes_of_recorded hrecorded) (storeAll_of_recorded hrecorded))

/-! ## Reporting -/

theorem id_of_change? {w : Watchpoint} {value : UInt32} {c : WatchChange}
    (h : change? w value = some c) : c.id = w.id := by
  unfold change? at h
  split at h
  · exact absurd h (by simp)
  · obtain rfl := Option.some.inj h
    rfl

theorem filter_change? {w : Watchpoint} {value : UInt32} {id : WatchpointId} :
    (change? w value).filter (·.id == id) = if w.id = id then change? w value else none := by
  cases hc : change? w value with
  | none => simp
  | some c => rw [Option.filter_some, id_of_change? hc]; simp

namespace WellFormed

/-- **What a sweep reports about one id** is the change of the record that carries it. -/
theorem filter_changes (h : p.WellFormed) (hn : n ≤ UInt32.size) {rs : Readings n} {s : Fin n}
    {value : UInt32} (hrs : (rs.map (·.1)).Nodup) (hs : (s, value) ∈ rs) :
    (p.changes rs).filter (·.id == (p.record s).id) = (change? (p.record s) value).toList := by
  -- the other slots have other ids
  have hother : ∀ r : Fin n × UInt32, r.1 ≠ s →
      (change? (p.record r.1) r.2).filter (·.id == (p.record s).id) = none := by
    intro r hr
    rw [filter_change?, if_neg fun hid => hr (h.slot_eq_of_id_eq hn hid)]
  obtain ⟨before, after, rfl⟩ := List.append_of_mem hs
  rw [List.map_append, List.map_cons, List.nodup_append, List.nodup_cons] at hrs
  have hbefore : ∀ r ∈ before, r.1 ≠ s := fun r hr =>
    hrs.2.2 r.1 (List.mem_map_of_mem hr) s List.mem_cons_self
  have hafter : ∀ r ∈ after, r.1 ≠ s := fun r hr heq =>
    hrs.2.1.1 (List.mem_map.mpr ⟨r, hr, heq⟩)
  rw [changes, List.filter_filterMap, List.filterMap_append, List.filterMap_cons,
    List.filterMap_eq_nil_iff.mpr fun r hr => hother r (hbefore r hr),
    List.filterMap_eq_nil_iff.mpr fun r hr => hother r (hafter r hr), filter_change?, if_pos rfl]
  cases change? (p.record s) value <;> rfl

/-- What a sweep does to a record: it is left with the value of its expression, and the sweep
reports just the change to it. -/
theorem mem_toList_sweep (h : p.WellFormed) (hn : n ≤ UInt32.size) {changes : List WatchChange}
    (hsweep : p.sweep eval = .ok (changes, p')) {w : Watchpoint} (hw : w ∈ p.toList) :
    ∃ value, eval w.expression = .ok value ∧ { w with lastValue := value } ∈ p'.toList ∧
      changes.filter (·.id == w.id) = (change? w value).toList := by
  obtain ⟨rs, ⟨hslots, hvalues⟩, rfl, rfl⟩ := sweep_eq_ok hsweep
  obtain ⟨s, hs, rfl⟩ := mem_toList.mp hw
  rw [← hslots] at hs
  obtain ⟨⟨i, value⟩, hr, rfl⟩ := List.mem_map.mp hs
  refine ⟨value, hvalues _ hr, ?_, h.filter_changes hn (hslots ▸ h.active_nodup) hr⟩
  rw [h.toList_storeAll hslots]
  exact List.mem_map_of_mem hr

end WellFormed

end MachineMonitor.Pool
