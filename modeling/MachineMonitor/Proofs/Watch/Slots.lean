import Mathlib.Data.List.Nodup
import MachineMonitor.Watch.Pool

/-!
# Slots of a pool

In a well-formed pool every slot is either free or active, once, and the id of a slot is its index.
All operations keep a pool well-formed, and what they do to the records of the active slots is an
equation on `Pool.toList`.

Results:
* `wellFormed_empty`, `WellFormed.allocate`, `WellFormed.fill`, `WellFormed.release`,
  `WellFormed.clear`, `WellFormed.storeAll`: every operation keeps a pool well-formed.
* `WellFormed.slot_eq_of_id_eq`: up to 2^32 slots no two have the same id.
* `WellFormed.get?_eq_some_iff`: an id finds the active record that carries it.
* `toList_fill`, `toList_release`, `release_split`, `toList_storeAll`: the active records after an
  operation.
-/

namespace MachineMonitor.Pool

variable {n : Nat}

/-- Every slot is free or active, once, and has the id of its index. -/
structure WellFormed (p : Pool n) : Prop where
  perm : (p.free ++ p.active).Perm (List.finRange n)
  id_eq : ∀ i : Fin n, (p.record i).id = UInt32.ofNat i

theorem mem_toList {p : Pool n} {w : Watchpoint} :
    w ∈ p.toList ↔ ∃ i ∈ p.active, p.record i = w := List.mem_map

/-- An id finds a slot just when an active record carries it. -/
theorem slotOf?_eq_none_iff {p : Pool n} {id : WatchpointId} :
    p.slotOf? id = none ↔ ¬ ∃ w ∈ p.toList, w.id = id := by
  rw [slotOf?, List.find?_eq_none]
  simp [toList]

/-! ## Writing to slots -/

theorem record_fill (p : Pool n) (s : Fin n) (expression : String) (value : UInt32) (i : Fin n) :
    (p.fill s expression value).record i =
      if s = i then { p.record s with expression, lastValue := value } else p.record i :=
  record_setRecord p s _ i

theorem record_store (p : Pool n) (s : Fin n) (value : UInt32) (i : Fin n) :
    (p.store s value).record i =
      if s = i then { p.record s with lastValue := value } else p.record i :=
  record_setRecord p s _ i

@[simp] theorem active_fill (p : Pool n) (s : Fin n) (expression : String) (value : UInt32) :
    (p.fill s expression value).active = p.active := rfl

theorem storeAll_cons (p : Pool n) (s : Fin n) (value : UInt32) (rs : Readings n) :
    p.storeAll ((s, value) :: rs) = (p.store s value).storeAll rs := rfl

@[simp] theorem active_storeAll (p : Pool n) (rs : Readings n) :
    (p.storeAll rs).active = p.active := by
  induction rs generalizing p with
  | nil => rfl
  | cons r rs ih => rw [storeAll_cons, ih]; rfl

@[simp] theorem free_storeAll (p : Pool n) (rs : Readings n) : (p.storeAll rs).free = p.free := by
  induction rs generalizing p with
  | nil => rfl
  | cons r rs ih => rw [storeAll_cons, ih]; rfl

@[simp] theorem id_storeAll (p : Pool n) (rs : Readings n) (i : Fin n) :
    ((p.storeAll rs).record i).id = (p.record i).id := by
  induction rs generalizing p with
  | nil => rfl
  | cons r rs ih => rw [storeAll_cons, ih, id_store]

@[simp] theorem expression_storeAll (p : Pool n) (rs : Readings n) (i : Fin n) :
    ((p.storeAll rs).record i).expression = (p.record i).expression := by
  induction rs generalizing p with
  | nil => rfl
  | cons r rs ih =>
    rw [storeAll_cons, ih, record_store]
    by_cases hi : r.1 = i
    · rw [if_pos hi, hi]
    · rw [if_neg hi]

/-- A slot that is not written keeps its record. -/
theorem record_storeAll_of_not_mem {p : Pool n} {rs : Readings n} {i : Fin n}
    (h : i ∉ rs.map (·.1)) : (p.storeAll rs).record i = p.record i := by
  induction rs generalizing p with
  | nil => rfl
  | cons r rs ih =>
    rw [List.map_cons, List.mem_cons, not_or] at h
    rw [storeAll_cons, ih h.2, record_store, if_neg (Ne.symm h.1)]

/-- A slot to which only one value is written, however often, has this value. -/
theorem record_storeAll_of_forall {p : Pool n} {rs : Readings n} {i : Fin n} {value : UInt32}
    (hrs : ∀ v, (i, v) ∈ rs → v = value) (h : (i, value) ∈ rs) :
    (p.storeAll rs).record i = { p.record i with lastValue := value } := by
  induction rs generalizing p with
  | nil => exact absurd h (by simp)
  | cons r rs ih =>
    rw [storeAll_cons]
    by_cases hlater : (i, value) ∈ rs
    · rw [ih (fun v hv => hrs v (List.mem_cons_of_mem r hv)) hlater, record_store]
      by_cases hr : r.1 = i
      · subst hr
        rw [if_pos rfl]
      · rw [if_neg hr]
    · obtain rfl : (i, value) = r := (List.mem_cons.mp h).resolve_right hlater
      have hi : i ∉ rs.map (·.1) := by
        intro hmem
        obtain ⟨⟨_, v⟩, hv, rfl⟩ := List.mem_map.mp hmem
        obtain rfl := hrs v (List.mem_cons_of_mem _ hv)
        exact hlater hv
      rw [record_storeAll_of_not_mem hi, record_store, if_pos rfl]

/-- A slot that is written once has the value written to it. -/
theorem record_storeAll_of_mem {p : Pool n} {rs : Readings n} {i : Fin n} {value : UInt32}
    (hrs : (rs.map (·.1)).Nodup) (h : (i, value) ∈ rs) :
    (p.storeAll rs).record i = { p.record i with lastValue := value } :=
  record_storeAll_of_forall
    (fun _ hv => congrArg Prod.snd (List.inj_on_of_nodup_map hrs hv h rfl)) h

/-! ## Values that are on record -/

theorem change?_eq_none_iff {w : Watchpoint} {value : UInt32} :
    change? w value = none ↔ value = w.lastValue := by
  simp [change?]

theorem store_lastValue (p : Pool n) (slot : Fin n) :
    p.store slot (p.record slot).lastValue = p := by
  have hslots : p.slots.set slot (p.record slot) = p.slots := Vector.set_getElem_self _
  exact congrArg (fun slots => { p with slots }) hslots

/-- Values that are on record change nothing. -/
theorem changes_of_recorded {p : Pool n} {rs : Readings n}
    (h : ∀ r ∈ rs, r.2 = (p.record r.1).lastValue) : p.changes rs = [] :=
  List.filterMap_eq_nil_iff.mpr fun r hr => change?_eq_none_iff.mpr (h r hr)

/-- To store them again does nothing. -/
theorem storeAll_of_recorded {p : Pool n} {rs : Readings n}
    (h : ∀ r ∈ rs, r.2 = (p.record r.1).lastValue) : p.storeAll rs = p := by
  induction rs with
  | nil => rfl
  | cons r rs ih =>
    obtain ⟨hr, hrs⟩ := List.forall_mem_cons.mp h
    rw [storeAll_cons, hr, store_lastValue, ih hrs]

/-! ## Well-formedness -/

theorem wellFormed_empty (capacity : Nat) : (empty capacity).WellFormed where
  perm := by simp [empty]
  id_eq i := by simp [record, empty]

theorem allocate_of_free {p : Pool n} {s : Fin n} {free : List (Fin n)} (h : p.free = s :: free) :
    p.allocate = .ok (s, { p with free, active := s :: p.active }) := by
  rw [allocate, h]

/-- What taking a slot does: the next free one becomes the newest active one. -/
theorem allocate_eq_ok {p p' : Pool n} {s : Fin n} (h : p.allocate = .ok (s, p')) :
    ∃ free, p.free = s :: free ∧ p' = { p with free, active := s :: p.active } := by
  unfold allocate at h
  split at h
  · exact absurd h (by simp)
  · rename_i s' free hfree
    obtain ⟨rfl, rfl⟩ := Prod.mk.inj (Except.ok.inj h)
    exact ⟨free, hfree, rfl⟩

/-- What giving back a slot does: it becomes the next free one. -/
theorem release_eq_ok {p p' : Pool n} {id : WatchpointId} (h : p.release id = .ok p') :
    ∃ s, p.slotOf? id = some s ∧
      p' = { p with free := s :: p.free, active := p.active.erase s } := by
  unfold release at h
  split at h
  · exact absurd h (by simp)
  · rename_i s hs
    exact ⟨s, hs, (Except.ok.inj h).symm⟩

/-- A record that is active after another was given back was active before. -/
theorem mem_toList_of_release {p p' : Pool n} {id : WatchpointId} (h : p.release id = .ok p')
    {w : Watchpoint} (hw : w ∈ p'.toList) : w ∈ p.toList := by
  obtain ⟨s, -, rfl⟩ := release_eq_ok h
  obtain ⟨i, hi, rfl⟩ := mem_toList.mp hw
  exact mem_toList.mpr ⟨i, List.mem_of_mem_erase hi, rfl⟩

namespace WellFormed

variable {p p' : Pool n}

theorem nodup (h : p.WellFormed) : (p.free ++ p.active).Nodup :=
  h.perm.nodup_iff.mpr (List.nodup_finRange n)

theorem active_nodup (h : p.WellFormed) : p.active.Nodup := (List.nodup_append.mp h.nodup).2.1

/-- No free slot is active. -/
theorem not_mem_active (h : p.WellFormed) {s : Fin n} (hs : s ∈ p.free) : s ∉ p.active :=
  fun hs' => (List.nodup_append.mp h.nodup).2.2 s hs s hs' rfl

theorem allocate (h : p.WellFormed) {s : Fin n} (ha : p.allocate = .ok (s, p')) :
    p'.WellFormed := by
  obtain ⟨free, hfree, rfl⟩ := allocate_eq_ok ha
  refine ⟨?_, h.id_eq⟩
  have hperm := h.perm
  rw [hfree] at hperm
  exact List.perm_middle.trans hperm

theorem fill (h : p.WellFormed) (s : Fin n) (expression : String) (value : UInt32) :
    (p.fill s expression value).WellFormed :=
  ⟨h.perm, fun i => (p.id_fill s expression value i).trans (h.id_eq i)⟩

theorem release (h : p.WellFormed) {id : WatchpointId} (hr : p.release id = .ok p') :
    p'.WellFormed := by
  obtain ⟨s, hs, rfl⟩ := release_eq_ok hr
  refine ⟨?_, h.id_eq⟩
  have hperm := (List.perm_cons_erase (slotOf?_eq_some hs).1).symm
  exact (List.perm_middle.symm.trans (hperm.append_left p.free)).trans h.perm

theorem clear (h : p.WellFormed) : p.clear.WellFormed := by
  refine ⟨?_, h.id_eq⟩
  show (p.active.reverse ++ p.free ++ []).Perm _
  rw [List.append_nil]
  have hperm := (List.reverse_perm p.active).append_right p.free
  exact (hperm.trans List.perm_append_comm).trans h.perm

theorem storeAll (h : p.WellFormed) (rs : Readings n) : (p.storeAll rs).WellFormed := by
  refine ⟨?_, fun i => (id_storeAll p rs i).trans (h.id_eq i)⟩
  rw [free_storeAll, active_storeAll]
  exact h.perm

/-! ## Ids -/

/-- Up to 2^32 slots no two have the same id. -/
theorem slot_eq_of_id_eq (h : p.WellFormed) (hn : n ≤ UInt32.size) {i j : Fin n}
    (hid : (p.record i).id = (p.record j).id) : i = j := by
  have hlt : ∀ k : Fin n, k.val < UInt32.size := fun k => Nat.lt_of_lt_of_le k.isLt hn
  rw [h.id_eq, h.id_eq] at hid
  have hval := congrArg UInt32.toNat hid
  rw [UInt32.toNat_ofNat_of_lt' (hlt i), UInt32.toNat_ofNat_of_lt' (hlt j)] at hval
  exact Fin.ext hval

theorem slotOf?_eq_some_iff (h : p.WellFormed) (hn : n ≤ UInt32.size) {id : WatchpointId}
    {s : Fin n} : p.slotOf? id = some s ↔ s ∈ p.active ∧ (p.record s).id = id := by
  refine ⟨slotOf?_eq_some, ?_⟩
  rintro ⟨hs, rfl⟩
  have hsome : (p.slotOf? (p.record s).id).isSome = true :=
    List.find?_isSome.mpr ⟨s, List.mem_reverse.mpr hs, beq_self_eq_true _⟩
  obtain ⟨i, hi⟩ := Option.isSome_iff_exists.mp hsome
  rw [hi, h.slot_eq_of_id_eq hn (slotOf?_eq_some hi).2]

/-- **An id finds the active record that carries it.** -/
theorem get?_eq_some_iff (h : p.WellFormed) (hn : n ≤ UInt32.size) {id : WatchpointId}
    {w : Watchpoint} : p.get? id = some w ↔ w ∈ p.toList ∧ w.id = id := by
  rw [get?, Option.map_eq_some_iff, mem_toList]
  constructor
  · rintro ⟨s, hs, rfl⟩
    obtain ⟨hmem, hid⟩ := slotOf?_eq_some hs
    exact ⟨⟨s, hmem, rfl⟩, hid⟩
  · rintro ⟨⟨s, hs, rfl⟩, hid⟩
    exact ⟨s, (h.slotOf?_eq_some_iff hn).mpr ⟨hs, hid⟩, rfl⟩

/-! ## The active records -/

/-- A new record stands in front of the others. -/
theorem toList_fill (h : p.WellFormed) {s : Fin n} (ha : p.allocate = .ok (s, p'))
    (expression : String) (value : UInt32) :
    (p'.fill s expression value).toList = ⟨(p.record s).id, expression, value⟩ :: p.toList := by
  obtain ⟨free, hfree, rfl⟩ := allocate_eq_ok ha
  have hs : s ∉ p.active := h.not_mem_active (hfree ▸ List.mem_cons_self)
  rw [toList, toList, active_fill, List.map_cons, record_fill, if_pos rfl]
  congr 1
  refine List.map_congr_left fun i hi => ?_
  have hne : s ≠ i := fun heq => hs (heq ▸ hi)
  rw [record_fill, if_neg hne]
  rfl

/-- The records that are left are those with other ids, in the same order. -/
theorem toList_release (h : p.WellFormed) (hn : n ≤ UInt32.size) {id : WatchpointId}
    (hr : p.release id = .ok p') : p'.toList = p.toList.filter (·.id != id) := by
  obtain ⟨s, hs, rfl⟩ := release_eq_ok hr
  rw [toList, toList, List.filter_map, h.active_nodup.erase_eq_filter]
  congr 1
  obtain ⟨-, rfl⟩ := slotOf?_eq_some hs
  refine List.filter_congr fun i _ => ?_
  by_cases hi : i = s
  · subst hi
    simp
  · have hne : (p.record i).id ≠ (p.record s).id := fun heq => hi (h.slot_eq_of_id_eq hn heq)
    rw [bne_iff_ne.mpr hi, Function.comp_apply, bne_iff_ne.mpr hne]

/-- The slot that an id finds is taken out from between the others. -/
theorem release_split (h : p.WellFormed) {id : WatchpointId} {newer older : List (Fin n)}
    {s : Fin n} (hactive : p.active = newer ++ s :: older) (hs : p.slotOf? id = some s) :
    ∃ p', p.release id = .ok p' ∧ p'.toList = newer.map p.record ++ older.map p.record := by
  have hnewer : s ∉ newer := by
    have hnodup := h.active_nodup
    rw [hactive] at hnodup
    exact fun hmem => (List.nodup_append.mp hnodup).2.2 s hmem s List.mem_cons_self rfl
  refine ⟨_, by rw [Pool.release, hs], ?_⟩
  show (p.active.erase s).map p.record = _
  rw [hactive, List.erase_append_right _ hnewer, List.erase_cons_head, List.map_append]

/-- Records keep their ids and expressions and have the values that were read. -/
theorem toList_storeAll (h : p.WellFormed) {rs : Readings n} (hrs : rs.map (·.1) = p.active) :
    (p.storeAll rs).toList = rs.map fun (s, value) => { p.record s with lastValue := value } := by
  rw [toList, active_storeAll, ← hrs, List.map_map]
  refine List.map_congr_left fun r hr => ?_
  exact record_storeAll_of_mem (hrs ▸ h.active_nodup) hr

/-- A record that holds a new value held another one before. -/
theorem exists_of_mem_storeAll (h : p.WellFormed) {rs : Readings n}
    (hrs : rs.map (·.1) = p.active) {w : Watchpoint} (hw : w ∈ (p.storeAll rs).toList) :
    ∃ w' ∈ p.toList, w'.expression = w.expression := by
  rw [h.toList_storeAll hrs] at hw
  obtain ⟨r, hr, rfl⟩ := List.mem_map.mp hw
  exact ⟨p.record r.1, mem_toList.mpr ⟨r.1, hrs ▸ List.mem_map_of_mem hr, rfl⟩, rfl⟩

end WellFormed

end MachineMonitor.Pool
