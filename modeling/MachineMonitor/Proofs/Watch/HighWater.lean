import Mathlib.Data.List.FinRange
import Mathlib.Data.List.Induction
import MachineMonitor.Proofs.Watch.Operations

/-!
# The high-water mark of a pool

The free stack has the slots that were given back on top of those that were never taken, so a slot
is taken for the first time only when none that was given back is left. The ids that were ever
handed out are therefore the first ones, as many as slots were active at the same time.

Results:
* `Moves.used`: what an operation does to the used slots.
* `used_stateAfter`, `eraseDups_handedOut`: in every run, as many slots are used as were active at
  the same time, and their ids were handed out in ascending order.
* `handedOut_upTo_peak`: the ids ever handed out.
-/

namespace MachineMonitor.Pool

variable {n : Nat} {ε σ : Type}

/-! ## Used slots -/

/-- The first `k` slots are used. They are active or were given back, and those that were given back
lie on top of the unused ones. -/
structure Used (p : Pool n) (k : Nat) : Prop where
  le : k ≤ n
  split : ∃ returned, p.free = returned ++ (List.finRange n).drop k ∧
    (returned ++ p.active).Perm ((List.finRange n).take k)

theorem used_empty (capacity : Nat) : (empty capacity).Used 0 where
  le := Nat.zero_le capacity
  split := ⟨[], rfl, .nil⟩

theorem take_succ_finRange {k : Nat} (hk : k < n) :
    (List.finRange n).take (k + 1) = (List.finRange n).take k ++ [⟨k, hk⟩] := by
  rw [List.take_add_one]
  simp [hk]

theorem mem_take_finRange {k : Nat} {s : Fin n} : s ∈ (List.finRange n).take k ↔ s.val < k := by
  rw [List.mem_take_iff_getElem]
  constructor
  · rintro ⟨i, hi, rfl⟩
    simp at hi ⊢
    omega
  · intro hs
    exact ⟨s, by simp [hs], by simp⟩

theorem le_of_mem_drop_finRange {k : Nat} {s : Fin n} (h : s ∈ (List.finRange n).drop k) :
    k ≤ s.val := by
  obtain ⟨i, hi, rfl⟩ := List.mem_drop_iff_getElem.mp h
  simp

namespace Used

variable {p : Pool n} {k : Nat}

theorem length_active_le (h : p.Used k) : p.active.length ≤ k := by
  obtain ⟨returned, -, hperm⟩ := h.split
  have hlen := hperm.length_eq
  rw [List.length_append, List.length_take, List.length_finRange] at hlen
  omega

/-- **The next slot to be taken** was given back, or it is the first unused one and all that are
used are active. -/
theorem free_cases (h : p.Used k) {s : Fin n} {free : List (Fin n)} (hfree : p.free = s :: free) :
    (s.val < k ∧ p.active.length < k ∧ ∃ returned, free = returned ++ (List.finRange n).drop k ∧
        (s :: returned ++ p.active).Perm ((List.finRange n).take k)) ∨
      (s.val = k ∧ p.active.length = k ∧ free = (List.finRange n).drop (k + 1) ∧
        p.active.Perm ((List.finRange n).take k)) := by
  obtain ⟨returned, hsplit, hperm⟩ := h.split
  have hlen := hperm.length_eq
  rw [List.length_append, List.length_take, List.length_finRange, min_eq_left h.le] at hlen
  cases returned with
  | cons t returned =>
    obtain ⟨rfl, hrest⟩ := List.cons.inj (hfree.symm.trans hsplit)
    have hs : s ∈ (List.finRange n).take k := hperm.subset List.mem_cons_self
    rw [List.length_cons] at hlen
    exact Or.inl ⟨mem_take_finRange.mp hs, by omega, returned, hrest, hperm⟩
  | nil =>
    have hdrop : s :: free = (List.finRange n).drop k := hfree.symm.trans hsplit
    have hk : k < (List.finRange n).length := by
      have hlength := congrArg List.length hdrop
      rw [List.length_cons, List.length_drop] at hlength
      omega
    rw [List.drop_eq_getElem_cons hk] at hdrop
    obtain ⟨rfl, hrest⟩ := List.cons.inj hdrop
    exact Or.inr ⟨by simp, by simpa using hlen, hrest, hperm⟩

theorem allocate (h : p.Used k) {s : Fin n} {free : List (Fin n)} (hfree : p.free = s :: free) :
    Used { p with free, active := s :: p.active } (max k (p.active.length + 1)) := by
  rcases h.free_cases hfree with ⟨-, hlen, returned, hrest, hperm⟩ | ⟨hs, hlen, hrest, hperm⟩
  · rw [max_eq_left hlen]
    exact ⟨h.le, returned, hrest, List.perm_middle.trans hperm⟩
  · have hk : k < n := hs ▸ s.isLt
    rw [hlen, max_eq_right (Nat.le_succ k)]
    refine ⟨hk, [], hrest, ?_⟩
    rw [take_succ_finRange hk, show s = ⟨k, hk⟩ from Fin.ext hs, List.nil_append]
    exact (hperm.cons _).trans (List.perm_append_singleton _ _).symm

theorem release (h : p.Used k) {s : Fin n} (hs : s ∈ p.active) :
    Used { p with free := s :: p.free, active := p.active.erase s } k := by
  obtain ⟨returned, hsplit, hperm⟩ := h.split
  refine ⟨h.le, s :: returned, congrArg (s :: ·) hsplit, ?_⟩
  have herase := (List.perm_cons_erase hs).append_left returned
  exact (List.perm_middle.symm.trans herase.symm).trans hperm

theorem clear (h : p.Used k) : p.clear.Used k := by
  obtain ⟨returned, hsplit, hperm⟩ := h.split
  refine ⟨h.le, p.active.reverse ++ returned, ?_, ?_⟩
  · rw [Pool.clear, hsplit, List.append_assoc]
  · show (p.active.reverse ++ returned ++ []).Perm _
    rw [List.append_nil]
    have hback := (List.reverse_perm p.active).append_right returned
    exact (hback.trans List.perm_append_comm).trans hperm

end Used

/-- **What an operation does to the used slots.** -/
theorem Moves.used {p p' : Pool n} {k : Nat} {op : Op ε σ} {answer : Answer}
    (h : Moves p op answer p') (hp : p.Used k) : p'.Used (max k p'.active.length) := by
  cases h with
  | @allocate _ _ s free hfree e v =>
    exact ⟨(hp.allocate hfree).le, (hp.allocate hfree).split⟩
  | release h =>
    obtain ⟨s, hs, rfl⟩ := release_eq_ok h
    have hp' := hp.release (slotOf?_eq_some hs).1
    rw [max_eq_left hp'.length_active_le]
    exact hp'
  | sweep readings =>
    rw [active_storeAll, max_eq_left hp.length_active_le]
    exact ⟨hp.le, by rw [free_storeAll, active_storeAll]; exact hp.split⟩
  | clear =>
    rw [max_eq_left hp.clear.length_active_le]
    exact hp.clear

/-! ## Runs -/

/-- The largest number of slots that are active at the same time in a run. -/
def peak (p : Pool n) : List (Op ε σ) → Nat
  | [] => p.active.length
  | op :: ops => max p.active.length (peak (p.step op).2 ops)

/-- The id that an answer hands out. -/
def takenId? : Except (Refusal ε) Answer → Option WatchpointId
  | .ok (.taken w) => some w.id
  | _ => none

/-- The ids handed out in a run, in order. -/
def handedOut (p : Pool n) (ops : List (Op ε σ)) : List WatchpointId :=
  (answers step p ops).filterMap takenId?

theorem peak_concat (p : Pool n) (ops : List (Op ε σ)) (op : Op ε σ) :
    peak p (ops ++ [op]) = max (peak p ops) ((stateAfter step p ops).step op).2.active.length := by
  induction ops generalizing p with
  | nil => rfl
  | cons op' ops ih =>
    rw [List.cons_append, peak, peak, ih, max_assoc, stateAfter_cons]

theorem used_step {p : Pool n} {k : Nat} (h : p.Used k) (op : Op ε σ) :
    (p.step op).2.Used (max k (p.step op).2.active.length) := by
  rcases p.step_cases op with ⟨e, hstep⟩ | ⟨answer, p', hstep, hmoves⟩
  · rw [hstep, max_eq_left h.length_active_le]
    exact h
  · rw [hstep]
    exact hmoves.used h

/-- As many slots are used as were active at the same time. -/
theorem used_stateAfter (capacity : Nat) (ops : List (Op ε σ)) :
    (stateAfter step (empty capacity) ops).Used (peak (empty capacity) ops) := by
  induction ops using List.reverseRecOn with
  | nil => exact used_empty capacity
  | append_singleton ops op ih =>
    rw [peak_concat, stateAfter_concat]
    exact used_step ih op

theorem handedOut_concat (p : Pool n) (ops : List (Op ε σ)) (op : Op ε σ) :
    handedOut p (ops ++ [op]) =
      handedOut p ops ++ (takenId? ((stateAfter step p ops).step op).1).toList := by
  rw [handedOut, answers_append, List.filterMap_append, handedOut, answers, answers]
  cases h : takenId? ((stateAfter step p ops).step op).1 with
  | none => rw [List.filterMap_cons_none h]; rfl
  | some id => rw [List.filterMap_cons_some h]; rfl

/-! ## The ids handed out -/

/-- Ids that were first met in ascending order are the first ones. -/
theorem mem_iff_of_eraseDups {ids : List WatchpointId} {k : Nat} (hk : k ≤ UInt32.size)
    (h : ids.eraseDups = (List.range k).map UInt32.ofNat) (id : WatchpointId) :
    id ∈ ids ↔ id.toNat < k := by
  rw [← List.mem_eraseDups, h, List.mem_map]
  constructor
  · rintro ⟨i, hi, rfl⟩
    rw [List.mem_range] at hi
    rwa [UInt32.toNat_ofNat_of_lt' (Nat.lt_of_lt_of_le hi hk)]
  · intro hid
    exact ⟨id.toNat, List.mem_range.mpr hid, UInt32.ofNat_toNat⟩

theorem eraseDups_concat_of_mem {ids : List WatchpointId} {id : WatchpointId} (h : id ∈ ids) :
    (ids ++ [id]).eraseDups = ids.eraseDups := by
  simp [List.eraseDups_append, List.removeAll, h]

theorem eraseDups_concat_of_not_mem {ids : List WatchpointId} {id : WatchpointId} (h : id ∉ ids) :
    (ids ++ [id]).eraseDups = ids.eraseDups ++ [id] := by
  simp [List.eraseDups_append, List.eraseDups_cons, List.removeAll, h]

theorem toNat_id {p : Pool n} (h : p.WellFormed) (hn : n ≤ UInt32.size) (s : Fin n) :
    (p.record s).id.toNat = s.val := by
  rw [h.id_eq, UInt32.toNat_ofNat_of_lt' (Nat.lt_of_lt_of_le s.isLt hn)]

/-- An operation hands out the id of a slot that becomes active, or no further slot is active. -/
theorem Moves.taken_or {p p' : Pool n} {op : Op ε σ} {answer : Answer}
    (h : Moves p op answer p') :
    (∃ s free, p.free = s :: free ∧ answer = .taken (p.record s) ∧ p'.active = s :: p.active) ∨
      ((∀ w, answer ≠ .taken w) ∧ p'.active.length ≤ p.active.length) := by
  cases h with
  | @allocate _ _ s free hfree e v => exact Or.inl ⟨s, free, hfree, rfl, rfl⟩
  | release h =>
    obtain ⟨s, -, rfl⟩ := release_eq_ok h
    exact Or.inr ⟨by simp, List.length_erase_le⟩
  | sweep readings => exact Or.inr ⟨by simp, by rw [active_storeAll]⟩
  | clear => exact Or.inr ⟨by simp, Nat.zero_le _⟩

/-- The ids were first handed out in ascending order, as many as slots were active at the same
time. -/
theorem eraseDups_handedOut {capacity : Nat} (hcap : capacity ≤ UInt32.size)
    (ops : List (Op ε σ)) :
    (handedOut (empty capacity) ops).eraseDups =
      (List.range (peak (empty capacity) ops)).map UInt32.ofNat := by
  induction ops using List.reverseRecOn with
  | nil => rfl
  | append_singleton ops op ih =>
    have hp := wellFormed_stateAfter capacity ops
    have hused := used_stateAfter capacity ops
    have hmem := mem_iff_of_eraseDups (hused.le.trans hcap) ih
    rw [handedOut_concat, peak_concat]
    generalize stateAfter step (empty capacity) ops = p at hp hused ⊢
    generalize peak (empty capacity) ops = k at ih hused hmem ⊢
    have hid := fun s => toNat_id hp hcap s
    have hle := hused.length_active_le
    rcases p.step_cases op with ⟨e, hstep⟩ | ⟨answer, p', hstep, hmoves⟩
    · rw [hstep, max_eq_left hle]
      exact (congrArg List.eraseDups (List.append_nil _)).trans ih
    rw [hstep]
    rcases hmoves.taken_or with ⟨s, free, hfree, rfl, hactive⟩ | ⟨hanswer, hlen⟩
    · show (_ ++ [(p.record s).id]).eraseDups = _
      rw [hactive, List.length_cons]
      rcases hused.free_cases hfree with ⟨hs, hlen, -⟩ | ⟨hs, hlen, -⟩
      · have hold : (p.record s).id ∈ handedOut (empty capacity) ops := by rwa [hmem, hid]
        rw [eraseDups_concat_of_mem hold, max_eq_left hlen, ih]
      · have hnew : (p.record s).id ∉ handedOut (empty capacity) ops := by
          rw [hmem, hid, hs]
          exact lt_irrefl k
        rw [eraseDups_concat_of_not_mem hnew, hlen, max_eq_right (Nat.le_succ k), List.range_succ,
          List.map_append, ih, hp.id_eq, hs]
        rfl
    · have hnone : takenId? (.ok answer : Except (Refusal ε) Answer) = none := by
        cases answer with
        | taken w => exact absurd rfl (hanswer w)
        | swept | done => rfl
      rw [hnone, max_eq_left (hlen.trans hle)]
      exact (congrArg List.eraseDups (List.append_nil _)).trans ih

/-- **The ids ever handed out** in a run are the first ones, as many as there were active slots at
the same time, and they were first handed out in ascending order. An id is handed out for the first
time only if none of the ids that were given back is left, and it is then the next one in this
order. -/
theorem handedOut_upTo_peak {capacity : Nat} (hcap : capacity ≤ UInt32.size)
    (ops : List (Op ε σ)) :
    let ids := handedOut (empty capacity) ops
    let k := peak (empty capacity) ops
    let p := stateAfter step (empty capacity) ops
    ids.eraseDups = (List.range k).map UInt32.ofNat ∧
      (∀ id, id ∈ ids ↔ id.toNat < k) ∧
      ∀ (op : Op ε σ) (w : Watchpoint), (p.step op).1 = .ok (.taken w) →
        (w.id ∉ ids ↔ ∀ s ∈ p.free, (p.record s).id ∉ ids) ∧ (w.id ∉ ids → w.id.toNat = k) := by
  intro ids k p
  have hids : ids.eraseDups = (List.range k).map UInt32.ofNat := eraseDups_handedOut hcap ops
  have hp : p.WellFormed := wellFormed_stateAfter capacity ops
  have hused : p.Used k := used_stateAfter capacity ops
  have hmem := mem_iff_of_eraseDups (hused.le.trans hcap) hids
  refine ⟨hids, hmem, fun op w htaken => ?_⟩
  obtain ⟨s, free, hfree, rfl⟩ : ∃ s free, p.free = s :: free ∧ w = p.record s := by
    rcases p.step_cases op with ⟨e, hstep⟩ | ⟨answer, p', hstep, hmoves⟩
    · rw [hstep] at htaken
      exact absurd htaken (by simp)
    · rw [hstep] at htaken
      obtain rfl := Except.ok.inj htaken
      rcases hmoves.taken_or with ⟨s, free, hfree, hw, -⟩ | ⟨hanswer, -⟩
      · exact ⟨s, free, hfree, Answer.taken.inj hw⟩
      · exact absurd rfl (hanswer w)
  have hid := fun s => toNat_id hp hcap s
  simp only [hmem, hid, not_lt]
  rcases hused.free_cases hfree with ⟨hs, -⟩ | ⟨hs, -, hrest, -⟩
  · exact ⟨⟨fun h => absurd hs (not_lt.mpr h), fun h => h s (hfree ▸ List.mem_cons_self)⟩,
      fun h => absurd hs (not_lt.mpr h)⟩
  · refine ⟨⟨fun _ t ht => ?_, fun _ => hs.ge⟩, fun _ => hs⟩
    rw [hfree, hrest] at ht
    rcases List.mem_cons.mp ht with rfl | ht
    · exact hs.ge
    · exact (Nat.le_succ k).trans (le_of_mem_drop_finRange ht)

/-- Three of four slots are active at the same time, and two of them are taken again. -/
theorem handedOut_upTo_peak_four :
    let ops : List (Op Empty Unit) :=
      [.allocate none none, .allocate (some "7") (some 7), .release 0, .allocate none none,
        .allocate none none, .clear, .allocate none (some 1)]
    4 ≤ UInt32.size ∧ handedOut (empty 4) ops = [0, 1, 0, 2, 1] ∧ peak (empty 4) ops = 3 ∧
      (handedOut (empty 4) ops).eraseDups = [0, 1, 2] ∧
      ∀ id, id ∈ handedOut (empty 4) ops ↔ id.toNat < 3 := by
  intro ops
  have hcap : 4 ≤ UInt32.size := by decide
  have hpeak : peak (empty 4) ops = 3 := by decide +kernel
  obtain ⟨hids, hmem, -⟩ := handedOut_upTo_peak hcap ops
  rw [hpeak] at hids hmem
  exact ⟨hcap, by decide +kernel, hpeak, hids, hmem⟩

end MachineMonitor.Pool
