import Mathlib.Data.List.Nodup
import MachineMonitor.Config
import MachineMonitor.Machine
import MachineMonitor.Proofs.Monitor.RepeatedIds

/-!
# What an id stands for

An id stands for the watchpoint whose creation answered it: no other active record carries it, and
deleting it takes out this record and no other. This holds in every run of a monitor just when it
has no more slots than there are ids. A valid configuration may ask for more.

Results:
* `Pool.WellFormed.nodup_ids`, `deletesJust`: what holds up to 2^32 slots.
* `exists_create_of_mem`: every active record was created in the run, and did not end since.
* `ids_identify_iff`: the configurations under which ids identify watchpoints.
-/

namespace MachineMonitor

/-- Up to 2^32 slots no two active records carry the same id. -/
theorem Pool.WellFormed.nodup_ids {n : Nat} {p : Pool n} (h : p.WellFormed)
    (hn : n ≤ UInt32.size) : (p.toList.map (·.id)).Nodup := by
  rw [toList, List.map_map]
  exact h.active_nodup.map_on fun i _ j _ hid => h.slot_eq_of_id_eq hn hid

/-- A configuration that is valid lets a digit through. -/
theorem Config.limits_pos {c d : Config} (h : c.validate = .ok d) :
    0 < d.limits.maxTokens ∧ 0 < d.limits.maxTokenLen := by
  obtain ⟨hfault, rfl⟩ := validate_eq_ok_iff.mp h
  unfold fault? at hfault
  grind

namespace Monitor

variable {τ : Type} [Target τ]

/-- Deleting an id takes out a record of an expression, which stands between some newer and some
older ones, and no other record. -/
def DeletesJust (m : Monitor τ) (id : WatchpointId) (expr : String) : Prop :=
  ∃ newer value older m', m.watchList = newer ++ ⟨id, expr, value⟩ :: older ∧
    m.watchDelete id = .ok m' ∧ m'.watchList = newer ++ older

omit [Target τ] in
/-- Up to 2^32 slots, deleting the id of an active record takes out just this record. -/
theorem deletesJust {m : Monitor τ} (hm : m.pool.WellFormed) (hcap : m.capacity ≤ UInt32.size)
    {w : Watchpoint} (hw : w ∈ m.watchList) : m.DeletesJust w.id w.expression := by
  obtain ⟨newer, older, hlist⟩ := List.append_of_mem hw
  obtain ⟨slots, rest, hactive, rfl, hrest⟩ := List.map_eq_append_iff.mp hlist
  obtain ⟨s, slots', rfl, rfl, rfl⟩ := List.map_eq_cons_iff.mp hrest
  have hs : s ∈ m.pool.active := by
    rw [hactive]
    exact List.mem_append_right _ List.mem_cons_self
  obtain ⟨p, hrelease, hp⟩ :=
    hm.release_split hactive ((hm.slotOf?_eq_some_iff hcap).mpr ⟨hs, rfl⟩)
  exact ⟨_, _, _, _, hlist, watchDelete_of_release hrelease, hp⟩

/-! ## Where active records come from -/

/-- A record that is active after an action was there before under the same id and with the same
expression, or the action created it. -/
theorem Moves.mem_cases {m m' : Monitor τ} {a : Action τ} {changes : List WatchChange}
    (h : Moves m a changes m') (hm : m.pool.WellFormed) (hcap : m.capacity ≤ UInt32.size)
    {w : Watchpoint} (hw : w ∈ m'.watchList) :
    (¬ a.Ends w.id ∧ ∃ w' ∈ m.watchList, w'.id = w.id ∧ w'.expression = w.expression) ∨
      (a = .create w.expression ∧ m.watchCreate w.expression = .ok ((w.id, w.lastValue), m')) := by
  cases h with
  | @create expr value s p hvalue halloc =>
    have hcreate := watchCreate_of_allocate hvalue halloc
    rw [watchList_create hm hcreate] at hw
    rcases List.mem_cons.mp hw with rfl | hw
    · exact Or.inr ⟨rfl, hcreate⟩
    · exact Or.inl ⟨not_false, w, hw, rfl, rfl⟩
  | createRefused | sweepRefused | mutate => exact Or.inl ⟨not_false, w, hw, rfl, rfl⟩
  | @deleteRefused id e h =>
    refine Or.inl ⟨?_, w, hw, rfl, rfl⟩
    rintro rfl
    obtain ⟨_, _, _, m', -, hdelete, -⟩ := deletesJust hm hcap hw
    rw [h] at hdelete
    exact absurd hdelete (by simp)
  | delete h =>
    have hw' : w ∈ Pool.toList _ := hw
    rw [hm.toList_release hcap h, List.mem_filter] at hw'
    exact Or.inl ⟨fun hid => bne_iff_ne.mp hw'.2 hid.symm, w, hw'.1, rfl, rfl⟩
  | clear => exact absurd hw List.not_mem_nil
  | sweep h =>
    obtain ⟨rs, ⟨hslots, -⟩, -, rfl⟩ := Pool.sweep_eq_ok h
    have hw' : w ∈ Pool.toList _ := hw
    rw [hm.toList_storeAll hslots] at hw'
    obtain ⟨r, hr, rfl⟩ := List.mem_map.mp hw'
    have hactive : r.1 ∈ m.pool.active := hslots ▸ List.mem_map_of_mem hr
    exact Or.inl ⟨not_false, m.pool.record r.1, List.mem_map_of_mem hactive, rfl, rfl⟩

/-- **Every active record was created in the run**, under its id and with its expression, and its id
was not deleted since. -/
theorem exists_create_of_mem (target : τ) (limits : Expr.Limits) {capacity : Nat}
    (hcap : capacity ≤ UInt32.size) (actions : List (Action τ)) {w : Watchpoint}
    (hw : w ∈ (run { target, limits, capacity } actions).watchList) :
    ∃ before span value m, actions = before ++ .create w.expression :: span ∧
      (run { target, limits, capacity } before).watchCreate w.expression =
        .ok ((w.id, value), m) ∧ ∀ a ∈ span, ¬ a.Ends w.id := by
  induction actions using List.reverseRecOn generalizing w with
  | nil => exact absurd hw List.not_mem_nil
  | append_singleton actions a ih =>
    rw [run_concat] at hw
    have hcap' := (capacity_run { target, limits, capacity } actions).trans_le hcap
    have hwf := wellFormed_run (m := { target, limits, capacity })
      (Pool.wellFormed_empty capacity) actions
    rcases (moves_step _ a).mem_cases hwf hcap' hw with ⟨ha, w', hw', hid, hexpr⟩ | ⟨rfl, hcreate⟩
    · obtain ⟨before, span, value, m, rfl, hcreate, hspan⟩ := ih hw'
      rw [hexpr, hid] at hcreate
      rw [hid] at hspan
      refine ⟨before, span ++ [a], value, m, ?_, hcreate, ?_⟩
      · rw [hexpr, List.append_assoc, List.cons_append]
      · simpa [or_imp, forall_and] using ⟨hspan, ha⟩
    · exact ⟨actions, [], w.lastValue, _, rfl, hcreate, by simp⟩

/-! ## When ids identify watchpoints -/

/-- With more slots than there are ids, one id can stand for two watchpoints, and deleting it takes
the one that did not get it last. -/
theorem not_deletesJust (target : τ) {c d : Config} (h : c.validate = .ok d)
    (hcap : UInt32.size < d.capacity) :
    ∃ before m, ((ofConfig target d).run before).watchCreate "1" = .ok ((0, 1), m) ∧
      (ofConfig target d).run (before ++ [.create "1"]) = m ∧
      ¬ (m.watchList.map (·.id)).Nodup ∧ ¬ m.DeletesJust 0 "1" := by
  obtain ⟨hcount, hlen⟩ := Config.limits_pos h
  obtain ⟨newer, m, m', hold, hcreate, hlist, hdelete, hlist'⟩ :=
    exists_repeated_id target hcount hlen hcap
  change ((ofConfig target d).run _).watchCreate _ = _ at hcreate
  rw [hold] at hlist
  refine ⟨_, m, hcreate, ?_, ?_, ?_⟩
  · rw [run_concat, step, hcreate]
  · rw [hlist]
    simp
  · -- The records of the second expression are counted before and after.
    rintro ⟨newer', value, older', m'', hsplit, hdelete', hlist''⟩
    obtain rfl := Except.ok.inj (hdelete.symm.trans hdelete')
    have hbefore := congrArg (List.countP (·.expression == "1")) (hlist.symm.trans hsplit)
    have hafter := congrArg (List.countP (·.expression == "1")) (hlist'.symm.trans hlist'')
    simp at hbefore hafter
    omega

/-- **When ids identify watchpoints.** Under a valid configuration, no two active records ever carry
the same id just when there are no more slots than ids. Just then, deleting an id takes out the
record whose creation answered it and no other. What can be deleted are then the ids that a creation
answered and that did not end since. -/
theorem ids_identify_iff (target : τ) {c d : Config} (h : c.validate = .ok d) :
    (c.capacity ≤ UInt32.size ↔
      ∀ actions, (((ofConfig target d).run actions).watchList.map (·.id)).Nodup) ∧
    (c.capacity ≤ UInt32.size ↔ ∀ before expr id value m span,
      ((ofConfig target d).run before).watchCreate expr = .ok ((id, value), m) →
        (∀ a ∈ span, ¬ a.Ends id) → (m.run span).DeletesJust id expr) ∧
    (c.capacity ≤ UInt32.size → ∀ actions id m,
      ((ofConfig target d).run actions).watchDelete id = .ok m →
        ∃ before expr value m span, actions = before ++ .create expr :: span ∧
          ((ofConfig target d).run before).watchCreate expr = .ok ((id, value), m) ∧
          ∀ a ∈ span, ¬ a.Ends id) := by
  obtain ⟨-, rfl⟩ := Config.validate_eq_ok_iff.mp h
  have hwf := wellFormed_run (m := ofConfig target d) (Pool.wellFormed_empty d.capacity)
  have hcap : ∀ actions, ((ofConfig target d).run actions).capacity = d.capacity :=
    capacity_run (ofConfig target d)
  refine ⟨⟨fun hle actions => ?_, fun hall => ?_⟩, ⟨?_, fun hall => ?_⟩, ?_⟩
  · exact (hwf actions).nodup_ids ((hcap actions).trans_le hle)
  · by_contra hlt
    obtain ⟨before, m, -, rfl, hnot, -⟩ := not_deletesJust target h (Nat.lt_of_not_le hlt)
    exact hnot (hall _)
  · intro hle before expr id value m span hcreate hspan
    have hmoves := moves_create hcreate
    have hm := hmoves.wellFormed (hwf before)
    have hle' : m.capacity ≤ UInt32.size := (hmoves.capacity_eq.trans (hcap before)).trans_le hle
    have hw : ⟨id, expr, value⟩ ∈ m.watchList := by
      rw [watchList_create (hwf before) hcreate]
      exact List.mem_cons_self
    obtain ⟨⟨last, -, hmem⟩, -⟩ := continues_run hm hle' hw hspan
    exact deletesJust (wellFormed_run hm span) ((capacity_run m span).trans_le hle') hmem
  · by_contra hlt
    obtain ⟨before, m, hcreate, -, -, hnot⟩ := not_deletesJust target h (Nat.lt_of_not_le hlt)
    exact hnot (hall before "1" 0 1 m [] hcreate (by simp))
  · intro hle actions id m hdelete
    obtain ⟨p, hrelease, -⟩ := watchDelete_eq_ok hdelete
    obtain ⟨s, hs, -⟩ := Pool.release_eq_ok hrelease
    obtain ⟨hmem, rfl⟩ := Pool.slotOf?_eq_some hs
    obtain ⟨before, span, value, m', heq, hcreate, hspan⟩ :=
      exists_create_of_mem target d.limits hle actions (List.mem_map_of_mem hmem)
    exact ⟨before, _, value, m', span, heq, hcreate, hspan⟩

/-- The configuration without entries is valid and has fewer slots than there are ids. The first of
two watchpoints is found by its id. -/
theorem ids_identify_default :
    let m : Monitor Machine := ofConfig {} {}
    ({} : Config).validate = .ok {} ∧
      (∀ actions, ((m.run actions).watchList.map (·.id)).Nodup) ∧
      (m.run [.create "7", .create "$ra", .sweep]).DeletesJust 0 "7" := by
  intro m
  have hvalid : ({} : Config).validate = .ok {} := by decide
  have hcap : ({} : Config).capacity ≤ UInt32.size := by decide
  have hids := ids_identify_iff ({} : Machine) hvalid
  have hcreate : m.watchCreate "7" = .ok ((0, 7), m.step (.create "7")) := by decide +kernel
  refine ⟨hvalid, hids.1.mp hcap, ?_⟩
  exact hids.2.1.mp hcap [] "7" 0 7 _ [.create "$ra", .sweep] hcreate (by simp [Action.Ends])

/-- One slot more than there are ids is valid. Once all ids are taken, the next watchpoint gets the
id zero, which the oldest one has as well, and deleting zero does not delete it. -/
theorem ids_repeat_of_valid :
    let c : Config := { capacity := UInt32.size + 1 }
    let before : List (Action Machine) := List.replicate UInt32.size (.create "0")
    c.validate = .ok c ∧ ∃ m m', ((ofConfig {} c).run before).watchCreate "1" = .ok ((0, 1), m) ∧
      ¬ (m.watchList.map (·.id)).Nodup ∧ m.watchDelete 0 = .ok m' ∧ ⟨0, "1", 1⟩ ∈ m'.watchList := by
  intro c before
  have hvalid : c.validate = .ok c := Config.validate_eq_ok_iff.mpr ⟨by decide, rfl⟩
  obtain ⟨hcount, hlen⟩ := Config.limits_pos hvalid
  obtain ⟨newer, m, m', hold, hcreate, hlist, hdelete, hlist'⟩ :=
    exists_repeated_id ({} : Machine) hcount hlen (Nat.lt_succ_self UInt32.size)
  refine ⟨hvalid, m, m', hcreate, ?_, hdelete, hlist' ▸ List.mem_cons_self⟩
  rw [hlist, hold]
  simp

end Monitor

end MachineMonitor
