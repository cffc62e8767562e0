import Mathlib.Data.List.FinRange
import MachineMonitor.Proofs.Expr.Literal
import MachineMonitor.Proofs.Monitor.History

/-!
# More slots than ids

An id is a word, so there are 2^32 of them, and a pool with more slots uses some of them twice. The
first id that comes to stand for two watchpoints is zero, once all ids are taken. Deleting it takes
the older of the two.

Results:
* `Pool.WellFormed.release_oldest`: should several records carry an id, the oldest is given back.
* `exists_pool_of_creates`: what creating one watchpoint after the other leads to.
* `exists_repeated_id`: an id that stands for two watchpoints, and what deleting it does.
-/

namespace MachineMonitor

namespace Pool.WellFormed

variable {n : Nat} {p : Pool n}

/-- **Should several records carry an id, the oldest is given back.** -/
theorem release_oldest (h : p.WellFormed) {newer : List Watchpoint} {w : Watchpoint}
    (hlist : p.toList = newer ++ [w]) : ∃ p', p.release w.id = .ok p' ∧ p'.toList = newer := by
  obtain ⟨slots, last, hactive, rfl, hlast⟩ := List.map_eq_append_iff.mp hlist
  obtain ⟨s, rfl, rfl⟩ := List.map_eq_singleton_iff.mp hlast
  have hslot : p.slotOf? (p.record s).id = some s := by
    rw [slotOf?, hactive, List.reverse_concat]
    exact List.find?_cons_of_pos (beq_self_eq_true _)
  obtain ⟨p', hrelease, hp'⟩ := h.release_split hactive hslot
  exact ⟨p', hrelease, hp'.trans (List.append_nil _)⟩

end Pool.WellFormed

namespace Monitor

variable {τ : Type} [Target τ]

/-- What creating `k` watchpoints of one expression leads to. -/
theorem exists_pool_of_creates (target : τ) {limits : Expr.Limits} {capacity : Nat} {expr : String}
    {value : UInt32} (hvalue : Expr.evaluate limits target expr = .ok value) {k : Nat}
    (hk : k ≤ capacity) :
    ∃ p : Pool capacity,
      run { target, limits, capacity } (List.replicate k (.create expr)) =
          { target, limits, capacity, pool := p } ∧
        p.WellFormed ∧ p.free = (List.finRange capacity).drop k ∧
        p.toList = ((List.finRange capacity).take k).reverse.map fun s =>
          ⟨UInt32.ofNat s, expr, value⟩ := by
  induction k with
  | zero => exact ⟨Pool.empty capacity, rfl, Pool.wellFormed_empty capacity, rfl, rfl⟩
  | succ k ih =>
    obtain ⟨p, hrun, hp, hfree, hlist⟩ := ih (Nat.le_of_succ_le hk)
    let m : Monitor τ := { target, limits, capacity, pool := p }
    have hlength : k < (List.finRange capacity).length := hk.trans_eq List.length_finRange.symm
    rw [List.drop_eq_getElem_cons hlength] at hfree
    have hcreate := watchCreate_of_allocate (m := m) hvalue (Pool.allocate_of_free hfree)
    refine ⟨_, ?_, (moves_create hcreate).wellFormed hp, rfl, ?_⟩
    · rw [List.replicate_succ', run_concat, hrun, step, hcreate]
    · rw [List.take_succ_eq_append_getElem hlength, List.reverse_concat, List.map_cons, ← hlist,
        ← hp.id_eq]
      exact watchList_create (m := m) hp hcreate

/-- **An id that stands for two watchpoints.** With more slots than there are ids, all of which are
taken by watchpoints of one expression, the next watchpoint gets the id zero, which the oldest one
has as well. Deleting it takes the oldest one. -/
theorem exists_repeated_id (target : τ) {limits : Expr.Limits} (hcount : 0 < limits.maxTokens)
    (hlen : 0 < limits.maxTokenLen) {capacity : Nat} (hcap : UInt32.size < capacity) :
    let m := run { target, limits, capacity } (List.replicate UInt32.size (.create "0"))
    ∃ newer m' m'', m.watchList = newer ++ [⟨0, "0", 0⟩] ∧
      m.watchCreate "1" = .ok ((0, 1), m') ∧ m'.watchList = ⟨0, "1", 1⟩ :: m.watchList ∧
      m'.watchDelete 0 = .ok m'' ∧ m''.watchList = ⟨0, "1", 1⟩ :: newer := by
  have hdigits : "0".toList = [] ++ Nat.toDigits 10 0 := by decide
  have hdigits' : "1".toList = [] ++ Nat.toDigits 10 1 := by decide
  have hzero : Expr.evaluate limits target "0" = .ok 0 :=
    Expr.evaluate_of_denotes target hcount .decimal (Numeral.denotes_toDigits (by decide) 0)
      hdigits hlen
  have hone : Expr.evaluate limits target "1" = .ok 1 :=
    Expr.evaluate_of_denotes target hcount .decimal (Numeral.denotes_toDigits (by decide) 1)
      hdigits' hlen
  obtain ⟨p, hrun, hp, hfree, hlist⟩ := exists_pool_of_creates target hzero hcap.le
  -- The oldest watchpoint has the first slot.
  obtain ⟨newer, hnewer⟩ : ∃ newer, p.toList = newer ++ [⟨0, "0", 0⟩] := by
    obtain ⟨n, rfl⟩ := Nat.exists_eq_succ_of_ne_zero (Nat.ne_zero_of_lt hcap)
    rw [List.finRange_succ, List.take_cons (by decide), List.reverse_cons, List.map_append] at hlist
    exact ⟨_, hlist⟩
  -- The next slot is the one after those that have all the ids.
  obtain ⟨next, free, hnext, hid⟩ :
      ∃ next free, p.free = next :: free ∧ (p.record next).id = 0 := by
    have hlength : UInt32.size < (List.finRange capacity).length :=
      hcap.trans_eq List.length_finRange.symm
    refine ⟨_, _, hfree.trans (List.drop_eq_getElem_cons hlength), ?_⟩
    rw [hp.id_eq, List.getElem_finRange]
    exact UInt32.ofNat_size
  let m : Monitor τ := { target, limits, capacity, pool := p }
  let taken : Pool capacity := { p with free, active := next :: p.active }
  have halloc : p.allocate = .ok (next, taken) := Pool.allocate_of_free hnext
  have hcreate := watchCreate_of_allocate (m := m) hone halloc
  rw [show (taken.record next).id = 0 from hid] at hcreate
  have hlist' := watchList_create (m := m) hp hcreate
  have holdest : _ = (⟨0, "1", 1⟩ :: newer) ++ [⟨0, "0", 0⟩] :=
    hlist'.trans (congrArg (⟨0, "1", 1⟩ :: ·) hnewer)
  obtain ⟨p', hrelease, hp'⟩ := ((moves_create hcreate).wellFormed hp).release_oldest holdest
  rw [hrun]
  exact ⟨newer, _, _, hnewer, hcreate, hlist', watchDelete_of_release hrelease, hp'⟩

end Monitor

end MachineMonitor
