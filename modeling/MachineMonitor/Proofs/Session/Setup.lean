import MachineMonitor.Proofs.Machine.Reference
import MachineMonitor.Proofs.Text.ByteOrder
import MachineMonitor.Session

/-!
# Setting up the machine by requests

What a machine holds at the start is written in a configuration. The same can be asked for by
requests to a session without it: one for each register, with the key as it is spelled, in the order
of the bytes of the keys, and one for each memory word. A configuration and a session find the
register of a key by different rules, but in all texts they find the same.

Results:
* `Config.buildMachine_eq`: building a machine is a list of writes.
* `Config.register_buildMachine`: what a register holds at the start.
* `Session.ofName?_registerName`: both rules for keys find the same register.
* `Session.performs_setup`: the requests of a configuration do what its writes do.
* `Session.answers_setup`: the machine of a configuration and the one that requests lead to.
-/

namespace MachineMonitor

/-! ## What a register holds after writes -/

namespace Machine

/-- A write to a register. -/
def Write.Names (r : Register) : Write → Prop
  | .register name _ => Register.ofName? name = some r
  | .memory _ _ _ | .word _ _ => False

theorem register_write {m m' : Machine} {w : Write} (h : m.write w = .ok m') {r : Register}
    (hr : ¬ w.Names r) : m'.register r = m.register r := by
  cases w with
  | register name value =>
    rw [write, setRegister] at h
    cases hname : Register.ofName? name with
    | none =>
      rw [hname] at h
      exact absurd h (by simp)
    | some r' =>
      rw [hname] at h
      have hne : r' ≠ r := by
        rintro rfl
        exact hr hname
      obtain rfl := Except.ok.inj h
      by_cases hzero : r' = .zero
      · rw [if_pos hzero]
      · rw [if_neg hzero, register_set, if_neg hne]
  | memory address width value =>
    rw [write, writeMemory] at h
    split at h
    · obtain rfl := Except.ok.inj h
      rfl
    · exact absurd h (by simp)
  | word address value =>
    obtain rfl := Except.ok.inj h
    rfl

theorem register_write_self {m m' : Machine} {name : String} {value : UInt32}
    (h : m.write (.register name value) = .ok m') {r : Register}
    (hr : Register.ofName? name = some r) (hzero : r ≠ .zero) : m'.register r = value := by
  rw [write, setRegister, hr] at h
  obtain rfl := Except.ok.inj h
  rw [if_neg hzero, register_set, if_pos rfl]

theorem register_zero_write {m m' : Machine} {w : Write} (h : m.write w = .ok m') :
    m'.register .zero = m.register .zero := by
  by_cases hw : w.Names .zero
  · cases w with
    | register name value =>
      rw [write, setRegister, show Register.ofName? name = some .zero from hw] at h
      obtain rfl := Except.ok.inj h
      rw [if_pos rfl]
    | memory | word => exact hw.elim
  · exact register_write h hw

theorem register_default (r : Register) : register {} r = 0 := Vector.getElem_replicate _

variable {m m' : Machine} {writes : List Write} {r : Register}

theorem register_foldlM (h : writes.foldlM write m = .ok m') (hr : ∀ w ∈ writes, ¬ w.Names r) :
    m'.register r = m.register r :=
  foldlM_induction (P := fun t : Machine => t.register r = m.register r)
    (fun w hw _ _ ht hwrite => (register_write hwrite (hr w hw)).trans ht) rfl h

theorem register_zero_foldlM (h : writes.foldlM write m = .ok m') :
    m'.register .zero = m.register .zero :=
  foldlM_induction (P := fun t : Machine => t.register .zero = m.register .zero)
    (fun _ _ _ _ ht hwrite => (register_zero_write hwrite).trans ht) rfl h

/-- **A register holds what is written to it last.** -/
theorem register_foldlM_last {before after : List Write} {name : String} {value : UInt32}
    (h : (before ++ .register name value :: after).foldlM write m = .ok m')
    (hname : Register.ofName? name = some r) (hzero : r ≠ .zero)
    (hafter : ∀ w ∈ after, ¬ w.Names r) : m'.register r = value := by
  rw [List.foldlM_append] at h
  obtain ⟨m₁, -, h⟩ := ok_of_bind h
  rw [List.foldlM_cons] at h
  obtain ⟨m₂, hwrite, h⟩ := ok_of_bind h
  rw [register_foldlM h hafter, register_write_self hwrite hname hzero]

end Machine

/-! ## The writes of a configuration -/

namespace Config

open Machine (Write)

/-- The write that an entry for a register asks for. -/
def registerWrite (entry : String × UInt32) : Write :=
  .register (registerName entry.1) entry.2

/-- The writes with which a machine is built. -/
def writes (c : Config) : List Write :=
  c.registers.toList.map registerWrite ++ c.memory.map fun w => .word w.address w.value

/-- **Building a machine** is a list of writes. -/
theorem buildMachine_eq (c : Config) : c.buildMachine = c.writes.foldlM Machine.write {} := by
  have hmemory : ∀ m : Machine,
      (c.memory.map fun w => Write.word w.address w.value).foldlM Machine.write m =
        .ok (c.memory.foldl (fun m w => m.writeWord w.address w.value) m) := by
    intro m
    rw [List.foldlM_map]
    exact List.foldlM_pure
  unfold buildMachine writes
  rw [List.foldlM_append, List.foldlM_map]
  simp only [hmemory]
  rfl

/-- The keys are in the order of their bytes. -/
theorem pairwise_keys (c : Config) :
    (c.registers.toList.map Prod.fst).Pairwise fun k l => Text.bytes k < Text.bytes l := by
  rw [List.pairwise_map]
  refine c.registers.ordered_keys_toList.imp fun h => ?_
  exact Text.lt_iff_bytes_lt.mp (compareOfLessAndEq_eq_lt.mp h)

/-! ### Keys -/

/-- The spellings of a register. -/
theorem eq_name_of_registerName {key : String} {r : Register}
    (h : Register.ofName? (registerName key) = some r) : key = r.name ∨ key = "$" ++ r.name := by
  unfold registerName at h
  split at h
  · rename_i cs _ hkey
    refine Or.inr (String.toList_inj.mp ?_)
    simp [hkey, Register.name_of_ofName? h]
  · exact Or.inl (Register.name_of_ofName? h).symm

theorem ofName?_registerName_name (r : Register) :
    Register.ofName? (registerName r.name) = some r := by
  rw [registerName, Register.ofName?_name]
  exact Register.ofName?_name r

theorem ofName?_registerName_dollar (r : Register) :
    Register.ofName? (registerName ("$" ++ r.name)) = some r := by
  decide +revert

/-- A name comes after the same name with a dollar sign before it. -/
theorem dollar_lt_name (r : Register) : "$" ++ r.name < r.name := by
  decide +revert

/-! ### What a register holds at the start -/

variable {c : Config} {m : Machine} {r : Register}

/-- The last key that names a register has its value. -/
theorem register_of_last (h : c.buildMachine = .ok m) (hr : r ≠ .zero) {key : String}
    {value : UInt32} (hentry : c.registers[key]? = some value)
    (hkey : Register.ofName? (registerName key) = some r)
    (hlast : ∀ l w, c.registers[l]? = some w → key < l →
      Register.ofName? (registerName l) ≠ some r) : m.register r = value := by
  obtain ⟨before, after, hsplit⟩ :=
    List.append_of_mem (Std.ExtTreeMap.mem_toList_iff_getElem?_eq_some.mpr hentry)
  have hordered := c.registers.ordered_keys_toList
  rw [hsplit] at hordered
  have hafter := (List.pairwise_cons.mp (List.pairwise_append.mp hordered).2.1).1
  rw [buildMachine_eq, writes, hsplit, List.map_append, List.map_cons, List.append_assoc,
    List.cons_append] at h
  refine Machine.register_foldlM_last h hkey hr ?_
  rw [List.forall_mem_append, List.forall_mem_map, List.forall_mem_map]
  refine ⟨fun entry hmem => ?_, fun _ _ => id⟩
  have hin : entry ∈ c.registers.toList := by
    rw [hsplit]
    exact List.mem_append_right _ (List.mem_cons_of_mem _ hmem)
  exact hlast entry.1 entry.2 (Std.ExtTreeMap.mem_toList_iff_getElem?_eq_some.mp hin)
    (compareOfLessAndEq_eq_lt.mp (hafter entry hmem))

/-- **What a register holds at the start**: the value under its name, or else the one under its name
with a dollar sign, or else zero. The zero register holds zero. -/
theorem register_buildMachine (h : c.buildMachine = .ok m) (r : Register) :
    m.register r =
      if r = .zero then 0
      else (c.registers[r.name]?.or c.registers["$" ++ r.name]?).getD 0 := by
  by_cases hr : r = .zero
  · rw [if_pos hr, hr]
    rw [buildMachine_eq] at h
    exact (Machine.register_zero_foldlM h).trans (Machine.register_default _)
  rw [if_neg hr]
  cases hplain : c.registers[r.name]? with
  | some value =>
    refine register_of_last h hr hplain (ofName?_registerName_name r) fun l w _ hlt hl => ?_
    rcases eq_name_of_registerName hl with rfl | rfl
    · exact String.lt_irrefl _ hlt
    · exact String.lt_asymm hlt (dollar_lt_name r)
  | none =>
    cases hdollar : c.registers["$" ++ r.name]? with
    | some value =>
      refine register_of_last h hr hdollar (ofName?_registerName_dollar r) fun l w hw hlt hl => ?_
      rcases eq_name_of_registerName hl with rfl | rfl
      · exact absurd (hplain.symm.trans hw) (by simp)
      · exact String.lt_irrefl _ hlt
    | none =>
      rw [buildMachine_eq] at h
      refine (Machine.register_foldlM h ?_).trans (Machine.register_default r)
      rw [writes, List.forall_mem_append, List.forall_mem_map, List.forall_mem_map]
      refine ⟨fun entry hmem hnames => ?_, fun _ _ => id⟩
      have hentry := Std.ExtTreeMap.mem_toList_iff_getElem?_eq_some.mp hmem
      rcases eq_name_of_registerName hnames with hkey | hkey
      · rw [hkey, hplain] at hentry
        exact absurd hentry (by simp)
      · rw [hkey, hdollar] at hentry
        exact absurd hentry (by simp)

end Config

/-! ## The requests of a configuration -/

namespace Session

/-- Only the zero register has a name with a dollar sign. -/
theorem eq_zero_of_dollar {r : Register} {cs : List Char} (h : r.name.toList = '$' :: cs) :
    cs = ['0'] := by
  have hall : ∀ r : Register, r.name.toList.head? = some '$' → r.name.toList = ['$', '0'] := by
    decide
  have hname := hall r (by rw [h]; rfl)
  exact (List.cons.inj (h.symm.trans hname)).2

/-- **Both rules for keys find the same register**: the one of configurations, which looks a key up
before it drops a dollar sign, and the one of requests, which looks at what would be left. -/
theorem ofName?_registerName (key : String) :
    Register.ofName? (registerName key) = Register.ofName? (Config.registerName key) := by
  unfold registerName Config.registerName
  split
  · rename_i cs hkey
    by_cases hcs : cs = [] ∨ cs = ['0']
    · rw [if_pos hcs]
      obtain rfl : key = String.ofList ('$' :: cs) := by rw [← hkey, String.ofList_toList]
      rcases hcs with rfl | rfl <;> decide
    · rw [if_neg hcs]
      have hunknown : Register.ofName? key = none := by
        cases hfound : Register.ofName? key with
        | none => rfl
        | some r =>
          rw [← Register.name_of_ofName? hfound] at hkey
          exact absurd (Or.inr (eq_zero_of_dollar hkey)) hcs
      rw [hunknown, hkey]
      rfl
  · rename_i hkey
    split
    · rename_i cs _ hkey'
      exact absurd hkey' (hkey cs)
    · rfl

/-- The requests for the registers of a configuration, with the keys as they are spelled and in
their order, and then for its memory words, each four bytes wide. -/
def setup (c : Config) : List Request :=
  c.registers.toList.map (fun entry => .setRegister entry.1 entry.2) ++
    c.memory.map fun w => .writeMemory w.address w.value 4

/-- A session with another machine. -/
def withTarget (s : Session) (m : Machine) : Session := { s with target := m }

/-- A request does what a write of a configuration does. -/
def PerformsWrite (s : Session) (r : Request) (w : Machine.Write) : Prop :=
  Performs handle s.withTarget (some .done) Machine.write r w

/-- The key of a register is accepted by a session if and only if it is in a configuration. -/
theorem setRegister_eq_ok_iff {m m' : Machine} {key : String} {value : UInt32} :
    m.setRegister (registerName key) value = .ok m' ↔
      m.write (Config.registerWrite (key, value)) = .ok m' := by
  have hname := ofName?_registerName key
  rw [Config.registerWrite, Machine.write, Machine.setRegister, Machine.setRegister, hname]
  cases Register.ofName? (Config.registerName key) with
  | none => simp
  | some r => rfl

theorem performs_setRegister (s : Session) (entry : String × UInt32) :
    s.PerformsWrite (.setRegister entry.1 entry.2) (Config.registerWrite entry) := by
  constructor
  · intro m m' h
    rw [handle, withTarget, setRegister_eq_ok_iff.mpr h]
    rfl
  · intro m e h
    rw [handle, withTarget]
    cases hset : m.setRegister (registerName entry.1) entry.2 with
    | ok m' => exact absurd (h.symm.trans (setRegister_eq_ok_iff.mp hset)) (by simp)
    | error e' => exact fun hdone => nomatch hdone

theorem performs_writeMemory (s : Session) (w : MemoryWord) :
    s.PerformsWrite (.writeMemory w.address w.value 4) (.word w.address w.value) := by
  constructor
  · intro m m' h
    obtain rfl := Except.ok.inj h
    rfl
  · intro m e h
    exact absurd h (by simp [Machine.write])

theorem performs_map {α : Type} (s : Session) {request : α → Request} {write : α → Machine.Write}
    (h : ∀ a, s.PerformsWrite (request a) (write a)) (as : List α) :
    List.Forall₂ s.PerformsWrite (as.map request) (as.map write) := by
  rw [List.forall₂_map_left_iff, List.forall₂_map_right_iff, List.forall₂_same]
  exact fun a _ => h a

/-- **The requests of a configuration** do what its writes do, one by one. -/
theorem performs_setup (s : Session) (c : Config) :
    List.Forall₂ s.PerformsWrite (setup c) c.writes :=
  List.rel_append (s.performs_map s.performs_setRegister c.registers.toList)
    (s.performs_map s.performs_writeMemory c.memory)

/-- **A machine is set up by requests as it is by a configuration.** The keys of a configuration are
in the order of their bytes. A session with the same configuration but no machine section starts,
and answers the requests for the registers and memory words of the section, in order, all with
success if and only if the machine can be built. In this case it is then in the state of a session
that starts with the whole configuration, so it answers all later requests alike. Each register but
the zero register holds the value that is given under its name, or else the one under its name with
a dollar sign. -/
theorem answers_setup (c : Config) :
    (c.registers.toList.map Prod.fst).Pairwise (fun k l => Text.bytes k < Text.bytes l) ∧
    ∃ blank, ofConfig { c with registers := ∅, memory := [] } = .ok blank ∧
      ((∃ m, c.buildMachine = .ok m) ↔
        ∀ answer ∈ answers handle blank (setup c), answer = some .done) ∧
      ∀ m, c.buildMachine = .ok m →
        (stateAfter handle blank (setup c)).target = m ∧
        ofConfig c = .ok (stateAfter handle blank (setup c)) ∧
        (∀ later, answers handle blank (setup c ++ later) =
          (setup c).map (fun _ => some .done) ++ answers handle (Monitor.ofConfig m c) later) ∧
        ∀ r, m.register r =
          if r = .zero then 0
          else (c.registers[r.name]?.or c.registers["$" ++ r.name]?).getD 0 := by
  let blank : Session := Monitor.ofConfig {} c
  have hperforms := performs_setup blank c
  refine ⟨c.pairwise_keys, blank, ?_, ⟨fun ⟨m, hm⟩ => ?_, fun hall => ?_⟩, fun m hm => ?_⟩
  · rfl
  · rw [Config.buildMachine_eq] at hm
    have hanswers : answers handle blank (setup c) = (setup c).map fun _ => some .done :=
      (answers_of_performs hperforms hm).1
    rw [hanswers]
    exact List.forall_mem_map.mpr fun _ _ => rfl
  · rw [Config.buildMachine_eq]
    exact exists_ok_of_answers hperforms hall
  · have hrun := hm
    rw [Config.buildMachine_eq] at hrun
    obtain ⟨hanswers, hlast⟩ := answers_of_performs hperforms hrun
    have hstate : stateAfter handle blank (setup c) = Monitor.ofConfig m c := hlast
    refine ⟨by rw [hstate]; rfl, ?_, fun later => ?_, c.register_buildMachine hm⟩
    · rw [hstate, ofConfig, hm]
      rfl
    · rw [answers_append, hstate]
      exact congrArg (· ++ _) hanswers

/-- Register `a0` with and without a dollar sign, and two memory words of which the second one
begins in the first one and goes round the end of the address space. -/
theorem answers_setup_overlapping :
    let c : Config :=
      { registers := (∅ : Std.ExtTreeMap String UInt32).insert "a0" 1 |>.insert "$a0" 2
        memory := [⟨0xFFFFFFFC, 0x44332211⟩, ⟨0xFFFFFFFE, 0x88776655⟩] }
    ∃ m, c.buildMachine = .ok m ∧ m.register 10 = 1 ∧
      ofConfig c = .ok (stateAfter handle (Monitor.ofConfig {} c) (setup c)) := by
  intro c
  obtain ⟨m, hm⟩ : ∃ m, c.buildMachine = .ok m := ⟨_, rfl⟩
  obtain ⟨-, blank, hblank, -, hbuilt⟩ := answers_setup c
  obtain rfl : Monitor.ofConfig {} c = blank := Except.ok.inj hblank
  obtain ⟨-, hstate, -, hregister⟩ := hbuilt m hm
  refine ⟨m, hm, ?_, hstate⟩
  rw [hregister 10]
  decide

end Session

end MachineMonitor
