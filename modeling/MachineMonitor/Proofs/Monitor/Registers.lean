import MachineMonitor.Monitor
import MachineMonitor.Proofs.Expr.Printing
import MachineMonitor.Proofs.Expr.Priority
import MachineMonitor.Proofs.Expr.Reading
import MachineMonitor.Proofs.Expr.Segmentation
import MachineMonitor.Proofs.Machine.Reference

/-!
# Registers in expressions

The lexical rule for registers and the table of their names are written down independently. They
describe the same names, so a register that is read from a text is a register of the machine.

Results:
* `Register.mem_registerNames_iff`: the names that the rule tries are the names of the table.
* `Expr.matched?_register_iff`: after a dollar sign the rule matches the longest name there.
* `Expr.evaluate_ne_unknownRegister`: no text asks the machine for a register it does not have.
* `Expr.evaluate_register_iff`: a register by itself, with any number of spaces around it.
* `Monitor.registers_in_texts`: all of this, for the registers that a monitor lists.
-/

namespace MachineMonitor

/-! ## Two lists of names -/

namespace Register

/-- **The names that the rule tries** are the names of the table. -/
theorem mem_registerNames_iff {cs : List Char} :
    cs ∈ Expr.Rule.registerNames ↔ ∃ name ∈ names.toList, cs = name.toList := by
  have htable : ∀ cs ∈ Expr.Rule.registerNames, String.ofList cs ∈ names.toList := by decide
  have hrule : ∀ name ∈ names.toList, name.toList ∈ Expr.Rule.registerNames := by decide
  constructor
  · intro h
    exact ⟨String.ofList cs, htable cs h, String.toList_ofList.symm⟩
  · rintro ⟨name, hname, rfl⟩
    exact hrule name hname

/-- The longest register name that stands at the beginning of a text. -/
structure IsLongestName (name : String) (cs : List Char) : Prop where
  known : name ∈ names.toList
  front : name.toList <+: cs
  le : ∀ other ∈ names.toList, other.toList <+: cs → other.length ≤ name.length

end Register

namespace Expr

theorem mem_register_language_iff {u : List Char} :
    u ∈ Rule.register.language ↔ ∃ name ∈ Register.names.toList, u = '$' :: name.toList := by
  rw [Rule.mem_register]
  constructor
  · rintro ⟨cs, hcs, rfl⟩
    obtain ⟨name, hname, rfl⟩ := Register.mem_registerNames_iff.mp hcs
    exact ⟨name, hname, rfl⟩
  · rintro ⟨name, hname, rfl⟩
    exact ⟨name.toList, Register.mem_registerNames_iff.mpr ⟨name, hname, rfl⟩, rfl⟩

/-- **After a dollar sign** the rule for registers matches the longest name that stands there. -/
theorem matched?_register_iff {cs u : List Char} :
    Rule.register.matched? ('$' :: cs) = some u ↔
      ∃ name, Register.IsLongestName name cs ∧ u = '$' :: name.toList := by
  rw [Rule.matched?_eq_some_iff]
  constructor
  · rintro ⟨hu, hpre, hle⟩
    obtain ⟨name, hname, rfl⟩ := mem_register_language_iff.mp hu
    refine ⟨name, ⟨hname, (List.cons_prefix_cons.mp hpre).2, fun other hother hfront => ?_⟩, rfl⟩
    have hlonger := hle ('$' :: other.toList)
      (mem_register_language_iff.mpr ⟨other, hother, rfl⟩)
      (List.cons_prefix_cons.mpr ⟨rfl, hfront⟩)
    exact Nat.le_of_succ_le_succ hlonger
  · rintro ⟨name, ⟨hname, hfront, hle⟩, rfl⟩
    refine ⟨mem_register_language_iff.mpr ⟨name, hname, rfl⟩,
      List.cons_prefix_cons.mpr ⟨rfl, hfront⟩, fun v hv hpre => ?_⟩
    obtain ⟨other, hother, rfl⟩ := mem_register_language_iff.mp hv
    exact Nat.succ_le_succ (hle other hother (List.cons_prefix_cons.mp hpre).2)

theorem matched?_register_eq_none_iff {cs : List Char} :
    Rule.register.matched? ('$' :: cs) = none ↔
      ∀ name ∈ Register.names.toList, ¬ name.toList <+: cs := by
  rw [Rule.matched?_eq_none_iff]
  constructor
  · intro h name hname hfront
    exact h _ (mem_register_language_iff.mpr ⟨name, hname, rfl⟩)
      (List.cons_prefix_cons.mpr ⟨rfl, hfront⟩)
  · intro h u hu hpre
    obtain ⟨name, hname, rfl⟩ := mem_register_language_iff.mp hu
    exact h name hname (List.cons_prefix_cons.mp hpre).2

/-! ## No unknown registers -/

/-- A token for a register that is read from a text spells a register. -/
theorem exists_spells_register {t : Token} (hk : t.kind = .register)
    (h : t.text.toList ∈ t.kind.language) : ∃ r : Register, Spells t (.register r) := by
  obtain ⟨kind, text⟩ := t
  obtain rfl : kind = .register := hk
  obtain ⟨rule, hrule, hmem⟩ := h
  obtain rfl : rule = .register := by
    cases rule <;> first | rfl | exact absurd hrule (by simp [Rule.kind?])
  obtain ⟨name, hname, htext⟩ := mem_register_language_iff.mp hmem
  rw [Register.toList_names] at hname
  obtain ⟨r, -, rfl⟩ := List.mem_map.mp hname
  exact ⟨r, .register htext⟩

theorem readRegister_name (m : Machine) (r : Register) :
    Target.readRegister m r.name = .ok (m.register r) := by
  show m.readRegister r.name = _
  rw [Machine.readRegister, Register.ofName?_name]

/-- A token that asks for a register which the machine does not have is a register token. -/
theorem kind_of_unknownRegister {m : Machine} {token : Token} {name : String}
    (h : evalOperand m token = .error (.unknownRegister name)) : token.kind = .register := by
  cases hk : token.kind with
  | register => rfl
  | number =>
    simp only [evalOperand, hk] at h
    split at h <;> exact absurd h (by simp)
  | hexNumber =>
    simp only [evalOperand, hk] at h
    split at h
    · split at h <;> exact absurd h (by simp)
    · exact absurd h (by simp)
  | _ =>
    simp only [evalOperand, hk] at h
    exact absurd h (by simp)

/-- **No text asks for an unknown register.** -/
theorem evaluate_ne_unknownRegister (limits : Limits) (m : Machine) (input name : String) :
    evaluate limits m input ≠ .error (.unknownRegister name) := by
  intro h
  unfold evaluate at h
  cases htok : tokenize limits input with
  | error e =>
    rw [htok] at h
    exact absurd h (by simp)
  | ok b =>
    rw [htok] at h
    cases hasFault_of_evalTokens h with
    | @operand token _ hmem hoperand =>
      have hkind := kind_of_unknownRegister hoperand
      have ht : token ∈ b.tokens := mem_of_mem_markUnary hmem (by rw [hkind]; rfl)
      obtain ⟨-, -, rfl⟩ := tokenize_eq_ok_iff.mp htok
      obtain ⟨_, _, -, -, hmunches, -⟩ := exists_scan input
      obtain ⟨r, hr⟩ := exists_spells_register hkind (hmunches.mem_language token ht)
      rw [evalOperand_of_spells m hr, Atom.denote, readRegister_name] at hoperand
      exact absurd hoperand (by simp [Except.mapError])

/-! ## A register by itself -/

/-- A text with one register, and spaces around it, has one token. -/
theorem scan_register (r : Register) (before after : Nat) :
    let input := spaces before ++ ("$" ++ r.name) ++ spaces after
    (scan input).tokens = [⟨.register, "$" ++ r.name⟩] ∧ (scan input).stuckAt = none := by
  intro input
  have htext : ("$" ++ r.name).toList = '$' :: r.name.toList := by simp
  have hspelled : ∀ t ∈ [(⟨.register, "$" ++ r.name⟩ : Token)], Spelled t.kind t.text.toList := by
    rw [List.forall_mem_singleton, htext]
    exact .register r
  have hspaced : Spaced [⟨.register, "$" ++ r.name⟩] input.toList := by
    have hafter : Spaced [] (List.replicate after ' ') := by
      simpa using Spaced.nil.replicate after
    have hinput : input.toList = List.replicate before ' ' ++
        (("$" ++ r.name).toList ++ List.replicate after ' ') := by
      simp [input, spaces]
    rw [hinput]
    exact (Spaced.token hafter).replicate before
  have halternates : Alternates false [⟨.register, "$" ++ r.name⟩] := ⟨rfl, trivial⟩
  exact tokens_scanFrom hspaced hspelled halternates 0

/-- **A register by itself**, with any number of spaces around it, has its value, if its token is
within the limits. -/
theorem evaluate_register_iff (limits : Limits) (m : Machine) (r : Register) (before after : Nat) :
    evaluate limits m (spaces before ++ ("$" ++ r.name) ++ spaces after) = .ok (m.register r) ↔
      limits.Fit [⟨.register, "$" ++ r.name⟩] := by
  obtain ⟨htok, hstuck⟩ := scan_register r before after
  have hspells : Spells ⟨.register, "$" ++ r.name⟩ (.register r) := .register (by simp)
  unfold evaluate
  constructor
  · intro h
    cases htokenize : tokenize limits (spaces before ++ ("$" ++ r.name) ++ spaces after) with
    | error e =>
      rw [htokenize] at h
      exact absurd h (by simp)
    | ok b =>
      rw [← htok]
      exact (tokenize_eq_ok_iff.mp htokenize).2.1
  · intro hfit
    have hok := tokenize_eq_ok_iff.mpr ⟨hstuck, htok ▸ hfit, rfl⟩
    rw [hok, htok]
    show evalTokens m [⟨.register, "$" ++ r.name⟩] = _
    rw [evalTokens_singleton, evalOperand_of_spells m hspells, Atom.denote, readRegister_name]
    rfl

end Expr

/-! ## The registers of a monitor -/

namespace Monitor

open MachineMonitor.Expr

theorem registers_eq_map (m : Monitor Machine) :
    m.registers = Register.all.map fun r => ⟨r.name, m.target.register r⟩ := by
  unfold registers
  refine List.map_congr_left fun r _ => ?_
  rw [readRegister_name]

/-- **The registers in texts are those of the machine.** After a dollar sign, the rule for registers
matches the first text that its expression tries there. This is the longest name of the table with
which the text goes on, and there is none only if the text goes on with no name. So no text asks a
machine for a register that it does not have, whatever the limits are. A register by itself, with
any number of spaces around it, has the value that the monitor lists under its name, if and only if
the limits leave room for its token. -/
theorem registers_in_texts :
    (∀ cs : List Char,
      Rule.register.regex.first? ('$' :: cs) = Rule.register.matched? ('$' :: cs) ∧
      (∀ u, Rule.register.matched? ('$' :: cs) = some u ↔
        ∃ name, Register.IsLongestName name cs ∧ u = '$' :: name.toList) ∧
      (Rule.register.matched? ('$' :: cs) = none ↔
        ∀ name ∈ Register.names.toList, ¬ name.toList <+: cs)) ∧
    (∀ (limits : Limits) (m : Machine) (input name : String),
      Expr.evaluate limits m input ≠ .error (.unknownRegister name)) ∧
    ∀ m : Monitor Machine, m.registers.map (·.name) = Register.names.toList ∧
      ∀ entry ∈ m.registers, ∀ before after : Nat,
        (m.evaluate (spaces before ++ ("$" ++ entry.name) ++ spaces after) = .ok entry.value ↔
          m.limits.Fit [⟨.register, "$" ++ entry.name⟩]) := by
  refine ⟨fun cs => ⟨Rule.register.first?_regex _, fun u => matched?_register_iff,
    matched?_register_eq_none_iff⟩, evaluate_ne_unknownRegister, fun m => ⟨?_, ?_⟩⟩
  · rw [registers_eq_map, List.map_map, Register.toList_names]
    rfl
  · intro entry hentry before after
    rw [registers_eq_map] at hentry
    obtain ⟨r, -, rfl⟩ := List.mem_map.mp hentry
    exact evaluate_register_iff m.limits m.target r before after

/-- Register `s10` with spaces around it, where the table has `s1` as well. -/
theorem registers_in_texts_s10 :
    let m : Monitor Machine :=
      { target := { registers := (Vector.replicate 32 0).set 26 7 }, limits := { maxTokens := 1 } }
    ⟨"s10", 7⟩ ∈ m.registers ∧ m.limits.Fit [⟨.register, "$s10"⟩] ∧
      m.evaluate "  $s10 " = .ok 7 := by
  intro m
  have hentry : ⟨"s10", 7⟩ ∈ m.registers := by decide
  have hfit : m.limits.Fit [⟨.register, "$s10"⟩] := ⟨by decide, by decide⟩
  obtain ⟨-, -, hmonitor⟩ := registers_in_texts
  exact ⟨hentry, hfit, ((hmonitor m).2 _ hentry 2 1).mpr hfit⟩

end Monitor

end MachineMonitor
