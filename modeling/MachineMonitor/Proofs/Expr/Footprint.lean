import MachineMonitor.Proofs.Expr.Program
import MachineMonitor.Proofs.Expr.Reading
import MachineMonitor.Proofs.Machine.Reference

/-!
# The footprint of an expression

The registers that an expression takes words from are named in its text. The bytes that it takes
from the memory are not: an address may be computed from registers and from other bytes. But they
are known once it has been evaluated, from the addresses at which its dereferences found their
words. A machine that differs elsewhere only gives the same value or the same error, and reads the
same bytes on the way.

Results:
* `exists_value_of_mem_bytesRead`: which bytes are read.
* `run_eq_of_footprint`: one instruction on machines that agree on its footprint.
* `evaluate_eq_of_footprint`: one text on machines that agree on its footprint.
-/

namespace MachineMonitor

/-- A load takes nothing from other bytes than its own. -/
theorem Memory.load_congr {m m' : Memory} {a : UInt32} {width : Nat}
    (h : ∀ i < width, m'.byte (a + UInt32.ofNat i) = m.byte (a + UInt32.ofNat i)) :
    m'.load a width = m.load a width := by
  unfold load
  refine List.foldr_ext _ _ _ fun i hi rest => ?_
  rw [h i (List.mem_range.mp hi)]

namespace Expr

/-! ## Footprints -/

/-- The registers that a text names. -/
def namedRegisters (limits : Limits) (input : String) : List String :=
  match tokenize limits input with
  | .ok b => (b.tokens.filter (·.kind == .register)).map fun token => registerName token.text
  | .error _ => []

/-- The addresses of the bytes that an instruction reads: those of a word, round the end of the
address space. -/
def Instruction.bytesRead : Instruction → List UInt32 → List UInt32
  | .unary .dereference, address :: _ =>
    (List.range wordBytes.toNat).map fun i => address + UInt32.ofNat i
  | _, _ => []

/-- The addresses of the bytes that are read while a text is evaluated. -/
def bytesRead {τ : Type} [Target τ] (t : τ) (limits : Limits) (input : String) : List UInt32 :=
  (evaluationSteps t limits input).flatMap fun (i, stack) => i.bytesRead stack

/-- Only a dereference reads bytes. -/
theorem Instruction.exists_of_mem_bytesRead {i : Instruction} {stack : List UInt32} {a : UInt32}
    (h : a ∈ i.bytesRead stack) :
    ∃ address rest k, i = .unary .dereference ∧ stack = address :: rest ∧ k < wordBytes.toNat ∧
      a = address + UInt32.ofNat k := by
  unfold bytesRead at h
  split at h
  · rename_i address rest
    obtain ⟨k, hk, ha⟩ := List.mem_map.mp h
    exact ⟨address, rest, k, rfl, rfl, List.mem_range.mp hk, ha.symm⟩
  · exact absurd h List.not_mem_nil

/-- **A byte that is read belongs to the word at the value of a part** of the expression. -/
theorem exists_value_of_mem_bytesRead {τ : Type} [Target τ] {t : τ} {limits : Limits}
    {input : String} {a : UInt32} (h : a ∈ bytesRead t limits input) :
    ∃ b part value k, tokenize limits input = .ok b ∧ part <:+: b.markUnary.tokens ∧
      evalTokens t part = .ok value ∧ k < wordBytes.toNat ∧ a = value + UInt32.ofNat k := by
  unfold bytesRead evaluationSteps at h
  cases htok : tokenize limits input with
  | error e =>
    rw [htok] at h
    exact absurd h List.not_mem_nil
  | ok b =>
    rw [htok] at h
    obtain ⟨⟨i, stack⟩, hstep, ha⟩ := List.mem_flatMap.mp h
    obtain ⟨address, rest, k, rfl, rfl, hk, ha⟩ := Instruction.exists_of_mem_bytesRead ha
    obtain ⟨part, value, hpart, hvalue, hhead⟩ := exists_value_of_mem_steps t hstep
    obtain rfl := Option.some.inj hhead
    exact ⟨b, part, address, k, rfl, hpart, hvalue, hk, ha⟩

/-! ## One instruction -/

theorem applyUnary_eq_of_footprint {m m' : Machine} {kind : TokenKind} {a : UInt32}
    {stack : List UInt32}
    (hbytes : ∀ b ∈ (Instruction.unary kind).bytesRead (a :: stack),
      m'.memory.byte b = m.memory.byte b) :
    applyUnary m' kind a = applyUnary m kind a := by
  cases kind with
  | dereference =>
    refine Memory.load_congr fun i hi => hbytes _ ?_
    exact List.mem_map.mpr ⟨i, List.mem_range.mpr hi, rfl⟩
  | _ => rfl

theorem evalOperand_eq_of_register {m m' : Machine} {token : Token}
    (hregister : token.kind = .register →
      m'.readRegister (registerName token.text) = m.readRegister (registerName token.text)) :
    evalOperand m' token = evalOperand m token := by
  cases hk : token.kind with
  | register =>
    have hread : Target.readRegister m' (registerName token.text) =
        Target.readRegister m (registerName token.text) := hregister hk
    simp only [evalOperand, hk, hread]
  | _ => simp only [evalOperand, hk]

/-- **One instruction on machines that agree on its footprint.** -/
theorem run_eq_of_footprint {m m' : Machine} {i : Instruction} {stack : List UInt32}
    (hregister : ∀ token, i = .operand token → token.kind = .register →
      m'.readRegister (registerName token.text) = m.readRegister (registerName token.text))
    (hbytes : ∀ b ∈ i.bytesRead stack, m'.memory.byte b = m.memory.byte b) :
    i.run m' stack = i.run m stack := by
  cases i with
  | operand token =>
    rw [Instruction.run, Instruction.run, evalOperand_eq_of_register (hregister token rfl)]
  | unary kind =>
    cases stack with
    | nil => rfl
    | cons a stack =>
      rw [Instruction.run, Instruction.run, applyUnary_eq_of_footprint hbytes]
  | binary kind =>
    match stack with
    | [] | [_] | _ :: _ :: _ => rfl
  | refuse => rfl

/-! ## One text -/

/-- **One text on machines that agree on its footprint.** -/
theorem evaluate_eq_of_footprint {limits : Limits} {m m' : Machine} {input : String}
    (hregisters : ∀ name ∈ namedRegisters limits input,
      m'.readRegister name = m.readRegister name)
    (hbytes : ∀ a ∈ bytesRead m limits input, m'.memory.byte a = m.memory.byte a) :
    evaluate limits m' input = evaluate limits m input := by
  unfold namedRegisters at hregisters
  unfold bytesRead evaluationSteps at hbytes
  unfold evaluate
  cases htok : tokenize limits input with
  | error e => rfl
  | ok b =>
    rw [htok] at hregisters hbytes
    have hsame : execute m' (program b.markUnary.tokens) [] =
        execute m (program b.markUnary.tokens) [] := by
      refine execute_congr m fun step hstep => run_eq_of_footprint ?_ fun a ha => ?_
      · intro token hi hk
        have hmem : Instruction.operand token ∈ program b.markUnary.tokens :=
          (steps_prefix_code m _ []).subset (hi ▸ List.mem_map_of_mem hstep)
        have htoken : token ∈ b.tokens :=
          mem_of_mem_markUnary (mem_of_operand_mem_program hmem) (by rw [hk]; rfl)
        exact hregisters _ (List.mem_map.mpr
          ⟨token, List.mem_filter.mpr ⟨htoken, beq_iff_eq.mpr hk⟩, rfl⟩)
      · exact hbytes a (List.mem_flatMap.mpr ⟨step, hstep, ha⟩)
    rw [execute_program, execute_program] at hsame
    exact eq_of_pushed hsame

end Expr

end MachineMonitor
