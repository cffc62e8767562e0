import Mathlib.Algebra.BigOperators.Ring.Finset
import Mathlib.Tactic.Ring
import MachineMonitor.Memory

/-!
# What a store writes and a load reads

A store of some bytes from an address on is seen at the addresses of these bytes, counted round the
end of the address space, and nowhere else. A load has the value of its bytes to the base 256.

Results:
* `byte_store`: every byte of the memory after a store.
* `toNat_load`: a load of up to four bytes is the sum of its bytes, each with its weight.
-/

namespace MachineMonitor.Memory

/-! ## Stores -/

/-- A byte of a value is a digit of it to the base 256. -/
theorem byteOf_eq (value : UInt32) {i : Nat} (hi : i < 4) :
    byteOf value i = UInt8.ofNat (value.toNat / 256 ^ i) := by
  have hshift : (UInt32.ofNat (8 * i)).toNat % 32 = 8 * i := by
    rw [UInt32.toNat_ofNat']
    omega
  have hpow : 2 ^ (8 * i) = 256 ^ i := by
    rw [pow_mul]
    rfl
  apply UInt8.toNat.inj
  rw [byteOf, UInt32.toNat_toUInt8, UInt32.toNat_shiftRight, hshift, Nat.shiftRight_eq_div_pow,
    hpow, UInt8.toNat_ofNat']

theorem store_succ (m : Memory) (a : UInt32) (width : Nat) (value : UInt32) :
    m.store a (width + 1) value =
      (m.store a width value).set (a + UInt32.ofNat width) (byteOf value width) := by
  rw [store, List.range_succ, List.foldl_append]
  rfl

/-- An address lies so many bytes behind another one, counted round the end of the space. -/
theorem offset_eq_iff {a b : UInt32} {i : Nat} (hi : i < UInt32.size) :
    a + UInt32.ofNat i = b ↔ (b - a).toNat = i := by
  constructor
  · rintro rfl
    rw [UInt32.add_comm, UInt32.add_sub_cancel, UInt32.toNat_ofNat_of_lt' hi]
  · rintro rfl
    rw [UInt32.ofNat_toNat, UInt32.add_comm, UInt32.sub_add_cancel]

/-- **Every byte after a store**: those of the value where they were written, and elsewhere the
bytes that were there. -/
theorem byte_store (m : Memory) (a : UInt32) {width : Nat} (hwidth : width ≤ UInt32.size)
    (value b : UInt32) :
    (m.store a width value).byte b =
      if (b - a).toNat < width then byteOf value (b - a).toNat else m.byte b := by
  induction width with
  | zero => rfl
  | succ width ih =>
    rw [store_succ, byte_set, ih (by omega)]
    by_cases hb : (b - a).toNat = width
    · rw [if_pos ((offset_eq_iff (by omega)).mpr hb), if_pos (by omega), hb]
    · have hne : ¬ a + UInt32.ofNat width = b := fun h => hb ((offset_eq_iff (by omega)).mp h)
      have hlt : (b - a).toNat < width + 1 ↔ (b - a).toNat < width := by omega
      rw [if_neg hne]
      simp only [hlt]

/-! ## Loads -/

/-- The address after the first one of a run is the first one of the rest of the run. -/
theorem add_ofNat_succ (a : UInt32) (i : Nat) :
    a + UInt32.ofNat (i + 1) = a + 1 + UInt32.ofNat i := by
  rw [UInt32.ofNat_add, UInt32.add_comm (UInt32.ofNat i), ← UInt32.add_assoc]
  rfl

theorem load_succ (m : Memory) (a : UInt32) (width : Nat) :
    m.load a (width + 1) = (m.byte a).toUInt32 + 256 * m.load (a + 1) width := by
  have hfirst : a + UInt32.ofNat 0 = a := UInt32.add_zero a
  rw [load, load, List.range_succ_eq_map, List.foldr_cons, List.foldr_map, hfirst]
  simp only [Nat.succ_eq_add_one, add_ofNat_succ]

/-- Digits to the base 256 make less than the next power of 256. -/
theorem sum_digits_lt (digit : Nat → UInt8) (width : Nat) :
    ∑ i ∈ Finset.range width, (digit i).toNat * 256 ^ i < 256 ^ width := by
  induction width with
  | zero => exact Nat.one_pos
  | succ width ih =>
    have hdigit : (digit width).toNat ≤ 255 := Nat.le_of_lt_succ (digit width).toNat_lt
    calc ∑ i ∈ Finset.range (width + 1), (digit i).toNat * 256 ^ i
        = ∑ i ∈ Finset.range width, (digit i).toNat * 256 ^ i
            + (digit width).toNat * 256 ^ width := Finset.sum_range_succ _ _
      _ < 256 ^ width + 255 * 256 ^ width :=
          Nat.add_lt_add_of_lt_of_le ih (Nat.mul_le_mul_right _ hdigit)
      _ = 256 ^ (width + 1) := by ring

/-- The first byte of a run stands for itself and the others count 256 times as much as in the rest
of the run. -/
theorem sum_bytes_succ (m : Memory) (a : UInt32) (width : Nat) :
    ∑ i ∈ Finset.range (width + 1), (m.byte (a + UInt32.ofNat i)).toNat * 256 ^ i =
      (m.byte a).toNat +
        256 * ∑ i ∈ Finset.range width, (m.byte (a + 1 + UInt32.ofNat i)).toNat * 256 ^ i := by
  have hfirst : a + UInt32.ofNat 0 = a := UInt32.add_zero a
  rw [Finset.sum_range_succ', hfirst, pow_zero, mul_one, Nat.add_comm, Finset.mul_sum]
  congr 1
  refine Finset.sum_congr rfl fun i _ => ?_
  rw [add_ofNat_succ, pow_succ]
  ring

/-- **A load of up to four bytes is the sum of its bytes**, each with its weight. -/
theorem toNat_load (m : Memory) (a : UInt32) {width : Nat} (hwidth : width ≤ 4) :
    (m.load a width).toNat =
      ∑ i ∈ Finset.range width, (m.byte (a + UInt32.ofNat i)).toNat * 256 ^ i := by
  induction width generalizing a with
  | zero => rfl
  | succ width ih =>
    have hrest := ih (a + 1) (by omega)
    have hlt := sum_digits_lt (fun i => m.byte (a + UInt32.ofNat i)) (width + 1)
    -- four bytes fit a word, so nothing is lost when they are put together
    have hword : 256 ^ (width + 1) ≤ 2 ^ 32 := Nat.pow_le_pow_right (by decide) hwidth
    rw [sum_bytes_succ, ← hrest] at hlt
    have hweight : (256 : UInt32).toNat = 256 := rfl
    rw [sum_bytes_succ, ← hrest, load_succ, UInt32.toNat_add, UInt32.toNat_mul, hweight,
      UInt8.toNat_toUInt32]
    omega

end MachineMonitor.Memory
