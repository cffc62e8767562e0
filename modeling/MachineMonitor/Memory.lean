import Std.Data.ExtTreeMap

/-!
# Byte memory

Model of the byte map of `SimpleMachine` and of `read_bytes`: a sparse memory over the whole 32-bit
address space. Bytes that were never written read as zero, words are little-endian, and addresses
wrap around at the end of the space.

Idealised: there is memory for all bytes that are written.

Results:
* `Memory.byte_set`: a byte write is seen at its own address and nowhere else.
-/

namespace MachineMonitor

/-- A memory word and its address. -/
structure MemoryWord where
  address : UInt32
  value : UInt32
  deriving DecidableEq, Repr

/-- The bytes that were written, by address. -/
structure Memory where
  written : Std.ExtTreeMap UInt32 UInt8 := ∅
  deriving DecidableEq

namespace Memory

/-- The byte at an address; zero if it was never written. -/
def byte (m : Memory) (address : UInt32) : UInt8 := m.written.getD address 0

/-- Writes one byte. -/
def set (m : Memory) (address : UInt32) (value : UInt8) : Memory :=
  { written := m.written.insert address value }

/-- Byte `i` of a word, the least significant byte first. -/
def byteOf (value : UInt32) (i : Nat) : UInt8 := (value >>> UInt32.ofNat (8 * i)).toUInt8

/-- Writes the low `width` bytes of a value, the least significant one at `address`. -/
def store (m : Memory) (address : UInt32) (width : Nat) (value : UInt32) : Memory :=
  (List.range width).foldl (fun m i => m.set (address + UInt32.ofNat i) (byteOf value i)) m

/-- Reads `width` bytes as one value, the byte at `address` being the least significant one. -/
def load (m : Memory) (address : UInt32) (width : Nat) : UInt32 :=
  (List.range width).foldr
    (fun i rest => (m.byte (address + UInt32.ofNat i)).toUInt32 + 256 * rest) 0

@[simp] theorem byte_empty (a : UInt32) : byte {} a = 0 := by simp [byte]

theorem byte_set (m : Memory) (a b : UInt32) (v : UInt8) :
    (m.set a v).byte b = if a = b then v else m.byte b := by
  simp [byte, set, Std.ExtTreeMap.getD_insert]

end Memory

end MachineMonitor
