import Mathlib.Data.BitVec

/-!
# Machine Types and Machine Words

The value types every layer of the compiler shares (`MachineType.hpp`), and the 64-bit
machine word in which registers, stack slots and link-data cells hold a value. A value
of a 32-bit type occupies the low half of a word only; `MachineType.carried` is the part
of a word that a value of the type consists of, and so what a move of that type carries
from its source to its target.
-/

namespace WasmCompiler

/-- The content of one register, stack slot or link-data cell. -/
abbrev Word : Type := BitVec 64

/-- The machine type of a variable. -/
inductive MachineType where
  | invalid
  | i32
  | i64
  | f32
  | f64
  deriving DecidableEq, Repr

namespace MachineType

/-- The size of a value of the type in bytes; `0` for the unsupported ones. -/
def getSize : MachineType → ℕ
  | i32 | f32 => 4
  | i64 | f64 => 8
  | invalid => 0

/-- Whether the type is an integer type. -/
def isInt : MachineType → Bool
  | i32 | i64 => true
  | _ => false

/-- Whether a value of the type is 64 bits wide. -/
def is64 : MachineType → Bool
  | i64 | f64 => true
  | _ => false

/-- The part of a word that a value of the type consists of: its low `getSize` bytes. -/
def carried (machineType : MachineType) (w : Word) : Word :=
  (w.setWidth (8 * machineType.getSize)).setWidth 64

/-- A 64-bit value is the whole word. -/
@[simp] theorem carried_of_is64 {machineType : MachineType} (h : machineType.is64 = true)
    (w : Word) : machineType.carried w = w := by
  cases machineType <;> simp_all [is64, carried, getSize]

/-- Carrying a value a second time changes nothing. -/
@[simp] theorem carried_carried (machineType : MachineType) (w : Word) :
    machineType.carried (machineType.carried w) = machineType.carried w := by
  have hk : 8 * machineType.getSize ≤ 64 := by cases machineType <;> simp [getSize]
  simp only [carried]
  rw [BitVec.setWidth_setWidth_of_le _ hk, BitVec.setWidth_eq]

end MachineType

end WasmCompiler
