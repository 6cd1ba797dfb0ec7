import WasmCompiler.MachineType
import Mathlib.Logic.Function.Basic

/-!
# Variable Storages

`VariableStorage` is the compiler's description of where a value lives: a register, a
slot of the current stack frame, a cell of the link data, or nowhere at all because it is
a constant. `Cell` names the storages that exist at run time, `MachineState` gives their
contents, and `VariableStorage.value` reads a storage in a state.

## Main results

* `inSameLocation_iff_cell`: two storages of which the first is a register or memory
  location are in the same location exactly when they denote the same cell.
-/

namespace WasmCompiler

variable {TReg : Type}

/-- A place that holds a word at run time. -/
inductive Cell (TReg : Type) where
  | stackMemory (stackFramePosition : UInt32)
  | linkData (linkDataOffset : UInt32)
  | register (reg : TReg)
  deriving DecidableEq, Repr

/-- The contents of all registers, stack slots and link-data cells. -/
abbrev MachineState (TReg : Type) : Type := Cell TReg → Word

/-- The location of a variable; the constructor is the source's `StorageType` and the
argument the active member of its `Location` union. -/
inductive StorageLocation (TReg : Type) where
  | stackMemory (stackFramePosition : UInt32)
  | linkData (linkDataOffset : UInt32)
  | register (reg : TReg)
  | constant (constUnion : Word)
  | invalid
  deriving DecidableEq, Repr

/-- The storage location of a variable together with the type of the stored data. -/
structure VariableStorage (TReg : Type) where
  machineType : MachineType
  location : StorageLocation TReg
  deriving DecidableEq, Repr

namespace StorageLocation

/-- The cell a location denotes, if it denotes one. -/
def cell? : StorageLocation TReg → Option (Cell TReg)
  | stackMemory stackFramePosition => some (.stackMemory stackFramePosition)
  | linkData linkDataOffset => some (.linkData linkDataOffset)
  | register reg => some (.register reg)
  | constant _ => none
  | invalid => none

/-- Two locations that denote the same cell are equal. -/
theorem cell?_inj {a b : StorageLocation TReg} {c : Cell TReg} (ha : a.cell? = some c)
    (hb : b.cell? = some c) : a = b := by
  cases a <;> cases b <;> simp_all [cell?] <;> cases c <;> simp_all

end StorageLocation

namespace VariableStorage

/-- The default-constructed storage. -/
def none : VariableStorage TReg := ⟨.invalid, .invalid⟩

/-- A register storage. -/
def reg (machineType : MachineType) (r : TReg) : VariableStorage TReg :=
  ⟨machineType, .register r⟩

/-- A stack memory storage. -/
def stackMemory (machineType : MachineType) (stackFramePosition : UInt32) :
    VariableStorage TReg :=
  ⟨machineType, .stackMemory stackFramePosition⟩

/-- A link data storage. -/
def linkData (machineType : MachineType) (linkDataOffset : UInt32) : VariableStorage TReg :=
  ⟨machineType, .linkData linkDataOffset⟩

/-- A constant of the given type and raw value. -/
def const (machineType : MachineType) (constUnion : Word) : VariableStorage TReg :=
  ⟨machineType, .constant constUnion⟩

/-- The cell of a storage. -/
def cell? (s : VariableStorage TReg) : Option (Cell TReg) := s.location.cell?

/-- Whether this location kind is supported by the parallel move resolver. -/
def isParallelMoveLocation (s : VariableStorage TReg) : Bool :=
  match s.location with
  | .register _ | .stackMemory _ | .linkData _ => true
  | _ => false

/-- Whether the storage is a constant. -/
def isConstant (s : VariableStorage TReg) : Bool :=
  match s.location with
  | .constant _ => true
  | _ => false

/-- Whether two storages are in the same location, whatever their machine types. Constants
are compared by the bytes of the first one's type. -/
def inSameLocation [DecidableEq TReg] (s other : VariableStorage TReg) : Bool :=
  match s.location, other.location with
  | .constant a, .constant b => s.machineType.carried a == s.machineType.carried b
  | .register a, .register b => a == b
  | .stackMemory a, .stackMemory b => a == b
  | .linkData a, .linkData b => a == b
  | _, _ => false

/-- The value a storage holds in a machine state, at the storage's type. -/
def value (σ : MachineState TReg) (s : VariableStorage TReg) : Word :=
  match s.location with
  | .constant c => s.machineType.carried c
  | .stackMemory p => s.machineType.carried (σ (.stackMemory p))
  | .linkData p => s.machineType.carried (σ (.linkData p))
  | .register r => s.machineType.carried (σ (.register r))
  | .invalid => 0

/-- A parallel-move location denotes a cell, and only those do. -/
theorem isParallelMoveLocation_iff {s : VariableStorage TReg} :
    s.isParallelMoveLocation = true ↔ ∃ c, s.cell? = some c := by
  obtain ⟨mt, loc⟩ := s
  cases loc <;> simp [isParallelMoveLocation, cell?, StorageLocation.cell?]

/-- A storage with a cell holds what the cell holds, at the storage's type. -/
theorem value_of_cell {s : VariableStorage TReg} {c : Cell TReg} (h : s.cell? = some c)
    (σ : MachineState TReg) : s.value σ = s.machineType.carried (σ c) := by
  obtain ⟨mt, loc⟩ := s
  cases loc <;> simp_all [cell?, StorageLocation.cell?, value]

/-- A storage without a cell holds the same value in every state. -/
theorem value_of_no_cell {s : VariableStorage TReg} (h : s.cell? = Option.none)
    (σ σ' : MachineState TReg) : s.value σ = s.value σ' := by
  obtain ⟨mt, loc⟩ := s
  cases loc <;> simp_all [cell?, StorageLocation.cell?, value]

/-- A storage's value already has the storage's type. -/
@[simp] theorem carried_value (s : VariableStorage TReg) (σ : MachineState TReg) :
    s.machineType.carried (s.value σ) = s.value σ := by
  obtain ⟨mt, loc⟩ := s
  cases loc with
  | invalid => simp [value, MachineType.carried]
  | _ => simp [value]

variable [DecidableEq TReg]

/-- Writing another cell leaves a storage's value alone. -/
theorem value_update {s : VariableStorage TReg} {c : Cell TReg} (h : s.cell? ≠ some c)
    (σ : MachineState TReg) (w : Word) : s.value (Function.update σ c w) = s.value σ := by
  cases hs : s.cell? with
  | none => exact s.value_of_no_cell hs _ _
  | some d =>
      have hne : d ≠ c := fun he => h (he ▸ hs)
      rw [s.value_of_cell hs, s.value_of_cell hs, Function.update_of_ne hne]

/-- Two storages of which the first denotes a cell are in the same location exactly when
they denote the same cell. -/
theorem inSameLocation_iff_cell {s other : VariableStorage TReg} {c : Cell TReg}
    (h : s.cell? = some c) : s.inSameLocation other = true ↔ other.cell? = some c := by
  obtain ⟨mt, loc⟩ := s
  obtain ⟨mt', loc'⟩ := other
  cases loc <;> cases loc' <;>
    simp_all [cell?, StorageLocation.cell?, inSameLocation] <;> subst h <;> simp [eq_comm]

/-- Storages of one machine type in the same location hold the same value. -/
theorem value_eq_of_inSameLocation {s other : VariableStorage TReg}
    (h : s.inSameLocation other = true) (ht : s.machineType = other.machineType)
    (σ : MachineState TReg) : s.value σ = other.value σ := by
  obtain ⟨mt, loc⟩ := s
  obtain ⟨mt', loc'⟩ := other
  obtain rfl : mt = mt' := ht
  cases loc <;> cases loc' <;> simp_all [inSameLocation, value]

end VariableStorage

end WasmCompiler
