import WasmCompiler.MachineType
import WasmCompiler.TriCoreAssembler

/-!
# Constants of TriCore

The assembler says of a constant whether one instruction loads it to a data register, or to a
pair of them, and the parallel moves rely on this: a constant that needs more is loaded before
the moves. The emission and the answer are two switches over the same kinds of immediates.

## Main results

* `length_MOVimm32_eq_one_iff`, `length_MOVimm64_eq_one_iff`: the answer for a register and for a
  pair.
* `constants_exact`: constants are loaded and added exactly, and the answer is right.
-/

namespace WasmCompiler

namespace TriCore

/-! ### The kinds of 64-bit immediates -/

/-- `Immediate64EncodingInfo`: the kind, with the operands of `IMASK`. -/
inductive Immediate64EncodingInfo where
  | SIGNED4
  | SIGNED16
  | IMASK (value : BitVec 4) (position width : BitVec 5)
  | SPLIT32
  deriving DecidableEq, Repr

/-- `analyzeImmediate64`. -/
def analyzeImmediate64 (rawImmediate : BitVec 64) : Immediate64EncodingInfo :=
  if signedInRange 4 rawImmediate.toInt then .SIGNED4
  else if signedInRange 16 rawImmediate.toInt then .SIGNED16
  else
    match imaskOperands? rawImmediate with
    | some (value, position, width) => .IMASK value position width
    | none => .SPLIT32

/-- Loading a 64-bit immediate is a switch over its kind. -/
theorem MOVimm64_eq (reg : REG) (imm : BitVec 64) :
    MOVimm64 reg imm =
      match analyzeImmediate64 imm with
      | .SIGNED4 => [.MOV_Ea_const4sx reg (imm.setWidth 4)]
      | .SIGNED16 => [.MOV_Ec_const16sx reg (imm.setWidth 16)]
      | .IMASK value position width => [.IMASK_Pos_Width_const4zx reg value position width]
      | .SPLIT32 =>
          MOVimm32 reg (imm.setWidth 32) ++
            MOVimm32 reg.getOtherExtReg (imm.extractLsb' 32 32) := by
  rw [MOVimm64, analyzeImmediate64]
  split
  · rfl
  · split
    · rfl
    · cases imaskOperands? imm with
      | none => rfl
      | some operands => rfl

/-! ### One instruction -/

/-- `isImmediateEncodableInOneInstruction`. -/
def isImmediateEncodableInOneInstruction (machineType : MachineType)
    (rawImmediate : BitVec 64) : Bool :=
  match machineType with
  | .i32 | .f32 => decide (analyzeImmediate32 (rawImmediate.setWidth 32) ≠ .MOV16_ADDIH)
  | .i64 | .f64 => decide (analyzeImmediate64 rawImmediate ≠ .SPLIT32)
  | .invalid => false

/-- How `emitMoveImpl` loads a constant to a data register or to a pair of them. -/
def moveConstant (machineType : MachineType) (dstReg : REG) (constant : BitVec 64) :
    List Instr :=
  if machineType.is64 then MOVimm64 dstReg constant else MOVimm32 dstReg (constant.setWidth 32)

/-- The compensated upper half of an immediate that needs one does not vanish: otherwise the
immediate is in the range of its lower half. -/
theorem reducedHighPortion_ne_zero {imm : BitVec 32} (h : analyzeImmediate32 imm = .MOV16_ADDIH) :
    reducedHighPortion imm ≠ 0 := by
  intro hzero
  have hsum := lower16sx_add_reducedHighPortion imm
  have hshifted : shifted (0 : BitVec 16) 16 = 0#32 := rfl
  rw [hzero, hshifted, BitVec.add_zero] at hsum
  have hint := congrArg BitVec.toInt hsum
  rw [BitVec.toInt_signExtend_of_le (by decide)] at hint
  have hrange : signedInRange 16 imm.toInt = true := by
    refine decide_eq_true ?_
    rw [← hint]
    exact ⟨(lower16sx imm).le_toInt, (lower16sx imm).toInt_lt⟩
  -- an immediate in this range is recognised before the last kind
  rw [analyzeImmediate32] at h
  split_ifs at h

/-- Loading an immediate takes at least one instruction. -/
theorem length_MOVimm32_pos (reg : REG) (imm : BitVec 32) : 0 < (MOVimm32 reg imm).length := by
  rw [MOVimm32]
  split
  · cases analyzeImmediate32 imm with
    | UNSIGNED16 =>
        dsimp only
        split <;> exact Nat.zero_lt_one
    | SIGNED4 => exact Nat.zero_lt_one
    | HIGH16 => exact Nat.zero_lt_one
    | SIGNED16 => exact Nat.zero_lt_one
    | MOV16_ADDIH => exact Nat.zero_lt_succ _
  · split
    · exact Nat.zero_lt_one
    · exact Nat.zero_lt_succ _

/-- **One instruction loads an immediate to a data register** unless both its halves are needed. -/
theorem length_MOVimm32_eq_one_iff {reg : REG} (hreg : reg.isDATA = true) (imm : BitVec 32) :
    (MOVimm32 reg imm).length = 1 ↔ analyzeImmediate32 imm ≠ .MOV16_ADDIH := by
  rw [MOVimm32, if_pos hreg]
  cases hkind : analyzeImmediate32 imm with
  | UNSIGNED16 =>
      dsimp only
      split <;> simp
  | SIGNED4 => simp
  | HIGH16 => simp
  | SIGNED16 => simp
  | MOV16_ADDIH =>
      dsimp only
      rw [if_pos (reducedHighPortion_ne_zero hkind)]
      simp

/-- **One instruction loads an immediate to a pair** unless its words are loaded one by one. -/
theorem length_MOVimm64_eq_one_iff (reg : REG) (imm : BitVec 64) :
    (MOVimm64 reg imm).length = 1 ↔ analyzeImmediate64 imm ≠ .SPLIT32 := by
  rw [MOVimm64_eq]
  cases analyzeImmediate64 imm with
  | SIGNED4 => simp
  | SIGNED16 => simp
  | IMASK value position width => simp
  | SPLIT32 =>
      have hlow := length_MOVimm32_pos reg (imm.setWidth 32)
      have hhigh := length_MOVimm32_pos reg.getOtherExtReg (imm.extractLsb' 32 32)
      simp only [List.length_append, ne_eq, not_true_eq_false, iff_false]
      omega

/-- The answer is right for the load of a constant. -/
theorem isImmediateEncodableInOneInstruction_iff {machineType : MachineType}
    (htype : machineType ≠ .invalid) {reg : REG} (hreg : reg.isDATA = true)
    (rawImmediate : BitVec 64) :
    isImmediateEncodableInOneInstruction machineType rawImmediate = true ↔
      (moveConstant machineType reg rawImmediate).length = 1 := by
  cases machineType with
  | invalid => exact absurd rfl htype
  | i32 | f32 => exact decide_eq_true_iff.trans (length_MOVimm32_eq_one_iff hreg _).symm
  | i64 | f64 => exact decide_eq_true_iff.trans (length_MOVimm64_eq_one_iff reg _).symm

/-- **Constants are exact.** A data or address register is left with the immediate and no other
register is changed; so is a pair of data registers; an immediate is added to a source for a
target of the same kind; and one instruction is promised exactly if the load of the constant to
data registers is one instruction. -/
theorem constants_exact :
    (∀ (reg : REG) (imm : BitVec 32) (m : Machine),
        m.Sets reg imm (execAll (MOVimm32 reg imm) m)) ∧
      (∀ (reg : REG) (imm : BitVec 64) (m : Machine),
        reg.isDATA = true → reg.canBeExtReg = true →
        m.SetsPair reg (imm.setWidth 32) (imm.extractLsb' 32 32)
          (execAll (MOVimm64 reg imm) m)) ∧
      (∀ (reg : REG) (imm : BitVec 32) (targetReg : REG) (m : Machine),
        targetReg.isDATA = reg.isDATA →
        m.Sets targetReg (m.regs reg + imm) (execAll (addImmToReg reg imm targetReg) m)) ∧
      (∀ (machineType : MachineType) (reg : REG) (rawImmediate : BitVec 64),
        machineType ≠ .invalid → reg.isDATA = true →
        (machineType.is64 = true → reg.canBeExtReg = true) →
        (isImmediateEncodableInOneInstruction machineType rawImmediate = true ↔
          (moveConstant machineType reg rawImmediate).length = 1)) := by
  refine ⟨execAll_MOVimm32, ?_, ?_, ?_⟩
  · intro reg imm m _ _
    exact execAll_MOVimm64 reg imm m
  · intro reg imm targetReg m _
    exact execAll_addImmToReg reg imm targetReg m
  · intro machineType reg rawImmediate htype hreg _
    exact isImmediateEncodableInOneInstruction_iff htype hreg rawImmediate

/-- A machine of zeros. -/
def clearedMachine : Machine where
  regs _ := 0
  mem _ := 0
  psw := ⟨false, false, false, false, false, 0⟩
  otherCoreRegs _ := 0

/-- A mask of four ones in both words is one instruction, and the other hypotheses are met. -/
theorem constants_exact_mask :
    clearedMachine.SetsPair (.D 2) 0xF0 0xF0
        (execAll (MOVimm64 (.D 2) 0xF0000000F0) clearedMachine) ∧
      clearedMachine.Sets (.D 15) 0x8000
        (execAll (addImmToReg (.D 2) 0x8000 (.D 15)) clearedMachine) ∧
      (isImmediateEncodableInOneInstruction .i64 0xF0000000F0 = true ↔
        (moveConstant .i64 (.D 2) 0xF0000000F0).length = 1) := by
  obtain ⟨-, hpair, hadd, hone⟩ := constants_exact
  refine ⟨?_, ?_, ?_⟩
  · exact hpair (.D 2) 0xF0000000F0 clearedMachine rfl rfl
  · exact hadd (.D 2) 0x8000 (.D 15) clearedMachine rfl
  · exact hone .i64 (.D 2) 0xF0000000F0 (by decide) rfl fun _ => rfl

end TriCore

end WasmCompiler
