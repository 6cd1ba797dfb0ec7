import WasmCompiler.TriCoreAssembler

/-!
# Memory Accesses of TriCore Code

The accesses that instructions make to the memory, in their order.

## Main results

* `accessesAll_addImmToReg`, `accessesAll_loadWordDRegDerefARegDisp16sx`,
  `accessesAll_storeWordDerefARegDisp16sxDReg`, `accessesAll_emitLoadDerefOff16sx`: the accesses
  of the code that the assembler emits.
-/

namespace WasmCompiler

namespace TriCore

open ByteMemory Machine

/-- An access to the memory. -/
structure Access where
  isStore : Bool
  address : BitVec 32
  size : ℕ
  deriving DecidableEq, Repr

/-- The accesses of an instruction. -/
def Instr.accesses (i : Instr) (m : Machine) : List Access :=
  match i with
  | LDW_Dc_deref_Ab _ ab | LDA_Ac_deref_Ab _ ab => [⟨false, m.regs ab, 4⟩]
  | LDW_D15_deref_A10_const8zxls2 c => [⟨false, m.regs .SP + shifted c 2, 4⟩]
  | LDW_D15_deref_Ab_off4srozxls2 ab c => [⟨false, m.regs ab + shifted c 2, 4⟩]
  | LDW_Dc_deref_A15_off4zxls2 _ c => [⟨false, m.regs (.A 15) + shifted c 2, 4⟩]
  | LDW_Da_deref_Ab_off16sx _ ab c | LDA_Aa_deref_Ab_off16sx _ ab c =>
      [⟨false, m.regs ab + c.signExtend 32, 4⟩]
  | LDD_Ea_deref_Ab_off10sx _ ab c | LDDA_Pa_deref_Ab_off10sx _ ab c =>
      [⟨false, m.regs ab + c.signExtend 32, 8⟩]
  | STW_deref_Ab_Da ab _ | STA_deref_Ab_Aa ab _ => [⟨true, m.regs ab, 4⟩]
  | STW_deref_A10_const8zxls2_D15 c => [⟨true, m.regs .SP + shifted c 2, 4⟩]
  | STW_deref_Ab_off4srozxls2_D15 ab c => [⟨true, m.regs ab + shifted c 2, 4⟩]
  | STW_deref_A15_off4zxls2_Da c _ => [⟨true, m.regs (.A 15) + shifted c 2, 4⟩]
  | STW_deref_Ab_off16sx_Da ab c _ | STA_deref_Ab_off16sx_Aa ab c _ =>
      [⟨true, m.regs ab + c.signExtend 32, 4⟩]
  | STD_deref_Ab_off10sx_Ea ab c _ | STDA_deref_Ab_off10sx_Pa ab c _ =>
      [⟨true, m.regs ab + c.signExtend 32, 8⟩]
  | _ => []

/-- The accesses of code. -/
def accessesAll : List Instr → Machine → List Access
  | [], _ => []
  | i :: code, m => i.accesses m ++ accessesAll code (i.exec m)

/-- No code, no accesses. -/
@[simp] theorem accessesAll_nil (m : Machine) : accessesAll [] m = [] := rfl

/-- The accesses of the first instruction come first. -/
@[simp] theorem accessesAll_cons (i : Instr) (code : List Instr) (m : Machine) :
    accessesAll (i :: code) m = i.accesses m ++ accessesAll code (i.exec m) := rfl

/-- The accesses of one piece of code behind another. -/
@[simp] theorem accessesAll_append (code code' : List Instr) (m : Machine) :
    accessesAll (code ++ code') m = accessesAll code m ++ accessesAll code' (execAll code m) := by
  induction code generalizing m with
  | nil => rfl
  | cons i code ih => simp [ih]

/-- Adding an immediate accesses no memory. -/
theorem accessesAll_addImmToReg (reg : REG) (imm : BitVec 32) (targetReg : REG) (m : Machine) :
    accessesAll (addImmToReg reg imm targetReg) m = [] := by
  have hportions : ∀ addLow addHigh : REG → REG → BitVec 16 → Instr,
      (∀ t r c m, (addLow t r c).accesses m = []) →
      (∀ t r c m, (addHigh t r c).accesses m = []) →
      accessesAll (addPortions addLow addHigh reg imm targetReg) m = [] := by
    intro addLow addHigh hlow hhigh
    rw [addPortions]
    split
    · split <;> simp [hlow, hhigh]
    · split <;> simp [hhigh]
  rw [addImmToReg]
  split
  · split
    · rfl
    · split <;> rfl
  · split
    · split
      · rfl
      · split
        · rfl
        · split
          · rfl
          · exact hportions _ _ (fun _ _ _ _ => rfl) fun _ _ _ _ => rfl
    · split
      · rfl
      · exact hportions _ _ (fun _ _ _ _ => rfl) fun _ _ _ _ => rfl

/-- Loading a word accesses that word. -/
theorem accessesAll_loadWordDRegDerefARegDisp16sx (dataReg addrReg : REG) (disp : BitVec 16)
    (m : Machine) :
    accessesAll (loadWordDRegDerefARegDisp16sx dataReg addrReg disp) m =
      [⟨false, m.regs addrReg + disp.signExtend 32, 4⟩] := by
  rw [loadWordDRegDerefARegDisp16sx]
  split
  · case _ hzero => simp [Instr.accesses, add_signExtend_zero _ hzero]
  · split
    · case _ h =>
        obtain ⟨-, rfl, hrange, hmod⟩ := h
        simp [Instr.accesses,
          shifted_of_mod_four 8 hrange (mod_four_of_dispMod4Equal0 hmod)]
    · split
      · case _ h =>
          obtain ⟨-, hrange, hmod⟩ := h
          simp [Instr.accesses,
            shifted_of_mod_four 4 hrange (mod_four_of_dispMod4Equal0 hmod)]
      · split
        · case _ h =>
            obtain ⟨rfl, hrange, hmod⟩ := h
            simp [Instr.accesses,
              shifted_of_mod_four 4 hrange (mod_four_of_dispMod4Equal0 hmod)]
        · simp [Instr.accesses]

/-- Storing a word accesses that word. -/
theorem accessesAll_storeWordDerefARegDisp16sxDReg (dataReg addrReg : REG) (disp : BitVec 16)
    (m : Machine) :
    accessesAll (storeWordDerefARegDisp16sxDReg dataReg addrReg disp) m =
      [⟨true, m.regs addrReg + disp.signExtend 32, 4⟩] := by
  rw [storeWordDerefARegDisp16sxDReg]
  split
  · case _ hzero => simp [Instr.accesses, add_signExtend_zero _ hzero]
  · split
    · case _ h =>
        obtain ⟨-, rfl, hrange, hmod⟩ := h
        simp [Instr.accesses,
          shifted_of_mod_four 8 hrange (mod_four_of_dispMod4Equal0 hmod)]
    · split
      · case _ h =>
          obtain ⟨-, hrange, hmod⟩ := h
          simp [Instr.accesses,
            shifted_of_mod_four 4 hrange (mod_four_of_dispMod4Equal0 hmod)]
      · split
        · case _ h =>
            obtain ⟨rfl, hrange, hmod⟩ := h
            simp [Instr.accesses,
              shifted_of_mod_four 4 hrange (mod_four_of_dispMod4Equal0 hmod)]
        · simp [Instr.accesses]

/-- Loading an address accesses that word. -/
theorem accessesAll_emitLoadDerefOff16sx (desDataReg addrBaseReg : REG) (offset16 : BitVec 16)
    (m : Machine) :
    accessesAll (emitLoadDerefOff16sx desDataReg addrBaseReg offset16) m =
      [⟨false, m.regs addrBaseReg + offset16.signExtend 32, 4⟩] := by
  rw [emitLoadDerefOff16sx]
  split
  · case _ hzero => simp [Instr.accesses, add_signExtend_zero _ hzero]
  · simp [Instr.accesses]

end TriCore

end WasmCompiler
