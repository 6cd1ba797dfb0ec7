import WasmCompiler.TriCoreSpills
import WasmCompiler.TriCoreMemoryForms

/-!
# Code of Memory Accesses on TriCore

The instructions of loads and stores. The processor accesses more than one byte at even addresses
only, so that code for odd addresses reads a word around the bytes, or writes them in parts, and
takes the bits from words next to each other.

## Main results

* `extractDouble_eq_readWord`, `extractDouble_eq_readWord_add_four`: words at an odd address, from
  the words around them.
-/

namespace WasmCompiler

namespace TriCore

open ByteMemory Machine

/-! ### Instructions -/

/-- The instructions of accesses that do not jump. -/
inductive AccessOp where
  | bulk (o : BulkOp)
  /-- A load or a store with a register and a displacement. -/
  | transfer (t : Transfer) (dataReg addrReg : REG) (disp : BitVec 16)
  | LDB_Da_deref_Ab_off16sx (da ab : REG) (off16sx : BitVec 16)
  | LDHU_Da_deref_Ab_off16sx (da ab : REG) (off16sx : BitVec 16)
  | LDW_Da_deref_Ab_off10sx_preinc (da ab : REG) (off10sx : BitVec 10)
  | LDW_Dc_deref_Ab_postinc (dc ab : REG)
  | STW_deref_Ab_off10sx_Da_preinc (ab : REG) (off10sx : BitVec 10) (da : REG)
  | ADDSCA_Ac_Ab_Da_nSc (ac ab da : REG) (nSc : ℕ)
  | EXTR_Dc_Da_pos_width (dc da : REG) (pos width : ℕ)
  | EXTRU_Dc_Da_pos_width (dc da : REG) (pos width : ℕ)
  | DEXTR_Dc_Da_Db_pos (dc da db : REG) (pos : ℕ)
  | SH_Da_const4sx (da : REG) (const4sx : BitVec 4)
  | MUL_Ec_Da_const9sx (ec da : REG) (const9sx : BitVec 9)
  | MOV_Da_const4sx (da : REG) (const4sx : BitVec 4)
  deriving DecidableEq, Repr

/-- The upper word of two words that are shifted left, `DEXTR`. -/
def extractDouble (high low : BitVec 32) (pos : ℕ) : BitVec 32 :=
  ((high ++ low) <<< pos).extractLsb' 32 32

/-- The word of a transfer without its registers. -/
def Transfer.exec (t : Transfer) (dataReg : REG) (address : BitVec 32) (m : Machine) : Machine :=
  match t with
  | .loadByteUnsigned => m.setReg dataReg ((m.mem address).setWidth 32)
  | .loadHalfword => m.setReg dataReg ((readHalfword m.mem address).signExtend 32)
  | .loadWord => m.setReg dataReg (m.load address)
  | .loadDword => m.setPair dataReg (m.load address) (m.load (address + 4))
  | .storeByte => { m with mem := Function.update m.mem address ((m.regs dataReg).setWidth 8) }
  | .storeHalfword =>
      { m with mem := TriCore.storeHalfword m.mem address ((m.regs dataReg).setWidth 16) }
  | .storeWord => m.store address (m.regs dataReg)
  | .storeDword => m.storePair address (m.regs dataReg) (m.regs dataReg.getOtherExtReg)

/-- The transfer has one byte. -/
def Transfer.isByte : Transfer → Bool
  | .loadByteUnsigned | .storeByte => true
  | _ => false

namespace AccessOp

/-- Execute an instruction. -/
def exec (o : AccessOp) (m : Machine) : Machine :=
  match o with
  | bulk o => o.exec m
  | transfer t dataReg addrReg disp => t.exec dataReg (m.regs addrReg + disp.signExtend 32) m
  | LDB_Da_deref_Ab_off16sx da ab c =>
      m.setReg da ((m.mem (m.regs ab + c.signExtend 32)).signExtend 32)
  | LDHU_Da_deref_Ab_off16sx da ab c =>
      m.setReg da ((readHalfword m.mem (m.regs ab + c.signExtend 32)).setWidth 32)
  | LDW_Da_deref_Ab_off10sx_preinc da ab c =>
      let address := m.regs ab + c.signExtend 32
      (m.setReg da (m.load address)).setReg ab address
  | LDW_Dc_deref_Ab_postinc dc ab =>
      (m.setReg dc (m.load (m.regs ab))).setReg ab (m.regs ab + 4)
  | STW_deref_Ab_off10sx_Da_preinc ab c da =>
      let address := m.regs ab + c.signExtend 32
      (m.store address (m.regs da)).setReg ab address
  | ADDSCA_Ac_Ab_Da_nSc ac ab da nSc => m.setReg ac (m.regs ab + m.regs da <<< nSc)
  | EXTR_Dc_Da_pos_width dc da pos width =>
      m.setReg dc (((m.regs da).extractLsb' pos width).signExtend 32)
  | EXTRU_Dc_Da_pos_width dc da pos width =>
      m.setReg dc (((m.regs da).extractLsb' pos width).setWidth 32)
  | DEXTR_Dc_Da_Db_pos dc da db pos => m.setReg dc (extractDouble (m.regs da) (m.regs db) pos)
  | SH_Da_const4sx da c => m.setReg da (logicalShift (m.regs da) (c.signExtend 9))
  | MUL_Ec_Da_const9sx ec da c =>
      let product := (m.regs da).signExtend 64 * c.signExtend 64
      m.setPair ec (product.setWidth 32) (product.extractLsb' 32 32)
  | MOV_Da_const4sx da c => m.setReg da (c.signExtend 32)

/-- The address of an access to more than one byte. -/
def wideAddress? (o : AccessOp) (m : Machine) : Option (BitVec 32) :=
  match o with
  | bulk o => o.wideAddress? m
  | transfer t _ addrReg disp =>
      if t.isByte then none else some (m.regs addrReg + disp.signExtend 32)
  | LDHU_Da_deref_Ab_off16sx _ ab c => some (m.regs ab + c.signExtend 32)
  | LDW_Da_deref_Ab_off10sx_preinc _ ab c | STW_deref_Ab_off10sx_Da_preinc ab c _ =>
      some (m.regs ab + c.signExtend 32)
  | LDW_Dc_deref_Ab_postinc _ ab => some (m.regs ab)
  | _ => none

/-- An access to more than one byte is aligned to two bytes. -/
def isAligned (o : AccessOp) (m : Machine) : Bool :=
  (o.wideAddress? m).all fun address => !address.getLsbD 0

end AccessOp

/-- A transfer at an even address is aligned. -/
theorem AccessOp.isAligned_transfer {addrReg : REG} {disp : BitVec 16} {m : Machine}
    (h : (m.regs addrReg + disp.signExtend 32).getLsbD 0 = false) (t : Transfer) (dataReg : REG) :
    (AccessOp.transfer t dataReg addrReg disp).isAligned m = true := by
  rw [isAligned, wideAddress?]
  split
  · rfl
  · rw [Option.all_some, h]
    rfl

/-- The conditions of traps. -/
inductive JumpCondition where
  | i32LtReg (regA regB : REG)
  | i32LtConst4sx (reg : REG) (imm : BitVec 4)
  | i32EqConst4sx (reg : REG) (imm : BitVec 4)
  deriving DecidableEq, Repr

/-- A condition holds. -/
def JumpCondition.holds (c : JumpCondition) (m : Machine) : Bool :=
  match c with
  | i32LtReg regA regB => decide ((m.regs regA).toInt < (m.regs regB).toInt)
  | i32LtConst4sx reg imm => decide ((m.regs reg).toInt < imm.toInt)
  | i32EqConst4sx reg imm => m.regs reg == imm.signExtend 32

/-- The instructions of accesses, and the code of the register allocator among them; a jump names
the number of instructions that it skips. -/
inductive AccessInstr where
  | op (o : AccessOp)
  | window (i : WindowInstr)
  | jump (j : CondJump) (skipped : ℕ)
  | TRAP (trapCode : TrapCode)
  | cTRAP (trapCode : TrapCode) (condition : JumpCondition)
  /-- `FCALL_disp24sx2` of a helper function. -/
  | fcall (helper : ℕ)
  deriving DecidableEq, Repr

/-! ### Execution -/

/-- The helper functions by their number. -/
abbrev Helpers : Type := ℕ → Machine → Except BulkEnd Machine

/-- Execute an instruction. -/
def AccessInstr.exec (helpers : Helpers) (i : AccessInstr) (m : Machine) :
    ForwardCode.Control BulkEnd × Machine :=
  match i with
  | op o => if o.isAligned m then (.next, o.exec m) else (.trap .misaligned, m)
  | window i =>
      match runWindow [i] m with
      | .ok m' => (.next, m')
      | .error e => (.trap e, m)
  | jump j skipped => (if j.taken m then .skip skipped else .next, m)
  | TRAP trapCode => (.trap (.trap trapCode), m)
  | cTRAP trapCode condition => (if condition.holds m then .trap (.trap trapCode) else .next, m)
  | fcall helper =>
      match helpers helper m with
      | .ok m' => (.next, m')
      | .error e => (.trap e, m)

/-- Execute code. -/
def runAccess (helpers : Helpers) (code : List AccessInstr) (m : Machine) :
    Except BulkEnd Machine :=
  ForwardCode.run (AccessInstr.exec helpers) 0 code m

section Steps

variable {helpers : Helpers} {m : Machine}

/-- Code that ended. -/
@[simp] theorem runAccess_nil : runAccess helpers [] m = .ok m := rfl

/-- An instruction behind which execution continues. -/
theorem runAccess_of_next {i : AccessInstr} {m' : Machine} (h : i.exec helpers m = (.next, m'))
    (code : List AccessInstr) : runAccess helpers (i :: code) m = runAccess helpers code m' := by
  rw [runAccess, ForwardCode.run_cons_of_next (by rw [h]), h]
  rfl

/-- An instruction that ends the execution. -/
theorem runAccess_of_trap {i : AccessInstr} {e : BulkEnd} (h : i.exec helpers m = (.trap e, m))
    (code : List AccessInstr) : runAccess helpers (i :: code) m = .error e :=
  ForwardCode.run_cons_of_trap (by rw [h]) code

/-- An access that is aligned. -/
theorem runAccess_op {o : AccessOp} (h : o.isAligned m = true) (code : List AccessInstr) :
    runAccess helpers (.op o :: code) m = runAccess helpers code (o.exec m) := by
  refine runAccess_of_next ?_ code
  rw [AccessInstr.exec, if_pos h]

/-- A jump that is not taken. -/
theorem runAccess_jump_of_not {j : CondJump} (h : j.taken m = false) (skipped : ℕ)
    (code : List AccessInstr) :
    runAccess helpers (.jump j skipped :: code) m = runAccess helpers code m := by
  refine runAccess_of_next ?_ code
  rw [AccessInstr.exec, h]
  rfl

/-- A jump that is taken, over a piece of code. -/
theorem runAccess_jump {j : CondJump} (h : j.taken m = true) (skipped code : List AccessInstr) :
    runAccess helpers (.jump j skipped.length :: (skipped ++ code)) m =
      runAccess helpers code m := by
  have hexec : AccessInstr.exec helpers (.jump j skipped.length) m = (.skip skipped.length, m) := by
    rw [AccessInstr.exec, h]
    rfl
  rw [runAccess, ForwardCode.run_cons_of_skip (by rw [hexec]), hexec,
    ForwardCode.run_skip_append]
  rfl

/-- A trap that is not taken. -/
theorem runAccess_cTRAP_of_not {c : JumpCondition} (h : c.holds m = false) (trapCode : TrapCode)
    (code : List AccessInstr) :
    runAccess helpers (.cTRAP trapCode c :: code) m = runAccess helpers code m := by
  refine runAccess_of_next ?_ code
  rw [AccessInstr.exec, h]
  rfl

/-- A trap that is taken. -/
theorem runAccess_cTRAP {c : JumpCondition} (h : c.holds m = true) (trapCode : TrapCode)
    (code : List AccessInstr) :
    runAccess helpers (.cTRAP trapCode c :: code) m = .error (.trap trapCode) := by
  refine runAccess_of_trap ?_ code
  rw [AccessInstr.exec, h]
  rfl

/-- The code of the register allocator is passed. -/
theorem runAccess_window {window : List WindowInstr} {m' : Machine}
    (h : runWindow window m = .ok m') (code : List AccessInstr) :
    runAccess helpers (window.map .window ++ code) m = runAccess helpers code m' := by
  induction window generalizing m with
  | nil =>
      obtain rfl := Except.ok.inj h
      rfl
  | cons i window ih =>
      rw [List.map_cons, List.cons_append]
      cases i with
      | op o =>
          rw [runWindow] at h
          split at h
          · case _ haligned =>
              refine (runAccess_of_next ?_ _).trans (ih h)
              rw [AccessInstr.exec, runWindow, if_pos haligned]
              rfl
          · cases h
      | cTRAPBitTrue trapCode da n =>
          rw [runWindow] at h
          split at h
          · cases h
          · case _ hnot =>
              refine (runAccess_of_next ?_ _).trans (ih h)
              rw [AccessInstr.exec, runWindow, if_neg hnot]
              rfl

/-- The code of the register allocator ends the execution. -/
theorem runAccess_window_of_error {window : List WindowInstr} {e : BulkEnd}
    (h : runWindow window m = .error e) (code : List AccessInstr) :
    runAccess helpers (window.map .window ++ code) m = .error e := by
  induction window generalizing m with
  | nil => cases h
  | cons i window ih =>
      rw [List.map_cons, List.cons_append]
      cases i with
      | op o =>
          rw [runWindow] at h
          split at h
          · case _ haligned =>
              refine (runAccess_of_next ?_ _).trans (ih h)
              rw [AccessInstr.exec, runWindow, if_pos haligned]
              rfl
          · case _ hnot =>
              refine (runAccess_of_trap ?_ _).trans h
              rw [AccessInstr.exec, runWindow, if_neg hnot]
      | cTRAPBitTrue trapCode da n =>
          rw [runWindow] at h
          split at h
          · case _ htaken =>
              refine (runAccess_of_trap ?_ _).trans h
              rw [AccessInstr.exec, runWindow, if_pos htaken]
          · case _ hnot =>
              refine (runAccess_of_next ?_ _).trans (ih h)
              rw [AccessInstr.exec, runWindow, if_neg hnot]
              rfl

end Steps

/-! ### Words at odd addresses -/

/-- The bytes of two words that are shifted by three bytes. -/
theorem extractDouble_24 (high : BitVec 32) (b3 b2 b1 b0 : BitVec 8) :
    extractDouble high (b3 ++ b2 ++ b1 ++ b0) 24 = high.setWidth 8 ++ b3 ++ b2 ++ b1 := by
  ext i hi
  simp only [extractDouble, BitVec.getElem_extractLsb', BitVec.getLsbD_shiftLeft,
    BitVec.getLsbD_append]
  grind

/-- The bytes of two words that are shifted by one byte. -/
theorem extractDouble_8 (c3 c2 c1 c0 b3 b2 b1 b0 : BitVec 8) :
    extractDouble (c3 ++ c2 ++ c1 ++ c0) (b3 ++ b2 ++ b1 ++ b0) 8 = c2 ++ c1 ++ c0 ++ b3 := by
  ext i hi
  simp only [extractDouble, BitVec.getElem_extractLsb', BitVec.getLsbD_shiftLeft,
    BitVec.getLsbD_append]
  grind

/-- **A word at an odd address**, from the word one byte before it and its last byte. -/
theorem extractDouble_eq_readWord (m : ByteMemory) (a : BitVec 32) {high : BitVec 32}
    (hhigh : high.setWidth 8 = m (a + 3)) :
    extractDouble high (ByteMemory.readWord m (a - 1)) 24 = ByteMemory.readWord m a := by
  have h1 : a - 1 + 1 = a := by grind
  have h2 : a - 1 + 2 = a + 1 := by grind
  have h3 : a - 1 + 3 = a + 2 := by grind
  rw [ByteMemory.readWord, ByteMemory.readWord, h1, h2, h3, ← hhigh]
  exact extractDouble_24 high _ _ _ _

/-- **The second word at an odd address**, from the words around it. -/
theorem extractDouble_eq_readWord_add_four (m : ByteMemory) (a : BitVec 32) :
    extractDouble (ByteMemory.readWord m (a + 5)) (ByteMemory.readWord m (a + 1)) 8 =
      ByteMemory.readWord m (a + 4) := by
  have hsum : ∀ b c : BitVec 32, a + b + c = a + (b + c) := fun b c => BitVec.add_assoc a b c
  simp only [ByteMemory.readWord, hsum]
  exact extractDouble_8 _ _ _ _ _ _ _ _

/-- A halfword at an odd address, from the word one byte before it. -/
theorem extractLsb'_readWord (m : ByteMemory) (a : BitVec 32) :
    (ByteMemory.readWord m (a - 1)).extractLsb' 8 16 = readHalfword m a := by
  have h1 : a - 1 + 1 = a := by grind
  have h2 : a - 1 + 2 = a + 1 := by grind
  rw [ByteMemory.readWord, h1, h2, readHalfword]
  ext i hi
  simp only [BitVec.getElem_extractLsb', BitVec.getLsbD_append]
  grind

end TriCore

end WasmCompiler
