import WasmCompiler.TriCoreBulkMemory
import WasmCompiler.TriCoreMemoryMoves

/-!
# Operands of Bulk Memory Instructions on TriCore

The address of the range to fill is moved to an address register before the other operands are
moved to registers. A move of the register allocator has the same address register as its helper
for a slot whose displacement does not fit.

## Main results

* `runOps_copyValueOfElemToAddrReg`: an operand is moved to an address register.
* `changes_emitMoveImpl`: a move from or to a register writes its destination, and the helper
  register only for a displacement that does not fit.
* `bulkMemoryExact_iff`: filling and copying is exact, and every loop ends within as many
  iterations as there are bytes, exactly unless no bytes are filled at an odd address.
-/

namespace WasmCompiler

namespace TriCore

open ByteMemory Machine

/-! ### Operands in address registers -/

/-- `copyValueOfElemToAddrReg`. -/
def copyValueOfElemToAddrReg (ctx : AddressingContext) (addrReg : REG)
    (addrStorage : VariableStorage REG) : Option (List BulkOp) :=
  match addrStorage.location with
  | .constant constant => some ((MOVimm32 addrReg (constant.setWidth 32)).map .plain)
  | .register reg => some [.MOVA_Aa_Db addrReg reg]
  | _ => do
      let (code, reg, disp) ← getMemRegDisp 16 ctx addrStorage addrReg
      return (code ++ emitLoadDerefOff16sx addrReg reg disp).map .plain

/-- The value of a 32-bit operand. -/
def operandValue (jobMemory frameTop : BitVec 32) (m : Machine) (s : VariableStorage REG) :
    BitVec 32 :=
  (storageValue jobMemory frameTop m s).setWidth 32

/-- The word in a register. -/
theorem setWidth_regValue (m : Machine) (r : REG) : (regValue m false r).setWidth 32 = m.regs r := by
  rw [regValue, if_neg (by decide), BitVec.setWidth_setWidth_of_le _ (by decide),
    BitVec.setWidth_eq]

/-- Instructions without bulk operations. -/
theorem runOps_plain (code : List Instr) (m : Machine) :
    runOps (code.map .plain) m = some (execAll code m) := by
  induction code generalizing m with
  | nil => rfl
  | cons i code ih => exact ih (i.exec m)

/-- One piece of code behind another. -/
theorem runOps_append {ops ops' : List BulkOp} {m m' : Machine} (h : runOps ops m = some m') :
    runOps (ops ++ ops') m = runOps ops' m' := by
  induction ops generalizing m with
  | nil =>
      obtain rfl : m = m' := Option.some.inj h
      rfl
  | cons o ops ih =>
      rw [runOps] at h
      split at h
      · case _ haligned =>
          rw [List.cons_append, runOps, if_pos haligned]
          exact ih h
      · cases h

/-- **An operand is moved to an address register**, and no other register is written. -/
theorem runOps_copyValueOfElemToAddrReg {ctx : AddressingContext} (addrReg : REG)
    {s : VariableStorage REG} (hs : ValidStorage s) (hword : s.machineType.is64 = false)
    {jobMemory frameTop : BitVec 32} {m : Machine} (hm : m.Frame ctx jobMemory frameTop) :
    ∃ ops m', copyValueOfElemToAddrReg ctx addrReg s = some ops ∧ runOps ops m = some m' ∧
      m'.regs addrReg = operandValue jobMemory frameTop m s ∧
      m.Changes (· = addrReg) NoBytes m' := by
  rcases hs.cases with ⟨r, hr⟩ | ⟨c, hc⟩ | hmem
  · refine ⟨[.MOVA_Aa_Db addrReg r], m.setReg addrReg (m.regs r), ?_, rfl, ?_,
      m.setReg_changes _ _⟩
    · rw [copyValueOfElemToAddrReg, hr]
    · rw [setReg_regs, Function.update_self, operandValue, storageValue, hr]
      dsimp only
      rw [hword, setWidth_regValue]
  · have hmov := execAll_MOVimm32 addrReg (c.setWidth 32) m
    refine ⟨_, _, by rw [copyValueOfElemToAddrReg, hc], runOps_plain _ m, ?_, hmov.changes⟩
    have hcarried := wordsValue_constant hs.1 c
    rw [hword, wordsValue, if_neg (by decide)] at hcarried
    rw [hmov.regs, Function.update_self, operandValue, storageValue, hc]
    dsimp only
    rw [← hcarried, BitVec.setWidth_setWidth_of_le _ (by decide), BitVec.setWidth_eq]
  · obtain ⟨base, disp, hbase, -⟩ := hmem.baseDisp? ctx
    obtain ⟨⟨code, reg, field⟩, hget⟩ : ∃ result, getMemRegDisp 16 ctx s addrReg = some result :=
      ⟨_, by rw [getMemRegDisp, hbase]; rfl⟩
    obtain ⟨hcell, hchanges⟩ := getMemRegDisp_address (by decide) (by decide) hget hm
    have hload := execAll_emitLoadDerefOff16sx addrReg reg field (execAll code m)
    refine ⟨_, _, ?_, runOps_plain (code ++ emitLoadDerefOff16sx addrReg reg field) m, ?_, ?_⟩
    · obtain ⟨p, hp | hp⟩ := hmem <;> simp [copyValueOfElemToAddrReg, hp, hget]
    · rw [execAll_append, hload.regs, Function.update_self, operandValue,
        storageValue_of_cell hmem hcell, hword, loadValue, if_neg (by decide), hchanges.load,
        BitVec.setWidth_setWidth_of_le _ (by decide), BitVec.setWidth_eq]
    · rw [execAll_append]
      exact hchanges.trans hload.changes

/-! ### Moves of the register allocator -/

/-- A move from or to a register, of values of one type. -/
structure RegisterMove (dst src : VariableStorage REG) : Prop where
  validDst : ValidStorage dst
  validSrc : ValidStorage src
  machineType : dst.machineType = src.machineType
  notConstant : ∀ c, dst.location ≠ .constant c
  register : (∃ r, dst.location = .register r) ∨ ∃ r, src.location = .register r

/-- The displacement of neither storage is too large. -/
def MoveInRange (ctx : AddressingContext) (dst src : VariableStorage REG) : Prop :=
  ¬ OutOfRange ctx dst ∧ ¬ OutOfRange ctx src

section Moves

variable {ctx : AddressingContext} {dst src : VariableStorage REG}

/-- A storage that is reached without the helper register, if its displacement fits. -/
theorem Reaches.regs_eq {s : VariableStorage REG} (hs : InMemory s) {bits : ℕ}
    (hbits : bits = dispBits s.machineType.is64) {code : List Instr} {reg : REG}
    {disp : BitVec bits} (h : Reaches ctx s code reg disp) {r : REG}
    (hr : r ≠ addrScrReg 2 ∨ ¬ OutOfRange ctx s) (m : Machine) :
    (execAll code m).regs r = m.regs r := by
  rcases hr with hne | hfits
  · exact (h.changes m).regs r hne
  · obtain ⟨base, d, hbase, -⟩ := hs.baseDisp? ctx
    have hrange : signedInRange bits d.toBitVec.toInt = true := by
      by_contra hout
      rw [Bool.not_eq_true, hbits] at hout
      exact hfits ⟨base, d, hbase, hout⟩
    rw [(h.inRange base d hbase hrange).1, execAll_nil]

/-- The register that a word is written to is the one that changes. -/
theorem Machine.Sets.regs_of_ne {r r' : REG} {value : BitVec 32} {m m' : Machine}
    (h : m.Sets r value m') (hne : r' ≠ r) : m'.regs r' = m.regs r' := by
  rw [h.regs, Function.update_of_ne hne]

/-- A register that is not part of a storage. -/
theorem ne_of_not_storageReg {s : VariableStorage REG} {reg r : REG}
    (hs : s.location = .register reg) (hr : ¬ StorageReg s r) :
    r ≠ reg ∧ (s.machineType.is64 = true → r ≠ reg.getOtherExtReg) := by
  rw [StorageReg, hs, not_or, not_and] at hr
  exact hr

/-- A move to a register from another one or from a constant. -/
theorem regs_emitMoveImpl_register {code : List Instr} {dstReg : REG}
    (hdst : dst.location = .register dstReg)
    (hsrc : (∃ r, src.location = .register r) ∨ ∃ c, src.location = .constant c)
    (hcode : emitMoveImpl ctx dst src false = some code) (m : Machine) {r : REG}
    (hr : ¬ StorageReg dst r) : (execAll code m).regs r = m.regs r := by
  obtain ⟨hne, hneOther⟩ := ne_of_not_storageReg hdst hr
  rw [emitMoveImpl] at hcode
  split at hcode
  · obtain rfl := Option.some.inj hcode
    rfl
  · cases h64 : dst.machineType.is64 with
    | true =>
        rw [h64, if_pos rfl, hdst] at hcode
        rcases hsrc with ⟨srcReg, hsrc⟩ | ⟨c, hsrc⟩
        · rw [hsrc] at hcode
          obtain rfl := Option.some.inj hcode
          change Function.update (Function.update m.regs dstReg _) dstReg.getOtherExtReg _ r = _
          rw [Function.update_of_ne (hneOther h64), Function.update_of_ne hne]
        · rw [hsrc] at hcode
          obtain rfl := Option.some.inj hcode
          rw [(execAll_MOVimm64 dstReg c m).regs, Function.update_of_ne (hneOther h64),
            Function.update_of_ne hne]
    | false =>
        rw [h64, if_neg (by decide), hdst] at hcode
        rcases hsrc with ⟨srcReg, hsrc⟩ | ⟨c, hsrc⟩
        · rw [hsrc] at hcode
          obtain rfl := Option.some.inj hcode
          exact Function.update_of_ne hne _ _
        · rw [hsrc] at hcode
          obtain rfl := Option.some.inj hcode
          exact (execAll_MOVimm32 dstReg (c.setWidth 32) m).regs_of_ne hne

/-- A move to a register from memory. -/
theorem regs_emitMoveImpl_load {code : List Instr} {dstReg : REG}
    (hdst : dst.location = .register dstReg) (hsrc : InMemory src)
    (htype : dst.machineType = src.machineType)
    (hcode : emitMoveImpl ctx dst src false = some code) (m : Machine) {r : REG}
    (hr : ¬ StorageReg dst r) (hrange : r ≠ addrScrReg 2 ∨ ¬ OutOfRange ctx src) :
    (execAll code m).regs r = m.regs r := by
  obtain ⟨hne, hneOther⟩ := ne_of_not_storageReg hdst hr
  have hself : ¬ (!false ∧ dst = src) := by
    rintro ⟨-, rfl⟩
    obtain ⟨p, hp | hp⟩ := hsrc <;> rw [hdst] at hp <;> cases hp
  cases h64 : dst.machineType.is64 with
  | true =>
      obtain ⟨reach, reg, disp, hget, hreach⟩ := hsrc.reaches ctx 10 (by decide) (by decide)
      have hload : code = reach ++ [.LDD_Ea_deref_Ab_off10sx dstReg reg disp] := by
        refine Option.some.inj (hcode.symm.trans ?_)
        rw [emitMoveImpl, if_neg hself]
        obtain ⟨p, hp | hp⟩ := hsrc <;> simp [h64, hdst, hp, hget]
      rw [hload, execAll_append, ← hreach.regs_eq hsrc (by rw [← htype, h64]; rfl) hrange m]
      change Function.update (Function.update _ dstReg _) dstReg.getOtherExtReg _ r = _
      rw [Function.update_of_ne (hneOther h64), Function.update_of_ne hne]
  | false =>
      obtain ⟨reach, reg, disp, hget, hreach⟩ := hsrc.reaches ctx 16 (by decide) (by decide)
      have hload : code = reach ++ loadWordForMove dstReg reg disp := by
        refine Option.some.inj (hcode.symm.trans ?_)
        rw [emitMoveImpl, if_neg hself]
        obtain ⟨p, hp | hp⟩ := hsrc <;> simp [h64, hdst, hp, hget]
      rw [hload, execAll_append, ← hreach.regs_eq hsrc (by rw [← htype, h64]; rfl) hrange m]
      exact (execAll_loadWordForMove hreach.reg_ne.2.2 disp _).regs_of_ne hne

/-- A move from a register to memory. -/
theorem regs_emitMoveImpl_store {code : List Instr} {srcReg : REG} (hdst : InMemory dst)
    (hsrc : src.location = .register srcReg)
    (hcode : emitMoveImpl ctx dst src false = some code) (m : Machine) {r : REG}
    (hrange : r ≠ addrScrReg 2 ∨ ¬ OutOfRange ctx dst) :
    (execAll code m).regs r = m.regs r := by
  have hself : ¬ (!false ∧ dst = src) := by
    rintro ⟨-, rfl⟩
    obtain ⟨p, hp | hp⟩ := hdst <;> rw [hsrc] at hp <;> cases hp
  cases h64 : dst.machineType.is64 with
  | true =>
      obtain ⟨reach, reg, disp, hget, hreach⟩ := hdst.reaches ctx 10 (by decide) (by decide)
      have hstore : code = reach ++ [.STD_deref_Ab_off10sx_Ea reg disp srcReg] := by
        refine Option.some.inj (hcode.symm.trans ?_)
        rw [emitMoveImpl, if_neg hself]
        obtain ⟨p, hp | hp⟩ := hdst <;> simp [h64, hsrc, hp, hget]
      rw [hstore, execAll_append, ← hreach.regs_eq hdst (by rw [h64]; rfl) hrange m]
      rfl
  | false =>
      obtain ⟨reach, reg, disp, hget, hreach⟩ := hdst.reaches ctx 16 (by decide) (by decide)
      have hstore : code = reach ++ storeWordDerefARegDisp16sxDReg srcReg reg disp := by
        refine Option.some.inj (hcode.symm.trans ?_)
        rw [emitMoveImpl, if_neg hself]
        obtain ⟨p, hp | hp⟩ := hdst <;> simp [h64, hsrc, hp, hget]
      rw [hstore, execAll_append, ← hreach.regs_eq hdst (by rw [h64]; rfl) hrange m]
      exact congrFun (execAll_storeWordDerefARegDisp16sxDReg srcReg reg disp _).regs r

/-- A move from or to a register is one that moves the value. -/
theorem RegisterMove.moveCorrect (h : RegisterMove dst src) (ctx : AddressingContext) :
    MoveCorrect ctx dst src false := by
  refine (moveCorrect_iff ctx dst src false h.validDst h.validSrc h.notConstant
    h.machineType).mpr ?_
  rintro ⟨hdst, hsrc, -⟩
  rcases h.register with ⟨r, hr⟩ | ⟨r, hr⟩
  · obtain ⟨p, hp | hp⟩ := hdst.inMemory <;> rw [hr] at hp <;> cases hp
  · obtain ⟨p, hp | hp⟩ := hsrc.inMemory <;> rw [hr] at hp <;> cases hp

/-- A move from or to a register has code. -/
theorem RegisterMove.exists_code (h : RegisterMove dst src) (ctx : AddressingContext) :
    ∃ code, emitMoveImpl ctx dst src false = some code :=
  (h.moveCorrect ctx).imp fun _ h => h.1

/-- **A move from or to a register** writes its destination, and the helper register only for a
displacement that does not fit. -/
theorem changes_emitMoveImpl (h : RegisterMove dst src) {code : List Instr}
    (hcode : emitMoveImpl ctx dst src false = some code) {jobMemory frameTop : BitVec 32}
    {m : Machine} (hm : m.Frame ctx jobMemory frameTop) :
    m.Changes (fun r => StorageReg dst r ∨ (r = addrScrReg 2 ∧ ¬ MoveInRange ctx dst src))
      (StorageByte jobMemory frameTop dst) (execAll code m) := by
  refine ⟨fun r hr => ?_, ?_⟩
  · rw [not_or, not_and, not_not] at hr
    have hrange : r ≠ addrScrReg 2 ∨ MoveInRange ctx dst src := by
      by_cases hne : r = addrScrReg 2
      · exact .inr (hr.2 hne)
      · exact .inl hne
    rcases h.validDst.cases with ⟨dstReg, hdst⟩ | ⟨c, hdst⟩ | hdst
    · rcases h.validSrc.cases with hsrc | hsrc | hsrc
      · exact regs_emitMoveImpl_register hdst (.inl hsrc) hcode m hr.1
      · exact regs_emitMoveImpl_register hdst (.inr hsrc) hcode m hr.1
      · exact regs_emitMoveImpl_load hdst hsrc h.machineType hcode m hr.1
          (hrange.imp_right (·.2))
    · exact absurd hdst (h.notConstant c)
    · rcases h.register with ⟨dstReg, hreg⟩ | ⟨srcReg, hsrc⟩
      · obtain ⟨p, hp | hp⟩ := hdst <;> rw [hreg] at hp <;> cases hp
      · exact regs_emitMoveImpl_store hdst hsrc hcode m (hrange.imp_right (·.1))
  · obtain ⟨code', hcode', hmoved⟩ := h.moveCorrect ctx
    obtain rfl : code' = code := Option.some.inj (hcode'.symm.trans hcode)
    exact (hmoved jobMemory frameTop m hm).2.mem

end Moves

/-- A move: the destination and the source. -/
abbrev Move : Type := VariableStorage REG × VariableStorage REG

/-- The code of moves. -/
def emitMoves (ctx : AddressingContext) : List Move → Option (List Instr)
  | [] => some []
  | (dst, src) :: moves => do
      let code ← emitMoveImpl ctx dst src false
      let rest ← emitMoves ctx moves
      return code ++ rest

/-- The bytes of the slots that moves write. -/
def MovedByte (jobMemory frameTop : BitVec 32) (moves : List Move) (x : BitVec 32) : Prop :=
  ∃ p ∈ moves, StorageByte jobMemory frameTop p.1 x

/-- The registers that moves write. -/
def MovedReg (ctx : AddressingContext) (moves : List Move) (r : REG) : Prop :=
  (∃ p ∈ moves, StorageReg p.1 r) ∨ (r = addrScrReg 2 ∧ ∃ p ∈ moves, ¬ MoveInRange ctx p.1 p.2)

section MoveLists

variable {ctx : AddressingContext} {moves : List Move}

/-- The registers of a storage are data registers. -/
theorem ValidStorage.isDATA {s : VariableStorage REG} (h : ValidStorage s) {r : REG}
    (hr : StorageReg s r) : r.isDATA = true := by
  have hvalid := h.2
  cases hs : s.location with
  | register reg =>
      rw [hs] at hvalid
      rw [StorageReg, hs] at hr
      rcases hr with rfl | ⟨-, rfl⟩
      · exact hvalid.1
      · rw [REG.isDATA_getOtherExtReg]
        exact hvalid.1
  | _ =>
      rw [StorageReg, hs] at hr
      exact hr.elim

/-- Moves write no address register but the helper register. -/
theorem not_movedReg_of_address (h : ∀ p ∈ moves, RegisterMove p.1 p.2) {r : REG}
    (hr : r.isDATA = false) (hrange : r ≠ addrScrReg 2 ∨ ∀ p ∈ moves, MoveInRange ctx p.1 p.2) :
    ¬ MovedReg ctx moves r := by
  rintro (⟨p, hp, hreg⟩ | ⟨heq, p, hp, hout⟩)
  · have hdata := (h p hp).validDst.isDATA hreg
    rw [hr] at hdata
    cases hdata
  · rcases hrange with hne | hin
    · exact hne heq
    · exact hout (hin p hp)

/-- **Moves** write their destinations, and the helper register only for a displacement that does
not fit. -/
theorem changes_emitMoves (h : ∀ p ∈ moves, RegisterMove p.1 p.2) {jobMemory frameTop : BitVec 32}
    {m : Machine} (hm : m.Frame ctx jobMemory frameTop) :
    ∃ code, emitMoves ctx moves = some code ∧
      m.Changes (MovedReg ctx moves) (MovedByte jobMemory frameTop moves) (execAll code m) := by
  induction moves generalizing m with
  | nil => exact ⟨[], rfl, .refl _ _ m⟩
  | cons p moves ih =>
      obtain ⟨dst, src⟩ := p
      have hmove : RegisterMove dst src := h (dst, src) List.mem_cons_self
      obtain ⟨code, hcode⟩ := hmove.exists_code ctx
      have hfirst := changes_emitMoveImpl hmove hcode hm
      have hfirst' : m.Changes (MovedReg ctx ((dst, src) :: moves))
          (MovedByte jobMemory frameTop ((dst, src) :: moves)) (execAll code m) := by
        refine hfirst.mono (fun r hr => ?_) fun x hx => ⟨(dst, src), List.mem_cons_self, hx⟩
        rcases hr with hr | ⟨hr, hout⟩
        · exact .inl ⟨(dst, src), List.mem_cons_self, hr⟩
        · exact .inr ⟨hr, (dst, src), List.mem_cons_self, hout⟩
      have haddress : ∀ r : REG, r.isDATA = false → r ≠ addrScrReg 2 →
          ¬ MovedReg ctx ((dst, src) :: moves) r := fun r hr hne =>
        not_movedReg_of_address h hr (.inl hne)
      obtain ⟨rest, hrest, hchanges⟩ := ih (fun p hp => h p (List.mem_cons_of_mem _ hp))
        (hm.of_changes hfirst' (haddress linMem rfl (by decide)) (haddress .SP rfl (by decide)))
      refine ⟨code ++ rest, by rw [emitMoves, hcode, hrest]; rfl, ?_⟩
      rw [execAll_append]
      refine hfirst'.trans (hchanges.mono (fun r hr => ?_) fun x hx => ?_)
      · rcases hr with ⟨p, hp, hr⟩ | ⟨hr, p, hp, hout⟩
        · exact .inl ⟨p, List.mem_cons_of_mem _ hp, hr⟩
        · exact .inr ⟨hr, p, List.mem_cons_of_mem _ hp, hout⟩
      · obtain ⟨p, hp, hx⟩ := hx
        exact ⟨p, List.mem_cons_of_mem _ hp, hx⟩

end MoveLists

/-! ### Instructions -/

/-- `memory.fill` with its operands, and with the registers and moves of the register allocator. -/
structure FillInstr where
  dst : VariableStorage REG
  value : VariableStorage REG
  size : VariableStorage REG
  /-- The moves of the size and of the value to registers, and of registers to slots. -/
  moves : List Move
  sizeReg : REG
  valueReg : REG
  scratchDReg : REG

/-- `memory.copy` with its operands, and with the registers and moves of the register allocator. -/
structure CopyInstr where
  dst : VariableStorage REG
  src : VariableStorage REG
  size : VariableStorage REG
  /-- The moves of the size to its register. -/
  lifts : List Move
  /-- The moves of registers to slots that make room for the scratch registers. -/
  spills : List Move
  sizeReg : REG
  scratchReg : REG

/-- The registers of filling. -/
def FillInstr.regs (i : FillInstr) : FillRegs :=
  ⟨addrScrReg 2, i.sizeReg, i.valueReg, i.scratchDReg⟩

/-- The registers of copying. -/
def CopyInstr.regs (i : CopyInstr) : CopyRegs :=
  ⟨addrScrReg 0, addrScrReg 1, i.sizeReg, i.scratchReg⟩

/-- The size of a copy that is constant. -/
def CopyInstr.sizeValue (i : CopyInstr) : Option (BitVec 32) :=
  match i.size.location with
  | .constant constant => some (constant.setWidth 32)
  | _ => none

/-- `executeLinearMemoryFill`. -/
def executeLinearMemoryFill (ctx : AddressingContext) (i : FillInstr) :
    Option (List BulkInstr) := do
  let address ← copyValueOfElemToAddrReg ctx (addrScrReg 2) i.dst
  let moves ← emitMoves ctx i.moves
  return (address ++ moves.map BulkOp.plain).map .op ++ fillRangeCode i.regs

/-- `executeLinearMemoryCopy`. -/
def executeLinearMemoryCopy (ctx : AddressingContext) (i : CopyInstr) :
    Option (List BulkInstr) := do
  let lifts ← emitMoves ctx i.lifts
  let dst ← copyValueOfElemToAddrReg ctx (addrScrReg 0) i.dst
  let src ← copyValueOfElemToAddrReg ctx (addrScrReg 1) i.src
  let spills ← emitMoves ctx i.spills
  return (lifts.map BulkOp.plain ++ (dst ++ (src ++ spills.map BulkOp.plain))).map .op ++
    copyRangeCode i.regs i.sizeValue

/-- An operand of 32 bits. -/
def WordOperand (s : VariableStorage REG) : Prop :=
  ValidStorage s ∧ s.machineType.is64 = false

/-- The moves are from or to registers, and their slots are not in the linear memory. -/
structure MovesOutside (memorySize : ℕ) (jobMemory frameTop : BitVec 32) (m : Machine)
    (moves : List Move) : Prop where
  registerMove : ∀ p ∈ moves, RegisterMove p.1 p.2
  outside : ∀ n < memorySize,
    ¬ MovedByte jobMemory frameTop moves (m.regs linMem + BitVec.ofNat 32 n)

/-- Execution moved operands: it wrote slots, data registers and scratch registers. -/
def MovedOperands (jobMemory frameTop : BitVec 32) (moves : List Move) (m m' : Machine) : Prop :=
  m.Changes (fun r => r.isDATA = true ∨ ScratchReg r) (MovedByte jobMemory frameTop moves) m'

section Phases

variable {ctx : AddressingContext} {memorySize : ℕ} {jobMemory frameTop : BitVec 32}
  {moves : List Move} {m m' : Machine}

/-- Registers that no move of operands writes. -/
theorem MovedOperands.regs_eq (h : MovedOperands jobMemory frameTop moves m m') {r : REG}
    (hr : r.isDATA = false) (hscratch : ∀ i, r ≠ addrScrReg i) : m'.regs r = m.regs r := by
  refine h.regs r ?_
  rintro (hdata | ⟨i, hi⟩)
  · rw [hr] at hdata
    cases hdata
  · exact hscratch i hi

/-- `linMem`, `memSize` and the stack pointer are not written. -/
theorem MovedOperands.kept (h : MovedOperands jobMemory frameTop moves m m') :
    m'.regs linMem = m.regs linMem ∧ m'.regs memSize = m.regs memSize ∧
      m'.regs .SP = m.regs .SP :=
  ⟨h.regs_eq rfl (by decide), h.regs_eq rfl (by decide), h.regs_eq rfl (by decide)⟩

/-- The frame stays where it is. -/
theorem MovedOperands.frame (h : MovedOperands jobMemory frameTop moves m m')
    (hm : m.Frame ctx jobMemory frameTop) : m'.Frame ctx jobMemory frameTop := by
  obtain ⟨hlinMem, -, hsp⟩ := h.kept
  exact ⟨hlinMem.trans hm.linMem, hsp.trans hm.stackPointer⟩

/-- The linear memory stays as it is. -/
theorem MovedOperands.hasMemory (h : MovedOperands jobMemory frameTop moves m m')
    (hmem : HasMemory memorySize m) : HasMemory memorySize m' :=
  hmem.of_eq h.kept.1 h.kept.2.1

/-- The linear memory stays as it is. -/
theorem MovedOperands.sameMemory (h : MovedOperands jobMemory frameTop moves m m')
    (houtside : MovesOutside memorySize jobMemory frameTop m moves) :
    SameMemory memorySize m m' := fun n hn => by
  rw [h.kept.1]
  exact h.mem _ (houtside.outside n hn)

/-- Moves of the register allocator move operands. -/
theorem movedOperands_of_moves (h : ∀ p ∈ moves, RegisterMove p.1 p.2)
    (hchanges : m.Changes (MovedReg ctx moves) (MovedByte jobMemory frameTop moves) m') :
    MovedOperands jobMemory frameTop moves m m' := by
  refine hchanges.mono (fun r hr => ?_) fun _ => id
  rcases hr with ⟨p, hp, hr⟩ | ⟨rfl, -⟩
  · exact .inl ((h p hp).validDst.isDATA hr)
  · exact .inr ⟨2, rfl⟩

/-- A move to an address scratch register moves an operand. -/
theorem movedOperands_of_address {i : Fin 3} (hchanges : m.Changes (· = addrScrReg i) NoBytes m') :
    MovedOperands jobMemory frameTop moves m m' :=
  hchanges.mono (fun _ hr => .inr ⟨i, hr⟩) fun _ hx => hx.elim

/-- More moves may be given. -/
theorem MovedOperands.mono {moves' : List Move} (h : MovedOperands jobMemory frameTop moves m m')
    (hsub : moves ⊆ moves') : MovedOperands jobMemory frameTop moves' m m' :=
  Changes.mono h (fun _ => id) fun _ ⟨p, hp, hx⟩ => ⟨p, hsub hp, hx⟩

end Phases

/-! ### Exactness -/

/-- What the register allocator did for filling: the registers are different ones, and behind the
moves the size and the value are in their registers, whatever the address register has. -/
structure FillInstr.Allocated (i : FillInstr) (ctx : AddressingContext) (memorySize : ℕ)
    (jobMemory frameTop : BitVec 32) (m : Machine) : Prop where
  valid : i.regs.Valid
  dst : WordOperand i.dst
  moves : MovesOutside memorySize jobMemory frameTop m i.moves
  lifted : ∀ m1 code, m.Changes (· = addrScrReg 2) NoBytes m1 →
    emitMoves ctx i.moves = some code →
      (execAll code m1).regs i.sizeReg = operandValue jobMemory frameTop m i.size ∧
      (execAll code m1).regs i.valueReg = operandValue jobMemory frameTop m i.value

/-- What the register allocator did for copying: the registers are different ones, behind the
first moves the size is in its register and the addresses are as they were, and the other moves
are to slots. -/
structure CopyInstr.Allocated (i : CopyInstr) (ctx : AddressingContext) (memorySize : ℕ)
    (jobMemory frameTop : BitVec 32) (m : Machine) : Prop where
  valid : i.regs.Valid
  dst : WordOperand i.dst
  src : WordOperand i.src
  moves : MovesOutside memorySize jobMemory frameTop m (i.lifts ++ i.spills)
  lifted : ∀ code, emitMoves ctx i.lifts = some code →
    (execAll code m).regs i.sizeReg = operandValue jobMemory frameTop m i.size ∧
      operandValue jobMemory frameTop (execAll code m) i.dst =
        operandValue jobMemory frameTop m i.dst ∧
      operandValue jobMemory frameTop (execAll code m) i.src =
        operandValue jobMemory frameTop m i.src
  spills : ∀ p ∈ i.spills, InMemory p.1

/-- The code fills exactly the range, in every machine with such operands. -/
def FillInstr.Exact (i : FillInstr) {memorySize : ℕ} (request : ExtensionRequest memorySize)
    (ctx : AddressingContext) (jobMemory frameTop : BitVec 32) (m : Machine) : Prop :=
  let n := operandValue jobMemory frameTop m i.size
  ∃ code m0, executeLinearMemoryFill ctx i = some code ∧
    MovedOperands jobMemory frameTop i.moves m m0 ∧ SameMemory memorySize m m0 ∧
    FillExact request (operandValue jobMemory frameTop m i.dst) n
      ((operandValue jobMemory frameTop m i.value).setWidth 8) m0
      (runBulk request.run n.toNat code m)

/-- The code copies exactly the range. -/
def CopyInstr.Exact (i : CopyInstr) {memorySize : ℕ} (request : ExtensionRequest memorySize)
    (ctx : AddressingContext) (jobMemory frameTop : BitVec 32) (m : Machine) : Prop :=
  let n := operandValue jobMemory frameTop m i.size
  ∃ code m0, executeLinearMemoryCopy ctx i = some code ∧
    MovedOperands jobMemory frameTop (i.lifts ++ i.spills) m m0 ∧ SameMemory memorySize m m0 ∧
    CopyExact request (operandValue jobMemory frameTop m i.dst)
      (operandValue jobMemory frameTop m i.src) n m0 (runBulk request.run n.toNat code m)

section Exact

variable {memorySize : ℕ} {ctx : AddressingContext} {jobMemory frameTop : BitVec 32} {m : Machine}

/-- Moving the operands of filling. -/
theorem FillInstr.exists_code (i : FillInstr) (hm : m.Frame ctx jobMemory frameTop)
    (h : i.Allocated ctx memorySize jobMemory frameTop m)
    (hrange : ∀ p ∈ i.moves, MoveInRange ctx p.1 p.2) :
    ∃ ops m2, executeLinearMemoryFill ctx i = some (ops.map .op ++ fillRangeCode i.regs) ∧
      runOps ops m = some m2 ∧ MovedOperands jobMemory frameTop i.moves m m2 ∧
      m2.regs i.regs.dst = operandValue jobMemory frameTop m i.dst ∧
      m2.regs i.regs.size = operandValue jobMemory frameTop m i.size ∧
      m2.regs i.regs.value = operandValue jobMemory frameTop m i.value := by
  obtain ⟨ops, m1, hops, hrun1, hdst1, hchanges1⟩ :=
    runOps_copyValueOfElemToAddrReg (addrScrReg 2) h.dst.1 h.dst.2 hm
  have hmoved1 : MovedOperands jobMemory frameTop i.moves m m1 := movedOperands_of_address hchanges1
  obtain ⟨moves, hmoves, hchanges2⟩ := changes_emitMoves h.moves.registerMove (hmoved1.frame hm)
  obtain ⟨hsize, hvalue⟩ := h.lifted m1 moves hchanges1 hmoves
  refine ⟨ops ++ moves.map .plain, execAll moves m1, ?_,
    (runOps_append hrun1).trans (runOps_plain moves m1),
    hmoved1.trans (movedOperands_of_moves h.moves.registerMove hchanges2), ?_, hsize, hvalue⟩
  · rw [executeLinearMemoryFill, hops, hmoves]
    rfl
  · exact (hchanges2.regs _ (not_movedReg_of_address h.moves.registerMove rfl
      (.inr hrange))).trans hdst1

/-- **Filling** is exact exactly unless no bytes are filled at an odd address, if the moves do
not need the address register. -/
theorem FillInstr.exact_iff (i : FillInstr) (request : ExtensionRequest memorySize)
    (hmem : HasMemory memorySize m) (hm : m.Frame ctx jobMemory frameTop)
    (h : i.Allocated ctx memorySize jobMemory frameTop m)
    (hrange : ∀ p ∈ i.moves, MoveInRange ctx p.1 p.2) :
    i.Exact request ctx jobMemory frameTop m ↔
      memorySize < (operandValue jobMemory frameTop m i.dst).toNat ∨
        operandValue jobMemory frameTop m i.size ≠ 0 ∨
        isOdd (operandValue jobMemory frameTop m i.dst) = false := by
  obtain ⟨ops, m2, hcode, hruns, hmoved, hdst, hsize, hvalue⟩ := i.exists_code hm h hrange
  have hreserved : NotReserved i.regs.dst :=
    ⟨show REG.A 7 ≠ linMem by decide, show REG.A 7 ≠ memSize by decide,
      show REG.A 7 ≠ memLdStReg by decide⟩
  constructor
  · rintro ⟨code, m0, hcode', -, -, hexact⟩
    by_contra hnot
    rw [not_or, not_or, not_not, Bool.not_eq_false, not_lt] at hnot
    obtain ⟨hle, hzero, hodd⟩ := hnot
    obtain rfl := Option.some.inj (hcode.symm.trans hcode')
    have hunfinished := runBulk_fillRangeCode_of_odd request (hmoved.hasMemory hmem) h.valid
      hreserved (by rwa [hdst]) (hsize.trans hzero) (by rwa [hdst])
    rw [runBulk_ops hruns, hzero, show (0 : BitVec 32).toNat = 0 from rfl, hunfinished] at hexact
    cases hexact.1
  · intro hsafe
    rw [← hdst, ← hsize] at hsafe
    refine ⟨_, m2, hcode, hmoved, hmoved.sameMemory h.moves, ?_⟩
    rw [runBulk_ops hruns, ← hdst, ← hsize, ← hvalue]
    exact fillExact_fillRangeCode request (hmoved.hasMemory hmem) h.valid hreserved hsafe

/-- Copying a constant number of bytes, or as many as a register has. -/
theorem CopyInstr.operandValue_of_sizeValue {i : CopyInstr} {value : BitVec 32}
    (hvalue : i.sizeValue = some value) (hsize : i.size.machineType = .i32) :
    operandValue jobMemory frameTop m i.size = value := by
  rw [CopyInstr.sizeValue] at hvalue
  cases hlocation : i.size.location with
  | constant constant =>
      rw [hlocation] at hvalue
      obtain rfl := Option.some.inj hvalue
      have htype : MachineType.i32 ≠ .invalid := by decide
      have hcarried := wordsValue_constant htype constant
      rw [operandValue, storageValue, hlocation, hsize]
      dsimp only
      rw [show MachineType.i32.is64 = false from rfl, wordsValue, if_neg (by decide)] at hcarried
      rw [← hcarried, BitVec.setWidth_setWidth_of_le _ (by decide), BitVec.setWidth_eq]
  | _ =>
      rw [hlocation] at hvalue
      cases hvalue

/-- **Copying** is exact. -/
theorem CopyInstr.exact (i : CopyInstr) (request : ExtensionRequest memorySize)
    (hmem : HasMemory memorySize m) (hm : m.Frame ctx jobMemory frameTop)
    (h : i.Allocated ctx memorySize jobMemory frameTop m) (hsizeType : i.size.machineType = .i32) :
    i.Exact request ctx jobMemory frameTop m := by
  have hmoveLifts : ∀ p ∈ i.lifts, RegisterMove p.1 p.2 := fun p hp =>
    h.moves.registerMove p (List.mem_append_left _ hp)
  have hmoveSpills : ∀ p ∈ i.spills, RegisterMove p.1 p.2 := fun p hp =>
    h.moves.registerMove p (List.mem_append_right _ hp)
  obtain ⟨lifts, hlifts, hchanges1⟩ := changes_emitMoves hmoveLifts hm
  obtain ⟨hsize1, hdst1, hsrc1⟩ := h.lifted lifts hlifts
  let m1 := execAll lifts m
  have hmoved1 : MovedOperands jobMemory frameTop (i.lifts ++ i.spills) m m1 :=
    (movedOperands_of_moves hmoveLifts hchanges1).mono (List.subset_append_left _ _)
  obtain ⟨dst, m2, hdst, hrun2, hdst2, hchanges2⟩ :=
    runOps_copyValueOfElemToAddrReg (addrScrReg 0) h.dst.1 h.dst.2 (hmoved1.frame hm)
  have hmoved2 : MovedOperands jobMemory frameTop (i.lifts ++ i.spills) m m2 :=
    hmoved1.trans (movedOperands_of_address hchanges2)
  obtain ⟨src, m3, hsrc, hrun3, hsrc3, hchanges3⟩ :=
    runOps_copyValueOfElemToAddrReg (addrScrReg 1) h.src.1 h.src.2 (hmoved2.frame hm)
  have hmoved3 : MovedOperands jobMemory frameTop (i.lifts ++ i.spills) m m3 :=
    hmoved2.trans (movedOperands_of_address hchanges3)
  obtain ⟨spills, hspills, hchanges4⟩ := changes_emitMoves hmoveSpills (hmoved3.frame hm)
  let m4 := execAll spills m3
  have hmoved4 : MovedOperands jobMemory frameTop (i.lifts ++ i.spills) m m4 :=
    hmoved3.trans ((movedOperands_of_moves hmoveSpills hchanges4).mono
      (List.subset_append_right _ _))
  have hkept4 : ∀ r, r ≠ addrScrReg 2 → m4.regs r = m3.regs r := by
    intro r hr
    refine hchanges4.regs r ?_
    rintro (⟨p, hp, hreg⟩ | ⟨heq, -⟩)
    · obtain ⟨slot, hslot | hslot⟩ := h.spills p hp <;> rw [StorageReg, hslot] at hreg <;>
        exact hreg
    · exact hr heq
  have hsrcStorage : operandValue jobMemory frameTop m2 i.src =
      operandValue jobMemory frameTop m1 i.src := by
    rw [operandValue, operandValue, storageValue_congr hchanges2]
    rintro r hr rfl
    have hdata := h.src.1.isDATA hr
    exact absurd hdata (by decide)
  have hdst4 : m4.regs i.regs.dst = operandValue jobMemory frameTop m i.dst := by
    change m4.regs (addrScrReg 0) = _
    rw [hkept4 _ (by decide), hchanges3.regs _ (by decide), hdst2]
    exact hdst1
  have hsrc4 : m4.regs i.regs.src = operandValue jobMemory frameTop m i.src := by
    change m4.regs (addrScrReg 1) = _
    rw [hkept4 _ (by decide), hsrc3, hsrcStorage]
    exact hsrc1
  have hsizeData : ∀ j, i.sizeReg ≠ addrScrReg j := fun j hj =>
    not_scratchReg h.valid.size_data ⟨j, hj⟩
  have hsize4 : m4.regs i.regs.size = operandValue jobMemory frameTop m i.size := by
    change m4.regs i.sizeReg = _
    rw [hkept4 _ (hsizeData 2), hchanges3.regs _ (hsizeData 1), hchanges2.regs _ (hsizeData 0)]
    exact hsize1
  have hruns : runOps (lifts.map .plain ++ (dst ++ (src ++ spills.map .plain))) m = some m4 :=
    (runOps_append (runOps_plain lifts m)).trans ((runOps_append hrun2).trans
      ((runOps_append hrun3).trans (runOps_plain spills m3)))
  have hcode : executeLinearMemoryCopy ctx i =
      some ((lifts.map BulkOp.plain ++ (dst ++ (src ++ spills.map BulkOp.plain))).map .op ++
        copyRangeCode i.regs i.sizeValue) := by
    rw [executeLinearMemoryCopy, hlifts, hdst, hsrc, hspills]
    rfl
  refine ⟨_, m4, hcode, hmoved4, hmoved4.sameMemory h.moves, ?_⟩
  rw [runBulk_ops hruns, ← hdst4, ← hsrc4, ← hsize4]
  refine copyExact_copyRangeCode request (hmoved4.hasMemory hmem) h.valid
    ⟨show REG.A 12 ≠ linMem by decide, show REG.A 12 ≠ memSize by decide,
      show REG.A 12 ≠ memLdStReg by decide⟩
    ⟨show REG.A 13 ≠ linMem by decide, show REG.A 13 ≠ memSize by decide,
      show REG.A 13 ≠ memLdStReg by decide⟩ fun value hvalue => ?_
  rw [hsize4]
  exact CopyInstr.operandValue_of_sizeValue hvalue hsizeType

end Exact

/-- The instructions for bulk memory. -/
inductive BulkMemoryInstr where
  | fill (i : FillInstr)
  | copy (i : CopyInstr)

namespace BulkMemoryInstr

/-- The register allocator provided the operands. -/
def Allocated (ctx : AddressingContext) (memorySize : ℕ) (jobMemory frameTop : BitVec 32)
    (m : Machine) : BulkMemoryInstr → Prop
  | fill i => i.Allocated ctx memorySize jobMemory frameTop m
  | copy i => i.Allocated ctx memorySize jobMemory frameTop m ∧ i.size.machineType = .i32

/-- The moves behind the one of the address to fill need no helper register. -/
def KeepsAddress (ctx : AddressingContext) : BulkMemoryInstr → Prop
  | fill i => ∀ p ∈ i.moves, MoveInRange ctx p.1 p.2
  | copy _ => True

/-- The instruction traps exactly for a range beyond the memory, and otherwise writes exactly the
bytes of the destination, with loops of as many iterations as there are bytes at most. -/
def Exact {memorySize : ℕ} (request : ExtensionRequest memorySize) (ctx : AddressingContext)
    (jobMemory frameTop : BitVec 32) (m : Machine) : BulkMemoryInstr → Prop
  | fill i => i.Exact request ctx jobMemory frameTop m
  | copy i => i.Exact request ctx jobMemory frameTop m

/-- The bytes to fill are some, or the address to fill is even or beyond the memory. -/
def Handled (memorySize : ℕ) (jobMemory frameTop : BitVec 32) (m : Machine) :
    BulkMemoryInstr → Prop
  | fill i => memorySize < (operandValue jobMemory frameTop m i.dst).toNat ∨
      operandValue jobMemory frameTop m i.size ≠ 0 ∨
      isOdd (operandValue jobMemory frameTop m i.dst) = false
  | copy _ => True

end BulkMemoryInstr

/-- **Bulk memory instructions** are exact exactly unless no bytes are filled at an odd address
of the memory. -/
theorem bulkMemoryExact_iff {memorySize : ℕ} (request : ExtensionRequest memorySize)
    {ctx : AddressingContext} {jobMemory frameTop : BitVec 32} {m : Machine}
    (hmem : HasMemory memorySize m) (hm : m.Frame ctx jobMemory frameTop) (i : BulkMemoryInstr)
    (h : i.Allocated ctx memorySize jobMemory frameTop m) (hkeeps : i.KeepsAddress ctx) :
    i.Exact request ctx jobMemory frameTop m ↔ i.Handled memorySize jobMemory frameTop m := by
  cases i with
  | fill i => exact i.exact_iff request hmem hm h hkeeps
  | copy i => exact iff_of_true (i.exact request hmem hm h.1 h.2) trivial

/-- A host that provides the whole memory at once. -/
def wholeMemory (memorySize : ℕ) : ExtensionRequest memorySize where
  run m := if memorySize < (m.regs memLdStReg).toNat then none else some m
  run_eq_none_iff _ := by split <;> simp [*]
  hasMemory h hrun := by
    split at hrun
    · cases hrun
    · obtain rfl := Option.some.inj hrun
      exact h
  sameMemory _ hrun := by
    split at hrun
    · cases hrun
    · obtain rfl := Option.some.inj hrun
      exact fun _ _ => rfl
  kept _ hrun := by
    split at hrun
    · cases hrun
    · obtain rfl := Option.some.inj hrun
      exact fun _ _ _ => rfl

/-- Filling with all operands in registers. -/
def registerFill : FillInstr :=
  ⟨⟨.i32, .register (.D 4)⟩, ⟨.i32, .register (.D 1)⟩, ⟨.i32, .register (.D 0)⟩, [],
    .D 0, .D 1, .D 2⟩

/-- A machine with a memory of one page, and with an address and a size in registers. -/
def pageMachine (dst size : BitVec 32) : Machine where
  regs r := if r = linMem then 0x1000 else if r = memSize then 0x10000
    else if r = .D 4 then dst else if r = .D 0 then size else 0
  mem _ := 0
  psw := ⟨false, false, false, false, false, 0⟩
  otherCoreRegs _ := 0

/-- The memory of one page. -/
theorem hasMemory_pageMachine (dst size : BitVec 32) : HasMemory 0x10000 (pageMachine dst size) :=
  ⟨show (0x1000 : BitVec 32).toNat + 0x10000 < 2 ^ 32 by decide,
    show isOdd 0x1000 = false by decide, show (0x10000 : BitVec 32).toNat ≤ 0x10000 by decide⟩

/-- The frame ends at address zero. -/
theorem frame_pageMachine (dst size : BitVec 32) :
    (pageMachine dst size).Frame ⟨0x100, 0⟩ 0xF00 0 :=
  ⟨show (0x1000 : BitVec 32) = 0xF00 + 0x100 by decide, show (0 : BitVec 32) = 0 - 0 by decide⟩

/-- No moves are necessary. -/
theorem allocated_registerFill (dst size : BitVec 32) :
    registerFill.Allocated ⟨0x100, 0⟩ 0x10000 0xF00 0 (pageMachine dst size) := by
  refine ⟨⟨rfl, rfl, rfl, rfl, by decide, by decide, by decide⟩, ⟨⟨by decide, rfl, by decide⟩, rfl⟩,
    ⟨fun p hp => absurd hp List.not_mem_nil, fun n _ => ?_⟩, fun m1 code hchanges hcode => ?_⟩
  · rintro ⟨p, hp, -⟩
    exact absurd hp List.not_mem_nil
  · obtain rfl := Option.some.inj hcode
    have hsize := hchanges.regs (.D 0) (by decide)
    have hvalue := hchanges.regs (.D 1) (by decide)
    refine ⟨hsize.trans ?_, hvalue.trans ?_⟩
    · exact (setWidth_regValue (pageMachine dst size) (.D 0)).symm
    · exact (setWidth_regValue (pageMachine dst size) (.D 1)).symm

/-- Three bytes are filled at an odd address. -/
theorem registerFill_exact :
    (BulkMemoryInstr.fill registerFill).Exact (wholeMemory 0x10000) ⟨0x100, 0⟩ 0xF00 0
      (pageMachine 5 3) :=
  (bulkMemoryExact_iff (wholeMemory 0x10000) (hasMemory_pageMachine 5 3) (frame_pageMachine 5 3)
    (.fill registerFill) (allocated_registerFill 5 3) fun p hp =>
      absurd hp List.not_mem_nil).mpr (.inr (.inl (by decide)))

/-- No bytes are filled at the same address: the loops write all of the memory and more. -/
theorem not_registerFill_exact :
    ¬ (BulkMemoryInstr.fill registerFill).Exact (wholeMemory 0x10000) ⟨0x100, 0⟩ 0xF00 0
      (pageMachine 5 0) := by
  intro hexact
  have hhandled := (registerFill.exact_iff (wholeMemory 0x10000) (hasMemory_pageMachine 5 0)
    (frame_pageMachine 5 0) (allocated_registerFill 5 0) fun p hp =>
      absurd hp List.not_mem_nil).mp hexact
  revert hhandled
  decide

end TriCore

end WasmCompiler
