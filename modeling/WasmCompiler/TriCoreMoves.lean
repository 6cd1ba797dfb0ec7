import WasmCompiler.TriCoreAddressing

/-!
# Moves of the TriCore Backend

`emitMoveImpl` moves a value between storages of one machine type: registers or pairs of
registers, constants, link data and slots of the stack frame. An operand in memory is reached
with a displacement of 10 bits for a 64-bit value, and of 16 bits for a 32-bit value; if it
does not fit, a part of it goes to the third address scratch register, the same one for both
operands.

## Main results

* `InMemory.reaches`: an operand in memory is reached at its own address.
* `moveCorrect_register_constant`, `moveCorrect_register_register`,
  `moveCorrect_register_memory`, `moveCorrect_memory_constant`, `moveCorrect_memory_register`:
  the destination has the value of the source and nothing else is changed, whenever one operand
  is not in memory.
-/

namespace WasmCompiler

namespace TriCore

open ByteMemory Machine

/-! ### The code -/

/-- The number of bits of a displacement. -/
def dispBits (is64 : Bool) : ℕ := if is64 then 10 else 16

/-- Move a constant to the address scratch registers. -/
def loadConstantToScratch (is64 : Bool) (constant : Word) : List Instr :=
  MOVimm32 (addrScrReg 0) (constant.setWidth 32) ++
    (if is64 then MOVimm32 (addrScrReg 1) (constant.extractLsb' 32 32) else [])

/-- Load a word from a slot, with the short forms for `D15`. -/
def loadWordForMove (dstReg base : REG) (disp : BitVec 16) : List Instr :=
  let value := disp.signExtend 32
  if dstReg = .D15 ∧ base = .SP ∧ unsignedInRange 10 value ∧ dispMod4Equal0 disp then
    [.LDW_D15_deref_A10_const8zxls2 ((value >>> 2).setWidth 8)]
  else if dstReg = .D15 ∧ unsignedInRange 6 value ∧ dispMod4Equal0 disp then
    [.LDW_D15_deref_Ab_off4srozxls2 base ((value >>> 2).setWidth 4)]
  else loadWordDRegDerefARegDisp16sx dstReg base disp

/-- `emitMoveImpl`. -/
def emitMoveImpl (ctx : AddressingContext) (dst src : VariableStorage REG)
    (unconditional : Bool) : Option (List Instr) :=
  if !unconditional ∧ dst = src then some []
  else if dst.machineType.is64 then
    match dst.location, src.location with
    | .register dstReg, .constant constant => some (MOVimm64 dstReg constant)
    | .register dstReg, .register srcReg =>
        some [.MOV_Da_Db dstReg srcReg, .MOV_Da_Db dstReg.getOtherExtReg srcReg.getOtherExtReg]
    | .register dstReg, _ => do
        let (code, base, disp) ← getMemRegDisp 10 ctx src (addrScrReg 2)
        return code ++ [.LDD_Ea_deref_Ab_off10sx dstReg base disp]
    | _, .constant constant => do
        let (code, base, disp) ← getMemRegDisp 10 ctx dst (addrScrReg 2)
        return code ++ (loadConstantToScratch true constant ++
          [.STDA_deref_Ab_off10sx_Pa base disp (addrScrReg 0)])
    | _, .register srcReg => do
        let (code, base, disp) ← getMemRegDisp 10 ctx dst (addrScrReg 2)
        return code ++ [.STD_deref_Ab_off10sx_Ea base disp srcReg]
    | _, _ => do
        let (dstCode, dstBase, dstDisp) ← getMemRegDisp 10 ctx dst (addrScrReg 2)
        let (srcCode, srcBase, srcDisp) ← getMemRegDisp 10 ctx src (addrScrReg 2)
        return dstCode ++ (srcCode ++
          [.LDDA_Pa_deref_Ab_off10sx (addrScrReg 0) srcBase srcDisp,
            .STDA_deref_Ab_off10sx_Pa dstBase dstDisp (addrScrReg 0)])
  else
    match dst.location, src.location with
    | .register dstReg, .constant constant => some (MOVimm32 dstReg (constant.setWidth 32))
    | .register dstReg, .register srcReg => some [.MOV_Da_Db dstReg srcReg]
    | .register dstReg, _ => do
        let (code, base, disp) ← getMemRegDisp 16 ctx src (addrScrReg 2)
        return code ++ loadWordForMove dstReg base disp
    | _, .constant constant => do
        let (code, base, disp) ← getMemRegDisp 16 ctx dst (addrScrReg 2)
        return code ++ (loadConstantToScratch false constant ++
          emitStoreDerefOff16sx base (addrScrReg 0) disp)
    | _, .register srcReg => do
        let (code, base, disp) ← getMemRegDisp 16 ctx dst (addrScrReg 2)
        return code ++ storeWordDerefARegDisp16sxDReg srcReg base disp
    | _, _ => do
        let (dstCode, dstBase, dstDisp) ← getMemRegDisp 16 ctx dst (addrScrReg 2)
        let (srcCode, srcBase, srcDisp) ← getMemRegDisp 16 ctx src (addrScrReg 2)
        return dstCode ++ (srcCode ++ (emitLoadDerefOff16sx (addrScrReg 0) srcBase srcDisp ++
          emitStoreDerefOff16sx dstBase (addrScrReg 0) dstDisp))

/-! ### Values of storages -/

/-- The value at an address. -/
def loadValue (m : Machine) (is64 : Bool) (address : BitVec 32) : Word :=
  if is64 then m.load (address + 4) ++ m.load address else (m.load address).setWidth 64

/-- The value in a register or a pair of registers. -/
def regValue (m : Machine) (is64 : Bool) (r : REG) : Word :=
  if is64 then m.regs r.getOtherExtReg ++ m.regs r else (m.regs r).setWidth 64

/-- The value of a storage. -/
def storageValue (jobMemory frameTop : BitVec 32) (m : Machine) (s : VariableStorage REG) : Word :=
  match s.location with
  | .register r => regValue m s.machineType.is64 r
  | .constant constant => s.machineType.carried constant
  | _ => ((cellAddress? jobMemory frameTop s).map (loadValue m s.machineType.is64)).getD 0

/-- The storages that a move may have: of a type, in a data register, which is even for a 64-bit
value, or in memory, or a constant. -/
def ValidStorage (s : VariableStorage REG) : Prop :=
  s.machineType ≠ .invalid ∧
    match s.location with
    | .register r => r.isDATA = true ∧ (s.machineType.is64 = true → r.canBeExtReg = true)
    | .invalid => False
    | _ => True

/-- The registers of a storage. -/
def StorageReg (s : VariableStorage REG) (r : REG) : Prop :=
  match s.location with
  | .register r' => r = r' ∨ (s.machineType.is64 = true ∧ r = r'.getOtherExtReg)
  | _ => False

/-- The bytes of a storage. -/
def StorageByte (jobMemory frameTop : BitVec 32) (s : VariableStorage REG) (x : BitVec 32) : Prop :=
  ∃ a, cellAddress? jobMemory frameTop s = some a ∧ InBlock a s.machineType.getSize x

/-- One of the address scratch registers. -/
def ScratchReg (r : REG) : Prop := ∃ i, r = addrScrReg i

/-- Execution moved a value: the destination has the value that the source had, and nothing but
the destination and the scratch registers was changed. -/
def Moved (jobMemory frameTop : BitVec 32) (dst src : VariableStorage REG) (m m' : Machine) :
    Prop :=
  storageValue jobMemory frameTop m' dst = storageValue jobMemory frameTop m src ∧
    m.Changes (fun r => StorageReg dst r ∨ ScratchReg r) (StorageByte jobMemory frameTop dst) m'

/-- The code moves the value in every state of the machine. -/
def MoveCorrect (ctx : AddressingContext) (dst src : VariableStorage REG)
    (unconditional : Bool) : Prop :=
  ∃ code, emitMoveImpl ctx dst src unconditional = some code ∧
    ∀ (jobMemory frameTop : BitVec 32) (m : Machine), m.Frame ctx jobMemory frameTop →
      Moved jobMemory frameTop dst src m (execAll code m)

/-- The displacement of a storage in memory does not fit. -/
def OutOfRange (ctx : AddressingContext) (s : VariableStorage REG) : Prop :=
  ∃ base disp, baseDisp? ctx s = some (base, disp) ∧
    signedInRange (dispBits s.machineType.is64) disp.toBitVec.toInt = false

/-! ### Operands in memory -/

/-- A storage is reached with a register and a displacement behind code that changes nothing but
the third scratch register. -/
structure Reaches (ctx : AddressingContext) (s : VariableStorage REG) {bits : ℕ}
    (code : List Instr) (reg : REG) (disp : BitVec bits) : Prop where
  address : ∀ jobMemory frameTop m, Machine.Frame ctx jobMemory frameTop m →
    cellAddress? jobMemory frameTop s = some ((execAll code m).regs reg + disp.signExtend 32)
  changes : ∀ m : Machine, m.Changes (· = addrScrReg 2) NoBytes (execAll code m)
  reg_ne : reg ≠ addrScrReg 0 ∧ reg ≠ addrScrReg 1 ∧ reg ≠ .A 15
  inRange : ∀ base d, baseDisp? ctx s = some (base, d) →
    signedInRange bits d.toBitVec.toInt = true → code = [] ∧ reg ≠ addrScrReg 2

/-- A storage in memory. -/
def InMemory (s : VariableStorage REG) : Prop :=
  ∃ p, s.location = .linkData p ∨ s.location = .stackMemory p

/-- A storage that is valid is a register, a constant or in memory. -/
theorem ValidStorage.cases {s : VariableStorage REG} (h : ValidStorage s) :
    (∃ r, s.location = .register r) ∨ (∃ c, s.location = .constant c) ∨ InMemory s := by
  have hlocation := h.2
  cases hs : s.location with
  | register r => exact .inl ⟨r, rfl⟩
  | constant c => exact .inr (.inl ⟨c, rfl⟩)
  | linkData p => exact .inr (.inr ⟨p, .inl hs⟩)
  | stackMemory p => exact .inr (.inr ⟨p, .inr hs⟩)
  | invalid =>
      rw [hs] at hlocation
      exact hlocation.elim

/-- The base of a storage in memory. -/
theorem InMemory.baseDisp? {s : VariableStorage REG} (h : InMemory s) (ctx : AddressingContext) :
    ∃ base disp, baseDisp? ctx s = some (base, disp) ∧ (base = linMem ∨ base = .SP) := by
  obtain ⟨p, h | h⟩ := h
  · exact ⟨_, _, by rw [TriCore.baseDisp?, h], .inl rfl⟩
  · exact ⟨_, _, by rw [TriCore.baseDisp?, h], .inr rfl⟩

/-- **Storages in memory are reached.** -/
theorem InMemory.reaches {s : VariableStorage REG} (h : InMemory s) (ctx : AddressingContext)
    (bits : ℕ) (hbits : 0 < bits) (hle : bits ≤ 32) :
    ∃ code reg, ∃ disp : BitVec bits,
      getMemRegDisp bits ctx s (addrScrReg 2) = some (code, reg, disp) ∧
        Reaches ctx s code reg disp := by
  obtain ⟨base, disp, hbase, hkind⟩ := h.baseDisp? ctx
  have hget : ∃ result, getMemRegDisp bits ctx s (addrScrReg 2) = some result :=
    ⟨_, by rw [getMemRegDisp, hbase]; rfl⟩
  obtain ⟨⟨code, reg, field⟩, hget⟩ := hget
  have hcases := getMemRegDisp_cases hget hbase
  refine ⟨code, reg, field, hget, fun jobMemory frameTop m hm =>
    (getMemRegDisp_address hbits hle hget hm).1, fun m => ?_, ?_, fun base' d hbase' hrange => ?_⟩
  · obtain ⟨jobMemory, frameTop, hm⟩ := m.exists_frame ctx
    exact (getMemRegDisp_address hbits hle hget hm).2
  · rcases hcases with ⟨-, -, rfl, -⟩ | ⟨-, rfl, -, -⟩
    · rcases hkind with rfl | rfl <;> decide
    · decide
  · obtain ⟨rfl, rfl⟩ := Prod.mk.inj (Option.some.inj (hbase.symm.trans hbase'))
    rcases hcases with ⟨-, hcode, rfl, -⟩ | ⟨hout, -⟩
    · exact ⟨hcode, by rcases hkind with rfl | rfl <;> decide⟩
    · rw [hrange] at hout
      cases hout

/-! ### The parts of the code -/

/-- A constant is loaded to the scratch registers. -/
theorem execAll_loadConstantToScratch (is64 : Bool) (constant : Word) (m : Machine) :
    let m' := execAll (loadConstantToScratch is64 constant) m
    m'.regs (addrScrReg 0) = constant.setWidth 32 ∧
      (is64 = true → m'.regs (addrScrReg 1) = constant.extractLsb' 32 32) ∧
      m.Changes (fun r => r = addrScrReg 0 ∨ r = addrScrReg 1) NoBytes m' := by
  have hlow := execAll_MOVimm32 (addrScrReg 0) (constant.setWidth 32) m
  have hlowChanges : m.Changes (fun r => r = addrScrReg 0 ∨ r = addrScrReg 1) NoBytes
      (execAll (MOVimm32 (addrScrReg 0) (constant.setWidth 32)) m) :=
    hlow.changes.mono (fun _ => .inl) (fun _ => id)
  cases is64 with
  | false =>
      simp only [loadConstantToScratch, Bool.false_eq_true, if_false, List.append_nil]
      exact ⟨by rw [hlow.regs, Function.update_self], fun h => absurd h (by decide), hlowChanges⟩
  | true =>
      simp only [loadConstantToScratch, if_true, execAll_append]
      have hhigh := execAll_MOVimm32 (addrScrReg 1) (constant.extractLsb' 32 32)
        (execAll (MOVimm32 (addrScrReg 0) (constant.setWidth 32)) m)
      refine ⟨?_, fun _ => by rw [hhigh.regs, Function.update_self], hlowChanges.trans
        (hhigh.changes.mono (fun _ => .inr) (fun _ => id))⟩
      rw [hhigh.regs, Function.update_of_ne (by decide), hlow.regs, Function.update_self]

/-- A word is loaded for a move. -/
theorem execAll_loadWordForMove {dstReg base : REG} (hbase : base ≠ .A 15) (disp : BitVec 16)
    (m : Machine) :
    m.Sets dstReg (m.load (m.regs base + disp.signExtend 32))
      (execAll (loadWordForMove dstReg base disp) m) := by
  rw [loadWordForMove]
  split
  · case _ h =>
      obtain ⟨rfl, rfl, hrange, hmod⟩ := h
      have hshifted := shifted_of_mod_four 8 hrange (mod_four_of_dispMod4Equal0 hmod)
      exact ⟨by simp [Instr.exec, hshifted], rfl⟩
  · split
    · case _ h =>
        obtain ⟨rfl, hrange, hmod⟩ := h
        have hshifted := shifted_of_mod_four 4 hrange (mod_four_of_dispMod4Equal0 hmod)
        exact ⟨by simp [Instr.exec, hshifted], rfl⟩
    · exact execAll_loadWordDRegDerefARegDisp16sx hbase disp m

/-- The words of a value. -/
def wordsValue (is64 : Bool) (low high : BitVec 32) : Word :=
  if is64 then high ++ low else low.setWidth 64

section Moved

variable {jobMemory frameTop : BitVec 32} {dst src : VariableStorage REG} {m m1 m' : Machine}

/-- A register, or a pair of registers, was written last. -/
theorem moved_of_sets {dstReg : REG} (low high : BitVec 32) (hdst : dst.location = .register dstReg)
    (hm1 : m.Changes ScratchReg NoBytes m1)
    (hpair : dst.machineType.is64 = true → m1.SetsPair dstReg low high m')
    (hword : dst.machineType.is64 = false → m1.Sets dstReg low m')
    (hvalue : wordsValue dst.machineType.is64 low high =
      storageValue jobMemory frameTop m src) :
    Moved jobMemory frameTop dst src m m' := by
  have hm1' : m.Changes (fun r => StorageReg dst r ∨ ScratchReg r)
      (StorageByte jobMemory frameTop dst) m1 := hm1.mono (fun _ => .inr) (fun _ h => h.elim)
  cases h64 : dst.machineType.is64 with
  | true =>
      have hsets := hpair h64
      rw [h64] at hvalue
      refine ⟨?_, hm1'.trans ⟨fun r hr => ?_, fun x _ => by rw [hsets.mem]⟩⟩
      · rw [← hvalue]
        simp [storageValue, hdst, regValue, h64, hsets.regs, wordsValue,
          Function.update_of_ne (REG.getOtherExtReg_ne dstReg).symm]
      · have hne : r ≠ dstReg ∧ r ≠ dstReg.getOtherExtReg := by
          refine ⟨fun h => hr (.inl ?_), fun h => hr (.inl ?_)⟩
          · simp [StorageReg, hdst, h]
          · simp [StorageReg, hdst, h, h64]
        rw [hsets.regs, Function.update_of_ne hne.2, Function.update_of_ne hne.1]
  | false =>
      have hsets := hword h64
      rw [h64] at hvalue
      refine ⟨?_, hm1'.trans ⟨fun r hr => ?_, fun x _ => by rw [hsets.mem]⟩⟩
      · rw [← hvalue]
        simp [storageValue, hdst, regValue, h64, hsets.regs, wordsValue]
      · have hne : r ≠ dstReg := fun h => hr (.inl (by simp [StorageReg, hdst, h]))
        rw [hsets.regs, Function.update_of_ne hne]

/-- The value of a storage in memory. -/
theorem storageValue_of_cell {s : VariableStorage REG} {a : BitVec 32} (hs : InMemory s)
    (h : cellAddress? jobMemory frameTop s = some a) (m : Machine) :
    storageValue jobMemory frameTop m s = loadValue m s.machineType.is64 a := by
  obtain ⟨p, hp | hp⟩ := hs <;> simp [storageValue, hp, h]

/-- Words in memory were written last. -/
theorem moved_of_stores {a : BitVec 32} (low high : BitVec 32) (hmem : InMemory dst)
    (hvalid : ValidStorage dst) (hdst : cellAddress? jobMemory frameTop dst = some a)
    (hm1 : m.Changes ScratchReg NoBytes m1)
    (hpair : dst.machineType.is64 = true → m' = m1.storePair a low high)
    (hword : dst.machineType.is64 = false → m1.Stores a low m')
    (hvalue : wordsValue dst.machineType.is64 low high =
      storageValue jobMemory frameTop m src) :
    Moved jobMemory frameTop dst src m m' := by
  have hm1' : m.Changes (fun r => StorageReg dst r ∨ ScratchReg r)
      (StorageByte jobMemory frameTop dst) m1 := hm1.mono (fun _ => .inr) (fun _ h => h.elim)
  rw [Moved, storageValue_of_cell hmem hdst, ← hvalue]
  cases h64 : dst.machineType.is64 with
  | true =>
      have hsize : dst.machineType.getSize = 8 := by
        revert h64
        cases dst.machineType <;> decide
      rw [hpair h64]
      obtain ⟨hlow, hhigh⟩ := m1.load_storePair a low high
      refine ⟨by simp only [loadValue, if_true, hlow, hhigh, wordsValue], hm1'.trans ?_⟩
      exact (m1.storePair_changes a low high).mono (fun _ h => h.elim)
        fun x hx => ⟨a, hdst, hsize ▸ hx⟩
  | false =>
      have hsize : dst.machineType.getSize = 4 := by
        have hne := hvalid.1
        revert h64 hne
        cases dst.machineType <;> decide
      have hstores := hword h64
      refine ⟨?_, hm1'.trans ⟨fun r _ => by rw [hstores.regs], fun x hx => ?_⟩⟩
      · simp [loadValue, wordsValue, Machine.load, hstores.mem]
      · rw [hstores.mem]
        exact storeWord_of_not_inBlock fun hin => hx ⟨a, hdst, hsize ▸ hin⟩

end Moved

/-! ### Values as words -/

/-- The words of a constant. -/
theorem wordsValue_constant {machineType : MachineType} (h : machineType ≠ .invalid)
    (constant : Word) :
    wordsValue machineType.is64 (constant.setWidth 32) (constant.extractLsb' 32 32) =
      machineType.carried constant := by
  have hwhole : constant.extractLsb' 32 32 ++ constant.setWidth 32 = constant := by
    refine BitVec.eq_of_getLsbD_eq fun i hi => ?_
    rw [BitVec.getLsbD_append]
    split
    · case _ h => simp [h]
    · case _ h =>
        rw [BitVec.getLsbD_extractLsb']
        have hlt : i - 32 < 32 := by omega
        have hadd : 32 + (i - 32) = i := by omega
        simp [hlt, hadd]
  cases machineType with
  | invalid => exact absurd rfl h
  | i32 | f32 => rfl
  | i64 | f64 => rw [MachineType.carried_of_is64 rfl]; exact hwhole

/-- The words at an address. -/
theorem wordsValue_load (m : Machine) (is64 : Bool) (a : BitVec 32) :
    wordsValue is64 (m.load a) (m.load (a + 4)) = loadValue m is64 a := rfl

/-- The words of registers. -/
theorem wordsValue_regs (m : Machine) (is64 : Bool) (r : REG) :
    wordsValue is64 (m.regs r) (m.regs r.getOtherExtReg) = regValue m is64 r := rfl

/-- Registers that are not changed keep their words. -/
theorem Machine.Changes.load {regs : REG → Prop} {m m' : Machine}
    (h : m.Changes regs NoBytes m') (a : BitVec 32) : m'.load a = m.load a :=
  ByteMemory.readWord_congr fun x _ => h.mem x fun hx => hx.elim

/-- A data register is no address scratch register. -/
theorem not_scratchReg {r : REG} (h : r.isDATA = true) : ¬ ScratchReg r := by
  rintro ⟨i, rfl⟩
  revert h
  exact match i with
    | 0 => by decide
    | 1 => by decide
    | 2 => by decide

/-- The value of a storage is kept while other registers are written. -/
theorem storageValue_congr {regs : REG → Prop} {s : VariableStorage REG} {m m' : Machine}
    (h : m.Changes regs NoBytes m') (hs : ∀ r, StorageReg s r → ¬ regs r)
    (jobMemory frameTop : BitVec 32) :
    storageValue jobMemory frameTop m' s = storageValue jobMemory frameTop m s := by
  have hload : ∀ is64 a, loadValue m' is64 a = loadValue m is64 a := fun is64 a => by
    rw [loadValue, loadValue, h.load, h.load]
  obtain ⟨machineType, location⟩ := s
  cases location with
  | register r =>
      have hlow : m'.regs r = m.regs r := h.regs r (hs r (.inl rfl))
      cases h64 : machineType.is64 with
      | true =>
          have hhigh := h.regs r.getOtherExtReg (hs r.getOtherExtReg (.inr ⟨h64, rfl⟩))
          simp only [storageValue, regValue, h64, if_true, hlow, hhigh]
      | false => simp only [storageValue, regValue, h64, Bool.false_eq_true, if_false, hlow]
  | constant c => simp only [storageValue]
  | linkData p => simp only [storageValue, cellAddress?, Option.map_some, hload]
  | stackMemory p => simp only [storageValue, cellAddress?, Option.map_some, hload]
  | invalid => simp only [storageValue, cellAddress?, Option.map_none]

/-! ### The branches -/

section Branches

variable {ctx : AddressingContext} {dst src : VariableStorage REG} {unconditional : Bool}

/-- A constant to a register. -/
theorem moveCorrect_register_constant {dstReg : REG} {constant : Word}
    (hdst : dst.location = .register dstReg) (hsrc : src.location = .constant constant)
    (hvalid : ValidStorage dst) (htype : dst.machineType = src.machineType) :
    MoveCorrect ctx dst src unconditional := by
  have hne : ¬ (!unconditional ∧ dst = src) := by
    rintro ⟨-, rfl⟩
    rw [hdst] at hsrc
    cases hsrc
  have hvalue : ∀ jobMemory frameTop m,
      wordsValue dst.machineType.is64 (constant.setWidth 32) (constant.extractLsb' 32 32) =
        storageValue jobMemory frameTop m src := fun jobMemory frameTop m => by
    rw [wordsValue_constant hvalid.1, storageValue, hsrc, htype]
  cases h64 : dst.machineType.is64 with
  | true =>
      refine ⟨MOVimm64 dstReg constant, ?_, fun jobMemory frameTop m _ => ?_⟩
      · rw [emitMoveImpl, if_neg hne]
        simp [h64, hdst, hsrc]
      · exact moved_of_sets _ _ hdst (.refl _ _ m) (fun _ => execAll_MOVimm64 dstReg constant m)
          (fun h => absurd h64 (by rw [h]; decide)) (hvalue jobMemory frameTop m)
  | false =>
      refine ⟨MOVimm32 dstReg (constant.setWidth 32), ?_, fun jobMemory frameTop m _ => ?_⟩
      · rw [emitMoveImpl, if_neg hne]
        simp [h64, hdst, hsrc]
      · exact moved_of_sets _ _ hdst (.refl _ _ m) (fun h => absurd h64 (by rw [h]; decide))
          (fun _ => execAll_MOVimm32 dstReg (constant.setWidth 32) m) (hvalue jobMemory frameTop m)

/-- A register to a register. -/
theorem moveCorrect_register_register {dstReg srcReg : REG}
    (hdst : dst.location = .register dstReg) (hsrc : src.location = .register srcReg)
    (hvalid : ValidStorage dst) (hvalidSrc : ValidStorage src)
    (htype : dst.machineType = src.machineType) (hne : ¬ (!unconditional ∧ dst = src)) :
    MoveCorrect ctx dst src unconditional := by
  have hvalue : ∀ jobMemory frameTop m,
      wordsValue dst.machineType.is64 (m.regs srcReg) (m.regs srcReg.getOtherExtReg) =
        storageValue jobMemory frameTop m src := fun jobMemory frameTop m => by
    rw [wordsValue_regs, storageValue, hsrc, htype]
  cases h64 : dst.machineType.is64 with
  | true =>
      have heven : dstReg.canBeExtReg = true := by
        have h := hvalid.2
        rw [hdst] at h
        exact h.2 h64
      have hevenSrc : srcReg.canBeExtReg = true := by
        have h := hvalidSrc.2
        rw [hsrc] at h
        exact h.2 (htype ▸ h64)
      refine ⟨_, by rw [emitMoveImpl, if_neg hne]; simp only [h64, hdst, hsrc, if_true]; rfl,
        fun jobMemory frameTop m _ => ?_⟩
      refine moved_of_sets _ _ hdst (.refl _ _ m) (fun _ => ⟨?_, rfl⟩)
        (fun h => absurd h64 (by rw [h]; decide)) (hvalue jobMemory frameTop m)
      have hkept : srcReg.getOtherExtReg ≠ dstReg := REG.getOtherExtReg_ne_of_even hevenSrc heven
      simp [Instr.exec, Function.update_of_ne hkept]
  | false =>
      refine ⟨_, by
        rw [emitMoveImpl, if_neg hne]; simp only [h64, hdst, hsrc, Bool.false_eq_true, if_false]
        rfl, fun jobMemory frameTop m _ => ?_⟩
      exact moved_of_sets _ _ hdst (.refl _ _ m) (fun h => absurd h64 (by rw [h]; decide))
        (fun _ => ⟨by simp [Instr.exec], rfl⟩) (hvalue jobMemory frameTop m)

/-- Memory to a register. -/
theorem moveCorrect_register_memory {dstReg : REG}
    (hdst : dst.location = .register dstReg) (hsrc : InMemory src)
    (htype : dst.machineType = src.machineType) :
    MoveCorrect ctx dst src unconditional := by
  have hne : ¬ (!unconditional ∧ dst = src) := by
    rintro ⟨-, rfl⟩
    obtain ⟨p, hp | hp⟩ := hsrc <;> rw [hdst] at hp <;> cases hp
  cases h64 : dst.machineType.is64 with
  | true =>
      obtain ⟨code, reg, disp, hget, hreach⟩ :=
        hsrc.reaches ctx 10 (by decide) (by decide)
      refine ⟨code ++ [.LDD_Ea_deref_Ab_off10sx dstReg reg disp], ?_,
        fun jobMemory frameTop m hm => ?_⟩
      · rw [emitMoveImpl, if_neg hne]
        obtain ⟨p, hp | hp⟩ := hsrc <;> simp [h64, hdst, hp, hget]
      · have hcell := hreach.address jobMemory frameTop m hm
        refine moved_of_sets _ _ hdst ((hreach.changes m).mono (fun r h => ⟨2, h⟩) fun _ => id)
          (fun _ => by rw [execAll_append]; exact ⟨rfl, rfl⟩)
          (fun h => absurd h64 (by rw [h]; decide)) ?_
        rw [storageValue_of_cell hsrc hcell, htype, (hreach.changes m).load,
          (hreach.changes m).load, wordsValue_load]
  | false =>
      obtain ⟨code, reg, disp, hget, hreach⟩ :=
        hsrc.reaches ctx 16 (by decide) (by decide)
      refine ⟨code ++ loadWordForMove dstReg reg disp, ?_, fun jobMemory frameTop m hm => ?_⟩
      · rw [emitMoveImpl, if_neg hne]
        obtain ⟨p, hp | hp⟩ := hsrc <;> simp [h64, hdst, hp, hget]
      · have hcell := hreach.address jobMemory frameTop m hm
        refine moved_of_sets _ (m.load ((execAll code m).regs reg + disp.signExtend 32 + 4))
          hdst ((hreach.changes m).mono (fun r h => ⟨2, h⟩) fun _ => id)
          (fun h => absurd h64 (by rw [h]; decide))
          (fun _ => by
            rw [execAll_append]
            exact execAll_loadWordForMove hreach.reg_ne.2.2 disp _) ?_
        rw [storageValue_of_cell hsrc hcell, htype, (hreach.changes m).load, wordsValue_load]

/-- A constant to memory. -/
theorem moveCorrect_memory_constant {constant : Word}
    (hdst : InMemory dst) (hsrc : src.location = .constant constant)
    (hvalid : ValidStorage dst) (htype : dst.machineType = src.machineType) :
    MoveCorrect ctx dst src unconditional := by
  have hne : ¬ (!unconditional ∧ dst = src) := by
    rintro ⟨-, rfl⟩
    obtain ⟨p, hp | hp⟩ := hdst <;> rw [hsrc] at hp <;> cases hp
  have hvalue : ∀ jobMemory frameTop m,
      wordsValue dst.machineType.is64 (constant.setWidth 32) (constant.extractLsb' 32 32) =
        storageValue jobMemory frameTop m src := fun jobMemory frameTop m => by
    rw [wordsValue_constant hvalid.1, storageValue, hsrc, htype]
  cases h64 : dst.machineType.is64 with
  | true =>
      obtain ⟨code, reg, disp, hget, hreach⟩ :=
        hdst.reaches ctx 10 (by decide) (by decide)
      refine ⟨code ++ (loadConstantToScratch true constant ++
        [.STDA_deref_Ab_off10sx_Pa reg disp (addrScrReg 0)]), ?_, fun jobMemory frameTop m hm => ?_⟩
      · rw [emitMoveImpl, if_neg hne]
        obtain ⟨p, hp | hp⟩ := hdst <;> simp [h64, hsrc, hp, hget]
      · obtain ⟨hlow, hhigh, hchanges⟩ :=
          execAll_loadConstantToScratch true constant (execAll code m)
        refine moved_of_stores _ _ hdst hvalid (hreach.address jobMemory frameTop m hm)
          (((hreach.changes m).mono (fun r h => ⟨2, h⟩) fun _ => id).trans
            (hchanges.mono (fun r h => h.elim (⟨0, ·⟩) (⟨1, ·⟩)) fun _ => id))
          (fun _ => ?_) (fun h => absurd h64 (by rw [h]; decide)) (hvalue jobMemory frameTop m)
        have hreg := hchanges.regs reg (not_or.mpr ⟨hreach.reg_ne.1, hreach.reg_ne.2.1⟩)
        rw [execAll_append, execAll_append, execAll_cons, execAll_nil, Instr.exec, hlow, hreg,
          show (addrScrReg 0).getOtherExtReg = addrScrReg 1 from rfl, hhigh rfl]
  | false =>
      obtain ⟨code, reg, disp, hget, hreach⟩ :=
        hdst.reaches ctx 16 (by decide) (by decide)
      refine ⟨code ++ (loadConstantToScratch false constant ++
        emitStoreDerefOff16sx reg (addrScrReg 0) disp), ?_, fun jobMemory frameTop m hm => ?_⟩
      · rw [emitMoveImpl, if_neg hne]
        obtain ⟨p, hp | hp⟩ := hdst <;> simp [h64, hsrc, hp, hget]
      · obtain ⟨hlow, -, hchanges⟩ :=
          execAll_loadConstantToScratch false constant (execAll code m)
        refine moved_of_stores _ _ hdst hvalid (hreach.address jobMemory frameTop m hm)
          (((hreach.changes m).mono (fun r h => ⟨2, h⟩) fun _ => id).trans
            (hchanges.mono (fun r h => h.elim (⟨0, ·⟩) (⟨1, ·⟩)) fun _ => id))
          (fun h => absurd h64 (by rw [h]; decide)) (fun _ => ?_) (hvalue jobMemory frameTop m)
        have hreg := hchanges.regs reg (not_or.mpr ⟨hreach.reg_ne.1, hreach.reg_ne.2.1⟩)
        rw [execAll_append, execAll_append, ← hreg, ← hlow]
        exact execAll_emitStoreDerefOff16sx reg (addrScrReg 0) disp _

/-- A register to memory. -/
theorem moveCorrect_memory_register {srcReg : REG}
    (hdst : InMemory dst) (hsrc : src.location = .register srcReg)
    (hvalid : ValidStorage dst) (hvalidSrc : ValidStorage src)
    (htype : dst.machineType = src.machineType) :
    MoveCorrect ctx dst src unconditional := by
  have hne : ¬ (!unconditional ∧ dst = src) := by
    rintro ⟨-, rfl⟩
    obtain ⟨p, hp | hp⟩ := hdst <;> rw [hsrc] at hp <;> cases hp
  have hdata : srcReg.isDATA = true := by
    have h := hvalidSrc.2
    rw [hsrc] at h
    exact h.1
  have hvalue : ∀ jobMemory frameTop m,
      wordsValue dst.machineType.is64 (m.regs srcReg) (m.regs srcReg.getOtherExtReg) =
        storageValue jobMemory frameTop m src := fun jobMemory frameTop m => by
    rw [wordsValue_regs, storageValue, hsrc, htype]
  cases h64 : dst.machineType.is64 with
  | true =>
      obtain ⟨code, reg, disp, hget, hreach⟩ :=
        hdst.reaches ctx 10 (by decide) (by decide)
      refine ⟨code ++ [.STD_deref_Ab_off10sx_Ea reg disp srcReg], ?_,
        fun jobMemory frameTop m hm => ?_⟩
      · rw [emitMoveImpl, if_neg hne]
        obtain ⟨p, hp | hp⟩ := hdst <;> simp [h64, hsrc, hp, hget]
      · have hchanges : m.Changes ScratchReg NoBytes (execAll code m) :=
          (hreach.changes m).mono (fun r h => ⟨2, h⟩) fun _ => id
        refine moved_of_stores _ _ hdst hvalid (hreach.address jobMemory frameTop m hm) hchanges
          (fun _ => ?_) (fun h => absurd h64 (by rw [h]; decide)) (hvalue jobMemory frameTop m)
        have hdata' : srcReg.getOtherExtReg.isDATA = true := by rwa [REG.isDATA_getOtherExtReg]
        rw [execAll_append, execAll_cons, execAll_nil, Instr.exec,
          hchanges.regs _ (not_scratchReg hdata), hchanges.regs _ (not_scratchReg hdata')]
  | false =>
      obtain ⟨code, reg, disp, hget, hreach⟩ :=
        hdst.reaches ctx 16 (by decide) (by decide)
      refine ⟨code ++ storeWordDerefARegDisp16sxDReg srcReg reg disp, ?_,
        fun jobMemory frameTop m hm => ?_⟩
      · rw [emitMoveImpl, if_neg hne]
        obtain ⟨p, hp | hp⟩ := hdst <;> simp [h64, hsrc, hp, hget]
      · have hchanges : m.Changes ScratchReg NoBytes (execAll code m) :=
          (hreach.changes m).mono (fun r h => ⟨2, h⟩) fun _ => id
        refine moved_of_stores _ _ hdst hvalid (hreach.address jobMemory frameTop m hm) hchanges
          (fun h => absurd h64 (by rw [h]; decide)) (fun _ => ?_) (hvalue jobMemory frameTop m)
        rw [execAll_append, ← hchanges.regs _ (not_scratchReg hdata)]
        exact execAll_storeWordDerefARegDisp16sxDReg srcReg reg disp _

end Branches

end TriCore

end WasmCompiler
