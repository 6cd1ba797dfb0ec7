import WasmCompiler.TriCoreAssembler
import WasmCompiler.VariableStorage
import Mathlib.Tactic.IntervalCases
import Mathlib.Tactic.Linarith
import Mathlib.Tactic.Positivity

/-!
# TriCore Addressing

How the code of the TriCore backend reaches the link data and the slots of the stack frame: with
a displacement from the base of the linear memory or from the stack pointer. A displacement that
does not fit in an instruction is split, and a part of it goes to a scratch register.

The call of a dynamically linked import has its own split of the displacement. The part in the
register and the base of the load are different registers there.

## Main results

* `getMemRegDisp_address`: the register and the displacement are exactly the address of a cell.
* `addressing_exact_iff`: the call of an import jumps to the pointer of that import exactly
  if the displacement of the pointer fits in 16 bits.
-/

namespace WasmCompiler

namespace TriCore

open ByteMemory Machine

/-! ### Dedicated registers -/

/-- `REGS::linMem`. -/
def linMem : REG := .A 2

/-- `REGS::addrScrReg`. -/
def addrScrReg : Fin 3 → REG
  | 0 => .A 12
  | 1 => .A 13
  | 2 => .A 7

/-! ### Cells of the job memory and of the stack frame -/

/-- What addressing depends on. -/
structure AddressingContext where
  /-- `getBasedataLength()`. -/
  basedataLength : UInt32
  /-- `fnc.stackFrameSize`. -/
  stackFrameSize : UInt32
  deriving DecidableEq, Repr

/-- `Basedata::FromStart::linkData`. -/
def linkDataFromStart : UInt32 := 8

/-- Where the job memory begins and where the frame ends: the base of the linear memory is
behind the basedata, the stack pointer is below the frame. -/
structure Machine.Frame (ctx : AddressingContext) (jobMemory frameTop : BitVec 32) (m : Machine) :
    Prop where
  linMem : m.regs linMem = jobMemory + ctx.basedataLength.toBitVec
  stackPointer : m.regs .SP = frameTop - ctx.stackFrameSize.toBitVec

/-- The job memory and the frame are somewhere. -/
theorem Machine.exists_frame (ctx : AddressingContext) (m : Machine) :
    ∃ jobMemory frameTop, m.Frame ctx jobMemory frameTop :=
  ⟨m.regs TriCore.linMem - ctx.basedataLength.toBitVec,
    m.regs .SP + ctx.stackFrameSize.toBitVec,
    (BitVec.sub_add_cancel _ _).symm, (BitVec.add_sub_cancel _ _).symm⟩

/-- The frame stays where it is while other registers are written. -/
theorem Machine.Frame.of_changes {ctx : AddressingContext} {jobMemory frameTop : BitVec 32}
    {regs : REG → Prop} {bytes : BitVec 32 → Prop} {m m' : Machine}
    (hm : m.Frame ctx jobMemory frameTop) (h : m.Changes regs bytes m')
    (hlinMem : ¬ regs TriCore.linMem) (hsp : ¬ regs .SP) : m'.Frame ctx jobMemory frameTop :=
  ⟨(h.regs _ hlinMem).trans hm.linMem, (h.regs _ hsp).trans hm.stackPointer⟩

/-- The address of the cell of a storage. -/
def cellAddress? (jobMemory frameTop : BitVec 32) (s : VariableStorage REG) :
    Option (BitVec 32) :=
  match s.location with
  | .linkData linkDataOffset =>
      some (jobMemory + linkDataFromStart.toBitVec + linkDataOffset.toBitVec)
  | .stackMemory stackFramePosition => some (frameTop - stackFramePosition.toBitVec)
  | _ => none

/-- The base register of a storage in memory and the displacement from it. -/
def baseDisp? (ctx : AddressingContext) (s : VariableStorage REG) : Option (REG × UInt32) :=
  match s.location with
  | .linkData linkDataOffset =>
      some (linMem, (linkDataFromStart - ctx.basedataLength) + linkDataOffset)
  | .stackMemory stackFramePosition => some (.SP, ctx.stackFrameSize - stackFramePosition)
  | _ => none

/-- The base and the displacement are the address of the cell. -/
theorem base_add_disp {ctx : AddressingContext} {s : VariableStorage REG} {base : REG}
    {disp : UInt32} (h : baseDisp? ctx s = some (base, disp)) {jobMemory frameTop : BitVec 32}
    {m : Machine} (hm : m.Frame ctx jobMemory frameTop) :
    cellAddress? jobMemory frameTop s = some (m.regs base + disp.toBitVec) := by
  obtain ⟨machineType, location⟩ := s
  cases location with
  | linkData linkDataOffset =>
      obtain ⟨rfl, rfl⟩ := Prod.mk.inj (Option.some.inj h)
      rw [hm.linMem, UInt32.toBitVec_add, UInt32.toBitVec_sub]
      refine congrArg some ?_
      grind
  | stackMemory stackFramePosition =>
      obtain ⟨rfl, rfl⟩ := Prod.mk.inj (Option.some.inj h)
      rw [hm.stackPointer, UInt32.toBitVec_sub]
      refine congrArg some ?_
      grind
  | register r => cases h
  | constant c => cases h
  | invalid => cases h

/-! ### Displacements that are split -/

/-- The largest displacement of a field, `upperBound`. -/
def upperBound (bits : ℕ) : ℤ := 2 ^ (bits - 1) - 1

/-- The part of a displacement that does not fit which stays in the instruction, `rest`: the
bound that is exceeded. -/
def splitRest (bits : ℕ) (returnDisp : ℤ) : ℤ :=
  if upperBound bits < returnDisp then upperBound bits else -upperBound bits - 1

/-- `getMemRegDisp`, with the code that it emits. -/
def getMemRegDisp (bits : ℕ) (ctx : AddressingContext) (storage : VariableStorage REG)
    (addrScrReg : REG) : Option (List Instr × REG × BitVec bits) :=
  (baseDisp? ctx storage).map fun (returnReg, disp) =>
    let returnDisp := disp.toBitVec.toInt
    if signedInRange bits returnDisp then ([], returnReg, disp.toBitVec.setWidth bits)
    else
      let rest := splitRest bits returnDisp
      let toAdd := returnDisp - rest
      (addImmToReg returnReg (BitVec.ofInt 32 toAdd) addrScrReg, addrScrReg,
        BitVec.ofInt bits rest)

/-- A bound is kept by its field. -/
theorem signExtend_ofInt {bits : ℕ} (hbits : 0 < bits) (hle : bits ≤ 32) {value : ℤ}
    (h : signedInRange bits value = true) :
    (BitVec.ofInt bits value).signExtend 32 = BitVec.ofInt 32 value := by
  obtain ⟨n, rfl⟩ : ∃ n, bits = n + 1 := ⟨bits - 1, by omega⟩
  have hrange : -2 ^ n ≤ value ∧ value < 2 ^ n := by simpa [signedInRange] using h
  have hpow : (2 : ℤ) ^ n ≤ 2 ^ 31 := pow_le_pow_right₀ (by decide) (by omega)
  refine BitVec.eq_of_toInt_eq ?_
  rw [BitVec.toInt_signExtend_of_le hle, BitVec.toInt_ofInt, BitVec.toInt_ofInt,
    Int.bmod_eq_of_le, Int.bmod_eq_of_le]
  · omega
  · omega
  · push_cast [pow_succ]
    omega
  · push_cast [pow_succ]
    omega

/-- The part that stays in the instruction is in range. -/
theorem signedInRange_splitRest (bits : ℕ) (returnDisp : ℤ) :
    signedInRange bits (splitRest bits returnDisp) = true := by
  have hpow : (0 : ℤ) < 2 ^ (bits - 1) := by positivity
  rw [splitRest, upperBound]
  split
  · exact decide_eq_true ⟨by omega, by omega⟩
  · exact decide_eq_true ⟨by omega, by omega⟩

/-- The two parts of a displacement add up to it. -/
theorem ofInt_sub_add {bits : ℕ} (hbits : 0 < bits) (hle : bits ≤ 32) {disp : BitVec 32} {bound : ℤ}
    (hbound : signedInRange bits bound = true) (a : BitVec 32) :
    a + BitVec.ofInt 32 (disp.toInt - bound) + (BitVec.ofInt bits bound).signExtend 32 =
      a + disp := by
  rw [signExtend_ofInt hbits hle hbound, BitVec.add_assoc, ← BitVec.ofInt_add, Int.sub_add_cancel,
    BitVec.ofInt_toInt]

/-- A displacement is in the instruction, or a part of it is added to the base. -/
theorem getMemRegDisp_cases {bits : ℕ} {ctx : AddressingContext} {storage : VariableStorage REG}
    {addrScrReg reg base : REG} {code : List Instr} {field : BitVec bits} {disp : UInt32}
    (h : getMemRegDisp bits ctx storage addrScrReg = some (code, reg, field))
    (hbase : baseDisp? ctx storage = some (base, disp)) :
    (signedInRange bits disp.toBitVec.toInt = true ∧ code = [] ∧ reg = base ∧
      field = disp.toBitVec.setWidth bits) ∨
    (signedInRange bits disp.toBitVec.toInt = false ∧ reg = addrScrReg ∧
      code = addImmToReg base
        (BitVec.ofInt 32 (disp.toBitVec.toInt - splitRest bits disp.toBitVec.toInt)) addrScrReg ∧
      field = BitVec.ofInt bits (splitRest bits disp.toBitVec.toInt)) := by
  rw [getMemRegDisp, hbase] at h
  simp only [Option.map_some, Option.some.injEq] at h
  split at h
  · case _ hrange =>
      obtain ⟨rfl, hrest⟩ := Prod.mk.inj h
      obtain ⟨rfl, rfl⟩ := Prod.mk.inj hrest
      exact .inl ⟨hrange, rfl, rfl, rfl⟩
  · case _ hrange =>
      obtain ⟨rfl, hrest⟩ := Prod.mk.inj h
      obtain ⟨rfl, rfl⟩ := Prod.mk.inj hrest
      exact .inr ⟨by simpa using hrange, rfl, rfl, rfl⟩

/-- **The register and the displacement** are exactly the address of the cell, and no register
but the scratch register is changed. -/
theorem getMemRegDisp_address {bits : ℕ} (hbits : 0 < bits) (hle : bits ≤ 32)
    {ctx : AddressingContext} {storage : VariableStorage REG} {addrScrReg reg : REG}
    {code : List Instr} {disp : BitVec bits}
    (h : getMemRegDisp bits ctx storage addrScrReg = some (code, reg, disp))
    {jobMemory frameTop : BitVec 32} {m : Machine} (hm : m.Frame ctx jobMemory frameTop) :
    cellAddress? jobMemory frameTop storage =
        some ((execAll code m).regs reg + disp.signExtend 32) ∧
      m.Changes (· = addrScrReg) NoBytes (execAll code m) := by
  obtain ⟨base, returnDisp, hbase⟩ : ∃ base disp, baseDisp? ctx storage = some (base, disp) := by
    rw [getMemRegDisp, Option.map_eq_some_iff] at h
    obtain ⟨⟨base, disp⟩, hbase, -⟩ := h
    exact ⟨base, disp, hbase⟩
  rw [base_add_disp hbase hm]
  rcases getMemRegDisp_cases h hbase with ⟨hrange, rfl, rfl, rfl⟩ | ⟨-, rfl, rfl, rfl⟩
  · rw [signExtend_setWidth_of_signedInRange hbits hle hrange]
    exact ⟨rfl, .refl _ _ m⟩
  · have hadd := execAll_addImmToReg base (BitVec.ofInt 32
      (returnDisp.toBitVec.toInt - splitRest bits returnDisp.toBitVec.toInt)) reg m
    refine ⟨?_, hadd.changes⟩
    rw [hadd.regs, Function.update_self,
      ofInt_sub_add hbits hle (signedInRange_splitRest bits _)]

/-! ### Calls of imports -/

/-- `fitsAbsDisp24sx2`. -/
def fitsAbsDisp24sx2 (addr : BitVec 32) : Bool := addr &&& 0xF01FFFFE == addr

/-- The field that `setAbsDisp24sx2` sets. -/
def absDisp24sx2 (addr : BitVec 32) : BitVec 32 :=
  ((addr &&& 0xF0000000) >>> 28 <<< 20) ||| ((addr &&& 0x001FFFFE) >>> 1)

/-- The instructions that call. -/
inductive CallInstr where
  | CALLA_absdisp24sx2 (absDisp24 : BitVec 32)
  | CALLI_Aa (aa : REG)
  deriving DecidableEq, Repr

/-- The address that is called. -/
def CallInstr.target (m : Machine) : CallInstr → BitVec 32
  | CALLA_absdisp24sx2 d => ((d >>> 20) <<< 28) ||| ((d &&& 0xFFFFF) <<< 1)
  | CALLI_Aa aa => m.regs aa

/-- How an import is linked: to a function of the host, or to a pointer in the link data. -/
inductive Linkage where
  | static (rawAddr : BitVec 32)
  | dynamic (linkDataOffset : UInt32)
  deriving DecidableEq, Repr

/-- The displacement of the pointer of a dynamically linked import, `fncPtrBaseOffset`. -/
def fncPtrBaseOffset (ctx : AddressingContext) (linkDataOffset : UInt32) : BitVec 32 :=
  ((linkDataFromStart - ctx.basedataLength) + linkDataOffset).toBitVec

/-- `emitRawFunctionCall` for a linked import, behind the check of the stack fence: the code
before the call, and the call. -/
def emitRawFunctionCall (ctx : AddressingContext) : Linkage → List Instr × CallInstr
  | .static rawAddr =>
      if fitsAbsDisp24sx2 rawAddr then ([], .CALLA_absdisp24sx2 (absDisp24sx2 rawAddr))
      else (MOVimm32 (addrScrReg 0) rawAddr, .CALLI_Aa (addrScrReg 0))
  | .dynamic linkDataOffset =>
      let offset := fncPtrBaseOffset ctx linkDataOffset
      if signedInRange 16 offset.toInt then
        (emitLoadDerefOff16sx (addrScrReg 0) linMem (offset.setWidth 16), .CALLI_Aa (addrScrReg 0))
      else
        (.ADDIHA_Ac_Aa_const16 (addrScrReg 0) linMem (reducedHighPortion offset) ::
            emitLoadDerefOff16sx (addrScrReg 0) (addrScrReg 1) (lower16sx offset),
          .CALLI_Aa (addrScrReg 0))

/-- An absolute address that fits is the address that is called. -/
theorem target_absDisp24sx2 {addr : BitVec 32} (h : fitsAbsDisp24sx2 addr = true) (m : Machine) :
    (CallInstr.CALLA_absdisp24sx2 (absDisp24sx2 addr)).target m = addr := by
  have hmask : addr &&& 0xF01FFFFE = addr := by simpa [fitsAbsDisp24sx2] using h
  rw [CallInstr.target, absDisp24sx2]
  refine BitVec.eq_of_getLsbD_eq fun i hi => ?_
  have hbit := congrArg (fun v => v.getLsbD i) hmask
  simp only [BitVec.getLsbD_and] at hbit
  interval_cases i <;> simp_all

/-- The call of a dynamically linked import goes to the pointer of exactly that import, in every
state of the machine, and only the scratch register changes. -/
def DynamicCallExact (ctx : AddressingContext) (linkDataOffset : UInt32) : Prop :=
  ∀ (jobMemory frameTop : BitVec 32) (m : Machine), m.Frame ctx jobMemory frameTop →
    let call := emitRawFunctionCall ctx (.dynamic linkDataOffset)
    call.2.target (execAll call.1 m) =
        m.load (jobMemory + linkDataFromStart.toBitVec + linkDataOffset.toBitVec) ∧
      m.Changes (· = addrScrReg 0) NoBytes (execAll call.1 m)

/-- The base of the linear memory and the displacement are the address of the pointer. -/
theorem linMem_add_fncPtrBaseOffset {ctx : AddressingContext} {jobMemory frameTop : BitVec 32}
    {m : Machine} (hm : m.Frame ctx jobMemory frameTop) (linkDataOffset : UInt32) :
    m.regs linMem + fncPtrBaseOffset ctx linkDataOffset =
      jobMemory + linkDataFromStart.toBitVec + linkDataOffset.toBitVec := by
  rw [hm.linMem, fncPtrBaseOffset, UInt32.toBitVec_add, UInt32.toBitVec_sub]
  grind

/-- **Calls of dynamically linked imports** go to the pointer of the import exactly if the
displacement of the pointer fits in 16 bits. -/
theorem dynamicCallExact_iff (ctx : AddressingContext) (linkDataOffset : UInt32) :
    DynamicCallExact ctx linkDataOffset ↔
      signedInRange 16 (fncPtrBaseOffset ctx linkDataOffset).toInt = true := by
  constructor
  · intro hexact
    by_contra hrange
    -- the word behind the pointer is where the unrelated base register leads
    let offset := fncPtrBaseOffset ctx linkDataOffset
    let cell := linkDataFromStart.toBitVec + linkDataOffset.toBitVec
    let m : Machine :=
      { regs := fun r => if r = addrScrReg 1 then
            cell + 4 - (lower16sx offset).signExtend 32
          else if r = linMem then ctx.basedataLength.toBitVec
          else 0 - ctx.stackFrameSize.toBitVec
        mem := storeWord (fun _ => 0) cell 1
        psw := ⟨false, false, false, false, false, 0⟩
        otherCoreRegs := fun _ => 0 }
    have hm : m.Frame ctx 0 0 := ⟨(BitVec.zero_add _).symm, rfl⟩
    have htarget := (hexact 0 0 m hm).1
    simp only [emitRawFunctionCall, hrange, if_false, CallInstr.target,
      execAll_cons] at htarget
    have hload := execAll_emitLoadDerefOff16sx (addrScrReg 0) (addrScrReg 1) (lower16sx offset)
      (Instr.exec (.ADDIHA_Ac_Aa_const16 (addrScrReg 0) linMem (reducedHighPortion offset)) m)
    have hbase : (Instr.exec (.ADDIHA_Ac_Aa_const16 (addrScrReg 0) linMem
        (reducedHighPortion offset)) m).regs (addrScrReg 1) + (lower16sx offset).signExtend 32 =
        cell + 4 := by
      change cell + 4 - (lower16sx offset).signExtend 32 + (lower16sx offset).signExtend 32 = _
      exact BitVec.sub_add_cancel _ _
    have hwrong : m.load (cell + 4) = 0 :=
      (readWord_storeWord_of_disjoint (disjoint_add_four cell).symm).trans (readWord_zero _)
    have hright : m.load (0 + linkDataFromStart.toBitVec + linkDataOffset.toBitVec) = 1 := by
      rw [zero_add]
      exact ByteMemory.readWord_storeWord _ _ _
    rw [hload.regs, Function.update_self, hbase, hright] at htarget
    have hsame : m.load (cell + 4) = 1 := htarget
    rw [hwrong] at hsame
    exact absurd hsame (by decide)
  · intro hrange jobMemory frameTop m hm
    simp only [emitRawFunctionCall, hrange, if_true]
    have hload := execAll_emitLoadDerefOff16sx (addrScrReg 0) linMem
      ((fncPtrBaseOffset ctx linkDataOffset).setWidth 16) m
    refine ⟨?_, hload.changes⟩
    rw [CallInstr.target, hload.regs, Function.update_self,
      signExtend_setWidth_of_signedInRange (by decide) (by decide) hrange,
      linMem_add_fncPtrBaseOffset hm]

/-- **Addressing**: what is reached with `getMemRegDisp` is the cell, always; the call of a
dynamically linked import goes to its pointer exactly if the displacement of the pointer from
the base of the linear memory fits in 16 bits. -/
theorem addressing_exact_iff (ctx : AddressingContext) (linkDataOffset : UInt32) :
    ((∀ (bits : ℕ) (storage : VariableStorage REG) (addrScrReg reg : REG) (code : List Instr)
        (disp : BitVec bits) (jobMemory frameTop : BitVec 32) (m : Machine),
        0 < bits → bits ≤ 32 →
        getMemRegDisp bits ctx storage addrScrReg = some (code, reg, disp) →
        m.Frame ctx jobMemory frameTop →
        cellAddress? jobMemory frameTop storage =
            some ((execAll code m).regs reg + disp.signExtend 32) ∧
          m.Changes (· = addrScrReg) NoBytes (execAll code m)) ∧
      DynamicCallExact ctx linkDataOffset) ↔
      signedInRange 16 (fncPtrBaseOffset ctx linkDataOffset).toInt = true := by
  rw [← dynamicCallExact_iff]
  constructor
  · rintro ⟨-, hcall⟩
    exact hcall
  · rintro hcall
    exact ⟨fun bits storage scr reg code disp jobMemory frameTop m hbits hle h hm =>
      getMemRegDisp_address hbits hle h hm, hcall⟩

/-- With 40000 bytes of basedata, the call of the first import goes elsewhere. -/
theorem first_import_not_exact : ¬ DynamicCallExact ⟨40000, 0⟩ 0 := by
  rw [dynamicCallExact_iff]
  decide

end TriCore

end WasmCompiler
