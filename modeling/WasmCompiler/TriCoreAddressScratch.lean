import WasmCompiler.CompilerFrame
import WasmCompiler.TriCoreBulkOperands
import WasmCompiler.TriCoreConstants

/-!
# Operands in Address Scratch Registers of TriCore

Copying and filling of memory, and the copy from the linked memory, move operands to address
registers before the register allocator has provided the data registers. The allocator knows
nothing of these registers, and its code has two of them for the check of the stack fence, when
the frame grows, and the third one for a slot whose displacement does not fit.

## Main results

* `windowWrites_emit_iff`: which address registers a step of the allocator writes.
* `addressKept_iff`: when the operands are kept.
-/

namespace WasmCompiler

namespace TriCore

open ByteMemory Machine

/-! ### The registers that instructions write -/

namespace Instr

/-- The registers that an instruction writes. -/
def writes : Instr → List REG
  | MOV_Da_Db r _ | MOV_Da_const4sx r _ | MOVU_Dc_const16zx r _ | MOVH_Dc_const16 r _
  | MOV_Dc_const16sx r _ | ADD_Da_Db r _ | ADD_Da_const4sx r _ | ADD_Da_D15_const4sx r _
  | ADDI_Dc_Da_const16sx r _ _ | ADDIH_Dc_Da_const16 r _ _ | MOVAA_Aa_Ab r _
  | MOVA_Aa_const4zx r _ | MOVHA_Ac_const16 r _ | ADDA_Aa_const4sx r _
  | ADDIHA_Ac_Aa_const16 r _ _ | LEA_Aa_deref_Ab_off16sx r _ _ | LDW_Dc_deref_Ab r _
  | LDW_Dc_deref_A15_off4zxls2 r _ | LDW_Da_deref_Ab_off16sx r _ _ | LDA_Ac_deref_Ab r _
  | LDA_Aa_deref_Ab_off16sx r _ _ | MFCR_Dc_const16 r _ => [r]
  | MOV_D15_const8zx _ | ADD_D15_Da_const4sx _ _ | LDW_D15_deref_A10_const8zxls2 _
  | LDW_D15_deref_Ab_off4srozxls2 _ _ => [.D15]
  | SUBA_A10_const8zx _ => [.SP]
  | MOV_Ea_const4sx r _ | MOV_Ec_const16sx r _ | IMASK_Pos_Width_const4zx r _ _ _
  | LDD_Ea_deref_Ab_off10sx r _ _ | LDDA_Pa_deref_Ab_off10sx r _ _ => [r, r.getOtherExtReg]
  | STW_deref_Ab_Da _ _ | STW_deref_A10_const8zxls2_D15 _ | STW_deref_Ab_off4srozxls2_D15 _ _
  | STW_deref_A15_off4zxls2_Da _ _ | STW_deref_Ab_off16sx_Da _ _ _
  | STD_deref_Ab_off10sx_Ea _ _ _ | STDA_deref_Ab_off10sx_Pa _ _ _ | STA_deref_Ab_Aa _ _
  | STA_deref_Ab_off16sx_Aa _ _ _ => []

/-- An instruction changes no other register. -/
theorem regs_exec {i : Instr} {r : REG} (h : r ∉ i.writes) (m : Machine) :
    (i.exec m).regs r = m.regs r := by
  cases i <;>
    simp_all [writes, exec, Machine.setReg, Machine.setPair, Machine.add,
      Machine.setArithmeticFlags, Machine.store, Machine.storePair]

end Instr

namespace BulkOp

/-- The registers that an instruction writes. -/
def writes : BulkOp → List REG
  | plain i => i.writes
  | MOVD_Da_Ab r _ | MOVA_Aa_Db r _ | ADDA_Aa_Ab r _ | MAXU_Dc_Da_Db r _ _ | XOR_Da_Db r _
  | AND_Dc_Da_const9zx r _ _ | SH_Dc_Da_const9sx r _ _ | COPY_BYTE_TO_ALL_Dc_Da r _
  | GEA_Dc_Aa_Ab r _ _ | STB_deref_Ab_Da_postinc r _ | STB_deref_Ab_off10sx_Da_preinc r _ _
  | STW_deref_Ab_Da_postinc r _ | STD_deref_Ab_off10sx_Ea_postinc r _ _
  | STD_deref_Ab_off10sx_Ea_preinc r _ _ => [r]
  | AND_D15_const8zx _ => [.D15]
  | LDBU_Dc_deref_Ab_postinc d a | LDBU_Da_deref_Ab_off10sx_preinc d a _ => [d, a]
  | LDD_Ea_deref_Ab_off10sx_postinc d a _ | LDD_Ea_deref_Ab_off10sx_preinc d a _ =>
      [d, d.getOtherExtReg, a]

end BulkOp

/-! ### The registers that code writes -/

/-- The code writes the register. -/
def CodeWrites (code : List Instr) (r : REG) : Prop := ∃ i ∈ code, r ∈ i.writes

/-- No instruction writes nothing. -/
@[simp] theorem codeWrites_nil (r : REG) : ¬ CodeWrites [] r := by
  rintro ⟨i, hi, -⟩
  exact List.not_mem_nil hi

/-- One instruction. -/
@[simp] theorem codeWrites_singleton (i : Instr) (r : REG) :
    CodeWrites [i] r ↔ r ∈ i.writes := by
  simp [CodeWrites]

/-- The first instruction or a later one. -/
@[simp] theorem codeWrites_cons (i : Instr) (code : List Instr) (r : REG) :
    CodeWrites (i :: code) r ↔ r ∈ i.writes ∨ CodeWrites code r := by
  simp [CodeWrites]

/-- One piece of code or the other. -/
@[simp] theorem codeWrites_append (code code' : List Instr) (r : REG) :
    CodeWrites (code ++ code') r ↔ CodeWrites code r ∨ CodeWrites code' r := by
  simp [CodeWrites, or_and_right, exists_or]

/-- Code changes no other register. -/
theorem regs_execAll {code : List Instr} {r : REG} (h : ¬ CodeWrites code r) (m : Machine) :
    (execAll code m).regs r = m.regs r := by
  induction code generalizing m with
  | nil => rfl
  | cons i code ih =>
      rw [codeWrites_cons, not_or] at h
      rw [execAll_cons, ih h.2, Instr.regs_exec h.1]

/-- Adding the portions of an immediate. -/
theorem eq_of_codeWrites_addPortions {addLow addHigh : REG → REG → BitVec 16 → Instr}
    (hlow : ∀ t r c, (addLow t r c).writes = [t]) (hhigh : ∀ t r c, (addHigh t r c).writes = [t])
    {reg targetReg r : REG} {imm : BitVec 32}
    (h : CodeWrites (addPortions addLow addHigh reg imm targetReg) r) : r = targetReg := by
  rw [addPortions] at h
  split_ifs at h <;> simp [hlow, hhigh] at h <;> exact h

/-- Adding an immediate writes the target. -/
theorem eq_of_codeWrites_addImmToReg {reg targetReg r : REG} {imm : BitVec 32}
    (h : CodeWrites (addImmToReg reg imm targetReg) r) : r = targetReg := by
  rw [addImmToReg] at h
  split at h
  · split_ifs at h <;> simp [Instr.writes] at h <;> exact h
  · split at h
    · split at h
      · case _ hc =>
          obtain ⟨-, rfl⟩ := hc
          simpa [Instr.writes] using h
      · split at h
        · simpa [Instr.writes] using h
        · split at h
          · case _ hc =>
              obtain ⟨-, rfl⟩ := hc
              simpa [Instr.writes] using h
          · exact eq_of_codeWrites_addPortions (fun _ _ _ => rfl) (fun _ _ _ => rfl) h
    · split at h
      · simpa [Instr.writes] using h
      · exact eq_of_codeWrites_addPortions (fun _ _ _ => rfl) (fun _ _ _ => rfl) h

/-- Adding an immediate to another register writes it: otherwise the sum would be there before. -/
theorem codeWrites_addImmToReg {reg targetReg : REG} (hne : targetReg ≠ reg) (imm : BitVec 32) :
    CodeWrites (addImmToReg reg imm targetReg) targetReg := by
  by_contra hnone
  let m : Machine := { clearedMachine with regs := fun r => if r = targetReg then imm + 1 else 0 }
  have hkept := regs_execAll hnone m
  rw [(execAll_addImmToReg reg imm targetReg m).regs, Function.update_self] at hkept
  have hsum : (0 : BitVec 32) + imm = imm + 1 := by
    simpa only [m, hne.symm, if_true, if_false] using hkept
  exact absurd hsum (by grind)

/-- Loading an immediate writes the register. -/
theorem eq_of_codeWrites_MOVimm32 {reg r : REG} {imm : BitVec 32}
    (h : CodeWrites (MOVimm32 reg imm) r) : r = reg := by
  rw [MOVimm32] at h
  split at h
  · cases hkind : analyzeImmediate32 imm with
    | UNSIGNED16 =>
        rw [hkind] at h
        dsimp only at h
        split at h
        · case _ hc =>
            obtain ⟨rfl, -⟩ := hc
            simpa [Instr.writes] using h
        · simpa [Instr.writes] using h
    | MOV16_ADDIH =>
        rw [hkind] at h
        dsimp only at h
        split at h <;> simpa [Instr.writes] using h
    | SIGNED4 | HIGH16 | SIGNED16 =>
        rw [hkind] at h
        simpa [Instr.writes] using h
  · split at h
    · simpa [Instr.writes] using h
    · split at h
      · split at h
        · simp only [codeWrites_cons, Instr.writes, List.mem_singleton] at h
          exact h.elim id eq_of_codeWrites_addImmToReg
        · simpa [Instr.writes] using h
      · simpa [Instr.writes] using h

/-- Loading a 64-bit immediate writes the pair. -/
theorem of_codeWrites_MOVimm64 {reg r : REG} {imm : BitVec 64}
    (h : CodeWrites (MOVimm64 reg imm) r) : r = reg ∨ r = reg.getOtherExtReg := by
  rw [MOVimm64] at h
  split at h
  · simpa [Instr.writes] using h
  · split at h
    · simpa [Instr.writes] using h
    · split at h
      · simpa [Instr.writes] using h
      · rw [codeWrites_append] at h
        exact h.imp eq_of_codeWrites_MOVimm32 eq_of_codeWrites_MOVimm32

/-- The register and the displacement of a storage: the scratch register is written exactly for a
displacement that does not fit, and no other register is written. -/
theorem codeWrites_getMemRegDisp {bits : ℕ} {ctx : AddressingContext}
    {storage : VariableStorage REG} {scratch reg : REG} {code : List Instr} {field : BitVec bits}
    (hscratch : scratch ≠ linMem ∧ scratch ≠ .SP) (hmem : InMemory storage)
    (h : getMemRegDisp bits ctx storage scratch = some (code, reg, field)) (r : REG) :
    CodeWrites code r ↔ r = scratch ∧ ∃ base disp, baseDisp? ctx storage = some (base, disp) ∧
      signedInRange bits disp.toBitVec.toInt = false := by
  obtain ⟨base, disp, hbase, hkind⟩ := hmem.baseDisp? ctx
  rcases getMemRegDisp_cases h hbase with ⟨hrange, rfl, -⟩ | ⟨hrange, -, rfl, -⟩
  · refine iff_of_false (codeWrites_nil r) ?_
    rintro ⟨-, base', disp', hbase', hout⟩
    obtain ⟨rfl, rfl⟩ := Prod.mk.inj (Option.some.inj (hbase.symm.trans hbase'))
    rw [hrange] at hout
    cases hout
  · constructor
    · intro hwrites
      exact ⟨eq_of_codeWrites_addImmToReg hwrites, base, disp, hbase, hrange⟩
    · rintro ⟨rfl, -⟩
      refine codeWrites_addImmToReg ?_ _
      rcases hkind with rfl | rfl
      · exact hscratch.1
      · exact hscratch.2

/-- A word is loaded to a data register. -/
theorem isDATA_of_codeWrites_loadWord {dstReg base r : REG} {disp : BitVec 16}
    (hdst : dstReg.isDATA = true)
    (h : CodeWrites (loadWordDRegDerefARegDisp16sx dstReg base disp) r) : r.isDATA = true := by
  rw [loadWordDRegDerefARegDisp16sx] at h
  split_ifs at h <;> simp only [codeWrites_singleton, Instr.writes, List.mem_singleton] at h <;>
    subst h <;> first | exact hdst | rfl

/-- A word is loaded to a data register, with the short forms too. -/
theorem isDATA_of_codeWrites_loadWordForMove {dstReg base r : REG} {disp : BitVec 16}
    (hdst : dstReg.isDATA = true) (h : CodeWrites (loadWordForMove dstReg base disp) r) :
    r.isDATA = true := by
  rw [loadWordForMove] at h
  split_ifs at h
  · simp only [codeWrites_singleton, Instr.writes, List.mem_singleton] at h
    subst h
    rfl
  · simp only [codeWrites_singleton, Instr.writes, List.mem_singleton] at h
    subst h
    rfl
  · exact isDATA_of_codeWrites_loadWord hdst h

/-- Storing a word writes no register. -/
theorem not_codeWrites_storeWord (dataReg addrReg : REG) (disp : BitVec 16) (r : REG) :
    ¬ CodeWrites (storeWordDerefARegDisp16sxDReg dataReg addrReg disp) r := by
  rw [storeWordDerefARegDisp16sxDReg]
  split_ifs <;> simp [Instr.writes]

/-- A move to a register from memory is a load behind the code that reaches it. -/
theorem emitMoveImpl_load {ctx : AddressingContext} {dst src : VariableStorage REG} {dstReg : REG}
    (hdst : dst.location = .register dstReg) (hsrc : InMemory src) {code : List Instr}
    (hcode : emitMoveImpl ctx dst src false = some code) :
    ∃ reach load, code = reach ++ load ∧
      (∃ reg field, getMemRegDisp (dispBits dst.machineType.is64) ctx src (addrScrReg 2) =
        some (reach, reg, field)) ∧
      (dstReg.isDATA = true → ∀ r, CodeWrites load r → r.isDATA = true) := by
  have hself : ¬ (!false ∧ dst = src) := by
    rintro ⟨-, rfl⟩
    obtain ⟨p, hp | hp⟩ := hsrc <;> rw [hdst] at hp <;> cases hp
  cases h64 : dst.machineType.is64 with
  | true =>
      obtain ⟨reach, reg, disp, hget, -⟩ := hsrc.reaches ctx 10 (by decide) (by decide)
      refine ⟨reach, [.LDD_Ea_deref_Ab_off10sx dstReg reg disp], ?_, ⟨reg, disp, hget⟩,
        fun hdata r hr => ?_⟩
      · refine Option.some.inj (hcode.symm.trans ?_)
        rw [emitMoveImpl, if_neg hself]
        obtain ⟨p, hp | hp⟩ := hsrc <;> simp [h64, hdst, hp, hget]
      · simp only [codeWrites_singleton, Instr.writes, List.mem_cons, List.not_mem_nil,
          or_false] at hr
        rcases hr with rfl | rfl
        · exact hdata
        · rwa [REG.isDATA_getOtherExtReg]
  | false =>
      obtain ⟨reach, reg, disp, hget, -⟩ := hsrc.reaches ctx 16 (by decide) (by decide)
      refine ⟨reach, loadWordForMove dstReg reg disp, ?_, ⟨reg, disp, hget⟩,
        fun hdata r hr => isDATA_of_codeWrites_loadWordForMove hdata hr⟩
      refine Option.some.inj (hcode.symm.trans ?_)
      rw [emitMoveImpl, if_neg hself]
      obtain ⟨p, hp | hp⟩ := hsrc <;> simp [h64, hdst, hp, hget]

/-- A move from a register to memory is a store behind the code that reaches it. -/
theorem emitMoveImpl_store {ctx : AddressingContext} {dst src : VariableStorage REG} {srcReg : REG}
    (hdst : InMemory dst) (hsrc : src.location = .register srcReg) {code : List Instr}
    (hcode : emitMoveImpl ctx dst src false = some code) :
    ∃ reach store, code = reach ++ store ∧
      (∃ reg field, getMemRegDisp (dispBits dst.machineType.is64) ctx dst (addrScrReg 2) =
        some (reach, reg, field)) ∧
      ∀ r, ¬ CodeWrites store r := by
  have hself : ¬ (!false ∧ dst = src) := by
    rintro ⟨-, rfl⟩
    obtain ⟨p, hp | hp⟩ := hdst <;> rw [hsrc] at hp <;> cases hp
  cases h64 : dst.machineType.is64 with
  | true =>
      obtain ⟨reach, reg, disp, hget, -⟩ := hdst.reaches ctx 10 (by decide) (by decide)
      refine ⟨reach, [.STD_deref_Ab_off10sx_Ea reg disp srcReg], ?_, ⟨reg, disp, hget⟩,
        fun r => by simp [Instr.writes]⟩
      refine Option.some.inj (hcode.symm.trans ?_)
      rw [emitMoveImpl, if_neg hself]
      obtain ⟨p, hp | hp⟩ := hdst <;> simp [h64, hsrc, hp, hget]
  | false =>
      obtain ⟨reach, reg, disp, hget, -⟩ := hdst.reaches ctx 16 (by decide) (by decide)
      refine ⟨reach, storeWordDerefARegDisp16sxDReg srcReg reg disp, ?_, ⟨reg, disp, hget⟩,
        not_codeWrites_storeWord _ _ _⟩
      refine Option.some.inj (hcode.symm.trans ?_)
      rw [emitMoveImpl, if_neg hself]
      obtain ⟨p, hp | hp⟩ := hdst <;> simp [h64, hsrc, hp, hget]

/-- Only a storage in memory has a displacement. -/
theorem not_outOfRange_of_register {ctx : AddressingContext} {s : VariableStorage REG}
    (hs : ¬ InMemory s) : ¬ OutOfRange ctx s := by
  rintro ⟨base, disp, hbase, -⟩
  rw [baseDisp?] at hbase
  split at hbase
  · case _ p hp => exact hs ⟨p, .inl hp⟩
  · case _ p hp => exact hs ⟨p, .inr hp⟩
  · cases hbase

/-- A register is not in memory. -/
theorem not_inMemory_of_register {s : VariableStorage REG} {reg : REG}
    (hs : s.location = .register reg) : ¬ InMemory s := by
  rintro ⟨p, hp | hp⟩ <;> rw [hs] at hp <;> cases hp

/-- A move to a register from another one or from a constant writes data registers. -/
theorem isDATA_of_codeWrites_emitMoveImpl {ctx : AddressingContext}
    {dst src : VariableStorage REG} {dstReg : REG} (hdst : dst.location = .register dstReg)
    (hdata : dstReg.isDATA = true) (hmem : ¬ InMemory src) (hvalid : ValidStorage src)
    {code : List Instr} (hcode : emitMoveImpl ctx dst src false = some code) {r : REG}
    (hr : CodeWrites code r) : r.isDATA = true := by
  have hpair : ∀ r', r' = dstReg ∨ r' = dstReg.getOtherExtReg → r'.isDATA = true := by
    rintro r' (rfl | rfl)
    · exact hdata
    · rwa [REG.isDATA_getOtherExtReg]
  rw [emitMoveImpl] at hcode
  split at hcode
  · obtain rfl := Option.some.inj hcode
    exact absurd hr (codeWrites_nil r)
  · cases h64 : dst.machineType.is64 with
    | true =>
        rw [h64, if_pos rfl, hdst] at hcode
        rcases hvalid.cases with ⟨srcReg, hsrc⟩ | ⟨c, hsrc⟩ | hsrc
        · rw [hsrc] at hcode
          obtain rfl := Option.some.inj hcode
          simp only [codeWrites_cons, codeWrites_nil, Instr.writes, List.mem_singleton,
            or_false] at hr
          exact hpair r hr
        · rw [hsrc] at hcode
          obtain rfl := Option.some.inj hcode
          exact hpair r (of_codeWrites_MOVimm64 hr)
        · exact absurd hsrc hmem
    | false =>
        rw [h64, if_neg (by decide), hdst] at hcode
        rcases hvalid.cases with ⟨srcReg, hsrc⟩ | ⟨c, hsrc⟩ | hsrc
        · rw [hsrc] at hcode
          obtain rfl := Option.some.inj hcode
          exact hpair r (.inl (by simpa [Instr.writes] using hr))
        · rw [hsrc] at hcode
          obtain rfl := Option.some.inj hcode
          exact hpair r (.inl (eq_of_codeWrites_MOVimm32 hr))
        · exact absurd hsrc hmem

/-- **A move from or to a register** writes an address register exactly for a displacement that
does not fit, and then the third scratch register. -/
theorem codeWrites_emitMoveImpl_iff {ctx : AddressingContext} {dst src : VariableStorage REG}
    (h : RegisterMove dst src) {code : List Instr}
    (hcode : emitMoveImpl ctx dst src false = some code) {r : REG} (hr : r.isDATA = false) :
    CodeWrites code r ↔ r = addrScrReg 2 ∧ ¬ MoveInRange ctx dst src := by
  have haddress : ∀ r', r'.isDATA = true → r ≠ r' := by
    rintro r' hr' rfl
    rw [hr] at hr'
    cases hr'
  rcases h.validDst.cases with ⟨dstReg, hdst⟩ | ⟨c, hdst⟩ | hdst
  · have hdata : dstReg.isDATA = true := by
      refine h.validDst.isDATA ?_
      rw [StorageReg, hdst]
      exact .inl rfl
    have hdstRange : ¬ OutOfRange ctx dst :=
      not_outOfRange_of_register (not_inMemory_of_register hdst)
    by_cases hsrc : InMemory src
    · obtain ⟨reach, load, rfl, ⟨reg, field, hget⟩, hload⟩ := emitMoveImpl_load hdst hsrc hcode
      have hnot : ¬ CodeWrites load r := fun hwrites => haddress r (hload hdata r hwrites) rfl
      rw [codeWrites_append, codeWrites_getMemRegDisp (by decide) hsrc hget, or_iff_left hnot,
        MoveInRange, and_iff_right hdstRange, not_not, OutOfRange, ← h.machineType]
    · refine iff_of_false (fun hwrites => ?_) fun hout =>
        hout.2 ⟨hdstRange, not_outOfRange_of_register hsrc⟩
      have hwritten :=
        isDATA_of_codeWrites_emitMoveImpl hdst hdata hsrc h.validSrc hcode hwrites
      exact haddress r hwritten rfl
  · exact absurd hdst (h.notConstant c)
  · obtain ⟨srcReg, hsrc⟩ : ∃ r, src.location = .register r := by
      rcases h.register with ⟨dstReg, hreg⟩ | hsrc
      · exact absurd hdst (not_inMemory_of_register hreg)
      · exact hsrc
    have hsrcRange : ¬ OutOfRange ctx src :=
      not_outOfRange_of_register (not_inMemory_of_register hsrc)
    obtain ⟨reach, store, rfl, ⟨reg, field, hget⟩, hstore⟩ := emitMoveImpl_store hdst hsrc hcode
    rw [codeWrites_append, codeWrites_getMemRegDisp (by decide) hdst hget,
      or_iff_left (hstore r), MoveInRange, and_iff_left hsrcRange, not_not]
    rfl

/-! ### The code of the register allocator -/

/-- The instructions before the operands are in their registers. -/
inductive WindowInstr where
  | op (o : BulkOp)
  /-- `cTRAP` with `JumpCondition::bitTrue`. -/
  | cTRAPBitTrue (trapCode : TrapCode) (da : REG) (n : ℕ)
  deriving DecidableEq, Repr

/-- The registers that an instruction writes. -/
def WindowInstr.writes : WindowInstr → List REG
  | op o => o.writes
  | cTRAPBitTrue _ _ _ => []

/-- Execute the instructions. -/
def runWindow : List WindowInstr → Machine → Except BulkEnd Machine
  | [], m => .ok m
  | .op o :: code, m => if o.isAligned m then runWindow code (o.exec m) else .error .misaligned
  | .cTRAPBitTrue trapCode da n :: code, m =>
      if (m.regs da).getLsbD n then .error (.trap trapCode) else runWindow code m

/-- Instructions of moves. -/
def plainWindow (code : List Instr) : List WindowInstr := code.map fun i => .op (.plain i)

/-- What the allocator knows of the frame. -/
structure FrameState where
  ctx : AddressingContext
  /-- `fnc.paramWidth`. -/
  paramWidth : UInt32
  /-- `currentState.checkedStackFrameSize`. -/
  checkedStackFrameSize : UInt32
  deriving DecidableEq, Repr

namespace FrameState

/-- `alignStackFrameSize`. -/
def alignStackFrameSize (s : FrameState) (frameSize : UInt32) : UInt32 :=
  roundUpToPow2 (frameSize - s.paramWidth) 3 + s.paramWidth

/-- `setStackFrameSize`; `none` is the exception for a frame that is too large. -/
def setStackFrameSize (s : FrameState) (frameSize : UInt32) :
    Option (List Instr × FrameState) :=
  if s.ctx.stackFrameSize = frameSize then some ([], s)
  else if maxStackFrameSize < frameSize then none
  else
    some (if frameSize < s.ctx.stackFrameSize then
        addImmToReg .SP (s.ctx.stackFrameSize - frameSize).toBitVec .SP
      else subSp (frameSize - s.ctx.stackFrameSize).toBitVec,
      { s with ctx := { s.ctx with stackFrameSize := frameSize } })

end FrameState

/-- `checkStackFence`. -/
def checkStackFence (stackFence : BitVec 16) (dataScrReg addrScrReg : REG) : List WindowInstr :=
  [.op (.plain (.LDA_Aa_deref_Ab_off16sx addrScrReg linMem (0 - stackFence))),
    .op (.GEA_Dc_Aa_Ab dataScrReg addrScrReg .SP), .cTRAPBitTrue .stackFenceBreached dataScrReg 0]

/-- `reqSpillTarget` with `forceToStack`, for the offset that `findFreeTempStackSlot` finds. -/
def reqSpillTarget (stackFence : BitVec 16) (s : FrameState) (type : MachineType)
    (newOffset : UInt32) : Option (List WindowInstr × FrameState × VariableStorage REG) :=
  let target := VariableStorage.stackMemory type newOffset
  if s.ctx.stackFrameSize < newOffset then do
    let newAlignedStackFrameSize := s.alignStackFrameSize (newOffset + 32)
    let (code, s') ← s.setStackFrameSize newAlignedStackFrameSize
    if s.checkedStackFrameSize < newAlignedStackFrameSize then
      return (plainWindow code ++ (.op (.MOVA_Aa_Db (addrScrReg 1) (.D 0)) ::
          (checkStackFence stackFence (.D 0) (addrScrReg 0) ++
            [.op (.MOVD_Da_Ab (.D 0) (addrScrReg 1))])),
        { s' with checkedStackFrameSize := newAlignedStackFrameSize }, target)
    else return (plainWindow code, s', target)
  else some ([], s, target)

/-- What the allocator does to provide a register: a register is spilled to a slot, or an operand
is lifted to a register. -/
inductive AllocStep where
  | spill (source : VariableStorage REG) (newOffset : UInt32)
  | lift (dstReg : REG) (source : VariableStorage REG)
  deriving DecidableEq, Repr

namespace AllocStep

/-- The code of a step, `spillFromStackImpl` and the move of `liftToRegInPlaceProt`. -/
def emit (stackFence : BitVec 16) (s : FrameState) :
    AllocStep → Option (List WindowInstr × FrameState)
  | spill source newOffset => do
      let (grow, s', target) ← reqSpillTarget stackFence s source.machineType newOffset
      let code ← emitMoveImpl s'.ctx target source false
      return (grow ++ plainWindow code, s')
  | lift dstReg source => do
      let code ← emitMoveImpl s.ctx ⟨source.machineType, .register dstReg⟩ source false
      return (plainWindow code, s)

/-- The state after a step. -/
def next (s : FrameState) : AllocStep → FrameState
  | spill _ newOffset =>
      if s.ctx.stackFrameSize < newOffset then
        let size := s.alignStackFrameSize (newOffset + 32)
        { s with
          ctx := { s.ctx with stackFrameSize := size }
          checkedStackFrameSize :=
            if s.checkedStackFrameSize < size then size else s.checkedStackFrameSize }
      else s
  | lift _ _ => s

/-- The registers and storages are as the allocator provides them. -/
def Valid : AllocStep → Prop
  | spill source _ => ValidStorage source ∧ ∃ r, source.location = .register r
  | lift dstReg source => ValidStorage source ∧
      ValidStorage (⟨source.machineType, .register dstReg⟩ : VariableStorage REG)

/-- The frame grows beyond the size that was checked. -/
def GrowsUnchecked (s : FrameState) : AllocStep → Prop
  | spill _ newOffset => s.ctx.stackFrameSize < newOffset ∧
      s.checkedStackFrameSize < s.alignStackFrameSize (newOffset + 32)
  | lift _ _ => False

/-- The displacement of the slot is split. -/
def Splits (s : FrameState) : AllocStep → Prop
  | spill source newOffset => OutOfRange ((spill source newOffset).next s).ctx
      (.stackMemory source.machineType newOffset)
  | lift _ source => OutOfRange s.ctx source

end AllocStep

/-- The code of steps. -/
def emitSteps (stackFence : BitVec 16) (s : FrameState) :
    List AllocStep → Option (List WindowInstr × FrameState)
  | [] => some ([], s)
  | step :: steps => do
      let (code, s') ← step.emit stackFence s
      let (rest, s'') ← emitSteps stackFence s' steps
      return (code ++ rest, s'')

/-- Some step is as described, in the state before it. -/
def AnyStep (P : FrameState → AllocStep → Prop) (s : FrameState) : List AllocStep → Prop
  | [] => False
  | step :: steps => P s step ∨ AnyStep P (step.next s) steps

/-! ### The address registers that the allocator writes -/

/-- The code writes the register. -/
def WindowWrites (code : List WindowInstr) (r : REG) : Prop := ∃ i ∈ code, r ∈ i.writes

/-- No instruction writes nothing. -/
@[simp] theorem windowWrites_nil (r : REG) : ¬ WindowWrites [] r := by
  rintro ⟨i, hi, -⟩
  exact List.not_mem_nil hi

/-- The first instruction or a later one. -/
@[simp] theorem windowWrites_cons (i : WindowInstr) (code : List WindowInstr) (r : REG) :
    WindowWrites (i :: code) r ↔ r ∈ i.writes ∨ WindowWrites code r := by
  simp [WindowWrites]

/-- One piece of code or the other. -/
@[simp] theorem windowWrites_append (code code' : List WindowInstr) (r : REG) :
    WindowWrites (code ++ code') r ↔ WindowWrites code r ∨ WindowWrites code' r := by
  simp [WindowWrites, or_and_right, exists_or]

/-- The code of moves. -/
@[simp] theorem windowWrites_plainWindow (code : List Instr) (r : REG) :
    WindowWrites (plainWindow code) r ↔ CodeWrites code r := by
  simp [WindowWrites, CodeWrites, plainWindow, WindowInstr.writes, BulkOp.writes]

/-- Making the frame another size writes the stack pointer. -/
theorem eq_of_codeWrites_setStackFrameSize {s s' : FrameState} {frameSize : UInt32}
    {code : List Instr} (h : s.setStackFrameSize frameSize = some (code, s')) {r : REG}
    (hr : CodeWrites code r) : r = .SP := by
  rw [FrameState.setStackFrameSize] at h
  split at h
  · obtain ⟨rfl, -⟩ := Prod.mk.inj (Option.some.inj h)
    exact absurd hr (codeWrites_nil r)
  · split at h
    · cases h
    · obtain ⟨rfl, -⟩ := Prod.mk.inj (Option.some.inj h)
      split at hr
      · exact eq_of_codeWrites_addImmToReg hr
      · rw [subSp] at hr
        split at hr
        · exact absurd hr (codeWrites_nil r)
        · split at hr
          · simpa [Instr.writes] using hr
          · exact eq_of_codeWrites_addImmToReg hr

/-- The state behind a frame of another size. -/
theorem setStackFrameSize_eq {s s' : FrameState} {frameSize : UInt32} {code : List Instr}
    (h : s.setStackFrameSize frameSize = some (code, s')) :
    s' = { s with ctx := { s.ctx with stackFrameSize := frameSize } } := by
  rw [FrameState.setStackFrameSize] at h
  split at h
  · case _ heq =>
      obtain ⟨-, rfl⟩ := Prod.mk.inj (Option.some.inj h)
      rw [← heq]
  · split at h
    · cases h
    · exact (Prod.mk.inj (Option.some.inj h)).2.symm

/-- **Requesting a slot** writes the first two scratch registers exactly if the frame grows beyond
the size that was checked. -/
theorem reqSpillTarget_spec {stackFence : BitVec 16} {s s' : FrameState} {type : MachineType}
    {newOffset : UInt32} {code : List WindowInstr} {target : VariableStorage REG}
    (h : reqSpillTarget stackFence s type newOffset = some (code, s', target))
    (source : VariableStorage REG) :
    target = .stackMemory type newOffset ∧ s' = (AllocStep.spill source newOffset).next s ∧
      ∀ r, r.isDATA = false → r ≠ .SP → (WindowWrites code r ↔
        (r = addrScrReg 0 ∨ r = addrScrReg 1) ∧
          (AllocStep.spill source newOffset).GrowsUnchecked s) := by
  rw [reqSpillTarget] at h
  dsimp only at h
  split at h
  · case _ hgrow =>
      obtain ⟨⟨grow, grown⟩, hset, h⟩ := Option.bind_eq_some_iff.mp h
      have hgrown := setStackFrameSize_eq hset
      have hsp : ∀ r, r ≠ .SP → ¬ CodeWrites grow r := fun r hr hwrites =>
        hr (eq_of_codeWrites_setStackFrameSize hset hwrites)
      dsimp only at h
      split at h
      · case _ hcheck =>
          simp only [pure, Option.some.injEq, Prod.mk.injEq] at h
          obtain ⟨rfl, rfl, rfl⟩ := h
          refine ⟨rfl, ?_, fun r hr hrsp => ?_⟩
          · rw [hgrown, AllocStep.next, if_pos hgrow]
            dsimp only
            rw [if_pos hcheck]
          · have hdata : r ≠ .D 0 := by
              rintro rfl
              cases hr
            have hunchecked : (AllocStep.spill source newOffset).GrowsUnchecked s :=
              ⟨hgrow, hcheck⟩
            simp only [windowWrites_append, windowWrites_plainWindow, hsp r hrsp, false_or,
              windowWrites_cons, checkStackFence, WindowInstr.writes, BulkOp.writes, Instr.writes,
              List.mem_singleton, List.not_mem_nil, windowWrites_nil, or_false, hdata,
              hunchecked, and_true]
            exact or_comm
      · case _ hcheck =>
          simp only [pure, Option.some.injEq, Prod.mk.injEq] at h
          obtain ⟨rfl, rfl, rfl⟩ := h
          refine ⟨rfl, ?_, fun r hr hrsp => ?_⟩
          · rw [hgrown, AllocStep.next, if_pos hgrow]
            dsimp only
            rw [if_neg hcheck]
          · rw [windowWrites_plainWindow]
            exact iff_of_false (hsp r hrsp) fun hboth => hcheck hboth.2.2
  · case _ hgrow =>
      simp only [Option.some.injEq, Prod.mk.injEq] at h
      obtain ⟨rfl, rfl, rfl⟩ := h
      refine ⟨rfl, by rw [AllocStep.next, if_neg hgrow], fun r _ _ => ?_⟩
      exact iff_of_false (windowWrites_nil r) fun hboth => hgrow hboth.2.1

/-- A spill moves a register to its slot. -/
theorem AllocStep.Valid.registerMove_spill {source : VariableStorage REG} {newOffset : UInt32}
    (h : (AllocStep.spill source newOffset).Valid) :
    RegisterMove (.stackMemory source.machineType newOffset) source :=
  ⟨⟨h.1.1, trivial⟩, h.1, rfl, fun _ => by simp [VariableStorage.stackMemory], .inr h.2⟩

/-- A lift moves an operand to a register. -/
theorem AllocStep.Valid.registerMove_lift {dstReg : REG} {source : VariableStorage REG}
    (h : (AllocStep.lift dstReg source).Valid) :
    RegisterMove ⟨source.machineType, .register dstReg⟩ source :=
  ⟨h.2, h.1, rfl, fun _ => by simp, .inl ⟨dstReg, rfl⟩⟩

/-- **The address registers that a step writes.** -/
theorem windowWrites_emit_iff {stackFence : BitVec 16} {s s' : FrameState} {step : AllocStep}
    (hstep : step.Valid) {code : List WindowInstr} (h : step.emit stackFence s = some (code, s')) :
    s' = step.next s ∧ ∀ r, r.isDATA = false → r ≠ .SP → (WindowWrites code r ↔
      ((r = addrScrReg 0 ∨ r = addrScrReg 1) ∧ step.GrowsUnchecked s) ∨
        (r = addrScrReg 2 ∧ step.Splits s)) := by
  cases step with
  | spill source newOffset =>
      obtain ⟨⟨grow, grown, target⟩, hrequest, h⟩ := Option.bind_eq_some_iff.mp h
      obtain ⟨move, hmove, h⟩ := Option.bind_eq_some_iff.mp h
      simp only [pure, Option.some.injEq, Prod.mk.injEq] at h
      obtain ⟨rfl, rfl⟩ := h
      obtain ⟨rfl, rfl, hwrites⟩ := reqSpillTarget_spec hrequest source
      refine ⟨rfl, fun r hr hrsp => ?_⟩
      have hsource : ¬ OutOfRange ((AllocStep.spill source newOffset).next s).ctx source :=
        not_outOfRange_of_register (not_inMemory_of_register hstep.2.choose_spec)
      rw [windowWrites_append, windowWrites_plainWindow, hwrites r hr hrsp,
        codeWrites_emitMoveImpl_iff hstep.registerMove_spill hmove hr, MoveInRange,
        and_iff_left hsource, not_not]
      rfl
  | lift dstReg source =>
      obtain ⟨move, hmove, h⟩ := Option.bind_eq_some_iff.mp h
      simp only [pure, Option.some.injEq, Prod.mk.injEq] at h
      obtain ⟨rfl, rfl⟩ := h
      refine ⟨rfl, fun r hr hrsp => ?_⟩
      have hdst :
          ¬ OutOfRange s.ctx (⟨source.machineType, .register dstReg⟩ : VariableStorage REG) :=
        not_outOfRange_of_register (not_inMemory_of_register rfl)
      rw [windowWrites_plainWindow, codeWrites_emitMoveImpl_iff hstep.registerMove_lift hmove hr,
        MoveInRange, and_iff_right hdst, not_not]
      simp [AllocStep.GrowsUnchecked, AllocStep.Splits]

/-- **The address registers that steps write.** -/
theorem windowWrites_emitSteps_iff {stackFence : BitVec 16} {s s' : FrameState}
    {steps : List AllocStep} (hsteps : ∀ step ∈ steps, step.Valid) {code : List WindowInstr}
    (h : emitSteps stackFence s steps = some (code, s')) {r : REG} (hr : r.isDATA = false)
    (hrsp : r ≠ .SP) :
    WindowWrites code r ↔
      ((r = addrScrReg 0 ∨ r = addrScrReg 1) ∧ AnyStep (fun s a => a.GrowsUnchecked s) s steps) ∨
        (r = addrScrReg 2 ∧ AnyStep (fun s a => a.Splits s) s steps) := by
  induction steps generalizing s code with
  | nil =>
      simp only [emitSteps, Option.some.injEq, Prod.mk.injEq] at h
      obtain ⟨rfl, -⟩ := h
      simp [AnyStep]
  | cons step steps ih =>
      rw [emitSteps] at h
      obtain ⟨⟨first, mid⟩, hfirst, h⟩ := Option.bind_eq_some_iff.mp h
      obtain ⟨⟨rest, last⟩, hrest, h⟩ := Option.bind_eq_some_iff.mp h
      simp only [pure, Option.some.injEq, Prod.mk.injEq] at h
      obtain ⟨rfl, rfl⟩ := h
      obtain ⟨rfl, hwrites⟩ := windowWrites_emit_iff (hsteps step List.mem_cons_self) hfirst
      rw [windowWrites_append, hwrites r hr hrsp,
        ih (fun a ha => hsteps a (List.mem_cons_of_mem _ ha)) hrest]
      simp only [AnyStep, and_or_left]
      tauto

/-! ### The lowerings -/

/-- The lowerings that have operands in address registers while the allocator provides data
registers: the operands, what the allocator does before they are moved, and what it does until
the last data register is provided. -/
inductive Lowering where
  | executeLinearMemoryCopy (dst src : VariableStorage REG) (lifts requests : List AllocStep)
  | executeLinearMemoryFill (dst : VariableStorage REG) (requests : List AllocStep)
  | copyFromLinkedMemory (dst src : VariableStorage REG) (lifts requests : List AllocStep)
  deriving DecidableEq, Repr

/-- The code around the operands: each operand has its register and the code that moves it. -/
structure WindowCode where
  before : List WindowInstr
  operands : List (REG × List WindowInstr)
  between : List WindowInstr
  deriving DecidableEq, Repr

/-- The code of operands. -/
def operandsCode (operands : List (REG × List WindowInstr)) : List WindowInstr :=
  operands.flatMap (·.2)

namespace WindowCode

/-- The code from an operand on writes the register of the operand nowhere. -/
def KeepsFrom (between : List WindowInstr) : List (REG × List WindowInstr) → Prop
  | [] => True
  | (r, _) :: operands =>
      ¬ WindowWrites (operandsCode operands ++ between) r ∧ KeepsFrom between operands

/-- **No operand is overwritten** before the lowering itself goes on. -/
def Keeps (w : WindowCode) : Prop := KeepsFrom w.between w.operands

/-- The code. -/
def code (w : WindowCode) : List WindowInstr := w.before ++ (operandsCode w.operands ++ w.between)

end WindowCode

/-- The code that moves operands to address registers. -/
def emitOperands (ctx : AddressingContext) :
    List (REG × VariableStorage REG) → Option (List (REG × List WindowInstr))
  | [] => some []
  | (r, storage) :: operands => do
      let code ← copyValueOfElemToAddrReg ctx r storage
      let rest ← emitOperands ctx operands
      return (r, code.map .op) :: rest

/-- The state after steps. -/
def stateAfter (s : FrameState) (steps : List AllocStep) : FrameState :=
  steps.foldl (fun s step => step.next s) s

namespace Lowering

/-- The steps before the operands are moved. -/
def lifts : Lowering → List AllocStep
  | executeLinearMemoryCopy _ _ lifts _ | copyFromLinkedMemory _ _ lifts _ => lifts
  | executeLinearMemoryFill _ _ => []

/-- The operands and their registers. -/
def operands : Lowering → List (REG × VariableStorage REG)
  | executeLinearMemoryCopy dst src _ _ => [(addrScrReg 0, dst), (addrScrReg 1, src)]
  | executeLinearMemoryFill dst _ => [(addrScrReg 2, dst)]
  | copyFromLinkedMemory dst src _ _ => [(memLdStReg, dst), (addrScrReg 0, src)]

/-- The steps behind the operands. -/
def requests : Lowering → List AllocStep
  | executeLinearMemoryCopy _ _ _ requests | copyFromLinkedMemory _ _ _ requests
  | executeLinearMemoryFill _ requests => requests

/-- The code of a lowering until the last data register is provided. -/
def emit (stackFence : BitVec 16) (s : FrameState) (l : Lowering) : Option WindowCode := do
  let (before, s') ← emitSteps stackFence s l.lifts
  let operands ← emitOperands s'.ctx l.operands
  let (between, _) ← emitSteps stackFence s' l.requests
  return ⟨before, operands, between⟩

/-- The steps and the operands are as the allocator provides them. -/
structure Valid (l : Lowering) : Prop where
  lifts : ∀ step ∈ l.lifts, step.Valid
  operands : ∀ p ∈ l.operands, ValidStorage p.2
  requests : ∀ step ∈ l.requests, step.Valid

/-- While the operands are in the first two scratch registers, the frame does not grow beyond the
size that was checked; while one is in the third, no displacement is split. -/
def Safe (s : FrameState) (l : Lowering) : Prop :=
  match l with
  | executeLinearMemoryCopy _ _ lifts requests | copyFromLinkedMemory _ _ lifts requests =>
      ¬ AnyStep (fun s a => a.GrowsUnchecked s) (stateAfter s lifts) requests
  | executeLinearMemoryFill _ requests => ¬ AnyStep (fun s a => a.Splits s) s requests

end Lowering

/-- An operand is moved to its register and to no other. -/
theorem eq_of_writes_copyValueOfElemToAddrReg {ctx : AddressingContext} {addrReg r : REG}
    (haddr : addrReg ≠ linMem ∧ addrReg ≠ .SP) {s : VariableStorage REG} (hs : ValidStorage s)
    {code : List BulkOp} (h : copyValueOfElemToAddrReg ctx addrReg s = some code)
    (hr : WindowWrites (code.map .op) r) : r = addrReg := by
  have hplain : ∀ instrs : List Instr,
      WindowWrites ((instrs.map BulkOp.plain).map .op) r → CodeWrites instrs r := by
    intro instrs hwrites
    rw [List.map_map] at hwrites
    exact (windowWrites_plainWindow instrs r).mp hwrites
  rcases hs.cases with ⟨reg, hreg⟩ | ⟨c, hc⟩ | hmem
  · rw [copyValueOfElemToAddrReg, hreg] at h
    obtain rfl := Option.some.inj h
    simpa [WindowInstr.writes, BulkOp.writes] using hr
  · rw [copyValueOfElemToAddrReg, hc] at h
    obtain rfl := Option.some.inj h
    exact eq_of_codeWrites_MOVimm32 (hplain _ hr)
  · have hload : ∃ reach reg field, getMemRegDisp 16 ctx s addrReg = some (reach, reg, field) ∧
        code = (reach ++ emitLoadDerefOff16sx addrReg reg field).map .plain := by
      obtain ⟨base, disp, hbase, -⟩ := hmem.baseDisp? ctx
      obtain ⟨⟨reach, reg, field⟩, hget⟩ :
          ∃ result, getMemRegDisp 16 ctx s addrReg = some result :=
        ⟨_, by rw [getMemRegDisp, hbase]; rfl⟩
      refine ⟨reach, reg, field, hget, Option.some.inj (h.symm.trans ?_)⟩
      obtain ⟨p, hp | hp⟩ := hmem <;> simp [copyValueOfElemToAddrReg, hp, hget]
    obtain ⟨reach, reg, field, hget, rfl⟩ := hload
    have hwrites := hplain _ hr
    rw [codeWrites_append, codeWrites_getMemRegDisp haddr hmem hget] at hwrites
    rcases hwrites with ⟨hscratch, -⟩ | hwrites
    · exact hscratch
    · rw [emitLoadDerefOff16sx] at hwrites
      split at hwrites <;> simpa [Instr.writes] using hwrites

/-- The state behind steps. -/
theorem eq_stateAfter {stackFence : BitVec 16} {s s' : FrameState} {steps : List AllocStep}
    (hsteps : ∀ step ∈ steps, step.Valid) {code : List WindowInstr}
    (h : emitSteps stackFence s steps = some (code, s')) : s' = stateAfter s steps := by
  induction steps generalizing s code with
  | nil => exact (Prod.mk.inj (Option.some.inj h)).2.symm
  | cons step steps ih =>
      rw [emitSteps] at h
      obtain ⟨⟨first, mid⟩, hfirst, h⟩ := Option.bind_eq_some_iff.mp h
      obtain ⟨⟨rest, last⟩, hrest, h⟩ := Option.bind_eq_some_iff.mp h
      simp only [pure, Option.some.injEq, Prod.mk.injEq] at h
      obtain ⟨-, rfl⟩ := h
      obtain ⟨rfl, -⟩ := windowWrites_emit_iff (hsteps step List.mem_cons_self) hfirst
      exact ih (fun a ha => hsteps a (List.mem_cons_of_mem _ ha)) hrest

/-- The code of two operands. -/
theorem emitOperands_pair {ctx : AddressingContext} {r r' : REG} {a a' : VariableStorage REG}
    {operands : List (REG × List WindowInstr)}
    (h : emitOperands ctx [(r, a), (r', a')] = some operands) :
    ∃ code code' : List BulkOp, copyValueOfElemToAddrReg ctx r' a' = some code' ∧
      operands = [(r, code.map .op), (r', code'.map .op)] := by
  obtain ⟨code, -, h⟩ := Option.bind_eq_some_iff.mp h
  obtain ⟨rest, hrest, h⟩ := Option.bind_eq_some_iff.mp h
  obtain ⟨code', hcode', hrest⟩ := Option.bind_eq_some_iff.mp hrest
  obtain rfl := Option.some.inj hrest
  exact ⟨code, code', hcode', (Option.some.inj h).symm⟩

/-- Two operands are kept if neither the move of the second one nor the allocator writes the
register of the first one, and the allocator does not write the other. -/
theorem keeps_pair_iff {ctx : AddressingContext} {r r' : REG} (hne : r ≠ r')
    (haddr : r' ≠ linMem ∧ r' ≠ .SP) {a a' : VariableStorage REG} (ha' : ValidStorage a')
    {operands : List (REG × List WindowInstr)}
    (h : emitOperands ctx [(r, a), (r', a')] = some operands) (between : List WindowInstr) :
    WindowCode.KeepsFrom between operands ↔
      ¬ WindowWrites between r ∧ ¬ WindowWrites between r' := by
  obtain ⟨code, code', hcode', rfl⟩ := emitOperands_pair h
  have hnot : ¬ WindowWrites (code'.map .op) r := fun hwrites =>
    hne (eq_of_writes_copyValueOfElemToAddrReg haddr ha' hcode' hwrites)
  simp [WindowCode.KeepsFrom, operandsCode, hnot]

/-- **Operands in address registers are kept** exactly if the frame does not grow beyond the size
that was checked (copies), and if no displacement is split (filling). -/
theorem addressKept_iff (stackFence : BitVec 16) (s : FrameState) {l : Lowering} (hl : l.Valid)
    {w : WindowCode} (hw : l.emit stackFence s = some w) : w.Keeps ↔ l.Safe s := by
  obtain ⟨⟨before, s'⟩, hbefore, hw⟩ := Option.bind_eq_some_iff.mp hw
  obtain ⟨operands, hoperands, hw⟩ := Option.bind_eq_some_iff.mp hw
  obtain ⟨⟨between, s''⟩, hbetween, hw⟩ := Option.bind_eq_some_iff.mp hw
  obtain rfl := Option.some.inj hw
  obtain rfl := eq_stateAfter hl.lifts hbefore
  have hwrites : ∀ r : REG, r.isDATA = false → r ≠ .SP → _ := fun r hr hrsp =>
    windowWrites_emitSteps_iff hl.requests hbetween hr hrsp
  have h0 := hwrites (addrScrReg 0) rfl (by decide)
  have h1 := hwrites (addrScrReg 1) rfl (by decide)
  have h2 := hwrites (addrScrReg 2) rfl (by decide)
  have h15 := hwrites memLdStReg rfl (by decide)
  simp only [addrScrReg, memLdStReg, REG.A.injEq, Fin.reduceEq, or_true, true_and,
    false_and, or_false, false_or] at h0 h1 h2 h15
  cases l with
  | executeLinearMemoryCopy dst src lifts requests =>
      refine (keeps_pair_iff (by decide) (by decide)
        (hl.operands (addrScrReg 1, src) (List.mem_cons_of_mem _ List.mem_cons_self))
        hoperands between).trans ?_
      simp only [addrScrReg, h0, h1, and_self]
      rfl
  | executeLinearMemoryFill dst requests =>
      obtain ⟨code, -, hw⟩ := Option.bind_eq_some_iff.mp hoperands
      obtain rfl := Option.some.inj hw
      simp only [WindowCode.Keeps, WindowCode.KeepsFrom, operandsCode, List.flatMap_nil,
        List.nil_append, and_true, addrScrReg, h2]
      rfl
  | copyFromLinkedMemory dst src lifts requests =>
      refine (keeps_pair_iff (by decide) (by decide)
        (hl.operands (addrScrReg 0, src) (List.mem_cons_of_mem _ List.mem_cons_self))
        hoperands between).trans ?_
      simp only [addrScrReg, memLdStReg, h0, h15, not_false_eq_true, true_and]
      rfl

/-- A frame of 32 bytes that is checked. -/
def smallFrame : FrameState := ⟨⟨0x100, 32⟩, 0, 32⟩

/-- Filling with a size that is lifted from the frame. -/
def liftedFill : Lowering :=
  .executeLinearMemoryFill (.const .i32 5) [.lift (.D 1) (.stackMemory .i32 16)]

/-- A slot of a small frame is reached without the scratch register. -/
theorem liftedFill_keeps : ∃ w, liftedFill.emit 0x60 smallFrame = some w ∧ w.Keeps := by
  have hvalid : liftedFill.Valid := by
    refine ⟨by simp [liftedFill, Lowering.lifts], ?_, ?_⟩
    · rintro p hp
      obtain rfl := List.mem_singleton.mp hp
      exact ⟨by decide, trivial⟩
    · rintro step hstep
      obtain rfl := List.mem_singleton.mp hstep
      exact ⟨⟨by decide, trivial⟩, by decide, rfl, by decide⟩
  refine ⟨⟨[], [(.A 7, [.op (.plain (.MOVA_Aa_const4zx (.A 7) 5))])],
    [.op (.plain (.LDW_Da_deref_Ab_off16sx (.D 1) (.A 10) 16))]⟩, by decide, ?_⟩
  refine (addressKept_iff 0x60 smallFrame hvalid (by decide)).mpr ?_
  rintro (⟨base, disp, hbase, hout⟩ | hnone)
  · obtain ⟨-, rfl⟩ := Prod.mk.inj (Option.some.inj hbase)
    revert hout
    decide
  · exact hnone

/-- Copying while a register is spilled to a slot behind the frame. -/
def spillingCopy : Lowering :=
  .executeLinearMemoryCopy (.const .i32 5) (.const .i32 7) [] [.spill (.reg .i32 (.D 4)) 40]

/-- A machine with a stack. -/
def stackMachine : Machine :=
  { clearedMachine with regs := fun r => if r = .SP then 0x1000 else 0 }

/-- **The destination of a copy is lost**: the check of the larger frame has its register. -/
theorem not_spillingCopy_keeps :
    ∃ w m, spillingCopy.emit 0x60 smallFrame = some w ∧ ¬ w.Keeps ∧
      runWindow w.code stackMachine = .ok m ∧ m.regs (addrScrReg 0) = 0 := by
  refine ⟨_, _, rfl, fun hkeeps => ?_, rfl, by decide⟩
  refine hkeeps.1 ⟨.op (.plain (.LDA_Aa_deref_Ab_off16sx (.A 12) (.A 2) (0 - 0x60))), ?_, ?_⟩
  · decide
  · decide

end TriCore

end WasmCompiler
