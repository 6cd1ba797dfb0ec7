import WasmCompiler.TriCoreMoves
import WasmCompiler.ForwardCode

/-!
# Growing the Memory on TriCore

`executeMemGrow` adds the delta to the number of pages in 32 bits. It detects an overflow of the
addition with the flag of the program status word, which is the flag of a signed addition, and
compares the sum with the maximum, as numbers without a sign.

## Main results

* `run_executeMemGrow`: what the code does, `grown`.
* `memGrowExact_iff`: the code does what `memory.grow` should, exactly unless the sum wraps around
  to a number of pages within the maximum without a signed overflow.
* `GrowRun.pages_le`: in every run the number of pages stays within the maximum.
-/

namespace WasmCompiler

namespace TriCore

open ByteMemory Machine

/-! ### Jumps -/

/-- The instructions with the forward jumps of `executeMemGrow`; a jump names the number of
instructions that it skips. -/
inductive FlowInstr where
  | plain (i : Instr)
  | JNZT_Da_n_disp15sx2 (da : REG) (n : ℕ) (skipped : ℕ)
  | JGEU_Da_Db_disp15sx2 (da db : REG) (skipped : ℕ)
  | J_disp24sx2 (skipped : ℕ)
  deriving DecidableEq, Repr

/-- Execute an instruction. -/
def FlowInstr.exec (i : FlowInstr) (m : Machine) : ForwardCode.Control Empty × Machine :=
  match i with
  | plain i => (.next, i.exec m)
  | JNZT_Da_n_disp15sx2 da n skipped =>
      (if (m.regs da).getLsbD n then .skip skipped else .next, m)
  | JGEU_Da_Db_disp15sx2 da db skipped =>
      (if m.regs db ≤ m.regs da then .skip skipped else .next, m)
  | J_disp24sx2 skipped => (.skip skipped, m)

/-- Instructions without jumps. -/
def plainCode (code : List Instr) : List FlowInstr := code.map .plain

/-- Instructions without jumps do not jump. -/
theorem straight_plainCode (code : List Instr) :
    ForwardCode.Straight FlowInstr.exec (plainCode code) := by
  intro i hi m
  obtain ⟨i', -, rfl⟩ := List.mem_map.mp hi
  rfl

/-- Instructions without jumps are executed one behind the other. -/
theorem execAll_plainCode (code : List Instr) (m : Machine) :
    ForwardCode.execAll FlowInstr.exec (plainCode code) m = execAll code m := by
  induction code generalizing m with
  | nil => rfl
  | cons i code ih => exact ih (i.exec m)

/-- Instructions without jumps before other code. -/
theorem run_plainCode_append (code : List Instr) (rest : List FlowInstr) (m : Machine) :
    ForwardCode.run FlowInstr.exec 0 (plainCode code ++ rest) m =
      ForwardCode.run FlowInstr.exec 0 rest (execAll code m) := by
  rw [ForwardCode.run_append_of_straight (straight_plainCode code), execAll_plainCode]

/-! ### The code -/

/-- The limits of a module's memory. -/
structure MemoryLimits where
  memoryHasSizeLimit : Bool
  memoryMaximumSize : UInt32
  deriving DecidableEq, Repr

/-- A declared maximum is at most 65536 pages, which validation checks. -/
def MemoryLimits.Valid (limits : MemoryLimits) : Prop :=
  limits.memoryHasSizeLimit = true → limits.memoryMaximumSize ≤ 65536

/-- `maxMemorySize`. -/
def maxMemorySize (limits : MemoryLimits) : BitVec 32 :=
  if limits.memoryHasSizeLimit then limits.memoryMaximumSize.toBitVec else 1 <<< 16

/-- The maximum is at most 65536 pages. -/
theorem maxMemorySize_le {limits : MemoryLimits} (h : limits.Valid) :
    (maxMemorySize limits).toNat ≤ 65536 := by
  rw [maxMemorySize]
  split
  · case _ hlimit => exact h hlimit
  · decide

/-- `Basedata::FromEnd::linMemWasmSize`: behind the status flags and the unwinding register. -/
def linMemWasmSize (interruptionRequest : Bool) : ℤ :=
  (if interruptionRequest then 8 else 0) + 8 + 4

/-- The displacement of the number of pages from the base of the linear memory. -/
def pagesDisp (interruptionRequest : Bool) : BitVec 16 :=
  BitVec.ofInt 16 (-linMemWasmSize interruptionRequest)

/-- The registers of `executeMemGrow`: the two that it requests, and the one that the delta is
lifted to if it is in no register. -/
structure GrowRegs where
  gpOutput : REG
  interm : REG
  lifted : REG
  deriving DecidableEq, Repr

/-- Add the delta, `ADDI` or `loadArgsToRegsAndPrepDest` and `ADD`. -/
def addDelta (ctx : AddressingContext) (delta : VariableStorage REG) (regs : GrowRegs) :
    Option (List Instr) :=
  let lift := (emitMoveImpl ctx ⟨.i32, .register regs.lifted⟩ delta false).map
    (· ++ [.ADD_Da_Db regs.gpOutput regs.lifted])
  match delta.location with
  | .register deltaReg => some [.ADD_Da_Db regs.gpOutput deltaReg]
  | .constant constant =>
      if signedInRange 16 (constant.setWidth 32).toInt then
        some [.ADDI_Dc_Da_const16sx regs.gpOutput regs.gpOutput (constant.setWidth 16)]
      else lift
  | _ => lift

/-- Load the number of pages. -/
def loadPages (interruptionRequest : Bool) (reg : REG) : List Instr :=
  loadWordDRegDerefARegDisp16sx reg linMem (pagesDisp interruptionRequest)

/-- The end of the code: store the sum and return the old number of pages. -/
def noErrorCode (interruptionRequest : Bool) (regs : GrowRegs) : List Instr :=
  loadPages interruptionRequest regs.interm ++
    (storeWordDerefARegDisp16sxDReg regs.gpOutput linMem (pagesDisp interruptionRequest) ++
      [.MOV_Da_Db regs.gpOutput regs.interm])

/-- The code of the error: return `-1` and jump to the end. -/
def errorCode (interruptionRequest : Bool) (regs : GrowRegs) : List FlowInstr :=
  plainCode (MOVimm32 regs.gpOutput 0xFFFFFFFF) ++
    [.J_disp24sx2 (noErrorCode interruptionRequest regs).length]

/-- The comparison with the maximum. -/
def compareCode (interruptionRequest : Bool) (limits : MemoryLimits) (regs : GrowRegs) :
    List FlowInstr :=
  plainCode (MOVimm32 regs.interm (maxMemorySize limits)) ++
    [.JGEU_Da_Db_disp15sx2 regs.interm regs.gpOutput (errorCode interruptionRequest regs).length]

/-- `executeMemGrow`. -/
def executeMemGrow (interruptionRequest : Bool) (limits : MemoryLimits) (ctx : AddressingContext)
    (delta : VariableStorage REG) (regs : GrowRegs) : Option (List FlowInstr) :=
  (addDelta ctx delta regs).map fun add =>
    plainCode (loadPages interruptionRequest regs.gpOutput ++
      (add ++ [.MFCR_Dc_const16 regs.interm pswCROffset])) ++
    (.JNZT_Da_n_disp15sx2 regs.interm 30 (compareCode interruptionRequest limits regs).length ::
      (compareCode interruptionRequest limits regs ++
        (errorCode interruptionRequest regs ++ plainCode (noErrorCode interruptionRequest regs))))

/-! ### What growing should do, and what is computed -/

/-- What `memory.grow` should do: store the sum and return the old number of pages if the sum is
within the maximum, otherwise return `-1` and leave the number of pages alone. -/
def GrownExact (max old delta pages result : BitVec 32) : Prop :=
  if old.toNat + delta.toNat ≤ max.toNat then
    pages.toNat = old.toNat + delta.toNat ∧ result = old
  else pages = old ∧ result = 0xFFFFFFFF

/-- The number of pages and the result that are computed. -/
def grown (max old delta : BitVec 32) : BitVec 32 × BitVec 32 :=
  if BitVec.saddOverflow old delta = false ∧ old + delta ≤ max then (old + delta, old)
  else (old, 0xFFFFFFFF)

/-- The sum wraps around to a number of pages within the maximum, without a signed overflow. -/
def WrapsWithin (max old delta : BitVec 32) : Prop :=
  2 ^ 32 ≤ old.toNat + delta.toNat ∧ old.toNat + delta.toNat - 2 ^ 32 ≤ max.toNat ∧
    BitVec.saddOverflow old delta = false

/-- **The number of pages stays within the maximum.** -/
theorem grown_le {max old : BitVec 32} (h : old ≤ max) (delta : BitVec 32) :
    (grown max old delta).1 ≤ max := by
  rw [grown]
  split
  · case _ hsum => exact hsum.2
  · exact h

/-- What is computed is right exactly unless the sum wraps around within the maximum. -/
theorem grownExact_iff {max : BitVec 32} (hmax : max.toNat ≤ 65536) (old delta : BitVec 32) :
    GrownExact max old delta (grown max old delta).1 (grown max old delta).2 ↔
      ¬ WrapsWithin max old delta := by
  have hold := old.isLt
  have hdelta := delta.isLt
  have hsum : (old + delta).toNat =
      if old.toNat + delta.toNat < 2 ^ 32 then old.toNat + delta.toNat
      else old.toNat + delta.toNat - 2 ^ 32 := by
    rw [BitVec.toNat_add]
    split <;> omega
  by_cases hwrap : old.toNat + delta.toNat < 2 ^ 32
  · have hno : ¬ WrapsWithin max old delta := fun h => absurd h.1 (by omega)
    rw [if_pos hwrap] at hsum
    refine ⟨fun _ => hno, fun _ => ?_⟩
    by_cases hle : old.toNat + delta.toNat ≤ max.toNat
    · have hsigned : BitVec.saddOverflow old delta = false := by
        rw [BitVec.saddOverflow, BitVec.toInt_eq_toNat_of_lt (by omega),
          BitVec.toInt_eq_toNat_of_lt (by omega)]
        simp only [Bool.or_eq_false_iff, decide_eq_false_iff_not]
        omega
      have hgrown : grown max old delta = (old + delta, old) :=
        if_pos ⟨hsigned, BitVec.le_def.mpr (by omega)⟩
      rw [hgrown, GrownExact, if_pos hle]
      exact ⟨hsum, rfl⟩
    · have hgrown : grown max old delta = (old, 0xFFFFFFFF) :=
        if_neg fun h => hle (hsum ▸ BitVec.le_def.mp h.2)
      rw [hgrown, GrownExact, if_neg hle]
      exact ⟨rfl, rfl⟩
  · rw [if_neg hwrap] at hsum
    have hspec : ¬ old.toNat + delta.toNat ≤ max.toNat := by omega
    rw [GrownExact, if_neg hspec]
    by_cases hgrow : BitVec.saddOverflow old delta = false ∧ old + delta ≤ max
    · have hgrown : grown max old delta = (old + delta, old) := if_pos hgrow
      rw [hgrown]
      have hwithin : WrapsWithin max old delta :=
        ⟨by omega, hsum ▸ BitVec.le_def.mp hgrow.2, hgrow.1⟩
      refine ⟨?_, fun h => absurd hwithin h⟩
      rintro ⟨hpages, -⟩
      -- a sum that wraps around is another number of pages
      have hnat := congrArg BitVec.toNat hpages
      dsimp only at hnat
      omega
    · have hgrown : grown max old delta = (old, 0xFFFFFFFF) := if_neg hgrow
      rw [hgrown]
      refine ⟨fun _ h => hgrow ⟨h.2.2, BitVec.le_def.mpr (hsum ▸ h.2.1)⟩, fun _ => ⟨rfl, rfl⟩⟩

/-- The number of pages never decreases, unless the sum wraps around within the maximum. -/
theorem le_grown {max old delta : BitVec 32} (hmax : max.toNat ≤ 65536)
    (h : ¬ WrapsWithin max old delta) : old ≤ (grown max old delta).1 := by
  have hexact := (grownExact_iff hmax old delta).mpr h
  rw [GrownExact] at hexact
  split at hexact
  · exact BitVec.le_def.mpr (by omega)
  · exact BitVec.le_of_eq hexact.1.symm

/-! ### What the code does -/

/-- The delta, and registers that do not overlap: neither the delta nor the register that it is
lifted to is the one of the sum. -/
structure GrowRegs.Valid (regs : GrowRegs) (delta : VariableStorage REG) : Prop where
  type : delta.machineType = .i32
  storage : ValidStorage delta
  data : regs.gpOutput.isDATA = true ∧ regs.interm.isDATA = true ∧ regs.lifted.isDATA = true
  interm_ne : regs.interm ≠ regs.gpOutput
  lifted_ne : regs.lifted ≠ regs.gpOutput
  delta_ne : delta.location ≠ .register regs.gpOutput

/-- The value of the delta. -/
def deltaValue (jobMemory frameTop : BitVec 32) (m : Machine) (delta : VariableStorage REG) :
    BitVec 32 :=
  (storageValue jobMemory frameTop m delta).setWidth 32

/-- The address of the number of pages. -/
def pagesAddress (interruptionRequest : Bool) (m : Machine) : BitVec 32 :=
  m.regs linMem + (pagesDisp interruptionRequest).signExtend 32

/-- The number of pages. -/
def pages (interruptionRequest : Bool) (m : Machine) : BitVec 32 :=
  m.load (pagesAddress interruptionRequest m)

/-- The registers that are written. -/
def GrowRegs.Written (regs : GrowRegs) (r : REG) : Prop :=
  r = regs.gpOutput ∨ r = regs.interm ∨ r = regs.lifted ∨ ScratchReg r

/-- A 32-bit register is moved to a pair, and back. -/
theorem setWidth_setWidth_word (v : BitVec 32) : (v.setWidth 64).setWidth 32 = v := by
  rw [BitVec.setWidth_setWidth_of_le v (by decide), BitVec.setWidth_eq]

/-- The delta is kept while other registers are written. -/
theorem deltaValue_congr {regs : REG → Prop} {delta : VariableStorage REG} {m m' : Machine}
    (htype : delta.machineType = .i32) (h : m.Changes regs NoBytes m')
    (hdelta : ∀ r, delta.location = .register r → ¬ regs r) (jobMemory frameTop : BitVec 32) :
    deltaValue jobMemory frameTop m' delta = deltaValue jobMemory frameTop m delta := by
  refine congrArg (BitVec.setWidth 32) (storageValue_congr h (fun r hr => ?_) jobMemory frameTop)
  rw [StorageReg] at hr
  split at hr
  · case _ r' hlocation =>
      rcases hr with rfl | ⟨h64, -⟩
      · exact hdelta r hlocation
      · rw [htype] at h64
        cases h64
  · exact hr.elim

variable {ctx : AddressingContext} {delta : VariableStorage REG} {regs : GrowRegs}

/-- The delta can be moved to a register. -/
theorem moveCorrect_lifted (ctx : AddressingContext) (h : regs.Valid delta)
    (hnot : ∀ r, delta.location ≠ .register r) :
    MoveCorrect ctx ⟨.i32, .register regs.lifted⟩ delta false := by
  have hvalid : ValidStorage (⟨.i32, .register regs.lifted⟩ : VariableStorage REG) :=
    ⟨nofun, h.data.2.2, fun h64 => by cases h64⟩
  rcases h.storage.cases with ⟨r, hr⟩ | ⟨c, hc⟩ | hmem
  · exact absurd hr (hnot r)
  · exact moveCorrect_register_constant rfl hc hvalid h.type.symm
  · exact moveCorrect_register_memory rfl hmem h.type.symm

/-- Execution added the delta to the number of pages. -/
structure Adds (regs : GrowRegs) (d : BitVec 32) (m m' : Machine) : Prop where
  sum : m'.regs regs.gpOutput = m.regs regs.gpOutput + d
  overflow : m'.psw.overflow = BitVec.saddOverflow (m.regs regs.gpOutput) d
  changes : m.Changes regs.Written NoBytes m'

/-- The delta is lifted and added. -/
theorem adds_lifted (ctx : AddressingContext) (h : regs.Valid delta)
    (hnot : ∀ r, delta.location ≠ .register r) :
    ∃ add, (emitMoveImpl ctx ⟨.i32, .register regs.lifted⟩ delta false).map
        (· ++ [.ADD_Da_Db regs.gpOutput regs.lifted]) = some add ∧
      ∀ (jobMemory frameTop : BitVec 32) (m : Machine), m.Frame ctx jobMemory frameTop →
        Adds regs (deltaValue jobMemory frameTop m delta) m (execAll add m) := by
  obtain ⟨lift, hlift, hmoved⟩ := moveCorrect_lifted ctx h hnot
  refine ⟨lift ++ [.ADD_Da_Db regs.gpOutput regs.lifted], by rw [hlift]; rfl,
    fun jobMemory frameTop m hm => ?_⟩
  obtain ⟨hvalue, hchanges⟩ := hmoved jobMemory frameTop m hm
  have hgp : (execAll lift m).regs regs.gpOutput = m.regs regs.gpOutput := by
    refine hchanges.regs _ (not_or.mpr ⟨?_, not_scratchReg h.data.1⟩)
    rintro (heq | ⟨h64, -⟩)
    · exact h.lifted_ne heq.symm
    · cases h64
  have hlifted : (execAll lift m).regs regs.lifted = deltaValue jobMemory frameTop m delta := by
    rw [deltaValue, ← hvalue]
    exact (setWidth_setWidth_word _).symm
  rw [execAll_append]
  refine ⟨?_, ?_, ⟨fun r hr => ?_, fun a _ => ?_⟩⟩
  · simp [Instr.exec, hgp, hlifted]
  · simp [Instr.exec, hgp, hlifted]
  · simp only [GrowRegs.Written, not_or] at hr
    have hne : r ≠ regs.gpOutput := hr.1
    rw [execAll_cons, execAll_nil, Instr.exec, add_regs, Function.update_of_ne hne]
    refine hchanges.regs r (not_or.mpr ⟨?_, hr.2.2.2⟩)
    rintro (heq | ⟨h64, -⟩)
    · exact hr.2.2.1 heq
    · cases h64
  · refine hchanges.mem a ?_
    rintro ⟨a', hcell, -⟩
    cases hcell

/-- **The delta is added.** -/
theorem adds_addDelta (ctx : AddressingContext) (h : regs.Valid delta) :
    ∃ add, addDelta ctx delta regs = some add ∧
      ∀ (jobMemory frameTop : BitVec 32) (m : Machine), m.Frame ctx jobMemory frameTop →
        Adds regs (deltaValue jobMemory frameTop m delta) m (execAll add m) := by
  have hadds : ∀ (d : BitVec 32) (m : Machine),
      Adds regs d m (m.add regs.gpOutput (m.regs regs.gpOutput) d) := fun d m =>
    ⟨by simp, by simp, fun r hr => by
      rw [add_regs, Function.update_of_ne fun heq => hr (.inl heq)], fun _ _ => rfl⟩
  cases hlocation : delta.location with
  | register r =>
      refine ⟨_, by rw [addDelta, hlocation], fun jobMemory frameTop m _ => ?_⟩
      have hd : deltaValue jobMemory frameTop m delta = m.regs r := by
        rw [deltaValue, storageValue, hlocation, h.type]
        exact setWidth_setWidth_word _
      rw [hd]
      exact hadds (m.regs r) m
  | constant c =>
      by_cases hrange : signedInRange 16 (c.setWidth 32).toInt = true
      · refine ⟨_, by rw [addDelta, hlocation]; exact if_pos hrange,
          fun jobMemory frameTop m _ => ?_⟩
        have hd : deltaValue jobMemory frameTop m delta = (c.setWidth 16).signExtend 32 := by
          have hfield := signExtend_setWidth_of_signedInRange (by decide) (by decide) hrange
          rw [BitVec.setWidth_setWidth_of_le c (by decide)] at hfield
          rw [deltaValue, storageValue, hlocation, h.type, hfield]
          exact setWidth_setWidth_word _
        rw [hd]
        exact hadds _ m
      · obtain ⟨add, hadd, hall⟩ :=
          adds_lifted ctx h (fun r => by simp [hlocation])
        refine ⟨add, ?_, hall⟩
        rw [addDelta, hlocation, ← hadd]
        exact if_neg hrange
  | linkData p =>
      obtain ⟨add, hadd, hall⟩ :=
        adds_lifted ctx h (fun r => by simp [hlocation])
      exact ⟨add, by rw [addDelta, hlocation, ← hadd], hall⟩
  | stackMemory p =>
      obtain ⟨add, hadd, hall⟩ :=
        adds_lifted ctx h (fun r => by simp [hlocation])
      exact ⟨add, by rw [addDelta, hlocation, ← hadd], hall⟩
  | invalid =>
      have hstorage := h.storage.2
      rw [hlocation] at hstorage
      exact hstorage.elim

/-- Execution left a number of pages and a result behind, and changed nothing else. -/
structure Grew (interruptionRequest : Bool) (regs : GrowRegs) (result : BitVec 32 × BitVec 32)
    (m m' : Machine) : Prop where
  pages : pages interruptionRequest m' = result.1
  result : m'.regs regs.gpOutput = result.2
  changes : m.Changes regs.Written (InBlock (pagesAddress interruptionRequest m) 4) m'

/-- A data register is not the base of the linear memory. -/
theorem linMem_ne {r : REG} (h : r.isDATA = true) : linMem ≠ r := by
  rintro rfl
  cases h

/-- The base of the linear memory is not written. -/
theorem GrowRegs.Valid.not_written_linMem (h : regs.Valid delta) : ¬ regs.Written linMem := by
  rintro (heq | heq | heq | hscratch)
  · exact linMem_ne h.data.1 heq
  · exact linMem_ne h.data.2.1 heq
  · exact linMem_ne h.data.2.2 heq
  · obtain ⟨i, hi⟩ := hscratch
    revert hi
    exact match i with
      | 0 => by decide
      | 1 => by decide
      | 2 => by decide

/-- The number of pages is at the same address, and the same, while no memory is written. -/
theorem pages_congr {m m' : Machine} (interruptionRequest : Bool)
    (hlinMem : m'.regs linMem = m.regs linMem) (hmem : m'.mem = m.mem) :
    pagesAddress interruptionRequest m' = pagesAddress interruptionRequest m ∧
      pages interruptionRequest m' = pages interruptionRequest m := by
  simp only [pages, pagesAddress, Machine.load, hlinMem, hmem, and_self]

/-- The error returns `-1`. -/
theorem run_errorCode (interruptionRequest : Bool) (regs : GrowRegs) (m : Machine) :
    ∃ m', ForwardCode.run FlowInstr.exec 0 (errorCode interruptionRequest regs ++
        plainCode (noErrorCode interruptionRequest regs)) m = .ok m' ∧
      m.Sets regs.gpOutput 0xFFFFFFFF m' := by
  refine ⟨_, ?_, execAll_MOVimm32 regs.gpOutput 0xFFFFFFFF m⟩
  rw [errorCode, List.append_assoc, run_plainCode_append, List.singleton_append,
    ForwardCode.run_cons_of_skip rfl]
  exact ForwardCode.run_skip_of_length_le (by simp [plainCode]) _

/-- The number of pages is loaded. -/
theorem execAll_loadPages (interruptionRequest : Bool) (reg : REG) (m : Machine) :
    m.Sets reg (pages interruptionRequest m) (execAll (loadPages interruptionRequest reg) m) :=
  execAll_loadWordDRegDerefARegDisp16sx (by decide) (pagesDisp interruptionRequest) m

/-- Without an error the sum is stored and the old number of pages is returned. -/
theorem run_noErrorCode (interruptionRequest : Bool) (h : regs.Valid delta) (m : Machine) :
    ∃ m', ForwardCode.run FlowInstr.exec 0 (plainCode (noErrorCode interruptionRequest regs)) m =
        .ok m' ∧
      Grew interruptionRequest regs (m.regs regs.gpOutput, pages interruptionRequest m) m m' := by
  have hload := execAll_loadPages interruptionRequest regs.interm m
  have hstore := execAll_storeWordDerefARegDisp16sxDReg regs.gpOutput linMem
    (pagesDisp interruptionRequest) (execAll (loadPages interruptionRequest regs.interm) m)
  have hlinMem : (execAll (loadPages interruptionRequest regs.interm) m).regs linMem =
      m.regs linMem := hload.changes.regs _ (linMem_ne h.data.2.1)
  have hgp : (execAll (loadPages interruptionRequest regs.interm) m).regs regs.gpOutput =
      m.regs regs.gpOutput := hload.changes.regs _ h.interm_ne.symm
  rw [hlinMem, hgp] at hstore
  refine ⟨_, by rw [ForwardCode.run_of_straight (straight_plainCode _), execAll_plainCode], ?_⟩
  rw [noErrorCode, execAll_append, execAll_append, execAll_cons, execAll_nil, Instr.exec]
  have hinterm := congrFun hstore.regs regs.interm
  have hpages := congrFun hload.regs regs.interm
  rw [Function.update_self] at hpages
  refine ⟨?_, ?_, fun r hr => ?_, fun a ha => ?_⟩
  · rw [pages, pagesAddress, Machine.load, setReg_mem, setReg_regs,
      Function.update_of_ne (linMem_ne h.data.1), hstore.regs, hlinMem, hstore.mem,
      ByteMemory.readWord_storeWord]
  · rw [setReg_regs, Function.update_self]
    exact hinterm.trans hpages
  · simp only [GrowRegs.Written, not_or] at hr
    rw [setReg_regs, Function.update_of_ne hr.1, hstore.regs]
    exact hload.changes.regs r hr.2.1
  · rw [setReg_mem, hstore.mem]
    exact (storeWord_of_not_inBlock ha).trans (hload.changes.mem a id)

/-- The sum is compared with the maximum. -/
theorem run_compareCode (interruptionRequest : Bool) (limits : MemoryLimits)
    (h : regs.Valid delta) (m : Machine) :
    ∃ m', ForwardCode.run FlowInstr.exec 0 (compareCode interruptionRequest limits regs ++
        (errorCode interruptionRequest regs ++
          plainCode (noErrorCode interruptionRequest regs))) m = .ok m' ∧
      Grew interruptionRequest regs
        (if m.regs regs.gpOutput ≤ maxMemorySize limits then
          (m.regs regs.gpOutput, pages interruptionRequest m)
        else (pages interruptionRequest m, 0xFFFFFFFF)) m m' := by
  have hmax := execAll_MOVimm32 regs.interm (maxMemorySize limits) m
  let m1 := execAll (MOVimm32 regs.interm (maxMemorySize limits)) m
  have hlinMem : m1.regs linMem = m.regs linMem := hmax.changes.regs _ (linMem_ne h.data.2.1)
  have hgp : m1.regs regs.gpOutput = m.regs regs.gpOutput :=
    hmax.changes.regs _ h.interm_ne.symm
  have hinterm : m1.regs regs.interm = maxMemorySize limits := by
    rw [hmax.regs, Function.update_self]
  obtain ⟨haddress, hpages⟩ := pages_congr interruptionRequest hlinMem hmax.mem
  have hfirst : m.Changes regs.Written (InBlock (pagesAddress interruptionRequest m) 4) m1 :=
    hmax.changes.mono (fun r hr => .inr (.inl hr)) fun _ hx => hx.elim
  rw [compareCode, List.append_assoc, run_plainCode_append, List.singleton_append]
  by_cases hle : m.regs regs.gpOutput ≤ maxMemorySize limits
  · have hskip : (FlowInstr.exec (.JGEU_Da_Db_disp15sx2 regs.interm regs.gpOutput
        (errorCode interruptionRequest regs).length) m1).1 =
        .skip (errorCode interruptionRequest regs).length :=
      if_pos (by rw [hgp, hinterm]; exact hle)
    rw [if_pos hle, ForwardCode.run_cons_of_skip hskip, ForwardCode.run_skip_append]
    obtain ⟨m', hrun, hgrew⟩ := run_noErrorCode interruptionRequest h m1
    refine ⟨m', hrun, ?_, ?_, hfirst.trans (haddress ▸ hgrew.changes)⟩
    · rw [hgrew.pages, hgp]
    · rw [hgrew.result, hpages]
  · rw [if_neg hle, ForwardCode.run_cons_of_next
      (if_neg (by rw [hgp, hinterm]; exact hle))]
    obtain ⟨m', hrun, hsets⟩ := run_errorCode interruptionRequest regs m1
    have hlinMem' : m'.regs linMem = m1.regs linMem :=
      hsets.changes.regs _ (linMem_ne h.data.1)
    refine ⟨m', hrun, ?_, ?_, hfirst.trans
      (hsets.changes.mono (fun r hr => .inl hr) fun _ hx => hx.elim)⟩
    · rw [(pages_congr interruptionRequest hlinMem' hsets.mem).2, hpages]
    · rw [hsets.regs, Function.update_self]

/-- **What the code does**: in every state it ends, with the number of pages and the result that
are computed, and it changes nothing else. -/
theorem run_executeMemGrow (interruptionRequest : Bool) (limits : MemoryLimits)
    (h : regs.Valid delta) {jobMemory frameTop : BitVec 32} {m : Machine}
    (hm : m.Frame ctx jobMemory frameTop) :
    ∃ code m', executeMemGrow interruptionRequest limits ctx delta regs = some code ∧
      ForwardCode.run FlowInstr.exec 0 code m = .ok m' ∧
      Grew interruptionRequest regs
        (grown (maxMemorySize limits) (pages interruptionRequest m)
          (deltaValue jobMemory frameTop m delta)) m m' := by
  obtain ⟨add, hadd, hadds⟩ := adds_addDelta ctx h
  have hload := execAll_loadPages interruptionRequest regs.gpOutput m
  let m1 := execAll (loadPages interruptionRequest regs.gpOutput) m
  have hdelta := deltaValue_congr h.type hload.changes
    (fun r hr heq => h.delta_ne (heq ▸ hr)) jobMemory frameTop
  have hm1 : m1.Frame ctx jobMemory frameTop :=
    hm.of_changes hload.changes (linMem_ne h.data.1) (fun heq => by
      have hdata := h.data.1
      rw [← heq] at hdata
      cases hdata)
  have hsum := hadds jobMemory frameTop m1 hm1
  rw [hdelta] at hsum
  let m2 := execAll add m1
  let m3 := m2.setReg regs.interm m2.psw.toBitVec
  have hold : m1.regs regs.gpOutput = pages interruptionRequest m := by
    rw [hload.regs, Function.update_self]
  have hgp : m3.regs regs.gpOutput =
      pages interruptionRequest m + deltaValue jobMemory frameTop m delta := by
    rw [setReg_regs, Function.update_of_ne h.interm_ne.symm, hsum.sum, hold]
  have hflag : (m3.regs regs.interm).getLsbD 30 =
      BitVec.saddOverflow (pages interruptionRequest m)
        (deltaValue jobMemory frameTop m delta) := by
    rw [setReg_regs, Function.update_self, PSW.getLsbD_toBitVec, hsum.overflow, hold]
  have hchanges : m.Changes regs.Written NoBytes m3 :=
    ((hload.changes.mono (fun r hr => .inl hr) fun _ => id).trans hsum.changes).trans
      ((m2.setReg_changes regs.interm _).mono (fun r hr => .inr (.inl hr)) fun _ => id)
  obtain ⟨haddress, hpages⟩ := pages_congr interruptionRequest
    (hchanges.regs _ h.not_written_linMem) (funext fun a => hchanges.mem a id)
  have hfirst : m.Changes regs.Written (InBlock (pagesAddress interruptionRequest m) 4) m3 :=
    hchanges.mono (fun _ => id) fun _ hx => hx.elim
  have hstart : execAll (loadPages interruptionRequest regs.gpOutput ++
      (add ++ [.MFCR_Dc_const16 regs.interm pswCROffset])) m = m3 := by
    rw [execAll_append, execAll_append]
    rfl
  rw [executeMemGrow, hadd, Option.map_some]
  by_cases hoverflow : BitVec.saddOverflow (pages interruptionRequest m)
      (deltaValue jobMemory frameTop m delta) = false
  · obtain ⟨m', hrun, hgrew⟩ := run_compareCode interruptionRequest limits h m3
    refine ⟨_, m', rfl, ?_, ?_, ?_, hfirst.trans (haddress ▸ hgrew.changes)⟩
    · have hnext : (FlowInstr.exec (.JNZT_Da_n_disp15sx2 regs.interm 30
          (compareCode interruptionRequest limits regs).length) m3).1 = .next :=
        if_neg (by rw [hflag, hoverflow]; decide)
      rw [run_plainCode_append, hstart, ForwardCode.run_cons_of_next hnext]
      exact hrun
    · rw [hgrew.pages, hgp, hpages, grown]
      simp only [hoverflow, true_and]
    · rw [hgrew.result, hgp, hpages, grown]
      simp only [hoverflow, true_and]
  · obtain ⟨m', hrun, hsets⟩ := run_errorCode interruptionRequest regs m3
    have hlinMem' : m'.regs linMem = m3.regs linMem :=
      hsets.changes.regs _ (linMem_ne h.data.1)
    have hgrown : grown (maxMemorySize limits) (pages interruptionRequest m)
        (deltaValue jobMemory frameTop m delta) = (pages interruptionRequest m, 0xFFFFFFFF) :=
      if_neg fun hgrow => hoverflow hgrow.1
    rw [hgrown]
    refine ⟨_, m', rfl, ?_, ?_, ?_, hfirst.trans
      (hsets.changes.mono (fun r hr => .inl hr) fun _ hx => hx.elim)⟩
    · have hskip : (FlowInstr.exec (.JNZT_Da_n_disp15sx2 regs.interm 30
          (compareCode interruptionRequest limits regs).length) m3).1 =
          .skip (compareCode interruptionRequest limits regs).length :=
        if_pos (hflag.trans (by simpa using hoverflow))
      rw [run_plainCode_append, hstart, ForwardCode.run_cons_of_skip hskip,
        ForwardCode.run_skip_append]
      exact hrun
    · rw [(pages_congr interruptionRequest hlinMem' hsets.mem).2, hpages]
    · rw [hsets.regs, Function.update_self]

/-- The code does what `memory.grow` should, from a state of the machine. -/
def MemGrowExact (interruptionRequest : Bool) (limits : MemoryLimits) (ctx : AddressingContext)
    (delta : VariableStorage REG) (regs : GrowRegs) (jobMemory frameTop : BitVec 32)
    (m : Machine) : Prop :=
  ∃ code m', executeMemGrow interruptionRequest limits ctx delta regs = some code ∧
    ForwardCode.run FlowInstr.exec 0 code m = .ok m' ∧
    GrownExact (maxMemorySize limits) (pages interruptionRequest m)
      (deltaValue jobMemory frameTop m delta) (pages interruptionRequest m')
      (m'.regs regs.gpOutput) ∧
    m.Changes regs.Written (InBlock (pagesAddress interruptionRequest m) 4) m'

/-- The code does what `memory.grow` should if what it computes is right. -/
theorem memGrowExact_iff_grownExact (interruptionRequest : Bool) (limits : MemoryLimits)
    (h : regs.Valid delta) {jobMemory frameTop : BitVec 32} {m : Machine}
    (hm : m.Frame ctx jobMemory frameTop) :
    MemGrowExact interruptionRequest limits ctx delta regs jobMemory frameTop m ↔
      let old := pages interruptionRequest m
      let d := deltaValue jobMemory frameTop m delta
      let result := grown (maxMemorySize limits) old d
      GrownExact (maxMemorySize limits) old d result.1 result.2 := by
  obtain ⟨code, m', hcode, hrun, hgrew⟩ := run_executeMemGrow interruptionRequest limits h hm
  dsimp only
  rw [← hgrew.pages, ← hgrew.result]
  constructor
  · rintro ⟨code', m'', hcode', hrun', hexact, -⟩
    obtain rfl := Option.some.inj (hcode'.symm.trans hcode)
    obtain rfl := Except.ok.inj (hrun'.symm.trans hrun)
    exact hexact
  · intro hexact
    exact ⟨code, m', hcode, hrun, hexact, hgrew.changes⟩

/-- **`memory.grow`**: for every number of pages, every maximum and every delta, the code does
what it should, exactly unless the sum wraps around to a number of pages within the maximum
without a signed overflow. -/
theorem memGrowExact_iff (interruptionRequest : Bool) {limits : MemoryLimits}
    (hlimits : limits.Valid) {delta : VariableStorage REG} {regs : GrowRegs}
    (h : regs.Valid delta) {ctx : AddressingContext} {jobMemory frameTop : BitVec 32}
    {m : Machine} (hm : m.Frame ctx jobMemory frameTop) :
    MemGrowExact interruptionRequest limits ctx delta regs jobMemory frameTop m ↔
      ¬ WrapsWithin (maxMemorySize limits) (pages interruptionRequest m)
        (deltaValue jobMemory frameTop m delta) := by
  rw [memGrowExact_iff_grownExact interruptionRequest limits h hm]
  exact grownExact_iff (maxMemorySize_le hlimits) _ _

/-- A machine with a number of pages. -/
def machineWithPages (interruptionRequest : Bool) (n : BitVec 32) : Machine where
  regs := fun _ => 0
  mem := storeWord (fun _ => 0) (0 + (pagesDisp interruptionRequest).signExtend 32) n
  psw := ⟨false, false, false, false, false, 0⟩
  otherCoreRegs := fun _ => 0

/-- The number of pages of that machine. -/
theorem pages_machineWithPages (interruptionRequest : Bool) (n : BitVec 32) :
    pages interruptionRequest (machineWithPages interruptionRequest n) = n :=
  ByteMemory.readWord_storeWord _ _ _

/-- Registers for a constant delta. -/
theorem valid_constant (c : Word) :
    (⟨.D 8, .D 9, .D 10⟩ : GrowRegs).Valid ⟨.i32, .constant c⟩ where
  type := rfl
  storage := ⟨nofun, trivial⟩
  data := ⟨rfl, rfl, rfl⟩
  interm_ne := by decide
  lifted_ne := by decide
  delta_ne := nofun

/-- The value of a constant delta. -/
theorem deltaValue_constant (jobMemory frameTop : BitVec 32) (m : Machine) (c : BitVec 32) :
    deltaValue jobMemory frameTop m ⟨.i32, .constant (c.setWidth 64)⟩ = c := by
  refine Eq.trans (congrArg (BitVec.setWidth 32) ?_) (setWidth_setWidth_word c)
  exact congrArg (BitVec.setWidth 64) (setWidth_setWidth_word c)

/-- Growing one page by two, with a maximum of two pages. -/
theorem memGrowExact_of_two_pages : ∃ jobMemory frameTop : BitVec 32,
    MemGrowExact true ⟨true, 2⟩ ⟨256, 0⟩ ⟨.i32, .constant ((2 : BitVec 32).setWidth 64)⟩
      ⟨.D 8, .D 9, .D 10⟩ jobMemory frameTop (machineWithPages true 1) := by
  obtain ⟨jobMemory, frameTop, hm⟩ := (machineWithPages true 1).exists_frame ⟨256, 0⟩
  refine ⟨jobMemory, frameTop,
    (memGrowExact_iff true (fun _ => by decide) (valid_constant _) hm).mpr ?_⟩
  rw [pages_machineWithPages, deltaValue_constant]
  rintro ⟨hwrap, -⟩
  revert hwrap
  decide

/-- Growing one page by `0xFFFFFFFF` succeeds and leaves no page. -/
theorem not_memGrowExact_of_one_page : ∃ (jobMemory frameTop : BitVec 32) (m : Machine),
    m.Frame ⟨256, 0⟩ jobMemory frameTop ∧ pages true m = 1 ∧
      ¬ MemGrowExact true ⟨false, 0⟩ ⟨256, 0⟩
        ⟨.i32, .constant ((0xFFFFFFFF : BitVec 32).setWidth 64)⟩ ⟨.D 8, .D 9, .D 10⟩
        jobMemory frameTop m := by
  obtain ⟨jobMemory, frameTop, hm⟩ := (machineWithPages true 1).exists_frame ⟨256, 0⟩
  refine ⟨jobMemory, frameTop, _, hm, pages_machineWithPages true 1, ?_⟩
  rw [memGrowExact_iff_grownExact true ⟨false, 0⟩ (valid_constant _) hm, pages_machineWithPages,
    deltaValue_constant]
  intro hexact
  rw [GrownExact, if_neg (by decide)] at hexact
  exact absurd hexact.1 (by decide)

/-! ### Runs -/

/-- A run in which the memory is grown any number of times, and in which no other code writes the
number of pages. With `exact` no sum wraps around. -/
inductive GrowRun (interruptionRequest : Bool) (limits : MemoryLimits) (exact : Prop)
    (m : Machine) : Machine → Prop where
  | start : GrowRun interruptionRequest limits exact m m
  | other {m' m'' : Machine} (h : GrowRun interruptionRequest limits exact m m')
      (hpages : pages interruptionRequest m'' = pages interruptionRequest m') :
      GrowRun interruptionRequest limits exact m m''
  | grow {ctx : AddressingContext} {delta : VariableStorage REG} {regs : GrowRegs}
      {jobMemory frameTop : BitVec 32} {m' m'' : Machine} {code : List FlowInstr}
      (h : GrowRun interruptionRequest limits exact m m') (hregs : regs.Valid delta)
      (hframe : m'.Frame ctx jobMemory frameTop)
      (hexact : exact → ¬ WrapsWithin (maxMemorySize limits) (pages interruptionRequest m')
        (deltaValue jobMemory frameTop m' delta))
      (hcode : executeMemGrow interruptionRequest limits ctx delta regs = some code)
      (hrun : ForwardCode.run FlowInstr.exec 0 code m' = .ok m'') :
      GrowRun interruptionRequest limits exact m m''

/-- **In every run** the number of pages stays within the maximum, and it never decreases if no
sum wraps around. -/
theorem GrowRun.pages_le {interruptionRequest : Bool} {limits : MemoryLimits} {exact : Prop}
    {m m' : Machine} (hlimits : limits.Valid)
    (hmax : pages interruptionRequest m ≤ maxMemorySize limits)
    (h : GrowRun interruptionRequest limits exact m m') :
    pages interruptionRequest m' ≤ maxMemorySize limits ∧
      (exact → pages interruptionRequest m ≤ pages interruptionRequest m') := by
  induction h with
  | start => exact ⟨hmax, fun _ => BitVec.le_refl _⟩
  | other h hpages ih =>
      rw [hpages]
      exact ih
  | @grow ctx delta regs jobMemory frameTop m' m'' code h hregs hframe hexact hcode hrun ih =>
      obtain ⟨code', m''', hcode', hrun', hgrew⟩ :=
        run_executeMemGrow interruptionRequest limits hregs hframe
      obtain rfl := Option.some.inj (hcode'.symm.trans hcode)
      obtain rfl := Except.ok.inj (hrun'.symm.trans hrun)
      rw [hgrew.pages]
      exact ⟨grown_le ih.1 _, fun hno => BitVec.le_trans (ih.2 hno)
        (le_grown (maxMemorySize_le hlimits) (hexact hno))⟩

/-- One page stays within a maximum of two when the memory is grown by two. -/
theorem growRun_pages_le_two : ∃ m',
    GrowRun true ⟨true, 2⟩ True (machineWithPages true 1) m' ∧
      pages true m' ≤ maxMemorySize ⟨true, 2⟩ ∧
      (True → pages true (machineWithPages true 1) ≤ pages true m') := by
  obtain ⟨jobMemory, frameTop, hm⟩ := (machineWithPages true 1).exists_frame ⟨256, 0⟩
  obtain ⟨code, m', hcode, hrun, -⟩ :=
    run_executeMemGrow true ⟨true, 2⟩ (valid_constant ((2 : BitVec 32).setWidth 64)) hm
  have h : GrowRun true ⟨true, 2⟩ True (machineWithPages true 1) m' := by
    refine .grow .start (valid_constant _) hm (fun _ => ?_) hcode hrun
    rw [pages_machineWithPages, deltaValue_constant]
    rintro ⟨hwrap, -⟩
    revert hwrap
    decide
  exact ⟨m', h, h.pages_le (fun _ => by decide) (by rw [pages_machineWithPages]; decide)⟩

end TriCore

end WasmCompiler
