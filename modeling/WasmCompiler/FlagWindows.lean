import WasmCompiler.FlagInstructions
import WasmCompiler.ScratchAllocation
import WasmCompiler.BranchOperands

/-!
# Flags Between a Comparison and its Consumer

Between a comparison and the instruction that reads its flags the code generator may have to
spill a register, the frame may grow for the spill, and with active stack overflow checks a
frame that grows beyond the size checked last compares the stack pointer with the stack fence
(`Backend::reqSpillTarget`). A branch loads its result values in between
(`Common::loadReturnValues`) and initialises and recovers locals
(`Common::emitBranchDivergePoint`).

The functions here are those of `RegisterRequests` together with the checks, which do not
change the compiler state.

## Main results

* `FrameState.spillFromStack_effect`, `FrameState.reqScratchRegProt_effect`,
  `FrameState.loadReturnValues_effect`: which flags the emitted code keeps, and when it does
  not keep the others.
-/

namespace WasmCompiler

variable {TReg : Type}

/-! ### Backends -/

/-- The first two of `callScrRegs`. -/
structure CallScrRegs (TReg : Type) where
  reg0 : TReg
  reg1 : TReg
  reg0_ne_reg1 : reg0 ≠ reg1

/-- A backend, with the registers its check of the stack fence uses if no register is free. -/
inductive Backend (TReg : Type) where
  | x86_64 (A : TReg)
  | aarch64 (callScrRegs : CallScrRegs TReg)

namespace Backend

/-- The flags a conditional instruction reads for a condition; floating point conditions of
x86-64 also look at the parity flag, which is set for NaN operands. -/
def flagsRead (backend : Backend TReg) (bc : BranchCondition) : List Flag :=
  match backend with
  | x86_64 _ =>
      (bc.x86CC.elim [] X86CC.flagsRead) ++ if bc.isFloat then [.parity] else []
  | aarch64 _ => bc.aarch64CC.elim [] Aarch64CC.flagsRead

/-- The flags a comparison of floating point numbers sets: less, equal, greater or
unordered. -/
def floatFlags (backend : Backend TReg) : List CPUFlags :=
  match backend with
  | x86_64 _ =>
      [⟨⟨false, false, true, false⟩, false⟩, ⟨⟨false, true, false, false⟩, false⟩,
        ⟨⟨false, false, false, false⟩, false⟩, ⟨⟨false, true, true, false⟩, true⟩]
  | aarch64 _ =>
      [⟨⟨true, false, false, false⟩, false⟩, ⟨⟨false, true, true, false⟩, false⟩,
        ⟨⟨false, false, true, false⟩, false⟩, ⟨⟨false, false, true, true⟩, false⟩]

/-- The flags a comparison of integers sets. -/
def compareFlags (backend : Backend TReg) {w : ℕ} (a b : BitVec w) : CPUFlags :=
  match backend with
  | x86_64 _ => x86CompareFlags a b
  | aarch64 _ => { subsFlags a b with parity := false }

/-- Whether flags can be the outcome of the comparison for a condition. -/
def Compared (backend : Backend TReg) (bc : BranchCondition) (flags : CPUFlags) : Prop :=
  if bc.isFloat then flags ∈ backend.floatFlags
  else match bc with
  | .NEQZ | .EQZ =>
      (∃ a : BitVec 32, flags = backend.compareFlags a 0) ∨
        ∃ a : BitVec 64, flags = backend.compareFlags a 0
  | _ =>
      (∃ a b : BitVec 32, flags = backend.compareFlags a b) ∨
        ∃ a b : BitVec 64, flags = backend.compareFlags a b

end Backend

/-! ### Moves and checks -/

namespace VariableStorage

/-- Stack memory or link data. -/
def isMemory (s : VariableStorage TReg) : Bool :=
  match s.location with
  | .stackMemory _ | .linkData _ => true
  | _ => false

/-- A constant whose value is zero. -/
def isZeroConstant (s : VariableStorage TReg) : Bool :=
  match s.location with
  | .constant constUnion =>
      if s.machineType.is64 then constUnion == 0 else constUnion.setWidth 32 == (0 : BitVec 32)
  | _ => false

/-- `mask` of a storage: its register, if it is in one. -/
def regMask (s : VariableStorage TReg) : RegMask TReg :=
  match s.location with
  | .register reg => .mask reg
  | _ => .regs []

end VariableStorage

/-- The registers that are free when the stack fence is checked. -/
structure FreeRegs (TReg : Type) where
  scratchReg : Option TReg
  flagStorageReg : Option TReg
  deriving DecidableEq, Repr

/-- `Assembler::checkStackFence` on x86-64. -/
def x86CheckStackFence : List (FlagInstr TReg) := [.compareSPStackFence, .trapUnlessAE]

/-- `Assembler::checkStackFence` on AArch64. -/
def aarch64CheckStackFence (scratchReg : TReg) : List (FlagInstr TReg) :=
  [.loadStackFence scratchReg, .compareSP scratchReg, .trapUnlessHS]

/-- The check in `Backend::checkStackFence` on AArch64. -/
def aarch64StackCheck (callScrRegs : CallScrRegs TReg) (free : FreeRegs TReg)
    (presFlags : Bool) : List (FlagInstr TReg) :=
  let scratchReg := free.scratchReg.getD callScrRegs.reg0
  let flagStorageReg := free.flagStorageReg.getD callScrRegs.reg1
  (if free.scratchReg.isNone then [.storeSpill 0 callScrRegs.reg0] else []) ++
    (if !presFlags then aarch64CheckStackFence scratchReg
      else
        (if free.flagStorageReg.isNone then [.storeSpill 1 callScrRegs.reg1] else []) ++
          ([.mrs flagStorageReg] ++ aarch64CheckStackFence scratchReg ++
            [.msr flagStorageReg]) ++
          if free.flagStorageReg.isNone then [.loadSpill 1 callScrRegs.reg1] else []) ++
    if free.scratchReg.isNone then [.loadSpill 0 callScrRegs.reg0] else []

variable [DecidableEq TReg]

/-- The check in `Backend::reqSpillTarget` on x86-64. -/
def x86StackCheck (A : TReg) (free : Option TReg) (presFlags : Bool) :
    List (FlagInstr TReg) :=
  let flagStorageReg := free.getD A
  if !presFlags then x86CheckStackFence
  else
    (if free.isNone then [.storeSpill 0 A] else []) ++
      (if flagStorageReg ≠ A then [.moveReg flagStorageReg A] else []) ++
      ([.lahf A] ++ x86CheckStackFence ++ [.sahf A]) ++
      (if flagStorageReg ≠ A then [.moveReg A flagStorageReg] else []) ++
      if free.isNone then [.loadSpill 0 A] else []

/-- The free registers a check finds. -/
def freeRegs (ctx : FrameContext TReg) (st : CompilerState TReg) (protRegs : RegMask TReg) :
    FreeRegs TReg :=
  let scratchReg := reqFreeScratchRegProt ctx st .i32 protRegs
  { scratchReg := scratchReg
    flagStorageReg := reqFreeScratchRegProt ctx st .i64
      (protRegs.union (scratchReg.elim (.regs []) .mask)) }

namespace Backend

/-- `emitMoveImpl`: a zero is written to memory with `AND` on x86-64 if the flags need not be
preserved. -/
def emitMoveImpl (backend : Backend TReg) (dst src : VariableStorage TReg) (presFlags : Bool) :
    List (FlagInstr TReg) :=
  if dst = src then []
  else match backend with
  | x86_64 _ =>
      if dst.isMemory && !presFlags && src.isZeroConstant then [.andZero dst]
      else [.move dst src]
  | aarch64 _ => [.move dst src]

/-- The check of the stack fence with the registers that are free. -/
def stackCheck (backend : Backend TReg) (ctx : FrameContext TReg) (st : CompilerState TReg)
    (protRegs : RegMask TReg) (presFlags : Bool) : List (FlagInstr TReg) :=
  match backend with
  | x86_64 A => x86StackCheck A (reqFreeScratchRegProt ctx st .i64 protRegs) presFlags
  | aarch64 callScrRegs =>
      aarch64StackCheck callScrRegs (freeRegs ctx st protRegs) presFlags

end Backend

/-! ### Spilling with checks -/

/-- The storage types of a local. -/
inductive StorageType where
  | constant | register | stackMemory | stackReg
  deriving DecidableEq, Repr

/-- A local of the function. -/
structure LocalDef (TReg : Type) where
  type : MachineType
  reg : Option TReg
  stackFramePosition : UInt32
  currentStorageType : StorageType
  deriving DecidableEq, Repr

/-- The compiler state with the size of the frame that was checked last, and the locals. -/
structure FrameState (TReg : Type) where
  st : CompilerState TReg
  checkedStackFrameSize : UInt32
  localDefs : List (LocalDef TReg)
  deriving DecidableEq, Repr

namespace FrameState

/-- `Assembler::setStackFrameSize`. -/
def setStackFrameSize (fs : FrameState TReg) (frameSize : UInt32) :
    Option (FrameState TReg × List (FlagInstr TReg)) :=
  if fs.st.stackFrameSize = frameSize then some (fs, [])
  else if maxStackFrameSize < frameSize then none
  else some ({ fs with st := { fs.st with stackFrameSize := frameSize } },
    [.addToSP (BitVec.ofInt 64 (fs.st.stackFrameSize.toNat - frameSize.toNat))])

/-- Make the frame large enough for a slot, and check the stack fence if no frame as large
was checked before. -/
def growFrameFor (backend : Backend TReg) (ctx : FrameContext TReg) (fs : FrameState TReg)
    (newOffset : UInt32) (protRegs : RegMask TReg) (presFlags : Bool) :
    Option (FrameState TReg × List (FlagInstr TReg)) :=
  if fs.st.stackFrameSize < newOffset then
    let newAlignedStackFrameSize := ctx.alignStackFrameSize (newOffset + 32)
    (fs.setStackFrameSize newAlignedStackFrameSize).map fun grown =>
      if grown.1.checkedStackFrameSize < newAlignedStackFrameSize then
        ({ grown.1 with checkedStackFrameSize := newAlignedStackFrameSize },
          grown.2 ++ backend.stackCheck ctx grown.1.st protRegs presFlags)
      else grown
  else some (fs, [])

/-- `Backend::reqSpillTarget`. -/
def reqSpillTarget (backend : Backend TReg) (ctx : FrameContext TReg) (fs : FrameState TReg)
    (type : MachineType) (protRegs : RegMask TReg) (forceToStack presFlags : Bool) :
    Option (LocatedElement TReg × FrameState TReg × List (FlagInstr TReg)) :=
  match if forceToStack then none else reqFreeScratchRegProt ctx fs.st type protRegs with
  | some reg => some (.scratchReg reg type, fs, [])
  | none =>
      let newOffset := findFreeTempStackSlot ctx fs.st
      (fs.growFrameFor backend ctx newOffset protRegs presFlags).map fun grown =>
        (.tempResult (.stackMemory type newOffset), grown.1, grown.2)

/-- `Common::spillFromStackImpl`. -/
def spillFromStack (backend : Backend TReg) (ctx : FrameContext TReg) (fs : FrameState TReg)
    (source : Reference TReg) (protRegs : RegMask TReg) (forceToStack presFlags : Bool)
    (zone : ExcludedZone) : Option (FrameState TReg × List (FlagInstr TReg)) :=
  match firstToSpill ctx fs.st source zone with
  | none => some (fs, [])
  | some currentElement =>
      (fs.reqSpillTarget backend ctx (ctx.getMachineType currentElement) protRegs forceToStack
        presFlags).map fun target =>
          ({ target.2.1 with
             st := { target.2.1.st with
               stack := fs.st.stack.mapIdx fun i e =>
                 if spillMoves ctx source zone i e then target.1 else e } },
            target.2.2 ++ backend.emitMoveImpl (ctx.getStorage target.1)
              (ctx.getStorage currentElement) presFlags)

/-- `Common::reqScratchRegProt`. -/
def reqScratchRegProt (backend : Backend TReg) (ctx : FrameContext TReg) (fs : FrameState TReg)
    (type : MachineType) (protRegs : RegMask TReg) (presFlags : Bool) :
    Option (TReg × FrameState TReg × List (FlagInstr TReg)) :=
  match getRegAllocCandidate ctx fs.st type protRegs with
  | none => none
  | some candidate =>
      if protRegs.contains candidate.reg then none
      else if candidate.currentlyInUse then
        (fs.spillFromStack backend ctx (.scratchReg candidate.reg) .all true presFlags
          .none).map fun spilled => (candidate.reg, spilled.1, spilled.2)
      else some (candidate.reg, fs, [])

/-! ### Branches -/

/-- Make room in the register of a result location; the register may not be used from then
on. -/
def prepareResultRegister (backend : Backend TReg) (ctx : FrameContext TReg)
    (fs : FrameState TReg) (returnValueRegMask : RegMask TReg) (currentIt : ℕ)
    (target : VariableStorage TReg) (presFlags : Bool) :
    Option (FrameState TReg × RegMask TReg × List (FlagInstr TReg)) :=
  match target.location with
  | .register targetReg =>
      (fs.spillFromStack backend ctx (.scratchReg targetReg) returnValueRegMask false presFlags
        (.element currentIt)).map fun spilled =>
          (spilled.1, returnValueRegMask.union (.mask targetReg), spilled.2)
  | _ => some (fs, returnValueRegMask, [])

/-- `Common::loadReturnValues`: the operands from `currentIt` up go to the result
locations. -/
def loadReturnValues (backend : Backend TReg) (ctx : FrameContext TReg) (presFlags : Bool) :
    FrameState TReg → RegMask TReg → ℕ → List (VariableStorage TReg) →
      Option (FrameState TReg × List (FlagInstr TReg))
  | fs, _, _, [] => some (fs, [])
  | fs, returnValueRegMask, currentIt, target :: targets =>
      match fs.prepareResultRegister backend ctx returnValueRegMask currentIt target
        presFlags with
      | none => none
      | some (fs1, mask1, code1) =>
          match fs1.st.stack[currentIt]? with
          | none => none
          | some element =>
              (loadReturnValues backend ctx presFlags fs1 mask1 (currentIt + 1) targets).map
                fun rest =>
                  (rest.1, code1 ++
                    (backend.emitMoveImpl target (ctx.getStorage element) presFlags ++ rest.2))

end FrameState

namespace LocalDef

/-- `initializedLocal`: a local that still has its initial value gets a storage. -/
def initialized (backend : Backend TReg) (localDef : LocalDef TReg) :
    LocalDef TReg × List (FlagInstr TReg) :=
  match localDef.currentStorageType, localDef.reg with
  | .constant, some reg =>
      ({ localDef with currentStorageType := .register },
        backend.emitMoveImpl (.reg localDef.type reg) (.const localDef.type 0) true)
  | .constant, none =>
      ({ localDef with currentStorageType := .stackMemory },
        backend.emitMoveImpl (.stackMemory localDef.type localDef.stackFramePosition)
          (.const localDef.type 0) true)
  | _, _ => (localDef, [])

/-- `recoverAllLocalsToRegForBranch`: a local that has a register is both there and in its
slot afterwards. -/
def recoverToRegForBranch (backend : Backend TReg) (isReachable : Bool)
    (localDef : LocalDef TReg) : LocalDef TReg × List (FlagInstr TReg) :=
  match localDef.reg with
  | none => (localDef, [])
  | some reg =>
      ({ localDef with currentStorageType := .stackReg },
        if isReachable then
          match localDef.currentStorageType with
          | .stackMemory =>
              backend.emitMoveImpl (.reg localDef.type reg)
                (.stackMemory localDef.type localDef.stackFramePosition) false
          | .register =>
              backend.emitMoveImpl (.stackMemory localDef.type localDef.stackFramePosition)
                (.reg localDef.type reg) false
          | _ => []
        else [])

end LocalDef

/-- `Common::emitBranchDivergePoint`, without the merge of the checked sizes. -/
def FrameState.emitBranchDivergePoint (backend : Backend TReg) (isReachable : Bool)
    (fs : FrameState TReg) : FrameState TReg × List (FlagInstr TReg) :=
  let initialized := fs.localDefs.map (LocalDef.initialized backend)
  let recovered := initialized.map fun l => l.1.recoverToRegForBranch backend isReachable
  ({ fs with localDefs := recovered.map Prod.fst },
    initialized.flatMap Prod.snd ++ recovered.flatMap Prod.snd)

/-! ### What code does to the flags -/

namespace FlagMachine

/-- Code never writes the stack fence. -/
@[simp] theorem execAll_stackFence (m : FlagMachine TReg) (code : List (FlagInstr TReg)) :
    (m.execAll code).stackFence = m.stackFence := by
  induction code generalizing m with
  | nil => rfl
  | cons i code ih => rw [execAll_cons, ih, exec_stackFence]

end FlagMachine

namespace Backend

/-- The flags a check can lose: the overflow flag on x86-64, which `LAHF` does not save; all
flags on AArch64, if they are saved in the register the fence is loaded to. -/
def lostFlags : Backend TReg → List Flag
  | x86_64 _ => [.overflow]
  | aarch64 _ => [.negative, .zero, .carry, .overflow]

/-- Whether a check loses flags, with the registers it finds free. -/
def Loses : Backend TReg → FreeRegs TReg → Prop
  | x86_64 _, _ => True
  | aarch64 callScrRegs, free =>
      free.scratchReg = some callScrRegs.reg1 ∧ free.flagStorageReg = none

end Backend

/-- What code does to the flags: if it does not trap, it keeps them, all of them or all that
a check cannot lose; and with a stack fence that no stack pointer is below it does not trap,
and leaves the flags cleared that are lost. -/
structure FlagEffect (backend : Backend TReg) (code : List (FlagInstr TReg)) (lost : Prop) :
    Prop where
  keeps : ∀ m : FlagMachine TReg, (m.execAll code).trapped = false → ∀ flag,
    ¬ (lost ∧ flag ∈ backend.lostFlags) →
      (m.execAll code).flags.get flag = m.flags.get flag
  runs : ∀ m : FlagMachine TReg, m.stackFence = 0 → m.trapped = false →
    (m.execAll code).trapped = false
  clears : ∀ m : FlagMachine TReg, m.stackFence = 0 → m.trapped = false →
    ∀ flag ∈ backend.lostFlags, lost ∨ m.flags.get flag = false →
      (m.execAll code).flags.get flag = false

namespace FlagEffect

variable {backend : Backend TReg} {code code' : List (FlagInstr TReg)} {lost lost' : Prop}

/-- Instructions that set no flags and do not trap. -/
theorem quiet (h : ∀ i ∈ code, i.setsFlags = false ∧ i.traps = false) :
    FlagEffect backend code False := by
  have hsame : ∀ m : FlagMachine TReg,
      (m.execAll code).flags = m.flags ∧ (m.execAll code).trapped = m.trapped := by
    induction code with
    | nil => exact fun m => ⟨rfl, rfl⟩
    | cons i code ih =>
        intro m
        obtain ⟨hset, htrap⟩ := h i (by simp)
        obtain ⟨hflags, htrapped⟩ := ih (fun j hj => h j (by simp [hj])) (m.exec i)
        rw [FlagMachine.execAll_cons, hflags, htrapped, FlagInstr.exec_flags hset,
          FlagInstr.exec_trapped htrap]
        exact ⟨rfl, rfl⟩
  refine ⟨fun m _ flag _ => by rw [(hsame m).1], fun m _ hm => by rw [(hsame m).2, hm],
    fun m _ _ flag _ hclear => ?_⟩
  rw [(hsame m).1]
  exact hclear.resolve_left id

/-- No code. -/
theorem nil : FlagEffect backend [] False := quiet (by simp)

/-- Code after code. -/
theorem append (h : FlagEffect backend code lost) (h' : FlagEffect backend code' lost') :
    FlagEffect backend (code ++ code') (lost ∨ lost') where
  keeps m htrapped flag hflag := by
    rw [FlagMachine.execAll_append] at htrapped ⊢
    rw [h'.keeps _ htrapped flag (fun hl => hflag ⟨Or.inr hl.1, hl.2⟩),
      h.keeps m (FlagMachine.not_trapped_of_execAll htrapped) flag
        (fun hl => hflag ⟨Or.inl hl.1, hl.2⟩)]
  runs m hfence htrapped := by
    rw [FlagMachine.execAll_append]
    exact h'.runs _ (by simpa using hfence) (h.runs m hfence htrapped)
  clears m hfence htrapped flag hflag hlost := by
    rw [FlagMachine.execAll_append]
    refine h'.clears _ (by simpa using hfence) (h.runs m hfence htrapped) flag hflag ?_
    rcases hlost with (hl | hl) | hclear
    · exact Or.inr (h.clears m hfence htrapped flag hflag (Or.inl hl))
    · exact Or.inl hl
    · exact Or.inr (h.clears m hfence htrapped flag hflag (Or.inr hclear))

/-- The same code with what is lost described in another way. -/
theorem congr (h : FlagEffect backend code lost) (hiff : lost ↔ lost') :
    FlagEffect backend code lost' := by
  rw [← propext hiff]
  exact h

/-- Code that keeps all flags, before code. -/
theorem append_left (h : FlagEffect backend code False)
    (h' : FlagEffect backend code' lost') : FlagEffect backend (code ++ code') lost' :=
  (h.append h').congr (by simp)

/-- Code that keeps all flags, after code. -/
theorem append_right (h : FlagEffect backend code lost)
    (h' : FlagEffect backend code' False) : FlagEffect backend (code ++ code') lost :=
  (h.append h').congr (by simp)

/-- Code that keeps all flags and is emitted under a condition only. -/
theorem ite {p : Prop} [Decidable p] (h : FlagEffect backend code False) :
    FlagEffect backend (if p then code else []) False := by
  split
  · exact h
  · exact nil

end FlagEffect

/-- A comparison with zero finds no borrow and no overflow. -/
theorem subFlags_zero (a : Word) :
    (subFlags a 0).carry = false ∧ (subFlags a 0).overflow = false := by
  simp [subFlags]

/-- The saved flags around the check on x86-64: the overflow flag is that of the comparison
with the fence. -/
theorem x86CheckStackFence_flags (A : TReg) {m : FlagMachine TReg} (hm : m.trapped = false) :
    (m.execAll ([.lahf A] ++ x86CheckStackFence ++ [.sahf A])).trapped =
        (subFlags m.stackPointer m.stackFence).carry ∧
      ((subFlags m.stackPointer m.stackFence).carry = false →
        (m.execAll ([.lahf A] ++ x86CheckStackFence ++ [.sahf A])).flags =
          { m.flags with overflow := (subFlags m.stackPointer m.stackFence).overflow }) := by
  simp only [x86CheckStackFence, List.cons_append, List.nil_append, FlagMachine.execAll_cons,
    FlagMachine.execAll_nil, FlagMachine.exec, hm, Bool.false_eq_true, if_false,
    FlagMachine.setReg, x86CompareFlags, X86CC.holds, Bool.not_not]
  cases hcarry : (subFlags m.stackPointer m.stackFence).carry with
  | true => simp
  | false => simp [FlagMachine.reg, sahf_lahf]

/-- **The check on x86-64** loses the overflow flag. -/
theorem x86StackCheck_effect (A : TReg) (free : Option TReg) :
    FlagEffect (.x86_64 A) (x86StackCheck A free true) True := by
  have hcore : FlagEffect (.x86_64 A)
      ([.lahf A] ++ x86CheckStackFence ++ [.sahf A]) True := by
    refine ⟨fun m htrapped flag hflag => ?_, fun m hfence htrapped => ?_,
      fun m hfence htrapped flag hflag _ => ?_⟩
    · obtain ⟨htrap, hflags⟩ :=
        x86CheckStackFence_flags A (FlagMachine.not_trapped_of_execAll htrapped)
      rw [hflags (htrap.symm.trans htrapped)]
      cases flag <;> simp_all [Backend.lostFlags, CPUFlags.get]
    · obtain ⟨htrap, -⟩ := x86CheckStackFence_flags A htrapped
      rw [htrap, hfence, (subFlags_zero _).1]
    · obtain ⟨-, hflags⟩ := x86CheckStackFence_flags A htrapped
      obtain rfl : flag = .overflow := by simpa [Backend.lostFlags] using hflag
      rw [hfence] at hflags
      rw [hflags (subFlags_zero _).1]
      exact (subFlags_zero _).2
  have hquiet : ∀ i : FlagInstr TReg, i.setsFlags = false ∧ i.traps = false →
      FlagEffect (.x86_64 A) [i] False := fun i hi => .quiet (by simpa using hi)
  simp only [x86StackCheck, Bool.not_true, Bool.false_eq_true, if_false]
  exact ((((hquiet _ ⟨rfl, rfl⟩).ite.append_left (hquiet _ ⟨rfl, rfl⟩).ite).append_left
    hcore).append_right (hquiet _ ⟨rfl, rfl⟩).ite).append_right (hquiet _ ⟨rfl, rfl⟩).ite

/-- The saved flags around the check on AArch64: they are what the register they are saved in
holds after the fence was loaded. -/
theorem aarch64CheckStackFence_flags (scratchReg flagStorageReg : TReg) {m : FlagMachine TReg}
    (hm : m.trapped = false) :
    (m.execAll ([.mrs flagStorageReg] ++ aarch64CheckStackFence scratchReg ++
        [.msr flagStorageReg])).trapped = !(subsFlags m.stackPointer m.stackFence).carry ∧
      ((subsFlags m.stackPointer m.stackFence).carry = true →
        (m.execAll ([.mrs flagStorageReg] ++ aarch64CheckStackFence scratchReg ++
          [.msr flagStorageReg])).flags =
        if flagStorageReg = scratchReg then msrNZCV m.stackFence m.flags else m.flags) := by
  simp only [aarch64CheckStackFence, List.cons_append, List.nil_append,
    FlagMachine.execAll_cons, FlagMachine.execAll_nil, FlagMachine.exec, hm,
    Bool.false_eq_true, if_false, FlagMachine.setReg, FlagMachine.reg, Function.update_self,
    Aarch64CC.holds]
  cases hcarry : (subsFlags m.stackPointer m.stackFence).carry with
  | false => simp
  | true =>
      simp only [Bool.not_true, Bool.false_eq_true, if_false, true_and, forall_true_left]
      by_cases heq : flagStorageReg = scratchReg
      · subst heq
        simp [msrNZCV]
      · have hne : (Cell.register flagStorageReg : Cell TReg) ≠ .register scratchReg :=
          fun h => heq (Cell.register.inj h)
        simp [heq, hne, msr_mrs]

/-- **The check on AArch64** loses the flags if they are saved in the register the fence is
loaded to, and otherwise none. -/
theorem aarch64StackCheck_effect (callScrRegs : CallScrRegs TReg) {free : FreeRegs TReg}
    (hnone : free.scratchReg = none → free.flagStorageReg = none)
    (hne : ∀ r, free.scratchReg = some r → free.flagStorageReg ≠ some r) :
    FlagEffect (.aarch64 callScrRegs) (aarch64StackCheck callScrRegs free true)
      ((Backend.aarch64 callScrRegs).Loses free) := by
  have hcore : ∀ scratchReg flagStorageReg, FlagEffect (.aarch64 callScrRegs)
      ([.mrs flagStorageReg] ++ aarch64CheckStackFence scratchReg ++ [.msr flagStorageReg])
      (flagStorageReg = scratchReg) := by
    intro scratchReg flagStorageReg
    refine ⟨fun m htrapped flag hflag => ?_, fun m hfence htrapped => ?_,
      fun m hfence htrapped flag hflag hlost => ?_⟩
    · obtain ⟨htrap, hflags⟩ := aarch64CheckStackFence_flags scratchReg flagStorageReg
        (FlagMachine.not_trapped_of_execAll htrapped)
      have hcarry := htrap.symm.trans htrapped
      rw [hflags (by simpa only [Bool.not_eq_false'] using hcarry)]
      split
      · case _ heq => cases flag <;> simp_all [Backend.lostFlags, CPUFlags.get, msrNZCV]
      · rfl
    · obtain ⟨htrap, -⟩ := aarch64CheckStackFence_flags scratchReg flagStorageReg htrapped
      rw [htrap, hfence]
      simp [subsFlags]
    · obtain ⟨-, hflags⟩ := aarch64CheckStackFence_flags scratchReg flagStorageReg htrapped
      rw [hfence] at hflags
      rw [hflags (by simp [subsFlags])]
      split
      · cases flag <;> simp_all [Backend.lostFlags, CPUFlags.get, msrNZCV]
      · case _ heq => exact hlost.resolve_left heq
  have hquiet : ∀ i : FlagInstr TReg, i.setsFlags = false ∧ i.traps = false →
      FlagEffect (.aarch64 callScrRegs) [i] False := fun i hi => .quiet (by simpa using hi)
  have hiff : free.flagStorageReg.getD callScrRegs.reg1 =
      free.scratchReg.getD callScrRegs.reg0 ↔ (Backend.aarch64 callScrRegs).Loses free := by
    have hregs := callScrRegs.reg0_ne_reg1
    cases hs : free.scratchReg with
    | none => simp [Backend.Loses, hs, hnone hs, hregs.symm]
    | some r =>
        cases hf : free.flagStorageReg with
        | none => simp [Backend.Loses, hs, hf, eq_comm]
        | some r' =>
            have hrr : r' ≠ r := fun h => hne r hs (h ▸ hf)
            simp [Backend.Loses, hs, hf, hrr]
  simp only [aarch64StackCheck, Bool.not_true, Bool.false_eq_true, if_false]
  refine FlagEffect.append_right (.append_left (hquiet _ ⟨rfl, rfl⟩).ite
    (.append_right (.append_left (hquiet _ ⟨rfl, rfl⟩).ite ?_) (hquiet _ ⟨rfl, rfl⟩).ite))
    (hquiet _ ⟨rfl, rfl⟩).ite
  exact (hcore _ _).congr hiff

/-- The registers a check finds free: none at all, or two different ones. -/
theorem freeRegs_spec (ctx : FrameContext TReg) (st : CompilerState TReg)
    (protRegs : RegMask TReg) :
    ((freeRegs ctx st protRegs).scratchReg = none →
        (freeRegs ctx st protRegs).flagStorageReg = none) ∧
      ∀ r, (freeRegs ctx st protRegs).scratchReg = some r →
        (freeRegs ctx st protRegs).flagStorageReg ≠ some r := by
  refine ⟨fun hnone => ?_, fun r hs hf => ?_⟩
  · simp only [freeRegs] at hnone ⊢
    rw [hnone]
    cases protRegs with
    | all => rfl
    | regs rs =>
        simp only [Option.elim_none, RegMask.union, List.append_nil]
        exact hnone
  · simp only [freeRegs] at hs hf
    rw [hs] at hf
    have hprot := (reqFreeScratchRegProt_spec hf).2.1
    rw [RegMask.contains_union] at hprot
    simp [RegMask.contains] at hprot

/-- Growing the frame does not change which registers are free. -/
theorem freeRegs_grow (ctx : FrameContext TReg) (st : CompilerState TReg) (frameSize : UInt32)
    (protRegs : RegMask TReg) :
    freeRegs ctx { st with stackFrameSize := frameSize } protRegs = freeRegs ctx st protRegs :=
  rfl

/-- A check has the effect that the free registers give it. -/
theorem Backend.stackCheck_effect (backend : Backend TReg) (ctx : FrameContext TReg)
    (st : CompilerState TReg) (protRegs : RegMask TReg) :
    FlagEffect backend (backend.stackCheck ctx st protRegs true)
      (backend.Loses (freeRegs ctx st protRegs)) := by
  cases backend with
  | x86_64 A => exact x86StackCheck_effect A _
  | aarch64 callScrRegs =>
      obtain ⟨hnone, hne⟩ := freeRegs_spec ctx st protRegs
      exact aarch64StackCheck_effect callScrRegs hnone hne

/-- A move that preserves flags, or whose source is no constant, keeps all flags. -/
theorem Backend.emitMoveImpl_effect (backend : Backend TReg) (dst src : VariableStorage TReg)
    {presFlags : Bool} (h : presFlags = true ∨ src.isZeroConstant = false) :
    FlagEffect backend (backend.emitMoveImpl dst src presFlags) False := by
  have hmove : FlagEffect backend [.move dst src] False := .quiet (by simp [FlagInstr.setsFlags,
    FlagInstr.traps])
  simp only [emitMoveImpl]
  split
  · exact .nil
  · cases backend with
    | x86_64 A =>
        have hand : (dst.isMemory && !presFlags && src.isZeroConstant) = false := by
          rcases h with rfl | h <;> simp_all
        simpa only [hand, Bool.false_eq_true, if_false] using hmove
    | aarch64 callScrRegs => exact hmove

/-! ### What spilling does to the flags -/

namespace FrameState

variable {backend : Backend TReg} {ctx : FrameContext TReg} {fs fs' : FrameState TReg}
  {type : MachineType} {protRegs : RegMask TReg} {forceToStack : Bool}
  {code : List (FlagInstr TReg)}

/-- The registers that are free at the check of the stack fence, if moving a value out of
its register makes one: no free register is there to move it to, the frame has no slot for
it, and it grows beyond the size checked last. -/
def stackCheck? (ctx : FrameContext TReg) (fs : FrameState TReg) (type : MachineType)
    (protRegs : RegMask TReg) (forceToStack : Bool) : Option (FreeRegs TReg) :=
  let newOffset := findFreeTempStackSlot ctx fs.st
  if (forceToStack = true ∨ reqFreeScratchRegProt ctx fs.st type protRegs = none) ∧
      fs.st.stackFrameSize < newOffset ∧
      fs.checkedStackFrameSize < ctx.alignStackFrameSize (newOffset + 32) then
    some (freeRegs ctx fs.st protRegs)
  else none

/-- Whether moving a value out of its register loses flags. -/
def SpillTargetLoses (backend : Backend TReg) (ctx : FrameContext TReg) (fs : FrameState TReg)
    (type : MachineType) (protRegs : RegMask TReg) (forceToStack : Bool) : Prop :=
  ∃ free, fs.stackCheck? ctx type protRegs forceToStack = some free ∧ backend.Loses free

/-- Whether spilling a variable loses flags. -/
def SpillLoses (backend : Backend TReg) (ctx : FrameContext TReg) (fs : FrameState TReg)
    (source : Reference TReg) (protRegs : RegMask TReg) (forceToStack : Bool)
    (zone : ExcludedZone) : Prop :=
  ∃ element, firstToSpill ctx fs.st source zone = some element ∧
    fs.SpillTargetLoses backend ctx (ctx.getMachineType element) protRegs forceToStack

/-- Whether a request for a register loses flags. -/
def RequestLoses (backend : Backend TReg) (ctx : FrameContext TReg) (fs : FrameState TReg)
    (type : MachineType) (protRegs : RegMask TReg) : Prop :=
  ∃ candidate, getRegAllocCandidate ctx fs.st type protRegs = some candidate ∧
    candidate.currentlyInUse = true ∧
    fs.SpillLoses backend ctx (.scratchReg candidate.reg) .all true .none

/-- Changing the stack pointer keeps all flags. -/
theorem setStackFrameSize_effect {frameSize : UInt32}
    (h : fs.setStackFrameSize frameSize = some (fs', code)) :
    FlagEffect backend code False ∧
      fs' = { fs with st := { fs.st with stackFrameSize := frameSize } } := by
  simp only [setStackFrameSize] at h
  split at h
  · case _ heq =>
      obtain ⟨rfl, rfl⟩ : fs = fs' ∧ [] = code := by simpa using h
      exact ⟨.nil, by rw [← heq]⟩
  · split at h
    · simp at h
    · simp only [Option.some.injEq, Prod.mk.injEq] at h
      obtain ⟨rfl, rfl⟩ := h
      exact ⟨.quiet (by simp [FlagInstr.setsFlags, FlagInstr.traps]), rfl⟩

/-- **Moving a value out of its register** loses flags exactly if the check does. -/
theorem reqSpillTarget_effect {element : LocatedElement TReg}
    (h : fs.reqSpillTarget backend ctx type protRegs forceToStack true =
      some (element, fs', code)) :
    FlagEffect backend code (fs.SpillTargetLoses backend ctx type protRegs forceToStack) := by
  simp only [reqSpillTarget] at h
  split at h
  · case _ reg hreg =>
      simp only [Option.some.injEq, Prod.mk.injEq] at h
      obtain ⟨-, -, rfl⟩ := h
      refine FlagEffect.nil.congr ⟨False.elim, ?_⟩
      rintro ⟨free, hcheck, -⟩
      simp only [stackCheck?] at hcheck
      split at hreg <;> simp_all
  · case _ hreg =>
      have hforce : forceToStack = true ∨ reqFreeScratchRegProt ctx fs.st type protRegs = none := by
        cases forceToStack <;> simp_all
      simp only [Option.map_eq_some_iff, Prod.mk.injEq, Prod.exists] at h
      obtain ⟨fs1, code1, hgrow, -, rfl, rfl⟩ := h
      simp only [growFrameFor] at hgrow
      split at hgrow
      · case _ hlt =>
          simp only [Option.map_eq_some_iff, Prod.exists] at hgrow
          obtain ⟨fs2, code2, hset, hcheck⟩ := hgrow
          obtain ⟨heffect, rfl⟩ := setStackFrameSize_effect hset
          split at hcheck
          · case _ hchecked =>
              simp only [Prod.mk.injEq] at hcheck
              obtain ⟨-, rfl⟩ := hcheck
              refine heffect.append_left ((backend.stackCheck_effect ctx _ protRegs).congr ?_)
              simp only [SpillTargetLoses, stackCheck?, freeRegs_grow]
              rw [if_pos ⟨hforce, hlt, hchecked⟩]
              simp
          · case _ hchecked =>
              simp only [Prod.mk.injEq] at hcheck
              obtain ⟨-, rfl⟩ := hcheck
              refine heffect.congr ⟨False.elim, ?_⟩
              rintro ⟨free, hcheck, -⟩
              simp only [stackCheck?] at hcheck
              rw [if_neg fun hall => hchecked hall.2.2] at hcheck
              simp at hcheck
      · case _ hlt =>
          simp only [Option.some.injEq, Prod.mk.injEq] at hgrow
          obtain ⟨-, rfl⟩ := hgrow
          refine FlagEffect.nil.congr ⟨False.elim, ?_⟩
          rintro ⟨free, hcheck, -⟩
          simp only [stackCheck?] at hcheck
          rw [if_neg fun hall => hlt hall.2.1] at hcheck
          simp at hcheck

/-- **Spilling** loses flags exactly if the check does. -/
theorem spillFromStack_effect {source : Reference TReg} {zone : ExcludedZone}
    (h : fs.spillFromStack backend ctx source protRegs forceToStack true zone =
      some (fs', code)) :
    FlagEffect backend code
      (fs.SpillLoses backend ctx source protRegs forceToStack zone) := by
  simp only [spillFromStack] at h
  split at h
  · case _ hfirst =>
      simp only [Option.some.injEq, Prod.mk.injEq] at h
      obtain ⟨-, rfl⟩ := h
      exact FlagEffect.nil.congr (by simp [SpillLoses, hfirst])
  · case _ element hfirst =>
      simp only [Option.map_eq_some_iff, Prod.mk.injEq, Prod.exists] at h
      obtain ⟨target, fs1, code1, htarget, -, rfl⟩ := h
      refine (reqSpillTarget_effect htarget).append_right
        (backend.emitMoveImpl_effect _ _ (Or.inl rfl)) |>.congr ?_
      simp [SpillLoses, hfirst]

/-- **A request** loses flags exactly if the spill for it does. -/
theorem reqScratchRegProt_effect {reg : TReg}
    (h : fs.reqScratchRegProt backend ctx type protRegs true = some (reg, fs', code)) :
    FlagEffect backend code (fs.RequestLoses backend ctx type protRegs) := by
  simp only [reqScratchRegProt] at h
  split at h
  · simp at h
  · case _ candidate hcandidate =>
      split at h
      · simp at h
      · split at h
        · case _ hinUse =>
            simp only [Option.map_eq_some_iff, Prod.mk.injEq, Prod.exists] at h
            obtain ⟨fs1, code1, hspill, -, -, rfl⟩ := h
            exact (spillFromStack_effect hspill).congr (by simp [RequestLoses, hcandidate, hinUse])
        · case _ hinUse =>
            simp only [Option.some.injEq, Prod.mk.injEq] at h
            obtain ⟨-, -, rfl⟩ := h
            exact FlagEffect.nil.congr (by simp [RequestLoses, hcandidate, hinUse])

/-- On AArch64 a request never loses flags: all registers are protected while it spills, so
the check saves the flags in a register of its own. -/
theorem not_requestLoses_aarch64 (callScrRegs : CallScrRegs TReg) (fs : FrameState TReg) :
    ¬ fs.RequestLoses (.aarch64 callScrRegs) ctx type protRegs := by
  rintro ⟨candidate, -, -, element, -, free, hcheck, hscratch, -⟩
  simp only [stackCheck?] at hcheck
  split at hcheck
  · obtain rfl := Option.some.inj hcheck
    simp [freeRegs, reqFreeScratchRegProt] at hscratch
  · simp at hcheck

/-! ### What a branch does to the flags -/

/-- Whether loading result values loses flags: the spill for one of the result registers
does, in the state that the spills for those before have led to. -/
def LoadLoses (backend : Backend TReg) (ctx : FrameContext TReg) :
    FrameState TReg → RegMask TReg → ℕ → List (VariableStorage TReg) → Prop
  | _, _, _, [] => False
  | fs, returnValueRegMask, currentIt, target :: targets =>
      (∃ targetReg, target.location = .register targetReg ∧
        fs.SpillLoses backend ctx (.scratchReg targetReg) returnValueRegMask false
          (.element currentIt)) ∨
      ∃ next ∈ fs.prepareResultRegister backend ctx returnValueRegMask currentIt target true,
        LoadLoses backend ctx next.1 next.2.1 (currentIt + 1) targets

/-- Making room in a result register loses flags exactly if the spill does. -/
theorem prepareResultRegister_effect {returnValueRegMask mask' : RegMask TReg} {currentIt : ℕ}
    {target : VariableStorage TReg}
    (h : fs.prepareResultRegister backend ctx returnValueRegMask currentIt target true =
      some (fs', mask', code)) :
    FlagEffect backend code (∃ targetReg, target.location = .register targetReg ∧
      fs.SpillLoses backend ctx (.scratchReg targetReg) returnValueRegMask false
        (.element currentIt)) := by
  simp only [prepareResultRegister] at h
  split at h
  · case _ targetReg hlocation =>
      simp only [Option.map_eq_some_iff, Prod.mk.injEq, Prod.exists] at h
      obtain ⟨fs1, code1, hspill, -, -, rfl⟩ := h
      exact (spillFromStack_effect hspill).congr (by simp [hlocation])
  · case _ hlocation =>
      simp only [Option.some.injEq, Prod.mk.injEq] at h
      obtain ⟨-, -, rfl⟩ := h
      refine FlagEffect.nil.congr ⟨False.elim, ?_⟩
      rintro ⟨targetReg, htarget, -⟩
      exact hlocation targetReg htarget

/-- **Loading result values** loses flags exactly if one of the spills does. -/
theorem loadReturnValues_effect : ∀ {targets : List (VariableStorage TReg)}
    {fs fs' : FrameState TReg} {returnValueRegMask : RegMask TReg} {currentIt : ℕ}
    {code : List (FlagInstr TReg)},
    loadReturnValues backend ctx true fs returnValueRegMask currentIt targets =
      some (fs', code) →
    FlagEffect backend code (LoadLoses backend ctx fs returnValueRegMask currentIt targets)
  | [], fs, fs', returnValueRegMask, currentIt, code, h => by
      simp only [loadReturnValues, Option.some.injEq, Prod.mk.injEq] at h
      obtain ⟨-, rfl⟩ := h
      exact .nil
  | target :: targets, fs, fs', returnValueRegMask, currentIt, code, h => by
      simp only [loadReturnValues] at h
      split at h
      · simp at h
      · case _ fs1 mask1 code1 hprepare =>
          split at h
          · simp at h
          · case _ element helement =>
              simp only [Option.map_eq_some_iff, Prod.mk.injEq, Prod.exists] at h
              obtain ⟨fs2, code2, hrest, -, rfl⟩ := h
              have hmove : FlagEffect backend
                  (backend.emitMoveImpl target (ctx.getStorage element) true) False :=
                backend.emitMoveImpl_effect _ _ (Or.inl rfl)
              refine ((prepareResultRegister_effect hprepare).append
                (hmove.append_left (loadReturnValues_effect hrest))).congr ?_
              simp [LoadLoses, hprepare]

end FrameState

namespace LocalDef

/-- Initialising a local keeps all flags. -/
theorem initialized_effect (backend : Backend TReg) (localDef : LocalDef TReg) :
    FlagEffect backend (localDef.initialized backend).2 False := by
  simp only [initialized]
  split
  · exact backend.emitMoveImpl_effect _ _ (Or.inl rfl)
  · exact backend.emitMoveImpl_effect _ _ (Or.inl rfl)
  · exact .nil

/-- Recovering a local keeps all flags: its moves are between a register and a slot. -/
theorem recoverToRegForBranch_effect (backend : Backend TReg) (isReachable : Bool)
    (localDef : LocalDef TReg) :
    FlagEffect backend (localDef.recoverToRegForBranch backend isReachable).2 False := by
  simp only [recoverToRegForBranch]
  split
  · exact .nil
  · case _ reg hreg =>
      simp only
      split
      · cases localDef.currentStorageType with
        | stackMemory => exact backend.emitMoveImpl_effect _ _ (Or.inr rfl)
        | register => exact backend.emitMoveImpl_effect _ _ (Or.inr rfl)
        | constant => exact .nil
        | stackReg => exact .nil
      · exact .nil

end LocalDef

/-- Pieces of code that keep all flags keep them together. -/
theorem FlagEffect.flatMap {backend : Backend TReg} {α : Type} {code : α → List (FlagInstr TReg)}
    {l : List α} (h : ∀ a ∈ l, FlagEffect backend (code a) False) :
    FlagEffect backend (l.flatMap code) False := by
  induction l with
  | nil => exact .nil
  | cons a l ih =>
      rw [List.flatMap_cons]
      exact (h a (by simp)).append_left (ih fun b hb => h b (by simp [hb]))

/-- The moves at a diverging branch keep all flags. -/
theorem FrameState.emitBranchDivergePoint_effect (backend : Backend TReg) (isReachable : Bool)
    (fs : FrameState TReg) :
    FlagEffect backend (fs.emitBranchDivergePoint backend isReachable).2 False := by
  refine (FlagEffect.flatMap fun l hl => ?_).append_left (FlagEffect.flatMap fun l hl => ?_)
  · obtain ⟨localDef, -, rfl⟩ := List.mem_map.mp hl
    exact localDef.initialized_effect backend
  · obtain ⟨initialized, -, rfl⟩ := List.mem_map.mp hl
    exact initialized.1.recoverToRegForBranch_effect backend isReachable

end WasmCompiler
