import WasmCompiler.FlagWindows

/-!
# Consumers of Flags

The consumers of the flags of a comparison: a conditional branch (`BR_IF`), an `IF`, a
selection (`Backend::emitSelect`) and the value of a condition (`Backend::emitCmpResult`).
Each is given by what the code generator emits after the comparison and before the first
instruction that reads the flags.

## Main results

* `FlagConsumer.window_effect`: what the code of a window does to the flags.
* `FlagConsumer.flagsPreserved_iff`: the flags a condition reads reach the consumer exactly
  when no check of the stack fence in the window loses one of them.
-/

namespace WasmCompiler

variable {TReg : Type} [DecidableEq TReg]

/-! ### Requests with a target hint -/

namespace FrameState

/-- `Common::reqScratchRegProt` with a target hint, for a mask of protected registers. -/
def reqScratchRegProtWithHint (backend : Backend TReg) (ctx : FrameContext TReg)
    (fs : FrameState TReg) (type : MachineType) (targetHint : Option (LocatedElement TReg))
    (protRegs : RegMask TReg) (presFlags : Bool) :
    Option (TReg × FrameState TReg × List (FlagInstr TReg)) :=
  match getUnderlyingRegIfSuitable ctx targetHint type protRegs with
  | some reg => some (reg, fs, [])
  | none => fs.reqScratchRegProt backend ctx type protRegs presFlags

end FrameState

/-! ### Instruction selection on AArch64 -/

/-- The state of `selectInstr` for an instruction with two register operands. -/
structure SelectState (TReg : Type) where
  inputStorages : Fin 2 → VariableStorage TReg
  argCanBeDst : Fin 2 → Bool
  argHasBeenLifted : Fin 2 → Bool
  fs : FrameState TReg
  code : List (FlagInstr TReg)

/-- There are operands. -/
local instance neZeroTwo : NeZero 2 := ⟨by decide⟩

namespace SelectState

/-- The storage is a register. -/
def inRegister (s : VariableStorage TReg) : Bool :=
  match s.location with
  | .register _ => true
  | _ => false

/-- The other operand. -/
def otherIdx (idx : Fin 2) : Fin 2 := idx + 1

/-- `liftArgLambda`: bring an operand to a register, and the other one with it if they are
equal and `coLift` is set. -/
def liftArg (backend : Backend TReg) (ctx : FrameContext TReg)
    (verifiedTargetHint : Option (LocatedElement TReg)) (argsAreEqual : Bool)
    (protRegs : RegMask TReg) (presFlags : Bool) (s : SelectState TReg) (idx : Fin 2)
    (coLift : Bool) : Option (SelectState TReg) :=
  let lifted :=
    if argsAreEqual && s.argHasBeenLifted (otherIdx idx) then
      some { s with
        inputStorages := Function.update s.inputStorages idx (s.inputStorages (otherIdx idx)) }
    else
      let storage := s.inputStorages idx
      (s.fs.reqScratchRegProtWithHint backend ctx storage.machineType verifiedTargetHint
        (protRegs.union (s.inputStorages (otherIdx idx)).regMask) presFlags).map fun scratch =>
          let newStorage := VariableStorage.reg storage.machineType scratch.1
          { s with
            inputStorages := Function.update s.inputStorages idx newStorage
            fs := scratch.2.1
            code := s.code ++
              (scratch.2.2 ++ backend.emitMoveImpl newStorage storage false) }
  lifted.map fun s =>
    let s := { s with
      argCanBeDst := Function.update s.argCanBeDst idx true
      argHasBeenLifted := Function.update s.argHasBeenLifted idx true }
    if coLift && argsAreEqual && !s.argHasBeenLifted (otherIdx idx) then
      { s with
        inputStorages := Function.update s.inputStorages (otherIdx idx) (s.inputStorages idx)
        argCanBeDst := Function.update s.argCanBeDst (otherIdx idx) true
        argHasBeenLifted := Function.update s.argHasBeenLifted (otherIdx idx) true }
    else s

/-- Lift an operand under a condition. -/
def liftArgIf (backend : Backend TReg) (ctx : FrameContext TReg)
    (verifiedTargetHint : Option (LocatedElement TReg)) (argsAreEqual : Bool)
    (protRegs : RegMask TReg) (presFlags : Bool) (condition : Bool) (idx : Fin 2)
    (coLift : Bool) (s : SelectState TReg) : Option (SelectState TReg) :=
  if condition then
    s.liftArg backend ctx verifiedTargetHint argsAreEqual protRegs presFlags idx coLift
  else some s

end SelectState

/-- The target hint, if its register is suitable for the result. -/
def verifyTargetHint (ctx : FrameContext TReg) (targetHint : Option (LocatedElement TReg))
    (dstType : MachineType) (protRegs : RegMask TReg) : Option (LocatedElement TReg) :=
  if (getUnderlyingRegIfSuitable ctx targetHint dstType protRegs).isSome then targetHint
  else none

/-- `Assembler::selectInstr` for a single instruction that writes a register and reads two:
operands in memory are lifted first, then the others that are not in a register, and at last
a register for the result is requested, unless the hint or an operand can be overwritten. -/
def selectInstr (backend : Backend TReg) (ctx : FrameContext TReg) (fs : FrameState TReg)
    (dstType : MachineType) (inputStorages : Fin 2 → VariableStorage TReg)
    (startedAsWritableScratchReg : Fin 2 → Bool) (targetHint : Option (LocatedElement TReg))
    (protRegs : RegMask TReg) (presFlags : Bool) :
    Option (FrameState TReg × List (FlagInstr TReg)) :=
  let verifiedTargetHint := verifyTargetHint ctx targetHint dstType protRegs
  let argsAreEqual := decide (inputStorages 0 = inputStorages 1)
  let s : SelectState TReg :=
    { inputStorages := inputStorages
      argCanBeDst := fun i => startedAsWritableScratchReg i ||
        verifiedTargetHint.any fun hint => inputStorages i = ctx.getStorage hint
      argHasBeenLifted := fun _ => false
      fs := fs
      code := [] }
  let lift := SelectState.liftArgIf backend ctx verifiedTargetHint argsAreEqual protRegs presFlags
  (lift (s.inputStorages 0).isMemory 0 true s).bind fun s =>
  (lift (!s.argHasBeenLifted 1 && (s.inputStorages 1).isMemory) 1 false s).bind fun s =>
  let argHasMatched := fun i => SelectState.inRegister (s.inputStorages i)
  (lift (!argHasMatched 0) 0 true s).bind fun s' =>
  (lift (!argHasMatched 1 && !(argsAreEqual && !argHasMatched 0)) 1 false s').bind fun s =>
  if !(SelectState.inRegister (s.inputStorages 0) &&
      SelectState.inRegister (s.inputStorages 1)) then none
  else if verifiedTargetHint.isSome || s.argCanBeDst 0 || s.argCanBeDst 1 then
    some (s.fs, s.code)
  else
    (s.fs.reqScratchRegProt backend ctx dstType
      ((protRegs.union (s.inputStorages 0).regMask).union (s.inputStorages 1).regMask)
      presFlags).map fun dst => (dst.2.1, s.code ++ dst.2.2)

/-! ### The value of a condition -/

/-- The conditions whose value on x86-64 also depends on the parity flag. -/
def BranchCondition.checksNaN : BranchCondition → Bool
  | EQ_F | NE_F | LT_F | LE_F => true
  | _ => false

/-- Whether the value of a condition can be written where the hint says. -/
def cmpTargetHint (ctx : FrameContext TReg) (targetHint : Option (LocatedElement TReg)) :
    Option (LocatedElement TReg) :=
  targetHint.filter fun hint =>
    (getUnderlyingRegIfSuitable ctx targetHint .i32 (.regs [])).isSome ||
      ctx.getMachineType hint = .i32

/-- `condLoadTarget` in `Backend::emitCmpResult` on x86-64. -/
def x86CondLoadTarget (A : TReg) (ctx : FrameContext TReg) (fs : FrameState TReg)
    (targetHint : Option (LocatedElement TReg)) :
    Option (LocatedElement TReg × FrameState TReg × List (FlagInstr TReg)) :=
  match cmpTargetHint ctx targetHint with
  | some hint => some (getResultStackElement ctx hint .i32, fs, [])
  | none =>
      (fs.reqScratchRegProt (.x86_64 A) ctx .i32 (.regs []) true).map fun target =>
        (.scratchReg target.1 .i32, target.2.1, target.2.2)

/-- The part of `Backend::emitCmpResult` on x86-64 before the first `SETcc`. -/
def x86CmpResult (A : TReg) (ctx : FrameContext TReg) (fs : FrameState TReg)
    (branchCond : BranchCondition) (targetHint : Option (LocatedElement TReg)) :
    Option (FrameState TReg × List (FlagInstr TReg)) :=
  let backend := Backend.x86_64 A
  (x86CondLoadTarget A ctx fs targetHint).bind fun target =>
    let targetStorage := ctx.getStorage target.1
    if branchCond.checksNaN then
      let target32 : VariableStorage TReg := { targetStorage with machineType := .i32 }
      (target.2.1.reqScratchRegProt backend ctx .i32 targetStorage.regMask true).map
        fun second => (second.2.1, target.2.2 ++
          (second.2.2 ++ (backend.emitMoveImpl target32 (.const .i32 0) true ++
            [.move (.reg .i32 second.1) (.const .i32 0)])))
    else
      some (target.2.1, target.2.2 ++
        backend.emitMoveImpl targetStorage (.const targetStorage.machineType 0) true)

/-- The part of `Backend::emitCmpResult` on AArch64 before `CSET`. -/
def aarch64CmpResult (callScrRegs : CallScrRegs TReg) (ctx : FrameContext TReg)
    (fs : FrameState TReg) (targetHint : Option (LocatedElement TReg)) :
    Option (FrameState TReg × List (FlagInstr TReg)) :=
  match getUnderlyingRegIfSuitable ctx targetHint .i32 (.regs []) with
  | some _ => some (fs, [])
  | none =>
      (fs.reqScratchRegProt (.aarch64 callScrRegs) ctx .i32 (.regs []) true).map fun target =>
        (target.2.1, target.2.2)

/-! ### Windows -/

/-- A consumer of the flags of a comparison. -/
inductive FlagConsumer (ctx : FrameContext TReg) where
  /-- `BR_IF` to a block, a loop or the function; the operands are the elements from
  `returnValuesBase` up. -/
  | brIf (bc : BranchCondition) (target : BranchTarget ctx) (targetIsFunction : Bool)
      (returnValuesBase : ℕ)
  | if_ (bc : BranchCondition) (isReachable : Bool)
  /-- The condition was compared with zero; the operands are the falsy and the truthy one. -/
  | select (resultType : MachineType) (inputStorages : Fin 2 → VariableStorage TReg)
      (startedAsWritableScratchReg : Fin 2 → Bool) (targetHint : Option (LocatedElement TReg))
  | cmpResult (bc : BranchCondition) (targetHint : Option (LocatedElement TReg))

namespace FlagConsumer

variable {ctx : FrameContext TReg}

/-- The condition a consumer reads the flags for. -/
def condition : FlagConsumer ctx → BranchCondition
  | brIf bc .. | if_ bc _ | cmpResult bc _ => bc
  | select .. => .NEQZ

/-- The code between the comparison and the consumer. On x86-64 a selection tests the
condition directly before it reads the flags. -/
def window (backend : Backend TReg) (fs : FrameState TReg) :
    FlagConsumer ctx → Option (FrameState TReg × List (FlagInstr TReg))
  | brIf _ target targetIsFunction returnValuesBase =>
      (fs.loadReturnValues backend ctx true (.regs []) returnValuesBase target.locations).map
        fun loaded =>
          if targetIsFunction then loaded
          else
            let diverged := loaded.1.emitBranchDivergePoint backend true
            (diverged.1, loaded.2 ++ diverged.2)
  | if_ _ isReachable => some (fs.emitBranchDivergePoint backend isReachable)
  | select resultType inputStorages startedAsWritableScratchReg targetHint =>
      match backend with
      | .x86_64 _ => some (fs, [])
      | .aarch64 _ =>
          selectInstr backend ctx fs resultType inputStorages startedAsWritableScratchReg
            targetHint (.regs []) true
  | cmpResult bc targetHint =>
      match backend with
      | .x86_64 A => x86CmpResult A ctx fs bc targetHint
      | .aarch64 callScrRegs => aarch64CmpResult callScrRegs ctx fs targetHint

/-- Whether a check in the window loses flags. -/
def Loses (backend : Backend TReg) (fs : FrameState TReg) : FlagConsumer ctx → Prop
  | brIf _ target _ returnValuesBase =>
      FrameState.LoadLoses backend ctx fs (.regs []) returnValuesBase target.locations
  | cmpResult bc targetHint =>
      match backend with
      | .x86_64 A =>
          (cmpTargetHint ctx targetHint = none ∧
            fs.RequestLoses (.x86_64 A) ctx .i32 (.regs [])) ∨
          (bc.checksNaN = true ∧ ∃ target ∈ x86CondLoadTarget A ctx fs targetHint,
            target.2.1.RequestLoses (.x86_64 A) ctx .i32 (ctx.getStorage target.1).regMask)
      | .aarch64 _ => False
  | _ => False

/-- The flags the condition reads are as the comparison set them, whatever it compared, when
the consumer is reached. -/
def FlagsPreserved (backend : Backend TReg) (consumer : FlagConsumer ctx)
    (code : List (FlagInstr TReg)) : Prop :=
  ∀ m : FlagMachine TReg, backend.Compared consumer.condition m.flags →
    (m.execAll code).trapped = false → ∀ flag ∈ backend.flagsRead consumer.condition,
      (m.execAll code).flags.get flag = m.flags.get flag

end FlagConsumer

/-! ### What windows do to the flags -/

/-- A move on AArch64 keeps all flags. -/
theorem emitMoveImpl_aarch64_effect (callScrRegs : CallScrRegs TReg)
    (dst src : VariableStorage TReg) (presFlags : Bool) :
    FlagEffect (.aarch64 callScrRegs)
      ((Backend.aarch64 callScrRegs).emitMoveImpl dst src presFlags) False := by
  simp only [Backend.emitMoveImpl]
  split
  · exact .nil
  · exact .quiet (by simp [FlagInstr.setsFlags, FlagInstr.traps])

section Aarch64

variable {callScrRegs : CallScrRegs TReg} {ctx : FrameContext TReg} {fs fs' : FrameState TReg}
  {type : MachineType} {protRegs : RegMask TReg} {code : List (FlagInstr TReg)}

/-- A request on AArch64 keeps all flags. -/
theorem reqScratchRegProt_aarch64_effect {reg : TReg}
    (h : fs.reqScratchRegProt (.aarch64 callScrRegs) ctx type protRegs true =
      some (reg, fs', code)) : FlagEffect (.aarch64 callScrRegs) code False :=
  (FrameState.reqScratchRegProt_effect h).congr
    (iff_false_intro (fs.not_requestLoses_aarch64 callScrRegs))

/-- A request with a target hint on AArch64 keeps all flags. -/
theorem reqScratchRegProtWithHint_aarch64_effect {targetHint : Option (LocatedElement TReg)}
    {reg : TReg}
    (h : fs.reqScratchRegProtWithHint (.aarch64 callScrRegs) ctx type targetHint protRegs true =
      some (reg, fs', code)) : FlagEffect (.aarch64 callScrRegs) code False := by
  simp only [FrameState.reqScratchRegProtWithHint] at h
  split at h
  · simp only [Option.some.injEq, Prod.mk.injEq] at h
    obtain ⟨-, -, rfl⟩ := h
    exact .nil
  · exact reqScratchRegProt_aarch64_effect h

namespace SelectState

variable {verifiedTargetHint : Option (LocatedElement TReg)} {argsAreEqual : Bool}
  {s s' : SelectState TReg} {idx : Fin 2} {coLift : Bool}

/-- Lifting an operand on AArch64 keeps all flags. -/
theorem liftArg_effect (hs : FlagEffect (.aarch64 callScrRegs) s.code False)
    (h : s.liftArg (.aarch64 callScrRegs) ctx verifiedTargetHint argsAreEqual protRegs true idx
      coLift = some s') : FlagEffect (.aarch64 callScrRegs) s'.code False := by
  simp only [liftArg, Option.map_eq_some_iff] at h
  obtain ⟨lifted, hlifted, rfl⟩ := h
  have hcode : FlagEffect (.aarch64 callScrRegs) lifted.code False := by
    split at hlifted
    · obtain rfl := Option.some.inj hlifted
      exact hs
    · simp only [Option.map_eq_some_iff, Prod.exists] at hlifted
      obtain ⟨reg, fs1, code1, hrequest, rfl⟩ := hlifted
      exact hs.append_left ((reqScratchRegProtWithHint_aarch64_effect hrequest).append_left
        (emitMoveImpl_aarch64_effect callScrRegs _ _ false))
  split <;> exact hcode

/-- The same under a condition. -/
theorem liftArgIf_effect {condition : Bool}
    (hs : FlagEffect (.aarch64 callScrRegs) s.code False)
    (h : s.liftArgIf (.aarch64 callScrRegs) ctx verifiedTargetHint argsAreEqual protRegs true
      condition idx coLift = some s') : FlagEffect (.aarch64 callScrRegs) s'.code False := by
  simp only [liftArgIf] at h
  split at h
  · exact liftArg_effect hs h
  · obtain rfl := Option.some.inj h
    exact hs

end SelectState

/-- **Selecting an instruction** on AArch64 keeps all flags. -/
theorem selectInstr_effect {dstType : MachineType} {inputStorages : Fin 2 → VariableStorage TReg}
    {startedAsWritableScratchReg : Fin 2 → Bool} {targetHint : Option (LocatedElement TReg)}
    (h : selectInstr (.aarch64 callScrRegs) ctx fs dstType inputStorages
      startedAsWritableScratchReg targetHint protRegs true = some (fs', code)) :
    FlagEffect (.aarch64 callScrRegs) code False := by
  simp only [selectInstr, Option.bind_eq_some_iff] at h
  obtain ⟨s1, h1, s2, h2, s3, h3, s4, h4, h⟩ := h
  have he1 := SelectState.liftArgIf_effect .nil h1
  have he2 := SelectState.liftArgIf_effect he1 h2
  have he3 := SelectState.liftArgIf_effect he2 h3
  have he4 := SelectState.liftArgIf_effect he3 h4
  split at h
  · simp at h
  · split at h
    · simp only [Option.some.injEq, Prod.mk.injEq] at h
      obtain ⟨-, rfl⟩ := h
      exact he4
    · simp only [Option.map_eq_some_iff, Prod.mk.injEq, Prod.exists] at h
      obtain ⟨reg, fs5, code5, hrequest, -, rfl⟩ := h
      exact he4.append_left (reqScratchRegProt_aarch64_effect hrequest)

/-- The value of a condition on AArch64: all flags are kept. -/
theorem aarch64CmpResult_effect {targetHint : Option (LocatedElement TReg)}
    (h : aarch64CmpResult callScrRegs ctx fs targetHint = some (fs', code)) :
    FlagEffect (.aarch64 callScrRegs) code False := by
  simp only [aarch64CmpResult] at h
  split at h
  · simp only [Option.some.injEq, Prod.mk.injEq] at h
    obtain ⟨-, rfl⟩ := h
    exact .nil
  · simp only [Option.map_eq_some_iff, Prod.mk.injEq, Prod.exists] at h
    obtain ⟨reg, fs1, code1, hrequest, -, rfl⟩ := h
    exact reqScratchRegProt_aarch64_effect hrequest

end Aarch64

/-- The value of a condition on x86-64: flags are lost if one of the two requests loses
them. -/
theorem x86CmpResult_effect {A : TReg} {ctx : FrameContext TReg} {fs fs' : FrameState TReg}
    {code : List (FlagInstr TReg)} {bc : BranchCondition}
    {targetHint : Option (LocatedElement TReg)}
    (h : x86CmpResult A ctx fs bc targetHint = some (fs', code)) :
    FlagEffect (.x86_64 A) code
      ((FlagConsumer.cmpResult bc targetHint : FlagConsumer ctx).Loses (.x86_64 A) fs) := by
  have hmove : ∀ (dst : VariableStorage TReg) (machineType : MachineType),
      FlagEffect (.x86_64 A) ((Backend.x86_64 A).emitMoveImpl dst (.const machineType 0) true)
        False := fun dst machineType => Backend.emitMoveImpl_effect _ _ _ (Or.inl rfl)
  simp only [x86CmpResult, Option.bind_eq_some_iff] at h
  obtain ⟨target, htarget, h⟩ := h
  have hfirst : FlagEffect (.x86_64 A) target.2.2
      (cmpTargetHint ctx targetHint = none ∧
        fs.RequestLoses (.x86_64 A) ctx .i32 (.regs [])) := by
    simp only [x86CondLoadTarget] at htarget
    cases hhint : cmpTargetHint ctx targetHint with
    | some hint =>
        rw [hhint] at htarget
        obtain rfl := Option.some.inj htarget
        exact FlagEffect.nil.congr (by simp)
    | none =>
        rw [hhint] at htarget
        simp only [Option.map_eq_some_iff, Prod.exists] at htarget
        obtain ⟨reg, fs1, code1, hrequest, rfl⟩ := htarget
        exact (FrameState.reqScratchRegProt_effect hrequest).congr (by simp)
  split at h
  · case _ hnan =>
      simp only [Option.map_eq_some_iff, Prod.mk.injEq, Prod.exists] at h
      obtain ⟨reg, fs2, code2, hrequest, -, rfl⟩ := h
      have hzero : FlagEffect (.x86_64 A) [.move (.reg .i32 reg) (.const .i32 0)] False :=
        .quiet (by simp [FlagInstr.setsFlags, FlagInstr.traps])
      refine (hfirst.append ((FrameState.reqScratchRegProt_effect hrequest).append_right
        ((hmove _ _).append_left hzero))).congr ?_
      simp [FlagConsumer.Loses, hnan, htarget]
  · case _ hnan =>
      simp only [Option.some.injEq, Prod.mk.injEq] at h
      obtain ⟨-, rfl⟩ := h
      exact (hfirst.append_right (hmove _ _)).congr (by simp [FlagConsumer.Loses, hnan])

namespace FlagConsumer

variable {backend : Backend TReg} {ctx : FrameContext TReg} {fs fs' : FrameState TReg}
  {consumer : FlagConsumer ctx} {code : List (FlagInstr TReg)}

/-- **The effect of a window** on the flags. -/
theorem window_effect (h : consumer.window backend fs = some (fs', code)) :
    FlagEffect backend code (consumer.Loses backend fs) := by
  cases consumer with
  | brIf bc target targetIsFunction returnValuesBase =>
      simp only [window, Option.map_eq_some_iff, Prod.exists] at h
      obtain ⟨fs1, code1, hload, h⟩ := h
      have heffect := FrameState.loadReturnValues_effect hload
      split at h
      · simp only [Prod.mk.injEq] at h
        obtain ⟨-, rfl⟩ := h
        exact heffect
      · simp only [Prod.mk.injEq] at h
        obtain ⟨-, rfl⟩ := h
        exact heffect.append_right (fs1.emitBranchDivergePoint_effect backend true)
  | if_ bc isReachable =>
      simp only [window, Option.some.injEq] at h
      have hcode : (fs.emitBranchDivergePoint backend isReachable).2 = code := by rw [h]
      rw [← hcode]
      exact fs.emitBranchDivergePoint_effect backend isReachable
  | select resultType inputStorages startedAsWritableScratchReg targetHint =>
      cases backend with
      | x86_64 A =>
          simp only [window, Option.some.injEq, Prod.mk.injEq] at h
          obtain ⟨-, rfl⟩ := h
          exact .nil
      | aarch64 callScrRegs => exact selectInstr_effect h
  | cmpResult bc targetHint =>
      cases backend with
      | x86_64 A => exact x86CmpResult_effect h
      | aarch64 callScrRegs => exact aarch64CmpResult_effect h

end FlagConsumer

/-! ### When the flags reach the consumer -/

omit [DecidableEq TReg] in
/-- A condition that reads a flag a check can lose has a comparison that sets such a flag. -/
theorem Backend.exists_compared (backend : Backend TReg) (bc : BranchCondition)
    (h : ∃ flag ∈ backend.flagsRead bc, flag ∈ backend.lostFlags) :
    ∃ flags, backend.Compared bc flags ∧
      ∃ flag ∈ backend.flagsRead bc, flag ∈ backend.lostFlags ∧ flags.get flag = true := by
  cases backend with
  | x86_64 A =>
      -- only signed conditions read the overflow flag
      have hsigned : bc = .LT_S ∨ bc = .GT_S ∨ bc = .LE_S ∨ bc = .GE_S := by
        obtain ⟨flag, hread, hlost⟩ := h
        obtain rfl : flag = .overflow := by simpa [lostFlags] using hlost
        cases bc <;> simp_all [flagsRead, BranchCondition.x86CC, X86CC.flagsRead,
          BranchCondition.isFloat]
      refine ⟨x86CompareFlags (0x80000000 : BitVec 32) 1, ?_, .overflow, ?_, by simp [lostFlags],
        by decide⟩
      · rcases hsigned with rfl | rfl | rfl | rfl <;>
          exact Or.inl ⟨0x80000000, 1, rfl⟩
      · rcases hsigned with rfl | rfl | rfl | rfl <;>
          simp [flagsRead, BranchCondition.x86CC, X86CC.flagsRead]
  | aarch64 callScrRegs =>
      have hread : ∀ flag ∈ bc.aarch64CC.elim [] Aarch64CC.flagsRead,
          flag ∈ (Backend.aarch64 callScrRegs).flagsRead bc := fun _ hflag => hflag
      have hlost : ∀ flag, flag ≠ .parity →
          flag ∈ (Backend.aarch64 callScrRegs).lostFlags := by
        intro flag hflag
        cases flag <;> simp_all [lostFlags]
      -- equal operands set the zero flag and the carry, smaller first operands the sign
      cases bc with
      | UNCONDITIONAL => simp [flagsRead, BranchCondition.aarch64CC] at h
      | NEQZ | EQZ =>
          exact ⟨_, Or.inl ⟨0, rfl⟩, .zero, hread _ (by decide), hlost _ (by decide), rfl⟩
      | EQ | NE | GT_S | LE_S =>
          exact ⟨_, Or.inl ⟨0, 0, rfl⟩, .zero, hread _ (by decide), hlost _ (by decide), rfl⟩
      | LT_U | GT_U | LE_U | GE_U =>
          exact ⟨_, Or.inl ⟨0, 0, rfl⟩, .carry, hread _ (by decide), hlost _ (by decide), rfl⟩
      | LT_S | GE_S =>
          exact ⟨_, Or.inl ⟨0, 1, rfl⟩, .negative, hread _ (by decide), hlost _ (by decide), rfl⟩
      | EQ_F | NE_F | GT_F =>
          exact ⟨⟨⟨false, true, true, false⟩, false⟩,
            by simp [Compared, BranchCondition.isFloat, floatFlags], .zero,
            hread _ (by decide), hlost _ (by decide), rfl⟩
      | LT_F | LE_F =>
          exact ⟨⟨⟨false, true, true, false⟩, false⟩,
            by simp [Compared, BranchCondition.isFloat, floatFlags], .carry,
            hread _ (by decide), hlost _ (by decide), rfl⟩
      | GE_F =>
          exact ⟨⟨⟨true, false, false, false⟩, false⟩,
            by simp [Compared, BranchCondition.isFloat, floatFlags], .negative,
            hread _ (by decide), hlost _ (by decide), rfl⟩

namespace FlagConsumer

variable {backend : Backend TReg} {ctx : FrameContext TReg} {fs fs' : FrameState TReg}
  {consumer : FlagConsumer ctx} {code : List (FlagInstr TReg)}

/-- Code with a known effect preserves the flags of a condition exactly when it loses none or
the condition reads none of those that can be lost. -/
theorem FlagEffect.flagsPreserved_iff {lost : Prop} (h : FlagEffect backend code lost) :
    FlagsPreserved backend consumer code ↔
      ¬ (lost ∧ ∃ flag ∈ backend.flagsRead consumer.condition, flag ∈ backend.lostFlags) := by
  constructor
  · rintro hpreserved ⟨hlost, hreads⟩
    obtain ⟨flags, hcompared, flag, hread, hcan, hset⟩ :=
      backend.exists_compared consumer.condition hreads
    -- no stack pointer is below this fence, so the check does not trap
    let m : FlagMachine TReg :=
      { cells := fun _ => 0
        spillRegion := fun _ => 0
        stackPointer := 0
        stackFence := 0
        flags := flags
        trapped := false }
    have hkept := hpreserved m hcompared (h.runs m rfl rfl) flag hread
    have hcleared := h.clears m rfl rfl flag hcan (Or.inl hlost)
    rw [hcleared] at hkept
    exact absurd (hkept.trans hset) (by decide)
  · intro hnot m _ htrapped flag hread
    exact h.keeps m htrapped flag fun hboth => hnot ⟨hboth.1, flag, hread, hboth.2⟩

/-- **The flags reach the consumer** as the comparison set them, for every outcome of the
comparison, exactly when no check of the stack fence in the window loses flags or the
condition reads none of those a check can lose. -/
theorem window_flagsPreserved_iff (h : consumer.window backend fs = some (fs', code)) :
    FlagsPreserved backend consumer code ↔
      ¬ (consumer.Loses backend fs ∧
        ∃ flag ∈ backend.flagsRead consumer.condition, flag ∈ backend.lostFlags) :=
  FlagEffect.flagsPreserved_iff (window_effect h)

end FlagConsumer

/-! ### A comparison under register pressure -/

/-- No parameters fit into the frame. -/
theorem noParams_le : (0 : UInt32) ≤ 8 := by decide

/-- The frame begins with the return address alone. -/
theorem returnAddress_le : (8 : UInt32) ≤ 8 := by decide

/-- The scratch registers of x86-64, `A`, `D`, `C` and `R8`, numbered from zero, and as many
for floating point numbers. -/
def x86ScratchContext : FrameContext ℕ where
  gpr := [0, 1, 2, 3]
  fpr := [4, 5, 6, 7]
  gpRetRegs := [0, 2]
  fpRetRegs := [4, 5]
  localDefs := []
  globals := []
  paramWidth := 0
  returnAddrWidth := 8
  fixedStackFrameWidth := 8
  minimalStackFrameSize := 8
  frameBase := 0
  gpr_disjoint_fpr := by decide
  gpRetRegs_subset := by decide
  fpRetRegs_subset := by decide
  gpRetRegs_nodup := by decide
  fpRetRegs_nodup := by decide
  paramWidth_le := noParams_le
  fixed_le_minimal := returnAddress_le
  localDefs_fixed := by simp
  globals_fixed := by simp

/-- The frame is full, and so are the scratch registers. -/
def fullFrameState : FrameState ℕ where
  st :=
    { stack := ((List.range 17).map fun i =>
        .tempResult (.stackMemory .i32 (16 + 8 * UInt32.ofNat i))) ++
        [.scratchReg 0 .i32, .scratchReg 1 .i32, .scratchReg 2 .i32, .scratchReg 3 .i32]
      stackFrameSize := 144 }
  checkedStackFrameSize := 144
  localDefs := []

/-- The value of a comparison, without a target hint. -/
def cmpValue (bc : BranchCondition) : FlagConsumer x86ScratchContext := .cmpResult bc none

/-- The window of its value is emitted. -/
theorem cmpValue_window_isSome :
    ((cmpValue .LT_S).window (.x86_64 0) fullFrameState).isSome ∧
      ((cmpValue .LT_U).window (.x86_64 0) fullFrameState).isSome := by
  decide

/-- The request for its register checks the stack fence. -/
theorem cmpValue_loses (bc : BranchCondition) :
    (cmpValue bc).Loses (.x86_64 0) fullFrameState :=
  Or.inl ⟨rfl, ⟨0, true⟩, by decide, rfl, .scratchReg 0 .i32, by decide, ⟨none, none⟩,
    by decide, trivial⟩

/-- The smallest number compares as not less than one: the overflow flag is lost. -/
theorem lt_s_value_wrong :
    ∃ fs' code, (cmpValue .LT_S).window (.x86_64 0) fullFrameState = some (fs', code) ∧
      ∃ m : FlagMachine ℕ, m.flags = x86CompareFlags (0x80000000 : BitVec 32) 1 ∧
        (m.execAll code).trapped = false ∧
        X86CC.L.holds m.flags.toStatusFlags = true ∧
        X86CC.L.holds (m.execAll code).flags.toStatusFlags = false := by
  obtain ⟨⟨fs', code⟩, hwindow⟩ := Option.isSome_iff_exists.mp cmpValue_window_isSome.1
  have heffect := FlagConsumer.window_effect hwindow
  let m : FlagMachine ℕ :=
    { cells := fun _ => 0
      spillRegion := fun _ => 0
      stackPointer := 0x10000
      stackFence := 0
      flags := x86CompareFlags (0x80000000 : BitVec 32) 1
      trapped := false }
  have hruns := heffect.runs m rfl rfl
  have hoverflow : (m.execAll code).flags.overflow = false :=
    heffect.clears m rfl rfl .overflow (by decide) (Or.inl (cmpValue_loses .LT_S))
  have hnegative : (m.execAll code).flags.negative = false :=
    heffect.keeps m hruns .negative (by simp [Backend.lostFlags])
  refine ⟨fs', code, hwindow, m, rfl, hruns, by decide, ?_⟩
  simp [X86CC.holds, hoverflow, hnegative]

/-- An unsigned comparison under the same pressure is not affected. -/
theorem lt_u_value_preserved :
    ∃ fs' code, (cmpValue .LT_U).window (.x86_64 0) fullFrameState = some (fs', code) ∧
      FlagConsumer.FlagsPreserved (.x86_64 0) (cmpValue .LT_U) code := by
  obtain ⟨⟨fs', code⟩, hwindow⟩ := Option.isSome_iff_exists.mp cmpValue_window_isSome.2
  refine ⟨fs', code, hwindow, (FlagConsumer.window_flagsPreserved_iff hwindow).mpr ?_⟩
  rintro ⟨-, flag, hread, hlost⟩
  revert flag
  decide

end WasmCompiler
