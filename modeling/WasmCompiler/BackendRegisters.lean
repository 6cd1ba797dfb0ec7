import WasmCompiler.ScratchAllocation

/-!
# The Registers of the Backends

The registers of x86-64 and of AArch64, and the calling conventions for WebAssembly functions
that the two backends use. The last registers of every array are reserved as scratch registers
and hold no variable of any function.

## Main results

* `CompiledFunction.Describes.reserved_mem`: the reserved registers can always be handed out.
-/

namespace WasmCompiler

/-- What a build of the compiler depends on. -/
structure BackendConfig where
  /-- `LINEAR_MEMORY_BOUNDS_CHECKS`. -/
  linearMemoryBoundsChecks : Bool
  /-- `ACTIVE_STACK_OVERFLOW_CHECK`. -/
  activeStackOverflowCheck : Bool
  /-- The condition of `JUST_LINUX`. -/
  linux : Bool
  deriving DecidableEq, Repr

namespace X86_64

/-- The registers of x86-64. -/
inductive REG where
  | A | C | D | B | SP | BP | SI | DI | R8 | R9 | R10 | R11 | R12 | R13 | R14 | R15
  | XMM0 | XMM1 | XMM2 | XMM3 | XMM4 | XMM5 | XMM6 | XMM7
  | XMM8 | XMM9 | XMM10 | XMM11 | XMM12 | XMM13 | XMM14 | XMM15
  deriving DecidableEq, Repr

/-- `REGS::linMem`. -/
def linMem : REG := .B

/-- `REGS::memSize`, in a build with bounds checks. -/
def memSize : REG := .SI

/-- `REGS::moveHelper`. -/
def moveHelper : REG := .XMM15

/-- `WasmABI::gpr`. -/
def gpr (boundsChecks : Bool) : List REG :=
  [.BP, .DI] ++ (if boundsChecks then [] else [.SI]) ++
    [.R9, .R10, .R11, .R12, .R13, .R14, .R15, .A, .D, .C, .R8]

/-- `WasmABI::fpr`. -/
def fpr : List REG :=
  [.XMM4, .XMM5, .XMM6, .XMM7, .XMM8, .XMM9, .XMM10, .XMM11, .XMM12, .XMM13, .XMM14, .XMM0,
    .XMM1, .XMM2, .XMM3]

/-- The calling convention for WebAssembly functions. -/
def wasmABI (boundsChecks : Bool) : WasmABI REG where
  gpr := gpr boundsChecks
  fpr := fpr
  resScratchRegsGPR := 4
  resScratchRegsFPR := 4
  regsForParams := 4
  gpr_nodup := by
    cases boundsChecks <;> decide
  fpr_nodup := by decide
  gpr_disjoint_fpr := by
    cases boundsChecks <;> decide
  params_fit_gpr := by
    cases boundsChecks <;> decide
  params_fit_fpr := by decide

/-- The reserved general purpose registers. -/
theorem drop_gpr (boundsChecks : Bool) :
    (gpr boundsChecks).drop ((gpr boundsChecks).length - 4) = [.A, .D, .C, .R8] := by
  cases boundsChecks <;> rfl

/-- The dedicated registers are not handed out. -/
theorem dedicated_not_mem (boundsChecks : Bool) {r : REG} (hr : r ∈ gpr boundsChecks ∨ r ∈ fpr) :
    r ≠ linMem ∧ r ≠ moveHelper ∧ r ≠ .SP ∧
      (boundsChecks = true → r ≠ memSize) := by
  revert hr
  cases boundsChecks <;> cases r <;> decide

end X86_64

namespace AArch64

/-- The registers of AArch64. -/
inductive REG where
  | R0 | R1 | R2 | R3 | R4 | R5 | R6 | R7 | R8 | R9 | R10 | R11 | R12 | R13 | R14 | R15
  | R16 | R17 | R18 | R19 | R20 | R21 | R22 | R23 | R24 | R25 | R26 | R27 | R28 | FP | LR | SP
  | F0 | F1 | F2 | F3 | F4 | F5 | F6 | F7 | F8 | F9 | F10 | F11 | F12 | F13 | F14 | F15
  | F16 | F17 | F18 | F19 | F20 | F21 | F22 | F23 | F24 | F25 | F26 | F27 | F28 | F29 | F30
  | F31
  deriving DecidableEq, Repr

/-- `REGS::memSize`, in a build with bounds checks. -/
def memSize : REG := .R27

/-- `REGS::landingPadHelper`, in a build without bounds checks. -/
def landingPadHelper : REG := .R27

/-- `REGS::jobMem`. -/
def jobMem : REG := .R28

/-- `REGS::linMem`. -/
def linMem : REG := .FP

/-- `REGS::moveHelper`. -/
def moveHelper : REG := .F31

/-- `WasmABI::gpr`. -/
def gpr (linux : Bool) : List REG :=
  [.R19, .R8, .R1, .R2, .R3, .R4, .R5, .R6, .R7, .R12, .R13, .R14, .R15, .R16, .R17] ++
    (if linux then [.R18] else []) ++
    [.R20, .R21, .R22, .R23, .R24, .R25, .R0, .R26, .R9, .R10, .R11]

/-- `WasmABI::fpr`. -/
def fpr : List REG :=
  [.F8, .F1, .F2, .F3, .F4, .F5, .F6, .F7, .F12, .F13, .F14, .F15, .F16, .F17, .F18, .F19,
    .F20, .F21, .F22, .F23, .F24, .F25, .F27, .F28, .F29, .F30, .F0, .F26, .F9, .F10, .F11]

/-- The calling convention for WebAssembly functions. -/
def wasmABI (linux : Bool) : WasmABI REG where
  gpr := gpr linux
  fpr := fpr
  resScratchRegsGPR := 5
  resScratchRegsFPR := 5
  regsForParams := 8
  gpr_nodup := by
    cases linux <;> decide
  fpr_nodup := by decide
  gpr_disjoint_fpr := by
    cases linux <;> decide
  params_fit_gpr := by
    cases linux <;> decide
  params_fit_fpr := by decide

/-- `callScrRegs`. -/
def callScrRegs : List REG := [.R9, .R10, .R11]

/-- The reserved general purpose registers. -/
theorem drop_gpr (linux : Bool) :
    (gpr linux).drop ((gpr linux).length - 5) = [.R0, .R26, .R9, .R10, .R11] := by
  cases linux <;> rfl

/-- The dedicated registers are not handed out. -/
theorem dedicated_not_mem (linux : Bool) {r : REG} (hr : r ∈ gpr linux ∨ r ∈ fpr) :
    r ≠ linMem ∧ r ≠ jobMem ∧ r ≠ memSize ∧ r ≠ moveHelper ∧ r ≠ .SP ∧ r ≠ .LR := by
  revert hr
  cases linux <;> cases r <;> decide

end AArch64

/-! ### The reserved registers -/

variable {TReg : Type} [DecidableEq TReg]

omit [DecidableEq TReg] in
/-- The reserved general purpose registers are scratch registers of every function. -/
theorem CompiledFunction.Describes.reserved_mem {f : CompiledFunction TReg}
    {ctx : FrameContext TReg} (h : f.Describes ctx) {r : TReg}
    (hr : r ∈ f.abi.gpr.drop (f.abi.gpr.length - f.abi.resScratchRegsGPR)) : r ∈ ctx.gpr := by
  have hle := f.regs_valid.gpr_le
  rw [h.gpr_eq, StaticRegisters.scratchGPRs]
  refine List.drop_subset_drop_left _ ?_ hr
  rw [StaticRegisters.numStaticallyAllocatedGPRs]
  split <;> omega

omit [DecidableEq TReg] in
/-- The scratch registers are registers of the calling convention. -/
theorem CompiledFunction.Describes.mem_abi {f : CompiledFunction TReg}
    {ctx : FrameContext TReg} (h : f.Describes ctx) {r : TReg}
    (hr : r ∈ ctx.gpr ∨ r ∈ ctx.fpr) : r ∈ f.abi.gpr ∨ r ∈ f.abi.fpr := by
  rw [h.gpr_eq, h.fpr_eq] at hr
  exact hr.imp List.mem_of_mem_drop List.mem_of_mem_drop

end WasmCompiler
