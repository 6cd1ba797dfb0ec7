import WasmCompiler.BackendRegisters
import WasmCompiler.CompilerObject
import WasmCompiler.ForwardCode

/-!
# Trace Points

The builtin `TRACE_POINT` (`execBuiltinFncCall`) of the x86-64 and the AArch64 backend. The
identifier goes into a register that holds no variable, the frame is made larger, registers
that the shared handler needs are saved in the new part of the frame, the handler is called,
and everything is undone. The handler appends a record to the trace buffer of the host.

Stack slots are addressed relative to the stack pointer: `[SP + offset]` is the slot at the
frame position that lies `offset` bytes above the end of the frame.

## Main results

* `HandlerInstr.run_leaves`: the handler writes no cell but its registers.
* `execAll_saveRegs`, `execAll_restoreRegs`: what saving and restoring registers does.
-/

namespace WasmCompiler

open ForwardCode (Control run execAll Passes Traps)

variable {TReg : Type}

/-! ### The machine -/

/-- The machine, the words of the basedata that the code reads, and the memory of the host. -/
structure TracingMachine (TReg : Type) extends Machine TReg where
  /-- The operands of the last comparison were equal, or the result of a test was zero. -/
  zero : Bool
  /-- The first operand of the last comparison was below the second. -/
  below : Bool
  spillRegion : Word
  actualLinMemByteSize : BitVec 32
  stackFence : Word
  traceBufferPtr : Word
  /-- The address of the base of the frame. -/
  frameBaseAddress : Word
  hostMemory : Word → BitVec 32
  timeStampCounter : Word

namespace TracingMachine

/-- The address in the stack pointer. -/
def stackPointerAddress (m : TracingMachine TReg) : Word :=
  m.frameBaseAddress - m.stackPointer.toBitVec.setWidth 64

/-- The 64-bit value of a register. -/
def reg (m : TracingMachine TReg) (r : TReg) : Word := m.cells (.register r)

/-- The lower half of a register. -/
def reg32 (m : TracingMachine TReg) (r : TReg) : BitVec 32 := (m.reg r).setWidth 32

/-- Write a word to the memory of the host. -/
def storeHost (m : TracingMachine TReg) (address : Word) (value : BitVec 32) :
    TracingMachine TReg :=
  { m with hostMemory := Function.update m.hostMemory address value }

/-- Record a comparison of two words. -/
def compare {width : ℕ} (m : TracingMachine TReg) (a b : BitVec width) : TracingMachine TReg :=
  { m with
    zero := a = b
    below := a < b }

variable [DecidableEq TReg]

/-- Write a cell. -/
def setCell (m : TracingMachine TReg) (c : Cell TReg) (value : Word) : TracingMachine TReg :=
  { m with cells := Function.update m.cells c value }

/-- Write a register. -/
def setReg64 (m : TracingMachine TReg) (r : TReg) (value : Word) : TracingMachine TReg :=
  m.setCell (.register r) value

/-- A register holds what was written to it. -/
@[simp] theorem reg_setReg64 (m : TracingMachine TReg) (r : TReg) (value : Word) :
    (m.setReg64 r value).reg r = value :=
  Function.update_self _ _ _

/-- Write the lower half of a register; the upper half becomes zero. -/
def setReg32 (m : TracingMachine TReg) (r : TReg) (value : BitVec 32) : TracingMachine TReg :=
  m.setReg64 r (value.setWidth 64)

end TracingMachine

/-! ### The handler -/

/-- The instructions of the handler. Words of the trace buffer are at a displacement from a
register. -/
inductive HandlerInstr (TReg : Type) where
  | loadTraceBufferPtr (dst : TReg)
  /-- `TEST` of a register with itself. -/
  | test (reg : TReg)
  | loadWord (dst base : TReg) (disp : Word)
  /-- `LDP` of two words. -/
  | loadWordPair (dst1 dst2 base : TReg) (disp : Word)
  | compareWords (a b : TReg)
  | compareWithMemory (a base : TReg) (disp : Word)
  | storeWord (base : TReg) (disp : Word) (src : TReg)
  /-- The address has eight times an index register. -/
  | storeWordIndexed (base : TReg) (disp : Word) (index src : TReg)
  /-- `STP` of two words. -/
  | storeWordPair (base : TReg) (disp : Word) (src1 src2 : TReg)
  /-- Add one to the lower half. -/
  | increment (reg : TReg)
  /-- Add eight times the second operand. -/
  | addShifted (dst a b : TReg)
  /-- `RDTSC`, in two halves. -/
  | readTimeStampCounterHalves (low high : TReg)
  /-- `MRS` of `CNTVCT_EL0`. -/
  | readTimeStampCounter (dst : TReg)
  | memoryFence
  | jumpIfZero (count : ℕ)
  | jumpIfAboveOrEqual (count : ℕ)
  | jumpIfRegIsZero (reg : TReg) (count : ℕ)
  deriving DecidableEq, Repr

namespace HandlerInstr

/-- The registers an instruction writes. -/
def writes : HandlerInstr TReg → List TReg
  | loadTraceBufferPtr dst => [dst]
  | loadWord dst _ _ => [dst]
  | loadWordPair dst1 dst2 _ _ => [dst1, dst2]
  | increment reg => [reg]
  | addShifted dst _ _ => [dst]
  | readTimeStampCounterHalves low high => [low, high]
  | readTimeStampCounter dst => [dst]
  | _ => []

variable [DecidableEq TReg]

/-- Execute one instruction of the handler. -/
def exec (i : HandlerInstr TReg) (m : TracingMachine TReg) :
    Control TrapCode × TracingMachine TReg :=
  match i with
  | loadTraceBufferPtr dst => (.next, m.setReg64 dst m.traceBufferPtr)
  | test reg =>
      (.next, { m with
        zero := m.reg reg = 0
        below := false })
  | loadWord dst base disp => (.next, m.setReg32 dst (m.hostMemory (m.reg base + disp)))
  | loadWordPair dst1 dst2 base disp =>
      let address := m.reg base + disp
      (.next, (m.setReg32 dst1 (m.hostMemory address)).setReg32 dst2 (m.hostMemory (address + 4)))
  | compareWords a b => (.next, m.compare (m.reg32 a) (m.reg32 b))
  | compareWithMemory a base disp =>
      (.next, m.compare (m.reg32 a) (m.hostMemory (m.reg base + disp)))
  | storeWord base disp src => (.next, m.storeHost (m.reg base + disp) (m.reg32 src))
  | storeWordIndexed base disp index src =>
      (.next, m.storeHost (m.reg base + (m.reg index <<< 3) + disp) (m.reg32 src))
  | storeWordPair base disp src1 src2 =>
      let address := m.reg base + disp
      (.next, (m.storeHost address (m.reg32 src1)).storeHost (address + 4) (m.reg32 src2))
  | increment reg => (.next, m.setReg32 reg (m.reg32 reg + 1))
  | addShifted dst a b => (.next, m.setReg64 dst (m.reg a + (m.reg b <<< 3)))
  | readTimeStampCounterHalves low high =>
      (.next, (m.setReg32 low (m.timeStampCounter.setWidth 32)).setReg32 high
        ((m.timeStampCounter >>> 32).setWidth 32))
  | readTimeStampCounter dst => (.next, m.setReg64 dst m.timeStampCounter)
  | memoryFence => (.next, m)
  | jumpIfZero count => (if m.zero then .skip count else .next, m)
  | jumpIfAboveOrEqual count => (if m.below then .next else .skip count, m)
  | jumpIfRegIsZero reg count => (if m.reg reg = 0 then .skip count else .next, m)

end HandlerInstr

/-- The handler of x86-64. The identifier is in `moveHelper`. -/
def X86_64.builtinTracePointHandler : List (HandlerInstr X86_64.REG) :=
  [.readTimeStampCounterHalves .A .D,
    .loadTraceBufferPtr .D,
    .test .D,
    .jumpIfZero 8,
    .loadWord .C .D (-4),
    .compareWithMemory .C .D (-8),
    .jumpIfAboveOrEqual 5,
    .storeWordIndexed .D 0 .C .A,
    .storeWordIndexed .D 4 .C X86_64.moveHelper,
    .increment .C,
    .storeWord .D (-4) .C,
    .memoryFence]

namespace AArch64

/-- `tmpReg1`. -/
def tmpReg1 : REG := .R11

/-- `tmpReg2`. -/
def tmpReg2 : REG := .R10

/-- `tmpReg3`. -/
def tmpReg3 : REG := .R9

/-- `TempRegManager::getTempGPR`, when it is called for the first time: `memSize` or
`landingPadHelper`, which are the same register. -/
def tempGPR : REG := .R27

/-- The handler of AArch64. The identifier is in `tempGPR`. -/
def builtinTracePointHandler : List (HandlerInstr REG) :=
  [.loadTraceBufferPtr tmpReg1,
    .jumpIfRegIsZero tmpReg1 9,
    .loadWordPair tmpReg2 tmpReg3 tmpReg1 (-8),
    .compareWords tmpReg3 tmpReg2,
    .jumpIfAboveOrEqual 6,
    .increment tmpReg3,
    .storeWord tmpReg1 (-4) tmpReg3,
    .readTimeStampCounter tmpReg2,
    .addShifted tmpReg3 tmpReg1 tmpReg3,
    .storeWordPair tmpReg3 (-8) tmpReg2 tempGPR,
    .memoryFence]

end AArch64

/-! ### The code of a trace point -/

/-- The instructions around the call of the handler. -/
inductive TraceInstr (TReg : Type) where
  /-- A move between storages, or a change of the stack pointer. -/
  | common (i : MachineInstr TReg)
  | storeToStack (offset : UInt32) (src : TReg)
  | loadFromStack (dst : TReg) (offset : UInt32)
  /-- `CALL`: the return address is pushed. -/
  | call (returnAddress : Word)
  /-- `BL`: the return address is in a register. -/
  | branchLink (lr : TReg) (returnAddress : Word)
  | compareStackPointerWithFence
  | loadStackFence (dst : TReg)
  | compareStackPointer (fence : TReg)
  | jumpIfAboveOrEqual (count : ℕ)
  | trap (trapCode : TrapCode)
  | storeSpillRegion (src : TReg)
  | loadSpillRegion (dst : TReg)
  | loadActualLinMemByteSize (dst : TReg)
  | subImm (dst : TReg) (imm : Word)
  deriving DecidableEq, Repr

namespace TraceInstr

variable [DecidableEq TReg]

/-- Execute one instruction. -/
def exec (handler : List (HandlerInstr TReg)) (i : TraceInstr TReg) (m : TracingMachine TReg) :
    Control TrapCode × TracingMachine TReg :=
  match i with
  | common i => (.next, { m with toMachine := m.toMachine.exec i })
  | storeToStack offset src =>
      (.next, m.setCell (.stackMemory (m.stackPointer - offset)) (m.reg src))
  | loadFromStack dst offset =>
      (.next, m.setReg64 dst (m.cells (.stackMemory (m.stackPointer - offset))))
  | call returnAddress =>
      let pushed := m.setCell (.stackMemory (m.stackPointer + 8)) returnAddress
      match run HandlerInstr.exec 0 handler pushed with
      | .ok m' => (.next, m')
      | .error trapCode => (.trap trapCode, pushed)
  | branchLink lr returnAddress =>
      let linked := m.setReg64 lr returnAddress
      match run HandlerInstr.exec 0 handler linked with
      | .ok m' => (.next, m')
      | .error trapCode => (.trap trapCode, linked)
  | compareStackPointerWithFence => (.next, m.compare m.stackPointerAddress m.stackFence)
  | loadStackFence dst => (.next, m.setReg64 dst m.stackFence)
  | compareStackPointer fence => (.next, m.compare m.stackPointerAddress (m.reg fence))
  | jumpIfAboveOrEqual count => (if m.below then .next else .skip count, m)
  | trap trapCode => (.trap trapCode, m)
  | storeSpillRegion src => (.next, { m with spillRegion := m.reg src })
  | loadSpillRegion dst => (.next, m.setReg64 dst m.spillRegion)
  | loadActualLinMemByteSize dst => (.next, m.setReg32 dst m.actualLinMemByteSize)
  | subImm dst imm => (.next, m.setReg64 dst (m.reg dst - imm))

end TraceInstr

/-- Move the identifier to a register; an element without a storage is not possible. -/
def emitIdentifier (stackFrameSize : UInt32) (dst src : VariableStorage TReg)
    [DecidableEq TReg] : Option (List (TraceInstr TReg)) :=
  match src.location with
  | .invalid => none
  | _ => some ((emitMove stackFrameSize dst src).map .common)

/-- Save registers at offsets from the stack pointer. -/
def saveRegs (saved : List (UInt32 × TReg)) : List (TraceInstr TReg) :=
  saved.map fun s => .storeToStack s.1 s.2

/-- Load the registers again. -/
def restoreRegs (saved : List (UInt32 × TReg)) : List (TraceInstr TReg) :=
  saved.map fun s => .loadFromStack s.2 s.1

namespace X86_64

/-- `Assembler::checkStackFence`. -/
def checkStackFence : List (TraceInstr REG) :=
  [.compareStackPointerWithFence, .jumpIfAboveOrEqual 1, .trap .stackFenceBreached]

/-- `updateStackFrameSizeHelper`, with the largest size that has been checked. -/
def updateStackFrameSizeHelper (cfg : BackendConfig) (st : CompilerState REG)
    (checkedStackFrameSize newAlignedStackFrameSize : UInt32) :
    Option (CompilerState REG × UInt32 × List (TraceInstr REG)) :=
  (setStackFrameSize st newAlignedStackFrameSize false).map fun (st, code) =>
    if cfg.activeStackOverflowCheck ∧ checkedStackFrameSize < newAlignedStackFrameSize then
      (st, newAlignedStackFrameSize, code.map .common ++ checkStackFence)
    else (st, checkedStackFrameSize, code.map .common)

/-- `savedRegs`, with the offsets they are saved at: the first is saved at offset 8. -/
def savedRegs (st : CompilerState REG) : List (UInt32 × REG) :=
  match [REG.A, .D, .C].filter fun r => !st.unreferenced r with
  | [] => []
  | [r1] => [(8, r1)]
  | [r1, r2] => [(8, r1), (16, r2)]
  | r1 :: r2 :: r3 :: _ => [(8, r1), (16, r2), (24, r3)]

/-- The code of `TRACE_POINT`; the identifier is the topmost element of the stack. -/
def emitTracePoint (cfg : BackendConfig) (ctx : FrameContext REG) (st : CompilerState REG)
    (checkedStackFrameSize : UInt32) (returnAddress : Word) :
    Option (List (TraceInstr REG)) := do
  let identifierElement ← st.stack.getLast?
  let identifierStorage := ctx.getStorage identifierElement
  let identifier ← emitIdentifier st.stackFrameSize (.reg .f32 moveHelper)
    ⟨.f32, identifierStorage.location⟩
  let st := { st with stack := st.stack.dropLast }
  let origStackFrameSize := st.stackFrameSize
  let saved := savedRegs st
  let (st, checkedStackFrameSize, grow) ← updateStackFrameSizeHelper cfg st
    checkedStackFrameSize
    (ctx.alignStackFrameSize (origStackFrameSize + 8 * UInt32.ofNat saved.length))
  let (_, _, shrink) ← updateStackFrameSizeHelper cfg st checkedStackFrameSize
    origStackFrameSize
  let call := saveRegs saved ++ ([.call returnAddress] ++ restoreRegs saved.reverse)
  return identifier ++ (grow ++ (call ++ shrink))

end X86_64

namespace AArch64

/-- `Assembler::checkStackFence`. -/
def checkStackFenceWith (scratchReg : REG) : List (TraceInstr REG) :=
  [.loadStackFence scratchReg, .compareStackPointer scratchReg, .jumpIfAboveOrEqual 1,
    .trap .stackFenceBreached]

/-- `Backend::checkStackFence` where the flags need not be kept. -/
def checkStackFence (cfg : BackendConfig) (ctx : FrameContext REG) (st : CompilerState REG)
    (checkedStackFrameSize newAlignedStackFrameSize : UInt32) (protRegs : RegMask REG) :
    List (TraceInstr REG) :=
  if cfg.activeStackOverflowCheck ∧ checkedStackFrameSize < newAlignedStackFrameSize then
    match reqFreeScratchRegProt ctx st .i32 protRegs with
    | some scratchReg => checkStackFenceWith scratchReg
    | none => [.storeSpillRegion .R9] ++ (checkStackFenceWith .R9 ++ [.loadSpillRegion .R9])
  else []

/-- `needPushTempReg1And2ToStack`. -/
def needPushTempReg1And2ToStack (st : CompilerState REG) : Bool :=
  !st.unreferenced tmpReg1 || !st.unreferenced tmpReg2

/-- The saved registers and the offsets they are saved at, `tmpReg1And2Offset` and
`tmpReg3And4Offset`. -/
def savedRegs (st : CompilerState REG) : List (UInt32 × REG) :=
  (if needPushTempReg1And2ToStack st then [(32, tmpReg1), (40, tmpReg2)] else []) ++
    [(16, tmpReg3), (24, .LR)]

/-- `TempRegManager::recoverTempGPRs` for the first temporary register, with
`setupMemSizeReg`. -/
def recoverTempGPRs (cfg : BackendConfig) : List (TraceInstr REG) :=
  if cfg.linearMemoryBoundsChecks then [.loadActualLinMemByteSize memSize, .subImm memSize 8]
  else []

/-- The code of `TRACE_POINT`; the identifier is the topmost element of the stack. -/
def emitTracePoint (cfg : BackendConfig) (ctx : FrameContext REG) (st : CompilerState REG)
    (checkedStackFrameSize : UInt32) (returnAddress : Word) :
    Option (List (TraceInstr REG)) := do
  let identifierElement ← st.stack.getLast?
  let identifierStorage := ctx.getStorage identifierElement
  let identifier ← emitIdentifier st.stackFrameSize (.reg .i32 tempGPR)
    ⟨.i32, identifierStorage.location⟩
  let st := { st with stack := st.stack.dropLast }
  let origStackFrameSize := st.stackFrameSize
  let saved := savedRegs st
  let newAlignedSize := ctx.alignStackFrameSize (origStackFrameSize + 32)
  let (st, grow) ← setStackFrameSize st newAlignedSize false
  let check := checkStackFence cfg ctx st checkedStackFrameSize newAlignedSize (.mask tempGPR)
  let (_, shrink) ← setStackFrameSize st origStackFrameSize false
  let call := saveRegs saved ++ ([.branchLink .LR returnAddress] ++ restoreRegs saved)
  return identifier ++ (grow.map .common ++ (check ++ (call ++ (shrink.map .common ++
    recoverTempGPRs cfg))))

end AArch64

/-! ### What code leaves alone -/

/-- Execution changed no cell but the given ones, and none of the words that the code reads. -/
structure TracingMachine.Leaves (clobbered : Cell TReg → Prop) (m m' : TracingMachine TReg) :
    Prop where
  cells : ∀ c, ¬ clobbered c → m'.cells c = m.cells c
  stackPointer : m'.stackPointer = m.stackPointer
  stackFence : m'.stackFence = m.stackFence
  frameBaseAddress : m'.frameBaseAddress = m.frameBaseAddress
  actualLinMemByteSize : m'.actualLinMemByteSize = m.actualLinMemByteSize

/-- The cells of registers. -/
def OfRegs (regs : List TReg) (c : Cell TReg) : Prop := ∃ r ∈ regs, c = .register r

namespace TracingMachine.Leaves

variable {clobbered clobbered' : Cell TReg → Prop} {m m' m'' : TracingMachine TReg}

/-- Nothing changes. -/
theorem refl (clobbered : Cell TReg → Prop) (m : TracingMachine TReg) : Leaves clobbered m m :=
  ⟨fun _ _ => rfl, rfl, rfl, rfl, rfl⟩

/-- One piece of code behind another. -/
theorem trans (h : Leaves clobbered m m') (h' : Leaves clobbered m' m'') :
    Leaves clobbered m m'' where
  cells c hc := (h'.cells c hc).trans (h.cells c hc)
  stackPointer := h'.stackPointer.trans h.stackPointer
  stackFence := h'.stackFence.trans h.stackFence
  frameBaseAddress := h'.frameBaseAddress.trans h.frameBaseAddress
  actualLinMemByteSize := h'.actualLinMemByteSize.trans h.actualLinMemByteSize

/-- More cells may be given. -/
theorem mono (h : Leaves clobbered m m') (himp : ∀ c, clobbered c → clobbered' c) :
    Leaves clobbered' m m' :=
  { h with cells := fun c hc => h.cells c fun hclobbered => hc (himp c hclobbered) }

variable [DecidableEq TReg]

/-- Writing a cell. -/
theorem setCell (m : TracingMachine TReg) (c : Cell TReg) (value : Word) :
    Leaves (· = c) m (m.setCell c value) :=
  ⟨fun _ hd => Function.update_of_ne hd _ _, rfl, rfl, rfl, rfl⟩

/-- Writing a register. -/
theorem setReg64 (m : TracingMachine TReg) (r : TReg) (value : Word) :
    Leaves (OfRegs [r]) m (m.setReg64 r value) :=
  (setCell m (.register r) value).mono fun _ hc => ⟨r, by simp, hc⟩

end TracingMachine.Leaves

namespace HandlerInstr

variable [DecidableEq TReg]

/-- An instruction of the handler writes its registers. -/
theorem exec_leaves (i : HandlerInstr TReg) (m : TracingMachine TReg) :
    (m.Leaves (OfRegs i.writes) (exec i m).2) := by
  cases i with
  | loadTraceBufferPtr dst => exact .setReg64 m dst _
  | loadWord dst base disp => exact .setReg64 m dst _
  | increment reg => exact .setReg64 m reg _
  | addShifted dst a b => exact .setReg64 m dst _
  | readTimeStampCounter dst => exact .setReg64 m dst _
  | loadWordPair dst1 dst2 base disp =>
      refine .trans ((TracingMachine.Leaves.setReg64 m dst1 _).mono ?_)
        ((TracingMachine.Leaves.setReg64 _ dst2 _).mono ?_)
      · rintro c ⟨r, hr, rfl⟩
        exact ⟨r, by simp_all [writes], rfl⟩
      · rintro c ⟨r, hr, rfl⟩
        exact ⟨r, by simp_all [writes], rfl⟩
  | readTimeStampCounterHalves low high =>
      refine .trans ((TracingMachine.Leaves.setReg64 m low _).mono ?_)
        ((TracingMachine.Leaves.setReg64 _ high _).mono ?_)
      · rintro c ⟨r, hr, rfl⟩
        exact ⟨r, by simp_all [writes], rfl⟩
      · rintro c ⟨r, hr, rfl⟩
        exact ⟨r, by simp_all [writes], rfl⟩
  | test reg => exact ⟨fun _ _ => rfl, rfl, rfl, rfl, rfl⟩
  | compareWords a b => exact ⟨fun _ _ => rfl, rfl, rfl, rfl, rfl⟩
  | compareWithMemory a base disp => exact ⟨fun _ _ => rfl, rfl, rfl, rfl, rfl⟩
  | storeWord base disp src => exact ⟨fun _ _ => rfl, rfl, rfl, rfl, rfl⟩
  | storeWordIndexed base disp index src => exact ⟨fun _ _ => rfl, rfl, rfl, rfl, rfl⟩
  | storeWordPair base disp src1 src2 => exact ⟨fun _ _ => rfl, rfl, rfl, rfl, rfl⟩
  | memoryFence => exact .refl _ m
  | jumpIfZero count => exact .refl _ m
  | jumpIfAboveOrEqual count => exact .refl _ m
  | jumpIfRegIsZero reg count => exact .refl _ m

/-- The handler does not trap. -/
theorem exec_ne_trap (i : HandlerInstr TReg) (m : TracingMachine TReg) (trapCode : TrapCode) :
    (exec i m).1 ≠ .trap trapCode := by
  cases i <;> simp only [exec, ne_eq, reduceCtorEq, not_false_eq_true] <;> split <;> simp

/-- **The handler** returns and writes no cell but its registers. -/
theorem run_leaves {handler : List (HandlerInstr TReg)} {regs : List TReg}
    (hwrites : ∀ i ∈ handler, ∀ r ∈ i.writes, r ∈ regs) (m : TracingMachine TReg) :
    ∃ m', run exec 0 handler m = .ok m' ∧ m.Leaves (OfRegs regs) m' := by
  obtain ⟨m', hrun⟩ := ForwardCode.run_isOk (fun i _ s t => exec_ne_trap i s t) 0 m
  refine ⟨m', hrun, ?_⟩
  refine ForwardCode.run_invariant (P := m.Leaves (OfRegs regs)) (fun i hi s hs => ?_)
    (.refl _ m) hrun
  refine hs.trans ((exec_leaves i s).mono ?_)
  rintro c ⟨r, hr, rfl⟩
  exact ⟨r, hwrites i hi r hr, rfl⟩

end HandlerInstr

/-! ### Saving and restoring registers -/

section SavedRegs

variable [DecidableEq TReg] (handler : List (HandlerInstr TReg))

/-- The slots at offsets from the end of the frame. -/
def SavedIn (stackPointer : UInt32) (saved : List (UInt32 × TReg)) (c : Cell TReg) : Prop :=
  ∃ s ∈ saved, c = .stackMemory (stackPointer - s.1)

omit [DecidableEq TReg] in
/-- Different offsets are different slots. -/
theorem slot_ne {stackPointer offset offset' : UInt32} (h : offset ≠ offset') :
    (Cell.stackMemory (stackPointer - offset) : Cell TReg) ≠
      .stackMemory (stackPointer - offset') := by
  intro heq
  have hsub := Cell.stackMemory.inj heq
  exact h (by grind)

/-- **Saving**: every register is in its slot, and nothing else is written. -/
theorem execAll_saveRegs {saved : List (UInt32 × TReg)} (hnodup : (saved.map Prod.fst).Nodup)
    (m : TracingMachine TReg) :
    m.Leaves (SavedIn m.stackPointer saved)
      (execAll (TraceInstr.exec handler) (saveRegs saved) m) ∧
    ∀ s ∈ saved, (execAll (TraceInstr.exec handler) (saveRegs saved) m).cells
      (.stackMemory (m.stackPointer - s.1)) = m.reg s.2 := by
  induction saved generalizing m with
  | nil => exact ⟨.refl _ m, by simp⟩
  | cons s saved ih =>
      obtain ⟨offset, src⟩ := s
      rw [List.map_cons, List.nodup_cons] at hnodup
      obtain ⟨hleaves, hsaved⟩ := ih hnodup.2
        (m.setCell (.stackMemory (m.stackPointer - offset)) (m.reg src))
      have hfirst := TracingMachine.Leaves.setCell m (.stackMemory (m.stackPointer - offset))
        (m.reg src)
      refine ⟨.trans (hfirst.mono ?_) (hleaves.mono ?_), fun t ht => ?_⟩
      · rintro c rfl
        exact ⟨_, List.mem_cons_self, rfl⟩
      · rintro c ⟨t, ht, rfl⟩
        exact ⟨t, List.mem_cons_of_mem _ ht, rfl⟩
      · rcases List.mem_cons.mp ht with rfl | ht
        · refine (hleaves.cells _ ?_).trans (Function.update_self _ _ _)
          rintro ⟨t, ht, heq⟩
          refine slot_ne (fun hoff => hnodup.1 ?_) heq
          exact hoff ▸ List.mem_map_of_mem ht
        · exact (hsaved t ht).trans (hfirst.cells (.register t.2) (by simp))

/-- **Restoring**: every register has what is in its slot, and nothing else is written. -/
theorem execAll_restoreRegs {saved : List (UInt32 × TReg)}
    (hnodup : (saved.map Prod.snd).Nodup) (m : TracingMachine TReg) :
    m.Leaves (OfRegs (saved.map Prod.snd))
      (execAll (TraceInstr.exec handler) (restoreRegs saved) m) ∧
    ∀ s ∈ saved, (execAll (TraceInstr.exec handler) (restoreRegs saved) m).reg s.2 =
      m.cells (.stackMemory (m.stackPointer - s.1)) := by
  induction saved generalizing m with
  | nil => exact ⟨.refl _ m, by simp⟩
  | cons s saved ih =>
      obtain ⟨offset, dst⟩ := s
      rw [List.map_cons, List.nodup_cons] at hnodup
      obtain ⟨hleaves, hrestored⟩ := ih hnodup.2
        (m.setReg64 dst (m.cells (.stackMemory (m.stackPointer - offset))))
      have hfirst := TracingMachine.Leaves.setReg64 m dst
        (m.cells (.stackMemory (m.stackPointer - offset)))
      refine ⟨.trans (hfirst.mono ?_) (hleaves.mono ?_), fun t ht => ?_⟩
      · rintro c ⟨r, hr, rfl⟩
        exact ⟨r, by simp_all, rfl⟩
      · rintro c ⟨r, hr, rfl⟩
        exact ⟨r, List.mem_cons_of_mem _ hr, rfl⟩
      · rcases List.mem_cons.mp ht with rfl | ht
        · refine (hleaves.cells _ ?_).trans (Function.update_self _ _ _)
          rintro ⟨r, hr, heq⟩
          exact hnodup.1 (Cell.register.inj heq ▸ hr)
        · refine (hrestored t ht).trans (hfirst.cells (.stackMemory (m.stackPointer - t.1)) ?_)
          rintro ⟨r, -, heq⟩
          cases heq

/-- Code that saves registers is passed. -/
theorem passes_saveRegs (saved : List (UInt32 × TReg)) (m : TracingMachine TReg) :
    Passes (TraceInstr.exec handler) (saveRegs saved) m
      (execAll (TraceInstr.exec handler) (saveRegs saved) m) := by
  refine ForwardCode.passes_of_straight (fun i hi m => ?_) m
  obtain ⟨s, -, rfl⟩ := List.mem_map.mp hi
  rfl

/-- Code that restores registers is passed. -/
theorem passes_restoreRegs (saved : List (UInt32 × TReg)) (m : TracingMachine TReg) :
    Passes (TraceInstr.exec handler) (restoreRegs saved) m
      (execAll (TraceInstr.exec handler) (restoreRegs saved) m) := by
  refine ForwardCode.passes_of_straight (fun i hi m => ?_) m
  obtain ⟨s, -, rfl⟩ := List.mem_map.mp hi
  rfl

/-- What a call of the handler between saving and restoring registers does: the registers have
what they had, the slots have what the registers had. -/
structure Framed (saved : List (UInt32 × TReg)) (clobbered : Cell TReg → Prop)
    (m m' : TracingMachine TReg) : Prop where
  leaves : m.Leaves (fun c => clobbered c ∨ SavedIn m.stackPointer saved c ∨
    OfRegs (saved.map Prod.snd) c) m'
  restored : ∀ s ∈ saved, m'.reg s.2 = m.reg s.2
  slots : ∀ s ∈ saved, m'.cells (.stackMemory (m.stackPointer - s.1)) = m.reg s.2

/-- **A call between saving and restoring registers**, if the call does not write the slots. -/
theorem passes_savedCall (saved restored : List (UInt32 × TReg)) (call : TraceInstr TReg)
    (clobbered : Cell TReg → Prop) {m : TracingMachine TReg}
    (hoffsets : (saved.map Prod.fst).Nodup) (hregs : (restored.map Prod.snd).Nodup)
    (hsame : ∀ s, s ∈ restored ↔ s ∈ saved)
    (hcall : ∀ s, s.stackPointer = m.stackPointer →
      ∃ s', TraceInstr.exec handler call s = (.next, s') ∧ s.Leaves clobbered s')
    (hslots : ∀ s ∈ saved, ¬ clobbered (.stackMemory (m.stackPointer - s.1))) :
    ∃ m', Passes (TraceInstr.exec handler)
        (saveRegs saved ++ ([call] ++ restoreRegs restored)) m m' ∧
      Framed saved clobbered m m' := by
  obtain ⟨hsave, hsaved⟩ := execAll_saveRegs handler hoffsets m
  obtain ⟨m2, hexec, hleaves⟩ := hcall _ hsave.stackPointer
  obtain ⟨hrestore, hrestored⟩ := execAll_restoreRegs handler hregs m2
  have hsp : m2.stackPointer = m.stackPointer := hleaves.stackPointer.trans hsave.stackPointer
  refine ⟨_, (passes_saveRegs handler saved m).append
    ((ForwardCode.passes_singleton hexec).append (passes_restoreRegs handler restored m2)), ?_⟩
  have hslot : ∀ s ∈ saved, m2.cells (.stackMemory (m.stackPointer - s.1)) = m.reg s.2 :=
    fun s hs => (hleaves.cells _ (hslots s hs)).trans (hsaved s hs)
  refine ⟨.trans (hsave.mono fun c hc => .inr (.inl hc)) (.trans (hleaves.mono fun c hc => .inl hc)
    (hrestore.mono fun c hc => .inr (.inr ?_))), fun s hs => ?_, fun s hs => ?_⟩
  · obtain ⟨r, hr, rfl⟩ := hc
    obtain ⟨s, hs, rfl⟩ := List.mem_map.mp hr
    exact ⟨s.2, List.mem_map_of_mem ((hsame s).mp hs), rfl⟩
  · rw [hrestored s ((hsame s).mpr hs), hsp]
    exact hslot s hs
  · refine (hrestore.cells _ ?_).trans (hslot s hs)
    rintro ⟨r, -, heq⟩
    cases heq

end SavedRegs

/-! ### The stack pointer -/

/-- Only the stack pointer changed, and the flags. -/
structure TracingMachine.Resized (stackPointer : UInt32) (m m' : TracingMachine TReg) :
    Prop where
  cells : m'.cells = m.cells
  stackPointer : m'.stackPointer = stackPointer
  stackFence : m'.stackFence = m.stackFence
  actualLinMemByteSize : m'.actualLinMemByteSize = m.actualLinMemByteSize

section StackPointer

variable [DecidableEq TReg] (handler : List (HandlerInstr TReg))

/-- A new frame size, and the code that sets the stack pointer. -/
theorem passes_setStackFrameSize {st st' : CompilerState TReg} {frameSize : UInt32}
    {code : List (MachineInstr TReg)}
    (h : setStackFrameSize st frameSize false = some (st', code)) :
    st' = { st with stackFrameSize := frameSize } ∧
      ∀ m : TracingMachine TReg, m.stackPointer = st.stackFrameSize →
        ∃ m', Passes (TraceInstr.exec handler) (code.map .common) m m' ∧
          m.Resized frameSize m' := by
  simp only [setStackFrameSize, Bool.false_eq_true, if_false] at h
  split at h
  · case _ heq =>
      obtain ⟨rfl, rfl⟩ := Prod.mk.inj (Option.some.inj h)
      exact ⟨by rw [← heq], fun m hm => ⟨m, fun _ => rfl, rfl, hm.trans heq, rfl, rfl⟩⟩
  · split at h
    · cases h
    · obtain ⟨rfl, rfl⟩ := Prod.mk.inj (Option.some.inj h)
      refine ⟨rfl, fun m hm => ⟨_, ForwardCode.passes_singleton rfl, rfl, ?_, rfl, rfl⟩⟩
      change m.stackPointer + (frameSize - st.stackFrameSize) = frameSize
      rw [hm]
      grind

/-- The identifier is moved. -/
theorem passes_emitIdentifier {stackFrameSize : UInt32} {dst : TReg} {type : MachineType}
    {src : VariableStorage TReg} {code : List (TraceInstr TReg)}
    (h : emitIdentifier stackFrameSize (.reg type dst) src = some code)
    (m : TracingMachine TReg) (hm : m.stackPointer = stackFrameSize) :
    ∃ m', Passes (TraceInstr.exec handler) code m m' ∧ m.Leaves (OfRegs [dst]) m' := by
  obtain rfl : (emitMove stackFrameSize (.reg type dst) src).map TraceInstr.common = code := by
    rw [emitIdentifier] at h
    split at h
    · cases h
    · exact Option.some.inj h
  rw [emitMove]
  split
  · exact ⟨m, fun _ => rfl, .refl _ m⟩
  · have hexec := Machine.exec_move hm (.reg type dst) src
    refine ⟨_, ForwardCode.passes_singleton rfl, fun c hc => ?_, ?_, rfl, rfl, rfl⟩
    · simp only [hexec]
      refine VariableStorage.assign_of_ne ?_ _ _
      intro heq
      exact hc ⟨dst, by simp, (Option.some.inj heq).symm⟩
    · simp only [hexec]

end StackPointer

end WasmCompiler
