import WasmCompiler.CompilerFrame
import WasmCompiler.InductiveAssertions

/-!
# Stack Checks

With active stack overflow checks the compiler keeps the largest frame size whose check it
has emitted (`checkedStackFrameSize`) and checks again only when the frame grows beyond it.
The size is a single mutable field; branches merge it into the end state of their target
(`Common::emitBranchDivergePoint`), the end of a block sets it from there
(`Common::emitBranchMergePoint`). This module models the parts of the front end and of the
backends that move the stack pointer, check it or branch, for a function compiled
instruction by instruction.

Of the emitted code the instructions that concern the frame are kept. An instruction carries
the compile-time state at the point where it was emitted, so that it can be compared with
what a run has checked when it gets there. On x86-64 the branch on a floating point
comparison takes two conditional jumps; they go where the single one of the model goes.

## Main definitions

* `compileInstruction`: the effect of one WebAssembly instruction on the state and the code.
* `StackChecked`: in every run of a compiled function, the frame is checked where it is used
  and the compile-time size is covered by the checks of the run.
* `StepMeets`: the steps that keep that so.
-/

namespace WasmCompiler

/-! ### The state of the compiler -/

/-- What is known of every path to the current position. -/
structure ControlFlowState where
  checkedStackFrameSize : ℕ
  deriving DecidableEq, Repr

/-- The state of a block nothing branches to (`UINT32_MAX`). -/
def ControlFlowState.unvisited : ControlFlowState := ⟨UInt32.size - 1⟩

/-- `mergeControlFlowState`. -/
def mergeControlFlowState (a b : ControlFlowState) : ControlFlowState where
  checkedStackFrameSize :=
    if a.checkedStackFrameSize < b.checkedStackFrameSize then a.checkedStackFrameSize
    else b.checkedStackFrameSize

/-- The `StackType` of an open block; an `IFBLOCK` lies inside the `BLOCK` that ends with the
`else` branch. -/
inductive StackType where
  | BLOCK | LOOP | IFBLOCK
  deriving DecidableEq, Repr

/-- `BlockInfo`: an open block. The label stands for the branches to the block, which a loop
links to its start and the others to their end. -/
structure BlockInfo where
  type : StackType
  label : ℕ
  entryStackFrameSize : ℕ
  endState : ControlFlowState
  blockUnreachable : Bool
  deriving DecidableEq, Repr

/-- The part of `ModuleInfo` that the checks depend on, the innermost block first. -/
structure FunctionState where
  stackFrameSize : ℕ
  currentState : ControlFlowState
  blocks : List BlockInfo
  unreachable : Bool
  nextLabel : ℕ
  properlyTerminated : Bool
  deriving DecidableEq, Repr

/-- Whether the frame of the innermost block is unreachable, or that of the function. -/
def frameUnreachable (unreachable : Bool) : List BlockInfo → Bool
  | [] => unreachable
  | b :: _ => b.blockUnreachable

namespace FunctionState

/-- `Frontend::currentFrameIsUnreachable`. -/
def currentFrameIsUnreachable (fs : FunctionState) : Bool :=
  frameUnreachable fs.unreachable fs.blocks

/-- `Frontend::setCurrentFrameFormallyUnreachable`. -/
def setCurrentFrameFormallyUnreachable (fs : FunctionState) : FunctionState :=
  match fs.blocks with
  | [] => { fs with unreachable := true }
  | b :: rest => { fs with blocks := { b with blockUnreachable := true } :: rest }

end FunctionState

/-- The inner block of an `if` is not a target of its own. -/
def skipIfBlock : List BlockInfo → List BlockInfo
  | [] => []
  | b :: rest => if b.type = .IFBLOCK then rest else b :: rest

/-- `Frontend::findTargetBlock`: the open blocks from the target on, none left for the
function. -/
def findTargetBlock (blocks : List BlockInfo) : ℕ → Option (List BlockInfo)
  | 0 => some (skipIfBlock blocks)
  | depth + 1 =>
      match findTargetBlock blocks depth with
      | some (_ :: rest) => some (skipIfBlock rest)
      | _ => none

/-! ### Emitted code -/

/-- The instructions that concern the frame. -/
inductive FrameInstr where
  | addToSP (delta : ℤ)
  | checkStackFence
  | useFrame
  | jump (target : ℕ)
  | jumpIf (target : ℕ)
  | jumpTable (targets : List ℕ)
  | label (l : ℕ)
  | leave
  deriving DecidableEq, Repr

/-- An emitted instruction, with the compile-time state in front of it. -/
structure FrameEmission where
  instr : FrameInstr
  state : ControlFlowState
  isReachable : Bool
  deriving DecidableEq, Repr

/-- What a run has done to the stack: the size the frame has been lowered to and the largest
one that was checked. -/
structure FrameMachine where
  frame : ℤ
  checked : ℤ

/-- What the instructions do. A check that fails traps, so that the run goes on only with a
frame that was found in range. -/
def frameSemantics : JumpSemantics FrameEmission FrameMachine where
  label? e :=
    match e.instr with
    | .label l => some l
    | _ => none
  falls e m m' :=
    match e.instr with
    | .addToSP delta => m' = { m with frame := m.frame - delta }
    | .checkStackFence => m' = { m with checked := max m.checked m.frame }
    | .useFrame | .jumpIf _ | .label _ => m' = m
    | .jump _ | .jumpTable _ | .leave => False
  jumps e l m m' :=
    match e.instr with
    | .jump target | .jumpIf target => l = target ∧ m' = m
    | .jumpTable targets => l ∈ targets ∧ m' = m
    | _ => False

/-- What the check is for: where the frame is used its size has been checked, and what the
compiler takes to be checked has been. -/
structure FrameEmission.Safe (e : FrameEmission) (m : FrameMachine) : Prop where
  use : e.instr = .useFrame → m.frame ≤ m.checked
  checked : e.isReachable = true → (e.state.checkedStackFrameSize : ℤ) ≤ m.checked

/-! ### Compiling -/

/-- A part of the compiler: it changes the state and emits code, or rejects the module. -/
abbrev FrameCompiler := FunctionState → Option (FunctionState × List FrameEmission)

/-- An instruction emitted in a state. -/
def FunctionState.emission (fs : FunctionState) (instr : FrameInstr) : FrameEmission :=
  ⟨instr, fs.currentState, !fs.currentFrameIsUnreachable⟩

namespace FrameCompiler

/-- Nothing. -/
def nothing : FrameCompiler := fun fs => some (fs, [])

/-- A change of the state. -/
def modifyState (f : FunctionState → FunctionState) : FrameCompiler := fun fs => some (f fs, [])

/-- Instructions. -/
def emit (instrs : List FrameInstr) : FrameCompiler :=
  fun fs => some (fs, instrs.map fs.emission)

/-- One part after the other. -/
def andThen (f g : FrameCompiler) : FrameCompiler := fun fs =>
  (f fs).bind fun r => (g r.1).map fun r' => (r'.1, r.2 ++ r'.2)

/-- A part that depends on the state. -/
def withState (f : FunctionState → FrameCompiler) : FrameCompiler := fun fs => f fs fs

end FrameCompiler

open FrameCompiler

/-- `Assembler::setStackFrameSize`. -/
def FunctionState.setStackFrameSize (frameSize : ℕ) (temporary : Bool) : FrameCompiler :=
  fun fs =>
    if fs.stackFrameSize = frameSize then some (fs, [])
    else if maxStackFrameSize.toNat < frameSize then none
    else
      some (if temporary then fs else { fs with stackFrameSize := frameSize },
        [fs.emission (.addToSP (fs.stackFrameSize - frameSize))])

/-- `checkStackFence`: a check, unless the size has been checked. -/
def FunctionState.checkStackFence (newAlignedStackFrameSize : ℕ) : FrameCompiler := fun fs =>
  if fs.currentState.checkedStackFrameSize < newAlignedStackFrameSize then
    some ({ fs with currentState := ⟨newAlignedStackFrameSize⟩ },
      [fs.emission .checkStackFence])
  else some (fs, [])

/-- `Backend::updateStackFrameSizeHelper`. -/
def updateStackFrameSizeHelper (newAlignedStackFrameSize : ℕ) : FrameCompiler :=
  (FunctionState.setStackFrameSize newAlignedStackFrameSize false).andThen
    (FunctionState.checkStackFence newAlignedStackFrameSize)

/-- What `Backend::reqSpillTarget` does to the frame when it takes a new slot: the frame grows
when the slot, and so the size that is aligned up from it, lies beyond it. -/
def growStackFrame (newAlignedStackFrameSize : ℕ) : FrameCompiler := fun fs =>
  if fs.stackFrameSize < newAlignedStackFrameSize then
    updateStackFrameSizeHelper newAlignedStackFrameSize fs
  else some (fs, [])

/-- Slots requested one after the other. -/
def growStackFrames : List ℕ → FrameCompiler
  | [] => nothing
  | n :: rest => (growStackFrame n).andThen (growStackFrames rest)

/-- `Common::emitBranchMergePoint`. -/
def emitBranchMergePoint (isReachable : Bool) (finishedBlock : BlockInfo)
    (fs : FunctionState) : FunctionState :=
  { fs with currentState :=
      if isReachable then mergeControlFlowState fs.currentState finishedBlock.endState
      else finishedBlock.endState }

/-- The end state of the block with a label, merged with the state of a branch to it. -/
def mergeEndState (label : ℕ) (state : ControlFlowState) (b : BlockInfo) : BlockInfo :=
  if b.label = label then { b with endState := mergeControlFlowState b.endState state } else b

/-- `Common::emitBranchDivergePoint` for one target (`mergeStateAtBranchDivergePoint`). -/
def emitBranchDivergePoint (isReachable : Bool) (targetBlock : Option BlockInfo)
    (fs : FunctionState) : FunctionState :=
  match targetBlock with
  | none => fs
  | some target =>
      if isReachable && (target.type != .LOOP) then
        { fs with blocks := fs.blocks.map (mergeEndState target.label fs.currentState) }
      else fs

/-- `Backend::emitBranch`, to an open block or to the function. -/
def emitBranch (target : Option BlockInfo) (conditional : Bool) : FrameCompiler :=
  withState fun fs =>
    let skip := fs.nextLabel
    let newLabel := modifyState fun fs => { fs with nextLabel := fs.nextLabel + 1 }
    match target, conditional with
    | none, false => emit [.leave]
    | none, true => newLabel.andThen (emit [.jumpIf skip, .leave, .label skip])
    | some block, false =>
        (FunctionState.setStackFrameSize block.entryStackFrameSize true).andThen
          (emit [.jump block.label])
    | some block, true =>
        if fs.stackFrameSize = block.entryStackFrameSize then emit [.jumpIf block.label]
        else
          newLabel.andThen ((emit [.jumpIf skip]).andThen
            ((FunctionState.setStackFrameSize block.entryStackFrameSize true).andThen
              (emit [.jump block.label, .label skip])))

/-- `Backend::finalizeBlock`. -/
def finalizeBlock (block : BlockInfo) : FrameCompiler :=
  match block.type with
  | .LOOP => nothing
  | .BLOCK | .IFBLOCK =>
      (FunctionState.setStackFrameSize block.entryStackFrameSize false).andThen
        (emit [.label block.label])

/-- The innermost block is closed. -/
def popBlock : FrameCompiler := modifyState fun fs => { fs with blocks := fs.blocks.tail }

/-- A block that ends (`OPCode::END`): the states are merged, then it is finalized. -/
def endBlock : FrameCompiler :=
  withState fun fs =>
    match fs.blocks with
    | [] => fun _ => none
    | lastBlock :: _ =>
        (modifyState (emitBranchMergePoint (!fs.currentFrameIsUnreachable) lastBlock)).andThen
          ((finalizeBlock lastBlock).andThen popBlock)

/-- A block that is opened. -/
def pushBlock (type : StackType) (unreachable : Bool) : FrameCompiler :=
  modifyState fun fs =>
    { fs with
      blocks :=
        ⟨type, fs.nextLabel, fs.stackFrameSize, .unvisited, unreachable⟩ :: fs.blocks
      nextLabel := fs.nextLabel + 1 }

/-- The stubs of a branch table: each loads the operands for its target and branches. -/
def tableStubs : ℕ → List (Option BlockInfo × List ℕ) → FrameCompiler
  | _, [] => nothing
  | l, (target, loads) :: rest =>
      (emit [.label l]).andThen ((growStackFrames loads).andThen
        ((emitBranch target false).andThen (tableStubs (l + 1) rest)))

/-- `Backend::executeTableBranch`: the slots its lifts take, then the stubs. -/
def executeTableBranch (lifts : List ℕ) (targets : List (Option BlockInfo × List ℕ)) :
    FrameCompiler :=
  (growStackFrames lifts).andThen <| withState fun fs =>
    (modifyState fun fs => { fs with nextLabel := fs.nextLabel + targets.length }).andThen
      ((emit [.jumpTable (List.range' fs.nextLabel targets.length)]).andThen
        (tableStubs fs.nextLabel targets))

/-- The call of the memory helper, in a frame of its own; there is none with bounds checks. -/
def callMemoryHelper : Option ℕ → FrameCompiler
  | none => nothing
  | some width => emit [.addToSP (-width), .checkStackFence, .useFrame, .addToSP width]

/-- `Backend::executeMemGrow`: after the addition a carry jumps to the error, the limit is
compared with, which on AArch64 may lift it, and the rest is emitted on the path of the
success only, where AArch64 requests one more register. -/
def executeMemGrow (compareLifts successRequests : List ℕ) (helperFrame : Option ℕ) :
    FrameCompiler :=
  withState fun fs =>
    let error := fs.nextLabel
    let noError := fs.nextLabel + 1
    let toEnd := fs.nextLabel + 2
    (modifyState fun fs => { fs with nextLabel := fs.nextLabel + 3 }).andThen <|
      (emit [.jumpIf error]).andThen <| (growStackFrames compareLifts).andThen <|
      (emit [.jumpIf noError, .label error, .jump toEnd, .label noError]).andThen <|
      (growStackFrames successRequests).andThen <|
      (callMemoryHelper helperFrame).andThen (emit [.label toEnd])

/-- The instructions of a function, as far as the frame is concerned. What is evaluated before
an instruction proper is a sequence of changes of the frame size and of uses; the operands of
an implicit `else` are the parameters the `if` has spilled, and loading them takes no slot. -/
inductive FrameOp where
  /-- A slot that is taken, stack results that are reserved, the frame of a call. -/
  | updateStackFrameSize (newAlignedStackFrameSize : ℕ)
  | useFrame
  /-- A return, a tail call or a trap. -/
  | leave
  | block
  /-- With the slots taken while the parameters are loaded, and whether any is stored in the
  frame, which happens in an unreachable frame as well. -/
  | loop (loads : List ℕ) (storesParams : Bool)
  /-- With the value of a condition that is a constant. -/
  | if_ (condition : Option Bool)
  | else_
  | end_ (blockHasReturnElement : Bool)
  | br (branchDepth : ℕ)
  | brIf (branchDepth : ℕ) (condition : Option Bool)
  | brTable (lifts : List ℕ) (branchDepths : List (ℕ × List ℕ))
  | memoryGrow (compareLifts successRequests : List ℕ) (helperFrame : Option ℕ)
  deriving Repr

/-- The rest of a frame can not be reached. -/
def setUnreachable : FrameCompiler := modifyState FunctionState.setCurrentFrameFormallyUnreachable

/-- Code that is emitted in a reachable frame only. -/
def whenReachable (f : FrameCompiler) : FrameCompiler :=
  withState fun fs => if fs.currentFrameIsUnreachable then nothing else f

/-- `Frontend::compileBR`. -/
def compileBR (branchDepth : ℕ) : FrameCompiler :=
  withState fun fs =>
    match findTargetBlock fs.blocks branchDepth with
    | none => fun _ => none
    | some targets =>
        (whenReachable ((modifyState (emitBranchDivergePoint true targets.head?)).andThen
          (emitBranch targets.head? false))).andThen setUnreachable

/-- One instruction (`Frontend::parseCodeSection`). -/
def compileInstruction : FrameOp → FrameCompiler
  | .updateStackFrameSize n => updateStackFrameSizeHelper n
  | .useFrame => whenReachable (emit [.useFrame])
  | .leave => (whenReachable (emit [.leave])).andThen setUnreachable
  | .block => withState fun fs => pushBlock .BLOCK fs.currentFrameIsUnreachable
  | .loop loads storesParams =>
      withState fun fs =>
        (growStackFrames loads).andThen <|
          (if storesParams then emit [.useFrame] else nothing).andThen <| withState fun loaded =>
          (emit [.label loaded.nextLabel]).andThen <| modifyState fun loaded =>
            { loaded with
              blocks := ⟨.LOOP, loaded.nextLabel, fs.stackFrameSize, .unvisited,
                fs.currentFrameIsUnreachable⟩ :: loaded.blocks
              nextLabel := loaded.nextLabel + 1 }
  | .if_ condition =>
      withState fun fs =>
        let originalFrameUnreachable := fs.currentFrameIsUnreachable
        (pushBlock .BLOCK (originalFrameUnreachable || condition == some true)).andThen <|
          (pushBlock .IFBLOCK (originalFrameUnreachable || condition == some false)).andThen <|
          withState fun opened =>
            let ifBlock := opened.blocks.head?
            (modifyState (emitBranchDivergePoint (!originalFrameUnreachable) ifBlock)).andThen <|
              if originalFrameUnreachable || condition.isSome then nothing
              else emitBranch ifBlock true
  | .else_ =>
      withState fun fs =>
        match fs.blocks with
        | ifBlock :: elseBlock :: _ =>
            if ifBlock.type = .IFBLOCK then
              let isReachable := !fs.currentFrameIsUnreachable
              (modifyState (emitBranchDivergePoint isReachable (some elseBlock))).andThen <|
                (modifyState (emitBranchMergePoint false ifBlock)).andThen <|
                (whenReachable (emitBranch (some elseBlock) false)).andThen <|
                (finalizeBlock ifBlock).andThen popBlock
            else fun _ => none
        | _ => fun _ => none
  | .end_ blockHasReturnElement =>
      withState fun fs =>
        match fs.blocks with
        | [] =>
            (whenReachable (emit [.leave])).andThen <| modifyState fun fs =>
              { fs with properlyTerminated := true }
        | lastBlock :: rest =>
            match lastBlock.type, rest with
            | .LOOP, _ => popBlock
            | .BLOCK, _ => endBlock
            | .IFBLOCK, [] => fun _ => none
            | .IFBLOCK, outerIfBlock :: _ =>
                (if blockHasReturnElement then
                    whenReachable (emitBranch (some outerIfBlock) false)
                  else nothing).andThen (endBlock.andThen endBlock)
  | .br branchDepth => compileBR branchDepth
  | .brIf branchDepth condition =>
      withState fun fs =>
        match findTargetBlock fs.blocks branchDepth with
        | none => fun _ => none
        | some targets =>
            whenReachable <|
              match condition with
              | some true => compileBR branchDepth
              | some false => nothing
              | none =>
                  (modifyState (emitBranchDivergePoint true targets.head?)).andThen
                    (emitBranch targets.head? true)
  | .brTable lifts branchDepths =>
      withState fun fs =>
        match branchDepths.mapM fun d =>
            (findTargetBlock fs.blocks d.1).map fun targets => (targets.head?, d.2) with
        | none => fun _ => none
        | some targets =>
            whenReachable <|
              (modifyState fun fs => targets.foldl
                (fun fs target => emitBranchDivergePoint true target.1 fs) fs).andThen
                ((executeTableBranch lifts targets).andThen setUnreachable)
  | .memoryGrow compareLifts successRequests helperFrame =>
      whenReachable (executeMemGrow compareLifts successRequests helperFrame)

/-- The instructions up to the end of the function. -/
def compileInstructions : List FrameOp → FrameCompiler
  | [] => nothing
  | op :: ops =>
      withState fun fs =>
        if fs.properlyTerminated then fun _ => none
        else (compileInstruction op).andThen (compileInstructions ops)

/-- `Backend::enteredFunction`: the frame for the locals is allocated and checked. -/
def enteredFunction (newStackFrameSize : ℕ) : FrameCompiler :=
  (FunctionState.setStackFrameSize newStackFrameSize false).andThen <|
    (emit [.checkStackFence]).andThen <| modifyState fun fs =>
      { fs with currentState := ⟨fs.stackFrameSize⟩ }

/-- The state before a function is entered: the frame holds the parameters and the return
address, nothing has been checked. -/
def FunctionState.initial (paramsAndReturnAddress : UInt32) : FunctionState where
  stackFrameSize := paramsAndReturnAddress.toNat
  currentState := ⟨0⟩
  blocks := []
  unreachable := false
  nextLabel := 0
  properlyTerminated := false

/-- A function that is entered and compiled up to some instruction. -/
def compileFunction (newStackFrameSize : ℕ) (ops : List FrameOp) : FrameCompiler :=
  (enteredFunction newStackFrameSize).andThen (compileInstructions ops)

/-! ### What is checked -/

/-- In every run of the code, every instruction that is reached is safe. -/
def StackChecked (paramsAndReturnAddress : UInt32) (newStackFrameSize : ℕ)
    (ops : List FrameOp) : Prop :=
  ∀ fs code, compileFunction newStackFrameSize ops (.initial paramsAndReturnAddress) =
    some (fs, code) →
    ∀ e rest m, frameSemantics.Reaches code (code, ⟨paramsAndReturnAddress.toNat, 0⟩)
      (e :: rest, m) → e.Safe m

/-- The size of the frame after slots up to the given sizes were taken. -/
def frameAfter (stackFrameSize : ℕ) (sizes : List ℕ) : ℕ := sizes.foldl max stackFrameSize

/-- An `if` without `else` may end: if its condition is a constant other than zero, so that
the path of the `else` is taken to be unreachable, the end state of the block around it does
not exceed the current one. -/
def EndMeets (currentState : ControlFlowState) : List BlockInfo → Prop
  | ifBlock :: outerIfBlock :: _ =>
      ifBlock.type = .IFBLOCK → ifBlock.blockUnreachable = false →
        outerIfBlock.blockUnreachable = true →
        outerIfBlock.endState.checkedStackFrameSize ≤ currentState.checkedStackFrameSize
  | _ => True

instance (currentState : ControlFlowState) :
    (blocks : List BlockInfo) → Decidable (EndMeets currentState blocks)
  | [] | [_] => inferInstanceAs (Decidable True)
  | _ :: _ :: _ => inferInstanceAs (Decidable (_ → _))

/-- The steps after which what the compiler knows is true of every path: the start of a loop,
the stubs of a branch table before the last one and the conditional parts of `memory.grow`
take no slot beyond the frame; in an unreachable frame, which a constant condition enters,
no loop stores parameters after a nested block has ended; and blocks may end. -/
def StepMeets (fs : FunctionState) : FrameOp → Prop
  | .loop loads storesParams =>
      (∀ n ∈ loads, n ≤ fs.stackFrameSize) ∧
        (fs.currentFrameIsUnreachable = true → storesParams = true →
          fs.currentState ≠ .unvisited)
  | .brTable lifts branchDepths =>
      fs.currentFrameIsUnreachable = false →
        ∀ d ∈ branchDepths.dropLast, ∀ n ∈ d.2, n ≤ frameAfter fs.stackFrameSize lifts
  | .memoryGrow compareLifts successRequests _ =>
      fs.currentFrameIsUnreachable = false →
        ∀ n ∈ compareLifts ++ successRequests, n ≤ fs.stackFrameSize
  | .end_ _ => EndMeets fs.currentState fs.blocks
  | .updateStackFrameSize _ | .useFrame | .leave | .block | .if_ _ | .else_ | .br _
  | .brIf _ _ => True

instance (fs : FunctionState) : (op : FrameOp) → Decidable (StepMeets fs op)
  | .loop _ _ => inferInstanceAs (Decidable (_ ∧ _))
  | .brTable _ _ | .memoryGrow _ _ _ => inferInstanceAs (Decidable (_ → _))
  | .end_ _ => inferInstanceAs (Decidable (EndMeets _ _))
  | .updateStackFrameSize _ | .useFrame | .leave | .block | .if_ _ | .else_ | .br _
  | .brIf _ _ => inferInstanceAs (Decidable True)

/-- The steps of the instructions meet the condition. -/
def StepsMeet (fs : FunctionState) : List FrameOp → Prop
  | [] => True
  | op :: ops =>
      StepMeets fs op ∧
        match compileInstruction op fs with
        | none => True
        | some (fs', _) => StepsMeet fs' ops

instance decidableStepsMeet : (fs : FunctionState) → (ops : List FrameOp) →
    Decidable (StepsMeet fs ops)
  | _, [] => inferInstanceAs (Decidable True)
  | fs, op :: ops =>
      have : Decidable (match compileInstruction op fs with
          | none => True
          | some (fs', _) => StepsMeet fs' ops) :=
        match compileInstruction op fs with
        | none => inferInstanceAs (Decidable True)
        | some (fs', _) => decidableStepsMeet fs' ops
      inferInstanceAs (Decidable (_ ∧ _))

/-- The steps of a function meet the condition. -/
def FunctionMeets (paramsAndReturnAddress : UInt32) (newStackFrameSize : ℕ)
    (ops : List FrameOp) : Prop :=
  match enteredFunction newStackFrameSize (.initial paramsAndReturnAddress) with
  | none => True
  | some (fs, _) => StepsMeet fs ops

instance (paramsAndReturnAddress : UInt32) (newStackFrameSize : ℕ) (ops : List FrameOp) :
    Decidable (FunctionMeets paramsAndReturnAddress newStackFrameSize ops) :=
  match h : enteredFunction newStackFrameSize (.initial paramsAndReturnAddress) with
  | none => isTrue (by simp [FunctionMeets, h])
  | some (fs, _) => decidable_of_iff (StepsMeet fs ops) (by simp [FunctionMeets, h])

end WasmCompiler
