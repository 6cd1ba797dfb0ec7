import WasmCompiler.ValidationStack

/-!
# Validation in the Opcode Loop

The loop of `Frontend::parseCodeSection` over a function body, as far as it decides whether
the body is accepted. Beside the validation stack it keeps its own block references with a
reachability flag of code generation. That flag is set by more than the instructions
validation calls unreachable: an `if` or `br_if` whose condition is a constant on the
compile-time stack. What that stack holds is a matter of code generation, so the constant
conditions of a body are a parameter here, `constantCondition`.
-/

namespace WasmCompiler

/-- The kinds of block references; an `if` is a block around an if-block. -/
inductive BlockReferenceKind where
  | block
  | ifblock
  | loop
  deriving DecidableEq, Repr

/-- A block reference of the compile-time stack. -/
structure BlockReference where
  kind : BlockReferenceKind
  sigIndex : ℕ
  blockUnreachable : Bool
  deriving DecidableEq, Repr

/-- The state of the loop. -/
structure FrontendState where
  validationStack : ValidationStack
  /-- The chain of block references, the last one first. -/
  blocks : List BlockReference
  /-- Whether the function frame is unreachable. -/
  unreachable : Bool
  properlyTerminated : Bool
  deriving DecidableEq, Repr

/-- The maximal number of branch targets of a `br_table`. -/
def branchTableLength : ℕ := 2 ^ 20

/-- The greatest alignment of each load, as a power of two. -/
def LoadOp.maxAlignmentPow2 : LoadOp → ℕ
  | i32Load => 2
  | i64Load => 3
  | f32Load => 2
  | f64Load => 3
  | i32Load8S | i32Load8U => 0
  | i32Load16S | i32Load16U => 1
  | i64Load8S | i64Load8U => 0
  | i64Load16S | i64Load16U => 1
  | i64Load32S | i64Load32U => 2

/-- The type of the value a load yields. -/
def LoadOp.getLoadResultType : LoadOp → WasmType
  | i32Load => .i32
  | i64Load => .i64
  | f32Load => .f32
  | f64Load => .f64
  | i32Load8S | i32Load8U | i32Load16S | i32Load16U => .i32
  | i64Load8S | i64Load8U | i64Load16S | i64Load16U | i64Load32S | i64Load32U => .i64

/-- The greatest alignment of each store, as a power of two. -/
def StoreOp.maxAlignmentPow2 : StoreOp → ℕ
  | i32Store => 2
  | i64Store => 3
  | f32Store => 2
  | f64Store => 3
  | i32Store8 => 0
  | i32Store16 => 1
  | i64Store8 => 0
  | i64Store16 => 1
  | i64Store32 => 2

/-- The type of the value a store takes. -/
def StoreOp.inputType : StoreOp → WasmType
  | i32Store => .i32
  | i64Store => .i64
  | f32Store => .f32
  | f64Store => .f64
  | i32Store8 | i32Store16 => .i32
  | i64Store8 | i64Store16 | i64Store32 => .i64

/-- The tables of loads agree with the specification. -/
theorem LoadOp.shape_eq (op : LoadOp) :
    op.shape.1 = op.getLoadResultType ∧ op.shape.2 = 2 ^ op.maxAlignmentPow2 * 8 := by
  cases op <;> exact ⟨rfl, rfl⟩

/-- The tables of stores agree with the specification. -/
theorem StoreOp.shape_eq (op : StoreOp) :
    op.shape.1 = op.inputType ∧ op.shape.2 = 2 ^ op.maxAlignmentPow2 * 8 := by
  cases op <;> exact ⟨rfl, rfl⟩

namespace FrontendState

/-- Whether the current frame of code generation is unreachable. -/
def currentFrameIsUnreachable (s : FrontendState) : Bool :=
  match s.blocks with
  | [] => s.unreachable
  | b :: _ => b.blockUnreachable

/-- Set the current frame of code generation unreachable. -/
def setCurrentFrameFormallyUnreachable (s : FrontendState) : FrontendState :=
  match s.blocks with
  | [] => { s with unreachable := true }
  | b :: bs => { s with blocks := { b with blockUnreachable := true } :: bs }

/-- Leave an if-block for the block around it. -/
def skipIfBlock : List BlockReference → List BlockReference
  | ⟨.ifblock, _, _⟩ :: bs => bs
  | bs => bs

/-- The block reference of a branch depth; `none` is the function itself. -/
def findTargetBlock : List BlockReference → ℕ → Except ErrorCode (Option BlockReference)
  | bs, 0 => .ok (skipIfBlock bs).head?
  | bs, branchDepth + 1 =>
      match skipIfBlock bs with
      | [] => .error .invalid_branch_depth
      | _ :: bs => findTargetBlock bs branchDepth

/-- Run a step of the validation stack. -/
def validate (s : FrontendState) (f : ValidationStack → Except ErrorCode ValidationStack) :
    Except ErrorCode FrontendState := do
  let v ← f s.validationStack
  .ok { s with validationStack := v }

end FrontendState

namespace Frontend

open FrontendState ValidationStack

variable (m : ModuleInfo) (fnc : FunctionInfo)

/-- The types a branch to a target delivers. -/
def branchTargetTypes (target : Option BlockReference) : List WasmType :=
  match target with
  | none => (m.signature fnc.sigIndex).results
  | some b =>
      if b.kind = .loop then (m.signature b.sigIndex).params
      else (m.signature b.sigIndex).results

/-- Compile an unconditional branch. -/
def compileBR (s : FrontendState) (branchDepth : ℕ) : Except ErrorCode FrontendState := do
  let _ ← FrontendState.findTargetBlock s.blocks branchDepth
  .ok s.setCurrentFrameFormallyUnreachable

/-- Compare the types of the further targets of a `br_table` with those of the first one; in
unreachable code only their number counts. -/
def checkFurtherTargets (first : List WasmType) (originalFrameUnreachable : Bool)
    (blocks : List BlockReference) : List ℕ → Except ErrorCode Unit
  | [] => .ok ()
  | branchDepth :: branchDepths => do
      let target ← FrontendState.findTargetBlock blocks branchDepth
      let next := branchTargetTypes m fnc target
      if first.length ≠ next.length ∨ (first ≠ next ∧ originalFrameUnreachable = false) then
        .error .br_table_block_return_type_mismatch
      else checkFurtherTargets first originalFrameUnreachable blocks branchDepths

/-- Process a `br_table`: the validation stack checks the first target only. -/
def brTable (branchDepths : List ℕ) (defaultDepth : ℕ) (s : FrontendState) :
    Except ErrorCode FrontendState :=
  if branchTableLength < branchDepths.length then .error .too_many_branch_targets_in_br_table
  else
    match branchDepths ++ [defaultDepth] with
    | [] => .ok s
    | first :: further => do
        let originalFrameUnreachable := s.currentFrameIsUnreachable
        let s ← s.validate (validateBranch m .brTable first)
        let target ← FrontendState.findTargetBlock s.blocks first
        checkFurtherTargets m fnc (branchTargetTypes m fnc target) originalFrameUnreachable
          s.blocks further
        if originalFrameUnreachable then .ok s
        else .ok s.setCurrentFrameFormallyUnreachable

/-- Process an instruction without nested instructions. For a `br_if`, `constantCondition`
is the value of its condition if that is a constant of the compile-time stack. -/
def processPlain (constantCondition : Option Bool) (s : FrontendState) :
    Plain → Except ErrorCode FrontendState
  | .unreachable => do
      let s ← s.validate fun v => .ok (markCurrentBlockUnreachable v)
      .ok s.setCurrentFrameFormallyUnreachable
  | .nop => .ok s
  | .br branchDepth => do
      let s ← s.validate (validateBranch m .br branchDepth)
      Frontend.compileBR s branchDepth
  | .brIf branchDepth => do
      let s ← s.validate (validateBranch m .brIf branchDepth)
      if s.currentFrameIsUnreachable then .ok s
      else
        match constantCondition with
        | some true => Frontend.compileBR s branchDepth
        | some false => .ok s
        | none => do
            let _ ← FrontendState.findTargetBlock s.blocks branchDepth
            .ok s
  | .brTable branchDepths defaultDepth => brTable m fnc branchDepths defaultDepth s
  | .return_ => do
      let s ← s.validate (validateReturn m)
      .ok s.setCurrentFrameFormallyUnreachable
  | .call functionIndex =>
      match m.functions[functionIndex]? with
      | none => .error .function_index_out_of_range
      | some sigIndex => s.validate (validateCall m sigIndex)
  | .callIndirect typeIndex tableIndex => do
      let sigIndex ← m.reduceTypeIndex typeIndex
      let s ← s.validate (validateLastNumberType .i32 true)
      let s ← s.validate (validateCall m sigIndex)
      if m.hasTable = false ∨ tableIndex ≠ 0 then .error .table_not_found else .ok s
  | .drop => s.validate drop
  | .select => s.validate validateSelect
  | .localGet localIdx =>
      match fnc.localDefs[localIdx]? with
      | none => .error .local_out_of_range
      | some type => s.validate fun v => .ok (push (.number type) v)
  | .localSet localIdx =>
      match fnc.localDefs[localIdx]? with
      | none => .error .local_out_of_range
      | some type => s.validate (validateLastNumberType type true)
  | .localTee localIdx =>
      match fnc.localDefs[localIdx]? with
      | none => .error .local_out_of_range
      | some type => s.validate (validateLastNumberType type false)
  | .globalGet globalIdx =>
      match m.globals[globalIdx]? with
      | none => .error .global_out_of_range
      | some globalDef => s.validate fun v => .ok (push (.number globalDef.type) v)
  | .globalSet globalIdx =>
      match m.globals[globalIdx]? with
      | none => .error .global_out_of_range
      | some globalDef => do
          let s ← s.validate (validateLastNumberType globalDef.type true)
          if globalDef.isMutable = false then .error .cannot_set_immutable_global else .ok s
  | .load op alignment =>
      if m.hasMemory = false then .error .undefined_memory_referenced
      else do
        let s ← s.validate (validateLastNumberType .i32 true)
        let s ← s.validate fun v => .ok (push (.number op.getLoadResultType) v)
        if op.maxAlignmentPow2 < alignment then .error .alignment_out_of_range else .ok s
  | .store op alignment =>
      if m.hasMemory = false then .error .undefined_memory_referenced
      else do
        let s ← s.validate (validateLastNumberType op.inputType true)
        let s ← s.validate (validateLastNumberType .i32 true)
        if op.maxAlignmentPow2 < alignment then .error .alignment_out_of_range else .ok s
  | .memorySize =>
      if m.hasMemory = false then .error .undefined_memory_referenced
      else s.validate fun v => .ok (push (.number .i32) v)
  | .memoryGrow =>
      if m.hasMemory = false then .error .undefined_memory_referenced
      else do
        let s ← s.validate (validateLastNumberType .i32 true)
        s.validate fun v => .ok (push (.number .i32) v)
  | .memoryCopy | .memoryFill =>
      if m.hasMemory = false then .error .undefined_memory_referenced
      else do
        let s ← s.validate (validateLastNumberType .i32 true)
        let s ← s.validate (validateLastNumberType .i32 true)
        s.validate (validateLastNumberType .i32 true)
  | .const type => s.validate fun v => .ok (push (.number type) v)
  | .arith op => s.validate (validateArithmeticElement op)

/-- Process an `end`. The end of an `if` without `else` compares the numbers of its
parameters and results; the `end` without a block ends the function. -/
def processEnd (s : FrontendState) : Except ErrorCode FrontendState := do
  let s ← s.validate (validateEnd m)
  match s.blocks with
  | [] => .ok { s with properlyTerminated := true }
  | ⟨.loop, _, _⟩ :: bs => .ok { s with blocks := bs }
  | ⟨.block, _, _⟩ :: bs => .ok { s with blocks := bs }
  | ⟨.ifblock, sigIndex, _⟩ :: bs =>
      if (m.signature sigIndex).params.length ≠ (m.signature sigIndex).results.length then
        .error .type_mismatch_for_if_true_and_false_branches
      else .ok { s with blocks := bs.tail }

/-- Process one opcode. For an `if` or `br_if`, `constantCondition` is the value of its
condition if that is a constant of the compile-time stack. -/
def processOpCode (constantCondition : Option Bool) (s : FrontendState) :
    OPCode → Except ErrorCode FrontendState
  | .plain p => processPlain m fnc constantCondition s p
  | .block blockType => do
      let sigIndex ← m.blockSigIndex blockType
      let s ← s.validate (validateAndPrepareBlock m sigIndex)
      .ok { s with blocks := ⟨.block, sigIndex, s.currentFrameIsUnreachable⟩ :: s.blocks }
  | .loop blockType => do
      let sigIndex ← m.blockSigIndex blockType
      let s ← s.validate (validateAndPrepareLoop m sigIndex)
      .ok { s with blocks := ⟨.loop, sigIndex, s.currentFrameIsUnreachable⟩ :: s.blocks }
  | .if_ blockType => do
      let sigIndex ← m.blockSigIndex blockType
      let s ← s.validate (validateAndPrepareIfBlock m sigIndex)
      let elseBlockInheritedUnreachable :=
        s.currentFrameIsUnreachable || constantCondition == some true
      let ifBlockInheritedUnreachable :=
        s.currentFrameIsUnreachable || constantCondition == some false
      .ok { s with blocks :=
        ⟨.ifblock, sigIndex, ifBlockInheritedUnreachable⟩ ::
          ⟨.block, sigIndex, elseBlockInheritedUnreachable⟩ :: s.blocks }
  | .else_ => do
      let s ← s.validate (validateElse m)
      .ok { s with blocks := s.blocks.tail }
  | .end_ => processEnd m s

/-- Process a function body from the opcode at position `pos` on. -/
def parseFunctionBody (constantCondition : ℕ → Option Bool) :
    ℕ → List OPCode → FrontendState → Except ErrorCode FrontendState
  | _, [], s =>
      if s.properlyTerminated then .ok s else .error .function_was_not_terminated_properly
  | pos, op :: ops, s =>
      if s.properlyTerminated then .error .function_size_mismatch
      else do
        let s ← processOpCode m fnc (constantCondition pos) s op
        parseFunctionBody constantCondition (pos + 1) ops s

/-- The state at the entry of a function. -/
def enterFunction : FrontendState where
  validationStack := ValidationStack.reset fnc.sigIndex
  blocks := []
  unreachable := false
  properlyTerminated := false

/-- Whether the loop accepts a function body. -/
def accepts (constantCondition : ℕ → Option Bool) (body : List OPCode) : Bool :=
  (parseFunctionBody m fnc constantCondition 0 body (enterFunction fnc)).isOk

end Frontend

end WasmCompiler
