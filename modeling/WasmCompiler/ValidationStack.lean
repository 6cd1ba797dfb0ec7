import WasmCompiler.WasmTyping

/-!
# The Validation Stack

`ValidationStack` (`ValidationStack.cpp`) is the type checker the frontend runs beside code
generation. Its linked list `FUNC numbers BLOCK numbers …` is modelled as the list of its
frames, innermost first: a frame holds one structural element and the number elements
between it and the next one, topmost first. Between the structural element of an `if` and
its `ELSE_FENCE` lies a second group of numbers, the parameters of the `else` branch, which
is there exactly while the fence is (`FrameKind.if_`).
-/

namespace WasmCompiler

/-- The errors validation can end with. -/
inductive ErrorCode where
  | validation_failed
  | validateAndDrop__Stack_frame_underflow
  | function_type_out_of_bounds
  | type_mismatch_for_if_true_and_false_branches
  | br_table_block_return_type_mismatch
  | invalid_branch_depth
  | too_many_branch_targets_in_br_table
  | function_index_out_of_range
  | table_not_found
  | local_out_of_range
  | global_out_of_range
  | cannot_set_immutable_global
  | undefined_memory_referenced
  | alignment_out_of_range
  | function_was_not_terminated_properly
  | function_size_mismatch
  deriving DecidableEq, Repr

/-- A bind succeeds when both parts do. -/
theorem bind_eq_ok {α β : Type} {x : Except ErrorCode α} {f : α → Except ErrorCode β} {b : β} :
    (x >>= f) = .ok b ↔ ∃ a, x = .ok a ∧ f a = .ok b := by
  cases x with
  | error e => simp [bind, Except.bind]
  | ok a => simp [bind, Except.bind]

/-! ### Module information -/

/-- An entry of the type section: a signature, or a reference to an earlier equal one. -/
inductive TypeEntry where
  | signature (type : FuncType)
  | forward (typeIndex : ℕ)
  deriving DecidableEq, Repr

/-- What validation reads of a module: its types, the signature index of every function,
its globals, and whether it has a table and a memory. -/
structure ModuleInfo where
  types : List TypeEntry
  /-- A forwarded type refers to a signature. -/
  forward_signature : ∀ j, .forward j ∈ types → ∃ ft, types[j]? = some (.signature ft)
  functions : List ℕ
  /-- A function's signature index refers to a signature. -/
  functions_signature : ∀ s ∈ functions, ∃ ft, types[s]? = some (.signature ft)
  globals : List GlobalType
  hasTable : Bool
  hasMemory : Bool

/-- What validation reads of the current function: its signature and the types of its
locals, the parameters first. -/
structure FunctionInfo where
  sigIndex : ℕ
  localDefs : List WasmType

namespace ModuleInfo

/-- The number of declared types. -/
def numTypes (m : ModuleInfo) : ℕ := m.types.length

/-- The signature of an index; behind the declared types come those of the block types
without parameters. -/
def signature (m : ModuleInfo) (sigIndex : ℕ) : FuncType :=
  match m.types[sigIndex]? with
  | some (.signature ft) => ft
  | some (.forward _) => ⟨[], []⟩
  | none =>
      match sigIndex - m.numTypes with
      | 1 => ⟨[], [.i32]⟩
      | 2 => ⟨[], [.i64]⟩
      | 3 => ⟨[], [.f32]⟩
      | 4 => ⟨[], [.f64]⟩
      | _ => ⟨[], []⟩

/-- Check a type index and follow its reference to an earlier signature. -/
def reduceTypeIndex (m : ModuleInfo) (typeIndex : ℕ) : Except ErrorCode ℕ :=
  match m.types[typeIndex]? with
  | none => .error .function_type_out_of_bounds
  | some (.forward j) => .ok j
  | some (.signature _) => .ok typeIndex

/-- The signature index of a block type without type index. -/
def getSigIndexForBlock (m : ModuleInfo) : Option WasmType → ℕ
  | some .f64 => m.numTypes + 4
  | some .f32 => m.numTypes + 3
  | some .i64 => m.numTypes + 2
  | some .i32 => m.numTypes + 1
  | none => m.numTypes

/-- The signature index of a block type. -/
def blockSigIndex (m : ModuleInfo) : BlockType → Except ErrorCode ℕ
  | .void => .ok (m.getSigIndexForBlock none)
  | .value type => .ok (m.getSigIndexForBlock (some type))
  | .index typeIndex => m.reduceTypeIndex typeIndex

/-- The validation context the specification gives the body of a function. -/
def context (m : ModuleInfo) (fnc : FunctionInfo) : Context where
  types := m.types.map fun
    | .signature ft => ft
    | .forward j => m.signature j
  funcs := m.functions.map m.signature
  hasTable := m.hasTable
  hasMemory := m.hasMemory
  globals := m.globals
  locals := fnc.localDefs
  labels := [(m.signature fnc.sigIndex).results]
  results := (m.signature fnc.sigIndex).results

/-- Reducing a type index keeps its signature. -/
theorem reduceTypeIndex_eq {m : ModuleInfo} {i s : ℕ} (h : m.reduceTypeIndex i = .ok s)
    (fnc : FunctionInfo) : (m.context fnc).types[i]? = some (m.signature s) := by
  unfold reduceTypeIndex at h
  simp only [context, List.getElem?_map]
  split at h
  · exact nomatch h
  · rename_i j hj
    cases h
    simp only [hj, Option.map_some]
  · rename_i ft hft
    cases h
    simp only [hft, Option.map_some, signature]

/-- A block's signature index has the signature of its block type. -/
theorem blockSigIndex_eq {m : ModuleInfo} {bt : BlockType} {s : ℕ}
    (h : m.blockSigIndex bt = .ok s) (fnc : FunctionInfo) :
    (m.context fnc).blockType bt = some (m.signature s) := by
  cases bt with
  | index i => exact reduceTypeIndex_eq h fnc
  | void =>
      cases h
      simp [Context.blockType, getSigIndexForBlock, signature, numTypes]
  | value t =>
      cases h
      cases t <;> simp [Context.blockType, getSigIndexForBlock, signature, numTypes]

end ModuleInfo

/-! ### Elements and frames -/

/-- The type of a number element; `any` is the unconstrained result of a `select` in
unreachable code. -/
inductive ValidateType where
  | number (type : WasmType)
  | any
  deriving DecidableEq, Repr

/-- Whether a number element can have the expected type. -/
def ValidateType.numberMatch (v : ValidateType) (type : WasmType) : Bool :=
  match v with
  | any => true
  | number t => t == type

/-- The structural elements. While an `if` has its else fence, the parameters of its `else`
branch lie below the fence. -/
inductive FrameKind where
  | func
  | block
  | loop
  | if_ (elseParams : Option (List ValidateType))
  deriving DecidableEq, Repr

/-- A structural element and the number elements above it, topmost first. -/
structure Frame where
  kind : FrameKind
  sigIndex : ℕ
  formallyUnreachable : Bool
  operands : List ValidateType
  deriving DecidableEq, Repr

/-- The validation stack, innermost frame first. -/
abbrev ValidationStack : Type := List Frame

namespace ValidationStack

/-- Push a number element. -/
def push (v : ValidateType) : ValidationStack → ValidationStack
  | [] => []
  | f :: fs => { f with operands := v :: f.operands } :: fs

/-- The stack of a function before its body. -/
def reset (currentFuncSigIndex : ℕ) : ValidationStack :=
  [⟨.func, currentFuncSigIndex, false, []⟩]

/-- Pop the elements above the else fence or the current block, which becomes
unreachable. -/
def markCurrentBlockUnreachable : ValidationStack → ValidationStack
  | [] => []
  | f :: fs => { f with operands := [], formallyUnreachable := true } :: fs

/-- Validate the topmost number element; with `needPop` it is popped. -/
def validateLastNumberType (type : WasmType) (needPop : Bool) :
    ValidationStack → Except ErrorCode ValidationStack
  | [] => .error .validation_failed
  | f :: fs =>
      match f.operands with
      | [] =>
          if f.formallyUnreachable then
            .ok (if needPop then f :: fs else push (.number type) (f :: fs))
          else .error .validation_failed
      | v :: vs =>
          if v.numberMatch type then
            .ok ({ f with operands := if needPop then vs else .number type :: vs } :: fs)
          else .error .validation_failed

/-- Visit the number elements from the top down, against the expected types in that order:
`any` is replaced by the expected type, and in unreachable code missing elements are made
up. The visited elements and those below the position reached are returned apart. -/
def visit (formallyUnreachable : Bool) :
    List WasmType → List ValidateType →
      Except ErrorCode (List ValidateType × List ValidateType)
  | [], below => .ok ([], below)
  | type :: types, [] =>
      if formallyUnreachable then do
        let (visited, below) ← visit formallyUnreachable types []
        .ok (.number type :: visited, below)
      else .error .validation_failed
  | type :: types, v :: vs =>
      if v.numberMatch type then do
        let (visited, below) ← visit formallyUnreachable types vs
        .ok (.number type :: visited, below)
      else .error .validation_failed

/-- Visit the topmost elements of the current frame against a list of types. The result is
the visited elements and the stack without them. -/
def validateTypes (types : List WasmType) :
    ValidationStack → Except ErrorCode (List ValidateType × ValidationStack)
  | [] => .error .validation_failed
  | f :: fs => do
      let (visited, below) ← visit f.formallyUnreachable types.reverse f.operands
      .ok (visited, { f with operands := below } :: fs)

/-- Validate the parameters of a signature. -/
def validateParams (m : ModuleInfo) (sigIndex : ℕ) (s : ValidationStack) :
    Except ErrorCode (List ValidateType × ValidationStack) :=
  validateTypes (m.signature sigIndex).params s

/-- Validate the results of a signature. -/
def validateResults (m : ModuleInfo) (sigIndex : ℕ) (s : ValidationStack) :
    Except ErrorCode (List ValidateType × ValidationStack) :=
  validateTypes (m.signature sigIndex).results s

/-- Put visited elements back: they were not popped. -/
def restore (visited : List ValidateType) : ValidationStack → ValidationStack
  | [] => []
  | f :: fs => { f with operands := visited ++ f.operands } :: fs

/-! ### Blocks -/

/-- Validate a block's parameters and insert its element below them. -/
def validateAndPrepareBlock (m : ModuleInfo) (sigIndex : ℕ) (s : ValidationStack) :
    Except ErrorCode ValidationStack := do
  let (params, below) ← validateParams m sigIndex s
  .ok (⟨.block, sigIndex, false, params⟩ :: below)

/-- Validate a loop's parameters and insert its element below them. -/
def validateAndPrepareLoop (m : ModuleInfo) (sigIndex : ℕ) (s : ValidationStack) :
    Except ErrorCode ValidationStack := do
  let (params, below) ← validateParams m sigIndex s
  .ok (⟨.loop, sigIndex, false, params⟩ :: below)

/-- Validate the condition and the parameters of an `if`; its parameters are kept below an
else fence and copied above it. -/
def validateAndPrepareIfBlock (m : ModuleInfo) (sigIndex : ℕ) (s : ValidationStack) :
    Except ErrorCode ValidationStack := do
  let s ← validateLastNumberType .i32 true s
  let (params, below) ← validateParams m sigIndex s
  .ok (⟨.if_ (some params), sigIndex, false, params⟩ :: below)

/-- Pop results one by one, the last one first. -/
def popResults : List WasmType → ValidationStack → Except ErrorCode ValidationStack
  | [], s => .ok s
  | type :: types, s => do
      let s ← validateLastNumberType type true s
      popResults types s

/-- Validate the results of the `if` branch, remove the fence and go on with the `else`
branch's own parameters. -/
def validateElse (m : ModuleInfo) : ValidationStack → Except ErrorCode ValidationStack
  | [] => .error .validation_failed
  | f :: fs =>
      match f.kind with
      | .if_ elseParams => do
          let s ← popResults (m.signature f.sigIndex).results.reverse (f :: fs)
          match s, elseParams with
          | f :: fs, some params =>
              if f.operands = [] then
                .ok ({ f with
                  kind := .if_ none, formallyUnreachable := false, operands := params } :: fs)
              else .error .validation_failed
          | _, _ => .error .validation_failed
      | _ => .error .validation_failed

/-- Validate the results at the end of a block. A block's results stay on the stack when its
element is erased, and with it what is left of an `if` without `else`. -/
def validateEnd (m : ModuleInfo) (s : ValidationStack) : Except ErrorCode ValidationStack :=
  match s with
  | [] => .error .validation_failed
  | currentBlock :: _ => do
      let (results, below) ← validateResults m currentBlock.sigIndex s
      match below with
      | [] => .error .validation_failed
      | f :: fs =>
          if f.operands ≠ [] then .error .validation_failed
          else
            match f.kind with
            | .func => if fs = [] then .ok [] else .error .validation_failed
            | _ => .ok (restore results fs)

/-! ### Branches, calls and parametric instructions -/

/-- Validate a `return`. -/
def validateReturn (m : ModuleInfo) (s : ValidationStack) : Except ErrorCode ValidationStack :=
  match s.getLast? with
  | none => .error .validation_failed
  | some func => do
      let (_, below) ← validateResults m func.sigIndex s
      .ok (markCurrentBlockUnreachable below)

/-- The branch instructions. -/
inductive BranchOpcode where
  | br
  | brIf
  | brTable
  deriving DecidableEq, Repr

/-- The frame a branch depth refers to. -/
def findTargetBlock (s : ValidationStack) (branchDepth : ℕ) : Except ErrorCode Frame :=
  match s[branchDepth]? with
  | some target => .ok target
  | none => .error .validation_failed

/-- Validate the condition of a `br_if` or the index of a `br_table`. -/
def validateBranchOperand (branchOpcode : BranchOpcode) (s : ValidationStack) :
    Except ErrorCode ValidationStack :=
  if branchOpcode = .brIf ∨ branchOpcode = .brTable then validateLastNumberType .i32 true s
  else .ok s

/-- Validate the types a branch to `target` delivers. -/
def validateTarget (m : ModuleInfo) (target : Frame) (s : ValidationStack) :
    Except ErrorCode (List ValidateType × ValidationStack) :=
  if target.kind = .loop then validateParams m target.sigIndex s
  else validateResults m target.sigIndex s

/-- Validate a branch. -/
def validateBranch (m : ModuleInfo) (branchOpcode : BranchOpcode) (branchDepth : ℕ)
    (s : ValidationStack) : Except ErrorCode ValidationStack := do
  let s ← validateBranchOperand branchOpcode s
  let target ← findTargetBlock s branchDepth
  let (visited, below) ← validateTarget m target s
  if branchOpcode = .brIf then .ok (restore visited below)
  else .ok (markCurrentBlockUnreachable below)

/-- Push number elements one by one. -/
def pushAll (types : List WasmType) (s : ValidationStack) : ValidationStack :=
  types.foldl (fun s type => push (.number type) s) s

/-- Validate a call. -/
def validateCall (m : ModuleInfo) (sigIndex : ℕ) (s : ValidationStack) :
    Except ErrorCode ValidationStack := do
  let (_, below) ← validateParams m sigIndex s
  .ok (pushAll (m.signature sigIndex).results below)

/-- Pop a number element, if there is one. -/
def drop : ValidationStack → Except ErrorCode ValidationStack
  | [] => .error .validation_failed
  | f :: fs =>
      match f.operands with
      | [] =>
          if f.formallyUnreachable then .ok (f :: fs)
          else .error .validateAndDrop__Stack_frame_underflow
      | _ :: vs => .ok ({ f with operands := vs } :: fs)

/-- Validate a `select`: in unreachable code missing operands are not checked. -/
def validateSelect (s : ValidationStack) : Except ErrorCode ValidationStack := do
  let s ← validateLastNumberType .i32 true s
  match s with
  | [] => .error .validation_failed
  | f :: fs =>
      if f.formallyUnreachable then
        match f.operands with
        | [] => .ok (push .any (f :: fs))
        | [_] => .ok (f :: fs)
        | arg1 :: arg0 :: vs =>
            match arg0, arg1 with
            | .number t0, .number t1 =>
                if t0 = t1 then .ok ({ f with operands := arg0 :: vs } :: fs)
                else .error .validation_failed
            | .any, _ => .ok ({ f with operands := arg1 :: vs } :: fs)
            | .number _, .any => .ok ({ f with operands := arg0 :: vs } :: fs)
      else
        match f.operands with
        | arg1 :: arg0 :: vs =>
            if arg1 = arg0 then .ok ({ f with operands := arg0 :: vs } :: fs)
            else .error .validation_failed
        | _ => .error .validation_failed

/-! ### Arithmetic -/

/-- Arity and operand types of an arithmetic opcode. -/
structure ArithArg where
  arg0Type : WasmType
  /-- The second operand, if the instruction has one. -/
  arg1Type : Option WasmType
  resultType : WasmType
  deriving DecidableEq, Repr

/-- The annotation of each arithmetic opcode. -/
def getArithArgs (instruction : ArithOp) : ArithArg :=
  match instruction with
  | .i32Eqz => ⟨.i32, none, .i32⟩
  | .i32Eq | .i32Ne | .i32LtS | .i32LtU | .i32GtS | .i32GtU | .i32LeS | .i32LeU | .i32GeS | .i32GeU =>
      ⟨.i32, some .i32, .i32⟩
  | .i64Eqz => ⟨.i64, none, .i32⟩
  | .i64Eq | .i64Ne | .i64LtS | .i64LtU | .i64GtS | .i64GtU | .i64LeS | .i64LeU | .i64GeS | .i64GeU =>
      ⟨.i64, some .i64, .i32⟩
  | .f32Eq | .f32Ne | .f32Lt | .f32Gt | .f32Le | .f32Ge => ⟨.f32, some .f32, .i32⟩
  | .f64Eq | .f64Ne | .f64Lt | .f64Gt | .f64Le | .f64Ge => ⟨.f64, some .f64, .i32⟩
  | .i32Clz | .i32Ctz | .i32Popcnt => ⟨.i32, none, .i32⟩
  | .i32Add | .i32Sub | .i32Mul | .i32DivS | .i32DivU | .i32RemS | .i32RemU | .i32And | .i32Or | .i32Xor
  | .i32Shl | .i32ShrS | .i32ShrU | .i32Rotl | .i32Rotr => ⟨.i32, some .i32, .i32⟩
  | .i64Clz | .i64Ctz | .i64Popcnt => ⟨.i64, none, .i64⟩
  | .i64Add | .i64Sub | .i64Mul | .i64DivS | .i64DivU | .i64RemS | .i64RemU | .i64And | .i64Or | .i64Xor
  | .i64Shl | .i64ShrS | .i64ShrU | .i64Rotl | .i64Rotr => ⟨.i64, some .i64, .i64⟩
  | .f32Abs | .f32Neg | .f32Ceil | .f32Floor | .f32Trunc | .f32Nearest | .f32Sqrt => ⟨.f32, none, .f32⟩
  | .f32Add | .f32Sub | .f32Mul | .f32Div | .f32Min | .f32Max | .f32Copysign => ⟨.f32, some .f32, .f32⟩
  | .f64Abs | .f64Neg | .f64Ceil | .f64Floor | .f64Trunc | .f64Nearest | .f64Sqrt => ⟨.f64, none, .f64⟩
  | .f64Add | .f64Sub | .f64Mul | .f64Div | .f64Min | .f64Max | .f64Copysign => ⟨.f64, some .f64, .f64⟩
  | .i32WrapI64 => ⟨.i64, none, .i32⟩
  | .i32TruncF32S | .i32TruncF32U => ⟨.f32, none, .i32⟩
  | .i32TruncF64S | .i32TruncF64U => ⟨.f64, none, .i32⟩
  | .i64ExtendI32S | .i64ExtendI32U => ⟨.i32, none, .i64⟩
  | .i64TruncF32S | .i64TruncF32U => ⟨.f32, none, .i64⟩
  | .i64TruncF64S | .i64TruncF64U => ⟨.f64, none, .i64⟩
  | .f32ConvertI32S | .f32ConvertI32U => ⟨.i32, none, .f32⟩
  | .f32ConvertI64S | .f32ConvertI64U => ⟨.i64, none, .f32⟩
  | .f32DemoteF64 => ⟨.f64, none, .f32⟩
  | .f64ConvertI32S | .f64ConvertI32U => ⟨.i32, none, .f64⟩
  | .f64ConvertI64S | .f64ConvertI64U => ⟨.i64, none, .f64⟩
  | .f64PromoteF32 => ⟨.f32, none, .f64⟩
  | .i32ReinterpretF32 => ⟨.f32, none, .i32⟩
  | .i64ReinterpretF64 => ⟨.f64, none, .i64⟩
  | .f32ReinterpretI32 => ⟨.i32, none, .f32⟩
  | .f64ReinterpretI64 => ⟨.i64, none, .f64⟩
  | .i32Extend8S | .i32Extend16S => ⟨.i32, none, .i32⟩
  | .i64Extend8S | .i64Extend16S | .i64Extend32S => ⟨.i64, none, .i64⟩

/-- Validate the second operand of an arithmetic instruction, if it has one. -/
def validateArg1 (arithArg : ArithArg) (s : ValidationStack) :
    Except ErrorCode ValidationStack :=
  match arithArg.arg1Type with
  | some type => validateLastNumberType type true s
  | none => .ok s

/-- Validate the operands of an arithmetic instruction and push its result. -/
def validateArithmeticElement (op : ArithOp) (s : ValidationStack) :
    Except ErrorCode ValidationStack := do
  let arithArg := getArithArgs op
  let s ← validateArg1 arithArg s
  let s ← validateLastNumberType arithArg.arg0Type true s
  .ok (push (.number arithArg.resultType) s)

/-- The table of arithmetic instructions agrees with the specification. -/
theorem getArithArgs_eq (op : ArithOp) :
    (getArithArgs op).arg1Type.toList ++ [(getArithArgs op).arg0Type] = op.shape.operands ∧
      (getArithArgs op).resultType = op.shape.result := by
  cases op <;> exact ⟨rfl, rfl⟩

end ValidationStack

end WasmCompiler
