import Mathlib.Data.Nat.Notation

/-!
# WebAssembly Instructions

The decoded instructions of a function body. `OPCode` is what the frontend's loop reads
one after the other; `Instr` is the nested form in which WebAssembly defines instruction
sequences, and `flattenAll` is its binary order. Immediates that validation does not look
at (constants, memory offsets) are left out.
-/

namespace WasmCompiler

/-- A value type. -/
inductive WasmType where
  | i32
  | i64
  | f32
  | f64
  deriving DecidableEq, Repr

/-- A function type: parameters and results, in declaration order. -/
structure FuncType where
  params : List WasmType
  results : List WasmType
  deriving DecidableEq, Repr

/-- The type annotation of a block: no or one result value, or a type index. -/
inductive BlockType where
  | void
  | value (type : WasmType)
  | index (typeIndex : ℕ)
  deriving DecidableEq, Repr

/-- The load instructions. -/
inductive LoadOp where
  | i32Load | i64Load | f32Load | f64Load | i32Load8S | i32Load8U | i32Load16S | i32Load16U
  | i64Load8S | i64Load8U | i64Load16S | i64Load16U | i64Load32S | i64Load32U
  deriving DecidableEq, Repr

/-- The store instructions. -/
inductive StoreOp where
  | i32Store | i64Store | f32Store | f64Store | i32Store8 | i32Store16 | i64Store8
  | i64Store16 | i64Store32
  deriving DecidableEq, Repr

/-- The arithmetic instructions: comparisons, numeric operators, conversions,
reinterpretations and sign extensions, in the order of their opcodes. -/
inductive ArithOp where
  | i32Eqz | i32Eq | i32Ne | i32LtS | i32LtU | i32GtS | i32GtU | i32LeS | i32LeU | i32GeS
  | i32GeU | i64Eqz | i64Eq | i64Ne | i64LtS | i64LtU | i64GtS | i64GtU | i64LeS | i64LeU
  | i64GeS | i64GeU | f32Eq | f32Ne | f32Lt | f32Gt | f32Le | f32Ge | f64Eq | f64Ne | f64Lt
  | f64Gt | f64Le | f64Ge | i32Clz | i32Ctz | i32Popcnt | i32Add | i32Sub | i32Mul | i32DivS
  | i32DivU | i32RemS | i32RemU | i32And | i32Or | i32Xor | i32Shl | i32ShrS | i32ShrU | i32Rotl
  | i32Rotr | i64Clz | i64Ctz | i64Popcnt | i64Add | i64Sub | i64Mul | i64DivS | i64DivU
  | i64RemS | i64RemU | i64And | i64Or | i64Xor | i64Shl | i64ShrS | i64ShrU | i64Rotl | i64Rotr
  | f32Abs | f32Neg | f32Ceil | f32Floor | f32Trunc | f32Nearest | f32Sqrt | f32Add | f32Sub
  | f32Mul | f32Div | f32Min | f32Max | f32Copysign | f64Abs | f64Neg | f64Ceil | f64Floor
  | f64Trunc | f64Nearest | f64Sqrt | f64Add | f64Sub | f64Mul | f64Div | f64Min | f64Max
  | f64Copysign | i32WrapI64 | i32TruncF32S | i32TruncF32U | i32TruncF64S | i32TruncF64U
  | i64ExtendI32S | i64ExtendI32U | i64TruncF32S | i64TruncF32U | i64TruncF64S | i64TruncF64U
  | f32ConvertI32S | f32ConvertI32U | f32ConvertI64S | f32ConvertI64U | f32DemoteF64
  | f64ConvertI32S | f64ConvertI32U | f64ConvertI64S | f64ConvertI64U | f64PromoteF32
  | i32ReinterpretF32 | i64ReinterpretF64 | f32ReinterpretI32 | f64ReinterpretI64 | i32Extend8S
  | i32Extend16S | i64Extend8S | i64Extend16S | i64Extend32S
  deriving DecidableEq, Repr

/-- An instruction without nested instructions. -/
inductive Plain where
  | unreachable
  | nop
  | br (branchDepth : ℕ)
  | brIf (branchDepth : ℕ)
  /-- The last branch depth is the default target. -/
  | brTable (branchDepths : List ℕ) (defaultDepth : ℕ)
  | return_
  | call (functionIndex : ℕ)
  | callIndirect (typeIndex tableIndex : ℕ)
  | drop
  | select
  | localGet (localIdx : ℕ)
  | localSet (localIdx : ℕ)
  | localTee (localIdx : ℕ)
  | globalGet (globalIdx : ℕ)
  | globalSet (globalIdx : ℕ)
  | load (op : LoadOp) (alignment : ℕ)
  | store (op : StoreOp) (alignment : ℕ)
  | memorySize
  | memoryGrow
  | memoryCopy
  | memoryFill
  | const (type : WasmType)
  | arith (op : ArithOp)
  deriving DecidableEq, Repr

/-- One step of the opcode loop. -/
inductive OPCode where
  | plain (p : Plain)
  | block (blockType : BlockType)
  | loop (blockType : BlockType)
  | if_ (blockType : BlockType)
  | else_
  | end_
  deriving DecidableEq, Repr

/-- An instruction with the instructions nested in it. -/
inductive Instr where
  | plain (p : Plain)
  | block (blockType : BlockType) (body : List Instr)
  | loop (blockType : BlockType) (body : List Instr)
  | ifElse (blockType : BlockType) (thenBody elseBody : List Instr)
  | ifThen (blockType : BlockType) (thenBody : List Instr)

mutual

/-- The opcodes of an instruction. -/
def Instr.flatten : Instr → List OPCode
  | .plain p => [.plain p]
  | .block blockType body => .block blockType :: (flattenAll body ++ [.end_])
  | .loop blockType body => .loop blockType :: (flattenAll body ++ [.end_])
  | .ifElse blockType thenBody elseBody =>
      .if_ blockType :: (flattenAll thenBody ++ (.else_ :: (flattenAll elseBody ++ [.end_])))
  | .ifThen blockType thenBody => .if_ blockType :: (flattenAll thenBody ++ [.end_])

/-- The opcodes of an instruction sequence. -/
def flattenAll : List Instr → List OPCode
  | [] => []
  | instr :: rest => instr.flatten ++ flattenAll rest

end

/-- Sequences are flattened one after the other. -/
theorem flattenAll_append (a b : List Instr) :
    flattenAll (a ++ b) = flattenAll a ++ flattenAll b := by
  induction a with
  | nil => rfl
  | cons instr a ih => simp only [List.cons_append, flattenAll, ih, List.append_assoc]

/-- One more instruction at the end. -/
theorem flattenAll_concat (a : List Instr) (instr : Instr) :
    flattenAll (a ++ [instr]) = flattenAll a ++ instr.flatten := by
  rw [flattenAll_append, flattenAll, flattenAll, List.append_nil]

end WasmCompiler
