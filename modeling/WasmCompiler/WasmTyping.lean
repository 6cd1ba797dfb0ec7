import WasmCompiler.Instructions
import Mathlib

/-!
# The Validation Rules of WebAssembly

The typing rules of WebAssembly 1.0 with multi-value blocks, as the specification states
them: a declarative judgement that gives an instruction sequence a type `t₁* → t₂*`, in
which `unreachable`, `br`, `br_table` and `return` are stack-polymorphic. Operand stacks are
written top first, so a type sequence is reversed when it is put on the stack.

## Main definitions

* `PlainTyped`: the rules of the instructions without nested instructions.
* `Typed`: the rules of instruction sequences.
* `Typed.balancedFrom`: in a well-typed sequence an `if` without `else` has equal parameter
  and result types, and all labels of a `br_table` have the same types (`balanced`).
-/

namespace WasmCompiler

/-- The type and mutability of a global. -/
structure GlobalType where
  type : WasmType
  isMutable : Bool
  deriving DecidableEq, Repr

/-- A validation context. -/
structure Context where
  types : List FuncType
  funcs : List FuncType
  hasTable : Bool
  hasMemory : Bool
  globals : List GlobalType
  locals : List WasmType
  /-- The label types of the enclosing blocks, innermost first. -/
  labels : List (List WasmType)
  /-- The result types of the function. -/
  results : List WasmType

namespace Context

/-- The function type of a block type. -/
def blockType (C : Context) : BlockType → Option FuncType
  | .void => some ⟨[], []⟩
  | .value type => some ⟨[], [type]⟩
  | .index typeIndex => C.types[typeIndex]?

/-- The context inside a block whose label has the given types. -/
def withLabel (C : Context) (label : List WasmType) : Context :=
  { C with labels := label :: C.labels }

end Context

/-! ### Typing tables -/

/-- The shapes of arithmetic instructions. -/
inductive ArithShape where
  | unop (t : WasmType)
  | binop (t : WasmType)
  | testop (t : WasmType)
  | relop (t : WasmType)
  | cvtop (source target : WasmType)

/-- The operands of a shape. -/
def ArithShape.operands : ArithShape → List WasmType
  | unop t | testop t => [t]
  | binop t | relop t => [t, t]
  | cvtop source _ => [source]

/-- The result of a shape. -/
def ArithShape.result : ArithShape → WasmType
  | unop t | binop t => t
  | testop _ | relop _ => .i32
  | cvtop _ target => target

/-- The shape of an arithmetic instruction. -/
def ArithOp.shape : ArithOp → ArithShape
  | i32Clz | i32Ctz | i32Popcnt | i32Extend8S | i32Extend16S => .unop .i32
  | i64Clz | i64Ctz | i64Popcnt | i64Extend8S | i64Extend16S | i64Extend32S => .unop .i64
  | f32Abs | f32Neg | f32Ceil | f32Floor | f32Trunc | f32Nearest | f32Sqrt => .unop .f32
  | f64Abs | f64Neg | f64Ceil | f64Floor | f64Trunc | f64Nearest | f64Sqrt => .unop .f64
  | i32Add | i32Sub | i32Mul | i32DivS | i32DivU | i32RemS | i32RemU | i32And | i32Or | i32Xor
  | i32Shl | i32ShrS | i32ShrU | i32Rotl | i32Rotr => .binop .i32
  | i64Add | i64Sub | i64Mul | i64DivS | i64DivU | i64RemS | i64RemU | i64And | i64Or | i64Xor
  | i64Shl | i64ShrS | i64ShrU | i64Rotl | i64Rotr => .binop .i64
  | f32Add | f32Sub | f32Mul | f32Div | f32Min | f32Max | f32Copysign => .binop .f32
  | f64Add | f64Sub | f64Mul | f64Div | f64Min | f64Max | f64Copysign => .binop .f64
  | i32Eqz => .testop .i32
  | i64Eqz => .testop .i64
  | i32Eq | i32Ne | i32LtS | i32LtU | i32GtS | i32GtU | i32LeS | i32LeU | i32GeS | i32GeU =>
      .relop .i32
  | i64Eq | i64Ne | i64LtS | i64LtU | i64GtS | i64GtU | i64LeS | i64LeU | i64GeS | i64GeU =>
      .relop .i64
  | f32Eq | f32Ne | f32Lt | f32Gt | f32Le | f32Ge => .relop .f32
  | f64Eq | f64Ne | f64Lt | f64Gt | f64Le | f64Ge => .relop .f64
  | i32WrapI64 => .cvtop .i64 .i32
  | i32TruncF64S | i32TruncF64U => .cvtop .f64 .i32
  | i32TruncF32S | i32TruncF32U | i32ReinterpretF32 => .cvtop .f32 .i32
  | i64ExtendI32S | i64ExtendI32U => .cvtop .i32 .i64
  | i64TruncF32S | i64TruncF32U => .cvtop .f32 .i64
  | i64TruncF64S | i64TruncF64U | i64ReinterpretF64 => .cvtop .f64 .i64
  | f32ConvertI32S | f32ConvertI32U | f32ReinterpretI32 => .cvtop .i32 .f32
  | f32ConvertI64S | f32ConvertI64U => .cvtop .i64 .f32
  | f32DemoteF64 => .cvtop .f64 .f32
  | f64ConvertI32S | f64ConvertI32U => .cvtop .i32 .f64
  | f64ConvertI64S | f64ConvertI64U | f64ReinterpretI64 => .cvtop .i64 .f64
  | f64PromoteF32 => .cvtop .f32 .f64

/-- The value type of a load and the number of bits it reads. -/
def LoadOp.shape : LoadOp → WasmType × ℕ
  | i32Load => (.i32, 32)
  | i64Load => (.i64, 64)
  | f32Load => (.f32, 32)
  | f64Load => (.f64, 64)
  | i32Load8S | i32Load8U => (.i32, 8)
  | i32Load16S | i32Load16U => (.i32, 16)
  | i64Load8S | i64Load8U => (.i64, 8)
  | i64Load16S | i64Load16U => (.i64, 16)
  | i64Load32S | i64Load32U => (.i64, 32)

/-- The value type of a store and the number of bits it writes. -/
def StoreOp.shape : StoreOp → WasmType × ℕ
  | i32Store => (.i32, 32)
  | i64Store => (.i64, 64)
  | f32Store => (.f32, 32)
  | f64Store => (.f64, 64)
  | i32Store8 => (.i32, 8)
  | i32Store16 => (.i32, 16)
  | i64Store8 => (.i64, 8)
  | i64Store16 => (.i64, 16)
  | i64Store32 => (.i64, 32)

/-! ### The typing rules -/

/-- The types of the instructions without nested instructions: the operands an instruction
takes and the results it leaves, both top first. -/
inductive PlainTyped (C : Context) : Plain → List WasmType → List WasmType → Prop where
  | unreachable {a b : List WasmType} : PlainTyped C .unreachable a b
  | nop : PlainTyped C .nop [] []
  | br {l : ℕ} {ts a b : List WasmType} (h : C.labels[l]? = some ts) :
      PlainTyped C (.br l) (ts.reverse ++ a) b
  | brIf {l : ℕ} {ts : List WasmType} (h : C.labels[l]? = some ts) :
      PlainTyped C (.brIf l) (.i32 :: ts.reverse) ts.reverse
  | brTable {ls : List ℕ} {d : ℕ} {ts a b : List WasmType}
      (h : ∀ l ∈ ls, C.labels[l]? = some ts) (hd : C.labels[d]? = some ts) :
      PlainTyped C (.brTable ls d) (.i32 :: (ts.reverse ++ a)) b
  | return_ {a b : List WasmType} : PlainTyped C .return_ (C.results.reverse ++ a) b
  | call {i : ℕ} {ft : FuncType} (h : C.funcs[i]? = some ft) :
      PlainTyped C (.call i) ft.params.reverse ft.results.reverse
  | callIndirect {i : ℕ} {ft : FuncType} (ht : C.hasTable = true) (h : C.types[i]? = some ft) :
      PlainTyped C (.callIndirect i 0) (.i32 :: ft.params.reverse) ft.results.reverse
  | drop {t : WasmType} : PlainTyped C .drop [t] []
  | select {t : WasmType} : PlainTyped C .select [.i32, t, t] [t]
  | localGet {i : ℕ} {t : WasmType} (h : C.locals[i]? = some t) :
      PlainTyped C (.localGet i) [] [t]
  | localSet {i : ℕ} {t : WasmType} (h : C.locals[i]? = some t) :
      PlainTyped C (.localSet i) [t] []
  | localTee {i : ℕ} {t : WasmType} (h : C.locals[i]? = some t) :
      PlainTyped C (.localTee i) [t] [t]
  | globalGet {i : ℕ} {g : GlobalType} (h : C.globals[i]? = some g) :
      PlainTyped C (.globalGet i) [] [g.type]
  | globalSet {i : ℕ} {g : GlobalType} (h : C.globals[i]? = some g)
      (hm : g.isMutable = true) : PlainTyped C (.globalSet i) [g.type] []
  | load {op : LoadOp} {alignment : ℕ} (hm : C.hasMemory = true)
      (ha : 2 ^ alignment * 8 ≤ op.shape.2) :
      PlainTyped C (.load op alignment) [.i32] [op.shape.1]
  | store {op : StoreOp} {alignment : ℕ} (hm : C.hasMemory = true)
      (ha : 2 ^ alignment * 8 ≤ op.shape.2) :
      PlainTyped C (.store op alignment) [op.shape.1, .i32] []
  | memorySize (hm : C.hasMemory = true) : PlainTyped C .memorySize [] [.i32]
  | memoryGrow (hm : C.hasMemory = true) : PlainTyped C .memoryGrow [.i32] [.i32]
  | memoryCopy (hm : C.hasMemory = true) : PlainTyped C .memoryCopy [.i32, .i32, .i32] []
  | memoryFill (hm : C.hasMemory = true) : PlainTyped C .memoryFill [.i32, .i32, .i32] []
  | const {t : WasmType} : PlainTyped C (.const t) [] [t]
  | arith {op : ArithOp} : PlainTyped C (.arith op) op.shape.operands [op.shape.result]

/-- The types of instruction sequences: the empty sequence leaves the stack alone, and a
sequence followed by an instruction needs the instruction's operands on top of what the
sequence leaves. The label of a `loop` has its parameter types, that of any other block its
result types, and an `if` without `else` has an empty `else` branch. -/
inductive Typed : Context → List Instr → List WasmType → List WasmType → Prop where
  | empty {C : Context} {ts : List WasmType} : Typed C [] ts ts
  | plain {C : Context} {instrs : List Instr} {p : Plain} {ts a b u : List WasmType}
      (hs : Typed C instrs ts (a ++ u)) (hp : PlainTyped C p a b) :
      Typed C (instrs ++ [.plain p]) ts (b ++ u)
  | block {C : Context} {instrs body : List Instr} {bt : BlockType} {ft : FuncType}
      {ts u : List WasmType} (hs : Typed C instrs ts (ft.params.reverse ++ u))
      (ht : C.blockType bt = some ft)
      (hb : Typed (C.withLabel ft.results) body ft.params.reverse ft.results.reverse) :
      Typed C (instrs ++ [.block bt body]) ts (ft.results.reverse ++ u)
  | loop {C : Context} {instrs body : List Instr} {bt : BlockType} {ft : FuncType}
      {ts u : List WasmType} (hs : Typed C instrs ts (ft.params.reverse ++ u))
      (ht : C.blockType bt = some ft)
      (hb : Typed (C.withLabel ft.params) body ft.params.reverse ft.results.reverse) :
      Typed C (instrs ++ [.loop bt body]) ts (ft.results.reverse ++ u)
  | ifElse {C : Context} {instrs thenBody elseBody : List Instr} {bt : BlockType}
      {ft : FuncType} {ts u : List WasmType}
      (hs : Typed C instrs ts (.i32 :: (ft.params.reverse ++ u)))
      (ht : C.blockType bt = some ft)
      (hthen : Typed (C.withLabel ft.results) thenBody ft.params.reverse ft.results.reverse)
      (helse : Typed (C.withLabel ft.results) elseBody ft.params.reverse ft.results.reverse) :
      Typed C (instrs ++ [.ifElse bt thenBody elseBody]) ts (ft.results.reverse ++ u)
  | ifThen {C : Context} {instrs thenBody : List Instr} {bt : BlockType} {ft : FuncType}
      {ts u : List WasmType} (hs : Typed C instrs ts (.i32 :: (ft.params.reverse ++ u)))
      (ht : C.blockType bt = some ft)
      (hthen : Typed (C.withLabel ft.results) thenBody ft.params.reverse ft.results.reverse)
      (helse : Typed (C.withLabel ft.results) [] ft.params.reverse ft.results.reverse) :
      Typed C (instrs ++ [.ifThen bt thenBody]) ts (ft.results.reverse ++ u)

/-- The empty sequence leaves the stack alone. -/
theorem Typed.of_nil {C : Context} {instrs : List Instr} {ts ts' : List WasmType}
    (h : Typed C instrs ts ts') (hi : instrs = []) : ts = ts' := by
  cases h with
  | empty => rfl
  | _ => simp at hi

/-! ### Conditionals without `else` and branch tables -/

/-- The kinds of blocks; `if_` is an `if` whose `else` has not been met. -/
inductive BlockKind where
  | func
  | block
  | loop
  | if_
  deriving DecidableEq, Repr

/-- A block that is open at some point of a body. -/
structure OpenBlock where
  kind : BlockKind
  type : FuncType
  deriving DecidableEq, Repr

/-- The types of the label of a block. -/
def OpenBlock.label (b : OpenBlock) : List WasmType :=
  match b.kind with
  | .loop => b.type.params
  | _ => b.type.results

/-- The open blocks after an opcode. -/
def openAfter (C : Context) (open_ : List OpenBlock) : OPCode → List OpenBlock
  | .plain _ => open_
  | .block bt => ⟨.block, (C.blockType bt).getD ⟨[], []⟩⟩ :: open_
  | .loop bt => ⟨.loop, (C.blockType bt).getD ⟨[], []⟩⟩ :: open_
  | .if_ bt => ⟨.if_, (C.blockType bt).getD ⟨[], []⟩⟩ :: open_
  | .else_ =>
      match open_ with
      | b :: rest => { b with kind := .block } :: rest
      | [] => []
  | .end_ => open_.tail

/-- At one opcode: an `if` that ends without `else` has equal parameter and result types,
and all labels of a `br_table` have the types of the default one. -/
def balancedAt (open_ : List OpenBlock) : OPCode → Bool
  | .end_ =>
      match open_ with
      | b :: _ => b.kind ≠ .if_ ∨ b.type.params = b.type.results
      | [] => true
  | .plain (.brTable ls d) =>
      ls.all fun l => (open_[l]?).map OpenBlock.label = (open_[d]?).map OpenBlock.label
  | _ => true

/-- Every opcode of a body is balanced, given the blocks that are open where it starts. -/
def balancedFrom (C : Context) : List OpenBlock → List OPCode → Bool
  | _, [] => true
  | open_, op :: ops => balancedAt open_ op && balancedFrom C (openAfter C open_ op) ops

/-- **A well-typed sequence is balanced**: what follows it decides. -/
theorem Typed.balancedFrom {C : Context} {instrs : List Instr} {ts ts' : List WasmType}
    (h : Typed C instrs ts ts') {open_ : List OpenBlock}
    (hlabels : C.labels = open_.map OpenBlock.label) (C₀ : Context)
    (htypes : ∀ bt, C₀.blockType bt = C.blockType bt) (rest : List OPCode) :
    WasmCompiler.balancedFrom C₀ open_ (flattenAll instrs ++ rest) =
      WasmCompiler.balancedFrom C₀ open_ rest := by
  induction h generalizing open_ rest with
  | empty => rfl
  | plain _ hp ih =>
      rw [flattenAll_concat, List.append_assoc, ih hlabels htypes]
      simp only [Instr.flatten, List.cons_append, List.nil_append, WasmCompiler.balancedFrom,
        openAfter, Bool.and_eq_right_iff_imp]
      intro _
      cases hp with
      | brTable h hd =>
          simp only [balancedAt, List.all_eq_true, decide_eq_true_eq]
          intro l hl
          have hl' := h l hl
          rw [hlabels, List.getElem?_map] at hl' hd
          rw [hl', hd]
      | _ => rfl
  | @block C instrs body bt ft ts u _ ht _ ih ihb =>
      rw [flattenAll_concat, List.append_assoc, ih hlabels htypes]
      have hb := @ihb (⟨.block, ft⟩ :: open_) (by simp [Context.withLabel, hlabels,
        OpenBlock.label]) htypes (.end_ :: rest)
      simp only [Instr.flatten, List.cons_append, List.append_assoc, List.nil_append,
        WasmCompiler.balancedFrom, openAfter, htypes, ht, Option.getD_some, hb]
      simp [balancedAt]
  | @loop C instrs body bt ft ts u _ ht _ ih ihb =>
      rw [flattenAll_concat, List.append_assoc, ih hlabels htypes]
      have hb := @ihb (⟨.loop, ft⟩ :: open_) (by simp [Context.withLabel, hlabels,
        OpenBlock.label]) htypes (.end_ :: rest)
      simp only [Instr.flatten, List.cons_append, List.append_assoc, List.nil_append,
        WasmCompiler.balancedFrom, openAfter, htypes, ht, Option.getD_some, hb]
      simp [balancedAt]
  | @ifElse C instrs thenBody elseBody bt ft ts u _ ht _ _ ih ihthen ihelse =>
      rw [flattenAll_concat, List.append_assoc, ih hlabels htypes]
      have helse := @ihelse (⟨.block, ft⟩ :: open_) (by simp [Context.withLabel, hlabels,
        OpenBlock.label]) htypes (.end_ :: rest)
      have hthen := @ihthen (⟨.if_, ft⟩ :: open_) (by simp [Context.withLabel, hlabels,
        OpenBlock.label]) htypes (.else_ :: (flattenAll elseBody ++ .end_ :: rest))
      simp only [Instr.flatten, List.cons_append, List.append_assoc, List.nil_append,
        WasmCompiler.balancedFrom, openAfter, htypes, ht, Option.getD_some, hthen, helse]
      simp [balancedAt]
  | @ifThen C instrs thenBody bt ft ts u _ ht _ helse ih ihthen _ =>
      rw [flattenAll_concat, List.append_assoc, ih hlabels htypes]
      have hthen := @ihthen (⟨.if_, ft⟩ :: open_) (by simp [Context.withLabel, hlabels,
        OpenBlock.label]) htypes (.end_ :: rest)
      have hsame : ft.params = ft.results := List.reverse_inj.mp (helse.of_nil rfl)
      simp only [Instr.flatten, List.cons_append, List.append_assoc, List.nil_append,
        WasmCompiler.balancedFrom, openAfter, htypes, ht, Option.getD_some, hthen]
      simp [balancedAt, hsame]

end WasmCompiler
