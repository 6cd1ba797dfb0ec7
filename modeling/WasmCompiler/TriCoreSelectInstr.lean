import WasmCompiler.RelPatchTriCore
import WasmCompiler.TriCoreSpills

/-!
# Instruction Selection on TriCore

The assembler selects, among the instructions of a family, the shortest one for the operands at
hand. The cost of an instruction counts the moves of constants to registers; an instruction that
overwrites its first source is possible if that source can be in the register of the result. Only
behind the selection are the operands moved, to the target hint, to `D15` or to a scratch register.

## Main results

* `chooseInstr_spec`: an instruction that is selected has a possible cost, and no other one of the
  family is better.
* `exists_chooseInstr`: some instruction of a family is selected.
* `not_moved_of_takes`, `moved_of_not_takes`: a constant beside a register is moved exactly if no
  immediate of the family takes it.
-/

namespace WasmCompiler

namespace TriCore

open ByteMemory Machine

/-! ### Abstract instructions -/

/-- The types of sources and destinations that `selectInstr` supports. -/
inductive ArgType where
  | none
  | d15
  | dataReg32_a
  | dataReg32_b
  | dataReg32_c
  | const4sx_32
  | const8zx_32
  | const9sx_32
  | const9zx_32
  | const16sx_32
  deriving DecidableEq, Repr

/-- `isDataReg32`. -/
def isDataReg32 : ArgType → Bool
  | .dataReg32_a | .dataReg32_b | .dataReg32_c => true
  | _ => false

/-- The operations of the instructions. -/
inductive Mnemonic where
  | CLZ
  | POPCNTW
  | ADD
  | AND
  | OR
  | SUB
  | MUL
  | XOR
  | SH
  | SHA
  deriving DecidableEq, Repr

/-- The count of a shift, six bits with a sign; negative for a shift to the right. -/
def shiftCount (count : BitVec 32) : ℤ := (count.setWidth 6).toInt

/-- What an instruction computes from its sources. -/
def Mnemonic.eval : Mnemonic → BitVec 32 → BitVec 32 → BitVec 32
  | CLZ, a, _ => a.clz
  | POPCNTW, a, _ => a.cpop
  | ADD, a, b => a + b
  | AND, a, b => a &&& b
  | OR, a, b => a ||| b
  | SUB, a, b => a - b
  | MUL, a, b => a * b
  | XOR, a, b => a ^^^ b
  | SH, a, b => if 0 ≤ shiftCount b then a <<< (shiftCount b).toNat
      else a >>> (-shiftCount b).toNat
  | SHA, a, b => if 0 ≤ shiftCount b then a <<< (shiftCount b).toNat
      else a.sshiftRight (-shiftCount b).toNat

/-- `AbstrInstr`, with the operation that the opcode stands for. -/
structure AbstrInstr where
  mnemonic : Mnemonic
  opcode : BitVec 32
  destType : ArgType
  src0Type : ArgType
  src1Type : ArgType
  src_0_1_commutative : Bool
  src0_dst_same : Bool
  useD15 : Bool
  deriving DecidableEq, Repr

/-- Count leading zeros. -/
def I_CLZ_Dc_Da : AbstrInstr :=
  ⟨.CLZ, 0x01B0000F, .dataReg32_c, .dataReg32_a, .none, false, false, false⟩

/-- Count population. -/
def I_POPCNTW_Dc_Da : AbstrInstr :=
  ⟨.POPCNTW, 0x0220004B, .dataReg32_c, .dataReg32_a, .none, false, false, false⟩

/-- Add immediate. -/
def I_ADDI_Dc_Da_const16sx : AbstrInstr :=
  ⟨.ADD, 0x0000001B, .dataReg32_c, .dataReg32_a, .const16sx_32, true, false, false⟩

/-- Add. -/
def I_ADD_Dc_Da_Db : AbstrInstr :=
  ⟨.ADD, 0x0000000B, .dataReg32_c, .dataReg32_a, .dataReg32_b, true, false, false⟩

/-- Add, with 16 bits. -/
def I_ADD_Da_D15_const4sx : AbstrInstr :=
  ⟨.ADD, 0x0092, .dataReg32_a, .d15, .const4sx_32, true, false, true⟩

/-- Add, with 16 bits. -/
def I_ADD_D15_Da_const4sx : AbstrInstr :=
  ⟨.ADD, 0x009A, .d15, .dataReg32_a, .const4sx_32, true, false, true⟩

/-- Add, with 16 bits. -/
def I_ADD_Da_const4sx : AbstrInstr :=
  ⟨.ADD, 0x00C2, .dataReg32_a, .dataReg32_a, .const4sx_32, true, true, false⟩

/-- Add, with 16 bits. -/
def I_ADD_Da_D15_Db : AbstrInstr :=
  ⟨.ADD, 0x0012, .dataReg32_a, .d15, .dataReg32_b, true, false, true⟩

/-- Add, with 16 bits. -/
def I_ADD_D15_Da_Db : AbstrInstr :=
  ⟨.ADD, 0x001A, .d15, .dataReg32_a, .dataReg32_b, true, false, true⟩

/-- Add, with 16 bits. -/
def I_ADD_Da_Db : AbstrInstr :=
  ⟨.ADD, 0x0042, .dataReg32_a, .dataReg32_a, .dataReg32_b, true, true, false⟩

/-- Bitwise and. -/
def I_AND_Dc_Da_const9zx : AbstrInstr :=
  ⟨.AND, 0x0100008F, .dataReg32_c, .dataReg32_a, .const9zx_32, true, false, false⟩

/-- Bitwise and. -/
def I_AND_Dc_Da_Db : AbstrInstr :=
  ⟨.AND, 0x0080000F, .dataReg32_c, .dataReg32_a, .dataReg32_b, true, false, false⟩

/-- Bitwise and, with 16 bits. -/
def I_AND_D15_const8zx : AbstrInstr :=
  ⟨.AND, 0x0016, .d15, .d15, .const8zx_32, true, true, true⟩

/-- Bitwise and, with 16 bits. -/
def I_AND_Da_Db : AbstrInstr :=
  ⟨.AND, 0x0026, .dataReg32_a, .dataReg32_a, .dataReg32_b, true, true, false⟩

/-- Bitwise or. -/
def I_OR_Dc_Da_const9zx : AbstrInstr :=
  ⟨.OR, 0x0140008F, .dataReg32_c, .dataReg32_a, .const9zx_32, true, false, false⟩

/-- Bitwise or. -/
def I_OR_Dc_Da_Db : AbstrInstr :=
  ⟨.OR, 0x00A0000F, .dataReg32_c, .dataReg32_a, .dataReg32_b, true, false, false⟩

/-- Bitwise or, with 16 bits. -/
def I_OR_D15_const8zx : AbstrInstr :=
  ⟨.OR, 0x0096, .d15, .d15, .const8zx_32, true, true, true⟩

/-- Bitwise or, with 16 bits. -/
def I_OR_Da_Db : AbstrInstr :=
  ⟨.OR, 0x00A6, .dataReg32_a, .dataReg32_a, .dataReg32_b, true, true, false⟩

/-- Subtract. -/
def I_SUB_Dc_Da_Db : AbstrInstr :=
  ⟨.SUB, 0x0080000B, .dataReg32_c, .dataReg32_a, .dataReg32_b, false, false, false⟩

/-- Subtract, with 16 bits. -/
def I_SUB_Dc_D15_Db : AbstrInstr :=
  ⟨.SUB, 0x0052, .dataReg32_c, .d15, .dataReg32_b, false, false, true⟩

/-- Subtract, with 16 bits. -/
def I_SUB_D15_Da_Db : AbstrInstr :=
  ⟨.SUB, 0x005A, .d15, .dataReg32_a, .dataReg32_b, false, false, true⟩

/-- Subtract, with 16 bits. -/
def I_SUB_Da_Db : AbstrInstr :=
  ⟨.SUB, 0x00A2, .dataReg32_a, .dataReg32_a, .dataReg32_b, false, true, false⟩

/-- Multiply. -/
def I_MUL_Dc_Da_const9sx : AbstrInstr :=
  ⟨.MUL, 0x00200053, .dataReg32_c, .dataReg32_a, .const9sx_32, true, false, false⟩

/-- Multiply. -/
def I_MUL_Dc_Da_Db : AbstrInstr :=
  ⟨.MUL, 0x000A0073, .dataReg32_c, .dataReg32_a, .dataReg32_b, true, false, false⟩

/-- Multiply, with 16 bits. -/
def I_MUL_Da_Db : AbstrInstr :=
  ⟨.MUL, 0x00E2, .dataReg32_a, .dataReg32_a, .dataReg32_b, true, true, false⟩

/-- Shift. -/
def I_SH_Dc_Da_const9sx : AbstrInstr :=
  ⟨.SH, 0x0000008F, .dataReg32_c, .dataReg32_a, .const9sx_32, false, false, false⟩

/-- Shift. -/
def I_SH_Dc_Da_Db : AbstrInstr :=
  ⟨.SH, 0x0000000F, .dataReg32_c, .dataReg32_a, .dataReg32_b, false, false, false⟩

/-- Shift, with 16 bits. -/
def I_SH_Da_const4sx : AbstrInstr :=
  ⟨.SH, 0x0006, .dataReg32_a, .dataReg32_a, .const4sx_32, false, true, false⟩

/-- Arithmetic shift. -/
def I_SHA_Dc_Da_const9sx : AbstrInstr :=
  ⟨.SHA, 0x0020008F, .dataReg32_c, .dataReg32_a, .const9sx_32, false, false, false⟩

/-- Arithmetic shift. -/
def I_SHA_Dc_Da_Db : AbstrInstr :=
  ⟨.SHA, 0x0010000F, .dataReg32_c, .dataReg32_a, .dataReg32_b, false, false, false⟩

/-- Arithmetic shift, with 16 bits. -/
def I_SHA_Da_const4sx : AbstrInstr :=
  ⟨.SHA, 0x0086, .dataReg32_a, .dataReg32_a, .const4sx_32, false, true, false⟩

/-- Bitwise exclusive or. -/
def I_XOR_Dc_Da_const9zx : AbstrInstr :=
  ⟨.XOR, 0x0180008F, .dataReg32_c, .dataReg32_a, .const9zx_32, true, false, false⟩

/-- Bitwise exclusive or. -/
def I_XOR_Dc_Da_Db : AbstrInstr :=
  ⟨.XOR, 0x00C0000F, .dataReg32_c, .dataReg32_a, .dataReg32_b, true, false, false⟩

/-- Bitwise exclusive or, with 16 bits. -/
def I_XOR_Da_Db : AbstrInstr :=
  ⟨.XOR, 0x00C6, .dataReg32_a, .dataReg32_a, .dataReg32_b, true, true, false⟩

/-- The families that `emitDeferredAction` selects from. -/
inductive InstrFamily where
  | clz
  | popcnt
  | add
  | sub
  | mul
  | and
  | or
  | xor
  | shConst
  | shaConst
  | sh
  | sha
  deriving DecidableEq, Repr

namespace InstrFamily

/-- The instructions of a family, in the order of the source. -/
def instructions : InstrFamily → List AbstrInstr
  | clz => [I_CLZ_Dc_Da]
  | popcnt => [I_POPCNTW_Dc_Da]
  | add => [I_ADD_Da_const4sx, I_ADD_Da_Db, I_ADD_Da_D15_const4sx, I_ADD_D15_Da_const4sx,
      I_ADD_Da_D15_Db, I_ADD_D15_Da_Db, I_ADDI_Dc_Da_const16sx, I_ADD_Dc_Da_Db]
  | sub => [I_SUB_Da_Db, I_SUB_Dc_D15_Db, I_SUB_D15_Da_Db, I_SUB_Dc_Da_Db]
  | mul => [I_MUL_Da_Db, I_MUL_Dc_Da_const9sx, I_MUL_Dc_Da_Db]
  | and => [I_AND_D15_const8zx, I_AND_Da_Db, I_AND_Dc_Da_Db, I_AND_Dc_Da_const9zx]
  | or => [I_OR_D15_const8zx, I_OR_Da_Db, I_OR_Dc_Da_Db, I_OR_Dc_Da_const9zx]
  | xor => [I_XOR_Da_Db, I_XOR_Dc_Da_const9zx, I_XOR_Dc_Da_Db]
  | shConst => [I_SH_Da_const4sx, I_SH_Dc_Da_const9sx]
  | shaConst => [I_SHA_Da_const4sx, I_SHA_Dc_Da_const9sx]
  | sh => [I_SH_Dc_Da_Db]
  | sha => [I_SHA_Dc_Da_Db]

/-- The operation of a family. -/
def op : InstrFamily → BitVec 32 → BitVec 32 → BitVec 32
  | clz => Mnemonic.CLZ.eval
  | popcnt => Mnemonic.POPCNTW.eval
  | add => Mnemonic.ADD.eval
  | sub => Mnemonic.SUB.eval
  | mul => Mnemonic.MUL.eval
  | and => Mnemonic.AND.eval
  | or => Mnemonic.OR.eval
  | xor => Mnemonic.XOR.eval
  | shConst | sh => Mnemonic.SH.eval
  | shaConst | sha => Mnemonic.SHA.eval

end InstrFamily

/-! ### Costs -/

/-- `invalidMovCost`. -/
def invalidMovCost : ℕ := 2 ^ 32 - 1

/-- The ranges of constants that `getOperandMovCost` tells apart. -/
inductive ConstRange where
  | negative4
  | positive4
  | unsigned8
  | negative9
  | unsigned9
  | signed16
  | unsigned16
  | wide
  deriving DecidableEq, Repr

/-- The range of a constant, by the checks in the order of the source. -/
def constRange (value : BitVec 32) : ConstRange :=
  if -8 ≤ value.toInt ∧ value.toInt ≤ 7 then
    if value.toInt < 0 then .negative4 else .positive4
  else if value.toNat ≤ 255 then .unsigned8
  else if -256 ≤ value.toInt ∧ value.toInt ≤ 255 then .negative9
  else if value.toNat ≤ 511 then .unsigned9
  else if -32768 ≤ value.toInt ∧ value.toInt ≤ 32767 then .signed16
  else if value.toNat ≤ 65535 then .unsigned16
  else .wide

/-- The array of costs for a constant, with its entries in the order of `ArgType`. -/
def ConstRange.cost (d15 dataReg32 const4sx const8zx const9sx const9zx const16sx : ℕ) :
    ArgType → ℕ
  | .none => 0
  | .d15 => d15
  | .dataReg32_a | .dataReg32_b | .dataReg32_c => dataReg32
  | .const4sx_32 => const4sx
  | .const8zx_32 => const8zx
  | .const9sx_32 => const9sx
  | .const9zx_32 => const9zx
  | .const16sx_32 => const16sx

/-- The costs of moving a constant. -/
def ConstRange.movCost : ConstRange → ArgType → ℕ
  | negative4 => cost 2 2 0 invalidMovCost 0 invalidMovCost 0
  | positive4 => cost 2 2 0 0 0 0 0
  | unsigned8 => cost 2 4 invalidMovCost 0 0 0 0
  | negative9 => cost 4 4 invalidMovCost invalidMovCost 0 invalidMovCost 0
  | unsigned9 => cost 4 4 invalidMovCost invalidMovCost invalidMovCost 0 0
  | signed16 => cost 4 4 invalidMovCost invalidMovCost invalidMovCost invalidMovCost 0
  | unsigned16 =>
      cost 4 4 invalidMovCost invalidMovCost invalidMovCost invalidMovCost invalidMovCost
  | wide => cost 8 8 invalidMovCost invalidMovCost invalidMovCost invalidMovCost invalidMovCost

/-- What an operand is, as far as costs depend on it. -/
inductive OperandKind where
  | const (range : ConstRange)
  | d15
  | data
  | other
  deriving DecidableEq, Repr

/-- The cost of moving an operand to a type. -/
def OperandKind.movCost : OperandKind → ArgType → ℕ
  | _, .none => 0
  | const range, argType => range.movCost argType
  | d15, .d15 | d15, .dataReg32_a | d15, .dataReg32_b | d15, .dataReg32_c => 0
  | data, .dataReg32_a | data, .dataReg32_b | data, .dataReg32_c => 0
  | _, _ => invalidMovCost

/-- What a storage is, as far as costs depend on it. -/
def operandKind (storage : VariableStorage REG) : OperandKind :=
  match storage.location with
  | .constant value => .const (constRange (value.setWidth 32))
  | .register reg => if reg = .D 15 then .d15 else if reg.isDATA then .data else .other
  | _ => .other

/-- `getOperandMovCost`. -/
def getOperandMovCost (argType : ArgType) (storage : VariableStorage REG) : ℕ :=
  (operandKind storage).movCost argType

/-- `needMoveOperand`, for a cost. -/
def needMove (cost : ℕ) : Bool := cost != 0 && cost != invalidMovCost

/-- `OperandMovement`. -/
structure OperandMovement where
  cost : ℕ
  liftCount : ℕ
  movArg0 : Bool
  movArg1 : Bool
  reversed : Bool
  deriving DecidableEq, Repr

/-- The movement with an invalid cost. -/
def OperandMovement.invalid : OperandMovement := ⟨invalidMovCost, 0, false, false, false⟩

/-- What the costs of instructions depend on: the kinds of the operands, whether they are the same,
whether each can be in the register of the result (it is in the target hint, or in a scratch
register that can be written, if there is no hint), whether an operand that is moved can, whether
the hint is not `D15`, and whether `D15` is available. -/
structure Situation where
  kind0 : OperandKind
  kind1 : OperandKind
  isArgsSame : Bool
  isDst0 : Bool
  isDst1 : Bool
  liftedIsDst : Bool
  hintNotD15 : Bool
  isD15Available : Bool
  deriving DecidableEq, Repr

/-- `getOperandMovement`. -/
def getOperandMovement (x : Situation) (isSrcTypeSame : Bool) (instructionSize : ℕ)
    (src0Type src1Type : ArgType) : OperandMovement :=
  let arg0MoveCost := x.kind0.movCost src0Type
  let arg1MoveCost := if x.isArgsSame && isSrcTypeSame then 0 else x.kind1.movCost src1Type
  { cost := if arg0MoveCost = invalidMovCost ∨ arg1MoveCost = invalidMovCost then invalidMovCost
      else arg0MoveCost + arg1MoveCost + instructionSize
    liftCount := (if needMove (x.kind0.movCost src0Type) then 1 else 0) +
      if needMove arg1MoveCost then 1 else 0
    movArg0 := needMove (x.kind0.movCost src0Type)
    movArg1 := needMove (x.kind1.movCost src1Type)
    reversed := false }

namespace AbstrInstr

variable (i : AbstrInstr) (x : Situation)

/-- The types of the sources are the same. -/
def isSrcTypeSame : Bool :=
  i.src0Type == i.src1Type || (isDataReg32 i.src0Type && isDataReg32 i.src1Type)

/-- The size of the instruction. -/
def instructionSize : ℕ := if is16BitInstr i.opcode then 2 else 4

/-- The movement with the operands as they are. -/
def result : OperandMovement :=
  getOperandMovement x i.isSrcTypeSame i.instructionSize i.src0Type i.src1Type

/-- The movement with the operands swapped. -/
def swappedResult : OperandMovement :=
  { getOperandMovement x i.isSrcTypeSame i.instructionSize i.src1Type i.src0Type with
    reversed := true }

/-- The first operand can be in the register of the result. -/
def canSrc0DstBeSame : Bool := x.isDst0 || ((i.result x).movArg0 && x.liftedIsDst)

/-- The second operand can be in the register of the result. -/
def canSwappedSrc0DstBeSame : Bool := x.isDst1 || ((i.swappedResult x).movArg1 && x.liftedIsDst)

end AbstrInstr

/-- `getInstructionCost`. -/
def getInstructionCost (i : AbstrInstr) (x : Situation) : OperandMovement :=
  if i.useD15 && !x.isD15Available then .invalid
  else if i.destType == .d15 && x.hintNotD15 then .invalid
  else if i.src_0_1_commutative then
    if i.src0_dst_same && !i.canSrc0DstBeSame x && !i.canSwappedSrc0DstBeSame x then .invalid
    else if i.src0_dst_same && !i.canSrc0DstBeSame x then i.swappedResult x
    else if i.src0_dst_same && !i.canSwappedSrc0DstBeSame x then i.result x
    else if (i.swappedResult x).cost < (i.result x).cost then i.swappedResult x else i.result x
  else if i.src0_dst_same && !i.canSrc0DstBeSame x then .invalid
  else i.result x

/-- A movement is better than another one. -/
def OperandMovement.better (cost minCostMovement : OperandMovement) : Bool :=
  decide (cost.cost < minCostMovement.cost) ||
    (cost.cost == minCostMovement.cost && decide (cost.liftCount < minCostMovement.liftCount))

/-- The loop of `selectInstr` over the instructions. -/
def chooseInstr (x : Situation) (instructions : List AbstrInstr) :
    Option AbstrInstr × OperandMovement :=
  instructions.foldl (fun selected i =>
    if (getInstructionCost i x).better selected.2 then (some i, getInstructionCost i x)
    else selected) (none, .invalid)

/-! ### What a selection says -/

section Selection

variable {i : AbstrInstr} {x : Situation}

/-- The instruction is possible with the available registers. -/
structure AbstrInstr.Possible (i : AbstrInstr) (x : Situation) : Prop where
  useD15 : i.useD15 = true → x.isD15Available = true
  destType : i.destType = .d15 → x.hintNotD15 = false

/-- **The cost of an instruction** that has one is that of its operands in one of the orders; an
instruction that overwrites its first source has that source in the register of the result. -/
theorem getInstructionCost_cases (h : (getInstructionCost i x).cost ≠ invalidMovCost) :
    i.Possible x ∧
      ((getInstructionCost i x = i.result x ∧
          (i.src0_dst_same = true → i.canSrc0DstBeSame x = true)) ∨
        (getInstructionCost i x = i.swappedResult x ∧ i.src_0_1_commutative = true ∧
          (i.src0_dst_same = true → i.canSwappedSrc0DstBeSame x = true) ∧
          (i.src0_dst_same = true ∧ i.canSrc0DstBeSame x = false ∨
            (i.swappedResult x).cost < (i.result x).cost))) := by
  revert h
  rw [getInstructionCost]
  split
  · exact fun h => absurd rfl h
  · split
    · exact fun h => absurd rfl h
    · case _ hD15 hdest =>
        refine fun h => ⟨⟨fun huse => by simpa [huse] using hD15, fun heq => ?_⟩, ?_⟩
        · simpa [heq] using hdest
        · revert h
          cases i.src_0_1_commutative <;> cases i.src0_dst_same <;> cases i.canSrc0DstBeSame x <;>
            cases i.canSwappedSrc0DstBeSame x <;> simp [OperandMovement.invalid] <;> split <;>
            simp_all

/-- The order of movements. -/
theorem better_iff {a b : OperandMovement} :
    a.better b = true ↔ a.cost < b.cost ∨ a.cost = b.cost ∧ a.liftCount < b.liftCount := by
  simp [OperandMovement.better]

/-- **The selection**: an instruction that has a cost, better than all before it in the family, and
such that no other one is better. -/
theorem chooseInstr_spec (x : Situation) (l : List AbstrInstr) :
    (∃ i before after, chooseInstr x l = (some i, getInstructionCost i x) ∧
      l = before ++ i :: after ∧ (getInstructionCost i x).cost < invalidMovCost ∧
      (∀ j ∈ before, (getInstructionCost i x).better (getInstructionCost j x) = true) ∧
      ∀ j ∈ l, (getInstructionCost j x).better (getInstructionCost i x) = false) ∨
    (chooseInstr x l = (none, .invalid) ∧
      ∀ j ∈ l, invalidMovCost ≤ (getInstructionCost j x).cost) := by
  induction l using List.reverseRecOn with
  | nil => exact .inr ⟨rfl, by simp⟩
  | append_singleton l j ih =>
      have hstep : chooseInstr x (l ++ [j]) =
          if (getInstructionCost j x).better (chooseInstr x l).2 then
            (some j, getInstructionCost j x) else chooseInstr x l := by
        rw [chooseInstr, List.foldl_append]
        rfl
      rw [hstep]
      rcases ih with ⟨i, before, after, hchosen, hl, hcost, hbefore, hall⟩ | ⟨hnone, hall⟩
      · rw [hchosen]
        split
        · case _ hbetter =>
            refine .inl ⟨j, l, [], rfl, rfl, ?_, fun a ha => ?_, fun a ha => ?_⟩
            · rw [better_iff] at hbetter
              dsimp only at hbetter
              omega
            · have hnot := hall a ha
              rw [better_iff] at hbetter ⊢
              rw [← Bool.not_eq_true, better_iff] at hnot
              dsimp only at hbetter
              omega
            · rw [← Bool.not_eq_true, better_iff]
              rcases List.mem_append.mp ha with ha | ha
              · have hnot := hall a ha
                rw [better_iff] at hbetter
                rw [← Bool.not_eq_true, better_iff] at hnot
                dsimp only at hbetter
                omega
              · obtain rfl := List.mem_singleton.mp ha
                omega
        · case _ hnot =>
            refine .inl ⟨i, before, after ++ [j], rfl, by simp [hl], hcost, hbefore, fun a ha => ?_⟩
            rcases List.mem_append.mp ha with ha | ha
            · exact hall a ha
            · obtain rfl := List.mem_singleton.mp ha
              exact Bool.eq_false_iff.mpr hnot
      · rw [hnone]
        split
        · case _ hbetter =>
            rw [better_iff] at hbetter
            have hcost : (getInstructionCost j x).cost < invalidMovCost := by
              rcases hbetter with hlt | ⟨-, hlt⟩
              · exact hlt
              · exact absurd hlt (Nat.not_lt_zero _)
            refine .inl ⟨j, l, [], rfl, rfl, hcost, fun a ha => ?_, fun a ha => ?_⟩
            · have hle := hall a ha
              rw [better_iff]
              omega
            · rw [← Bool.not_eq_true, better_iff]
              rcases List.mem_append.mp ha with ha | ha
              · have hle := hall a ha
                omega
              · obtain rfl := List.mem_singleton.mp ha
                omega
        · case _ hnot =>
            refine .inr ⟨rfl, fun a ha => ?_⟩
            rcases List.mem_append.mp ha with ha | ha
            · exact hall a ha
            · obtain rfl := List.mem_singleton.mp ha
              rw [better_iff] at hnot
              exact not_lt.mp fun hlt => hnot (.inl hlt)

/-- An operand of a kind is what a type asks for, after it was moved or as it is. -/
def OperandKind.Fits (kind : OperandKind) (argType : ArgType) (moved : Bool) : Prop :=
  if moved then (∃ range, kind = .const range) ∧ (argType = .d15 ∨ isDataReg32 argType = true)
  else kind.movCost argType = 0

/-- An operand fits a type if it has a cost. -/
theorem fits_of_movCost {kind : OperandKind} {argType : ArgType}
    (h : kind.movCost argType ≠ invalidMovCost) :
    kind.Fits argType (needMove (kind.movCost argType)) := by
  by_cases hzero : kind.movCost argType = 0
  · simp [OperandKind.Fits, needMove, hzero]
  · have hmove : needMove (kind.movCost argType) = true := by simp [needMove, hzero, h]
    rw [hmove]
    cases kind with
    | const range =>
        refine ⟨⟨range, rfl⟩, ?_⟩
        cases argType <;> first
          | exact .inl rfl
          | exact .inr rfl
          | (cases range <;> first | exact absurd rfl hzero | exact absurd rfl h)
    | d15 => cases argType <;> first | exact absurd rfl hzero | exact absurd rfl h
    | data => cases argType <;> first | exact absurd rfl hzero | exact absurd rfl h
    | other => cases argType <;> first | exact absurd rfl hzero | exact absurd rfl h

/-- Data registers cost the same. -/
theorem movCost_dataReg32 (kind : OperandKind) {t t' : ArgType} (ht : isDataReg32 t = true)
    (ht' : isDataReg32 t' = true) : kind.movCost t = kind.movCost t' := by
  cases t <;> cases t' <;> simp only [isDataReg32, Bool.false_eq_true] at ht ht' <;>
    cases kind <;> first
    | rfl
    | (rename_i range; cases range <;> rfl)

/-- **Operands fit** the types of a movement that has a cost. -/
theorem fits_getOperandMovement {isSrcTypeSame : Bool} {size : ℕ} {t0 t1 : ArgType}
    (hargs : x.isArgsSame = true → x.kind0 = x.kind1)
    (htypes : isSrcTypeSame = true → t0 = t1 ∨ isDataReg32 t0 = true ∧ isDataReg32 t1 = true)
    (h : (getOperandMovement x isSrcTypeSame size t0 t1).cost ≠ invalidMovCost) :
    x.kind0.Fits t0 (getOperandMovement x isSrcTypeSame size t0 t1).movArg0 ∧
      x.kind1.Fits t1 (getOperandMovement x isSrcTypeSame size t0 t1).movArg1 := by
  simp only [getOperandMovement, ne_eq, ite_eq_left_iff, not_or, not_forall] at h ⊢
  obtain ⟨⟨h0, h1⟩, -⟩ := h
  refine ⟨fits_of_movCost h0, fits_of_movCost ?_⟩
  split at h1
  · case _ hsame =>
      obtain ⟨hsameArgs, hsameTypes⟩ := Bool.and_eq_true_iff.mp hsame
      rw [← hargs hsameArgs]
      rcases htypes hsameTypes with rfl | ⟨ht0, ht1⟩
      · exact h0
      · rwa [movCost_dataReg32 x.kind0 ht1 ht0]
  · exact h1

/-- The type for the first operand. -/
def AbstrInstr.arg0Type (i : AbstrInstr) (reversed : Bool) : ArgType :=
  if reversed then i.src1Type else i.src0Type

/-- The type for the second operand. -/
def AbstrInstr.arg1Type (i : AbstrInstr) (reversed : Bool) : ArgType :=
  if reversed then i.src0Type else i.src1Type

/-- **Operands fit** an instruction that has a cost. -/
theorem fits_getInstructionCost (hargs : x.isArgsSame = true → x.kind0 = x.kind1)
    (h : (getInstructionCost i x).cost ≠ invalidMovCost) :
    ((getInstructionCost i x).reversed = true → i.src_0_1_commutative = true) ∧
      x.kind0.Fits (i.arg0Type (getInstructionCost i x).reversed)
        (getInstructionCost i x).movArg0 ∧
      x.kind1.Fits (i.arg1Type (getInstructionCost i x).reversed)
        (getInstructionCost i x).movArg1 := by
  have htypes : i.isSrcTypeSame = true → i.src0Type = i.src1Type ∨
      isDataReg32 i.src0Type = true ∧ isDataReg32 i.src1Type = true := by
    intro htypes
    simpa [AbstrInstr.isSrcTypeSame] using htypes
  rcases (getInstructionCost_cases h).2 with ⟨heq, -⟩ | ⟨heq, hcomm, -⟩
  · rw [heq] at h ⊢
    exact ⟨nofun, fits_getOperandMovement hargs htypes h⟩
  · rw [heq] at h ⊢
    exact ⟨fun _ => hcomm,
      fits_getOperandMovement hargs (fun hs => (htypes hs).imp Eq.symm And.symm) h⟩

end Selection

/-! ### What is selected in a family -/

/-- Some instruction of a family has an immediate for the constants of a range. -/
def InstrFamily.takes (f : InstrFamily) (range : ConstRange) : Bool :=
  f.instructions.any fun i => range.movCost i.src1Type == 0

/-- The operands of a family can be swapped. -/
def InstrFamily.commutative (f : InstrFamily) : Bool :=
  f.instructions.all (·.src_0_1_commutative)

/-- What the callers pass to a family, behind the moves of operands from memory. Additions of a
constant beyond 16 bits to something else, subtractions of a constant and from a constant of 9 bits
are lowered in other ways; the count of a shift is a constant of 6 bits or in a register. -/
structure Situation.Passed (f : InstrFamily) (x : Situation) : Prop where
  kind0 : x.kind0 ≠ .other
  kind1 : f ≠ .clz → f ≠ .popcnt → x.kind1 ≠ .other
  isArgsSame : x.isArgsSame = true → x.kind0 = x.kind1
  add0 : f = .add → ∀ range, x.kind0 = .const range → f.takes range = true ∨
    ∃ range', x.kind1 = .const range'
  add1 : f = .add → ∀ range, x.kind1 = .const range → f.takes range = true ∨
    ∃ range', x.kind0 = .const range'
  sub0 : f = .sub → ∀ range, x.kind0 = .const range → range.movCost .const9sx_32 ≠ 0
  sub1 : f = .sub → ∀ range, x.kind1 ≠ .const range
  shConst : f = .shConst ∨ f = .shaConst →
    ∃ range, x.kind1 = .const range ∧ range.movCost .const9sx_32 = 0
  sh : f = .sh ∨ f = .sha → ∀ range, x.kind1 ≠ .const range

section Families

variable {f : InstrFamily} {x : Situation} {i : AbstrInstr} {c : OperandMovement}

/-- An instruction that is selected. -/
theorem chooseInstr_some {l : List AbstrInstr} (h : chooseInstr x l = (some i, c)) :
    i ∈ l ∧ c = getInstructionCost i x ∧ c.cost < invalidMovCost ∧
      (∀ j ∈ l.takeWhile (· != i), c.better (getInstructionCost j x) = true) ∧
      ∀ j ∈ l, (getInstructionCost j x).better c = false := by
  rcases chooseInstr_spec x l with
    ⟨i', before, after, hchosen, hl, hcost, hbefore, hall⟩ | ⟨hnone, -⟩
  · obtain ⟨hi, rfl⟩ := Prod.mk.inj (hchosen.symm.trans h)
    obtain rfl := Option.some.inj hi
    refine ⟨by simp [hl], rfl, hcost, fun j hj => hbefore j ?_, hall⟩
    have hnot : ∀ a ∈ before, (a != i') = true := by
      intro a ha
      refine bne_iff_ne.mpr ?_
      rintro rfl
      have hself := hbefore a ha
      rw [better_iff] at hself
      omega
    rw [hl, List.takeWhile_append_of_pos hnot, List.takeWhile_cons] at hj
    simpa using hj
  · rw [hnone] at h
    cases h

/-- A move costs two bytes at least. -/
theorem two_le_of_needMove {kind : OperandKind} {t : ArgType}
    (h : needMove (kind.movCost t) = true) : 2 ≤ kind.movCost t := by
  cases kind with
  | const range => cases range <;> cases t <;> first | exact Nat.le_of_ble_eq_true rfl | cases h
  | d15 => cases t <;> cases h
  | data => cases t <;> cases h
  | other => cases t <;> cases h

/-- An instruction that needs a move. -/
theorem four_le_of_moved (hargs : x.isArgsSame = false)
    (hcost : (getInstructionCost i x).cost < invalidMovCost)
    (hmoved : (getInstructionCost i x).movArg0 = true ∨ (getInstructionCost i x).movArg1 = true) :
    4 ≤ (getInstructionCost i x).cost ∧ 1 ≤ (getInstructionCost i x).liftCount := by
  have hmovement : ∀ {t0 t1 : ArgType},
      (getOperandMovement x i.isSrcTypeSame i.instructionSize t0 t1).cost < invalidMovCost →
      ((getOperandMovement x i.isSrcTypeSame i.instructionSize t0 t1).movArg0 = true ∨
        (getOperandMovement x i.isSrcTypeSame i.instructionSize t0 t1).movArg1 = true) →
      4 ≤ (getOperandMovement x i.isSrcTypeSame i.instructionSize t0 t1).cost ∧
        1 ≤ (getOperandMovement x i.isSrcTypeSame i.instructionSize t0 t1).liftCount := by
    intro t0 t1 hlt hmoved
    have hsize : 2 ≤ i.instructionSize := by
      rw [AbstrInstr.instructionSize]
      split <;> decide
    simp only [getOperandMovement, hargs, Bool.false_and, Bool.false_eq_true, if_false]
      at hlt hmoved ⊢
    split at hlt
    · exact absurd hlt (lt_irrefl _)
    · case _ hnot =>
        rw [if_neg hnot]
        rcases hmoved with hmoved | hmoved
        · have htwo := two_le_of_needMove hmoved
          rw [if_pos hmoved]
          omega
        · have htwo := two_le_of_needMove hmoved
          rw [if_pos hmoved]
          omega
  rcases (getInstructionCost_cases (ne_of_lt hcost)).2 with ⟨heq, -⟩ | ⟨heq, -⟩
  · rw [heq] at hcost hmoved ⊢
    exact hmovement hcost hmoved
  · rw [heq] at hcost hmoved ⊢
    exact hmovement hcost hmoved

/-- An immediate takes a constant beside a register. -/
theorem exists_immediate (hf : f.commutative = true) (hargs : x.isArgsSame = false)
    {range : ConstRange} (htakes : f.takes range = true)
    (h : x.kind0 = .const range ∧ (x.kind1 = .d15 ∨ x.kind1 = .data) ∨
      x.kind1 = .const range ∧ (x.kind0 = .d15 ∨ x.kind0 = .data)) :
    ∃ j ∈ f.instructions, (getInstructionCost j x).cost = 4 ∧
      (getInstructionCost j x).liftCount = 0 := by
  obtain ⟨kind0, kind1, isArgsSame, isDst0, isDst1, liftedIsDst, hintNotD15, isD15Available⟩ := x
  obtain rfl : isArgsSame = false := hargs
  dsimp only at h
  cases f with
  | add =>
      refine ⟨I_ADDI_Dc_Da_const16sx, by decide, ?_⟩
      rcases h with ⟨rfl, rfl | rfl⟩ | ⟨rfl, rfl | rfl⟩ <;> cases range <;>
        first | exact ⟨rfl, rfl⟩ | cases htakes
  | mul =>
      refine ⟨I_MUL_Dc_Da_const9sx, by decide, ?_⟩
      rcases h with ⟨rfl, rfl | rfl⟩ | ⟨rfl, rfl | rfl⟩ <;> cases range <;>
        first | exact ⟨rfl, rfl⟩ | cases htakes
  | and =>
      refine ⟨I_AND_Dc_Da_const9zx, by decide, ?_⟩
      rcases h with ⟨rfl, rfl | rfl⟩ | ⟨rfl, rfl | rfl⟩ <;> cases range <;>
        first | exact ⟨rfl, rfl⟩ | cases htakes
  | or =>
      refine ⟨I_OR_Dc_Da_const9zx, by decide, ?_⟩
      rcases h with ⟨rfl, rfl | rfl⟩ | ⟨rfl, rfl | rfl⟩ <;> cases range <;>
        first | exact ⟨rfl, rfl⟩ | cases htakes
  | xor =>
      refine ⟨I_XOR_Dc_Da_const9zx, by decide, ?_⟩
      rcases h with ⟨rfl, rfl | rfl⟩ | ⟨rfl, rfl | rfl⟩ <;> cases range <;>
        first | exact ⟨rfl, rfl⟩ | cases htakes
  | clz | popcnt | sub | shConst | shaConst | sh | sha => cases hf

/-- **A constant that an immediate takes is not moved** beside a register. -/
theorem not_moved_of_takes (hf : f.commutative = true) (hargs : x.isArgsSame = false)
    {range : ConstRange} (htakes : f.takes range = true)
    (h : x.kind0 = .const range ∧ (x.kind1 = .d15 ∨ x.kind1 = .data) ∨
      x.kind1 = .const range ∧ (x.kind0 = .d15 ∨ x.kind0 = .data))
    (hi : chooseInstr x f.instructions = (some i, c)) : c.movArg0 = false ∧ c.movArg1 = false := by
  obtain ⟨-, rfl, hcost, -, hall⟩ := chooseInstr_some hi
  obtain ⟨j, hj, hjcost, hjlift⟩ := exists_immediate hf hargs htakes h
  have hnot := hall j hj
  rw [← Bool.not_eq_true, better_iff, hjcost, hjlift] at hnot
  refine ⟨Bool.eq_false_iff.mpr fun hmoved => hnot ?_, Bool.eq_false_iff.mpr fun hmoved => hnot ?_⟩
  · have hfour := four_le_of_moved hargs hcost (.inl hmoved)
    omega
  · have hfour := four_le_of_moved hargs hcost (.inr hmoved)
    omega

/-- Operands of different kinds are not the same. -/
theorem Situation.Passed.isArgsSame_eq (h : x.Passed f) (hne : x.kind0 ≠ x.kind1) :
    x.isArgsSame = false := Bool.eq_false_iff.mpr fun hsame => hne (h.isArgsSame hsame)

/-- **The constant that an addition moves to `D15`** is the first operand, and the second one is
moved, too. -/
theorem moved_of_add_D15 (h : x.Passed .add)
    (hi : chooseInstr x InstrFamily.add.instructions = (some I_ADD_Da_D15_Db, c)) :
    (c.reversed = false → c.movArg0 = true → ∃ range, x.kind1 = .const range) ∧
      (c.reversed = true → c.movArg1 = false) := by
  obtain ⟨-, hc, hcost, -, hall⟩ := chooseInstr_some hi
  obtain ⟨-, hfit0, hfit1⟩ := fits_getInstructionCost h.isArgsSame (hc ▸ ne_of_lt hcost)
  rw [← hc] at hfit0 hfit1
  constructor
  · intro hreversed hmoved
    rw [hmoved] at hfit0
    obtain ⟨⟨range, hrange⟩, -⟩ := hfit0
    by_contra hconst
    have hreg : x.kind1 = .d15 ∨ x.kind1 = .data := by
      have hother := h.kind1 nofun nofun
      cases hkind : x.kind1 with
      | const range' => exact absurd ⟨range', hkind⟩ hconst
      | d15 => exact .inl rfl
      | data => exact .inr rfl
      | other => exact absurd hkind hother
    have htakes := (h.add0 rfl range hrange).resolve_right hconst
    have hne : x.kind0 ≠ x.kind1 := by
      rw [hrange]
      rcases hreg with hreg | hreg <;> rw [hreg] <;> exact nofun
    have hnot := (not_moved_of_takes rfl (h.isArgsSame_eq hne) htakes (.inl ⟨hrange, hreg⟩) hi).1
    rw [hmoved] at hnot
    cases hnot
  · intro hreversed
    refine Bool.eq_false_iff.mpr fun hmoved => ?_
    rw [hmoved] at hfit1
    obtain ⟨⟨range, hrange⟩, -⟩ := hfit1
    rcases (getInstructionCost_cases (hc ▸ ne_of_lt hcost)).2 with
      ⟨heq, -⟩ | ⟨heq, -, -, hsame | hlt⟩
    · rw [hc, heq] at hreversed
      cases hreversed
    · cases hsame.1
    · have hbetter := hall I_ADDI_Dc_Da_const16sx (by decide)
      rw [hc, heq] at hbetter
      have hargs := h.isArgsSame
      have hadd := h.add1 rfl range hrange
      have hother := h.kind0
      clear hi hall hcost hc hfit0 heq hreversed hmoved h
      obtain ⟨kind0, kind1, isArgsSame, isDst0, isDst1, liftedIsDst, hintNotD15,
        isD15Available⟩ := x
      dsimp only at hrange hargs hadd hother
      subst hrange
      cases isArgsSame with
      | true =>
          obtain rfl := hargs rfl
          cases range <;> exact absurd hlt (of_decide_eq_false rfl)
      | false =>
          cases kind0 with
          | const range' =>
              cases range <;> cases range' <;> first
                | exact absurd hlt (of_decide_eq_false rfl)
                | exact Bool.noConfusion (show true = false from hbetter)
          | d15 | data =>
              rcases hadd with htakes | ⟨range', hrange'⟩
              · cases range <;> first
                  | exact Bool.noConfusion (show true = false from hbetter)
                  | cases htakes
              · cases hrange'
          | other => exact hother rfl

/-- **The constant that a subtraction moves to `D15`** cannot be moved to the register of the
result. -/
theorem moved_of_sub_D15 (h : x.Passed .sub)
    (hi : chooseInstr x InstrFamily.sub.instructions = (some I_SUB_Dc_D15_Db, c))
    (hmoved : c.movArg0 = true) : x.liftedIsDst = false := by
  obtain ⟨-, hc, hcost, hbefore, -⟩ := chooseInstr_some hi
  obtain ⟨-, hfit0, -⟩ := fits_getInstructionCost h.isArgsSame (hc ▸ ne_of_lt hcost)
  rw [← hc, hmoved] at hfit0
  obtain ⟨⟨range, hrange⟩, -⟩ := hfit0
  have hlonger := h.sub0 rfl range hrange
  have hbetter := hbefore I_SUB_Da_Db (by decide)
  have hargs := h.isArgsSame_eq (by rw [hrange]; exact fun heq => h.sub1 rfl range heq.symm)
  have hnotConst := h.sub1 rfl
  rcases (getInstructionCost_cases (hc ▸ ne_of_lt hcost)).2 with ⟨heq, -⟩ | ⟨-, hcomm, -⟩
  · rw [hc, heq] at hbetter
    have hother := h.kind1 nofun nofun
    clear hi hbefore hcost hc heq hmoved h
    obtain ⟨kind0, kind1, isArgsSame, isDst0, isDst1, liftedIsDst, hintNotD15, isD15Available⟩ := x
    dsimp only at hrange hargs hother hnotConst ⊢
    subst hrange hargs
    refine Bool.eq_false_iff.mpr ?_
    rintro rfl
    cases kind1 with
    | const range' => exact hnotConst range' rfl
    | other => exact hother rfl
    | d15 | data =>
        cases isDst0 <;> cases range <;> first
          | exact hlonger rfl
          | exact Bool.noConfusion (show false = true from hbetter)
  · cases hcomm

/-- An instruction that has another one with the same sources before it, whose result is in the
register of a source. -/
theorem not_dst_of_before {j : AbstrInstr} (hj : j ∈ f.instructions.takeWhile (· != i))
    (hi : chooseInstr x f.instructions = (some i, c))
    (htypes : i.src0Type = j.src0Type ∧ i.src1Type = j.src1Type ∧
      i.instructionSize = j.instructionSize ∧ i.src_0_1_commutative = j.src_0_1_commutative)
    (hplain : j.useD15 = false ∧ j.destType ≠ .d15 ∧ j.src0_dst_same = true)
    (hdiff : i.src0_dst_same = false) :
    (c.reversed = false → j.canSrc0DstBeSame x = false) ∧
      (c.reversed = true → j.canSwappedSrc0DstBeSame x = false) ∧
      ((i.swappedResult x).cost = (i.result x).cost →
        (i.swappedResult x).liftCount = (i.result x).liftCount →
        i.src_0_1_commutative = true → j.canSwappedSrc0DstBeSame x = false) := by
  obtain ⟨-, hc, hcost, hbefore, -⟩ := chooseInstr_some hi
  have hbetter := hbefore j hj
  obtain ⟨h0, h1, hsize, hcomm⟩ := htypes
  obtain ⟨huse, hdest, hsame⟩ := hplain
  have hsrc : i.isSrcTypeSame = j.isSrcTypeSame := by
    rw [AbstrInstr.isSrcTypeSame, AbstrInstr.isSrcTypeSame, h0, h1]
  have hresult : i.result x = j.result x := by
    rw [AbstrInstr.result, AbstrInstr.result, hsrc, hsize, h0, h1]
  have hswapped : i.swappedResult x = j.swappedResult x := by
    rw [AbstrInstr.swappedResult, AbstrInstr.swappedResult, hsrc, hsize, h0, h1]
  have hnotBetter : ∀ a : OperandMovement, ¬ a.better a = true := by
    intro a hself
    rw [better_iff] at hself
    omega
  have hcj : getInstructionCost j x =
      if j.src_0_1_commutative then
        if !j.canSrc0DstBeSame x && !j.canSwappedSrc0DstBeSame x then .invalid
        else if !j.canSrc0DstBeSame x then j.swappedResult x
        else if !j.canSwappedSrc0DstBeSame x then j.result x
        else if (j.swappedResult x).cost < (j.result x).cost then j.swappedResult x else j.result x
      else if !j.canSrc0DstBeSame x then .invalid else j.result x := by
    rw [getInstructionCost, huse, hsame, beq_false_of_ne hdest]
    simp only [Bool.false_and, Bool.false_eq_true, if_false, Bool.true_and]
  have hci : c = if j.src_0_1_commutative then
        if (j.swappedResult x).cost < (j.result x).cost then j.swappedResult x else j.result x
      else j.result x := by
    obtain ⟨⟨huseD15, hdestD15⟩, -⟩ := getInstructionCost_cases (hc ▸ ne_of_lt hcost)
    rw [hc, getInstructionCost, hdiff, hcomm, hresult, hswapped]
    have hfirst : (i.useD15 && !x.isD15Available) = false := by
      cases huse : i.useD15 with
      | false => rfl
      | true => rw [huseD15 huse]; rfl
    have hsecond : (i.destType == .d15 && x.hintNotD15) = false := by
      cases hdest : i.destType == .d15 with
      | false => rfl
      | true => rw [hdestD15 (beq_iff_eq.mp hdest)]; rfl
    simp only [hfirst, hsecond, Bool.false_and, Bool.false_eq_true, if_false]
  rw [hresult, hswapped, hcomm]
  have hreversed : (j.result x).reversed = false ∧ (j.swappedResult x).reversed = true :=
    ⟨rfl, rfl⟩
  clear hc hcost hi hj
  revert hbetter
  rw [hcj, hci]
  cases j.src_0_1_commutative with
  | false =>
      simp only [Bool.false_eq_true, if_false, hreversed.1]
      cases j.canSrc0DstBeSame x with
      | false => exact fun _ => ⟨fun _ => rfl, nofun, fun _ _ => nofun⟩
      | true => exact fun hself => absurd hself (hnotBetter _)
  | true =>
      simp only [if_true]
      split
      · case _ hlt =>
          rw [hreversed.2]
          cases j.canSwappedSrc0DstBeSame x with
          | false => exact fun _ => ⟨nofun, fun _ => rfl, fun _ _ _ => rfl⟩
          | true =>
              cases j.canSrc0DstBeSame x with
              | false => exact fun hself => absurd hself (hnotBetter _)
              | true => exact fun hself => absurd (by simpa [hlt] using hself) (hnotBetter _)
      · case _ hnot =>
          rw [hreversed.1]
          cases j.canSrc0DstBeSame x with
          | true =>
              cases j.canSwappedSrc0DstBeSame x with
              | false => exact fun hself => absurd hself (hnotBetter _)
              | true => exact fun hself => absurd (by simpa [hnot] using hself) (hnotBetter _)
          | false =>
              cases j.canSwappedSrc0DstBeSame x with
              | false => exact fun _ => ⟨fun _ => rfl, nofun, fun _ _ _ => rfl⟩
              | true =>
                  refine fun hbetter => ⟨fun _ => rfl, nofun, fun hcost hlift _ => ?_⟩
                  have hless := better_iff.mp hbetter
                  simp only [Bool.not_false, Bool.not_true, Bool.and_false, Bool.false_eq_true,
                    if_false, if_true] at hless
                  omega

end Families

/-! ### The registers of a selection -/

section Registers

variable {f : InstrFamily} {x : Situation} {i : AbstrInstr} {c : OperandMovement}

/-- Swapping the operands of an instruction whose sources are registers costs the same. -/
theorem swappedResult_eq (h0 : isDataReg32 i.src0Type = true) (h1 : isDataReg32 i.src1Type = true) :
    i.swappedResult x = { i.result x with reversed := true } := by
  simp only [AbstrInstr.swappedResult, AbstrInstr.result, getOperandMovement,
    movCost_dataReg32 x.kind0 h1 h0, movCost_dataReg32 x.kind1 h1 h0]

/-- An operand that is an immediate is a constant that is not moved. -/
theorem fits_immediate {kind : OperandKind} {t : ArgType} {moved : Bool}
    (h : kind.Fits t moved) (ht : t = .const4sx_32 ∨ t = .const8zx_32) :
    moved = false ∧ ∃ range, kind = .const range := by
  cases moved with
  | true => rcases ht with rfl | rfl <;> rcases h.2 with h | h <;> cases h
  | false =>
      refine ⟨rfl, ?_⟩
      cases kind with
      | const range => exact ⟨range, rfl⟩
      | d15 | data | other => rcases ht with rfl | rfl <;> cases (show invalidMovCost = 0 from h)

/-- **The first operand is not in the register of the result** if the operands of an instruction
that overwrites its first source are swapped. -/
theorem not_dst_of_reversed (hargs : x.isArgsSame = true → x.kind0 = x.kind1)
    (hi : chooseInstr x f.instructions = (some i, c)) (hsame : i.src0_dst_same = true)
    (hreversed : c.reversed = true) :
    (x.isDst0 = false ∨ ∃ range, x.kind0 = .const range) ∧
      (x.liftedIsDst = true → c.movArg0 = false) := by
  obtain ⟨hmem, rfl, hcost, -, -⟩ := chooseInstr_some hi
  obtain ⟨-, hfit0, -⟩ := fits_getInstructionCost hargs (ne_of_lt hcost)
  rw [hreversed] at hfit0
  have hshape : ∀ f : InstrFamily, ∀ i ∈ f.instructions, i.src0_dst_same = true →
      (isDataReg32 i.src0Type = true ∧ isDataReg32 i.src1Type = true) ∨
        (i.src1Type = .const4sx_32 ∨ i.src1Type = .const8zx_32) := by
    intro f
    cases f <;> decide
  rcases hshape f i hmem hsame with ⟨h0, h1⟩ | himm
  · rcases (getInstructionCost_cases (ne_of_lt hcost)).2 with ⟨heq, -⟩ | ⟨heq, -, -, hnot | hlt⟩
    · rw [heq] at hreversed
      cases hreversed
    · rw [heq, swappedResult_eq h0 h1]
      have hcan := hnot.2
      rw [AbstrInstr.canSrc0DstBeSame, Bool.or_eq_false_iff] at hcan
      refine ⟨.inl hcan.1, fun hlifted => ?_⟩
      rw [hlifted, Bool.and_true] at hcan
      exact hcan.2
    · rw [swappedResult_eq h0 h1] at hlt
      exact absurd hlt (lt_irrefl _)
  · obtain ⟨hmoved, hconst⟩ := fits_immediate hfit0 himm
    exact ⟨.inr hconst, fun _ => hmoved⟩

/-- **A result in `D15`** without a hint: no operand is moved, and none that is in a register can
be in the register of the result, but the second one of a subtraction. -/
theorem not_dst_of_D15 (h : x.Passed f) (hi : chooseInstr x f.instructions = (some i, c))
    (hdest : i.destType = .d15) (hdiff : i.src0_dst_same = false) (hlifted : x.liftedIsDst = true) :
    c.movArg0 = false ∧ c.movArg1 = false ∧
      (x.isDst0 = false ∨ ∃ range, x.kind0 = .const range) ∧
      (x.isDst1 = false ∨ (∃ range, x.kind1 = .const range) ∨ f = .sub) := by
  have hi' := hi
  obtain ⟨hmem, hc, hcost, -, -⟩ := chooseInstr_some hi
  obtain ⟨-, hfit0, hfit1⟩ := fits_getInstructionCost h.isArgsSame (hc ▸ ne_of_lt hcost)
  rw [← hc] at hfit0 hfit1
  have hshape : ∀ f : InstrFamily, ∀ i ∈ f.instructions, i.destType = .d15 →
      i.src0_dst_same = false → f = .add ∧ i = I_ADD_D15_Da_const4sx ∨
        f = .add ∧ i = I_ADD_D15_Da_Db ∨ f = .sub ∧ i = I_SUB_D15_Da_Db := by
    intro f
    cases f <;> decide
  have hcan : ∀ j : AbstrInstr, j.canSrc0DstBeSame x = false →
      x.isDst0 = false ∧ (j.result x).movArg0 = false := by
    intro j hj
    rw [AbstrInstr.canSrc0DstBeSame, hlifted, Bool.and_true] at hj
    exact Bool.or_eq_false_iff.mp hj
  have hcanSwapped : ∀ j : AbstrInstr, j.canSwappedSrc0DstBeSame x = false →
      x.isDst1 = false ∧ (j.swappedResult x).movArg1 = false := by
    intro j hj
    rw [AbstrInstr.canSwappedSrc0DstBeSame, hlifted, Bool.and_true] at hj
    exact Bool.or_eq_false_iff.mp hj
  rcases hshape f i hmem hdest hdiff with ⟨rfl, rfl⟩ | ⟨rfl, rfl⟩ | ⟨rfl, rfl⟩
  · obtain ⟨hplain, hrev, -⟩ := not_dst_of_before (j := I_ADD_Da_const4sx) (by decide) hi
      (by decide) (by decide) hdiff
    rcases (getInstructionCost_cases (hc ▸ ne_of_lt hcost)).2 with ⟨heq, -⟩ | ⟨heq, -⟩ <;>
      rw [← hc] at heq <;> subst heq
    · obtain ⟨hdst, hmoved⟩ := hcan _ (hplain rfl)
      obtain ⟨himm, hconst⟩ := fits_immediate hfit1 (.inl rfl)
      exact ⟨hmoved, himm, .inl hdst, .inr (.inl hconst)⟩
    · obtain ⟨hdst, hmoved⟩ := hcanSwapped _ (hrev rfl)
      obtain ⟨himm, hconst⟩ := fits_immediate hfit0 (.inl rfl)
      exact ⟨himm, hmoved, .inr hconst, .inl hdst⟩
  · obtain ⟨hplain, -, hrev⟩ := not_dst_of_before (j := I_ADD_Da_Db) (by decide) hi
      (by decide) (by decide) hdiff
    have hswap := swappedResult_eq (i := I_ADD_D15_Da_Db) (x := x) rfl rfl
    have hswap' := swappedResult_eq (i := I_ADD_Da_Db) (x := x) rfl rfl
    obtain ⟨hdst1, hmoved1⟩ := hcanSwapped _ (hrev (by rw [hswap]) (by rw [hswap]) rfl)
    rw [hswap'] at hmoved1
    rcases (getInstructionCost_cases (hc ▸ ne_of_lt hcost)).2 with
      ⟨heq, -⟩ | ⟨-, -, -, hnot | hlt⟩
    · rw [← hc] at heq
      subst heq
      obtain ⟨hdst0, hmoved0⟩ := hcan _ (hplain rfl)
      exact ⟨hmoved0, hmoved1, .inl hdst0, .inl hdst1⟩
    · cases hnot.1
    · rw [hswap] at hlt
      exact absurd hlt (lt_irrefl _)
  · obtain ⟨hplain, -, -⟩ := not_dst_of_before (j := I_SUB_Da_Db) (by decide) hi
      (by decide) (by decide) hdiff
    rcases (getInstructionCost_cases (hc ▸ ne_of_lt hcost)).2 with ⟨heq, -⟩ | ⟨-, hcomm, -⟩
    · rw [← hc] at heq
      subst heq
      obtain ⟨hdst0, hmoved0⟩ := hcan _ (hplain rfl)
      refine ⟨hmoved0, Bool.eq_false_iff.mpr fun hmoved => ?_, .inl hdst0, .inr (.inr rfl)⟩
      rw [hmoved] at hfit1
      obtain ⟨⟨range, hrange⟩, -⟩ := hfit1
      exact h.sub1 rfl range hrange
    · cases hcomm

/-- An instruction without restrictions costs what its operands cost in their order, at most. -/
theorem cost_le_result (huse : i.useD15 = false) (hdest : i.destType ≠ .d15)
    (hdiff : i.src0_dst_same = false) :
    (getInstructionCost i x).cost ≤ (i.result x).cost := by
  rw [getInstructionCost, huse, beq_false_of_ne hdest, hdiff]
  simp only [Bool.false_and, Bool.false_eq_true, if_false]
  split
  · split
    · case _ hlt => exact hlt.le
    · exact le_rfl
  · exact le_rfl

/-- **Some instruction is selected.** -/
theorem exists_chooseInstr (h : x.Passed f) :
    ∃ i c, chooseInstr x f.instructions = (some i, c) := by
  rcases chooseInstr_spec x f.instructions with ⟨i, _, _, hchosen, -⟩ | ⟨-, hall⟩
  · exact ⟨i, _, hchosen⟩
  exfalso
  have hreg : ∀ {kind : OperandKind} {t : ArgType}, kind ≠ .other → isDataReg32 t = true →
      kind.movCost t ≤ 8 := by
    intro kind t hkind ht
    rw [movCost_dataReg32 kind ht (show isDataReg32 .dataReg32_a = true from rfl)]
    cases kind with
    | const range => cases range <;> exact Nat.le_of_ble_eq_true rfl
    | d15 | data => exact Nat.zero_le _
    | other => exact absurd rfl hkind
  have hcost : ∀ i ∈ f.instructions, i.useD15 = false → i.destType ≠ .d15 →
      i.src0_dst_same = false → x.kind0.movCost i.src0Type ≤ 8 → x.kind1.movCost i.src1Type ≤ 8 →
      False := by
    intro i hi huse hdest hdiff h0 h1
    have hle := (hall i hi).trans (cost_le_result huse hdest hdiff)
    simp only [AbstrInstr.result, getOperandMovement] at hle
    have hsize : i.instructionSize ≤ 4 := by
      rw [AbstrInstr.instructionSize]
      split <;> decide
    have hinvalid : invalidMovCost = 4294967295 := rfl
    split at hle
    · split at hle
      · case _ hsome => omega
      · case _ hsome => omega
    · split at hle
      · case _ hsome => omega
      · omega
  have hnone : x.kind1.movCost .none ≤ 8 := by
    cases x.kind1 <;> exact Nat.zero_le _
  cases f with
  | clz => exact hcost I_CLZ_Dc_Da (by decide) rfl nofun rfl (hreg h.kind0 rfl) hnone
  | popcnt => exact hcost I_POPCNTW_Dc_Da (by decide) rfl nofun rfl (hreg h.kind0 rfl) hnone
  | add =>
      exact hcost I_ADD_Dc_Da_Db (by decide) rfl nofun rfl (hreg h.kind0 rfl)
        (hreg (h.kind1 nofun nofun) rfl)
  | sub =>
      exact hcost I_SUB_Dc_Da_Db (by decide) rfl nofun rfl (hreg h.kind0 rfl)
        (hreg (h.kind1 nofun nofun) rfl)
  | mul =>
      exact hcost I_MUL_Dc_Da_Db (by decide) rfl nofun rfl (hreg h.kind0 rfl)
        (hreg (h.kind1 nofun nofun) rfl)
  | and =>
      exact hcost I_AND_Dc_Da_Db (by decide) rfl nofun rfl (hreg h.kind0 rfl)
        (hreg (h.kind1 nofun nofun) rfl)
  | or =>
      exact hcost I_OR_Dc_Da_Db (by decide) rfl nofun rfl (hreg h.kind0 rfl)
        (hreg (h.kind1 nofun nofun) rfl)
  | xor =>
      exact hcost I_XOR_Dc_Da_Db (by decide) rfl nofun rfl (hreg h.kind0 rfl)
        (hreg (h.kind1 nofun nofun) rfl)
  | sh =>
      exact hcost I_SH_Dc_Da_Db (by decide) rfl nofun rfl (hreg h.kind0 rfl)
        (hreg (h.kind1 nofun nofun) rfl)
  | sha =>
      exact hcost I_SHA_Dc_Da_Db (by decide) rfl nofun rfl (hreg h.kind0 rfl)
        (hreg (h.kind1 nofun nofun) rfl)
  | shConst =>
      obtain ⟨range, hrange, hzero⟩ := h.shConst (.inl rfl)
      refine hcost I_SH_Dc_Da_const9sx (by decide) rfl nofun rfl (hreg h.kind0 rfl) ?_
      rw [hrange]
      exact hzero.le.trans (Nat.zero_le _)
  | shaConst =>
      obtain ⟨range, hrange, hzero⟩ := h.shConst (.inr rfl)
      refine hcost I_SHA_Dc_Da_const9sx (by decide) rfl nofun rfl (hreg h.kind0 rfl) ?_
      rw [hrange]
      exact hzero.le.trans (Nat.zero_le _)

/-- **A constant that no immediate takes is moved to the register of the result** beside a
register, if it can be. -/
theorem moved_of_not_takes (h : x.Passed f) (hshift : f ≠ .sh ∧ f ≠ .sha) {range : ConstRange}
    (h0 : x.kind0 = .const range) (h1 : x.kind1 = .d15 ∨ x.kind1 = .data)
    (htakes : f.takes range = false) (hlifted : x.liftedIsDst = true) (hdst : x.isDst0 = false) :
    ((chooseInstr x f.instructions).1.any (·.src0_dst_same) &&
      !(chooseInstr x f.instructions).2.reversed &&
      (chooseInstr x f.instructions).2.movArg0) = true := by
  have hargs := h.isArgsSame_eq (by rw [h0]; rcases h1 with h1 | h1 <;> rw [h1] <;> exact nofun)
  have hsub := h.sub0
  have hadd := h.add0
  have hconst := h.shConst
  clear h
  obtain ⟨kind0, kind1, isArgsSame, isDst0, isDst1, liftedIsDst, hintNotD15, isD15Available⟩ := x
  dsimp only at h0 h1 hlifted hdst hargs hsub hadd hconst
  subst h0 hlifted hdst hargs
  cases f with
  | clz | popcnt => cases range <;> cases htakes
  | sh => exact absurd rfl hshift.1
  | sha => exact absurd rfl hshift.2
  | shConst =>
      obtain ⟨range', rfl, -⟩ := hconst (.inl rfl)
      rcases h1 with h1 | h1 <;> cases h1
  | shaConst =>
      obtain ⟨range', rfl, -⟩ := hconst (.inr rfl)
      rcases h1 with h1 | h1 <;> cases h1
  | add =>
      rcases hadd rfl range rfl with htaken | ⟨range', rfl⟩
      · rw [htaken] at htakes
        cases htakes
      · rcases h1 with h1 | h1 <;> cases h1
  | sub =>
      have hrange := hsub rfl range rfl
      clear hsub hadd hconst hshift
      rcases h1 with rfl | rfl <;> cases range <;> first
        | exact absurd rfl hrange
        | (revert hintNotD15 isD15Available isDst1; decide +kernel)
  | mul | and | or | xor =>
      clear hsub hadd hconst hshift
      rcases h1 with rfl | rfl <;> cases range <;> first
        | exact absurd htakes (by decide)
        | (revert hintNotD15 isD15Available isDst1; decide +kernel)

/-- **A second constant that no immediate takes is moved to the register of the result**, too, if
the first operand is in another register. -/
theorem moved_of_not_takes_swapped (h : x.Passed f) (hf : f.commutative = true)
    {range : ConstRange} (h0 : x.kind0 = .d15 ∨ x.kind0 = .data) (h1 : x.kind1 = .const range)
    (htakes : f.takes range = false) (hlifted : x.liftedIsDst = true)
    (hdst : x.isDst0 = false ∧ x.isDst1 = false) :
    ((chooseInstr x f.instructions).1.any (·.src0_dst_same) &&
      (chooseInstr x f.instructions).2.reversed &&
      (chooseInstr x f.instructions).2.movArg1) = true := by
  have hargs := h.isArgsSame_eq (by rw [h1]; rcases h0 with h0 | h0 <;> rw [h0] <;> exact nofun)
  have hadd := h.add1
  clear h
  obtain ⟨kind0, kind1, isArgsSame, isDst0, isDst1, liftedIsDst, hintNotD15, isD15Available⟩ := x
  dsimp only at h0 h1 hlifted hdst hargs hadd
  obtain ⟨rfl, rfl⟩ := hdst
  subst h1 hlifted hargs
  cases f with
  | clz | popcnt | sub | shConst | shaConst | sh | sha => cases hf
  | add =>
      rcases hadd rfl range rfl with htaken | ⟨range', rfl⟩
      · rw [htaken] at htakes
        cases htakes
      · rcases h0 with h0 | h0 <;> cases h0
  | mul | and | or | xor =>
      clear hadd hf
      rcases h0 with rfl | rfl <;> cases range <;> first
        | exact absurd htakes (by decide)
        | (revert hintNotD15 isD15Available; decide +kernel)

end Registers

end TriCore

end WasmCompiler
