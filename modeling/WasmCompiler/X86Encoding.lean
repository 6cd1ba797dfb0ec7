import Mathlib
import WasmCompiler.BackendRegisters

/-!
# The Encoding of x86-64 Instructions

An instruction is a template together with registers, a memory operand and an immediate that its
setters fill in (`x86_64::Instruction`); `emitCode` writes the legacy prefix, the REX prefix, the
bytes of the opcode, ModRM, SIB, the displacement and the immediate. What the processor reads is
stated as a decoder: it takes the REX prefix for what it is, the register numbers from four bits
each, and knows the two numbers in the fields that do not stand for a register, `SP` and `BP`.

## Main results

* `decodeOperand_operandBytes`: a memory operand is read as it was set, for every base, index,
  scale and displacement.
* `decode_emitCode`: the bytes of an instruction are decoded to the opcode, the operands and the
  immediate that were set, to the last byte.
-/

namespace WasmCompiler

namespace X86_64

namespace Encoder

/-! ### Instructions -/

/-- `OPCodeExt`. -/
inductive OPCodeExt where
  | digit (i : BitVec 3)
  | RADD
  | R
  | NONE
  deriving DecidableEq, Repr

/-- `OPCodeTemplate`; the flags say which argument has eight bits. -/
structure OPCodeTemplate where
  legacyPrefix : BitVec 8
  rex : BitVec 8
  b8R : Bool
  b8RM : Bool
  extension : OPCodeExt
  opcode : BitVec 32
  deriving DecidableEq, Repr

/-- `RMType`. -/
inductive RMType where
  | NONE
  | MEM_RIP_DISPFROMINSTRSTART
  | MEM
  | REG
  deriving DecidableEq, Repr

/-- The representation of a register, and of `REG::NONE`. -/
def regCode : Option REG → BitVec 8
  | some r => BitVec.ofNat 8 r.ctorIdx
  | none => 0x80

/-- `Instruction`. -/
structure Instruction where
  opcode : OPCodeTemplate
  cc : Option (Fin 16) := none
  rmType : RMType := .NONE
  numImmediateBytes : ℕ := 0
  immediate : BitVec 64 := 0
  rReg : BitVec 8 := regCode none
  rmBaseReg : BitVec 8 := regCode none
  rmIndexReg : BitVec 8 := regCode none
  rmIndexScalePow2 : BitVec 32 := 0
  rmDisplacement : BitVec 32 := 0
  deriving DecidableEq, Repr

namespace Instruction

/-- `setR`. -/
def setR (i : Instruction) (reg : REG) : Instruction :=
  { i with
    rmBaseReg := if i.opcode.extension = .RADD then regCode reg else i.rmBaseReg
    rReg := if i.opcode.extension = .RADD then i.rReg else regCode reg }

/-- The REX prefix is needed for the byte of the register. -/
def baseRex (i : Instruction) (reg : REG) : Instruction :=
  { i with
    opcode := { i.opcode with
      rex := if 3 < (regCode reg).toNat then i.opcode.rex ||| 0x40 else i.opcode.rex } }

/-- `setR4RM`. -/
def setR4RM (i : Instruction) (reg : REG) : Instruction :=
  { i with rmType := .REG, rmBaseReg := regCode reg }

/-- `setR8_4RM`. -/
def setR8_4RM (i : Instruction) (reg : REG) : Instruction := (i.setR4RM reg).baseRex reg

/-- `setM4RM`. -/
def setM4RM (i : Instruction) (baseReg : REG) (displacement : BitVec 32) (indexReg : Option REG)
    (indexScalePow2 : BitVec 32) : Instruction :=
  { i with
    rmType := .MEM
    rmBaseReg := regCode baseReg
    rmIndexReg := regCode indexReg
    rmIndexScalePow2 := indexScalePow2
    rmDisplacement := displacement }

/-- `setM8_4RM`. -/
def setM8_4RM (i : Instruction) (baseReg : REG) (displacement : BitVec 32)
    (indexReg : Option REG) (indexScalePow2 : BitVec 32) : Instruction :=
  (i.setM4RM baseReg displacement indexReg indexScalePow2).baseRex baseReg

/-- `setMIP4RM`. -/
def setMIP4RM (i : Instruction) (displacementFromInstructionStart : BitVec 32) : Instruction :=
  { i with
    rmType := .MEM_RIP_DISPFROMINSTRSTART
    rmDisplacement := displacementFromInstructionStart }

/-- `setImm8` to `setImm64`: an immediate of a number of bytes. -/
def setImm (i : Instruction) (bytes : ℕ) (imm : BitVec 64) : Instruction :=
  { i with numImmediateBytes := bytes, immediate := imm }

/-- `setCC`. -/
def setCC (i : Instruction) (ccIn : Fin 16) : Instruction := { i with cc := some ccIn }

end Instruction

/-- `writeBytesLE`. -/
def bytesLE (value : BitVec 64) (n : ℕ) : List (BitVec 8) :=
  (List.range n).map fun k => value.extractLsb' (8 * k) 8

/-- The bytes of an opcode; bytes that are zero are left out. -/
def opcodeBytes (opcode : BitVec 32) : List (BitVec 8) :=
  [opcode.extractLsb' 24 8, opcode.extractLsb' 16 8, opcode.extractLsb' 8 8,
    opcode.extractLsb' 0 8].filter (· ≠ 0)

/-- A bit of the REX prefix for a register from the upper half. -/
def extendRex (rex reg bit : BitVec 8) : BitVec 8 := if reg &&& 8 ≠ 0 then rex ||| bit else rex

/-- ModRM. -/
def modRegRMByte (mod : BitVec 2) (reg rm : BitVec 8) : BitVec 8 :=
  ((reg &&& 7) <<< 3) ||| (mod.setWidth 8 <<< 6) ||| (rm &&& 7)

/-- SIB. -/
def sibByte (scalePow2 : BitVec 32) (index base : BitVec 8) : BitVec 8 :=
  (scalePow2.setWidth 8 <<< 6) ||| ((index &&& 7) <<< 3) ||| (base &&& 7)

/-- MOD and the number of bytes for the displacement of a memory operand. -/
def displacementForm (baseReg : BitVec 8) (displacement : BitVec 32) : BitVec 2 × ℕ :=
  if displacement = 0 then if baseReg &&& 7 = 5 then (1, 1) else (0, 0)
  else if -128 ≤ displacement.toInt ∧ displacement.toInt ≤ 127 then (1, 1)
  else (2, 4)

namespace Instruction

/-- The opcode with the condition code, and with the register for `RADD`. -/
def finalOpcode (i : Instruction) : BitVec 32 :=
  let opcode := i.opcode.opcode + (i.cc.elim 0 fun cc => BitVec.ofNat 32 cc)
  if i.opcode.extension = .RADD then opcode + (i.rmBaseReg &&& 7).setWidth 32 else opcode

/-- The register of the REG field; an extension of the opcode stands in its place. -/
def finalReg (i : Instruction) : BitVec 8 :=
  match i.opcode.extension with
  | .digit d => d.setWidth 8
  | _ => i.rReg

/-- The REX prefix; zero for none. -/
def finalRex (i : Instruction) : BitVec 8 :=
  let rex := extendRex (extendRex (extendRex i.opcode.rex i.finalReg 0x44) i.rmBaseReg 0x41)
    i.rmIndexReg 0x42
  if rex = 0 then
    if i.opcode.extension = .R ∧ i.finalReg &&& 0xFC = 4 ∧ i.opcode.b8R then 0x40
    else if i.rmType = .REG ∧ i.rmBaseReg &&& 0xFC = 4 ∧ i.opcode.b8RM then 0x40
    else 0
  else rex

/-- ModRM, SIB and displacement, behind a number of bytes; the index is asserted not to be the
stack pointer, and the scale to have two bits. -/
def operandBytes (i : Instruction) (numBytesBefore : ℕ) : Option (List (BitVec 8)) :=
  match i.rmType with
  | .NONE => some []
  | .REG => some [modRegRMByte 3 i.finalReg i.rmBaseReg]
  | .MEM_RIP_DISPFROMINSTRSTART =>
      let displacementDelta := numBytesBefore + 1 + 4 + i.numImmediateBytes
      some (modRegRMByte 0 i.finalReg 5 ::
        bytesLE ((i.rmDisplacement - BitVec.ofNat 32 displacementDelta).setWidth 64) 4)
  | .MEM =>
      let form := displacementForm i.rmBaseReg i.rmDisplacement
      let displacementBytes := bytesLE (i.rmDisplacement.setWidth 64) form.2
      if i.rmIndexReg = regCode none then
        some (modRegRMByte form.1 i.finalReg i.rmBaseReg ::
          ((if i.rmBaseReg &&& 7 = 4 then [0b00100100] else []) ++ displacementBytes))
      else if i.rmIndexReg = regCode (some .SP) ∨ 3 < i.rmIndexScalePow2.toNat then none
      else
        some (modRegRMByte form.1 i.finalReg 4 ::
          sibByte i.rmIndexScalePow2 i.rmIndexReg i.rmBaseReg :: displacementBytes)

/-- The bytes before ModRM. -/
def headBytes (i : Instruction) : List (BitVec 8) :=
  (if i.opcode.legacyPrefix ≠ 0 then [i.opcode.legacyPrefix] else []) ++
    ((if i.finalRex ≠ 0 then [i.finalRex] else []) ++ opcodeBytes i.finalOpcode)

/-- `emitCode`. -/
def emitCode (i : Instruction) : Option (List (BitVec 8)) :=
  (if i.opcode.extension ≠ .NONE then i.operandBytes i.headBytes.length else some []).map
    fun operand => i.headBytes ++ (operand ++ bytesLE i.immediate i.numImmediateBytes)

end Instruction

/-! ### What the processor reads -/

/-- An operand in the r/m field; the displacement of `rip` counts from the end of the
instruction. -/
inductive Operand where
  | reg (number : BitVec 4)
  | mem (base : Option (BitVec 4)) (index : Option (BitVec 4 × BitVec 2))
      (displacement : BitVec 32)
  | rip (displacement : BitVec 32)
  deriving DecidableEq, Repr

/-- The number of a register: the bit in the REX prefix and the three bits in a field. -/
def regNumber (rexBit : BitVec 1) (field : BitVec 3) : BitVec 4 := rexBit ++ field

/-- A displacement of no, one or four bytes. -/
def decodeDisplacement : ℕ → List (BitVec 8) → Option (BitVec 32 × List (BitVec 8))
  | 0, bytes => some (0, bytes)
  | 1, b :: bytes => some (b.signExtend 32, bytes)
  | _, b0 :: b1 :: b2 :: b3 :: bytes => some (b3 ++ b2 ++ b1 ++ b0, bytes)
  | _, _ => none

/-- The number of bytes of the displacement for MOD. -/
def displacementSize (mod : BitVec 2) : ℕ := if mod = 0 then 0 else if mod = 1 then 1 else 4

/-- ModRM, SIB and displacement: the register and the operand, and the bytes behind them. -/
def decodeOperand (rex : BitVec 8) :
    List (BitVec 8) → Option (BitVec 4 × Operand × List (BitVec 8))
  | [] => none
  | modRM :: bytes =>
      let mod := modRM.extractLsb' 6 2
      let rm := modRM.extractLsb' 0 3
      let reg := regNumber (rex.extractLsb' 2 1) (modRM.extractLsb' 3 3)
      if mod = 3 then some (reg, .reg (regNumber (rex.extractLsb' 0 1) rm), bytes)
      else if rm = 4 then
        bytes.head?.bind fun sib =>
          let base := sib.extractLsb' 0 3
          let index := regNumber (rex.extractLsb' 1 1) (sib.extractLsb' 3 3)
          let noBase := base = 5 ∧ mod = 0
          (decodeDisplacement (if noBase then 4 else displacementSize mod) bytes.tail).map
            fun (displacement, rest) =>
              (reg, .mem (if noBase then none else some (regNumber (rex.extractLsb' 0 1) base))
                (if index = 4 then none else some (index, sib.extractLsb' 6 2)) displacement, rest)
      else if rm = 5 ∧ mod = 0 then
        (decodeDisplacement 4 bytes).map fun (displacement, rest) => (reg, .rip displacement, rest)
      else
        (decodeDisplacement (displacementSize mod) bytes).map fun (displacement, rest) =>
          (reg, .mem (some (regNumber (rex.extractLsb' 0 1) rm)) none displacement, rest)

/-- What the opcode determines: a legacy prefix, the number of bytes of the opcode, ModRM, and
the bytes of the immediate. -/
structure Shape where
  hasPrefix : Bool
  opcodeLength : ℕ
  hasModRM : Bool
  immediateSize : ℕ
  deriving DecidableEq, Repr

/-- An instruction as it is read. The register of `opcodeReg` is the one that an opcode with a
register stands for. -/
structure Decoded where
  legacyPrefix : BitVec 8
  rex : BitVec 8
  opcode : List (BitVec 8)
  opcodeReg : BitVec 4
  operand : Option (BitVec 4 × Operand)
  immediate : BitVec 64
  deriving DecidableEq, Repr

/-- The value of bytes, the lowest first. -/
def valueLE (bytes : List (BitVec 8)) : BitVec 64 :=
  bytes.foldr (fun b value => (value <<< 8) ||| b.setWidth 64) 0

/-- Take the legacy prefix. -/
def takePrefix (hasPrefix : Bool) (bytes : List (BitVec 8)) :
    Option (BitVec 8 × List (BitVec 8)) :=
  if hasPrefix then bytes.head?.map fun b => (b, bytes.tail) else some (0, bytes)

/-- Take the REX prefix, if there is one. -/
def takeRex : List (BitVec 8) → BitVec 8 × List (BitVec 8)
  | b :: bytes => if b.extractLsb' 4 4 = 4 then (b, bytes) else (0, b :: bytes)
  | [] => (0, [])

/-- Take the register and the operand. -/
def takeOperand (hasModRM : Bool) (rex : BitVec 8) (bytes : List (BitVec 8)) :
    Option (Option (BitVec 4 × Operand) × List (BitVec 8)) :=
  if hasModRM then (decodeOperand rex bytes).map fun x => (some (x.1, x.2.1), x.2.2)
  else some (none, bytes)

/-- Read an instruction of a shape from all of the bytes. -/
def decode (s : Shape) (bytes : List (BitVec 8)) : Option Decoded :=
  (takePrefix s.hasPrefix bytes).bind fun x =>
    let (rex, bytes) := takeRex x.2
    let opcode := bytes.take s.opcodeLength
    opcode.getLast?.bind fun last =>
      (takeOperand s.hasModRM rex (bytes.drop s.opcodeLength)).bind fun y =>
        if opcode.length = s.opcodeLength ∧ y.2.length = s.immediateSize then
          some
            { legacyPrefix := x.1, rex, opcode
              opcodeReg := regNumber (rex.extractLsb' 0 1) (last.extractLsb' 0 3)
              operand := y.1
              immediate := valueLE y.2 }
        else none

/-! ### Bits -/

/-- The number of a register, from its two parts. -/
theorem regNumber_eq (reg : BitVec 8) :
    regNumber (reg.extractLsb' 3 1) (reg.extractLsb' 0 3) = reg.extractLsb' 0 4 := by
  revert reg
  decide

/-- The bit for the REX prefix. -/
theorem and_eight_eq_zero_iff (reg : BitVec 8) : reg &&& 8 = 0 ↔ reg.extractLsb' 3 1 = 0 := by
  revert reg
  decide

/-- The fields of ModRM. -/
theorem modRegRMByte_fields (mod : BitVec 2) (reg rm : BitVec 8) :
    (modRegRMByte mod reg rm).extractLsb' 6 2 = mod ∧
      (modRegRMByte mod reg rm).extractLsb' 3 3 = reg.extractLsb' 0 3 ∧
      (modRegRMByte mod reg rm).extractLsb' 0 3 = rm.extractLsb' 0 3 := by
  refine ⟨?_, ?_, ?_⟩ <;> ext i hi <;> interval_cases i <;> simp [modRegRMByte]

/-- The fields of SIB. -/
theorem sibByte_fields (scalePow2 : BitVec 32) (index base : BitVec 8) :
    (sibByte scalePow2 index base).extractLsb' 6 2 = scalePow2.setWidth 2 ∧
      (sibByte scalePow2 index base).extractLsb' 3 3 = index.extractLsb' 0 3 ∧
      (sibByte scalePow2 index base).extractLsb' 0 3 = base.extractLsb' 0 3 := by
  refine ⟨?_, ?_, ?_⟩ <;> ext i hi <;> interval_cases i <;> simp [sibByte]

/-- Four bytes are read as they were written. -/
theorem decodeDisplacement_four (d : BitVec 32) (rest : List (BitVec 8)) :
    decodeDisplacement 4 (bytesLE (d.setWidth 64) 4 ++ rest) = some (d, rest) := by
  have hbytes : (d.setWidth 64).extractLsb' 24 8 ++ (d.setWidth 64).extractLsb' 16 8 ++
      (d.setWidth 64).extractLsb' 8 8 ++ (d.setWidth 64).extractLsb' 0 8 = d := by
    rw [BitVec.extractLsb'_append_extractLsb'_eq_extractLsb' (show 24 = 16 + 8 from rfl),
      BitVec.extractLsb'_append_extractLsb'_eq_extractLsb' (show 16 = 8 + 8 from rfl),
      BitVec.extractLsb'_append_extractLsb'_eq_extractLsb' (show 8 = 0 + 8 from rfl),
      ← BitVec.setWidth_eq_extractLsb' (by decide), BitVec.setWidth_setWidth_of_le d (by decide)]
    exact BitVec.setWidth_eq d
  exact congrArg (fun d => some (d, rest)) hbytes

/-- A byte is read as it was written, if it can be extended to the displacement. -/
theorem decodeDisplacement_one {d : BitVec 32} (hlow : -128 ≤ d.toInt) (hhigh : d.toInt ≤ 127)
    (rest : List (BitVec 8)) :
    decodeDisplacement 1 (bytesLE (d.setWidth 64) 1 ++ rest) = some (d, rest) := by
  have hbyte : ((d.setWidth 64).extractLsb' 0 8).signExtend 32 = d := by
    have hlow8 : (d.setWidth 64).extractLsb' 0 8 = d.setWidth 8 := by
      rw [← BitVec.setWidth_eq_extractLsb' (by decide),
        BitVec.setWidth_setWidth_of_le d (by decide)]
    apply BitVec.eq_of_toInt_eq
    rw [hlow8, BitVec.toInt_signExtend_of_le (by decide), BitVec.toInt_setWidth]
    rw [BitVec.toInt_eq_toNat_bmod] at hlow hhigh ⊢
    simp only [Int.bmod_def] at hlow hhigh ⊢
    omega
  exact congrArg (fun d => some (d, rest)) hbyte

/-- The displacement of a memory operand is read as it was set. -/
theorem decodeDisplacement_form (baseReg : BitVec 8) (d : BitVec 32) (rest : List (BitVec 8)) :
    (displacementForm baseReg d).1 ≠ 3 ∧
      (baseReg.extractLsb' 0 3 = 5 → (displacementForm baseReg d).1 ≠ 0) ∧
      decodeDisplacement (displacementSize (displacementForm baseReg d).1)
        (bytesLE (d.setWidth 64) (displacementForm baseReg d).2 ++ rest) = some (d, rest) := by
  have hbase : baseReg &&& 7 = 5 ↔ baseReg.extractLsb' 0 3 = 5 := by
    revert baseReg
    decide
  rw [displacementForm]
  split
  · case _ hzero =>
      subst hzero
      split
      · exact ⟨by decide, fun _ => by decide, rfl⟩
      · case _ hne => exact ⟨by decide, fun h => absurd (hbase.mpr h) hne, rfl⟩
  · split
    · case _ hrange =>
        exact ⟨by decide, fun _ => by decide, decodeDisplacement_one hrange.1 hrange.2 rest⟩
    · exact ⟨by decide, fun _ => by decide, decodeDisplacement_four d rest⟩

/-! ### Operands -/

/-- The bits of a REX prefix are those of the registers of an instruction. -/
structure RexFor (i : Instruction) (rex : BitVec 8) : Prop where
  reg : rex.extractLsb' 2 1 = i.finalReg.extractLsb' 3 1
  base : rex.extractLsb' 0 1 = i.rmBaseReg.extractLsb' 3 1
  index : rex.extractLsb' 1 1 = i.rmIndexReg.extractLsb' 3 1

/-- The operand in the r/m field of an instruction of a length. -/
def Instruction.operand (i : Instruction) (length : ℕ) : Operand :=
  match i.rmType with
  | .NONE | .REG => .reg (i.rmBaseReg.extractLsb' 0 4)
  | .MEM_RIP_DISPFROMINSTRSTART => .rip (i.rmDisplacement - BitVec.ofNat 32 length)
  | .MEM =>
      .mem (some (i.rmBaseReg.extractLsb' 0 4))
        (if i.rmIndexReg = regCode none then none
          else some (i.rmIndexReg.extractLsb' 0 4, i.rmIndexScalePow2.setWidth 2))
        i.rmDisplacement

/-- An index is a register that can be one, and its scale has two bits. -/
def Instruction.IndexValid (i : Instruction) : Prop :=
  i.rmIndexReg = regCode none ∨
    (i.rmIndexReg.extractLsb' 0 4 ≠ 4 ∧ i.rmIndexScalePow2.toNat ≤ 3)

/-- The number `4` in three bits of a register. -/
theorem and_seven_eq_iff (reg : BitVec 8) : reg &&& 7 = 4 ↔ reg.extractLsb' 0 3 = 4 := by
  revert reg
  decide

/-- A memory operand without SIB. -/
theorem decodeOperand_base {rex modRM : BitVec 8} {bytes rest : List (BitVec 8)} {d : BitVec 32}
    (hmod : modRM.extractLsb' 6 2 ≠ 3) (hrm : modRM.extractLsb' 0 3 ≠ 4)
    (hbase : modRM.extractLsb' 0 3 = 5 → modRM.extractLsb' 6 2 ≠ 0)
    (hd : decodeDisplacement (displacementSize (modRM.extractLsb' 6 2)) bytes =
      some (d, rest)) :
    decodeOperand rex (modRM :: bytes) =
      some (regNumber (rex.extractLsb' 2 1) (modRM.extractLsb' 3 3),
        .mem (some (regNumber (rex.extractLsb' 0 1) (modRM.extractLsb' 0 3))) none d, rest) := by
  rw [decodeOperand]
  dsimp only
  rw [if_neg hmod, if_neg hrm, if_neg fun h => hbase h.1 h.2, hd]
  rfl

/-- A memory operand with SIB. -/
theorem decodeOperand_sib {rex modRM sib : BitVec 8} {bytes rest : List (BitVec 8)}
    {d : BitVec 32} (hmod : modRM.extractLsb' 6 2 ≠ 3) (hrm : modRM.extractLsb' 0 3 = 4)
    (hbase : sib.extractLsb' 0 3 = 5 → modRM.extractLsb' 6 2 ≠ 0)
    (hd : decodeDisplacement (displacementSize (modRM.extractLsb' 6 2)) bytes =
      some (d, rest)) :
    decodeOperand rex (modRM :: sib :: bytes) =
      some (regNumber (rex.extractLsb' 2 1) (modRM.extractLsb' 3 3),
        .mem (some (regNumber (rex.extractLsb' 0 1) (sib.extractLsb' 0 3)))
          (if regNumber (rex.extractLsb' 1 1) (sib.extractLsb' 3 3) = 4 then none
            else some (regNumber (rex.extractLsb' 1 1) (sib.extractLsb' 3 3),
              sib.extractLsb' 6 2)) d, rest) := by
  have hnot : ¬ (sib.extractLsb' 0 3 = 5 ∧ modRM.extractLsb' 6 2 = 0) := fun h => hbase h.1 h.2
  rw [decodeOperand]
  dsimp only [List.head?_cons, List.tail_cons, Option.bind_some]
  rw [if_neg hmod, if_pos hrm, if_neg hnot, if_neg hnot, hd]
  rfl

/-- **Operands**: the bytes of an operand are read as the register and the operand that were
set. -/
theorem decodeOperand_operandBytes {i : Instruction} {rex : BitVec 8} (hrex : RexFor i rex)
    (htype : i.rmType ≠ .NONE) (hindex : i.rmType = .MEM → i.IndexValid) (n : ℕ)
    (rest : List (BitVec 8)) :
    ∃ bytes, i.operandBytes n = some bytes ∧
      decodeOperand rex (bytes ++ rest) =
        some (i.finalReg.extractLsb' 0 4, i.operand (n + bytes.length + i.numImmediateBytes),
          rest) := by
  obtain ⟨hreg, hbase, hidx⟩ := hrex
  cases hrm : i.rmType with
  | NONE => exact absurd hrm htype
  | REG =>
      refine ⟨_, by rw [Instruction.operandBytes, hrm], ?_⟩
      obtain ⟨hmod, hregField, hrmField⟩ := modRegRMByte_fields 3 i.finalReg i.rmBaseReg
      rw [List.singleton_append, decodeOperand]
      simp only [hmod, hregField, hrmField, hreg, hbase, regNumber_eq, if_true,
        Instruction.operand, hrm]
  | MEM_RIP_DISPFROMINSTRSTART =>
      refine ⟨_, by rw [Instruction.operandBytes, hrm], ?_⟩
      obtain ⟨hmod, hregField, hrmField⟩ := modRegRMByte_fields 0 i.finalReg 5
      have hrmFive : (modRegRMByte 0 i.finalReg 5).extractLsb' 0 3 = 5 := hrmField
      have hlength : ∀ v : BitVec 64, (bytesLE v 4).length = 4 := fun _ => rfl
      rw [List.cons_append, decodeOperand]
      dsimp only
      rw [hmod, hregField, hrmFive, if_neg (by decide), if_neg (by decide),
        if_pos ⟨rfl, rfl⟩, decodeDisplacement_four, hreg, regNumber_eq, List.length_cons, hlength]
      simp only [Option.map_some, Instruction.operand, hrm]
  | MEM =>
      obtain ⟨hthree, hzero, hdisp⟩ :=
        decodeDisplacement_form i.rmBaseReg i.rmDisplacement rest
      simp only [Instruction.operandBytes, Instruction.operand, hrm]
      generalize displacementForm i.rmBaseReg i.rmDisplacement = form at hthree hzero hdisp ⊢
      by_cases hnone : i.rmIndexReg = regCode none
      · rw [if_pos hnone, if_pos hnone]
        refine ⟨_, rfl, ?_⟩
        obtain ⟨hmod, hregField, hrmField⟩ := modRegRMByte_fields form.1 i.finalReg i.rmBaseReg
        rw [← hmod] at hthree hzero hdisp
        by_cases hsp : i.rmBaseReg.extractLsb' 0 3 = 4
        · have hnotFive : (0b00100100 : BitVec 8).extractLsb' 0 3 = 5 →
              (modRegRMByte form.1 i.finalReg i.rmBaseReg).extractLsb' 6 2 ≠ 0 :=
            fun h => absurd h (by decide)
          rw [if_pos ((and_seven_eq_iff _).mpr hsp), List.cons_append, List.singleton_append,
            List.cons_append, decodeOperand_sib hthree (hrmField.trans hsp) hnotFive hdisp,
            hregField, hreg, hbase, hidx, hnone, regNumber_eq, if_pos (by decide),
            show (0b00100100 : BitVec 8).extractLsb' 0 3 = 4 by decide, ← hsp, regNumber_eq]
        · rw [if_neg fun h => hsp ((and_seven_eq_iff _).mp h), List.nil_append, List.cons_append,
            decodeOperand_base hthree (hrmField ▸ hsp) (hrmField ▸ hzero) hdisp, hregField,
            hrmField, hreg, hbase, regNumber_eq, regNumber_eq]
      · obtain ⟨hfour, hscale⟩ := (hindex hrm).resolve_left hnone
        have hok : ¬ (i.rmIndexReg = regCode (some .SP) ∨ 3 < i.rmIndexScalePow2.toNat) := by
          rintro (hsp | hlt)
          · rw [hsp] at hfour
            exact hfour (by decide)
          · omega
        rw [if_neg hnone, if_neg hok, if_neg hnone]
        refine ⟨_, rfl, ?_⟩
        obtain ⟨hmod, hregField, hrmField⟩ := modRegRMByte_fields form.1 i.finalReg 4
        obtain ⟨hscaleField, hindexField, hbaseField⟩ :=
          sibByte_fields i.rmIndexScalePow2 i.rmIndexReg i.rmBaseReg
        rw [← hmod] at hthree hzero hdisp
        rw [List.cons_append, List.cons_append,
          decodeOperand_sib hthree hrmField (hbaseField ▸ hzero) hdisp, hregField, hscaleField,
          hindexField, hbaseField, hreg, hbase, hidx, regNumber_eq, regNumber_eq, regNumber_eq,
          if_neg hfour]

/-! ### The REX prefix and the opcode -/

/-- The bits of the registers in a REX prefix, one after another. -/
theorem extendRex_spec {rex : BitVec 8} (hrex : rex = 0 ∨ rex = 0x40 ∨ rex = 0x48)
    (reg base index : BitVec 8) {extended : BitVec 8}
    (h : extended = extendRex (extendRex (extendRex rex reg 0x44) base 0x41) index 0x42) :
    extended.extractLsb' 2 1 = reg.extractLsb' 3 1 ∧
      extended.extractLsb' 0 1 = base.extractLsb' 3 1 ∧
      extended.extractLsb' 1 1 = index.extractLsb' 3 1 ∧
      extended.extractLsb' 3 1 = rex.extractLsb' 3 1 ∧
      (extended = 0 ∨ extended.extractLsb' 4 4 = 4) ∧ (rex ≠ 0 → extended ≠ 0) := by
  have hbit : ∀ b : BitVec 1, b = 0 ∨ b = 1 := by decide
  subst h
  simp only [extendRex, ne_eq, and_eight_eq_zero_iff]
  rcases hbit (reg.extractLsb' 3 1) with hr | hr <;>
    rcases hbit (base.extractLsb' 3 1) with hb | hb <;>
    rcases hbit (index.extractLsb' 3 1) with hx | hx <;>
    rw [hr, hb, hx] <;> rcases hrex with rfl | rfl | rfl <;> decide

/-- **The REX prefix**: its bits are those of the registers, it leaves the width as the template
has it, and it is left out only if it would say nothing. -/
theorem finalRex_spec {i : Instruction}
    (hrex : i.opcode.rex = 0 ∨ i.opcode.rex = 0x40 ∨ i.opcode.rex = 0x48) :
    RexFor i i.finalRex ∧ i.finalRex.extractLsb' 3 1 = i.opcode.rex.extractLsb' 3 1 ∧
      (i.finalRex = 0 ∨ i.finalRex.extractLsb' 4 4 = 4) ∧
      (i.finalRex = 0 → i.opcode.rex = 0 ∧
        ¬ (i.opcode.extension = .R ∧ i.finalReg &&& 0xFC = 4 ∧ i.opcode.b8R = true) ∧
        ¬ (i.rmType = .REG ∧ i.rmBaseReg &&& 0xFC = 4 ∧ i.opcode.b8RM = true)) := by
  obtain ⟨hreg, hbase, hindex, hwidth, hupper, hne⟩ :=
    extendRex_spec hrex i.finalReg i.rmBaseReg i.rmIndexReg rfl
  rw [Instruction.finalRex]
  generalize extendRex (extendRex (extendRex i.opcode.rex i.finalReg 0x44) i.rmBaseReg 0x41)
    i.rmIndexReg 0x42 = rex at hreg hbase hindex hwidth hupper hne ⊢
  by_cases hzero : rex = 0
  · subst hzero
    rw [if_pos rfl]
    split
    · exact ⟨⟨hreg, hbase, hindex⟩, hwidth, .inr rfl, fun h => absurd h (by decide)⟩
    · case _ hr =>
        split
        · exact ⟨⟨hreg, hbase, hindex⟩, hwidth, .inr rfl, fun h => absurd h (by decide)⟩
        · case _ hrm =>
            refine ⟨⟨hreg, hbase, hindex⟩, hwidth, .inl rfl, fun _ => ⟨?_, hr, hrm⟩⟩
            exact not_not.mp fun h => hne h rfl
  · rw [if_neg hzero]
    exact ⟨⟨hreg, hbase, hindex⟩, hwidth, hupper, fun h => absurd h hzero⟩

/-- The bytes of an opcode whose last byte is not zero. -/
theorem opcodeBytes_eq {opcode : BitVec 32} (hlast : opcode.extractLsb' 0 8 ≠ 0) :
    opcodeBytes opcode =
      [opcode.extractLsb' 24 8, opcode.extractLsb' 16 8, opcode.extractLsb' 8 8].filter (· ≠ 0) ++
        [opcode.extractLsb' 0 8] := by
  have hkeep : [opcode.extractLsb' 0 8].filter (· ≠ 0) = [opcode.extractLsb' 0 8] :=
    List.filter_eq_self.mpr fun b hb => by simpa using List.mem_singleton.mp hb ▸ hlast
  rw [← hkeep, ← List.filter_append]
  rfl

/-- Adding to the lower half of an opcode's last byte changes only this byte. -/
theorem opcodeBytes_add {opcode k : BitVec 32} (hlast : opcode.extractLsb' 0 8 ≠ 0)
    (hk : (opcode.extractLsb' 0 4).toNat + k.toNat < 16) :
    ∃ init : List (BitVec 8), opcodeBytes opcode = init ++ [opcode.extractLsb' 0 8] ∧
      opcodeBytes (opcode + k) = init ++ [opcode.extractLsb' 0 8 + k.setWidth 8] := by
  have hk16 : opcode.toNat % 16 + k.toNat < 16 := by
    simpa only [BitVec.extractLsb'_toNat, Nat.shiftRight_zero] using hk
  have hlt : opcode.toNat < 2 ^ 32 := opcode.isLt
  have hsum : (opcode + k).toNat = opcode.toNat + k.toNat := by
    rw [BitVec.toNat_add]
    omega
  have hhigh : ∀ start, 8 ≤ start →
      (opcode + k).extractLsb' start 8 = opcode.extractLsb' start 8 := by
    intro start hstart
    apply BitVec.eq_of_toNat_eq
    obtain ⟨n, rfl⟩ := Nat.exists_eq_add_of_le hstart
    have hdiv : (opcode.toNat + k.toNat) / 2 ^ 8 = opcode.toNat / 2 ^ 8 := by omega
    rw [BitVec.extractLsb'_toNat, BitVec.extractLsb'_toNat, hsum, Nat.shiftRight_eq_div_pow,
      Nat.shiftRight_eq_div_pow, pow_add, ← Nat.div_div_eq_div_mul, hdiv, Nat.div_div_eq_div_mul]
  have hlow : (opcode + k).extractLsb' 0 8 = opcode.extractLsb' 0 8 + k.setWidth 8 := by
    apply BitVec.eq_of_toNat_eq
    simp only [BitVec.extractLsb'_toNat, BitVec.toNat_add, BitVec.toNat_setWidth,
      Nat.shiftRight_zero]
    omega
  have hne : (opcode + k).extractLsb' 0 8 ≠ 0 := by
    have hzero : (0 : BitVec 8).toNat = 0 := rfl
    rw [ne_eq, ← BitVec.toNat_inj, BitVec.extractLsb'_toNat, hzero, Nat.shiftRight_zero]
      at hlast ⊢
    rw [hsum]
    omega
  refine ⟨_, opcodeBytes_eq hlast, ?_⟩
  rw [opcodeBytes_eq hne, hlow, hhigh 24 (by decide), hhigh 16 (by decide), hhigh 8 (by decide)]

/-- The first byte, and the bytes behind it. -/
theorem bytesLE_succ (value : BitVec 64) (n : ℕ) :
    bytesLE value (n + 1) = value.extractLsb' 0 8 :: bytesLE (value >>> 8) n := by
  have hbyte : ∀ k, value.extractLsb' (8 * (k + 1)) 8 = (value >>> 8).extractLsb' (8 * k) 8 := by
    intro k
    ext i hi
    simp only [BitVec.getElem_extractLsb', BitVec.getLsbD_ushiftRight]
    congr 1
    omega
  rw [bytesLE, List.range_succ_eq_map, List.map_cons, List.map_map]
  exact congrArg _ (List.map_congr_left fun k _ => hbyte k)

/-- A number of bytes is read as it was written. -/
theorem valueLE_bytesLE {n : ℕ} : ∀ {value : BitVec 64}, value.toNat < 2 ^ (8 * n) →
    valueLE (bytesLE value n) = value := by
  induction n with
  | zero =>
      intro value hvalue
      have hzero : value.toNat = 0 := by simpa using hvalue
      exact (BitVec.eq_of_toNat_eq hzero).symm
  | succ n ih =>
      intro value hvalue
      have hshift : (value >>> 8).toNat < 2 ^ (8 * n) := by
        rw [BitVec.toNat_ushiftRight, Nat.shiftRight_eq_div_pow]
        apply Nat.div_lt_of_lt_mul
        rwa [← pow_add, Nat.add_comm 8, ← Nat.mul_succ]
      rw [bytesLE_succ, valueLE, List.foldr_cons, ← valueLE, ih hshift]
      ext i hi
      simp only [BitVec.getElem_or, BitVec.getElem_shiftLeft, BitVec.getElem_setWidth]
      by_cases h : i < 8
      · simp [h, BitVec.getLsbD_eq_getElem hi]
      · simp [h, show 8 + (i - 8) = i by omega, BitVec.getLsbD_eq_getElem hi]

/-! ### Whole instructions -/

/-- What is set for the r/m field. -/
inductive RM where
  | none
  | reg (reg : REG)
  | reg8 (reg : REG)
  | mem (base : REG) (displacement : BitVec 32) (index : Option REG) (scalePow2 : BitVec 32)
  | mem8 (base : REG) (displacement : BitVec 32) (index : Option REG) (scalePow2 : BitVec 32)
  | rip (displacementFromStart : BitVec 32)
  deriving DecidableEq, Repr

/-- The arguments of an instruction. -/
structure Arguments where
  r : Option REG := none
  rm : RM := .none
  immediateSize : ℕ := 0
  immediate : BitVec 64 := 0
  cc : Option (Fin 16) := none
  deriving DecidableEq, Repr

/-- The setter for the r/m field. -/
def Instruction.setRM (i : Instruction) : RM → Instruction
  | .none => i
  | .reg reg => i.setR4RM reg
  | .reg8 reg => i.setR8_4RM reg
  | .mem base displacement index scalePow2 => i.setM4RM base displacement index scalePow2
  | .mem8 base displacement index scalePow2 => i.setM8_4RM base displacement index scalePow2
  | .rip displacementFromStart => i.setMIP4RM displacementFromStart

/-- An instruction with its arguments set. -/
def Arguments.instruction (a : Arguments) (t : OPCodeTemplate) : Instruction :=
  let i : Instruction := a.r.elim { opcode := t } fun reg => { opcode := t : Instruction }.setR reg
  let i := (i.setRM a.rm).setImm a.immediateSize a.immediate
  a.cc.elim i i.setCC

/-- The number of a register. -/
def regIndex (reg : REG) : BitVec 4 := BitVec.ofNat 4 reg.ctorIdx

/-- The operand that the r/m field is set to, in an instruction of a length. -/
def RM.operand (length : ℕ) : RM → Option Operand
  | .none => Option.none
  | .reg register | .reg8 register => some (.reg (regIndex register))
  | .mem base displacement index scalePow2 | .mem8 base displacement index scalePow2 =>
      some (.mem (some (regIndex base)) (index.map fun reg => (regIndex reg, scalePow2.setWidth 2))
        displacement)
  | .rip displacementFromStart =>
      some (.rip (displacementFromStart - BitVec.ofNat 32 length))

/-- The type of the operand. -/
def RM.type : RM → RMType
  | .none => .NONE
  | .reg _ | .reg8 _ => .REG
  | .mem _ _ _ _ | .mem8 _ _ _ _ => .MEM
  | .rip _ => .MEM_RIP_DISPFROMINSTRSTART

/-- The index of a memory operand. -/
def RM.IndexValid : RM → Prop
  | .mem _ _ (some index) scalePow2 | .mem8 _ _ (some index) scalePow2 =>
      regIndex index ≠ 4 ∧ scalePow2.toNat ≤ 3
  | _ => True

/-- A template takes arguments. The opcode has room for a condition code or a register, and its
first byte is no REX prefix. -/
structure Accepts (t : OPCodeTemplate) (a : Arguments) : Prop where
  rex : t.rex = 0 ∨ t.rex = 0x40 ∨ t.rex = 0x48
  first : ∀ b ∈ (opcodeBytes t.opcode).head?, b.extractLsb' 4 4 ≠ 4
  last : t.opcode.extractLsb' 0 8 ≠ 0
  room : (t.extension = .RADD → t.opcode.extractLsb' 0 3 = 0 ∧ a.cc = none) ∧
    (a.cc ≠ none → t.opcode.extractLsb' 0 4 = 0)
  r : t.extension = .R ∨ t.extension = .RADD → a.r ≠ none
  rm : a.rm = .none ↔ t.extension = .NONE ∨ t.extension = .RADD
  index : a.rm.IndexValid
  immediate : a.immediate.toNat < 2 ^ (8 * a.immediateSize)

/-- The shape of an instruction with its arguments. -/
def Arguments.shape (a : Arguments) (t : OPCodeTemplate) : Shape :=
  { hasPrefix := t.legacyPrefix ≠ 0
    opcodeLength := (opcodeBytes t.opcode).length
    hasModRM := a.rm ≠ .none
    immediateSize := a.immediateSize }

/-- What is added to the last byte of the opcode. -/
def Arguments.addend (a : Arguments) (t : OPCodeTemplate) : BitVec 8 :=
  if t.extension = .RADD then ((a.r.elim 0 regIndex).extractLsb' 0 3).setWidth 8
  else a.cc.elim 0 fun cc => BitVec.ofNat 8 cc

/-- What an instruction of a length is read as. -/
structure ReadAs (t : OPCodeTemplate) (a : Arguments) (length : ℕ) (d : Decoded) : Prop where
  legacyPrefix : d.legacyPrefix = t.legacyPrefix
  width : d.rex.extractLsb' 3 1 = t.rex.extractLsb' 3 1
  opcode : ∃ init, opcodeBytes t.opcode = init ++ [t.opcode.extractLsb' 0 8] ∧
    d.opcode = init ++ [t.opcode.extractLsb' 0 8 + a.addend t]
  opcodeReg : t.extension = .RADD → ∀ reg ∈ a.r, d.opcodeReg = regIndex reg
  operand : d.operand.map Prod.snd = a.rm.operand length
  reg : ∀ o ∈ d.operand, (∀ digit, t.extension = .digit digit → o.1 = digit.setWidth 4) ∧
    (t.extension = .R → ∀ reg ∈ a.r, o.1 = regIndex reg)
  immediate : d.immediate = a.immediate
  byteReg : d.rex = 0 → t.extension = .R → t.b8R = true →
    ∀ reg ∈ a.r, reg ∉ [.SP, .BP, .SI, .DI]
  byteOperand : d.rex = 0 → ∀ reg, (a.rm = .reg reg ∧ t.b8RM = true) ∨ a.rm = .reg8 reg →
    reg ∉ [.SP, .BP, .SI, .DI]

/-- The legacy prefix in front of bytes. -/
theorem takePrefix_append (legacyPrefix : BitVec 8) (bytes : List (BitVec 8)) :
    takePrefix (legacyPrefix ≠ 0)
        ((if legacyPrefix ≠ 0 then [legacyPrefix] else []) ++ bytes) =
      some (legacyPrefix, bytes) := by
  by_cases hzero : legacyPrefix = 0
  · subst hzero
    rfl
  · rw [takePrefix, if_pos hzero, if_pos (decide_eq_true hzero)]
    rfl

/-- The REX prefix in front of bytes that do not start like one. -/
theorem takeRex_append {rex : BitVec 8} (hrex : rex = 0 ∨ rex.extractLsb' 4 4 = 4)
    {bytes : List (BitVec 8)} (hfirst : ∀ b ∈ bytes.head?, b.extractLsb' 4 4 ≠ 4) :
    takeRex ((if rex ≠ 0 then [rex] else []) ++ bytes) = (rex, bytes) := by
  by_cases hzero : rex = 0
  · subst hzero
    rw [if_neg (by decide), List.nil_append]
    cases bytes with
    | nil => rfl
    | cons b bytes => exact if_neg (hfirst b rfl)
  · rw [if_pos hzero, List.singleton_append]
    exact if_pos (hrex.resolve_left hzero)

/-- **Decoding an instruction** with given registers: its bytes are taken apart where they were
put together. -/
theorem Instruction.decode_emitted {i : Instruction}
    (hrex : i.opcode.rex = 0 ∨ i.opcode.rex = 0x40 ∨ i.opcode.rex = 0x48)
    {init : List (BitVec 8)} {last : BitVec 8}
    (hopcode : opcodeBytes i.finalOpcode = init ++ [last])
    (hfirst : ∀ b ∈ (opcodeBytes i.finalOpcode).head?, b.extractLsb' 4 4 ≠ 4)
    (htype : i.rmType = .NONE ↔ i.opcode.extension = .NONE ∨ i.opcode.extension = .RADD)
    (hindex : i.rmType = .MEM → i.IndexValid)
    (himm : i.immediate.toNat < 2 ^ (8 * i.numImmediateBytes)) :
    ∃ bytes, i.emitCode = some bytes ∧
      decode { hasPrefix := i.opcode.legacyPrefix ≠ 0
               opcodeLength := (init ++ [last]).length
               hasModRM := i.rmType ≠ .NONE
               immediateSize := i.numImmediateBytes } bytes =
        some
          { legacyPrefix := i.opcode.legacyPrefix
            rex := i.finalRex
            opcode := init ++ [last]
            opcodeReg := regNumber (i.rmBaseReg.extractLsb' 3 1) (last.extractLsb' 0 3)
            operand := if i.rmType = .NONE then none
              else some (i.finalReg.extractLsb' 0 4, i.operand bytes.length)
            immediate := i.immediate } := by
  obtain ⟨hfor, -, hupper, -⟩ := finalRex_spec hrex
  have himmediate := valueLE_bytesLE himm
  have hlength : (bytesLE i.immediate i.numImmediateBytes).length = i.numImmediateBytes := by
    rw [bytesLE, List.length_map, List.length_range]
  generalize hrest : bytesLE i.immediate i.numImmediateBytes = rest at himmediate hlength
  have hbase := hfor.base
  -- The operand in front of the immediate, if there is one.
  obtain ⟨middle, hmiddle, hread⟩ : ∃ middle,
      (if i.opcode.extension ≠ .NONE then i.operandBytes i.headBytes.length else some []) =
        some middle ∧
      takeOperand (i.rmType ≠ .NONE) i.finalRex (middle ++ rest) =
        some (if i.rmType = .NONE then none
          else some (i.finalReg.extractLsb' 0 4,
            i.operand (i.headBytes ++ (middle ++ rest)).length), rest) := by
    by_cases hnone : i.rmType = .NONE
    · refine ⟨[], ?_, ?_⟩
      · split
        · rw [Instruction.operandBytes, hnone]
        · rfl
      · rw [takeOperand, if_neg (by simpa using hnone), if_pos hnone, List.nil_append]
    · obtain ⟨middle, hmiddle, hread⟩ :=
        decodeOperand_operandBytes hfor hnone hindex i.headBytes.length rest
      refine ⟨middle, ?_, ?_⟩
      · rw [if_pos fun h => hnone (htype.mpr (.inl h)), hmiddle]
      · rw [takeOperand, if_pos (by simpa using hnone), if_neg hnone, hread, Option.map_some,
          List.length_append, List.length_append, hlength, Nat.add_assoc]
  refine ⟨i.headBytes ++ (middle ++ rest),
    by rw [Instruction.emitCode, hmiddle, Option.map_some, hrest], ?_⟩
  generalize (i.headBytes ++ (middle ++ rest)).length = total at hread ⊢
  have htake : takeRex ((if i.finalRex ≠ 0 then [i.finalRex] else []) ++
      (init ++ [last] ++ (middle ++ rest))) = (i.finalRex, init ++ [last] ++ (middle ++ rest)) := by
    apply takeRex_append hupper
    intro b hb
    apply hfirst b
    rw [List.head?_append_of_ne_nil _ (by simp)] at hb
    rwa [hopcode]
  rw [decode, Instruction.headBytes, hopcode, List.append_assoc, List.append_assoc,
    takePrefix_append]
  simp only [Option.bind_some, htake, List.take_left, List.drop_left, List.getLast?_concat, hread,
    hlength, himmediate, hbase, and_self, if_true]

/-- The number of a register is the lower half of its representation. -/
theorem regCode_some (reg : REG) : (regCode (some reg)).extractLsb' 0 4 = regIndex reg := by
  cases reg <;> rfl

namespace Arguments

variable {a : Arguments} {t : OPCodeTemplate}

/-- Setting arguments changes a template only in its REX prefix. -/
theorem instruction_opcode :
    (a.instruction t).opcode = { t with rex := (a.instruction t).opcode.rex } := by
  obtain ⟨r, rm, n, v, cc⟩ := a
  cases r <;> cases cc <;> cases rm <;> rfl

/-- The REX prefix becomes one for the byte of a register, and only then. -/
theorem instruction_rex :
    ((a.instruction t).opcode.rex = t.rex ∨ (a.instruction t).opcode.rex = t.rex ||| 0x40) ∧
      ∀ reg, a.rm = .reg8 reg → reg ∈ [REG.SP, .BP, .SI, .DI] →
        (a.instruction t).opcode.rex = t.rex ||| 0x40 := by
  obtain ⟨r, rm, n, v, cc⟩ := a
  have hbase : ∀ reg : REG,
      (if 3 < (regCode (some reg)).toNat then t.rex ||| 0x40 else t.rex) = t.rex ∨
        (if 3 < (regCode (some reg)).toNat then t.rex ||| 0x40 else t.rex) = t.rex ||| 0x40 := by
    intro reg
    split
    · exact .inr rfl
    · exact .inl rfl
  constructor
  · cases r <;> cases cc <;> cases rm <;> first | exact .inl rfl | exact hbase _
  · rintro reg hrm hreg
    change rm = .reg8 reg at hrm
    subst hrm
    have hlt : 3 < (regCode (some reg)).toNat := by
      revert reg
      decide
    cases r <;> cases cc <;> exact if_pos hlt

/-- The other arguments are kept as they are set. -/
theorem instruction_fields :
    (a.instruction t).cc = a.cc ∧ (a.instruction t).immediate = a.immediate ∧
      (a.instruction t).numImmediateBytes = a.immediateSize ∧
      (a.instruction t).rmType = a.rm.type := by
  obtain ⟨r, rm, n, v, cc⟩ := a
  refine ⟨?_, ?_, ?_, ?_⟩ <;> cases r <;> cases cc <;> cases rm <;> rfl

/-- A direct register is set in the r/m field. -/
theorem instruction_rmBaseReg {reg : REG} (hrm : a.rm = .reg reg ∨ a.rm = .reg8 reg) :
    (a.instruction t).rmBaseReg = regCode reg := by
  obtain ⟨r, rm, n, v, cc⟩ := a
  rcases hrm with hrm | hrm <;> change rm = _ at hrm <;> subst hrm <;>
    cases r <;> cases cc <;> rfl

/-- A memory operand is set as it was given. -/
theorem instruction_mem {base : REG} {displacement scalePow2 : BitVec 32} {index : Option REG}
    (hrm : a.rm = .mem base displacement index scalePow2 ∨
      a.rm = .mem8 base displacement index scalePow2) :
    (a.instruction t).rmBaseReg = regCode base ∧ (a.instruction t).rmIndexReg = regCode index ∧
      (a.instruction t).rmIndexScalePow2 = scalePow2 ∧
      (a.instruction t).rmDisplacement = displacement := by
  obtain ⟨r, rm, n, v, cc⟩ := a
  rcases hrm with hrm | hrm <;> change rm = _ at hrm <;> subst hrm <;>
    cases r <;> cases cc <;> exact ⟨rfl, rfl, rfl, rfl⟩

/-- A memory operand is read as it was given. -/
theorem operand_mem {base : REG} {displacement scalePow2 : BitVec 32} {index : Option REG}
    (hrm : a.rm = .mem base displacement index scalePow2 ∨
      a.rm = .mem8 base displacement index scalePow2) (hindex : a.rm.IndexValid) (length : ℕ) :
    (a.instruction t).IndexValid ∧
      some ((a.instruction t).operand length) = a.rm.operand length := by
  obtain ⟨hbase, hidx, hscale, hdisplacement⟩ := instruction_mem (t := t) hrm
  obtain ⟨-, -, -, htype⟩ := instruction_fields (a := a) (t := t)
  have hmem : (a.instruction t).rmType = .MEM := by
    rw [htype]
    rcases hrm with hrm | hrm <;> rw [hrm] <;> rfl
  have hoperand : a.rm.operand length = some (.mem (some (regIndex base))
      (index.map fun reg => (regIndex reg, scalePow2.setWidth 2)) displacement) := by
    rcases hrm with hrm | hrm <;> rw [hrm] <;> rfl
  rw [Instruction.IndexValid, Instruction.operand, hmem, hoperand, hbase, hidx, hscale,
    hdisplacement]
  cases index with
  | none => exact ⟨.inl rfl, by rw [regCode_some, if_pos rfl]; rfl⟩
  | some reg =>
      have hvalid : regIndex reg ≠ 4 ∧ scalePow2.toNat ≤ 3 := by
        rcases hrm with hrm | hrm <;> rw [hrm] at hindex <;> exact hindex
      have hne : regCode (some reg) ≠ regCode none := by cases reg <;> decide
      rw [regCode_some, regCode_some, if_neg hne]
      exact ⟨.inr hvalid, rfl⟩

/-- The operand is read as it was given. -/
theorem instruction_operand (hindex : a.rm.IndexValid) (length : ℕ) :
    ((a.instruction t).rmType = .MEM → (a.instruction t).IndexValid) ∧
      (if (a.instruction t).rmType = .NONE then none
        else some ((a.instruction t).operand length)) = a.rm.operand length := by
  obtain ⟨-, -, -, htype⟩ := instruction_fields (a := a) (t := t)
  cases hrm : a.rm with
  | none =>
      rw [htype, hrm]
      exact ⟨by simp [RM.type], rfl⟩
  | reg register =>
      rw [Instruction.operand, htype, hrm, instruction_rmBaseReg (.inl hrm), regCode_some]
      exact ⟨by simp [RM.type], rfl⟩
  | reg8 register =>
      rw [Instruction.operand, htype, hrm, instruction_rmBaseReg (.inr hrm), regCode_some]
      exact ⟨by simp [RM.type], rfl⟩
  | mem base displacement index scalePow2 =>
      obtain ⟨hvalid, hoperand⟩ := operand_mem (t := t) (.inl hrm) hindex length
      rw [htype, hoperand, hrm]
      exact ⟨fun _ => hvalid, rfl⟩
  | mem8 base displacement index scalePow2 =>
      obtain ⟨hvalid, hoperand⟩ := operand_mem (t := t) (.inr hrm) hindex length
      rw [htype, hoperand, hrm]
      exact ⟨fun _ => hvalid, rfl⟩
  | rip displacementFromStart =>
      have hdisplacement : (a.instruction t).rmDisplacement = displacementFromStart := by
        obtain ⟨r, rm, n, v, cc⟩ := a
        change rm = _ at hrm
        subst hrm
        cases r <;> cases cc <;> rfl
      rw [Instruction.operand, htype, hrm, hdisplacement]
      exact ⟨by simp [RM.type], rfl⟩

/-- The register is set in the opcode or in the REG field. -/
theorem instruction_r {reg : REG} (hr : a.r = some reg) :
    (t.extension = .RADD → a.rm = .none → (a.instruction t).rmBaseReg = regCode reg) ∧
      (t.extension ≠ .RADD → (a.instruction t).rReg = regCode reg) := by
  obtain ⟨r, rm, n, v, cc⟩ := a
  change r = some reg at hr
  subst hr
  constructor
  · intro hradd hnone
    change rm = .none at hnone
    subst hnone
    cases cc <;> exact if_pos hradd
  · intro hradd
    cases cc <;> cases rm <;> exact if_neg hradd

/-- The opcode has room for what is added to it. -/
theorem addend_lt (h : Accepts t a) :
    (t.opcode.extractLsb' 0 4).toNat + (a.addend t).toNat < 16 := by
  rw [addend]
  split
  · case _ hradd =>
      have hlow : _ = 0 := congrArg BitVec.toNat (h.room.1 hradd).1
      have hlt := ((a.r.elim 0 regIndex).extractLsb' 0 3).isLt
      simp only [BitVec.extractLsb'_toNat, BitVec.toNat_setWidth, Nat.shiftRight_zero]
        at hlow hlt ⊢
      omega
  · have hlt := (t.opcode.extractLsb' 0 4).isLt
    cases hcc : a.cc with
    | none => simpa using hlt
    | some cc =>
        have hlow : (t.opcode.extractLsb' 0 4).toNat = 0 :=
          congrArg BitVec.toNat (h.room.2 (by rw [hcc]; simp))
        have hlt := cc.isLt
        rw [hlow, Option.elim_some, BitVec.toNat_ofNat]
        omega

/-- The opcode that is written. -/
theorem instruction_finalOpcode (h : Accepts t a) :
    (a.instruction t).finalOpcode = t.opcode + (a.addend t).setWidth 32 := by
  obtain ⟨hcc, -, -, -⟩ := instruction_fields (a := a) (t := t)
  rw [Instruction.finalOpcode, instruction_opcode, hcc, addend]
  dsimp only
  split
  · case _ hradd =>
      obtain ⟨reg, hreg⟩ := Option.ne_none_iff_exists'.mp (h.r (.inr hradd))
      have hbase := (instruction_r hreg).1 hradd (h.rm.mpr (.inr hradd))
      have hbits : regCode (some reg) &&& 7 = ((regIndex reg).extractLsb' 0 3).setWidth 8 := by
        cases reg <;> rfl
      rw [(h.room.1 hradd).2, hbase, hbits, hreg]
      simp
  · cases a.cc with
    | none => rfl
    | some cc =>
        have hwiden : (BitVec.ofNat 8 cc).setWidth 32 = BitVec.ofNat 32 cc := by
          revert cc
          decide
        rw [Option.elim_some, Option.elim_some, hwiden]

end Arguments

/-- Adding to the lower half of a byte keeps the upper half. -/
theorem extractLsb'_add {b k : BitVec 8} (hk : (b.extractLsb' 0 4).toNat + k.toNat < 16) :
    (b + k).extractLsb' 4 4 = b.extractLsb' 4 4 := by
  apply BitVec.eq_of_toNat_eq
  have hlt := b.isLt
  simp only [BitVec.extractLsb'_toNat, BitVec.toNat_add, Nat.shiftRight_eq_div_pow] at hk ⊢
  omega

/-- Adding three bits where there are none. -/
theorem extractLsb'_add_setWidth {b : BitVec 8} (hb : b.extractLsb' 0 3 = 0) (k : BitVec 3) :
    (b + k.setWidth 8).extractLsb' 0 3 = k := by
  apply BitVec.eq_of_toNat_eq
  have hlow : _ = 0 := congrArg BitVec.toNat hb
  have hlt := k.isLt
  simp only [BitVec.extractLsb'_toNat, BitVec.toNat_add, BitVec.toNat_setWidth,
    Nat.shiftRight_zero] at hlow ⊢
  omega

/-- The lowest bits of an opcode are those of its last byte. -/
theorem extractLsb'_last (opcode : BitVec 32) {n : ℕ} (hn : n ≤ 8) :
    (opcode.extractLsb' 0 8).extractLsb' 0 n = opcode.extractLsb' 0 n := by
  ext k hk
  simp [show k < 8 by omega]

/-- The registers whose numbers are read as other bytes without a REX prefix. -/
theorem regCode_and_eq_four :
    ∀ reg ∈ [REG.SP, .BP, .SI, .DI], regCode (some reg) &&& 0xFC = 4 := by
  decide

/-- **Decoding**: an instruction is read with the opcode, the registers, the operand and the
immediate that were set, for every template and all of the arguments that it takes. -/
theorem decode_emitCode {t : OPCodeTemplate} {a : Arguments} (h : Accepts t a) :
    ∃ bytes, (a.instruction t).emitCode = some bytes ∧
      ∃ d, decode (a.shape t) bytes = some d ∧ ReadAs t a bytes.length d := by
  have hroom := Arguments.addend_lt h
  have hfinal := Arguments.instruction_finalOpcode h
  have hopcodeEq := Arguments.instruction_opcode (a := a) (t := t)
  obtain ⟨hrexEq, hbyte⟩ := Arguments.instruction_rex (a := a) (t := t)
  obtain ⟨-, himm, hsize, htype⟩ := Arguments.instruction_fields (a := a) (t := t)
  have hoperand := Arguments.instruction_operand (t := t) h.index
  have hbaseReg : ∀ reg, a.rm = .reg reg ∨ a.rm = .reg8 reg →
      (a.instruction t).rmBaseReg = regCode (some reg) :=
    fun _ => Arguments.instruction_rmBaseReg
  have hr : ∀ reg, a.r = some reg →
      (t.extension = .RADD → a.rm = .none → (a.instruction t).rmBaseReg = regCode (some reg)) ∧
        (t.extension ≠ .RADD → (a.instruction t).rReg = regCode (some reg)) :=
    fun _ => Arguments.instruction_r
  have hnone : a.rm.type = .NONE ↔ a.rm = .none := by cases a.rm <;> simp [RM.type]
  generalize a.instruction t = i at *
  have hrex : i.opcode.rex = 0 ∨ i.opcode.rex = 0x40 ∨ i.opcode.rex = 0x48 := by
    rcases hrexEq with heq | heq <;> rw [heq] <;> rcases h.rex with hrex | hrex | hrex <;>
      rw [hrex] <;> decide
  obtain ⟨init, hinit, hbytes⟩ := opcodeBytes_add (k := (a.addend t).setWidth 32) h.last
    (by rwa [BitVec.toNat_setWidth_of_le (by decide)])
  rw [← hfinal, BitVec.setWidth_setWidth_of_le _ (by decide), BitVec.setWidth_eq] at hbytes
  have hfirst : ∀ b ∈ (opcodeBytes i.finalOpcode).head?, b.extractLsb' 4 4 ≠ 4 := by
    intro b hb
    cases init with
    | nil =>
        rw [hbytes, List.nil_append, List.head?_cons, Option.mem_some_iff] at hb
        rw [← hb, extractLsb'_add (by rwa [extractLsb'_last _ (by decide)])]
        exact h.first _ (by rw [hinit]; rfl)
    | cons c init =>
        rw [hbytes] at hb
        exact h.first b (by rwa [hinit])
  have hrmType :
      i.rmType = .NONE ↔ i.opcode.extension = .NONE ∨ i.opcode.extension = .RADD := by
    rw [htype, hnone, h.rm, hopcodeEq]
  obtain ⟨bytes, hemit, hdecode⟩ := Instruction.decode_emitted hrex hbytes hfirst hrmType
    (hoperand 0).1 (by rw [himm, hsize]; exact h.immediate)
  obtain ⟨hfor, hwidth, -, hbyteRegs⟩ := finalRex_spec hrex
  have hshape : a.shape t =
      { hasPrefix := i.opcode.legacyPrefix ≠ 0
        opcodeLength := (init ++ [t.opcode.extractLsb' 0 8 + a.addend t]).length
        hasModRM := i.rmType ≠ .NONE
        immediateSize := i.numImmediateBytes } := by
    rw [hopcodeEq, Arguments.shape, hinit, htype, hsize, List.length_append, List.length_append]
    simp [hnone]
  refine ⟨bytes, hemit, _, by rw [hshape, hdecode], ?_⟩
  constructor
  · rw [hopcodeEq]
  · rw [hwidth]
    rcases hrexEq with heq | heq <;> rw [heq]
    rcases h.rex with hrex | hrex | hrex <;> rw [hrex] <;> decide
  · exact ⟨init, hinit, rfl⟩
  · intro hradd reg hreg
    have hnumber : regNumber ((regCode (some reg)).extractLsb' 3 1)
        ((regIndex reg).extractLsb' 0 3) = regIndex reg := by cases reg <;> rfl
    have hlow : (t.opcode.extractLsb' 0 8).extractLsb' 0 3 = 0 :=
      (extractLsb'_last _ (by decide)).trans (h.room.1 hradd).1
    have hadd : a.addend t = ((regIndex reg).extractLsb' 0 3).setWidth 8 := by
      rw [Arguments.addend, if_pos hradd, Option.mem_def.mp hreg, Option.elim_some]
    dsimp only
    rw [(hr reg hreg).1 hradd (h.rm.mpr (.inr hradd)), hadd, extractLsb'_add_setWidth hlow,
      hnumber]
  · rw [← (hoperand bytes.length).2]
    dsimp only
    split
    · rfl
    · rfl
  · intro o ho
    have hfield : o.1 = i.finalReg.extractLsb' 0 4 := by
      dsimp only at ho
      split at ho
      · cases ho
      · rw [← Option.mem_some_iff.mp ho]
    rw [hfield]
    constructor
    · intro digit hdigit
      rw [Instruction.finalReg, hopcodeEq, hdigit]
      have hwide : ∀ digit : BitVec 3, (digit.setWidth 8).extractLsb' 0 4 = digit.setWidth 4 := by
        decide
      exact hwide digit
    · intro hR reg hreg
      rw [Instruction.finalReg, hopcodeEq, hR]
      dsimp only
      rw [(hr reg hreg).2 (by rw [hR]; decide), regCode_some]
  · exact himm
  · intro hzero hR hb reg hreg hmem
    refine (hbyteRegs hzero).2.1 ⟨by rw [hopcodeEq, hR], ?_, by rw [hopcodeEq, hb]⟩
    rw [Instruction.finalReg, hopcodeEq, hR]
    dsimp only
    rw [(hr reg hreg).2 (by rw [hR]; decide)]
    exact regCode_and_eq_four reg hmem
  · intro hzero reg hreg hmem
    rcases hreg with ⟨hreg, hb⟩ | hreg
    · refine (hbyteRegs hzero).2.2 ⟨by rw [htype, hreg]; rfl, ?_, by rw [hopcodeEq, hb]⟩
      rw [hbaseReg reg (.inl hreg)]
      exact regCode_and_eq_four reg hmem
    · have hset := hbyte reg hreg hmem
      rw [(hbyteRegs hzero).1] at hset
      rcases h.rex with hrex | hrex | hrex <;> rw [hrex] at hset <;> exact absurd hset (by decide)

/-- `MOV_r64_rm64`. -/
def movLoad : OPCodeTemplate :=
  { legacyPrefix := 0, rex := 0x48, b8R := false, b8RM := false, extension := .R, opcode := 0x8B }

/-- A load into `R9` from a base that needs a displacement and a scaled index. -/
def indexedArguments : Arguments :=
  { r := some .R9, rm := .mem .BP 0 (some .R12) 3 }

/-- An indexed load is read as it was set. -/
theorem decode_emitCode_indexed :
    ∃ bytes, (indexedArguments.instruction movLoad).emitCode = some bytes ∧
      ∃ d, decode (indexedArguments.shape movLoad) bytes = some d ∧
        ReadAs movLoad indexedArguments bytes.length d :=
  decode_emitCode
    { rex := .inr (.inr rfl)
      first := by decide
      last := by decide
      room := ⟨fun h => absurd h (by decide), fun h => absurd rfl h⟩
      r := fun _ => by decide
      rm := by decide
      index := ⟨by decide, by decide⟩
      immediate := by decide }

end Encoder

end X86_64

end WasmCompiler
