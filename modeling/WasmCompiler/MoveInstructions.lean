import WasmCompiler.LogicalImmediates

/-!
# Instructions that Move a Constant

The words of the AArch64 instructions with which a constant gets into a register, as the
assembler puts them together from a template and the fields, and what a processor makes of such
a word.

## Main results

* `decode_moveWide`: the words of `MOVZ`, `MOVN` and `MOVK`.
* `decode_orr`: the word of a move of a logical immediate.
* `decode_fmovImmediate`, `decode_fmovRegister`: the words of the two moves into a floating-point
  register.
-/

namespace WasmCompiler

open BitField LogicalImmediate

namespace Aarch64Move

/-! ### Templates and fields -/

/-- `MOVZ_wD_imm16ols_t`, `MOVZ_xD_imm16ols_t`. -/
def MOVZ_D_imm16ols_t (is64 : Bool) : BitVec 32 := if is64 then 0xD2800000#32 else 0x52800000#32

/-- `MOVN_wD_imm16ols_t`, `MOVN_xD_imm16ols_t`. -/
def MOVN_D_imm16ols_t (is64 : Bool) : BitVec 32 := if is64 then 0x92800000#32 else 0x12800000#32

/-- `MOVK_wD_imm16ols_t`, `MOVK_xD_imm16ols_t`. -/
def MOVK_D_imm16ols_t (is64 : Bool) : BitVec 32 := if is64 then 0xF2800000#32 else 0x72800000#32

/-- `MOV_wD_imm12bitmask_t`, `MOV_xD_imm13bitmask_t`. -/
def MOV_D_bitmask_t (is64 : Bool) : BitVec 32 := if is64 then 0xB20003E0#32 else 0x320003E0#32

/-- `FMOV_sD_imm8mod_t`, `FMOV_dD_imm8mod_t`. -/
def FMOV_D_imm8mod_t (is64 : Bool) : BitVec 32 := if is64 then 0x1E601000#32 else 0x1E201000#32

/-- `FMOV_sD_wN`, `FMOV_dD_xN`. -/
def FMOV_D_N (is64 : Bool) : BitVec 32 := if is64 then 0x9E670000#32 else 0x1E270000#32

/-- `setD`, with the number of the register in its bank. -/
def setD (opcode : BitVec 32) (reg : BitVec 5) : BitVec 32 :=
  opcode ||| (reg.setWidth 32 &&& 0b11111#32)

/-- `setN`. -/
def setN (opcode : BitVec 32) (reg : BitVec 5) : BitVec 32 :=
  opcode ||| ((reg.setWidth 32 &&& 0b11111#32) <<< 5)

/-- `setImm16Ols`. -/
def setImm16Ols (opcode imm shift : BitVec 32) : BitVec 32 :=
  (opcode ||| (((shift / 16#32) &&& 0b11#32) <<< 21)) ||| ((imm &&& 0xFFFF#32) <<< 5)

/-- `setRawImmBitmask`. -/
def setRawImmBitmask (opcode encoding : BitVec 32) : BitVec 32 :=
  opcode ||| ((encoding &&& 0b1111111111111#32) <<< 10)

/-- `setRawFMOVImm8`. -/
def setRawFMOVImm8 (opcode rawFloatImm : BitVec 32) : BitVec 32 :=
  opcode ||| ((rawFloatImm &&& 0xFF#32) <<< 13)

/-! ### What the processor does -/

/-- The registers, by their numbers. The general purpose register with the number 31 is the stack
pointer. -/
structure Registers where
  gpr : BitVec 5 → BitVec 64
  fpr : BitVec 5 → BitVec 128

/-- The number that stands for the stack pointer or for the zero register. -/
def zrOrSp : BitVec 5 := 31#5

namespace Registers

/-- Write a general purpose register, or the stack pointer. -/
def writeSP (regs : Registers) (rd : BitVec 5) (v : BitVec 64) : Registers :=
  { regs with gpr := Function.update regs.gpr rd v }

/-- Write a general purpose register, or nothing. -/
def writeZR (regs : Registers) (rd : BitVec 5) (v : BitVec 64) : Registers :=
  if rd = zrOrSp then regs else regs.writeSP rd v

/-- Read a general purpose register, or zero. -/
def readZR (regs : Registers) (rn : BitVec 5) : BitVec 64 :=
  if rn = zrOrSp then 0#64 else regs.gpr rn

/-- Write a scalar into a floating-point register; the bits above it become zero. -/
def writeFPR (regs : Registers) (rd : BitVec 5) (v : BitVec 64) : Registers :=
  { regs with fpr := Function.update regs.fpr rd (v.setWidth 128) }

end Registers

/-- The lowest bits, as many as the instruction has. -/
def toWidth (is64 : Bool) (v : BitVec 64) : BitVec 64 := v &&& lowBits 64 (regWidth is64)

/-- `VFPExpandImm`: sign, exponent and fraction of the immediate of a floating-point move. -/
def VFPExpandImm (is64 : Bool) (imm8 : BitVec 8) : BitVec 64 :=
  let sign := imm8.extractLsb' 7 1
  let b := imm8.extractLsb' 6 1
  let cd := imm8.extractLsb' 4 2
  let frac := imm8.extractLsb' 0 4
  if is64 then sign ++ ~~~b ++ b.replicate 8 ++ cd ++ frac ++ 0#48
  else 0#32 ++ sign ++ ~~~b ++ b.replicate 5 ++ cd ++ frac ++ 0#19

/-- The three moves of a halfword. -/
inductive MoveWideOp where
  | movn | movz | movk
  deriving DecidableEq, Repr

/-- The instructions. -/
inductive Instruction where
  | moveWide (op : MoveWideOp) (is64 : Bool) (rd : BitVec 5) (imm16 : BitVec 16) (hw : ℕ)
  | orr (is64 : Bool) (rd rn : BitVec 5) (imm : BitVec 64)
  | fmovImmediate (is64 : Bool) (rd : BitVec 5) (imm8 : BitVec 8)
  | fmovRegister (is64 : Bool) (rd rn : BitVec 5)
  deriving DecidableEq, Repr

/-- The operation of a move of a halfword, from its two bits. -/
def decodeMoveWideOp (opc : BitVec 2) : Option MoveWideOp :=
  match opc with
  | 0b00#2 => some .movn
  | 0b10#2 => some .movz
  | 0b11#2 => some .movk
  | _ => none

/-- Decode a word. -/
def decode (word : BitVec 32) : Option Instruction :=
  let sf := word.getLsbD 31
  let rd := word.extractLsb' 0 5
  let rn := word.extractLsb' 5 5
  if word.extractLsb' 23 6 = 0b100101#6 then
    let hw := (word.extractLsb' 21 2).toNat
    if sf = false ∧ 2 ≤ hw then none
    else (decodeMoveWideOp (word.extractLsb' 29 2)).map fun op =>
      .moveWide op sf rd (word.extractLsb' 5 16) hw
  else if word.extractLsb' 23 8 = 0b01100100#8 then
    (decodeBitMasks sf (word.extractLsb' 10 13)).map fun imm => .orr sf rd rn imm
  else if word.extractLsb' 21 11 = 0b00011110001#11 ∧ word.extractLsb' 5 8 = 0b10000000#8 then
    some (.fmovImmediate false rd (word.extractLsb' 13 8))
  else if word.extractLsb' 21 11 = 0b00011110011#11 ∧ word.extractLsb' 5 8 = 0b10000000#8 then
    some (.fmovImmediate true rd (word.extractLsb' 13 8))
  else if word.extractLsb' 10 22 = 0b0001111000100111000000#22 then
    some (.fmovRegister false rd rn)
  else if word.extractLsb' 10 22 = 0b1001111001100111000000#22 then
    some (.fmovRegister true rd rn)
  else none

/-- Execute an instruction. -/
def Instruction.execute (regs : Registers) : Instruction → Registers
  | .moveWide .movz is64 rd imm16 hw =>
      regs.writeZR rd (toWidth is64 (imm16.setWidth 64 <<< (16 * hw)))
  | .moveWide .movn is64 rd imm16 hw =>
      regs.writeZR rd (toWidth is64 (~~~(imm16.setWidth 64 <<< (16 * hw))))
  | .moveWide .movk is64 rd imm16 hw =>
      regs.writeZR rd (toWidth is64 (insertBits (regs.readZR rd) (imm16.setWidth 64) (16 * hw) 16))
  | .orr is64 rd rn imm => regs.writeSP rd (toWidth is64 (regs.readZR rn ||| imm))
  | .fmovImmediate is64 rd imm8 => regs.writeFPR rd (VFPExpandImm is64 imm8)
  | .fmovRegister is64 rd rn => regs.writeFPR rd (toWidth is64 (regs.readZR rn))

/-- Execute words one after another; `none` is a word that is none of these instructions. -/
def run : List (BitVec 32) → Registers → Option Registers
  | [], regs => some regs
  | word :: words, regs => (decode word).bind fun i => run words (i.execute regs)

/-- Words after words. -/
theorem run_append (words words' : List (BitVec 32)) (regs : Registers) :
    run (words ++ words') regs = (run words regs).bind (run words') := by
  induction words generalizing regs with
  | nil => rfl
  | cons word words ih =>
      rw [List.cons_append, run, run]
      cases decode word with
      | none => rfl
      | some i => exact ih _

/-! ### The words of the assembler -/

/-- Read a field that was zero before it was set. -/
theorem extract_orBits {x v : BitVec 32} {lo n : ℕ} (hfits : lo + n ≤ 32)
    (hzero : x.extractLsb' lo n = 0#n) : (orBits x v lo n).extractLsb' lo n = v.setWidth n := by
  rw [orBits_eq_insertBits ((and_fieldBits_eq_zero hfits).mpr hzero), extract_insertBits hfits]

/-- Read a field beside the one that was set. -/
theorem extract_orBits_of_disjoint {x v : BitVec 32} {lo n lo' n' : ℕ}
    (h : lo + n ≤ lo' ∨ lo' + n' ≤ lo) :
    (orBits x v lo' n').extractLsb' lo n = x.extractLsb' lo n := by
  refine (orBits_agree x v lo' n').extract_eq fun i h1 h2 => ?_
  rw [getLsbD_fieldBits, Bool.and_eq_false_iff]
  exact .inr (decide_eq_false (by omega))

/-- The highest bit is beside all fields. -/
theorem getLsbD_31_orBits {x v : BitVec 32} {lo n : ℕ} (h : lo + n ≤ 31) :
    (orBits x v lo n).getLsbD 31 = x.getLsbD 31 := by
  rw [getLsbD_orBits (by omega), decide_eq_false (by omega), Bool.false_and, Bool.or_false]

/-- `setD` as a field. -/
theorem setD_eq (opcode : BitVec 32) (reg : BitVec 5) :
    setD opcode reg = orBits opcode (reg.setWidth 32) 0 5 := by
  rw [setD, orBits, BitVec.shiftLeft_zero]
  rfl

/-- `setN` as a field. -/
theorem setN_eq (opcode : BitVec 32) (reg : BitVec 5) :
    setN opcode reg = orBits opcode (reg.setWidth 32) 5 5 := rfl

/-- `setImm16Ols` as fields. -/
theorem setImm16Ols_eq (opcode imm shift : BitVec 32) :
    setImm16Ols opcode imm shift = orBits (orBits opcode (shift / 16#32) 21 2) imm 5 16 := rfl

/-- `setRawImmBitmask` as a field. -/
theorem setRawImmBitmask_eq (opcode encoding : BitVec 32) :
    setRawImmBitmask opcode encoding = orBits opcode encoding 10 13 := rfl

/-- `setRawFMOVImm8` as a field. -/
theorem setRawFMOVImm8_eq (opcode rawFloatImm : BitVec 32) :
    setRawFMOVImm8 opcode rawFloatImm = orBits opcode rawFloatImm 13 8 := rfl

/-- The template of a move of a halfword. -/
def moveWideTemplate : MoveWideOp → Bool → BitVec 32
  | .movn, is64 => MOVN_D_imm16ols_t is64
  | .movz, is64 => MOVZ_D_imm16ols_t is64
  | .movk, is64 => MOVK_D_imm16ols_t is64

/-- What the template of a move of a halfword says. -/
theorem moveWideTemplate_fields (op : MoveWideOp) (is64 : Bool) :
    let t := moveWideTemplate op is64
    t.getLsbD 31 = is64 ∧ t.extractLsb' 23 6 = 0b100101#6 ∧
      decodeMoveWideOp (t.extractLsb' 29 2) = some op ∧ t.extractLsb' 0 5 = 0#5 ∧
      t.extractLsb' 21 2 = 0#2 ∧ t.extractLsb' 5 16 = 0#16 := by
  cases op <;> cases is64 <;> decide

/-- The fields of the word of a move of a halfword. -/
theorem moveWide_fields {t : BitVec 32} (hrd : t.extractLsb' 0 5 = 0#5)
    (hols : t.extractLsb' 21 2 = 0#2) (himm : t.extractLsb' 5 16 = 0#16) (rd : BitVec 5)
    (imm shift : BitVec 32) :
    let word := setImm16Ols (setD t rd) imm shift
    word.getLsbD 31 = t.getLsbD 31 ∧
      (∀ lo n, 23 ≤ lo → word.extractLsb' lo n = t.extractLsb' lo n) ∧
      word.extractLsb' 0 5 = rd ∧ word.extractLsb' 21 2 = (shift / 16#32).setWidth 2 ∧
      word.extractLsb' 5 16 = imm.setWidth 16 := by
  simp only [setImm16Ols_eq, setD_eq]
  refine ⟨?_, fun lo n hlo => ?_, ?_, ?_, ?_⟩
  · rw [getLsbD_31_orBits (by omega), getLsbD_31_orBits (by omega), getLsbD_31_orBits (by omega)]
  · rw [extract_orBits_of_disjoint (by omega), extract_orBits_of_disjoint (by omega),
      extract_orBits_of_disjoint (by omega)]
  · rw [extract_orBits_of_disjoint (by omega), extract_orBits_of_disjoint (by omega),
      extract_orBits (by omega) hrd, BitVec.setWidth_setWidth_of_le _ (by omega),
      BitVec.setWidth_eq]
  · rw [extract_orBits_of_disjoint (by omega), extract_orBits (by omega)]
    rw [extract_orBits_of_disjoint (by omega), hols]
  · rw [extract_orBits (by omega)]
    rw [extract_orBits_of_disjoint (by omega), extract_orBits_of_disjoint (by omega), himm]

/-- **The word of a move of a halfword.** -/
theorem decode_moveWide (op : MoveWideOp) {is64 : Bool} (rd : BitVec 5) (imm : BitVec 32) {i : ℕ}
    (hi : i < regWidth is64 / 16) :
    decode (setImm16Ols (setD (moveWideTemplate op is64) rd) imm (BitVec.ofNat 32 (i * 16))) =
      some (.moveWide op is64 rd (imm.setWidth 16) i) := by
  have hi4 : i < 4 := hi.trans_le (by cases is64 <;> decide)
  have hhw : ((BitVec.ofNat 32 (i * 16) / 16#32).setWidth 2).toNat = i := by
    rw [BitVec.toNat_setWidth, BitVec.toNat_udiv]
    simp only [BitVec.toNat_ofNat, Nat.reducePow, Nat.reduceMod]
    omega
  obtain ⟨hsf, hfixed, hop, hrd, hols, himm⟩ := moveWideTemplate_fields op is64
  obtain ⟨h31, hhigh, hreg, hshift, hhalfword⟩ :=
    moveWide_fields hrd hols himm rd imm (BitVec.ofNat 32 (i * 16))
  rw [decode]
  simp only [h31, hreg, hhigh 23 6 (by omega), hhigh 29 2 (by omega), hshift, hhalfword, hfixed,
    hsf, if_true, hop, hhw, Option.map_some]
  rw [if_neg]
  rintro ⟨rfl, h2⟩
  simp only [regWidth, Bool.false_eq_true, if_false] at hi
  omega

/-- **The word of a move of a logical immediate.** -/
theorem decode_orr {is64 : Bool} (rd : BitVec 5) {encoding : BitVec 64} {imm : BitVec 64}
    (h : decodeBitMasks is64 (encoding.setWidth 13) = some imm) :
    decode (setRawImmBitmask (setD (MOV_D_bitmask_t is64) rd) (encoding.setWidth 32)) =
      some (.orr is64 rd zrOrSp imm) := by
  have htemplate : ∀ lo n, 23 ≤ lo ∨ lo + n ≤ 10 ∧ 5 ≤ lo →
      (setRawImmBitmask (setD (MOV_D_bitmask_t is64) rd) (encoding.setWidth 32)).extractLsb' lo n =
        (MOV_D_bitmask_t is64).extractLsb' lo n := by
    intro lo n hlo
    rw [setRawImmBitmask_eq, setD_eq, extract_orBits_of_disjoint (by omega),
      extract_orBits_of_disjoint (by omega)]
  have h31 : (setRawImmBitmask (setD (MOV_D_bitmask_t is64) rd)
      (encoding.setWidth 32)).getLsbD 31 = is64 := by
    rw [setRawImmBitmask_eq, setD_eq, getLsbD_31_orBits (by omega), getLsbD_31_orBits (by omega)]
    cases is64 <;> rfl
  have hreg : (setRawImmBitmask (setD (MOV_D_bitmask_t is64) rd)
      (encoding.setWidth 32)).extractLsb' 0 5 = rd := by
    rw [setRawImmBitmask_eq, setD_eq, extract_orBits_of_disjoint (by omega),
      extract_orBits (by omega) (by cases is64 <;> decide),
      BitVec.setWidth_setWidth_of_le _ (by omega), BitVec.setWidth_eq]
  have hbits : (setRawImmBitmask (setD (MOV_D_bitmask_t is64) rd)
      (encoding.setWidth 32)).extractLsb' 10 13 = encoding.setWidth 13 := by
    rw [setRawImmBitmask_eq, setD_eq, extract_orBits (by omega),
      BitVec.setWidth_setWidth_of_le _ (by omega)]
    rw [extract_orBits_of_disjoint (by omega)]
    cases is64 <;> decide
  have hrn : (MOV_D_bitmask_t is64).extractLsb' 5 5 = zrOrSp := by cases is64 <;> decide
  have hwide : (MOV_D_bitmask_t is64).extractLsb' 23 6 ≠ 0b100101#6 := by cases is64 <;> decide
  have horr : (MOV_D_bitmask_t is64).extractLsb' 23 8 = 0b01100100#8 := by cases is64 <;> decide
  rw [decode]
  simp only [h31, hreg, hbits, htemplate 23 6 (by omega), htemplate 23 8 (by omega),
    htemplate 5 5 (by omega), hrn, if_neg hwide, if_pos horr, h, Option.map_some]

/-- **The word of a move of a floating-point immediate.** -/
theorem decode_fmovImmediate (is64 : Bool) (rd : BitVec 5) (imm8 : BitVec 32) :
    decode (setRawFMOVImm8 (setD (FMOV_D_imm8mod_t is64) rd) imm8) =
      some (.fmovImmediate is64 rd (imm8.setWidth 8)) := by
  have htemplate : ∀ lo n, 21 ≤ lo ∨ lo + n ≤ 13 ∧ 5 ≤ lo →
      (setRawFMOVImm8 (setD (FMOV_D_imm8mod_t is64) rd) imm8).extractLsb' lo n =
        (FMOV_D_imm8mod_t is64).extractLsb' lo n := by
    intro lo n hlo
    rw [setRawFMOVImm8_eq, setD_eq, extract_orBits_of_disjoint (by omega),
      extract_orBits_of_disjoint (by omega)]
  have hreg : (setRawFMOVImm8 (setD (FMOV_D_imm8mod_t is64) rd) imm8).extractLsb' 0 5 = rd := by
    rw [setRawFMOVImm8_eq, setD_eq, extract_orBits_of_disjoint (by omega),
      extract_orBits (by omega) (by cases is64 <;> decide),
      BitVec.setWidth_setWidth_of_le _ (by omega), BitVec.setWidth_eq]
  have himm : (setRawFMOVImm8 (setD (FMOV_D_imm8mod_t is64) rd) imm8).extractLsb' 13 8 =
      imm8.setWidth 8 := by
    rw [setRawFMOVImm8_eq, setD_eq, extract_orBits (by omega)]
    rw [extract_orBits_of_disjoint (by omega)]
    cases is64 <;> decide
  rw [decode]
  simp only [hreg, himm, htemplate 23 6 (by omega), htemplate 23 8 (by omega),
    htemplate 21 11 (by omega), htemplate 5 8 (by omega)]
  cases is64 <;> rfl

/-- **The word of a move from a general purpose register to a floating-point register.** -/
theorem decode_fmovRegister (is64 : Bool) (rd rn : BitVec 5) :
    decode (setN (setD (FMOV_D_N is64) rd) rn) = some (.fmovRegister is64 rd rn) := by
  have htemplate : ∀ lo n, 10 ≤ lo → (setN (setD (FMOV_D_N is64) rd) rn).extractLsb' lo n =
      (FMOV_D_N is64).extractLsb' lo n := by
    intro lo n hlo
    rw [setN_eq, setD_eq, extract_orBits_of_disjoint (by omega),
      extract_orBits_of_disjoint (by omega)]
  have hreg : (setN (setD (FMOV_D_N is64) rd) rn).extractLsb' 0 5 = rd := by
    rw [setN_eq, setD_eq, extract_orBits_of_disjoint (by omega),
      extract_orBits (by omega) (by cases is64 <;> decide),
      BitVec.setWidth_setWidth_of_le _ (by omega), BitVec.setWidth_eq]
  have hsource : (setN (setD (FMOV_D_N is64) rd) rn).extractLsb' 5 5 = rn := by
    rw [setN_eq, setD_eq, extract_orBits (by omega), BitVec.setWidth_setWidth_of_le _ (by omega),
      BitVec.setWidth_eq]
    rw [extract_orBits_of_disjoint (by omega)]
    cases is64 <;> decide
  have hne1 : (FMOV_D_N is64).extractLsb' 23 6 ≠ 0b100101#6 := by cases is64 <;> decide
  have hne2 : (FMOV_D_N is64).extractLsb' 23 8 ≠ 0b01100100#8 := by cases is64 <;> decide
  -- the immediate form has a one where this form has a zero
  have hform : (setN (setD (FMOV_D_N is64) rd) rn).extractLsb' 5 8 ≠ 0b10000000#8 := by
    intro heq
    have hone := congrArg (BitVec.getLsbD · 7) heq
    have hzero := congrArg (BitVec.getLsbD · 2) (htemplate 10 22 (by omega))
    simp only [BitVec.getLsbD_extractLsb'] at hone hzero
    cases is64 <;> simp_all [FMOV_D_N]
  rw [decode]
  simp only [hreg, hsource, htemplate 23 6 (by omega), htemplate 23 8 (by omega),
    htemplate 21 11 (by omega), htemplate 10 22 (by omega), if_neg hne1, if_neg hne2, hform,
    and_false, if_false]
  cases is64 <;> rfl

end Aarch64Move

end WasmCompiler
