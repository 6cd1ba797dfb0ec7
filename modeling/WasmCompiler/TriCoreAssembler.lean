import WasmCompiler.TriCoreMachine

/-!
# The TriCore Assembler

The functions of the assembler that choose among several instructions: adding an immediate to a
register, loading an immediate, and loads and stores of words. The shorter forms are for the
implicit registers and for small immediates.

## Main results

* `execAll_addImmToReg`: the immediate is added, for any immediate.
* `execAll_MOVimm32`, `execAll_MOVimm64`: the immediate is loaded, for any immediate.
* `execAll_loadWordDRegDerefARegDisp16sx`, `execAll_storeWordDerefARegDisp16sxDReg`,
  `execAll_emitLoadDerefOff16sx`, `execAll_emitStoreDerefOff16sx`: words.
-/

namespace WasmCompiler

namespace TriCore

open ByteMemory

/-! ### Immediates -/

/-- `SignedInRangeCheck`. -/
def signedInRange (bits : ℕ) (value : ℤ) : Bool :=
  decide (-2 ^ (bits - 1) ≤ value ∧ value < 2 ^ (bits - 1))

/-- `UnsignedInRangeCheck`. -/
def unsignedInRange (bits : ℕ) (value : BitVec 32) : Bool := decide (value.toNat < 2 ^ bits)

/-- An immediate in range is kept by its field. -/
theorem signExtend_setWidth_of_signedInRange {width bits : ℕ} (hbits : 0 < bits)
    (hle : bits ≤ width) {value : BitVec width} (h : signedInRange bits value.toInt = true) :
    (value.setWidth bits).signExtend width = value := by
  have hrange : -2 ^ (bits - 1) ≤ value.toInt ∧ value.toInt < 2 ^ (bits - 1) := by
    simpa [signedInRange] using h
  have hfield : (value.setWidth bits).toInt = value.toInt := by
    obtain ⟨n, rfl⟩ : ∃ n, bits = n + 1 := ⟨bits - 1, by omega⟩
    have hdvd : 2 ^ (n + 1) ∣ 2 ^ width := Nat.pow_dvd_pow 2 hle
    rw [Nat.add_sub_cancel] at hrange
    rw [BitVec.toInt_setWidth, ← Int.bmod_bmod_of_dvd hdvd, ← BitVec.toInt_eq_toNat_bmod]
    refine Int.bmod_eq_of_le ?_ ?_
    · push_cast [pow_succ]
      omega
    · push_cast [pow_succ]
      omega
  refine BitVec.eq_of_toInt_eq ?_
  rw [BitVec.toInt_signExtend_of_le hle, hfield]

/-- An unsigned immediate in range is kept by its field. -/
theorem setWidth_setWidth_of_unsignedInRange {bits : ℕ} {value : BitVec 32}
    (h : unsignedInRange bits value = true) : (value.setWidth bits).setWidth 32 = value := by
  have hlt : value.toNat < 2 ^ bits := by simpa [unsignedInRange] using h
  refine BitVec.eq_of_toNat_eq ?_
  rw [BitVec.toNat_setWidth, BitVec.toNat_setWidth, Nat.mod_eq_of_lt hlt,
    Nat.mod_eq_of_lt value.isLt]

/-- `lower16sx`. -/
def lower16sx (value : BitVec 32) : BitVec 16 := value.setWidth 16

/-- The upper half of an immediate whose lower half is added as a signed number. -/
def reducedHighPortion (value : BitVec 32) : BitVec 16 := ((value + 0x8000) >>> 16).setWidth 16

/-- The two portions add up to the immediate. -/
theorem lower16sx_add_reducedHighPortion (value : BitVec 32) :
    (lower16sx value).signExtend 32 + shifted (reducedHighPortion value) 16 = value := by
  refine BitVec.eq_of_toNat_eq ?_
  have hvalue := value.isLt
  simp only [lower16sx, shifted, reducedHighPortion, BitVec.toNat_add, BitVec.toNat_signExtend,
    BitVec.toNat_setWidth, BitVec.toNat_shiftLeft, BitVec.toNat_ushiftRight, Nat.shiftLeft_eq,
    Nat.shiftRight_eq_div_pow, BitVec.msb_eq_decide]
  split <;> simp at * <;> omega

/-- The lower portion of an immediate is zero if its lower half is. -/
theorem lower16sx_eq_zero_iff (value : BitVec 32) :
    lower16sx value = 0 ↔ value &&& 0xFFFF = 0 := by
  have hmod : (value &&& 0xFFFF).toNat = value.toNat % 2 ^ 16 :=
    (BitVec.toNat_and value 0xFFFF).trans (Nat.and_two_pow_sub_one_eq_mod value.toNat 16)
  rw [← BitVec.toNat_inj, ← BitVec.toNat_inj, hmod, lower16sx, BitVec.toNat_setWidth]
  rfl

/-! ### What code does -/

/-- Execution wrote one register. -/
structure Machine.Sets (r : REG) (value : BitVec 32) (m m' : Machine) : Prop where
  regs : m'.regs = Function.update m.regs r value
  mem : m'.mem = m.mem

/-- Execution wrote a pair of registers. -/
structure Machine.SetsPair (r : REG) (low high : BitVec 32) (m m' : Machine) : Prop where
  regs : m'.regs = Function.update (Function.update m.regs r low) r.getOtherExtReg high
  mem : m'.mem = m.mem

/-- Execution wrote one word of the memory. -/
structure Machine.Stores (address value : BitVec 32) (m m' : Machine) : Prop where
  regs : m'.regs = m.regs
  mem : m'.mem = storeWord m.mem address value

/-- What writing a register changes. -/
theorem Machine.Sets.changes {r : REG} {value : BitVec 32} {m m' : Machine}
    (h : m.Sets r value m') : m.Changes (· = r) Machine.NoBytes m' :=
  ⟨fun r' hr => by rw [h.regs, Function.update_of_ne hr], fun a _ => by rw [h.mem]⟩

/-! ### Adding an immediate -/

/-- The lower portion of an immediate is added by one instruction and the upper portion by
another, if they are not zero. -/
def addPortions (addLow addHigh : REG → REG → BitVec 16 → Instr) (reg : REG) (imm : BitVec 32)
    (targetReg : REG) : List Instr :=
  if imm &&& 0xFFFF ≠ 0 then
    addLow targetReg reg (lower16sx imm) ::
      (if reducedHighPortion imm ≠ 0 then
        [addHigh targetReg targetReg (reducedHighPortion imm)]
      else [])
  else if reducedHighPortion imm ≠ 0 then [addHigh targetReg reg (reducedHighPortion imm)]
  else []

/-- `addImmToReg`; without a target it is the register itself. -/
def addImmToReg (reg : REG) (imm : BitVec 32) (targetReg : REG) : List Instr :=
  if imm = 0 then
    if targetReg = reg then []
    else if reg.isDATA then [.MOV_Da_Db targetReg reg]
    else [.MOVAA_Aa_Ab targetReg reg]
  else if reg.isDATA then
    if signedInRange 4 imm.toInt ∧ targetReg = reg then
      [.ADD_Da_const4sx reg (imm.setWidth 4)]
    else if signedInRange 4 imm.toInt ∧ reg = .D15 then
      [.ADD_Da_D15_const4sx targetReg (imm.setWidth 4)]
    else if signedInRange 4 imm.toInt ∧ targetReg = .D15 then
      [.ADD_D15_Da_const4sx reg (imm.setWidth 4)]
    else addPortions .ADDI_Dc_Da_const16sx .ADDIH_Dc_Da_const16 reg imm targetReg
  else if signedInRange 4 imm.toInt ∧ reg = targetReg then
    [.ADDA_Aa_const4sx targetReg (imm.setWidth 4)]
  else addPortions .LEA_Aa_deref_Ab_off16sx .ADDIHA_Ac_Aa_const16 reg imm targetReg

/-- Both portions are added. -/
theorem execAll_addPortions {addLow addHigh : REG → REG → BitVec 16 → Instr}
    (hlow : ∀ t r c (m : Machine), m.Sets t (m.regs r + c.signExtend 32) ((addLow t r c).exec m))
    (hhigh : ∀ t r c (m : Machine), m.Sets t (m.regs r + shifted c 16) ((addHigh t r c).exec m))
    (reg : REG) {imm : BitVec 32} (himm : imm ≠ 0) (targetReg : REG) (m : Machine) :
    m.Sets targetReg (m.regs reg + imm)
      (execAll (addPortions addLow addHigh reg imm targetReg) m) := by
  have hsum := lower16sx_add_reducedHighPortion imm
  have hzero := lower16sx_eq_zero_iff imm
  rw [addPortions]
  split
  · have hfirst := hlow targetReg reg (lower16sx imm) m
    split
    · have hsecond := hhigh targetReg targetReg (reducedHighPortion imm)
        ((addLow targetReg reg (lower16sx imm)).exec m)
      refine ⟨hsecond.regs.trans ?_, hsecond.mem.trans hfirst.mem⟩
      rw [hfirst.regs, Function.update_self, Function.update_idem, BitVec.add_assoc, hsum]
    · case _ hnone =>
        rw [not_not.mp hnone] at hsum
        have hshifted : shifted (0 : BitVec 16) 16 = 0#32 := rfl
        rw [hshifted, BitVec.add_zero] at hsum
        rwa [hsum] at hfirst
  · case _ hnone =>
      rw [hzero.mpr (not_not.mp hnone)] at hsum
      have hextended : (0 : BitVec 16).signExtend 32 = 0#32 := rfl
      rw [hextended, BitVec.zero_add] at hsum
      split
      · have hsecond := hhigh targetReg reg (reducedHighPortion imm) m
        rwa [hsum] at hsecond
      · case _ hnone' =>
          rw [not_not.mp hnone'] at hsum
          exact absurd hsum.symm himm

/-- **Adding an immediate** writes the sum to the target. -/
theorem execAll_addImmToReg (reg : REG) (imm : BitVec 32) (targetReg : REG) (m : Machine) :
    m.Sets targetReg (m.regs reg + imm) (execAll (addImmToReg reg imm targetReg) m) := by
  have hconst : signedInRange 4 imm.toInt = true → (imm.setWidth 4).signExtend 32 = imm :=
    signExtend_setWidth_of_signedInRange (by decide) (by decide)
  rw [addImmToReg]
  split
  · case _ hzero =>
      have hsum : m.regs reg + imm = m.regs reg := by
        rw [hzero]
        exact BitVec.add_zero _
      rw [hsum]
      split
      · case _ heq => exact ⟨by rw [heq, Function.update_eq_self, execAll_nil], rfl⟩
      · split
        · exact ⟨rfl, rfl⟩
        · exact ⟨rfl, rfl⟩
  · case _ himm =>
      split
      · split
        · case _ h =>
            obtain ⟨hrange, rfl⟩ := h
            exact ⟨by simp [Instr.exec, hconst hrange], rfl⟩
        · split
          · case _ h =>
              obtain ⟨hrange, rfl⟩ := h
              exact ⟨by simp [Instr.exec, hconst hrange], rfl⟩
          · split
            · case _ h =>
                obtain ⟨hrange, rfl⟩ := h
                exact ⟨by simp [Instr.exec, hconst hrange], rfl⟩
            · exact execAll_addPortions (fun _ _ _ _ => ⟨rfl, rfl⟩) (fun _ _ _ _ => ⟨rfl, rfl⟩)
                reg himm targetReg m
      · split
        · case _ h =>
            obtain ⟨hrange, rfl⟩ := h
            exact ⟨by simp [Instr.exec, hconst hrange], rfl⟩
        · exact execAll_addPortions (fun _ _ _ _ => ⟨rfl, rfl⟩) (fun _ _ _ _ => ⟨rfl, rfl⟩)
            reg himm targetReg m

/-- `subSp`. -/
def subSp (imm : BitVec 32) : List Instr :=
  if imm = 0 then []
  else if unsignedInRange 8 imm then [.SUBA_A10_const8zx (imm.setWidth 8)]
  else addImmToReg .SP (0 - imm) .SP

/-- **Making the stack larger.** -/
theorem execAll_subSp (imm : BitVec 32) (m : Machine) :
    m.Sets .SP (m.regs .SP - imm) (execAll (subSp imm) m) := by
  rw [subSp]
  split
  · case _ hzero =>
      have hsub : m.regs .SP - imm = m.regs .SP := by
        rw [hzero]
        exact BitVec.sub_zero _
      exact ⟨by rw [hsub, Function.update_eq_self, execAll_nil], rfl⟩
  · split
    · case _ hrange =>
        exact ⟨by simp [Instr.exec, setWidth_setWidth_of_unsignedInRange hrange], rfl⟩
    · have hadd := execAll_addImmToReg .SP (0 - imm) .SP m
      have hsub : m.regs .SP + (0 - imm) = m.regs .SP - imm := by grind
      rwa [hsub] at hadd

/-! ### Loading an immediate -/

/-- `Immediate32EncodingKind`. -/
inductive Immediate32EncodingKind where
  | SIGNED4 | UNSIGNED16 | HIGH16 | SIGNED16 | MOV16_ADDIH
  deriving DecidableEq, Repr

/-- `analyzeImmediate32`. -/
def analyzeImmediate32 (rawImmediate : BitVec 32) : Immediate32EncodingKind :=
  if signedInRange 4 rawImmediate.toInt then .SIGNED4
  else if unsignedInRange 16 rawImmediate then .UNSIGNED16
  else if rawImmediate &&& 0xFFFF = 0 then .HIGH16
  else if signedInRange 16 rawImmediate.toInt then .SIGNED16
  else .MOV16_ADDIH

/-- `MOVimm32`. -/
def MOVimm32 (reg : REG) (imm : BitVec 32) : List Instr :=
  if reg.isDATA then
    match analyzeImmediate32 imm with
    | .SIGNED4 => [.MOV_Da_const4sx reg (imm.setWidth 4)]
    | .UNSIGNED16 =>
        if reg = .D15 ∧ unsignedInRange 8 imm then [.MOV_D15_const8zx (imm.setWidth 8)]
        else [.MOVU_Dc_const16zx reg (imm.setWidth 16)]
    | .HIGH16 => [.MOVH_Dc_const16 reg ((imm >>> 16).setWidth 16)]
    | .SIGNED16 => [.MOV_Dc_const16sx reg (lower16sx imm)]
    | .MOV16_ADDIH =>
        .MOV_Dc_const16sx reg (lower16sx imm) ::
          (if reducedHighPortion imm ≠ 0 then
            [.ADDIH_Dc_Da_const16 reg reg (reducedHighPortion imm)]
          else [])
  else if unsignedInRange 4 imm then [.MOVA_Aa_const4zx reg (imm.setWidth 4)]
  else
    .MOVHA_Ac_const16 reg (reducedHighPortion imm) ::
      (if imm &&& 0xFFFF ≠ 0 then
        if 0 < (lower16sx imm).toInt then
          addImmToReg reg ((lower16sx imm).signExtend 32) reg
        else [.LEA_Aa_deref_Ab_off16sx reg reg (lower16sx imm)]
      else [])

/-- The upper half of an immediate whose lower half is zero. -/
theorem shifted_of_low_eq_zero {imm : BitVec 32} (h : imm &&& 0xFFFF = 0) :
    shifted ((imm >>> 16).setWidth 16) 16 = imm := by
  have hmod : imm.toNat % 2 ^ 16 = 0 := by
    rw [← Nat.and_two_pow_sub_one_eq_mod]
    exact (BitVec.toNat_and imm 0xFFFF).symm.trans (congrArg BitVec.toNat h)
  have himm := imm.isLt
  refine BitVec.eq_of_toNat_eq ?_
  rw [shifted, BitVec.toNat_shiftLeft, BitVec.toNat_setWidth, BitVec.toNat_setWidth,
    BitVec.toNat_ushiftRight, Nat.shiftRight_eq_div_pow, Nat.shiftLeft_eq]
  omega

/-- What the kind of an immediate says about it. -/
theorem analyzeImmediate32_spec (imm : BitVec 32) :
    match analyzeImmediate32 imm with
    | .SIGNED4 => signedInRange 4 imm.toInt = true
    | .UNSIGNED16 => unsignedInRange 16 imm = true
    | .HIGH16 => imm &&& 0xFFFF = 0
    | .SIGNED16 => signedInRange 16 imm.toInt = true
    | .MOV16_ADDIH => True := by
  rw [analyzeImmediate32]
  split_ifs with h4 h16 hhigh hsigned
  · exact h4
  · exact h16
  · exact hhigh
  · exact hsigned
  · trivial

/-- The portions of an immediate are loaded one behind the other. -/
theorem sets_portions {reg : REG} {imm : BitVec 32} {m m' m'' : Machine} {a b : BitVec 32}
    (ha : m.Sets reg a m') (hb : m'.Sets reg (a + b) m'') (hsum : a + b = imm) :
    m.Sets reg imm m'' :=
  ⟨by rw [hb.regs, ha.regs, Function.update_idem, hsum], hb.mem.trans ha.mem⟩

/-- **Loading an immediate** into a data register or an address register. -/
theorem execAll_MOVimm32 (reg : REG) (imm : BitVec 32) (m : Machine) :
    m.Sets reg imm (execAll (MOVimm32 reg imm) m) := by
  have hsum := lower16sx_add_reducedHighPortion imm
  rw [MOVimm32]
  split
  · have hspec := analyzeImmediate32_spec imm
    cases hkind : analyzeImmediate32 imm with
    | SIGNED4 =>
        rw [hkind] at hspec
        have hfield := signExtend_setWidth_of_signedInRange (by decide) (by decide) hspec
        exact ⟨by simp [Instr.exec, hfield], rfl⟩
    | UNSIGNED16 =>
        rw [hkind] at hspec
        dsimp only
        split
        · case _ h =>
            obtain ⟨rfl, hrange⟩ := h
            exact ⟨by simp [Instr.exec, setWidth_setWidth_of_unsignedInRange hrange], rfl⟩
        · exact ⟨by simp [Instr.exec, setWidth_setWidth_of_unsignedInRange hspec], rfl⟩
    | HIGH16 =>
        rw [hkind] at hspec
        exact ⟨by simp [Instr.exec, shifted_of_low_eq_zero hspec], rfl⟩
    | SIGNED16 =>
        rw [hkind] at hspec
        have hfield := signExtend_setWidth_of_signedInRange (by decide) (by decide) hspec
        exact ⟨by simp [Instr.exec, lower16sx, hfield], rfl⟩
    | MOV16_ADDIH =>
        have hlow : m.Sets reg ((lower16sx imm).signExtend 32)
            (Instr.exec (.MOV_Dc_const16sx reg (lower16sx imm)) m) := ⟨rfl, rfl⟩
        dsimp only
        split
        · refine sets_portions hlow ⟨?_, rfl⟩ hsum
          simp [Instr.exec]
        · case _ hnone =>
            rw [not_not.mp hnone, show shifted (0 : BitVec 16) 16 = 0#32 from rfl,
              BitVec.add_zero] at hsum
            rwa [hsum] at hlow
  · split
    · case _ hrange =>
        exact ⟨by simp [Instr.exec, setWidth_setWidth_of_unsignedInRange hrange], rfl⟩
    · have hhigh : m.Sets reg (shifted (reducedHighPortion imm) 16)
          (Instr.exec (.MOVHA_Ac_const16 reg (reducedHighPortion imm)) m) := ⟨rfl, rfl⟩
      rw [BitVec.add_comm] at hsum
      split
      · split
        · refine sets_portions hhigh ?_ hsum
          have hadd := execAll_addImmToReg reg ((lower16sx imm).signExtend 32) reg
            (Instr.exec (.MOVHA_Ac_const16 reg (reducedHighPortion imm)) m)
          rwa [hhigh.regs, Function.update_self] at hadd
        · refine sets_portions hhigh ⟨?_, rfl⟩ hsum
          simp [Instr.exec]
      · case _ hnone =>
          rw [(lower16sx_eq_zero_iff imm).mpr (not_not.mp hnone),
            show (0 : BitVec 16).signExtend 32 = 0#32 from rfl, BitVec.add_zero] at hsum
          rwa [hsum] at hhigh

/-- The position and the width of the ones of a word, `ContinuousBitSequence::count`, if they
are contiguous. -/
def countContinuousBits (value : BitVec 32) : Option (ℕ × ℕ) :=
  if value = 0 then none
  else if value = 0xFFFFFFFF then some (0, 32)
  else
    let width := (List.range 32).countP value.getLsbD
    let pos := (List.range 32).findIdx value.getLsbD
    if value >>> pos = (1 : BitVec 32) <<< width - 1 then some (pos, width) else none

/-- The operands of `IMASK` for a 64-bit immediate, if it has this form: the value, the position
and the width. -/
def imaskOperands? (rawImmediate : BitVec 64) : Option (BitVec 4 × BitVec 5 × BitVec 5) :=
  let lower32 := rawImmediate.setWidth 32
  let higher32 := rawImmediate.extractLsb' 32 32
  let high := match countContinuousBits higher32 with
    | some (posHigh, widthHigh) =>
        let value := (lower32 >>> posHigh) &&& 0xF
        if widthHigh < 32 ∧ value <<< posHigh = lower32 then
          some (value.setWidth 4, BitVec.ofNat 5 posHigh, BitVec.ofNat 5 widthHigh)
        else none
    | none => none
  high.or <|
    if higher32 = 0 then
      match countContinuousBits lower32 with
      | some (posLow, widthLow) =>
          if widthLow ≤ 4 then some ((lower32 >>> posLow).setWidth 4, BitVec.ofNat 5 posLow, 0)
          else none
      | none => none
    else none

/-- `MOVimm64`, with the choice of `analyzeImmediate64`. -/
def MOVimm64 (reg : REG) (imm : BitVec 64) : List Instr :=
  if signedInRange 4 imm.toInt then [.MOV_Ea_const4sx reg (imm.setWidth 4)]
  else if signedInRange 16 imm.toInt then [.MOV_Ec_const16sx reg (imm.setWidth 16)]
  else
    match imaskOperands? imm with
    | some (value, position, width) => [.IMASK_Pos_Width_const4zx reg value position width]
    | none =>
        MOVimm32 reg (imm.setWidth 32) ++ MOVimm32 reg.getOtherExtReg (imm.extractLsb' 32 32)

/-- Shifting out bits that are zero and back. -/
theorem ushiftRight_shiftLeft_of_low {value : BitVec 32} {pos : ℕ}
    (h : ∀ i < pos, value.getLsbD i = false) : value >>> pos <<< pos = value := by
  refine BitVec.eq_of_getLsbD_eq fun i hi => ?_
  rw [BitVec.getLsbD_shiftLeft, BitVec.getLsbD_ushiftRight]
  by_cases hlt : i < pos
  · simp [hlt, h i hlt]
  · have hadd : pos + (i - pos) = i := by omega
    simp [hlt, hi, hadd]

/-- A word whose ones are contiguous is its mask, and so many ones are shifted to their
position. -/
theorem countContinuousBits_spec {value : BitVec 32} {pos width : ℕ}
    (h : countContinuousBits value = some (pos, width)) :
    pos < 32 ∧ (value >>> pos) <<< pos = value ∧ (width < 32 → value >>> pos = (1 : BitVec 32) <<< width - 1) ∧
      width ≤ 32 := by
  rw [countContinuousBits] at h
  split at h
  · cases h
  · case _ hzero =>
      split at h
      · obtain ⟨rfl, rfl⟩ := Prod.mk.inj (Option.some.inj h)
        exact ⟨by decide, by simp, fun hlt => absurd hlt (by decide), le_rfl⟩
      · dsimp only at h
        split at h
        · case _ hmask =>
            obtain ⟨rfl, rfl⟩ := Prod.mk.inj (Option.some.inj h)
            have hpos : (List.range 32).findIdx value.getLsbD < 32 := by
              have hlt := @List.findIdx_lt_length _ value.getLsbD (List.range 32)
              rw [List.length_range] at hlt
              refine hlt.mpr ?_
              by_contra hnone
              refine hzero (BitVec.eq_of_getLsbD_eq fun i hi => ?_)
              have hbit : value.getLsbD i ≠ true := fun hbit => hnone ⟨i, List.mem_range.mpr hi, hbit⟩
              simpa using hbit
            refine ⟨hpos, ushiftRight_shiftLeft_of_low fun i hi => ?_, fun _ => hmask, ?_⟩
            · have hnot := List.not_of_lt_findIdx hi
              simpa using hnot
            · exact (List.countP_le_length).trans (List.length_range).le
        · cases h

/-- So many ones. -/
theorem one_shiftLeft_sub_one {width : ℕ} (h : width < 32) :
    (1 : BitVec 32) <<< width - 1 = BitVec.ofNat 32 (2 ^ width - 1) := by
  have hpow : 2 ^ width < 2 ^ 32 := Nat.pow_lt_pow_right (by decide) h
  have hpos : 0 < 2 ^ width := Nat.two_pow_pos width
  refine BitVec.eq_of_toNat_eq ?_
  rw [BitVec.toNat_sub, BitVec.toNat_shiftLeft, BitVec.toNat_ofNat, Nat.shiftLeft_eq]
  change (2 ^ 32 - 1 + 1 * 2 ^ width % 2 ^ 32) % 2 ^ 32 = (2 ^ width - 1) % 2 ^ 32
  rw [Nat.one_mul, Nat.mod_eq_of_lt hpow]
  omega

/-- **The mask of an immediate**: the value at the position is the lower word, the ones at the
position are the upper word. -/
theorem imaskOperands?_spec {imm : BitVec 64} {value : BitVec 4} {position width : BitVec 5}
    (h : imaskOperands? imm = some (value, position, width)) :
    shifted value position.toNat = imm.setWidth 32 ∧
      BitVec.ofNat 32 (2 ^ width.toNat - 1) <<< position.toNat = imm.extractLsb' 32 32 := by
  have hfive : ∀ n < 32, (BitVec.ofNat 5 n).toNat = n := fun n hn =>
    (BitVec.toNat_ofNat n 5).trans (Nat.mod_eq_of_lt hn)
  simp only [imaskOperands?, Option.or_eq_some_iff] at h
  rcases h with h | ⟨-, h⟩
  · split at h
    · case _ posHigh widthHigh hcount =>
        split at h
        · case _ hvalid =>
            obtain ⟨hpos, hshift, hmask, -⟩ := countContinuousBits_spec hcount
            simp only [Option.some.injEq, Prod.mk.injEq] at h
            obtain ⟨rfl, rfl, rfl⟩ := h
            rw [hfive _ hpos, hfive _ hvalid.1, ← one_shiftLeft_sub_one hvalid.1,
              ← hmask hvalid.1]
            refine ⟨?_, hshift⟩
            refine Eq.trans ?_ hvalid.2
            rw [shifted]
            congr 1
            refine setWidth_setWidth_of_unsignedInRange (decide_eq_true ?_)
            exact lt_of_le_of_lt Nat.and_le_right (by decide)
        · cases h
    · cases h
  · split at h
    · case _ hzero =>
        split at h
        · case _ posLow widthLow hcount =>
            split at h
            · case _ hwidth =>
                obtain ⟨hpos, hshift, hmask, -⟩ := countContinuousBits_spec hcount
                simp only [Option.some.injEq, Prod.mk.injEq] at h
                obtain ⟨rfl, rfl, rfl⟩ := h
                rw [hfive _ hpos]
                refine ⟨?_, ?_⟩
                · rw [shifted, setWidth_setWidth_of_unsignedInRange (decide_eq_true ?_), hshift]
                  rw [hmask (by omega), one_shiftLeft_sub_one (by omega), BitVec.toNat_ofNat]
                  have hpow : 2 ^ widthLow ≤ 2 ^ 4 := Nat.pow_le_pow_right (by decide) hwidth
                  have hpos' : 0 < 2 ^ widthLow := Nat.two_pow_pos _
                  omega
                · rw [hzero]
                  exact BitVec.zero_shiftLeft _
            · cases h
        · cases h
    · cases h

/-- **Loading a 64-bit immediate** into a pair of registers. -/
theorem execAll_MOVimm64 (reg : REG) (imm : BitVec 64) (m : Machine) :
    m.SetsPair reg (imm.setWidth 32) (imm.extractLsb' 32 32) (execAll (MOVimm64 reg imm) m) := by
  rw [MOVimm64]
  split
  · case _ hrange =>
      have hfield := signExtend_setWidth_of_signedInRange (by decide) (by decide) hrange
      exact ⟨by simp [Instr.exec, hfield, Machine.setPair], rfl⟩
  · split
    · case _ hrange =>
        have hfield := signExtend_setWidth_of_signedInRange (by decide) (by decide) hrange
        exact ⟨by simp [Instr.exec, hfield, Machine.setPair], rfl⟩
    · split
      · case _ value position width hoperands =>
          obtain ⟨hlow, hhigh⟩ := imaskOperands?_spec hoperands
          exact ⟨by simp [Instr.exec, hlow, hhigh, Machine.setPair], rfl⟩
      · rw [execAll_append]
        have hlow := execAll_MOVimm32 reg (imm.setWidth 32) m
        have hhigh := execAll_MOVimm32 reg.getOtherExtReg (imm.extractLsb' 32 32)
          (execAll (MOVimm32 reg (imm.setWidth 32)) m)
        exact ⟨by rw [hhigh.regs, hlow.regs], hhigh.mem.trans hlow.mem⟩

/-! ### Words -/

/-- The condition of the short forms for multiples of four. -/
def dispMod4Equal0 (disp : BitVec 16) : Bool := decide (0 ≤ disp.toInt ∧ disp.toInt % 4 = 0)

/-- `loadWordDRegDerefARegDisp16sx`. In the last but one form the register field is set from the
address register, which has the number of `D15`. -/
def loadWordDRegDerefARegDisp16sx (dataReg addrReg : REG) (disp : BitVec 16) : List Instr :=
  let value := disp.signExtend 32
  if disp = 0 then [.LDW_Dc_deref_Ab dataReg addrReg]
  else if dataReg = .D15 ∧ addrReg = .SP ∧ unsignedInRange 10 value ∧ dispMod4Equal0 disp then
    [.LDW_D15_deref_A10_const8zxls2 ((value >>> 2).setWidth 8)]
  else if dataReg = .D15 ∧ unsignedInRange 6 value ∧ dispMod4Equal0 disp then
    [.LDW_D15_deref_Ab_off4srozxls2 addrReg ((value >>> 2).setWidth 4)]
  else if addrReg = .A 15 ∧ unsignedInRange 6 value ∧ dispMod4Equal0 disp then
    [.LDW_Dc_deref_A15_off4zxls2 .D15 ((value >>> 2).setWidth 4)]
  else [.LDW_Da_deref_Ab_off16sx dataReg addrReg disp]

/-- `storeWordDerefARegDisp16sxDReg`. -/
def storeWordDerefARegDisp16sxDReg (dataReg addrReg : REG) (disp : BitVec 16) : List Instr :=
  let value := disp.signExtend 32
  if disp = 0 then [.STW_deref_Ab_Da addrReg dataReg]
  else if dataReg = .D15 ∧ addrReg = .SP ∧ unsignedInRange 10 value ∧ dispMod4Equal0 disp then
    [.STW_deref_A10_const8zxls2_D15 ((value >>> 2).setWidth 8)]
  else if dataReg = .D15 ∧ unsignedInRange 6 value ∧ dispMod4Equal0 disp then
    [.STW_deref_Ab_off4srozxls2_D15 addrReg ((value >>> 2).setWidth 4)]
  else if addrReg = .A 15 ∧ unsignedInRange 6 value ∧ dispMod4Equal0 disp then
    [.STW_deref_A15_off4zxls2_Da ((value >>> 2).setWidth 4) dataReg]
  else [.STW_deref_Ab_off16sx_Da addrReg disp dataReg]

/-- `emitLoadDerefOff16sx`. -/
def emitLoadDerefOff16sx (desDataReg addrBaseReg : REG) (offset16 : BitVec 16) : List Instr :=
  if offset16 = 0 then [.LDA_Ac_deref_Ab desDataReg addrBaseReg]
  else [.LDA_Aa_deref_Ab_off16sx desDataReg addrBaseReg offset16]

/-- `emitStoreDerefOff16sx`. -/
def emitStoreDerefOff16sx (addrBaseReg srcDataReg : REG) (offset16 : BitVec 16) : List Instr :=
  if offset16 = 0 then [.STA_deref_Ab_Aa addrBaseReg srcDataReg]
  else [.STA_deref_Ab_off16sx_Aa addrBaseReg offset16 srcDataReg]

/-- A multiple in range is kept by the field that drops its lowest bits. -/
theorem shifted_of_mod (bits scale : ℕ) {value : BitVec 32}
    (hrange : unsignedInRange (bits + scale) value = true)
    (hmod : value.toNat % 2 ^ scale = 0) :
    shifted ((value >>> scale).setWidth bits) scale = value := by
  have hlt : value.toNat < 2 ^ (bits + scale) := by simpa [unsignedInRange] using hrange
  have hvalue := value.isLt
  have hquotient : value.toNat / 2 ^ scale < 2 ^ bits :=
    Nat.div_lt_of_lt_mul (by rwa [← pow_add, Nat.add_comm])
  have hquotient' : value.toNat / 2 ^ scale < 2 ^ 32 :=
    lt_of_le_of_lt (Nat.div_le_self _ _) hvalue
  refine BitVec.eq_of_toNat_eq ?_
  rw [shifted, BitVec.toNat_shiftLeft, BitVec.toNat_setWidth, BitVec.toNat_setWidth,
    BitVec.toNat_ushiftRight, Nat.shiftRight_eq_div_pow, Nat.shiftLeft_eq,
    Nat.mod_eq_of_lt hquotient, Nat.mod_eq_of_lt hquotient',
    Nat.div_mul_cancel (Nat.dvd_of_mod_eq_zero hmod), Nat.mod_eq_of_lt hvalue]

/-- A multiple of four in range is kept by the field that drops two bits. -/
theorem shifted_of_mod_four (bits : ℕ) {value : BitVec 32}
    (hrange : unsignedInRange (bits + 2) value = true) (hmod : value.toNat % 4 = 0) :
    shifted ((value >>> 2).setWidth bits) 2 = value :=
  shifted_of_mod bits 2 hrange hmod

/-- A multiple of four, as a signed number that is not negative. -/
theorem mod_four_of_dispMod4Equal0 {disp : BitVec 16} (h : dispMod4Equal0 disp = true) :
    (disp.signExtend 32).toNat % 4 = 0 := by
  have hdisp : 0 ≤ disp.toInt ∧ disp.toInt % 4 = 0 := by simpa [dispMod4Equal0] using h
  have hint : (disp.signExtend 32).toInt = disp.toInt := BitVec.toInt_signExtend_of_le (by decide)
  have hnat := BitVec.toInt_eq_toNat_cond (disp.signExtend 32)
  split at hnat <;> omega

/-- A displacement of zero. -/
theorem add_signExtend_zero {n : ℕ} (a : BitVec 32) {disp : BitVec n} (h : disp = 0) :
    a + disp.signExtend 32 = a := by
  have hzero : (0 : BitVec n).signExtend 32 = 0#32 := by
    refine BitVec.eq_of_toInt_eq ?_
    simp [BitVec.toInt_signExtend]
  rw [h, hzero, BitVec.add_zero]

/-- **Loading a word** into a data register. -/
theorem execAll_loadWordDRegDerefARegDisp16sx {dataReg addrReg : REG} (haddr : addrReg ≠ .A 15)
    (disp : BitVec 16) (m : Machine) :
    m.Sets dataReg (m.load (m.regs addrReg + disp.signExtend 32))
      (execAll (loadWordDRegDerefARegDisp16sx dataReg addrReg disp) m) := by
  rw [loadWordDRegDerefARegDisp16sx]
  split
  · case _ hzero => exact ⟨by rw [add_signExtend_zero _ hzero]; rfl, rfl⟩
  · split
    · case _ h =>
        obtain ⟨rfl, rfl, hrange, hmod⟩ := h
        have hshifted := shifted_of_mod_four 8 hrange (mod_four_of_dispMod4Equal0 hmod)
        exact ⟨by simp [Instr.exec, hshifted], rfl⟩
    · split
      · case _ h =>
          obtain ⟨rfl, hrange, hmod⟩ := h
          have hshifted := shifted_of_mod_four 4 hrange
            (mod_four_of_dispMod4Equal0 hmod)
          exact ⟨by simp [Instr.exec, hshifted], rfl⟩
      · split
        · case _ h => exact absurd h.1 haddr
        · exact ⟨rfl, rfl⟩

/-- **Storing a word** from a data register. -/
theorem execAll_storeWordDerefARegDisp16sxDReg (dataReg addrReg : REG) (disp : BitVec 16)
    (m : Machine) :
    m.Stores (m.regs addrReg + disp.signExtend 32) (m.regs dataReg)
      (execAll (storeWordDerefARegDisp16sxDReg dataReg addrReg disp) m) := by
  rw [storeWordDerefARegDisp16sxDReg]
  split
  · case _ hzero => exact ⟨rfl, by rw [add_signExtend_zero _ hzero]; rfl⟩
  · split
    · case _ h =>
        obtain ⟨rfl, rfl, hrange, hmod⟩ := h
        have hshifted := shifted_of_mod_four 8 hrange (mod_four_of_dispMod4Equal0 hmod)
        exact ⟨rfl, by simp [Instr.exec, hshifted]⟩
    · split
      · case _ h =>
          obtain ⟨rfl, hrange, hmod⟩ := h
          have hshifted := shifted_of_mod_four 4 hrange
            (mod_four_of_dispMod4Equal0 hmod)
          exact ⟨rfl, by simp [Instr.exec, hshifted]⟩
      · split
        · case _ h =>
            obtain ⟨rfl, hrange, hmod⟩ := h
            have hshifted := shifted_of_mod_four 4 hrange
              (mod_four_of_dispMod4Equal0 hmod)
            exact ⟨rfl, by simp [Instr.exec, hshifted]⟩
        · exact ⟨rfl, rfl⟩

/-- **Loading a word** into an address register. -/
theorem execAll_emitLoadDerefOff16sx (desDataReg addrBaseReg : REG) (offset16 : BitVec 16)
    (m : Machine) :
    m.Sets desDataReg (m.load (m.regs addrBaseReg + offset16.signExtend 32))
      (execAll (emitLoadDerefOff16sx desDataReg addrBaseReg offset16) m) := by
  rw [emitLoadDerefOff16sx]
  split
  · case _ hzero => exact ⟨by rw [add_signExtend_zero _ hzero]; rfl, rfl⟩
  · exact ⟨rfl, rfl⟩

/-- **Storing a word** from an address register. -/
theorem execAll_emitStoreDerefOff16sx (addrBaseReg srcDataReg : REG) (offset16 : BitVec 16)
    (m : Machine) :
    m.Stores (m.regs addrBaseReg + offset16.signExtend 32) (m.regs srcDataReg)
      (execAll (emitStoreDerefOff16sx addrBaseReg srcDataReg offset16) m) := by
  rw [emitStoreDerefOff16sx]
  split
  · case _ hzero => exact ⟨rfl, by rw [add_signExtend_zero _ hzero]; rfl⟩
  · exact ⟨rfl, rfl⟩

end TriCore

end WasmCompiler
