import WasmCompiler.RelPatchObj

/-!
# Relative Patch Objects of the TriCore Backend

Jumps of 24 and of 15 bits are linked by clearing their fields. The displacements of the
instructions of 16 bits and of LEA are put over the fields by an or. Distances are narrowed to
32 bits before they are checked, which is no loss: addresses have 32 bits.

## Main results

* `TriCore.jump_relinkable`: jumps obey the law of a link whatever they targeted before.
* `TriCore.short_law`, `TriCore.lea_law`: the others obey it where the field is still zero.
-/

namespace WasmCompiler

open BitField PatchSite

namespace TriCore

/-! ### Instruction words -/

/-- The jumps of 24 bits. -/
inductive LongJump where
  | J
  | JL
  | FCALL
  | CALL
  deriving DecidableEq, Repr

/-- The lowest byte of a word. -/
def LongJump.opcode : LongJump → BitVec 32
  | J => 0x1D#32
  | JL => 0x5D#32
  | FCALL => 0x61#32
  | CALL => 0x6D#32

/-- The jumps of 15 bits; those that compare two values have a variant in bit 31. -/
inductive ConditionalJump where
  | JNED_const
  | LOOP
  | JEQ_const
  | JEQ
  | JLT_const
  | JLT
  | JGE_const
  | JGE
  | JZA
  | JEQA
  | JZT
  deriving DecidableEq, Repr

/-- The lowest byte of a word. -/
def ConditionalJump.opcode : ConditionalJump → BitVec 32
  | JNED_const => 0x9F#32
  | LOOP => 0xFD#32
  | JEQ_const => 0xDF#32
  | JEQ => 0x5F#32
  | JLT_const => 0xBF#32
  | JLT => 0x3F#32
  | JGE_const => 0xFF#32
  | JGE => 0x7F#32
  | JZA => 0xBD#32
  | JEQA => 0x7D#32
  | JZT => 0x6F#32

/-- The jumps of 16 bits. -/
inductive ShortJump where
  | JLTZ
  | JNZ
  deriving DecidableEq, Repr

/-- The lowest byte of a word. -/
def ShortJump.opcode : ShortJump → BitVec 32
  | JLTZ => 0x0E#32
  | JNZ => 0xF6#32

/-- A jump of 24 bits. -/
def LongJump.form (j : LongJump) : PcRelForm where
  mask := 0xFF#32
  value := j.opcode
  field := fieldBits 32 16 16 ||| fieldBits 32 8 8
  offset op := 2 * (op.extractLsb' 8 8 ++ op.extractLsb' 16 16).toInt
  decoded_outside := by decide

/-- A jump of 15 bits. -/
def ConditionalJump.form (j : ConditionalJump) : PcRelForm where
  mask := 0xFF#32
  value := j.opcode
  field := fieldBits 32 16 15
  offset op := 2 * (op.extractLsb' 16 15).toInt
  decoded_outside := by decide

/-- A jump of 16 bits, which goes forward only. -/
def ShortJump.form (j : ShortJump) : PcRelForm where
  mask := 0xFF#32
  value := j.opcode
  field := fieldBits 32 8 4
  offset op := 2 * ((op.extractLsb' 8 4).toNat : ℤ)
  decoded_outside := by decide

/-- LEA. -/
def leaForm : PcRelForm where
  mask := 0xFF#32
  value := 0xD9#32
  field := (fieldBits 32 16 6 ||| fieldBits 32 28 4) ||| fieldBits 32 22 6
  offset op := (op.extractLsb' 22 6 ++ (op.extractLsb' 28 4 ++ op.extractLsb' 16 6)).toInt
  decoded_outside := by decide

/-! ### The setters -/

/-- `is16BitInstr`. -/
def is16BitInstr (op : BitVec 32) : Bool := (op &&& 0b1#32) == 0b0#32

/-- `Instruction::isDisp15x2BranchOffset`. -/
def isDisp15x2BranchOffset (op : BitVec 32) : Bool :=
  (((op &&& 0xF#32) == 0xF#32) || ((op &&& 0xFF#32) == 0xBD#32)) ||
    (((op &&& 0xFF#32) == 0x7D#32) || ((op &&& 0xFF#32) == 0xFD#32))

/-- `Instruction::setDisp4zx2`, which does not clear the field. -/
def setDisp4zx2 (op disp : BitVec 32) : Except PatchError (BitVec 32) :=
  if ¬ (disp &&& 0x1#32 = 0#32) then throw .assertionFailed
  else if ¬ disp.toNat < 2 ^ 5 then throw .assertionFailed
  else .ok (op ||| (((disp >>> 1) &&& 0xF#32) <<< 8))

/-- `Instruction::setDisp15sx2`. -/
def setDisp15sx2 (op disp : BitVec 32) : Except PatchError (BitVec 32) :=
  if ¬ (disp &&& 0x1#32 = 0#32) then throw .assertionFailed
  else if ¬ BitField.Fits 16 disp.toInt then throw .assertionFailed
  else .ok ((op &&& ~~~(0x7FFF#32 <<< 16)) ||| (((disp >>> 1) &&& 0x7FFF#32) <<< 16))

/-- `Instruction::setDisp24sx2`. -/
def setDisp24sx2 (op disp : BitVec 32) : Except PatchError (BitVec 32) :=
  if ¬ (disp &&& 0x1#32 = 0#32) then throw .assertionFailed
  else if ¬ BitField.Fits 25 disp.toInt then throw .assertionFailed
  else
    let reducedDisp := disp >>> 1
    .ok (((op &&& 0xFF#32) ||| ((reducedDisp &&& 0xFFFF#32) <<< 16)) |||
      (((reducedDisp &&& 0xFF0000#32) >>> 16) <<< 8))

/-- `Instruction::setOff16sx`, which does not clear the field. -/
def setOff16sx (op convOff : BitVec 32) : Except PatchError (BitVec 32) :=
  if ¬ BitField.Fits 16 convOff.toInt then throw .assertionFailed
  else
    .ok (((op ||| ((convOff &&& 0x3F#32) <<< 16)) ||| (((convOff >>> 6) &&& 0xF#32) <<< 28)) |||
      (((convOff >>> 10) &&& 0x3F#32) <<< 22))

/-- `Instruction::readDisp4zx2BranchOffset`. -/
def readDisp4zx2BranchOffset (op : BitVec 32) : BitVec 32 := ((op >>> 8) &&& 0xF#32) <<< 1

/-- `Instruction::readDisp15oDisp24x2BranchOffset`. -/
def readDisp15oDisp24x2BranchOffset (op : BitVec 32) : ℤ :=
  let branchWidth := if isDisp15x2BranchOffset op then 15 else 24
  let offset :=
    if branchWidth = 15 then (op >>> 16) &&& 0x7FFF#32
    else ((op >>> 16) &&& 0xFFFF#32) ||| (((op >>> 8) &&& 0xFF#32) <<< 16)
  let extended :=
    if (offset >>> (branchWidth - 1)) &&& 0x1#32 ≠ 0#32 then
      offset ||| ~~~((1#32 <<< branchWidth) - 1#32)
    else offset
  (extended <<< 1).toInt

/-- `RelPatchObj`; `isBranch` is false for the objects of LEA. -/
structure RelPatchObj where
  position : UInt32
  isBranch : Bool
  deriving DecidableEq, Repr

namespace RelPatchObj

/-- What `RelPatchObj::linkToBinaryPos` does with the instruction. -/
def patch (isBranch : Bool) (delta : ℤ) (op : BitVec 32) : Except PatchError (BitVec 32) :=
  let narrowed := BitVec.ofInt 32 delta
  if is16BitInstr op then
    if ¬ isBranch then throw .assertionFailed
    else if ¬ narrowed.toNat < 2 ^ 5 then throw .assertionFailed
    else setDisp4zx2 op narrowed
  else if isBranch then
    if isDisp15x2BranchOffset op then
      if ¬ BitField.Fits 16 narrowed.toInt then throw .conditionalBranchesOrLea32kB
      else setDisp15sx2 op narrowed
    else
      if ¬ BitField.Fits 25 narrowed.toInt then throw .branches16MB
      else setDisp24sx2 op narrowed
  else
    if ¬ BitField.Fits 16 narrowed.toInt then throw .conditionalBranchesOrLea32kB
    else setOff16sx op narrowed

/-- `RelPatchObj::linkToBinaryPos`. -/
def linkToBinaryPos (obj : RelPatchObj) (binaryPosition : UInt32) :
    EStateM PatchError Output Unit :=
  patchInstructionAtOffset obj.position
    (patch obj.isBranch (linkDelta binaryPosition obj.position))

/-- `RelPatchObj::getLinkedBinaryPos`. -/
def getLinkedBinaryPos (obj : RelPatchObj) (out : Output) : Except PatchError UInt32 :=
  let op := readWord out obj.position.toNat
  let linkedPosition : ℤ :=
    if is16BitInstr op then
      (obj.position.toNat : ℤ) + ((readDisp4zx2BranchOffset op).toNat : ℤ)
    else (obj.position.toNat : ℤ) + readDisp15oDisp24x2BranchOffset op
  if ¬ linkedPosition < 0xFFFFFFFF then throw .assertionFailed
  else .ok (truncatedPosition linkedPosition)

end RelPatchObj

/-! ### What the compiler recognises -/

/-- The instruction has 16 bits if its lowest bit is zero. -/
theorem is16BitInstr_of_matches {form : PcRelForm} {op : BitVec 32} (hmask : form.mask = 0xFF#32)
    (h : form.Matches op) : is16BitInstr op = ((form.value &&& 0b1#32) == 0b0#32) := by
  have hlow : op &&& 0b1#32 = (op &&& 0xFF#32) &&& 0b1#32 := by
    rw [BitVec.and_assoc]
    rfl
  have hvalue : op &&& 0xFF#32 = form.value := by
    rw [← hmask]
    exact h
  rw [is16BitInstr, hlow, hvalue]

/-- The width of the displacement is told by the lowest byte. -/
theorem isDisp15_of_matches {form : PcRelForm} {op : BitVec 32} (hmask : form.mask = 0xFF#32)
    (h : form.Matches op) : isDisp15x2BranchOffset op = isDisp15x2BranchOffset form.value := by
  have hvalue : op &&& 0xFF#32 = form.value := by
    rw [← hmask]
    exact h
  have hlow : op &&& 0xF#32 = (op &&& 0xFF#32) &&& 0xF#32 := by
    rw [BitVec.and_assoc]
    rfl
  have hbyte : op &&& 0xFF#32 = (op &&& 0xFF#32) &&& 0xFF#32 := by
    rw [BitVec.and_assoc, BitVec.and_self]
  rw [hvalue] at hlow hbyte
  rw [isDisp15x2BranchOffset, isDisp15x2BranchOffset, hlow, hvalue, ← hbyte]

/-! ### Jumps of 24 bits -/

/-- The word a link of a jump of 24 bits writes. -/
def longWord (op disp : BitVec 32) : BitVec 32 :=
  insertBits (insertBits op (disp >>> 1) 16 16) (disp >>> 17) 8 8

/-- Clearing all but the lowest byte and setting the two parts of the displacement. -/
theorem setDisp24_eq (op disp : BitVec 32) :
    ((op &&& 0xFF#32) ||| (((disp >>> 1) &&& 0xFFFF#32) <<< 16)) |||
      ((((disp >>> 1) &&& 0xFF0000#32) >>> 16) <<< 8) = longWord op disp := by
  refine BitVec.eq_of_getLsbD_eq fun i hi => ?_
  rw [longWord, getLsbD_insertBits hi, getLsbD_insertBits hi,
    show (0xFF#32 : BitVec 32) = lowBits 32 8 by decide,
    show (0xFFFF#32 : BitVec 32) = lowBits 32 16 by decide,
    show (0xFF0000#32 : BitVec 32) = fieldBits 32 16 8 by decide]
  simp only [BitVec.getLsbD_or, BitVec.getLsbD_and, BitVec.getLsbD_shiftLeft,
    BitVec.getLsbD_ushiftRight, getLsbD_lowBits, getLsbD_fieldBits, hi, decide_true,
    Bool.true_and]
  rcases (by omega : i < 8 ∨ (8 ≤ i ∧ i < 16) ∨ 16 ≤ i) with h | h | h
  · simp [h, show i < 16 by omega, show ¬ 8 ≤ i by omega, show ¬ 16 ≤ i by omega]
  · have h1 : 17 + (i - 8) = 1 + (16 + (i - 8)) := by omega
    simp [h, h1, show ¬ i < 8 by omega, show 16 + (i - 8) < 32 by omega,
      show 16 + (i - 8) < 24 by omega]
  · simp [h, show ¬ i < 8 by omega, show ¬ i < 16 by omega, show i - 16 < 32 by omega,
      show i - 16 < 16 by omega, show i < 32 by omega, show ¬ 16 + (i - 8) < 24 by omega]

/-- Only the displacement has changed. -/
theorem longWord_agree (j : LongJump) (op disp : BitVec 32) :
    AgreeOutside j.form.field op (longWord op disp) := by
  refine AgreeOutside.trans ((insertBits_agree _ _ _ _).mono fun i hi => ?_)
    ((insertBits_agree _ _ _ _).mono fun i hi => ?_)
  · rw [show j.form.field = fieldBits 32 16 16 ||| fieldBits 32 8 8 from rfl,
      BitVec.getLsbD_or, hi, Bool.true_or]
  · rw [show j.form.field = fieldBits 32 16 16 ||| fieldBits 32 8 8 from rfl,
      BitVec.getLsbD_or, hi, Bool.or_true]

/-- The two parts of the displacement, put together. -/
theorem extract_longWord (op disp : BitVec 32) :
    (longWord op disp).extractLsb' 8 8 ++ (longWord op disp).extractLsb' 16 16 =
      disp.extractLsb' 1 24 := by
  have hsplit := extract_append_extract disp 1 16 8
  rw [longWord, extract_insertBits (by omega), extract_insertBits_of_disjoint (by omega),
    extract_insertBits (by omega), setWidth_ushiftRight, setWidth_ushiftRight]
  exact hsplit

/-- An even number that fits, halved by a shift. -/
theorem extract_halved {n : ℕ} {disp : BitVec 32} (hn : 0 < n) (hfits : 1 + n ≤ 32)
    (hdisp : BitField.Fits (n + 1) disp.toInt) (heven : 2 ∣ disp.toInt) :
    2 * (disp.extractLsb' 1 n).toInt = disp.toInt := by
  obtain ⟨k, hk⟩ := heven
  have hword : disp = BitVec.ofInt 32 (2 ^ 1 * k) := by
    rw [pow_one, ← hk, BitVec.ofInt_toInt]
  have hfitsk : BitField.Fits n k := by
    obtain ⟨h1, h2⟩ := hdisp
    obtain ⟨m, rfl⟩ : ∃ m, n = m + 1 := ⟨n - 1, by omega⟩
    rw [hk] at h1 h2
    simp only [Nat.add_sub_cancel, pow_succ] at h1 h2
    constructor
    · simp only [Nat.add_sub_cancel]
      omega
    · simp only [Nat.add_sub_cancel]
      omega
  rw [hk, hword, ← setWidth_ushiftRight, setWidth_ofInt_ushiftRight hfits,
    toInt_ofInt_of_fits hn hfitsk]

/-- What is narrowed is even if the distance is. -/
theorem two_dvd_toInt_ofInt {delta : ℤ} (h : 2 ∣ delta) : 2 ∣ (BitVec.ofInt 32 delta).toInt := by
  rw [BitVec.toInt_ofInt]
  have hmod := Int.bmod_emod (x := delta) (m := 2 ^ 32)
  omega

/-- Narrowing loses nothing of an address. -/
theorem toInt_ofInt_emod (delta : ℤ) :
    (BitVec.ofInt 32 delta).toInt % 2 ^ 32 = delta % 2 ^ 32 := by
  rw [BitVec.toInt_ofInt]
  exact Int.bmod_emod

/-- What a link does with a jump of 24 bits. -/
theorem patch_long {j : LongJump} {op : BitVec 32} (h : j.form.Matches op) (delta : ℤ) :
    RelPatchObj.patch true delta op =
      if ¬ BitField.Fits 25 (BitVec.ofInt 32 delta).toInt then .error .branches16MB
      else if ¬ (2 ∣ delta) then .error .assertionFailed
      else .ok (longWord op (BitVec.ofInt 32 delta)) := by
  have h16 : is16BitInstr op = false := by
    rw [is16BitInstr_of_matches rfl h]
    cases j <;> rfl
  have h15 : isDisp15x2BranchOffset op = false := by
    rw [isDisp15_of_matches rfl h]
    cases j <;> rfl
  simp only [RelPatchObj.patch, h16, h15, Bool.false_eq_true, if_false, if_true]
  have hiff := ofInt_and_one_eq_zero_iff (by omega : 0 < 32) delta
  by_cases hfits : BitField.Fits 25 (BitVec.ofInt 32 delta).toInt
  · rw [if_neg (not_not_intro hfits), if_neg (not_not_intro hfits), setDisp24sx2]
    by_cases heven : 2 ∣ delta
    · rw [if_neg (not_not_intro (hiff.mpr heven)), if_neg (not_not_intro hfits),
        if_neg (not_not_intro heven)]
      exact congrArg _ (setDisp24_eq _ _)
    · rw [if_pos (mt hiff.mp heven), if_pos heven]
      rfl
  · rw [if_pos hfits, if_pos hfits]
    rfl

/-- The displacement after a link. -/
theorem offset_longWord {j : LongJump} {delta : ℤ}
    (hfits : BitField.Fits 25 (BitVec.ofInt 32 delta).toInt) (heven : 2 ∣ delta) (op : BitVec 32) :
    j.form.offset (longWord op (BitVec.ofInt 32 delta)) = (BitVec.ofInt 32 delta).toInt := by
  show 2 * (BitVec.extractLsb' 8 8 _ ++ BitVec.extractLsb' 16 16 _).toInt = _
  rw [extract_longWord]
  exact extract_halved (by omega) (by omega) hfits (two_dvd_toInt_ofInt heven)

/-- The compiler reads the displacement of a jump of 24 bits as the processor does. -/
theorem readDisp_long {j : LongJump} {op : BitVec 32} (h : j.form.Matches op) :
    readDisp15oDisp24x2BranchOffset op = j.form.offset op := by
  have h15 : isDisp15x2BranchOffset op = false := by
    rw [isDisp15_of_matches rfl h]
    cases j <;> rfl
  let read := ((op >>> 16) &&& 0xFFFF#32) ||| (((op >>> 8) &&& 0xFF#32) <<< 16)
  have hbits : ∀ i, i < 32 → read.getLsbD i =
      if i < 16 then op.getLsbD (16 + i)
      else decide (i < 24) && op.getLsbD (8 + (i - 16)) := by
    intro i hi
    rw [show read = ((op >>> 16) &&& lowBits 32 16) ||| (((op >>> 8) &&& lowBits 32 8) <<< 16)
      from rfl]
    simp only [BitVec.getLsbD_or, BitVec.getLsbD_and, BitVec.getLsbD_ushiftRight,
      BitVec.getLsbD_shiftLeft, getLsbD_lowBits, hi, decide_true, Bool.true_and]
    by_cases h16 : i < 16
    · simp [h16]
    · have h24 : i - 16 < 8 ↔ i < 24 := by omega
      simp [h16, h24, show i - 16 < 32 by omega, Bool.and_comm]
  have hlow : read &&& lowBits 32 24 = read := by
    refine BitVec.eq_of_getLsbD_eq fun i hi => ?_
    rw [BitVec.getLsbD_and, getLsbD_lowBits, hbits i hi]
    by_cases h24 : i < 24
    · simp [h24, hi]
    · simp [h24, show ¬ i < 16 by omega]
  have hextract : read.setWidth 24 = op.extractLsb' 8 8 ++ op.extractLsb' 16 16 := by
    refine BitVec.eq_of_getLsbD_eq fun i hi => ?_
    rw [BitVec.getLsbD_setWidth, BitVec.getLsbD_append, BitVec.getLsbD_extractLsb',
      BitVec.getLsbD_extractLsb', hbits i (by omega)]
    by_cases h16 : i < 16
    · simp [h16, hi]
    · simp [h16, hi, show i - 16 < 8 by omega]
  have hread := toInt_readSigned (n := 24) (s := 1) (by omega) (by omega) read
  rw [hlow, hextract, show lowBits 32 24 = (1#32 <<< 24) - 1#32 by decide] at hread
  simp only [readDisp15oDisp24x2BranchOffset, h15]
  exact hread

/-! ### Jumps of 15 bits -/

/-- The word a link of a jump of 15 bits writes. -/
def conditionalWord (op disp : BitVec 32) : BitVec 32 := insertBits op (disp >>> 1) 16 15

/-- What a link does with a jump of 15 bits. -/
theorem patch_conditional {j : ConditionalJump} {op : BitVec 32} (h : j.form.Matches op)
    (delta : ℤ) :
    RelPatchObj.patch true delta op =
      if ¬ BitField.Fits 16 (BitVec.ofInt 32 delta).toInt then .error .conditionalBranchesOrLea32kB
      else if ¬ (2 ∣ delta) then .error .assertionFailed
      else .ok (conditionalWord op (BitVec.ofInt 32 delta)) := by
  have h16 : is16BitInstr op = false := by
    rw [is16BitInstr_of_matches rfl h]
    cases j <;> rfl
  have h15 : isDisp15x2BranchOffset op = true := by
    rw [isDisp15_of_matches rfl h]
    cases j <;> rfl
  simp only [RelPatchObj.patch, h16, h15, Bool.false_eq_true, if_false, if_true]
  have hiff := ofInt_and_one_eq_zero_iff (by omega : 0 < 32) delta
  by_cases hfits : BitField.Fits 16 (BitVec.ofInt 32 delta).toInt
  · rw [if_neg (not_not_intro hfits), if_neg (not_not_intro hfits), setDisp15sx2]
    by_cases heven : 2 ∣ delta
    · rw [if_neg (not_not_intro (hiff.mpr heven)), if_neg (not_not_intro hfits),
        if_neg (not_not_intro heven), conditionalWord, insertBits, fieldBits,
        show lowBits 32 15 = 0x7FFF#32 by decide]
    · rw [if_pos (mt hiff.mp heven), if_pos heven]
      rfl
  · rw [if_pos hfits, if_pos hfits]
    rfl

/-- The displacement after a link. -/
theorem offset_conditionalWord {j : ConditionalJump} {delta : ℤ}
    (hfits : BitField.Fits 16 (BitVec.ofInt 32 delta).toInt) (heven : 2 ∣ delta) (op : BitVec 32) :
    j.form.offset (conditionalWord op (BitVec.ofInt 32 delta)) =
      (BitVec.ofInt 32 delta).toInt := by
  show 2 * (BitVec.extractLsb' 16 15 _).toInt = _
  rw [conditionalWord, extract_insertBits (by omega), setWidth_ushiftRight]
  exact extract_halved (by omega) (by omega) hfits (two_dvd_toInt_ofInt heven)

/-- The compiler reads the displacement of a jump of 15 bits as the processor does. -/
theorem readDisp_conditional {j : ConditionalJump} {op : BitVec 32} (h : j.form.Matches op) :
    readDisp15oDisp24x2BranchOffset op = j.form.offset op := by
  have h15 : isDisp15x2BranchOffset op = true := by
    rw [isDisp15_of_matches rfl h]
    cases j <;> rfl
  have hmask : ((op >>> 16) &&& lowBits 32 15) &&& lowBits 32 15 = (op >>> 16) &&& lowBits 32 15 := by
    rw [BitVec.and_assoc, BitVec.and_self]
  have hextract : ((op >>> 16) &&& lowBits 32 15).setWidth 15 = op.extractLsb' 16 15 := by
    refine BitVec.eq_of_getLsbD_eq fun i hi => ?_
    rw [BitVec.getLsbD_setWidth, BitVec.getLsbD_and, getLsbD_lowBits,
      BitVec.getLsbD_ushiftRight, BitVec.getLsbD_extractLsb']
    simp [hi, show i < 32 by omega]
  have hread := toInt_readSigned (n := 15) (s := 1) (by omega) (by omega)
    ((op >>> 16) &&& lowBits 32 15)
  rw [hmask, hextract, show ~~~(lowBits 32 15) = ~~~((1#32 <<< 15) - 1#32) by decide,
    show lowBits 32 15 = 0x7FFF#32 by decide] at hread
  simp only [readDisp15oDisp24x2BranchOffset, h15]
  exact hread

/-! ### Sites of jumps -/

/-- The jumps that can be linked again. -/
inductive Jump where
  | long (j : LongJump)
  | conditional (j : ConditionalJump)
  deriving DecidableEq, Repr

namespace Jump

/-- The words of the form. -/
def form : Jump → PcRelForm
  | long j => j.form
  | conditional j => j.form

/-- The bits of the displacement. -/
def rangeBits : Jump → ℕ
  | long _ => 25
  | conditional _ => 16

/-- The exception for targets that are too far away. -/
def rangeError : Jump → PatchError
  | long _ => .branches16MB
  | conditional _ => .conditionalBranchesOrLea32kB

/-- The word a link writes. -/
def linkedWord : Jump → BitVec 32 → BitVec 32 → BitVec 32
  | long _ => longWord
  | conditional _ => conditionalWord

/-- What a link does. -/
theorem patch_eq {j : Jump} {op : BitVec 32} (h : j.form.Matches op) (delta : ℤ) :
    RelPatchObj.patch true delta op =
      if ¬ BitField.Fits j.rangeBits (BitVec.ofInt 32 delta).toInt then .error j.rangeError
      else if ¬ (2 ∣ delta) then .error .assertionFailed
      else .ok (j.linkedWord op (BitVec.ofInt 32 delta)) := by
  cases j with
  | long j => exact patch_long h delta
  | conditional j => exact patch_conditional h delta

/-- Only the displacement has changed. -/
theorem linkedWord_agree (j : Jump) (op disp : BitVec 32) :
    AgreeOutside j.form.field op (j.linkedWord op disp) := by
  cases j with
  | long j => exact longWord_agree j op disp
  | conditional j => exact insertBits_agree _ _ _ _

/-- The displacement after a link. -/
theorem offset_linkedWord {j : Jump} {delta : ℤ}
    (hfits : BitField.Fits j.rangeBits (BitVec.ofInt 32 delta).toInt) (heven : 2 ∣ delta)
    (op : BitVec 32) :
    j.form.offset (j.linkedWord op (BitVec.ofInt 32 delta)) = (BitVec.ofInt 32 delta).toInt := by
  cases j with
  | long j => exact offset_longWord hfits heven op
  | conditional j => exact offset_conditionalWord hfits heven op

/-- The compiler reads the displacement as the processor does. -/
theorem readDisp_eq {j : Jump} {op : BitVec 32} (h : j.form.Matches op) :
    is16BitInstr op = false ∧ readDisp15oDisp24x2BranchOffset op = j.form.offset op := by
  cases j with
  | long j =>
      refine ⟨?_, readDisp_long h⟩
      rw [is16BitInstr_of_matches rfl h]
      cases j <;> rfl
  | conditional j =>
      refine ⟨?_, readDisp_conditional h⟩
      rw [is16BitInstr_of_matches rfl h]
      cases j <;> rfl

/-- The site of a jump. -/
def site (j : Jump) (position : UInt32) : PatchSite :=
  wordSite j.form 32 position (fun delta => BitField.Fits j.rangeBits (BitVec.ofInt 32 delta).toInt)
    (2 ∣ ·) j.rangeError (RelPatchObj.patch true)
    (RelPatchObj.getLinkedBinaryPos ⟨position, true⟩)

end Jump

/-- **A jump obeys the law of a link** whatever it targeted before. -/
theorem jump_relinkable (j : Jump) (position : UInt32) :
    (j.site position).Relinkable := by
  refine wordSite_relinkable fun out hout p => ?_
  refine wordSite_law (by omega) hout (Jump.patch_eq hout _) (j.linkedWord_agree _ _) ?_
  intro hfits heven
  rw [Jump.offset_linkedWord hfits heven, toInt_ofInt_emod]

/-- A position survives when the displacement has wrapped. -/
theorem truncatedPosition_sub (a : ℤ) : truncatedPosition (a - 2 ^ 32) = truncatedPosition a := by
  rw [truncatedPosition, truncatedPosition]
  congr 1
  apply BitVec.eq_of_toNat_eq
  rw [BitVec.toNat_ofInt, BitVec.toNat_ofInt]
  congr 1
  omega

/-- A position that is read back: the displacement is the distance, up to a wrap. -/
theorem getLinked_of_narrowed {position p : UInt32} {disp : ℤ}
    (haligned : 2 ∣ position.toNat) (hdelta : 2 ∣ linkDelta p position)
    (hdisp : disp = linkDelta p position ∨ disp = linkDelta p position - 2 ^ 32) :
    ¬ ¬ (position.toNat : ℤ) + disp < 0xFFFFFFFF ∧
      truncatedPosition ((position.toNat : ℤ) + disp) = p := by
  have h32 := p.toNat_lt
  have hposition : (position.toNat : ℤ) + linkDelta p position = p.toNat := by
    rw [linkDelta, add_sub_cancel]
  have hdelta' : (2 : ℤ) ∣ (p.toNat : ℤ) - position.toNat := hdelta
  rcases hdisp with rfl | rfl
  · refine ⟨by omega, ?_⟩
    rw [hposition, truncatedPosition_natCast]
  · refine ⟨by omega, ?_⟩
    rw [← add_sub_assoc, hposition, truncatedPosition_sub, truncatedPosition_natCast]

/-- The position a jump was linked to can be read back, unless it is so far back that the
distance wraps. -/
theorem jump_readsBack {j : Jump} {position p : UInt32} {out : Output}
    (haligned : 2 ∣ position.toNat) (hout : (j.site position).Encodes out)
    (hback : -2 ^ 31 ≤ linkDelta p position) : (j.site position).ReadsBack out p := by
  intro out' hlink
  obtain ⟨hfits, heven, hword⟩ := patchInstructionAtOffset_ok (Jump.patch_eq hout _) hlink
  have hmatches : j.form.Matches (readWord out' position.toNat) := by
    rw [hword]
    exact PcRelForm.Matches.of_agree hout (j.linkedWord_agree _ _)
  obtain ⟨h16, hread⟩ := Jump.readDisp_eq hmatches
  have hdisp : readDisp15oDisp24x2BranchOffset (readWord out' position.toNat) =
      (BitVec.ofInt 32 (linkDelta p position)).toInt := by
    rw [hread, hword, Jump.offset_linkedWord hfits heven]
  have hwrap : (BitVec.ofInt 32 (linkDelta p position)).toInt = linkDelta p position ∨
      (BitVec.ofInt 32 (linkDelta p position)).toInt = linkDelta p position - 2 ^ 32 := by
    have h32 := p.toNat_lt
    have hdelta : linkDelta p position = (p.toNat : ℤ) - position.toNat := rfl
    rw [BitVec.toInt_ofInt, Int.bmod_eq_emod]
    split
    · omega
    · omega
  obtain ⟨hlt, hp⟩ := getLinked_of_narrowed haligned heven hwrap
  show RelPatchObj.getLinkedBinaryPos _ out' = .ok p
  simp only [RelPatchObj.getLinkedBinaryPos, h16, Bool.false_eq_true, if_false, hdisp]
  rw [if_neg hlt, hp]

/-! ### Jumps of 16 bits -/

/-- The site of a jump of 16 bits. -/
def ShortJump.site (j : ShortJump) (position : UInt32) : PatchSite :=
  wordSite j.form 32 position (fun delta => (BitVec.ofInt 32 delta).toNat < 2 ^ 5) (2 ∣ ·)
    .assertionFailed (RelPatchObj.patch true)
    (RelPatchObj.getLinkedBinaryPos ⟨position, true⟩)

/-- The word a link of a jump of 16 bits writes. -/
def shortWord (op disp : BitVec 32) : BitVec 32 := orBits op (disp >>> 1) 8 4

/-- What a link does with a jump of 16 bits. -/
theorem patch_short {j : ShortJump} {op : BitVec 32} (h : j.form.Matches op) (delta : ℤ) :
    RelPatchObj.patch true delta op =
      if ¬ (BitVec.ofInt 32 delta).toNat < 2 ^ 5 then .error .assertionFailed
      else if ¬ (2 ∣ delta) then .error .assertionFailed
      else .ok (shortWord op (BitVec.ofInt 32 delta)) := by
  have h16 : is16BitInstr op = true := by
    rw [is16BitInstr_of_matches rfl h]
    cases j <;> rfl
  simp only [RelPatchObj.patch, h16, if_true, not_true_eq_false, if_false]
  have hiff := ofInt_and_one_eq_zero_iff (by omega : 0 < 32) delta
  by_cases hfits : (BitVec.ofInt 32 delta).toNat < 2 ^ 5
  · rw [if_neg (not_not_intro hfits), if_neg (not_not_intro hfits), setDisp4zx2]
    by_cases heven : 2 ∣ delta
    · rw [if_neg (not_not_intro (hiff.mpr heven)), if_neg (not_not_intro hfits),
        if_neg (not_not_intro heven), shortWord, orBits, show lowBits 32 4 = 0xF#32 by decide]
    · rw [if_pos (mt hiff.mp heven), if_pos heven]
      rfl
  · rw [if_pos hfits, if_pos hfits]
    rfl

/-- The field after a first link. -/
theorem extract_shortWord {op disp : BitVec 32} (hclear : op &&& fieldBits 32 8 4 = 0#32)
    (hfits : disp.toNat < 2 ^ 5) :
    ((shortWord op disp).extractLsb' 8 4).toNat = disp.toNat / 2 := by
  rw [shortWord, orBits_eq_insertBits hclear, extract_insertBits (by omega),
    BitVec.toNat_setWidth, BitVec.toNat_ushiftRight, Nat.shiftRight_eq_div_pow]
  omega

/-- The displacement after a first link. -/
theorem offset_shortWord {j : ShortJump} {op : BitVec 32} {delta : ℤ}
    (hclear : op &&& j.form.field = 0#32) (hfits : (BitVec.ofInt 32 delta).toNat < 2 ^ 5)
    (heven : 2 ∣ delta) :
    j.form.offset (shortWord op (BitVec.ofInt 32 delta)) =
      ((BitVec.ofInt 32 delta).toNat : ℤ) := by
  show 2 * ((BitVec.extractLsb' 8 4 _).toNat : ℤ) = _
  rw [extract_shortWord hclear hfits]
  rw [BitVec.toNat_ofInt] at hfits ⊢
  omega

/-- **A jump of 16 bits obeys the law of its first link.** -/
theorem short_law {j : ShortJump} {position p : UInt32} {out : Output}
    (hout : (j.site position).Encodes out)
    (hclear : readWord out position.toNat &&& j.form.field = 0#32) :
    LinkLaw (j.site position) out p := by
  refine wordSite_law (by omega) hout (patch_short hout _) (orBits_agree _ _ _ _) ?_
  intro hfits heven
  rw [offset_shortWord hclear hfits heven, BitVec.toNat_ofInt]
  omega

/-- The compiler reads the displacement of a jump of 16 bits as the processor does. -/
theorem readDisp4_toNat (op : BitVec 32) :
    (readDisp4zx2BranchOffset op).toNat = 2 * (op.extractLsb' 8 4).toNat := by
  have hextract : (op >>> 8) &&& 0xF#32 = (op.extractLsb' 8 4).setWidth 32 := by
    rw [show (0xF#32 : BitVec 32) = lowBits 32 4 by decide]
    refine BitVec.eq_of_getLsbD_eq fun i hi => ?_
    rw [BitVec.getLsbD_and, getLsbD_lowBits, BitVec.getLsbD_ushiftRight, BitVec.getLsbD_setWidth,
      BitVec.getLsbD_extractLsb']
    simp [hi, Bool.and_comm]
  have hlt := (op.extractLsb' 8 4).isLt
  rw [readDisp4zx2BranchOffset, hextract, BitVec.toNat_shiftLeft, BitVec.toNat_setWidth,
    Nat.shiftLeft_eq]
  omega

/-- The position a jump of 16 bits was first linked to can be read back. -/
theorem short_readsBack {j : ShortJump} {position p : UInt32} {out : Output}
    (haligned : 2 ∣ position.toNat) (hout : (j.site position).Encodes out)
    (hclear : readWord out position.toNat &&& j.form.field = 0#32)
    (hback : -2 ^ 31 ≤ linkDelta p position) : (j.site position).ReadsBack out p := by
  intro out' hlink
  obtain ⟨hfits, heven, hword⟩ := patchInstructionAtOffset_ok (patch_short hout _) hlink
  have hmatches : j.form.Matches (readWord out' position.toNat) := by
    rw [hword]
    exact PcRelForm.Matches.of_agree hout (orBits_agree _ _ _ _)
  have h16 : is16BitInstr (readWord out' position.toNat) = true := by
    rw [is16BitInstr_of_matches rfl hmatches]
    cases j <;> rfl
  have hdisp : ((readDisp4zx2BranchOffset (readWord out' position.toNat)).toNat : ℤ) =
      linkDelta p position := by
    rw [readDisp4_toNat, hword, extract_shortWord hclear hfits]
    have h32 := p.toNat_lt
    have hdelta : linkDelta p position = (p.toNat : ℤ) - position.toNat := rfl
    rw [BitVec.toNat_ofInt] at hfits ⊢
    omega
  obtain ⟨hlt, hp⟩ := getLinked_of_narrowed haligned heven (.inl hdisp)
  show RelPatchObj.getLinkedBinaryPos _ out' = .ok p
  simp only [RelPatchObj.getLinkedBinaryPos, h16, if_true]
  rw [if_neg hlt, hp]

/-! ### LEA -/

/-- The site of a LEA. -/
def leaSite (position : UInt32) : PatchSite :=
  wordSite leaForm 32 position (fun delta => BitField.Fits 16 (BitVec.ofInt 32 delta).toInt)
    (fun _ => True) .conditionalBranchesOrLea32kB (RelPatchObj.patch false)
    (RelPatchObj.getLinkedBinaryPos ⟨position, false⟩)

/-- The word a link of a LEA writes. -/
def leaWord (op disp : BitVec 32) : BitVec 32 :=
  orBits (orBits (orBits op disp 16 6) (disp >>> 6) 28 4) (disp >>> 10) 22 6

/-- What a link does with a LEA. -/
theorem patch_lea {op : BitVec 32} (h : leaForm.Matches op) (delta : ℤ) :
    RelPatchObj.patch false delta op =
      if ¬ BitField.Fits 16 (BitVec.ofInt 32 delta).toInt then .error .conditionalBranchesOrLea32kB
      else if ¬ True then .error .assertionFailed
      else .ok (leaWord op (BitVec.ofInt 32 delta)) := by
  have h16 : is16BitInstr op = false := by
    rw [is16BitInstr_of_matches rfl h]
    rfl
  simp only [RelPatchObj.patch, h16, Bool.false_eq_true, if_false]
  by_cases hfits : BitField.Fits 16 (BitVec.ofInt 32 delta).toInt
  · rw [if_neg (not_not_intro hfits), if_neg (not_not_intro hfits), setOff16sx,
      if_neg (not_not_intro hfits), if_neg (not_not_intro trivial), leaWord, orBits, orBits,
      orBits, show lowBits 32 6 = 0x3F#32 by decide, show lowBits 32 4 = 0xF#32 by decide]
  · rw [if_pos hfits, if_pos hfits]
    rfl

/-- Only the displacement has changed. -/
theorem leaWord_agree (op disp : BitVec 32) : AgreeOutside leaForm.field op (leaWord op disp) := by
  have hfield : leaForm.field = (fieldBits 32 16 6 ||| fieldBits 32 28 4) ||| fieldBits 32 22 6 :=
    rfl
  refine AgreeOutside.trans (AgreeOutside.trans ((orBits_agree _ _ _ _).mono fun i hi => ?_)
    ((orBits_agree _ _ _ _).mono fun i hi => ?_)) ((orBits_agree _ _ _ _).mono fun i hi => ?_)
  · rw [hfield, BitVec.getLsbD_or, BitVec.getLsbD_or, hi, Bool.true_or, Bool.true_or]
  · rw [hfield, BitVec.getLsbD_or, BitVec.getLsbD_or, hi, Bool.or_true, Bool.true_or]
  · rw [hfield, BitVec.getLsbD_or, hi, Bool.or_true]

/-- The parts of a displacement that was put into a field that was zero. -/
theorem leaWord_eq {op : BitVec 32} (hclear : op &&& leaForm.field = 0#32) (disp : BitVec 32) :
    leaWord op disp =
      insertBits (insertBits (insertBits op disp 16 6) (disp >>> 6) 28 4) (disp >>> 10) 22 6 := by
  have hfield : leaForm.field = (fieldBits 32 16 6 ||| fieldBits 32 28 4) ||| fieldBits 32 22 6 :=
    rfl
  rw [hfield, BitVec.and_or_distrib_left, BitVec.or_eq_zero_iff, BitVec.and_or_distrib_left,
    BitVec.or_eq_zero_iff] at hclear
  obtain ⟨⟨hlow, hhigh⟩, hmiddle⟩ := hclear
  have hhigh' : insertBits op disp 16 6 &&& fieldBits 32 28 4 = 0#32 := by
    rw [and_fieldBits_eq_zero (by omega), extract_insertBits_of_disjoint (by omega),
      ← and_fieldBits_eq_zero (by omega)]
    exact hhigh
  have hmiddle' : insertBits (insertBits op disp 16 6) (disp >>> 6) 28 4 &&& fieldBits 32 22 6 =
      0#32 := by
    rw [and_fieldBits_eq_zero (by omega), extract_insertBits_of_disjoint (by omega),
      extract_insertBits_of_disjoint (by omega), ← and_fieldBits_eq_zero (by omega)]
    exact hmiddle
  rw [leaWord, orBits_eq_insertBits hlow, orBits_eq_insertBits hhigh',
    orBits_eq_insertBits hmiddle']

/-- The displacement after a first link. -/
theorem offset_leaWord {op : BitVec 32} {disp : BitVec 32}
    (hclear : op &&& leaForm.field = 0#32) (hfits : BitField.Fits 16 disp.toInt) :
    leaForm.offset (leaWord op disp) = disp.toInt := by
  have hlow := extract_append_extract disp 0 6 4
  have hall := extract_append_extract disp 0 10 6
  rw [Nat.zero_add] at hlow hall
  have hword : disp.extractLsb' 0 16 = BitVec.ofInt 16 disp.toInt := by
    rw [← extract_ofInt (w := 32) (by omega), BitVec.ofInt_toInt]
  rw [leaWord_eq hclear]
  show (BitVec.extractLsb' 22 6 _ ++ (BitVec.extractLsb' 28 4 _ ++ BitVec.extractLsb' 16 6 _)).toInt
    = _
  rw [extract_insertBits (by omega), extract_insertBits_of_disjoint (by omega),
    extract_insertBits (by omega), extract_insertBits_of_disjoint (by omega),
    extract_insertBits_of_disjoint (by omega), extract_insertBits (by omega),
    setWidth_ushiftRight, setWidth_ushiftRight, BitVec.setWidth_eq_extractLsb' (by omega), hlow,
    hall, hword, toInt_ofInt_of_fits (by omega) hfits]

/-- **A LEA obeys the law of its first link.** -/
theorem lea_law {position p : UInt32} {out : Output}
    (hout : (leaSite position).Encodes out)
    (hclear : readWord out position.toNat &&& leaForm.field = 0#32) :
    LinkLaw (leaSite position) out p := by
  refine wordSite_law (by omega) hout (patch_lea hout _) (leaWord_agree _ _) ?_
  intro hfits _
  rw [offset_leaWord hclear hfits, toInt_ofInt_emod]

end TriCore

end WasmCompiler
