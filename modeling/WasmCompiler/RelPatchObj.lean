import WasmCompiler.PatchSites

/-!
# Relative Patch Objects

`RelPatchObj` of the backends: an instruction is emitted with a placeholder, and the object
remembers where it is, so that its displacement can be filled in later. The backends differ in
where the displacement is in the instruction and in how it is written: some setters clear the
field, some only put bits over it.

## Main results

* `AArch64.branch_relinkable`, `X86_64.relinkable`, `TriCore.branch_relinkable`: instructions
  whose setter clears the field obey the law of a link whatever they targeted before.
* `AArch64.address_law`, `TriCore.short_law`, `TriCore.lea_law`: the others obey it where the
  field is still zero.
-/

namespace WasmCompiler

open BitField PatchSite

/-- `static_cast<int64_t>(binaryPosition) - static_cast<int64_t>(position)`. -/
def linkDelta (binaryPosition position : UInt32) : ℤ :=
  (binaryPosition.toNat : ℤ) - (position.toNat : ℤ)

/-- `static_cast<uint32_t>` of a signed number. -/
def truncatedPosition (position : ℤ) : UInt32 := UInt32.ofBitVec (BitVec.ofInt 32 position)

/-- A position survives. -/
theorem truncatedPosition_natCast (p : UInt32) : truncatedPosition (p.toNat : ℤ) = p := by
  rw [truncatedPosition, BitVec.ofInt_natCast]
  exact UInt32.toBitVec_inj.mp (BitVec.eq_of_toNat_eq (by simp))

/-- Changing an instruction word by a function that may throw, before anything is written:
`patchInstructionAtOffset` of the AArch64 and the TriCore backend. -/
def patchInstructionAtOffset (position : UInt32)
    (patch : BitVec 32 → Except PatchError (BitVec 32)) : EStateM PatchError Output Unit :=
  fun out =>
    match patch (readWord out position.toNat) with
    | .ok op => .ok () (writeWord out position.toNat op)
    | .error e => .error e out

/-- The outputs agree but for the displacement of the instruction word at a position. -/
structure SameButField (form : PcRelForm) (position : ℕ) (out out' : Output) : Prop where
  bits : AgreeOutside form.field (readWord out position) (readWord out' position)
  bytes : ∀ a, a < position ∨ position + 4 ≤ a → out' a = out a

/-- Nothing changed. -/
theorem SameButField.refl (form : PcRelForm) (position : ℕ) (out : Output) :
    SameButField form position out out :=
  ⟨.refl _ _, fun _ _ => rfl⟩

/-- One change after the other. -/
theorem SameButField.trans {form : PcRelForm} {position : ℕ} {out out' out'' : Output}
    (h : SameButField form position out out') (h' : SameButField form position out' out'') :
    SameButField form position out out'' :=
  ⟨h.bits.trans h'.bits, fun a ha => (h'.bytes a ha).trans (h.bytes a ha)⟩

/-- A word that differs in the displacement only. -/
theorem sameButField_writeWord {form : PcRelForm} {position : ℕ} {out : Output}
    {op : BitVec 32} (h : AgreeOutside form.field (readWord out position) op) :
    SameButField form position out (writeWord out position op) :=
  ⟨by rw [readWord_writeWord]; exact h, fun _ ha => writeWord_outside ha⟩

/-- A patch that checks, asserts and yields a word is a link that checks, asserts and
writes. -/
theorem patchInstructionAtOffset_eq {position : UInt32} {out : Output}
    {patch : BitVec 32 → Except PatchError (BitVec 32)} {c d : Prop} [Decidable c] [Decidable d]
    {e : PatchError} {op : BitVec 32}
    (h : patch (readWord out position.toNat) =
      if ¬ c then .error e else if ¬ d then .error .assertionFailed else .ok op) :
    patchInstructionAtOffset position patch out =
      if ¬ c then .error e out
      else if ¬ d then .error .assertionFailed out
      else .ok () (writeWord out position.toNat op) := by
  rw [patchInstructionAtOffset, h]
  by_cases hc : c
  · by_cases hd : d
    · simp [hc, hd]
    · simp [hc, hd]
  · simp [hc]

/-- The site of an instruction word. The addresses of the target have `addressBits` bits. -/
def wordSite (form : PcRelForm) (addressBits : ℕ) (position : UInt32) (inRange Asserted : ℤ → Prop)
    (rangeError : PatchError) (patch : ℤ → BitVec 32 → Except PatchError (BitVec 32))
    (getLinkedBinaryPos : Output → Except PatchError UInt32) : PatchSite where
  Encodes out := form.Matches (readWord out position.toNat)
  SameOutside := SameButField form position.toNat
  executedTarget out :=
    ((position.toNat : ℤ) + form.offset (readWord out position.toNat)) % 2 ^ addressBits
  inRange p := inRange (linkDelta p position)
  Asserted p := Asserted (linkDelta p position)
  rangeError := rangeError
  linkToBinaryPos p := patchInstructionAtOffset position (patch (linkDelta p position))
  getLinkedBinaryPos := getLinkedBinaryPos

/-- The target of an instruction whose displacement is the distance to a position, as far as
addresses go. -/
theorem target_of_offset {addressBits : ℕ} (hbits : 32 ≤ addressBits) {position p : UInt32}
    {offset : ℤ}
    (h : offset % 2 ^ addressBits = linkDelta p position % 2 ^ addressBits) :
    ((position.toNat : ℤ) + offset) % 2 ^ addressBits = p.toNat := by
  rw [Int.add_emod, h, ← Int.add_emod, linkDelta, add_sub_cancel]
  have hlt : (p.toNat : ℤ) < 2 ^ 32 := by exact_mod_cast p.toNat_lt
  have hpow : (2 : ℤ) ^ 32 ≤ 2 ^ addressBits := pow_le_pow_right₀ (by norm_num) hbits
  exact Int.emod_eq_of_lt (by omega) (by omega)

/-- **The law of a word site** follows from what the patch does with the word. -/
theorem wordSite_law {form : PcRelForm} {addressBits : ℕ} (hbits : 32 ≤ addressBits)
    {position : UInt32} {inRange Asserted : ℤ → Prop} [DecidablePred inRange]
    [DecidablePred Asserted] {rangeError : PatchError}
    {patch : ℤ → BitVec 32 → Except PatchError (BitVec 32)}
    {getLinkedBinaryPos : Output → Except PatchError UInt32} {out : Output} {p : UInt32}
    (hout : form.Matches (readWord out position.toNat)) {op : BitVec 32}
    (hpatch : patch (linkDelta p position) (readWord out position.toNat) =
      if ¬ inRange (linkDelta p position) then .error rangeError
      else if ¬ Asserted (linkDelta p position) then .error .assertionFailed
      else .ok op)
    (hagree : AgreeOutside form.field (readWord out position.toNat) op)
    (hoffset : inRange (linkDelta p position) → Asserted (linkDelta p position) →
      form.offset op % 2 ^ addressBits = linkDelta p position % 2 ^ addressBits) :
    LinkLaw (wordSite form addressBits position inRange Asserted rangeError patch
      getLinkedBinaryPos) out p := by
  refine LinkLaw.of_link (patchInstructionAtOffset_eq hpatch) Iff.rfl Iff.rfl
    fun hin has => ⟨?_, ?_, ?_⟩
  · show form.Matches _
    rw [readWord_writeWord]
    exact hout.of_agree hagree
  · show ((position.toNat : ℤ) + form.offset _) % 2 ^ addressBits = _
    rw [readWord_writeWord]
    exact target_of_offset hbits (hoffset hin has)
  · exact sameButField_writeWord hagree

/-- A word site where every link obeys the law. -/
theorem wordSite_relinkable {form : PcRelForm} {addressBits : ℕ} {position : UInt32}
    {inRange Asserted : ℤ → Prop} {rangeError : PatchError}
    {patch : ℤ → BitVec 32 → Except PatchError (BitVec 32)}
    {getLinkedBinaryPos : Output → Except PatchError UInt32}
    (hlaw : ∀ out, form.Matches (readWord out position.toNat) → ∀ p,
      LinkLaw (wordSite form addressBits position inRange Asserted rangeError patch
        getLinkedBinaryPos) out p) :
    (wordSite form addressBits position inRange Asserted rangeError patch
      getLinkedBinaryPos).Relinkable where
  law := hlaw
  refl := SameButField.refl _ _
  trans _ _ _ h h' := SameButField.trans h h'

/-- What a patch that has been written went through. -/
theorem patchInstructionAtOffset_ok {position : UInt32} {out out' : Output}
    {patch : BitVec 32 → Except PatchError (BitVec 32)} {c d : Prop} [Decidable c] [Decidable d]
    {e : PatchError} {op : BitVec 32}
    (h : patch (readWord out position.toNat) =
      if ¬ c then .error e else if ¬ d then .error .assertionFailed else .ok op)
    (hok : patchInstructionAtOffset position patch out = .ok () out') :
    c ∧ d ∧ readWord out' position.toNat = op := by
  rw [patchInstructionAtOffset_eq h] at hok
  by_cases hc : c
  · by_cases hd : d
    · rw [if_neg (not_not_intro hc), if_neg (not_not_intro hd)] at hok
      cases hok
      exact ⟨hc, hd, readWord_writeWord _ _ _⟩
    · rw [if_neg (not_not_intro hc), if_pos hd] at hok
      cases hok
  · rw [if_pos hc] at hok
    cases hok

/-! ### AArch64 instruction words -/

namespace AArch64

/-- B and BL. -/
def branchForm : PcRelForm where
  mask := 0x7C000000#32
  value := 0x14000000#32
  field := fieldBits 32 0 26
  offset op := 4 * (op.extractLsb' 0 26).toInt
  decoded_outside := by decide

/-- B.cond. -/
def conditionalForm : PcRelForm where
  mask := 0xFF000010#32
  value := 0x54000000#32
  field := fieldBits 32 5 19
  offset op := 4 * (op.extractLsb' 5 19).toInt
  decoded_outside := by decide

/-- CBZ and CBNZ. -/
def compareForm : PcRelForm where
  mask := 0x7E000000#32
  value := 0x34000000#32
  field := fieldBits 32 5 19
  offset op := 4 * (op.extractLsb' 5 19).toInt
  decoded_outside := by decide

/-- ADR. -/
def addressForm : PcRelForm where
  mask := 0x9F000000#32
  value := 0x10000000#32
  field := fieldBits 32 5 19 ||| fieldBits 32 29 2
  offset op := (op.extractLsb' 5 19 ++ op.extractLsb' 29 2).toInt
  decoded_outside := by decide

/-- `Instruction::isImm19ls2BranchOffset`. -/
def isImm19ls2BranchOffset (op : BitVec 32) : Bool := ((op >>> 29) &&& 0b11#32) != 0#32

/-- `Instruction::setImm19ls2BranchOffset`. -/
def setImm19ls2BranchOffset (op : BitVec 32) (offset : ℤ) : Except PatchError (BitVec 32) :=
  if ¬ (offset ≤ 2 ^ 20 - 1 ∧ -2 ^ 20 ≤ offset) then throw .assertionFailed
  else if ¬ (offset % 4 = 0) then throw .assertionFailed
  else
    .ok ((op &&& ~~~(((1#32 <<< 19) - 1#32) <<< 5)) |||
      (((BitVec.ofInt 32 offset >>> 2) &&& ((1#32 <<< 19) - 1#32)) <<< 5))

/-- `Instruction::setImm26ls2BranchOffset`. -/
def setImm26ls2BranchOffset (op : BitVec 32) (offset : ℤ) : Except PatchError (BitVec 32) :=
  if ¬ (offset ≤ 2 ^ 27 - 1 ∧ -2 ^ 27 ≤ offset) then throw .assertionFailed
  else if ¬ (offset % 4 = 0) then throw .assertionFailed
  else
    .ok ((op &&& ~~~((1#32 <<< 26) - 1#32)) |||
      ((BitVec.ofInt 32 offset >>> 2) &&& ((1#32 <<< 26) - 1#32)))

/-- `Instruction::setSigned21AddressOffset`, which does not clear the field. -/
def setSigned21AddressOffset (op : BitVec 32) (offset : ℤ) : Except PatchError (BitVec 32) :=
  if ¬ (-(2 ^ 20 - 1) ≤ offset ∧ offset ≤ 2 ^ 20) then throw .assertionFailed
  else
    .ok ((op ||| (((BitVec.ofInt 32 offset >>> 2) &&& 0x7FFFF#32) <<< 5)) |||
      ((BitVec.ofInt 32 offset &&& 0b11#32) <<< 29))

/-- `Instruction::readImm19o26ls2BranchOffset`. -/
def readImm19o26ls2BranchOffset (op : BitVec 32) : ℤ :=
  let branchWidth := if isImm19ls2BranchOffset op then 19 else 26
  let offset := op >>> (if branchWidth = 19 then 5 else 0)
  let extended :=
    if (offset >>> (branchWidth - 1)) &&& 0x1#32 ≠ 0#32 then
      offset ||| ~~~((1#32 <<< branchWidth) - 1#32)
    else offset &&& ((1#32 <<< branchWidth) - 1#32)
  (extended <<< 2).toInt

/-- `RelPatchObj`; `isBranch` is false for the objects of ADR and for those that
`prepareJMPIfRegIsZero` and `prepareJMPIfRegIsNotZero` return. -/
structure RelPatchObj where
  position : UInt32
  isBranch : Bool
  deriving DecidableEq, Repr

namespace RelPatchObj

/-- What `RelPatchObj::linkToBinaryPos` does with the instruction. -/
def patch (isBranch : Bool) (delta : ℤ) (op : BitVec 32) : Except PatchError (BitVec 32) :=
  if isBranch then
    if isImm19ls2BranchOffset op then
      if BitField.Fits 21 delta then setImm19ls2BranchOffset op delta
      else throw .conditionalBranchesOrAdr1MB
    else
      if BitField.Fits 28 delta then setImm26ls2BranchOffset op delta
      else throw .branches128MB
  else
    if BitField.Fits 21 delta then setSigned21AddressOffset op delta
    else throw .conditionalBranchesOrAdr1MB

/-- `RelPatchObj::linkToBinaryPos`. -/
def linkToBinaryPos (obj : RelPatchObj) (binaryPosition : UInt32) :
    EStateM PatchError Output Unit :=
  patchInstructionAtOffset obj.position
    (patch obj.isBranch (linkDelta binaryPosition obj.position))

/-- `RelPatchObj::getLinkedBinaryPos`. -/
def getLinkedBinaryPos (obj : RelPatchObj) (out : Output) : Except PatchError UInt32 :=
  if ¬ obj.isBranch then throw .assertionFailed
  else
    let op := readWord out obj.position.toNat
    let linkedPosition : ℤ := (obj.position.toNat : ℤ) + readImm19o26ls2BranchOffset op
    if ¬ linkedPosition < 0xFFFFFFFF then throw .assertionFailed
    else .ok (truncatedPosition linkedPosition)

end RelPatchObj

/-! ### The fields of AArch64 -/

/-- The two bits that tell the widths apart. -/
theorem isImm19ls2BranchOffset_eq (op : BitVec 32) :
    isImm19ls2BranchOffset op = (op.getLsbD 29 || op.getLsbD 30) := by
  have hbits : (op >>> 29) &&& 0b11#32 = 0#32 ↔ op.getLsbD 29 = false ∧ op.getLsbD 30 = false := by
    rw [show (0b11#32 : BitVec 32) = fieldBits 32 0 2 by decide,
      and_fieldBits_eq_zero (by omega)]
    constructor
    · intro h
      have hbit : ∀ i, i < 2 → op.getLsbD (29 + i) = false := by
        intro i hi
        have := congrArg (BitVec.getLsbD · i) h
        simpa [hi] using this
      exact ⟨hbit 0 (by omega), hbit 1 (by omega)⟩
    · rintro ⟨h0, h1⟩
      refine BitVec.eq_of_getLsbD_eq fun i hi => ?_
      rcases (by omega : i = 0 ∨ i = 1) with rfl | rfl
      · simpa using h0
      · simpa using h1
  rw [isImm19ls2BranchOffset, bne]
  by_cases h : (op >>> 29) &&& 0b11#32 = 0#32
  · obtain ⟨h0, h1⟩ := hbits.mp h
    rw [h, h0, h1]
    decide
  · have : (op >>> 29 &&& 0b11#32 == 0#32) = false := beq_eq_false_iff_ne.mpr h
    rw [this]
    cases h0 : op.getLsbD 29 with
    | true => rfl
    | false =>
        cases h1 : op.getLsbD 30 with
        | true => rfl
        | false => exact absurd (hbits.mpr ⟨h0, h1⟩) h

/-- Clearing and setting the 19 bits. -/
theorem setImm19_eq (op : BitVec 32) (k : ℤ) :
    ((op &&& ~~~(((1#32 <<< 19) - 1#32) <<< 5)) |||
      (((BitVec.ofInt 32 (2 ^ 2 * k) >>> 2) &&& ((1#32 <<< 19) - 1#32)) <<< 5)) =
      insertBits op (BitVec.ofInt 32 (2 ^ 2 * k) >>> 2) 5 19 := by
  rw [insertBits, fieldBits, show lowBits 32 19 = (1#32 <<< 19) - 1#32 by decide]

/-- Clearing and setting the 26 bits. -/
theorem setImm26_eq (op : BitVec 32) (k : ℤ) :
    ((op &&& ~~~((1#32 <<< 26) - 1#32)) |||
      ((BitVec.ofInt 32 (2 ^ 2 * k) >>> 2) &&& ((1#32 <<< 26) - 1#32))) =
      insertBits op (BitVec.ofInt 32 (2 ^ 2 * k) >>> 2) 0 26 := by
  rw [insertBits, fieldBits, show lowBits 32 26 = (1#32 <<< 26) - 1#32 by decide,
    BitVec.shiftLeft_zero, BitVec.shiftLeft_zero]

/-- A scaled field after it has been inserted. -/
theorem extract_insertBits_scaled {op : BitVec 32} {lo n s : ℕ} {k : ℤ} (hn : 0 < n)
    (hlo : lo + n ≤ 32) (hs : s + n ≤ 32) (hfits : BitField.Fits n k) :
    ((insertBits op (BitVec.ofInt 32 (2 ^ s * k) >>> s) lo n).extractLsb' lo n).toInt = k := by
  rw [extract_insertBits hlo, setWidth_ofInt_ushiftRight hs, toInt_ofInt_of_fits hn hfits]

/-- The forms of branches whose displacement is scaled by four. -/
inductive BranchForm where
  | branch
  | conditional
  | compare
  deriving DecidableEq, Repr

namespace BranchForm

/-- The words of the form. -/
def form : BranchForm → PcRelForm
  | branch => branchForm
  | conditional => conditionalForm
  | compare => compareForm

/-- The bits of the displacement. -/
def rangeBits : BranchForm → ℕ
  | branch => 28
  | conditional => 21
  | compare => 21

/-- The exception for targets that are too far away. -/
def rangeError : BranchForm → PatchError
  | branch => .branches128MB
  | conditional => .conditionalBranchesOrAdr1MB
  | compare => .conditionalBranchesOrAdr1MB

/-- The lowest bit of the field. -/
def lo : BranchForm → ℕ
  | branch => 0
  | conditional => 5
  | compare => 5

/-- The width of the field. -/
def width : BranchForm → ℕ
  | branch => 26
  | conditional => 19
  | compare => 19

/-- The field of a branch. -/
theorem field_eq (b : BranchForm) : b.form.field = fieldBits 32 b.lo b.width := by
  cases b <;> rfl

/-- The displacement of a branch. -/
theorem offset_eq (b : BranchForm) (op : BitVec 32) :
    b.form.offset op = 4 * (op.extractLsb' b.lo b.width).toInt := by
  cases b <;> rfl

/-- The compiler recognises the width. -/
theorem isImm19_of_matches {b : BranchForm} {op : BitVec 32} (h : b.form.Matches op) :
    isImm19ls2BranchOffset op = decide (b ≠ branch) := by
  rw [isImm19ls2BranchOffset_eq]
  cases b with
  | branch =>
      rw [h.getLsbD (by decide : branchForm.mask.getLsbD 29 = true),
        h.getLsbD (by decide : branchForm.mask.getLsbD 30 = true)]
      decide
  | conditional =>
      rw [h.getLsbD (by decide : conditionalForm.mask.getLsbD 29 = true),
        h.getLsbD (by decide : conditionalForm.mask.getLsbD 30 = true)]
      decide
  | compare =>
      rw [h.getLsbD (by decide : compareForm.mask.getLsbD 29 = true),
        h.getLsbD (by decide : compareForm.mask.getLsbD 30 = true)]
      decide

end BranchForm

/-- The word a link of a branch writes. -/
def BranchForm.linkedWord (b : BranchForm) (op : BitVec 32) (delta : ℤ) : BitVec 32 :=
  insertBits op (BitVec.ofInt 32 delta >>> 2) b.lo b.width

/-- Setting the 19 bits, with the assertions written out. -/
theorem setImm19ls2BranchOffset_eq {op : BitVec 32} {delta : ℤ} (h : BitField.Fits 21 delta) :
    setImm19ls2BranchOffset op delta =
      if ¬ (4 ∣ delta) then .error .assertionFailed
      else .ok (insertBits op (BitVec.ofInt 32 delta >>> 2) 5 19) := by
  have hrange : delta ≤ 2 ^ 20 - 1 ∧ -2 ^ 20 ≤ delta := by
    obtain ⟨h1, h2⟩ := h
    omega
  rw [setImm19ls2BranchOffset, if_neg (not_not_intro hrange)]
  by_cases h4 : (4 : ℤ) ∣ delta
  · obtain ⟨k, rfl⟩ := h4
    rw [if_neg (not_not_intro (by omega)), if_neg (not_not_intro (Dvd.intro k rfl))]
    exact congrArg _ (setImm19_eq op k)
  · rw [if_pos (by omega), if_pos h4]
    rfl

/-- Setting the 26 bits, with the assertions written out. -/
theorem setImm26ls2BranchOffset_eq {op : BitVec 32} {delta : ℤ} (h : BitField.Fits 28 delta) :
    setImm26ls2BranchOffset op delta =
      if ¬ (4 ∣ delta) then .error .assertionFailed
      else .ok (insertBits op (BitVec.ofInt 32 delta >>> 2) 0 26) := by
  have hrange : delta ≤ 2 ^ 27 - 1 ∧ -2 ^ 27 ≤ delta := by
    obtain ⟨h1, h2⟩ := h
    omega
  rw [setImm26ls2BranchOffset, if_neg (not_not_intro hrange)]
  by_cases h4 : (4 : ℤ) ∣ delta
  · obtain ⟨k, rfl⟩ := h4
    rw [if_neg (not_not_intro (by omega)), if_neg (not_not_intro (Dvd.intro k rfl))]
    exact congrArg _ (setImm26_eq op k)
  · rw [if_pos (by omega), if_pos h4]
    rfl

/-- What a link does with a branch. -/
theorem patch_branch {b : BranchForm} {op : BitVec 32} (h : b.form.Matches op)
    (delta : ℤ) :
    RelPatchObj.patch true delta op =
      if ¬ BitField.Fits b.rangeBits delta then .error b.rangeError
      else if ¬ (4 ∣ delta) then .error .assertionFailed
      else .ok (b.linkedWord op delta) := by
  have hwidth := BranchForm.isImm19_of_matches h
  by_cases hfits : BitField.Fits b.rangeBits delta
  · rw [if_neg (not_not_intro hfits)]
    cases b with
    | branch =>
        have hfits : BitField.Fits 28 delta := hfits
        simp only [RelPatchObj.patch, hwidth, ne_eq, not_true_eq_false, decide_false, if_true,
          Bool.false_eq_true, if_false, if_pos hfits, setImm26ls2BranchOffset_eq hfits]
        rfl
    | conditional =>
        have hfits : BitField.Fits 21 delta := hfits
        simp only [RelPatchObj.patch, hwidth, ne_eq, reduceCtorEq, not_false_eq_true,
          decide_true, if_true, if_pos hfits, setImm19ls2BranchOffset_eq hfits]
        rfl
    | compare =>
        have hfits : BitField.Fits 21 delta := hfits
        simp only [RelPatchObj.patch, hwidth, ne_eq, reduceCtorEq, not_false_eq_true,
          decide_true, if_true, if_pos hfits, setImm19ls2BranchOffset_eq hfits]
        rfl
  · rw [if_pos hfits]
    cases b with
    | branch =>
        have hfits : ¬ BitField.Fits 28 delta := hfits
        simp only [RelPatchObj.patch, hwidth, ne_eq, not_true_eq_false, decide_false, if_true,
          Bool.false_eq_true, if_false, if_neg hfits]
        rfl
    | conditional =>
        have hfits : ¬ BitField.Fits 21 delta := hfits
        simp only [RelPatchObj.patch, hwidth, ne_eq, reduceCtorEq, not_false_eq_true,
          decide_true, if_true, if_neg hfits]
        rfl
    | compare =>
        have hfits : ¬ BitField.Fits 21 delta := hfits
        simp only [RelPatchObj.patch, hwidth, ne_eq, reduceCtorEq, not_false_eq_true,
          decide_true, if_true, if_neg hfits]
        rfl

/-- Only the displacement has changed. -/
theorem BranchForm.linkedWord_agree (b : BranchForm) (op : BitVec 32) (delta : ℤ) :
    AgreeOutside b.form.field op (b.linkedWord op delta) := by
  rw [b.field_eq]
  exact insertBits_agree _ _ _ _

/-- The displacement after a link. -/
theorem BranchForm.offset_linkedWord {b : BranchForm} {delta : ℤ}
    (hfits : BitField.Fits b.rangeBits delta)
    (h4 : 4 ∣ delta) (op : BitVec 32) : b.form.offset (b.linkedWord op delta) = delta := by
  obtain ⟨k, rfl⟩ := h4
  rw [b.offset_eq, BranchForm.linkedWord]
  have hk : BitField.Fits b.width k := by
    obtain ⟨h1, h2⟩ := hfits
    cases b <;> simp only [BranchForm.rangeBits, BranchForm.width] at h1 h2 ⊢ <;>
      constructor <;> omega
  have hwidth : 0 < b.width ∧ b.lo + b.width ≤ 32 ∧ 2 + b.width ≤ 32 := by
    cases b <;> decide
  have hextract := @extract_insertBits_scaled op _ _ _ _ hwidth.1 hwidth.2.1 hwidth.2.2 hk
  rw [show (2 : ℤ) ^ 2 = 4 by norm_num] at hextract
  rw [hextract]

/-- The compiler reads the displacement of a branch as the processor does. -/
theorem readImm19o26_of_matches {b : BranchForm} {op : BitVec 32} (h : b.form.Matches op) :
    readImm19o26ls2BranchOffset op = b.form.offset op := by
  have hwidth := BranchForm.isImm19_of_matches h
  rw [b.offset_eq]
  cases b with
  | branch =>
      have hread := toInt_readSigned (n := 26) (s := 2) (by omega) (by omega) (op >>> 0)
      rw [show lowBits 32 26 = (1#32 <<< 26) - 1#32 by decide, setWidth_ushiftRight] at hread
      simp only [readImm19o26ls2BranchOffset, hwidth]
      exact hread
  | conditional =>
      have hread := toInt_readSigned (n := 19) (s := 2) (by omega) (by omega) (op >>> 5)
      rw [show lowBits 32 19 = (1#32 <<< 19) - 1#32 by decide, setWidth_ushiftRight] at hread
      simp only [readImm19o26ls2BranchOffset, hwidth]
      exact hread
  | compare =>
      have hread := toInt_readSigned (n := 19) (s := 2) (by omega) (by omega) (op >>> 5)
      rw [show lowBits 32 19 = (1#32 <<< 19) - 1#32 by decide, setWidth_ushiftRight] at hread
      simp only [readImm19o26ls2BranchOffset, hwidth]
      exact hread

/-- The site of a branch. -/
def branchSite (b : BranchForm) (position : UInt32) : PatchSite :=
  wordSite b.form 64 position (BitField.Fits b.rangeBits) (4 ∣ ·) b.rangeError
    (RelPatchObj.patch true)
    (RelPatchObj.getLinkedBinaryPos ⟨position, true⟩)

/-- **A branch obeys the law of a link** whatever it targeted before. -/
theorem branch_relinkable (b : BranchForm) (position : UInt32) :
    (branchSite b position).Relinkable := by
  refine wordSite_relinkable fun out hout p => ?_
  refine wordSite_law (by omega) hout (patch_branch hout _) (b.linkedWord_agree _ _) ?_
  intro hfits h4
  rw [BranchForm.offset_linkedWord hfits h4]

/-- The position a branch was linked to can be read back. -/
theorem branch_readsBack {b : BranchForm} {position p : UInt32} {out : Output}
    (haligned : 4 ∣ position.toNat) (hout : (branchSite b position).Encodes out) :
    (branchSite b position).ReadsBack out p := by
  intro out' hlink
  obtain ⟨hfits, h4, hword⟩ := patchInstructionAtOffset_ok (patch_branch hout _) hlink
  have hmatches : b.form.Matches (readWord out' position.toNat) := by
    rw [hword]
    exact PcRelForm.Matches.of_agree hout (b.linkedWord_agree _ _)
  have hoffset : readImm19o26ls2BranchOffset (readWord out' position.toNat) =
      linkDelta p position := by
    rw [readImm19o26_of_matches hmatches, hword, BranchForm.offset_linkedWord hfits h4]
  have hposition : (position.toNat : ℤ) + linkDelta p position = p.toNat := by
    rw [linkDelta, add_sub_cancel]
  have hlt : (p.toNat : ℤ) < 0xFFFFFFFF := by
    have h32 := p.toNat_lt
    rw [linkDelta] at h4
    omega
  show RelPatchObj.getLinkedBinaryPos ⟨position, true⟩ out' = .ok p
  simp only [RelPatchObj.getLinkedBinaryPos, not_true_eq_false, if_false, hoffset, hposition]
  rw [if_neg (not_not_intro hlt), truncatedPosition_natCast]

/-! ### Addresses of AArch64 -/

/-- The forms whose displacement is written as that of an address: ADR, and CBZ and CBNZ with
an object that says that they are no branches. -/
inductive AddressForm where
  | address
  | compare
  deriving DecidableEq, Repr

/-- The words of the form. -/
def AddressForm.form : AddressForm → PcRelForm
  | address => addressForm
  | compare => compareForm

/-- The site of an address instruction. -/
def addressSite (a : AddressForm) (position : UInt32) : PatchSite :=
  wordSite a.form 64 position (BitField.Fits 21) (· ≠ -2 ^ 20) .conditionalBranchesOrAdr1MB
    (RelPatchObj.patch false) (RelPatchObj.getLinkedBinaryPos ⟨position, false⟩)

/-- The displacement is still the one the instruction was emitted with. -/
def AddressForm.FieldClear (a : AddressForm) (position : UInt32) (out : Output) : Prop :=
  readWord out position.toNat &&& a.form.field = 0#32

/-- The word a link of an address writes. -/
def addressWord (op : BitVec 32) (delta : ℤ) : BitVec 32 :=
  orBits (orBits op (BitVec.ofInt 32 delta >>> 2) 5 19) (BitVec.ofInt 32 delta) 29 2

/-- What a link does with an address instruction. -/
theorem patch_address (op : BitVec 32) (delta : ℤ) :
    RelPatchObj.patch false delta op =
      if ¬ BitField.Fits 21 delta then .error .conditionalBranchesOrAdr1MB
      else if ¬ (delta ≠ -2 ^ 20) then .error .assertionFailed
      else .ok (addressWord op delta) := by
  simp only [RelPatchObj.patch, Bool.false_eq_true, if_false]
  by_cases hfits : BitField.Fits 21 delta
  · rw [if_pos hfits, if_neg (not_not_intro hfits), setSigned21AddressOffset]
    obtain ⟨h1, h2⟩ := hfits
    simp only [Nat.add_one_sub_one] at h1 h2
    by_cases hmin : delta ≠ -2 ^ 20
    · rw [if_neg (not_not_intro (by omega)), if_neg (not_not_intro hmin), addressWord, orBits,
        orBits, show lowBits 32 19 = 0x7FFFF#32 by decide, show lowBits 32 2 = 0b11#32 by decide]
    · rw [if_pos (by omega), if_pos hmin]
      rfl
  · rw [if_neg hfits, if_pos hfits]
    rfl

/-- A link of ADR changes its displacement only. -/
theorem addressWord_agree (op : BitVec 32) (delta : ℤ) :
    AgreeOutside addressForm.field op (addressWord op delta) := by
  refine AgreeOutside.trans ((orBits_agree _ _ _ _).mono fun i hi => ?_)
    ((orBits_agree _ _ _ _).mono fun i hi => ?_)
  · rw [show addressForm.field = fieldBits 32 5 19 ||| fieldBits 32 29 2 from rfl,
      BitVec.getLsbD_or, hi, Bool.true_or]
  · rw [show addressForm.field = fieldBits 32 5 19 ||| fieldBits 32 29 2 from rfl,
      BitVec.getLsbD_or, hi, Bool.or_true]

/-- The displacement of ADR after its first link. -/
theorem addressForm_offset_addressWord {op : BitVec 32} {delta : ℤ}
    (hfits : BitField.Fits 21 delta)
    (hclear : op &&& addressForm.field = 0#32) :
    addressForm.offset (addressWord op delta) = delta := by
  have hfields : op &&& fieldBits 32 5 19 = 0#32 ∧ op &&& fieldBits 32 29 2 = 0#32 := by
    rw [show addressForm.field = fieldBits 32 5 19 ||| fieldBits 32 29 2 from rfl,
      BitVec.and_or_distrib_left, BitVec.or_eq_zero_iff] at hclear
    exact hclear
  have hsecond : insertBits op (BitVec.ofInt 32 delta >>> 2) 5 19 &&& fieldBits 32 29 2 = 0#32 := by
    rw [and_fieldBits_eq_zero (by omega), extract_insertBits_of_disjoint (by omega),
      ← and_fieldBits_eq_zero (by omega)]
    exact hfields.2
  rw [addressWord, orBits_eq_insertBits hfields.1, orBits_eq_insertBits hsecond]
  have hsplit := extract_append_extract (BitVec.ofInt 32 delta) 0 2 19
  rw [Nat.zero_add] at hsplit
  show (BitVec.extractLsb' 5 19 _ ++ BitVec.extractLsb' 29 2 _).toInt = delta
  rw [extract_insertBits_of_disjoint (by omega), extract_insertBits (by omega),
    extract_insertBits (by omega), setWidth_ushiftRight, BitVec.setWidth_eq_extractLsb' (by omega),
    hsplit, extract_ofInt (by omega), toInt_ofInt_of_fits (by omega) hfits]

/-- What a first link writes into CBZ and CBNZ is what a link of a branch writes. -/
theorem addressWord_eq_linkedWord {op : BitVec 32} {delta : ℤ} (h4 : 4 ∣ delta)
    (hclear : op &&& compareForm.field = 0#32) :
    addressWord op delta = BranchForm.compare.linkedWord op delta := by
  have hlow : BitVec.ofInt 32 delta &&& lowBits 32 2 = 0#32 := by
    rw [show lowBits 32 2 = fieldBits 32 0 2 by decide, and_fieldBits_eq_zero (by omega),
      extract_ofInt (by omega)]
    apply BitVec.eq_of_toNat_eq
    rw [BitVec.toNat_ofInt]
    simp only [BitVec.toNat_zero]
    omega
  rw [addressWord, orBits_eq_insertBits hclear, orBits_of_and_eq_zero hlow]
  rfl

/-- The targets of an address instruction: CBZ and CBNZ can only go to instructions. -/
def AddressForm.Target (a : AddressForm) (position p : UInt32) : Prop :=
  a = compare → 4 ∣ linkDelta p position

/-- **An address instruction obeys the law of its first link.** -/
theorem address_law {a : AddressForm} {position p : UInt32} {out : Output}
    (hout : (addressSite a position).Encodes out) (hclear : a.FieldClear position out)
    (htarget : a.Target position p) : LinkLaw (addressSite a position) out p := by
  cases a with
  | address =>
      refine wordSite_law (by omega) hout (patch_address _ _) (addressWord_agree _ _) ?_
      intro hfits _
      show addressForm.offset _ % _ = _
      rw [addressForm_offset_addressWord hfits hclear]
  | compare =>
      have hpatch := patch_address (readWord out position.toNat) (linkDelta p position)
      have h4 : 4 ∣ linkDelta p position := htarget rfl
      rw [addressWord_eq_linkedWord h4 hclear] at hpatch
      refine wordSite_law (by omega) hout hpatch (BranchForm.compare.linkedWord_agree _ _) ?_
      intro hfits _
      show BranchForm.compare.form.offset _ % _ = _
      rw [BranchForm.offset_linkedWord (b := BranchForm.compare) hfits h4]

end AArch64

/-! ### x86_64 -/

namespace X86_64

/-- The instructions that are linked, by the bytes before the displacement: JMP, Jcc and CALL,
and LEA relative to the program counter. -/
inductive Instruction where
  | jmpRel8
  | jccRel8 (cc : Fin 16)
  | jmpRel32
  | jccRel32 (cc : Fin 16)
  | callRel32
  | leaRip (reg : Fin 16)
  deriving DecidableEq, Repr

namespace Instruction

/-- The bytes before the displacement. -/
def opcode : Instruction → List UInt8
  | jmpRel8 => [0xEB]
  | jccRel8 cc => [0x70 + UInt8.ofNat cc]
  | jmpRel32 => [0xE9]
  | jccRel32 cc => [0x0F, 0x80 + UInt8.ofNat cc]
  | callRel32 => [0xE8]
  | leaRip reg => [0x48 + 4 * UInt8.ofNat (reg / 8), 0x8D, 0x05 + 8 * UInt8.ofNat (reg % 8)]

/-- The displacement has one byte. -/
def isShort : Instruction → Bool
  | jmpRel8 => true
  | jccRel8 _ => true
  | jmpRel32 => false
  | jccRel32 _ => false
  | callRel32 => false
  | leaRip _ => false

/-- The bytes of the displacement. -/
def displacementSize (i : Instruction) : ℕ := if i.isShort then 1 else 4

end Instruction

/-- `RelPatchObj`: the position behind the instruction, and whether the displacement has one
byte. The displacement is the last part of the instruction. -/
structure RelPatchObj where
  short : Bool
  positionAfterInstruction : UInt32
  deriving DecidableEq, Repr

namespace RelPatchObj

/-- `RelPatchObj::linkToBinaryPos`. -/
def linkToBinaryPos (obj : RelPatchObj) (binaryPosition : UInt32) :
    EStateM PatchError Output Unit := fun out =>
  let delta := linkDelta binaryPosition obj.positionAfterInstruction
  if obj.short then
    if ¬ (-2 ^ 7 ≤ delta ∧ delta ≤ 2 ^ 7 - 1) then .error .assertionFailed out
    else
      .ok () fun a =>
        if a = obj.positionAfterInstruction.toNat - 1 then UInt8.ofBitVec (BitVec.ofInt 8 delta)
        else out a
  else
    if delta ≤ -2 ^ 31 ∨ 2 ^ 31 - 1 ≤ delta then .error .branches32BitSigned out
    else
      .ok () (writeWord out (obj.positionAfterInstruction.toNat - 4) (BitVec.ofInt 32 delta))

/-- `RelPatchObj::getLinkedBinaryPos`. -/
def getLinkedBinaryPos (obj : RelPatchObj) (out : Output) : Except PatchError UInt32 :=
  let after : ℕ := obj.positionAfterInstruction.toNat
  let returnValue : ℤ :=
    if obj.short then (after : ℤ) + (out (after - 1)).toBitVec.toInt
    else (after : ℤ) + (readWord out (after - 4)).toInt
  if ¬ returnValue ≤ 0xFFFFFFFF then throw .assertionFailed
  else .ok (truncatedPosition returnValue)

/-- A position that is read back. -/
theorem getLinkedBinaryPos_of_eq {obj : RelPatchObj} {out : Output} {p : UInt32}
    (h : (if obj.short then (obj.positionAfterInstruction.toNat : ℤ) +
        (out (obj.positionAfterInstruction.toNat - 1)).toBitVec.toInt
      else (obj.positionAfterInstruction.toNat : ℤ) +
        (readWord out (obj.positionAfterInstruction.toNat - 4)).toInt) = p.toNat) :
    obj.getLinkedBinaryPos out = .ok p := by
  have hle : (p.toNat : ℤ) ≤ 0xFFFFFFFF := by
    have h32 := p.toNat_lt
    omega
  simp only [getLinkedBinaryPos, h]
  rw [if_neg (not_not_intro hle), truncatedPosition_natCast]

end RelPatchObj

namespace Instruction

/-- The bytes of the instruction. -/
def length (i : Instruction) : ℕ := i.opcode.length + i.displacementSize

/-- The displacement of the instruction that ends before a position. -/
def displacement (i : Instruction) (after : ℕ) (out : Output) : ℤ :=
  if i.isShort then (out (after - 1)).toBitVec.toInt else (readWord out (after - 4)).toInt

/-- The object the assembler returns for an instruction that it has emitted. -/
def relPatchObj (i : Instruction) (after : UInt32) : RelPatchObj := ⟨i.isShort, after⟩

/-- The site of an instruction. -/
def site (i : Instruction) (after : UInt32) : PatchSite where
  Encodes out := ∀ k (hk : k < i.opcode.length), out (after.toNat - i.length + k) = i.opcode[k]
  SameOutside out out' :=
    ∀ a, a < after.toNat - i.displacementSize ∨ after.toNat ≤ a → out' a = out a
  executedTarget out := ((after.toNat : ℤ) + i.displacement after.toNat out) % 2 ^ 64
  inRange p :=
    if i.isShort then BitField.Fits 8 (linkDelta p after)
    else -2 ^ 31 < linkDelta p after ∧ linkDelta p after < 2 ^ 31 - 1
  Asserted _ := True
  rangeError := if i.isShort then .assertionFailed else .branches32BitSigned
  linkToBinaryPos := (i.relPatchObj after).linkToBinaryPos
  getLinkedBinaryPos := (i.relPatchObj after).getLinkedBinaryPos

/-- What a link of an instruction writes. -/
def linked (i : Instruction) (after : ℕ) (delta : ℤ) (out : Output) : Output :=
  if i.isShort then fun a => if a = after - 1 then UInt8.ofBitVec (BitVec.ofInt 8 delta) else out a
  else writeWord out (after - 4) (BitVec.ofInt 32 delta)

/-- What is before and behind the displacement is as before. -/
theorem linked_outside {i : Instruction} {after a : ℕ} {delta : ℤ} {out : Output}
    (hemitted : i.length ≤ after) (h : a < after - i.displacementSize ∨ after ≤ a) :
    i.linked after delta out a = out a := by
  rw [length] at hemitted
  rw [linked]
  cases hshort : i.isShort with
  | true =>
      simp only [displacementSize, hshort, if_true] at h hemitted ⊢
      rw [if_neg (by omega)]
  | false =>
      simp only [displacementSize, hshort, Bool.false_eq_true, if_false] at h hemitted ⊢
      exact writeWord_outside (by omega)

/-- The displacement of a linked instruction. -/
theorem displacement_linked {i : Instruction} {after : ℕ} {delta : ℤ} {out : Output}
    (hfits : BitField.Fits (8 * i.displacementSize) delta) :
    i.displacement after (i.linked after delta out) = delta := by
  rw [displacement, linked]
  cases hshort : i.isShort with
  | true =>
      simp only [displacementSize, hshort, if_true] at hfits ⊢
      exact toInt_ofInt_of_fits (by omega) hfits
  | false =>
      simp only [displacementSize, hshort, Bool.false_eq_true, if_false] at hfits ⊢
      rw [readWord_writeWord]
      exact toInt_ofInt_of_fits (by omega) hfits

/-- A target in range is reached by the displacement. -/
theorem fits_of_inRange {i : Instruction} {after p : UInt32}
    (h : (i.site after).inRange p) :
    BitField.Fits (8 * i.displacementSize) (linkDelta p after) := by
  simp only [site] at h
  rw [displacementSize]
  cases hshort : i.isShort with
  | true =>
      rw [hshort] at h
      exact h
  | false =>
      simp only [hshort, Bool.false_eq_true, if_false] at h ⊢
      exact ⟨by omega, by omega⟩

instance (i : Instruction) (after p : UInt32) : Decidable ((i.site after).inRange p) :=
  inferInstanceAs (Decidable (if i.isShort then _ else _))

/-- What a link does. -/
theorem linkToBinaryPos_eq (i : Instruction) (after p : UInt32) (out : Output) :
    (i.site after).linkToBinaryPos p out =
      if ¬ (i.site after).inRange p then
        .error (i.site after).rangeError out
      else if ¬ True then .error .assertionFailed out
      else .ok () (i.linked after.toNat (linkDelta p after) out) := by
  simp only [site, RelPatchObj.linkToBinaryPos, relPatchObj, linked, not_true_eq_false, if_false]
  cases hshort : i.isShort with
  | true =>
      simp only [if_true]
      by_cases hfits : BitField.Fits 8 (linkDelta p after)
      · obtain ⟨h1, h2⟩ := id hfits
        rw [if_neg (not_not_intro hfits), if_neg (not_not_intro ⟨by omega, by omega⟩)]
      · rw [if_pos hfits, if_pos (fun h => hfits ⟨by omega, by omega⟩)]
  | false =>
      simp only [Bool.false_eq_true, if_false]
      by_cases hrange : -2 ^ 31 < linkDelta p after ∧ linkDelta p after < 2 ^ 31 - 1
      · rw [if_neg (not_not_intro hrange), if_neg (by omega)]
      · rw [if_pos hrange, if_pos (by omega)]

/-- What a link has done. -/
theorem linked_spec {i : Instruction} {after p : UInt32} (hemitted : i.length ≤ after.toNat)
    {out : Output} (hout : (i.site after).Encodes out)
    (hrange : (i.site after).inRange p) :
    (i.site after).Linked out p (i.linked after.toNat (linkDelta p after) out) where
  encodes := by
    intro k hk
    rw [← hout k hk]
    refine linked_outside hemitted (.inl ?_)
    rw [length] at hemitted ⊢
    omega
  target := by
    show ((after.toNat : ℤ) + i.displacement after.toNat _) % 2 ^ 64 = _
    rw [displacement_linked (fits_of_inRange hrange)]
    exact target_of_offset (by omega) rfl
  sameOutside _ ha := linked_outside hemitted ha

/-- **An instruction obeys the law of a link** whatever it targeted before. -/
theorem relinkable (i : Instruction) (after : UInt32) (hemitted : i.length ≤ after.toNat) :
    (i.site after).Relinkable where
  law _ hout _ :=
    LinkLaw.of_link (linkToBinaryPos_eq i after _ _) Iff.rfl Iff.rfl
      fun hrange _ => linked_spec hemitted hout hrange
  refl _ _ _ := rfl
  trans _ _ _ h h' a ha := (h' a ha).trans (h a ha)

/-- The position an instruction was linked to can be read back. -/
theorem readsBack (i : Instruction) (after p : UInt32) (out : Output) :
    (i.site after).ReadsBack out p := by
  intro out' hlink
  rw [linkToBinaryPos_eq] at hlink
  by_cases hrange : (i.site after).inRange p
  · rw [if_neg (not_not_intro hrange), if_neg (not_not_intro trivial)] at hlink
    cases hlink
    have hdisplacement : i.displacement after.toNat
        (i.linked after.toNat (linkDelta p after) out) = linkDelta p after :=
      displacement_linked (fits_of_inRange hrange)
    have hposition : (after.toNat : ℤ) + linkDelta p after = p.toNat := by
      rw [linkDelta, add_sub_cancel]
    have hread : (if i.isShort then (after.toNat : ℤ) +
          (i.linked after.toNat (linkDelta p after) out (after.toNat - 1)).toBitVec.toInt
        else (after.toNat : ℤ) +
          (readWord (i.linked after.toNat (linkDelta p after) out) (after.toNat - 4)).toInt) =
        p.toNat := by
      rw [← hposition]
      rw [displacement] at hdisplacement
      cases hshort : i.isShort with
      | true =>
          simp only [hshort, if_true] at hdisplacement ⊢
          rw [hdisplacement]
      | false =>
          simp only [hshort, Bool.false_eq_true, if_false] at hdisplacement ⊢
          rw [hdisplacement]
    exact RelPatchObj.getLinkedBinaryPos_of_eq hread
  · rw [if_pos hrange] at hlink
    cases hlink

end Instruction

end X86_64

end WasmCompiler
