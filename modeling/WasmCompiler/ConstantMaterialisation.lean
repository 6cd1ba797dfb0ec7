import WasmCompiler.MachineType
import WasmCompiler.MoveInstructions

/-!
# Constants in Registers of AArch64

How the assembler puts a constant into a register: `MOVimm` chooses between a logical immediate
and a sequence of moves of halfwords, `MOVFloatImm` between a floating-point immediate, the zero
register and a general purpose register in between. `isImmediateEncodableInOneInstruction` tells
beforehand whether one instruction is enough.

## Main results

* `MOVimm_spec`: the sequence leaves the constant in the register.
* `MOVFloatImm_run`: the same for a floating-point register.
* `constantMaterialisation`: the sequence, the encoding of logical immediates and the test for one
  instruction.
-/

namespace WasmCompiler

open BitField LogicalImmediate Aarch64Move

namespace ConstantMaterialisation

/-! ### The integer immediate -/

/-- `IntegerImmediateEncodingKind`. -/
inductive IntegerImmediateEncodingKind where
  | LOGICAL | MOVZ | MOVN
  deriving DecidableEq, Repr

/-- `IntegerImmediateInfo`; which of the data are there depends on the kind. -/
structure IntegerImmediateInfo where
  kind : IntegerImmediateEncodingKind
  encoding : BitVec 64 := 0#64
  effectiveImmediate : BitVec 64 := 0#64
  numHalfWordsInReg : ℕ := 0
  deriving DecidableEq, Repr

/-- `getImmediateHalfword`. -/
def getImmediateHalfword (immediate : BitVec 64) (index : ℕ) : BitVec 64 :=
  (immediate >>> (index * 16)) &&& 0xFFFF#64

/-- The immediate that the width of the register leaves. -/
def effectiveImmediate (rawImmediate : BitVec 64) (is64 : Bool) : BitVec 64 :=
  if is64 then rawImmediate else rawImmediate &&& 0xFFFFFFFF#64

/-- How many halfwords are equal to a value. -/
def countHalfwords (immediate value : BitVec 64) (n : ℕ) : ℕ :=
  (List.range n).countP fun i => getImmediateHalfword immediate i = value

/-- `analyzeIntegerImmediate`. -/
def analyzeIntegerImmediate (rawImmediate : BitVec 64) (is64 : Bool) : IntegerImmediateInfo :=
  let effectiveImmediate := effectiveImmediate rawImmediate is64
  let numHalfWordsInReg := if is64 then 4 else 2
  let numZeroHalfwords := countHalfwords effectiveImmediate 0x0000#64 numHalfWordsInReg
  let numFFFFHalfwords := countHalfwords effectiveImmediate 0xFFFF#64 numHalfWordsInReg
  let moveWide : IntegerImmediateInfo :=
    { kind := if numZeroHalfwords ≥ numFFFFHalfwords then .MOVZ else .MOVN
      effectiveImmediate := effectiveImmediate
      numHalfWordsInReg := numHalfWordsInReg }
  match processLogicalImmediate effectiveImmediate is64 with
  | some logicalEncoding =>
      if numZeroHalfwords < numHalfWordsInReg - 1 ∧ numFFFFHalfwords < numHalfWordsInReg - 1 then
        { kind := .LOGICAL, encoding := logicalEncoding }
      else moveWide
  | none => moveWide

/-- `isMoveWideHalfwordWritten`. -/
def isMoveWideHalfwordWritten (kind : IntegerImmediateEncodingKind) (halfword : BitVec 64) :
    Bool :=
  let defaultHalfword := if kind = .MOVZ then 0#64 else 0xFFFF#64
  halfword != defaultHalfword

/-- The rest of the loop of `forEachMoveWideHalfword`, from the halfword `i` on with `n` halfwords
to go. The callback says whether the loop goes on. -/
def forEachMoveWideHalfwordFrom {σ : Type} (immediate : BitVec 64)
    (callback : ℕ → BitVec 64 → σ → σ × Bool) : ℕ → ℕ → σ → σ
  | 0, _, s => s
  | n + 1, i, s =>
      let (s', goOn) := callback i (getImmediateHalfword immediate i) s
      if goOn then forEachMoveWideHalfwordFrom immediate callback n (i + 1) s' else s'

/-- `forEachMoveWideHalfword`. -/
def forEachMoveWideHalfword {σ : Type} (info : IntegerImmediateInfo)
    (callback : ℕ → BitVec 64 → σ → σ × Bool) (s : σ) : σ :=
  forEachMoveWideHalfwordFrom info.effectiveImmediate callback info.numHalfWordsInReg 0 s

/-- `countMoveWideHalfwords`. -/
def countMoveWideHalfwords (info : IntegerImmediateInfo) : ℕ :=
  forEachMoveWideHalfword info (fun _ halfword count =>
    (if isMoveWideHalfwordWritten info.kind halfword then count + 1 else count, true)) 0

/-! ### The sequence for an integer -/

/-- A general purpose register that holds a value: the number 31 is the zero register or the stack
pointer. -/
def GPR : Type := {reg : BitVec 5 // reg ≠ zrOrSp}

/-- What the callback of `MOVimm` does with a halfword. The state is the sequence so far and
whether a halfword has been set. -/
def emitHalfword (is64 : Bool) (reg : BitVec 5) (info : IntegerImmediateInfo) (i : ℕ)
    (halfwordRaw : BitVec 64) (s : List (BitVec 32) × Bool) : (List (BitVec 32) × Bool) × Bool :=
  let useMovz := info.kind = .MOVZ
  let halfword : BitVec 32 := 0xFFFF#32 &&& halfwordRaw.setWidth 32
  let shift : BitVec 32 := BitVec.ofNat 32 (i * 16)
  let movk := setImm16Ols (setD (MOVK_D_imm16ols_t is64) reg) halfword shift
  if useMovz then
    let movz := setImm16Ols (setD (MOVZ_D_imm16ols_t is64) reg) halfword shift
    if isMoveWideHalfwordWritten info.kind (halfword.setWidth 64) then
      if s.2 = false then ((s.1 ++ [movz], true), true)
      else ((s.1 ++ [movk], s.2), true)
    else if info.effectiveImmediate = 0#64 then ((s.1 ++ [movz], s.2), false)
    else (s, true)
  else
    let notHalfWord : BitVec 32 := 0xFFFF#32 &&& ~~~halfword
    let movn := setImm16Ols (setD (MOVN_D_imm16ols_t is64) reg) notHalfWord shift
    if isMoveWideHalfwordWritten info.kind (halfword.setWidth 64) then
      if s.2 = false then ((s.1 ++ [movn], true), true)
      else ((s.1 ++ [movk], s.2), true)
    else if info.effectiveImmediate =
        (if is64 then 0xFFFFFFFFFFFFFFFF#64 else 0xFFFFFFFF#64) then
      ((s.1 ++ [movn], s.2), false)
    else (s, true)

/-- `MOVimm`: the words it writes. -/
def MOVimm (is64 : Bool) (reg : BitVec 5) (imm : BitVec 64) : List (BitVec 32) :=
  let info := analyzeIntegerImmediate imm is64
  if info.kind = .LOGICAL then
    [setRawImmBitmask (setD (MOV_D_bitmask_t is64) reg) (info.encoding.setWidth 32)]
  else (forEachMoveWideHalfword info (emitHalfword is64 reg info) ([], false)).1

/-! ### The floating-point immediate -/

/-- `FloatImmediateEncodingKind` with the data of each kind. -/
inductive FloatImmediateInfo where
  | ZERO
  | MODIFIED (immediate : BitVec 8)
  | GPR (effectiveImmediate : BitVec 64)
  deriving DecidableEq, Repr

/-- `analyzeFloatImmediate`. -/
def analyzeFloatImmediate (rawFloatImmediate : BitVec 64) (is64 : Bool) : FloatImmediateInfo :=
  let effectiveImmediate := effectiveImmediate rawFloatImmediate is64
  if effectiveImmediate = 0#64 then .ZERO
  else
    let bitWidth := if is64 then 64 else 32
    let exponentWidth := if is64 then 11 else 8
    let fractionStart := bitWidth - exponentWidth - 1
    let rawExponent := (effectiveImmediate >>> fractionStart) &&& ((1#64 <<< exponentWidth) - 1#64)
    let rawMantissa := effectiveImmediate &&& ((1#64 <<< fractionStart) - 1#64)
    let rawEncodedExponent := rawExponent >>> 2
    let exponentCanBeEncoded := rawEncodedExponent = 1#64 <<< (exponentWidth - 3) ∨
      rawEncodedExponent = (1#64 <<< (exponentWidth - 3)) - 1#64
    let mantissaCanBeEncoded :=
      rawMantissa = (rawMantissa >>> (fractionStart - 4)) <<< (fractionStart - 4)
    if exponentCanBeEncoded ∧ mantissaCanBeEncoded then
      let modifiedImmediate : BitVec 32 :=
        ((((effectiveImmediate >>> (fractionStart + exponentWidth)) &&& 0b1#64) <<< 7).setWidth 32
          ||| (((effectiveImmediate >>> fractionStart) &&& 0b111#64) <<< 4).setWidth 32)
          ||| ((effectiveImmediate >>> (fractionStart - 4)) &&& 0xF#64).setWidth 32
      .MODIFIED (modifiedImmediate.setWidth 8)
    else .GPR effectiveImmediate

/-- `MOVFloatImm`: the words it writes. `intermediateReg` is the register that
`tempRegManager.getTempGPR` returns. -/
def MOVFloatImm (is64 : Bool) (reg intermediateReg : BitVec 5) (rawFloatImm : BitVec 64) :
    List (BitVec 32) :=
  match analyzeFloatImmediate rawFloatImm is64 with
  | .MODIFIED immediate =>
      [setRawFMOVImm8 (setD (FMOV_D_imm8mod_t is64) reg) (immediate.setWidth 32)]
  | .ZERO => [setN (setD (FMOV_D_N is64) reg) zrOrSp]
  | .GPR effectiveImmediate =>
      MOVimm is64 intermediateReg effectiveImmediate ++
        [setN (setD (FMOV_D_N is64) reg) intermediateReg]

/-- `isImmediateEncodableInOneInstruction`. -/
def isImmediateEncodableInOneInstruction (machineType : MachineType) (rawImmediate : BitVec 64) :
    Bool :=
  let is64 := machineType.is64
  if machineType.isInt then
    let info := analyzeIntegerImmediate rawImmediate is64
    if info.kind = .LOGICAL then true else decide (countMoveWideHalfwords info ≤ 1)
  else
    match analyzeFloatImmediate rawImmediate is64 with
    | .MODIFIED _ | .ZERO => true
    | .GPR _ => false

/-! ### Halfwords -/

/-- The halfword as 16 bits. -/
def halfwordAt (imm : BitVec 64) (i : ℕ) : BitVec 16 := imm.extractLsb' (16 * i) 16

/-- A bit of a halfword. -/
theorem getLsbD_halfwordAt (imm : BitVec 64) (i k : ℕ) :
    (halfwordAt imm i).getLsbD k = (decide (k < 16) && imm.getLsbD (16 * i + k)) := by
  rw [halfwordAt, BitVec.getLsbD_extractLsb']

/-- The halfword of the source. -/
theorem getImmediateHalfword_eq (imm : BitVec 64) (i : ℕ) :
    getImmediateHalfword imm i = (halfwordAt imm i).setWidth 64 := by
  refine BitVec.eq_of_getLsbD_eq fun k hk => ?_
  have hmask : 0xFFFF#64 = lowBits 64 16 := rfl
  rw [getImmediateHalfword, hmask, BitVec.getLsbD_and, BitVec.getLsbD_ushiftRight,
    getLsbD_lowBits, BitVec.getLsbD_setWidth, getLsbD_halfwordAt, mul_comm i]
  by_cases h16 : k < 16 <;> simp [hk, h16]

/-- The halfword that the callback works with. -/
theorem halfword_eq (imm : BitVec 64) (i : ℕ) :
    0xFFFF#32 &&& (getImmediateHalfword imm i).setWidth 32 = (halfwordAt imm i).setWidth 32 := by
  refine BitVec.eq_of_getLsbD_eq fun k hk => ?_
  have hmask : 0xFFFF#32 = lowBits 32 16 := rfl
  rw [getImmediateHalfword_eq, hmask, BitVec.getLsbD_and, getLsbD_lowBits,
    BitVec.getLsbD_setWidth, BitVec.getLsbD_setWidth, BitVec.getLsbD_setWidth]
  by_cases h16 : k < 16
  · simp [hk, h16, show k < 64 by omega]
  · rw [BitVec.getLsbD_of_ge _ k (by omega)]
    simp [h16]

/-- The inverted halfword that the callback works with. -/
theorem notHalfWord_eq (h : BitVec 16) :
    (0xFFFF#32 &&& ~~~(h.setWidth 32)).setWidth 16 = ~~~h := by
  refine BitVec.eq_of_getLsbD_eq fun k hk => ?_
  have hmask : 0xFFFF#32 = lowBits 32 16 := rfl
  rw [hmask, BitVec.getLsbD_setWidth, BitVec.getLsbD_and, getLsbD_lowBits, BitVec.getLsbD_not,
    BitVec.getLsbD_setWidth, BitVec.getLsbD_not]
  simp [hk, show k < 32 by omega]

/-- The halfword that a sequence leaves out. -/
def defaultHalfword (kind : IntegerImmediateEncodingKind) : BitVec 16 :=
  if kind = .MOVZ then 0#16 else 0xFFFF#16

/-- A halfword is written unless it is the default. -/
theorem isMoveWideHalfwordWritten_eq (kind : IntegerImmediateEncodingKind) (h : BitVec 16) :
    isMoveWideHalfwordWritten kind (h.setWidth 64) = decide (h ≠ defaultHalfword kind) := by
  have hinj : ∀ d : BitVec 16, h.setWidth 64 = d.setWidth 64 ↔ h = d := by
    intro d
    refine ⟨fun heq => ?_, fun heq => by rw [heq]⟩
    have := congrArg (BitVec.setWidth 16) heq
    rwa [BitVec.setWidth_setWidth_of_le _ (by omega), BitVec.setWidth_setWidth_of_le _ (by omega),
      BitVec.setWidth_eq, BitVec.setWidth_eq] at this
  have hdefault : (if kind = .MOVZ then 0#64 else 0xFFFF#64) =
      (defaultHalfword kind).setWidth 64 := by
    rw [defaultHalfword]
    split <;> rfl
  rw [isMoveWideHalfwordWritten]
  simp only [hdefault]
  by_cases heq : h = defaultHalfword kind
  · simp [heq]
  · simp [heq, bne_iff_ne, hinj]

/-! ### What a sequence has done so far -/

/-- The value that a sequence starts from. -/
def base (kind : IntegerImmediateEncodingKind) : BitVec 64 :=
  if kind = .MOVZ then 0#64 else BitVec.allOnes 64

/-- The value after the first `i` halfwords. -/
def partialValue (is64 : Bool) (kind : IntegerImmediateEncodingKind) (imm : BitVec 64) (i : ℕ) :
    BitVec 64 :=
  toWidth is64 ((imm &&& lowBits 64 (16 * i)) ||| (base kind &&& ~~~(lowBits 64 (16 * i))))

/-- A bit of a value at the width of the instruction. -/
theorem getLsbD_toWidth (is64 : Bool) (v : BitVec 64) (k : ℕ) :
    (toWidth is64 v).getLsbD k = (v.getLsbD k && decide (k < regWidth is64)) := by
  have hw : regWidth is64 ≤ 64 := by cases is64 <;> decide
  rw [toWidth, getLsbD_element hw]

/-- A bit of the value so far. -/
theorem getLsbD_partialValue (is64 : Bool) (kind : IntegerImmediateEncodingKind)
    (imm : BitVec 64) (i k : ℕ) :
    (partialValue is64 kind imm i).getLsbD k =
      ((if k < 16 * i then imm.getLsbD k else (base kind).getLsbD k) &&
        decide (k < regWidth is64)) := by
  rw [partialValue, getLsbD_toWidth, BitVec.getLsbD_or, BitVec.getLsbD_and, BitVec.getLsbD_and,
    BitVec.getLsbD_not, getLsbD_lowBits]
  by_cases hk64 : k < 64
  · by_cases hk : k < 16 * i <;> simp [hk64, hk]
  · rw [BitVec.getLsbD_of_ge _ k (by omega), BitVec.getLsbD_of_ge _ k (by omega)]
    simp

/-- A bit of the base. -/
theorem getLsbD_base (kind : IntegerImmediateEncodingKind) {k : ℕ} (hk : k < 64) :
    (base kind).getLsbD k = decide (kind ≠ .MOVZ) := by
  rw [base]
  by_cases h : kind = .MOVZ
  · simp [h]
  · rw [if_neg h, BitVec.getLsbD_allOnes, decide_eq_true hk, decide_eq_true h]

/-- A bit of the default. -/
theorem getLsbD_defaultHalfword (kind : IntegerImmediateEncodingKind) {k : ℕ} (hk : k < 16) :
    (defaultHalfword kind).getLsbD k = decide (kind ≠ .MOVZ) := by
  have hones : (0xFFFF#16) = BitVec.allOnes 16 := rfl
  rw [defaultHalfword, hones]
  by_cases h : kind = .MOVZ
  · simp [h]
  · rw [if_neg h, BitVec.getLsbD_allOnes, decide_eq_true hk, decide_eq_true h]

/-- A halfword that is left out. -/
theorem partialValue_succ_of_default {is64 : Bool} {kind : IntegerImmediateEncodingKind}
    {imm : BitVec 64} {i : ℕ} (h : halfwordAt imm i = defaultHalfword kind) :
    partialValue is64 kind imm (i + 1) = partialValue is64 kind imm i := by
  refine BitVec.eq_of_getLsbD_eq fun k hk => ?_
  rw [getLsbD_partialValue, getLsbD_partialValue]
  by_cases hlow : k < 16 * i
  · rw [if_pos hlow, if_pos (by omega)]
  · rw [if_neg hlow]
    by_cases hin : k < 16 * (i + 1)
    · have hbit := getLsbD_halfwordAt imm i (k - 16 * i)
      rw [h, getLsbD_defaultHalfword kind (by omega),
        decide_eq_true (show k - 16 * i < 16 by omega), Bool.true_and, show 16 * i + (k - 16 * i) = k by omega] at hbit
      rw [if_pos hin, ← hbit, getLsbD_base kind hk]
    · rw [if_neg hin]

/-- A halfword that `MOVK` writes. -/
theorem partialValue_succ_of_movk (is64 : Bool) (kind : IntegerImmediateEncodingKind)
    (imm : BitVec 64) (i : ℕ) :
    toWidth is64 (insertBits (partialValue is64 kind imm i) ((halfwordAt imm i).setWidth 64)
      (16 * i) 16) = partialValue is64 kind imm (i + 1) := by
  refine BitVec.eq_of_getLsbD_eq fun k hk => ?_
  rw [getLsbD_toWidth, getLsbD_insertBits hk, getLsbD_partialValue, getLsbD_partialValue]
  by_cases hin : 16 * i ≤ k ∧ k < 16 * i + 16
  · rw [if_pos hin, if_pos (by omega), BitVec.getLsbD_setWidth, getLsbD_halfwordAt,
      decide_eq_true (show k - 16 * i < 64 by omega),
      decide_eq_true (show k - 16 * i < 16 by omega), Bool.true_and, Bool.true_and, show 16 * i + (k - 16 * i) = k by omega]
  · rw [if_neg hin, Bool.and_assoc, Bool.and_self]
    by_cases hlow : k < 16 * i
    · rw [if_pos hlow, if_pos (by omega)]
    · rw [if_neg hlow, if_neg (by omega)]

/-- The first halfword that is written, by `MOVZ` or `MOVN`. -/
theorem partialValue_succ_of_first {is64 : Bool} {kind : IntegerImmediateEncodingKind}
    {imm : BitVec 64} {i : ℕ} (h : partialValue is64 kind imm i = toWidth is64 (base kind)) :
    toWidth is64 (if kind = .MOVZ then (halfwordAt imm i).setWidth 64 <<< (16 * i)
      else ~~~((~~~halfwordAt imm i).setWidth 64 <<< (16 * i))) =
      partialValue is64 kind imm (i + 1) := by
  refine BitVec.eq_of_getLsbD_eq fun k hk => ?_
  have hbit := congrArg (BitVec.getLsbD · k) h
  simp only [getLsbD_partialValue, getLsbD_toWidth] at hbit
  rw [getLsbD_toWidth, getLsbD_partialValue]
  by_cases hin : 16 * i ≤ k ∧ k < 16 * (i + 1)
  · rw [if_pos hin.2]
    have hfield : (halfwordAt imm i).getLsbD (k - 16 * i) = imm.getLsbD k := by
      rw [getLsbD_halfwordAt, decide_eq_true (show k - 16 * i < 16 by omega), Bool.true_and,
        show 16 * i + (k - 16 * i) = k by omega]
    have h64 : k - 16 * i < 64 := by omega
    have h16 : k - 16 * i < 16 := by omega
    by_cases hkind : kind = .MOVZ
    · rw [if_pos hkind, BitVec.getLsbD_shiftLeft, BitVec.getLsbD_setWidth, hfield]
      simp [hk, h64, Nat.not_lt.mpr hin.1]
    · rw [if_neg hkind, BitVec.getLsbD_not, BitVec.getLsbD_shiftLeft, BitVec.getLsbD_setWidth,
        BitVec.getLsbD_not, hfield]
      simp [hk, h64, h16, Nat.not_lt.mpr hin.1]
  · have hrest : ((if k < 16 * (i + 1) then imm.getLsbD k else (base kind).getLsbD k) &&
        decide (k < regWidth is64)) = ((base kind).getLsbD k && decide (k < regWidth is64)) := by
      by_cases hlow : k < 16 * i
      · rw [if_pos (by omega), ← hbit, if_pos hlow]
      · rw [if_neg (by omega)]
    rw [hrest, getLsbD_base kind hk]
    by_cases hlow : k < 16 * i
    · by_cases hkind : kind = .MOVZ <;> simp [hkind, hk, hlow]
    · have hge : ∀ x : BitVec 16, x.getLsbD (k - 16 * i) = false := fun x =>
        BitVec.getLsbD_of_ge _ _ (by omega)
      by_cases hkind : kind = .MOVZ <;> simp [hkind, hk, hlow, hge]

/-! ### The loop -/

/-- Writing a register twice. -/
theorem writeSP_writeSP (regs : Registers) (rd : BitVec 5) (v v' : BitVec 64) :
    (regs.writeSP rd v).writeSP rd v' = regs.writeSP rd v' := by
  simp [Registers.writeSP]

/-- What a sequence is after the first `i` halfwords: either nothing has been written, because all
halfwords are the default, or the register has the value so far. -/
inductive Written (is64 : Bool) (reg : BitVec 5) (kind : IntegerImmediateEncodingKind)
    (imm : BitVec 64) (i : ℕ) : List (BitVec 32) × Bool → Prop where
  | nothing (h : partialValue is64 kind imm i = toWidth is64 (base kind)) :
      Written is64 reg kind imm i ([], false)
  | some {words : List (BitVec 32)} (hne : words ≠ [])
      (hrun : ∀ regs, run words regs = some (regs.writeSP reg (partialValue is64 kind imm i))) :
      Written is64 reg kind imm i (words, true)

/-- The value at which the loop stops with its first halfword. -/
def trivialValue (is64 : Bool) (kind : IntegerImmediateEncodingKind) : BitVec 64 :=
  toWidth is64 (base kind)

/-- The test of the source for that value. -/
theorem trivialValue_eq (is64 : Bool) {kind : IntegerImmediateEncodingKind} :
    trivialValue is64 kind = if kind = .MOVZ then 0#64
      else if is64 then 0xFFFFFFFFFFFFFFFF#64 else 0xFFFFFFFF#64 := by
  rw [trivialValue, base]
  split
  · cases is64 <;> rfl
  · cases is64 <;> rfl

/-- The operation of the first halfword. -/
def firstOp (kind : IntegerImmediateEncodingKind) : MoveWideOp :=
  if kind = .MOVZ then .movz else .movn

/-- The halfword field of the first instruction. -/
def firstField (kind : IntegerImmediateEncodingKind) (h : BitVec 16) : BitVec 32 :=
  if kind = .MOVZ then h.setWidth 32 else 0xFFFF#32 &&& ~~~(h.setWidth 32)

/-- The word of the first instruction. -/
def firstWord (is64 : Bool) (reg : BitVec 5) (kind : IntegerImmediateEncodingKind)
    (imm : BitVec 64) (i : ℕ) : BitVec 32 :=
  setImm16Ols (setD (moveWideTemplate (firstOp kind) is64) reg)
    (firstField kind (halfwordAt imm i)) (BitVec.ofNat 32 (i * 16))

/-- The word of a further instruction. -/
def furtherWord (is64 : Bool) (reg : BitVec 5) (imm : BitVec 64) (i : ℕ) : BitVec 32 :=
  setImm16Ols (setD (moveWideTemplate .movk is64) reg) ((halfwordAt imm i).setWidth 32)
    (BitVec.ofNat 32 (i * 16))

/-- The callback. -/
theorem emitHalfword_eq (is64 : Bool) (reg : BitVec 5) (info : IntegerImmediateInfo) (i : ℕ)
    (s : List (BitVec 32) × Bool) :
    emitHalfword is64 reg info i (getImmediateHalfword info.effectiveImmediate i) s =
      if halfwordAt info.effectiveImmediate i ≠ defaultHalfword info.kind then
        if s.2 = false then
          ((s.1 ++ [firstWord is64 reg info.kind info.effectiveImmediate i], true), true)
        else ((s.1 ++ [furtherWord is64 reg info.effectiveImmediate i], s.2), true)
      else if info.effectiveImmediate = trivialValue is64 info.kind then
        ((s.1 ++ [firstWord is64 reg info.kind info.effectiveImmediate i], s.2), false)
      else (s, true) := by
  have hwide : ((halfwordAt info.effectiveImmediate i).setWidth 32).setWidth 64 =
      (halfwordAt info.effectiveImmediate i).setWidth 64 := by
    have hlt := (halfwordAt info.effectiveImmediate i).isLt
    refine BitVec.eq_of_toNat_eq ?_
    simp only [BitVec.toNat_setWidth]
    omega
  rw [emitHalfword]
  simp only [halfword_eq, hwide, isMoveWideHalfwordWritten_eq, trivialValue_eq, firstWord,
    furtherWord, firstOp, firstField]
  by_cases hkind : info.kind = .MOVZ
  · simp [hkind, moveWideTemplate]
  · simp [hkind, moveWideTemplate]

/-- The first instruction. -/
theorem run_firstWord {is64 : Bool} {reg : BitVec 5} (hreg : reg ≠ zrOrSp)
    {kind : IntegerImmediateEncodingKind} {imm : BitVec 64} {i : ℕ}
    (hi : i < regWidth is64 / 16)
    (h : partialValue is64 kind imm i = toWidth is64 (base kind)) (regs : Registers) :
    run [firstWord is64 reg kind imm i] regs =
      some (regs.writeSP reg (partialValue is64 kind imm (i + 1))) := by
  rw [run, firstWord, decode_moveWide _ _ _ hi, Option.bind_some, run,
    ← partialValue_succ_of_first h, mul_comm 16 i]
  by_cases hkind : kind = .MOVZ
  · rw [firstOp, firstField, if_pos hkind, if_pos hkind, if_pos hkind,
      BitVec.setWidth_setWidth_of_le _ (by omega), BitVec.setWidth_eq, mul_comm i 16]
    simp [Instruction.execute, Registers.writeZR, hreg]
  · rw [firstOp, firstField, if_neg hkind, if_neg hkind, if_neg hkind, notHalfWord_eq,
      mul_comm i 16]
    simp [Instruction.execute, Registers.writeZR, hreg]

/-- A further instruction. -/
theorem run_furtherWord {is64 : Bool} {reg : BitVec 5} (hreg : reg ≠ zrOrSp)
    (kind : IntegerImmediateEncodingKind) {imm : BitVec 64} {i : ℕ}
    (hi : i < regWidth is64 / 16) (regs : Registers) :
    run [furtherWord is64 reg imm i] (regs.writeSP reg (partialValue is64 kind imm i)) =
      some (regs.writeSP reg (partialValue is64 kind imm (i + 1))) := by
  have hread : (regs.writeSP reg (partialValue is64 kind imm i)).readZR reg =
      partialValue is64 kind imm i := by
    simp [Registers.readZR, hreg, Registers.writeSP]
  rw [run, furtherWord, decode_moveWide _ _ _ hi, Option.bind_some, run,
    BitVec.setWidth_setWidth_of_le _ (by omega), BitVec.setWidth_eq,
    ← partialValue_succ_of_movk is64 kind imm i, Instruction.execute, hread,
    Registers.writeZR, if_neg hreg, writeSP_writeSP]

/-- **One halfword.** -/
theorem Written.step {is64 : Bool} {reg : BitVec 5} (hreg : reg ≠ zrOrSp)
    {info : IntegerImmediateInfo} {i : ℕ} {s : List (BitVec 32) × Bool}
    (hi : i < regWidth is64 / 16)
    (hne : info.effectiveImmediate ≠ trivialValue is64 info.kind)
    (h : Written is64 reg info.kind info.effectiveImmediate i s) :
    let r := emitHalfword is64 reg info i (getImmediateHalfword info.effectiveImmediate i) s
    r.2 = true ∧ Written is64 reg info.kind info.effectiveImmediate (i + 1) r.1 ∧
      r.1.1.length = s.1.length +
        (if isMoveWideHalfwordWritten info.kind
          (getImmediateHalfword info.effectiveImmediate i) then 1 else 0) := by
  rw [emitHalfword_eq, getImmediateHalfword_eq, isMoveWideHalfwordWritten_eq]
  by_cases hdefault : halfwordAt info.effectiveImmediate i = defaultHalfword info.kind
  · rw [if_neg (not_not_intro hdefault), if_neg hne]
    refine ⟨rfl, ?_, by simp [hdefault]⟩
    have hsame : partialValue is64 info.kind info.effectiveImmediate (i + 1) =
        partialValue is64 info.kind info.effectiveImmediate i :=
      partialValue_succ_of_default hdefault
    cases h with
    | nothing h => exact .nothing (hsame.trans h)
    | some hnonempty hrun =>
        refine .some hnonempty fun regs => ?_
        rw [hsame, hrun regs]
  · rw [if_pos hdefault]
    cases h with
    | nothing h =>
        refine ⟨rfl, .some (by simp) fun regs => ?_, by simp [hdefault]⟩
        exact run_firstWord hreg hi h regs
    | some hnonempty hrun =>
        refine ⟨rfl, .some (by simp) fun regs => ?_, by simp [hdefault]⟩
        rw [run_append, hrun regs, Option.bind_some, run_furtherWord hreg info.kind hi]

/-- The callback that counts. -/
def countHalfword (kind : IntegerImmediateEncodingKind) (_ : ℕ) (halfword : BitVec 64)
    (count : ℕ) : ℕ × Bool :=
  (if isMoveWideHalfwordWritten kind halfword then count + 1 else count, true)

/-- **All halfwords.** -/
theorem Written.loop {is64 : Bool} {reg : BitVec 5} (hreg : reg ≠ zrOrSp)
    {info : IntegerImmediateInfo} {n i : ℕ} {s : List (BitVec 32) × Bool}
    (hi : i + n = regWidth is64 / 16)
    (hne : info.effectiveImmediate ≠ trivialValue is64 info.kind)
    (h : Written is64 reg info.kind info.effectiveImmediate i s) :
    let r := forEachMoveWideHalfwordFrom info.effectiveImmediate (emitHalfword is64 reg info) n i s
    Written is64 reg info.kind info.effectiveImmediate (regWidth is64 / 16) r ∧
      r.1.length = forEachMoveWideHalfwordFrom info.effectiveImmediate (countHalfword info.kind)
        n i s.1.length := by
  induction n generalizing i s with
  | zero =>
      rw [← hi]
      exact ⟨h, rfl⟩
  | succ n ih =>
      obtain ⟨hgoOn, hstep, hlength⟩ := h.step hreg (by omega) hne
      rw [forEachMoveWideHalfwordFrom, forEachMoveWideHalfwordFrom]
      simp only [hgoOn, if_true, countHalfword]
      obtain ⟨hwritten, hcount⟩ := ih (by omega) hstep
      refine ⟨hwritten, hcount.trans ?_⟩
      rw [hlength]
      congr 1
      split <;> rfl

/-! ### The integer -/

/-- The effective immediate. -/
theorem effectiveImmediate_eq (imm : BitVec 64) (is64 : Bool) :
    effectiveImmediate imm is64 = toWidth is64 imm := by
  cases is64 with
  | true =>
      refine (BitVec.eq_of_getLsbD_eq fun k hk => ?_)
      rw [getLsbD_toWidth]
      simp [effectiveImmediate, regWidth, hk]
  | false => rfl

/-- The kind of the analysis, and its data. -/
theorem analyzeIntegerImmediate_cases (imm : BitVec 64) (is64 : Bool) :
    (∃ encoding, processLogicalImmediate (effectiveImmediate imm is64) is64 = some encoding ∧
      analyzeIntegerImmediate imm is64 = { kind := .LOGICAL, encoding := encoding }) ∨
    (∃ kind, kind ≠ .LOGICAL ∧ analyzeIntegerImmediate imm is64 =
      { kind := kind, effectiveImmediate := effectiveImmediate imm is64,
        numHalfWordsInReg := regWidth is64 / 16 }) := by
  have hn : (if is64 then 4 else 2) = regWidth is64 / 16 := by cases is64 <;> rfl
  rw [analyzeIntegerImmediate]
  simp only [hn]
  have hkind : ∀ p : Prop, [Decidable p] →
      (if p then IntegerImmediateEncodingKind.MOVZ else .MOVN) ≠ .LOGICAL := by
    intro p _
    split <;> decide
  cases hlogical : processLogicalImmediate (effectiveImmediate imm is64) is64 with
  | none => exact .inr ⟨_, hkind _, rfl⟩
  | some encoding =>
      simp only
      split
      · exact .inl ⟨encoding, rfl, rfl⟩
      · exact .inr ⟨_, hkind _, rfl⟩

/-- The value that is complete. -/
theorem partialValue_full (is64 : Bool) (kind : IntegerImmediateEncodingKind) (imm : BitVec 64) :
    partialValue is64 kind imm (regWidth is64 / 16) = toWidth is64 imm := by
  have h16 : 16 * (regWidth is64 / 16) = regWidth is64 := by cases is64 <;> rfl
  refine BitVec.eq_of_getLsbD_eq fun k _ => ?_
  rw [getLsbD_partialValue, getLsbD_toWidth, h16]
  by_cases hk : k < regWidth is64 <;> simp [hk]

/-- Truncating twice. -/
theorem toWidth_toWidth (is64 : Bool) (v : BitVec 64) :
    toWidth is64 (toWidth is64 v) = toWidth is64 v := by
  rw [toWidth, toWidth, BitVec.and_assoc, BitVec.and_self]

/-- The first halfword of the value at which the loop stops. -/
theorem halfwordAt_trivialValue (is64 : Bool) (kind : IntegerImmediateEncodingKind) :
    ∀ i < regWidth is64 / 16, halfwordAt (trivialValue is64 kind) i = defaultHalfword kind := by
  intro i hi
  refine BitVec.eq_of_getLsbD_eq fun k hk => ?_
  have hlt : 16 * i + k < regWidth is64 := by omega
  have hw : regWidth is64 ≤ 64 := by cases is64 <;> decide
  rw [getLsbD_halfwordAt, trivialValue, getLsbD_toWidth, getLsbD_base kind (by omega),
    getLsbD_defaultHalfword kind hk, decide_eq_true hk, decide_eq_true hlt, Bool.and_true,
    Bool.true_and]

/-- Counting when all halfwords are the default. -/
theorem count_of_default {kind : IntegerImmediateEncodingKind} {imm : BitVec 64} {n i : ℕ}
    {count : ℕ} (h : ∀ j, i ≤ j → j < i + n → halfwordAt imm j = defaultHalfword kind) :
    forEachMoveWideHalfwordFrom imm (countHalfword kind) n i count = count := by
  induction n generalizing i with
  | zero => rfl
  | succ n ih =>
      rw [forEachMoveWideHalfwordFrom, countHalfword, getImmediateHalfword_eq,
        isMoveWideHalfwordWritten_eq, h i (Nat.le_refl i) (by omega)]
      simpa using ih fun j h1 h2 => h j (by omega) (by omega)

/-- The callback ends the loop. -/
theorem forEachMoveWideHalfwordFrom_stop {σ : Type} {imm : BitVec 64}
    {callback : ℕ → BitVec 64 → σ → σ × Bool} {n i : ℕ} {s s' : σ} (hn : 0 < n)
    (h : callback i (getImmediateHalfword imm i) s = (s', false)) :
    forEachMoveWideHalfwordFrom imm callback n i s = s' := by
  cases n with
  | zero => omega
  | succ n => simp [forEachMoveWideHalfwordFrom, h]

/-- **The sequence of moves of halfwords.** -/
theorem moveWide_sequence {is64 : Bool} {reg : BitVec 5} (hreg : reg ≠ zrOrSp)
    (kind : IntegerImmediateEncodingKind) {imm : BitVec 64} (himm : toWidth is64 imm = imm) :
    let info : IntegerImmediateInfo :=
      { kind := kind, effectiveImmediate := imm, numHalfWordsInReg := regWidth is64 / 16 }
    let words := (forEachMoveWideHalfword info (emitHalfword is64 reg info) ([], false)).1
    (∀ regs, run words regs = some (regs.writeSP reg imm)) ∧
      words.length = max 1 (countMoveWideHalfwords info) := by
  intro info words
  have hn : 0 < regWidth is64 / 16 := by cases is64 <;> decide
  have hzero : partialValue is64 kind imm 0 = toWidth is64 (base kind) := by
    refine BitVec.eq_of_getLsbD_eq fun k _ => ?_
    rw [getLsbD_partialValue, getLsbD_toWidth, if_neg (by omega)]
  have hcount : countMoveWideHalfwords info =
      forEachMoveWideHalfwordFrom imm (countHalfword kind) (regWidth is64 / 16) 0 0 := rfl
  by_cases htrivial : imm = trivialValue is64 kind
  · -- the loop stops at the first halfword
    have hdefault := halfwordAt_trivialValue is64 kind
    rw [← htrivial] at hdefault
    have hwords : words = [firstWord is64 reg kind imm 0] := by
      have hemit := emitHalfword_eq is64 reg info 0 ([], false)
      rw [if_neg (not_not_intro (hdefault 0 hn)), if_pos htrivial] at hemit
      exact congrArg Prod.fst (forEachMoveWideHalfwordFrom_stop hn hemit)
    have hall : partialValue is64 kind imm 1 = imm := by
      rw [partialValue_succ_of_default (hdefault 0 hn), hzero]
      exact htrivial.symm
    refine ⟨fun regs => ?_, ?_⟩
    · rw [hwords, run_firstWord hreg hn hzero, hall]
    · rw [hwords, hcount, count_of_default fun j _ hj => hdefault j (by omega)]
      rfl
  · have hne : info.effectiveImmediate ≠ trivialValue is64 info.kind := htrivial
    obtain ⟨hwritten, hlength⟩ := Written.loop (n := regWidth is64 / 16) (i := 0)
      (s := ([], false)) hreg (by omega) hne (.nothing hzero)
    have hfull := partialValue_full is64 kind imm
    rw [himm] at hfull
    have hwords : words = (forEachMoveWideHalfwordFrom info.effectiveImmediate
        (emitHalfword is64 reg info) (regWidth is64 / 16) 0 ([], false)).1 := rfl
    rw [hwords]
    revert hwritten hlength
    generalize forEachMoveWideHalfwordFrom info.effectiveImmediate
        (emitHalfword is64 reg info) (regWidth is64 / 16) 0 ([], false) = r
    rintro hwritten hlength
    cases hwritten with
    | nothing h =>
        refine absurd ?_ htrivial
        rw [← hfull]
        exact h
    | @some words' hne hrun =>
        refine ⟨fun regs => ?_, ?_⟩
        · rw [hrun regs, hfull]
        · have hpos := List.length_pos_iff.mpr hne
          have hlength' : words'.length = countMoveWideHalfwords info := hlength.trans hcount.symm
          change words'.length = _
          omega

/-- **`MOVimm` leaves the constant in the register**, and the number of its instructions is what
`isImmediateEncodableInOneInstruction` looks at. -/
theorem MOVimm_spec (is64 : Bool) {reg : BitVec 5} (hreg : reg ≠ zrOrSp) (imm : BitVec 64) :
    (∀ regs, run (MOVimm is64 reg imm) regs =
      some (regs.writeSP reg (effectiveImmediate imm is64))) ∧
    ((MOVimm is64 reg imm).length = 1 ↔ (analyzeIntegerImmediate imm is64).kind = .LOGICAL ∨
      countMoveWideHalfwords (analyzeIntegerImmediate imm is64) ≤ 1) := by
  have hself : toWidth is64 (effectiveImmediate imm is64) = effectiveImmediate imm is64 := by
    rw [effectiveImmediate_eq, toWidth_toWidth]
  rcases analyzeIntegerImmediate_cases imm is64 with ⟨encoding, hlogical, hinfo⟩ |
    ⟨kind, hkind, hinfo⟩
  · obtain ⟨-, hdecode⟩ := processLogicalImmediate_decodes hlogical
    have hword := decode_orr reg hdecode
    rw [MOVimm, hinfo]
    refine ⟨fun regs => ?_, by simp⟩
    rw [if_pos rfl, run, hword, Option.bind_some, run, Instruction.execute, Registers.readZR,
      if_pos rfl, BitVec.zero_or, hself]
  · obtain ⟨hrun, hlength⟩ := moveWide_sequence hreg kind hself
    rw [MOVimm, hinfo]
    simp only [if_neg hkind]
    refine ⟨hrun, ?_⟩
    rw [hlength]
    simp only [hkind, false_or]
    omega

/-! ### The floating-point number -/

/-- The number that a floating-point immediate stands for, from sign, the low bits of the exponent
and the fraction. -/
theorem VFPExpandImm_toNat (is64 : Bool) :
    ∀ s < 2, ∀ e < 8, ∀ m < 16,
      (VFPExpandImm is64 (BitVec.ofNat 8 (s * 128 + e * 16 + m))).toNat =
        if is64 then
          s * 2 ^ 63 + (if e < 4 then 256 else 255) * 2 ^ 54 + e % 4 * 2 ^ 52 + m * 2 ^ 48
        else s * 2 ^ 31 + (if e < 4 then 32 else 31) * 2 ^ 25 + e % 4 * 2 ^ 23 + m * 2 ^ 19 := by
  cases is64 <;> decide +kernel

/-- The analysis finds the immediate of a number that one stands for. -/
theorem analyzeFloatImmediate_VFPExpandImm (is64 : Bool) (imm8 : BitVec 8) :
    analyzeFloatImmediate (VFPExpandImm is64 imm8) is64 = .MODIFIED imm8 := by
  revert imm8
  cases is64 <;> decide +kernel

/-- A field as a number. -/
theorem toNat_field (x : BitVec 64) (lo n : ℕ) (hn : n < 64) :
    ((x >>> lo) &&& ((1#64 <<< n) - 1#64)).toNat = x.toNat / 2 ^ lo % 2 ^ n := by
  have hpow : 2 ^ n < 2 ^ 64 := Nat.pow_lt_pow_right (by omega) hn
  have hpos : 0 < 2 ^ n := Nat.two_pow_pos n
  have hmask : ((1#64 <<< n) - 1#64).toNat = 2 ^ n - 1 := by
    rw [BitVec.toNat_sub, BitVec.toNat_shiftLeft, Nat.shiftLeft_eq]
    simp only [BitVec.toNat_ofNat]
    omega
  rw [BitVec.toNat_and, hmask, BitVec.toNat_ushiftRight, Nat.and_two_pow_sub_one_eq_mod,
    Nat.shiftRight_eq_div_pow]

/-- The three parts of the immediate. -/
theorem modifiedImmediate_eq (x : BitVec 64) (a b c : ℕ) :
    (((((x >>> a) &&& 0b1#64) <<< 7).setWidth 32 ||| (((x >>> b) &&& 0b111#64) <<< 4).setWidth 32)
      ||| ((x >>> c) &&& 0xF#64).setWidth 32).setWidth 8 =
      BitVec.ofNat 8 (x.toNat / 2 ^ a % 2 * 128 + x.toNat / 2 ^ b % 8 * 16 +
        x.toNat / 2 ^ c % 16) := by
  have hs : ((x >>> a) &&& 0b1#64).toNat = x.toNat / 2 ^ a % 2 := toNat_field x a 1 (by omega)
  have he : ((x >>> b) &&& 0b111#64).toNat = x.toNat / 2 ^ b % 8 := toNat_field x b 3 (by omega)
  have hm : ((x >>> c) &&& 0xF#64).toNat = x.toNat / 2 ^ c % 16 := toNat_field x c 4 (by omega)
  generalize (x >>> a) &&& 0b1#64 = s at hs ⊢
  generalize (x >>> b) &&& 0b111#64 = e at he ⊢
  generalize (x >>> c) &&& 0xF#64 = m at hm ⊢
  have hs2 : s.toNat < 2 := by omega
  have he8 : e.toNat < 8 := by omega
  have hm16 : m.toNat < 16 := by omega
  rw [← hs, ← he, ← hm]
  refine BitVec.eq_of_toNat_eq ?_
  have hor : s.toNat * 2 ^ 7 ||| e.toNat * 2 ^ 4 = 2 ^ 4 * (s.toNat * 8 + e.toNat) := by
    rw [mul_comm s.toNat, ← Nat.two_pow_add_eq_or_of_lt (by omega)]
    omega
  simp only [BitVec.toNat_setWidth, BitVec.toNat_or, BitVec.toNat_shiftLeft, Nat.shiftLeft_eq,
    BitVec.toNat_ofNat]
  rw [Nat.mod_eq_of_lt (show s.toNat * 2 ^ 7 < 2 ^ 64 by omega),
    Nat.mod_eq_of_lt (show s.toNat * 2 ^ 7 < 2 ^ 32 by omega),
    Nat.mod_eq_of_lt (show e.toNat * 2 ^ 4 < 2 ^ 64 by omega),
    Nat.mod_eq_of_lt (show e.toNat * 2 ^ 4 < 2 ^ 32 by omega),
    Nat.mod_eq_of_lt (show m.toNat < 2 ^ 32 by omega), hor,
    ← Nat.two_pow_add_eq_or_of_lt (by omega)]
  congr 1
  omega

/-- Truncating twice. -/
theorem effectiveImmediate_effectiveImmediate (raw : BitVec 64) (is64 : Bool) :
    effectiveImmediate (effectiveImmediate raw is64) is64 = effectiveImmediate raw is64 := by
  rw [effectiveImmediate_eq, effectiveImmediate_eq, toWidth_toWidth]

/-- The bounds of an effective immediate. -/
theorem effectiveImmediate_lt (raw : BitVec 64) (is64 : Bool) :
    (effectiveImmediate raw is64).toNat < 2 ^ regWidth is64 := by
  rw [effectiveImmediate_eq]
  refine Nat.lt_pow_two_of_testBit _ fun k hk => ?_
  rw [BitVec.testBit_toNat, getLsbD_toWidth, decide_eq_false (by omega), Bool.and_false]

/-- The conditions of the analysis, for a number with `f` bits of fraction and `e` bits of
exponent. -/
theorem canBeEncoded_iff {x : BitVec 64} {f e : ℕ} (hf : f < 64) (he3 : 3 ≤ e)
    (he : e < 64) :
    let rawExponent := (x >>> f) &&& ((1#64 <<< e) - 1#64)
    let rawMantissa := x &&& ((1#64 <<< f) - 1#64)
    ((rawExponent >>> 2 = 1#64 <<< (e - 3) ∨ rawExponent >>> 2 = (1#64 <<< (e - 3)) - 1#64) ∧
      rawMantissa = (rawMantissa >>> (f - 4)) <<< (f - 4)) ↔
    (x.toNat / 2 ^ f % 2 ^ e / 4 = 2 ^ (e - 3) ∨ x.toNat / 2 ^ f % 2 ^ e / 4 = 2 ^ (e - 3) - 1) ∧
      x.toNat % 2 ^ f = x.toNat % 2 ^ f / 2 ^ (f - 4) * 2 ^ (f - 4) := by
  have hexponent := toNat_field x f e he
  have hmantissa := toNat_field x 0 f hf
  rw [BitVec.ushiftRight_zero, pow_zero, Nat.div_one] at hmantissa
  have hpow : 2 ^ (e - 3) < 2 ^ 64 := Nat.pow_lt_pow_right (by omega) (by omega)
  have hpos : 0 < 2 ^ (e - 3) := Nat.two_pow_pos _
  have hone : (1#64 <<< (e - 3)).toNat = 2 ^ (e - 3) := by
    rw [BitVec.toNat_shiftLeft, Nat.shiftLeft_eq]
    simp only [BitVec.toNat_ofNat]
    omega
  have hones : ((1#64 <<< (e - 3)) - 1#64).toNat = 2 ^ (e - 3) - 1 := by
    rw [BitVec.toNat_sub, hone]
    simp only [BitVec.toNat_ofNat]
    omega
  have hmantissaLt : x.toNat % 2 ^ f / 2 ^ (f - 4) * 2 ^ (f - 4) < 2 ^ 64 :=
    ((Nat.div_mul_le_self _ _).trans (Nat.mod_le _ _)).trans_lt x.isLt
  simp only
  rw [← BitVec.toNat_inj, ← BitVec.toNat_inj, ← BitVec.toNat_inj, BitVec.toNat_ushiftRight,
    hexponent, hone, hones, BitVec.toNat_shiftLeft, BitVec.toNat_ushiftRight, hmantissa,
    Nat.shiftRight_eq_div_pow, Nat.shiftRight_eq_div_pow, Nat.shiftLeft_eq,
    Nat.mod_eq_of_lt hmantissaLt]

/-- The number of bits of the fraction. -/
def fractionBits (is64 : Bool) : ℕ := if is64 then 52 else 23

/-- The number of bits of the exponent. -/
def exponentBits (is64 : Bool) : ℕ := if is64 then 11 else 8

/-- The condition of the analysis, in numbers. -/
def CanBeEncoded (is64 : Bool) (x : ℕ) : Prop :=
  (x / 2 ^ fractionBits is64 % 2 ^ exponentBits is64 / 4 = 2 ^ (exponentBits is64 - 3) ∨
    x / 2 ^ fractionBits is64 % 2 ^ exponentBits is64 / 4 = 2 ^ (exponentBits is64 - 3) - 1) ∧
  x % 2 ^ fractionBits is64 =
    x % 2 ^ fractionBits is64 / 2 ^ (fractionBits is64 - 4) * 2 ^ (fractionBits is64 - 4)

instance (is64 : Bool) (x : ℕ) : Decidable (CanBeEncoded is64 x) :=
  inferInstanceAs (Decidable (_ ∧ _))

/-- The immediate of the analysis, in numbers. -/
def immediateOf (is64 : Bool) (x : ℕ) : BitVec 8 :=
  BitVec.ofNat 8 (x / 2 ^ (fractionBits is64 + exponentBits is64) % 2 * 128 +
    x / 2 ^ fractionBits is64 % 8 * 16 + x / 2 ^ (fractionBits is64 - 4) % 16)

/-- The analysis, in numbers. -/
theorem analyzeFloatImmediate_eq (raw : BitVec 64) (is64 : Bool) :
    analyzeFloatImmediate raw is64 =
      if effectiveImmediate raw is64 = 0#64 then .ZERO
      else if CanBeEncoded is64 (effectiveImmediate raw is64).toNat then
        .MODIFIED (immediateOf is64 (effectiveImmediate raw is64).toNat)
      else .GPR (effectiveImmediate raw is64) := by
  have hf : fractionBits is64 = (if is64 then 64 else 32) - (if is64 then 11 else 8) - 1 := by
    cases is64 <;> rfl
  have hiff := canBeEncoded_iff (x := effectiveImmediate raw is64) (f := fractionBits is64)
    (e := exponentBits is64) (by cases is64 <;> decide) (by cases is64 <;> decide)
    (by cases is64 <;> decide)
  rw [analyzeFloatImmediate]
  simp only [modifiedImmediate_eq]
  refine if_congr Iff.rfl rfl ?_
  rw [← hf]
  refine if_congr hiff rfl rfl

/-- A number that can be encoded is what the immediate stands for. -/
theorem VFPExpandImm_of_canBeEncoded {is64 : Bool} {x : BitVec 64}
    (hx : x.toNat < 2 ^ regWidth is64) (h : CanBeEncoded is64 x.toNat) :
    VFPExpandImm is64 (immediateOf is64 x.toNat) = x := by
  obtain ⟨hexponent, hmantissa⟩ := h
  refine BitVec.eq_of_toNat_eq ?_
  rw [immediateOf, VFPExpandImm_toNat is64 _ (Nat.mod_lt _ (by omega)) _ (Nat.mod_lt _ (by omega)) _
    (Nat.mod_lt _ (by omega))]
  cases is64 with
  | true =>
      simp only [regWidth, fractionBits, exponentBits, if_true, Nat.reducePow, Nat.reduceAdd,
        Nat.reduceSub] at *
      split <;> omega
  | false =>
      simp only [regWidth, fractionBits, exponentBits, Bool.false_eq_true, if_false, Nat.reducePow,
        Nat.reduceAdd, Nat.reduceSub] at *
      split <;> omega

/-- **What the analysis finds**: zero, an immediate that stands for the number, or nothing. -/
theorem analyzeFloatImmediate_spec (raw : BitVec 64) (is64 : Bool) :
    match analyzeFloatImmediate raw is64 with
    | .ZERO => effectiveImmediate raw is64 = 0#64
    | .MODIFIED imm8 => VFPExpandImm is64 imm8 = effectiveImmediate raw is64
    | .GPR effective => effective = effectiveImmediate raw is64 ∧
        effectiveImmediate raw is64 ≠ 0#64 ∧
        ∀ imm8, VFPExpandImm is64 imm8 ≠ effectiveImmediate raw is64 := by
  -- the analysis depends on the effective immediate only
  have hself : analyzeFloatImmediate (effectiveImmediate raw is64) is64 =
      analyzeFloatImmediate raw is64 := by
    rw [analyzeFloatImmediate_eq, analyzeFloatImmediate_eq,
      effectiveImmediate_effectiveImmediate]
  have hlt := effectiveImmediate_lt raw is64
  by_cases hzero : effectiveImmediate raw is64 = 0#64
  · rw [analyzeFloatImmediate_eq, if_pos hzero]
    exact hzero
  · by_cases hencoded : CanBeEncoded is64 (effectiveImmediate raw is64).toNat
    · rw [analyzeFloatImmediate_eq, if_neg hzero, if_pos hencoded]
      exact VFPExpandImm_of_canBeEncoded hlt hencoded
    · have hgpr : analyzeFloatImmediate raw is64 = .GPR (effectiveImmediate raw is64) := by
        rw [analyzeFloatImmediate_eq, if_neg hzero, if_neg hencoded]
      rw [hgpr]
      refine ⟨rfl, hzero, fun imm8 himm => ?_⟩
      rw [hgpr, ← himm, analyzeFloatImmediate_VFPExpandImm] at hself
      cases hself

/-! ### The whole -/

/-- **`MOVFloatImm` leaves the number in the floating-point register.** -/
theorem MOVFloatImm_run {is64 : Bool} (reg : BitVec 5) {intermediateReg : BitVec 5}
    (hreg : intermediateReg ≠ zrOrSp) (rawFloatImm : BitVec 64) (regs : Registers) :
    ∃ regs', run (MOVFloatImm is64 reg intermediateReg rawFloatImm) regs = some regs' ∧
      regs'.fpr = Function.update regs.fpr reg
        ((effectiveImmediate rawFloatImm is64).setWidth 128) ∧
      ∀ r, r ≠ intermediateReg → regs'.gpr r = regs.gpr r := by
  have hspec := analyzeFloatImmediate_spec rawFloatImm is64
  rw [MOVFloatImm]
  cases hinfo : analyzeFloatImmediate rawFloatImm is64 with
  | ZERO =>
      rw [hinfo] at hspec
      refine ⟨regs.writeFPR reg 0#64, ?_, ?_, fun _ _ => rfl⟩
      · simp only [run, decode_fmovRegister, Option.bind_some, Instruction.execute,
          Registers.readZR, if_pos]
        rw [toWidth, BitVec.zero_and]
      · rw [hspec]
        rfl
  | MODIFIED imm8 =>
      rw [hinfo] at hspec
      refine ⟨regs.writeFPR reg (effectiveImmediate rawFloatImm is64), ?_, rfl, fun _ _ => rfl⟩
      simp only [run, decode_fmovImmediate, Option.bind_some, Instruction.execute]
      rw [BitVec.setWidth_setWidth_of_le _ (by omega), BitVec.setWidth_eq, ← hspec]
  | GPR effective =>
      rw [hinfo] at hspec
      obtain ⟨rfl, -, -⟩ := hspec
      have hself := effectiveImmediate_effectiveImmediate rawFloatImm is64
      have hmov := (MOVimm_spec is64 hreg (effectiveImmediate rawFloatImm is64)).1 regs
      rw [hself] at hmov
      refine ⟨(regs.writeSP intermediateReg (effectiveImmediate rawFloatImm is64)).writeFPR reg
        (effectiveImmediate rawFloatImm is64), ?_, rfl, fun r hr => ?_⟩
      · rw [run_append, hmov, Option.bind_some, run, decode_fmovRegister, Option.bind_some, run,
          Instruction.execute, Registers.readZR, if_neg hreg, ← effectiveImmediate_eq]
        simp only [Registers.writeSP, Function.update_self, hself]
      · simp [Registers.writeFPR, Registers.writeSP, hr]

/-- A number that no immediate has goes through the register in between. -/
theorem MOVFloatImm_run_tenth : ∃ regs',
    run (MOVFloatImm true 3 9 0x3FB999999999999A) ⟨fun _ => 0, fun _ => 0⟩ = some regs' ∧
      regs'.fpr = Function.update (fun _ => 0) 3
        ((effectiveImmediate 0x3FB999999999999A true).setWidth 128) ∧
      ∀ r, r ≠ 9 → regs'.gpr r = 0 :=
  MOVFloatImm_run 3 (by decide) 0x3FB999999999999A ⟨fun _ => 0, fun _ => 0⟩

/-- The value of a constant: 32 bits are extended with zeros. -/
theorem effectiveImmediate_eq_extended (imm : BitVec 64) (is64 : Bool) :
    effectiveImmediate imm is64 = if is64 then imm else (imm.setWidth 32).setWidth 64 := by
  cases is64 with
  | true => rfl
  | false =>
      rw [effectiveImmediate_eq]
      refine BitVec.eq_of_getLsbD_eq fun k hk => ?_
      rw [getLsbD_toWidth, if_neg (by decide), BitVec.getLsbD_setWidth, BitVec.getLsbD_setWidth,
        decide_eq_true hk, Bool.true_and, Bool.and_comm]
      rfl

/-- **Constants in registers.** For every integer the words of `MOVimm` leave exactly the integer
in the register, 32 bits extended with zeros. `processLogicalImmediate` returns an encoding that
denotes the value whenever there is one. One instruction is promised for exactly the integers for
which `MOVimm` writes one, and for exactly the floating-point numbers that are `+0` or what the
immediate that is written stands for. -/
theorem constantMaterialisation :
    (∀ (is64 : Bool) (reg : GPR) (imm : BitVec 64) (regs : Registers),
      run (MOVimm is64 reg.1 imm) regs =
        some (regs.writeSP reg.1 (if is64 then imm else (imm.setWidth 32).setWidth 64))) ∧
    (∀ (is64 : Bool) (v : BitVec 64),
      match processLogicalImmediate v is64 with
      | some encoding => encoding.toNat < 2 ^ 13 ∧
          decodeBitMasks is64 (encoding.setWidth 13) = some v
      | none => ∀ encoding, decodeBitMasks is64 encoding ≠ some v) ∧
    (∀ (is64 : Bool) (reg : GPR) (imm : BitVec 64),
      isImmediateEncodableInOneInstruction (if is64 then .i64 else .i32) imm = true ↔
        (MOVimm is64 reg.1 imm).length = 1) ∧
    (∀ (is64 : Bool) (reg intermediateReg : BitVec 5) (raw : BitVec 64),
      isImmediateEncodableInOneInstruction (if is64 then .f64 else .f32) raw = true ↔
        effectiveImmediate raw is64 = 0#64 ∨
        ∃ imm8 : BitVec 8, VFPExpandImm is64 imm8 = effectiveImmediate raw is64 ∧
          MOVFloatImm is64 reg intermediateReg raw =
            [setRawFMOVImm8 (setD (FMOV_D_imm8mod_t is64) reg) (imm8.setWidth 32)]) := by
  refine ⟨fun is64 reg imm regs => ?_, fun is64 v => ?_, fun is64 reg imm => ?_,
    fun is64 reg intermediateReg raw => ?_⟩
  · rw [← effectiveImmediate_eq_extended]
    exact (MOVimm_spec is64 reg.2 imm).1 regs
  · cases h : processLogicalImmediate v is64 with
    | some encoding => exact processLogicalImmediate_decodes h
    | none =>
        intro encoding hdecode
        have hsome := processLogicalImmediate_complete hdecode
        rw [h] at hsome
        cases hsome
  · rw [(MOVimm_spec is64 reg.2 imm).2]
    have htype : (if is64 then MachineType.i64 else .i32).is64 = is64 ∧
        (if is64 then MachineType.i64 else .i32).isInt = true := by cases is64 <;> decide
    rw [isImmediateEncodableInOneInstruction, htype.1, htype.2, if_pos rfl]
    by_cases hkind : (analyzeIntegerImmediate imm is64).kind = .LOGICAL
    · simp [hkind]
    · simp [hkind]
  · have htype : (if is64 then MachineType.f64 else .f32).is64 = is64 ∧
        (if is64 then MachineType.f64 else .f32).isInt = false := by cases is64 <;> decide
    have hspec := analyzeFloatImmediate_spec raw is64
    rw [isImmediateEncodableInOneInstruction, htype.1, htype.2, if_neg (by decide), MOVFloatImm]
    cases hinfo : analyzeFloatImmediate raw is64 with
    | ZERO =>
        rw [hinfo] at hspec
        exact iff_of_true rfl (.inl hspec)
    | MODIFIED imm8 =>
        rw [hinfo] at hspec
        exact iff_of_true rfl (.inr ⟨imm8, hspec, rfl⟩)
    | GPR effective =>
        rw [hinfo] at hspec
        refine iff_of_false Bool.false_ne_true ?_
        rintro (hzero | ⟨imm8, himm, -⟩)
        · exact hspec.2.1 hzero
        · exact hspec.2.2 imm8 himm

end ConstantMaterialisation

end WasmCompiler
