import WasmCompiler.TriCoreCallingConvention
import WasmCompiler.TriCoreAccesses

/-!
# Parameters of Exported Functions on TriCore

`emitFunctionEntryPoint` loads the parameters of a function from the slots of a serialization
buffer to the places of the calling convention. Displacements of 64-bit values have 10 bits. If
one does not fit, it is added to the register that points to the serialization buffer, whichever
register it belongs to.

## Main results

* `emitParams_spec`: with displacements that fit every parameter is moved to its place, and
  nothing else is accessed.
* `paramsExact_iff`: loading the parameters is right exactly if the displacements of those on the
  stack fit.
-/

namespace WasmCompiler

namespace TriCore

open ByteMemory Machine

/-! ### Parameters -/

/-- `NativeABI::addrParamRegs[0]`, which points to the serialization buffer. -/
def addrParamReg : REG := .A 4

/-- The loop over the parameters. -/
structure ParamLoop where
  tracker : RegStackTracker
  serOffset : ℕ
  addedSerOffset : ℤ
  addedSPOffset : ℤ
  deriving DecidableEq, Repr

/-- `selectOffsetRegisterHelper`, with the code that it emits. -/
def selectOffsetRegisterHelper (bits : ℕ) (addedOffset currentOffsetUnsafe : ℤ) :
    List Instr × ℤ × BitVec bits :=
  if signedInRange bits currentOffsetUnsafe then
    ([], addedOffset, BitVec.ofInt bits currentOffsetUnsafe)
  else
    (addImmToReg addrParamReg (BitVec.ofInt 32 currentOffsetUnsafe) addrParamReg,
      addedOffset + currentOffsetUnsafe, 0)

/-- Load a parameter to its place, behind the code for the displacements. -/
def loadParam (is64 : Bool) (location : ArgLocation) (serDisp spDisp : BitVec (dispBits is64)) :
    List Instr :=
  match is64, location with
  | true, .reg targetReg => [.LDD_Ea_deref_Ab_off10sx targetReg addrParamReg serDisp]
  | true, .stack _ =>
      [.LDD_Ea_deref_Ab_off10sx (.D 14) addrParamReg serDisp,
        .STD_deref_Ab_off10sx_Ea .SP spDisp (.D 14)]
  | false, .reg targetReg => loadWordDRegDerefARegDisp16sx targetReg addrParamReg serDisp
  | false, .stack _ =>
      loadWordDRegDerefARegDisp16sx .D15 addrParamReg serDisp ++
        storeWordDerefARegDisp16sxDReg .D15 .SP spDisp

/-- The code for one parameter. -/
def emitParam (numGlobalsInGPR : ℕ) (imported : Bool) (stackParamWidth : ℕ)
    (paramType : MachineType) (loop : ParamLoop) : List Instr × ParamLoop :=
  let bits := dispBits paramType.is64
  let (location, tracker) :=
    argLocation numGlobalsInGPR imported stackParamWidth paramType loop.tracker
  let (serCode, addedSerOffset, serDisp) :=
    selectOffsetRegisterHelper bits loop.addedSerOffset (loop.serOffset - loop.addedSerOffset)
  let (spCode, addedSPOffset, spDisp) :=
    match location with
    | .reg _ => ([], loop.addedSPOffset, (0 : BitVec bits))
    | .stack offsetFromSP =>
        selectOffsetRegisterHelper bits loop.addedSPOffset (offsetFromSP - loop.addedSPOffset)
  (serCode ++ (spCode ++ loadParam paramType.is64 location serDisp spDisp),
    ⟨tracker, loop.serOffset + 8, addedSerOffset, addedSPOffset⟩)

/-- The code for the parameters from one on. -/
def emitParamsFrom (numGlobalsInGPR : ℕ) (imported : Bool) (stackParamWidth : ℕ) :
    ParamLoop → List MachineType → List Instr
  | _, [] => []
  | loop, paramType :: paramTypes =>
      let (code, loop') := emitParam numGlobalsInGPR imported stackParamWidth paramType loop
      code ++ emitParamsFrom numGlobalsInGPR imported stackParamWidth loop' paramTypes

/-- The code for the parameters. -/
def emitParams (numGlobalsInGPR : ℕ) (imported : Bool) (paramTypes : List MachineType) :
    List Instr :=
  emitParamsFrom numGlobalsInGPR imported
    (getStackParamWidth numGlobalsInGPR imported paramTypes) ⟨.initial, 0, 0, 0⟩ paramTypes

/-! ### What the pieces of code do -/

/-- The value at a place. -/
def argValue (sp : BitVec 32) (m : Machine) (p : MachineType × ArgLocation) : Word :=
  match p.2 with
  | .reg r => regValue m p.1.is64 r
  | .stack offset => loadValue m p.1.is64 (sp + BitVec.ofNat 32 offset)

/-- The size of an access to a value. -/
def accessSize (is64 : Bool) : ℕ := if is64 then 8 else 4

/-- The registers for the data on the way. -/
def DataScratch (r : REG) : Prop := r = .D 14 ∨ r = .D 15

/-- The size of an access is the width on the stack. -/
theorem accessSize_eq {type : MachineType} (h : type ≠ .invalid) :
    accessSize type.is64 = widthInStack type := by
  cases type with
  | invalid => exact absurd rfl h
  | i32 | i64 | f32 | f64 => rfl

/-- A field that is zero adds nothing. -/
theorem add_signExtend_zero_field (bits : ℕ) (a : BitVec 32) :
    a + (0 : BitVec bits).signExtend 32 = a :=
  add_signExtend_zero a rfl

/-- **Selecting an offset** of the register that points to the buffer. -/
theorem selectOffsetRegisterHelper_spec {bits : ℕ} (hbits : 0 < bits) (hle : bits ≤ 32)
    (added current : ℤ) (m : Machine) :
    let result := selectOffsetRegisterHelper bits added current
    let m' := execAll result.1 m
    m'.regs addrParamReg + result.2.2.signExtend 32 =
        m.regs addrParamReg + BitVec.ofInt 32 current ∧
      m'.regs addrParamReg = m.regs addrParamReg + BitVec.ofInt 32 (result.2.1 - added) ∧
      m.Changes (· = addrParamReg) NoBytes m' ∧ accessesAll result.1 m = [] := by
  simp only [selectOffsetRegisterHelper]
  split
  · case _ hrange =>
      refine ⟨?_, ?_, .refl _ _ m, rfl⟩
      · rw [signExtend_ofInt hbits hle hrange]
        rfl
      · rw [Int.sub_self]
        exact (BitVec.add_zero _).symm
  · have hadd := execAll_addImmToReg addrParamReg (BitVec.ofInt 32 current) addrParamReg m
    have hreg := congrFun hadd.regs addrParamReg
    rw [Function.update_self] at hreg
    refine ⟨?_, ?_, hadd.changes, accessesAll_addImmToReg _ _ _ m⟩
    · rw [add_signExtend_zero_field, hreg]
    · rw [hreg, add_sub_cancel_left]

/-- A value goes to a place: what is written besides it is only scratch registers. -/
structure GoesTo (is64 : Bool) (location : ArgLocation) (source target : BitVec 32)
    (m m' : Machine) : Prop where
  value : (match location with
    | .reg r => regValue m' is64 r
    | .stack _ => loadValue m' is64 target) = loadValue m is64 source
  regs : ∀ r, ¬ DataScratch r →
    (∀ r', location = .reg r' → r ≠ r' ∧ (is64 = true → r ≠ r'.getOtherExtReg)) →
    m'.regs r = m.regs r
  mem : ∀ x, (∀ offset, location = .stack offset → ¬ InBlock target (accessSize is64) x) →
    m'.mem x = m.mem x

/-- The value of a pair of registers. -/
theorem regValue_pair (m : Machine) (r : REG) :
    regValue m true r = m.regs r.getOtherExtReg ++ m.regs r := rfl

/-- The value of a register. -/
theorem regValue_word (m : Machine) (r : REG) : regValue m false r = (m.regs r).setWidth 64 := rfl

/-- A value of two words. -/
theorem loadValue_pair (m : Machine) (a : BitVec 32) :
    loadValue m true a = m.load (a + 4) ++ m.load a := rfl

/-- A value of one word. -/
theorem loadValue_word (m : Machine) (a : BitVec 32) :
    loadValue m false a = (m.load a).setWidth 64 := rfl

/-- Two words go to a pair of registers. -/
theorem goesTo_pair_reg (targetReg base : REG) (disp : BitVec 10) (target : BitVec 32)
    (m : Machine) :
    GoesTo true (.reg targetReg) (m.regs base + disp.signExtend 32) target m
      ((Instr.LDD_Ea_deref_Ab_off10sx targetReg base disp).exec m) := by
  let source := m.regs base + disp.signExtend 32
  obtain ⟨hlow, hhigh⟩ := m.setPair_regs targetReg (m.load source) (m.load (source + 4))
  refine ⟨?_, fun r _ hr => ?_, fun _ _ => rfl⟩
  · change regValue (m.setPair targetReg (m.load source) (m.load (source + 4))) true targetReg =
      loadValue m true source
    rw [regValue_pair, loadValue_pair, hlow, hhigh]
  · obtain ⟨hne, hne'⟩ := hr targetReg rfl
    exact (setPair_changes m targetReg _ _).regs r (not_or.mpr ⟨hne, hne' rfl⟩)

/-- Two words go to the memory, through the scratch registers. -/
theorem goesTo_pair_stack (srcBase dstBase : REG) (hbase : dstBase ≠ .D 14 ∧ dstBase ≠ .D 15)
    (srcDisp dstDisp : BitVec 10) (offset : ℕ) (m : Machine) :
    GoesTo true (.stack offset) (m.regs srcBase + srcDisp.signExtend 32)
        (m.regs dstBase + dstDisp.signExtend 32) m
        (execAll [.LDD_Ea_deref_Ab_off10sx (.D 14) srcBase srcDisp,
          .STD_deref_Ab_off10sx_Ea dstBase dstDisp (.D 14)] m) ∧
      accessesAll [.LDD_Ea_deref_Ab_off10sx (.D 14) srcBase srcDisp,
          .STD_deref_Ab_off10sx_Ea dstBase dstDisp (.D 14)] m =
        [⟨false, m.regs srcBase + srcDisp.signExtend 32, 8⟩,
          ⟨true, m.regs dstBase + dstDisp.signExtend 32, 8⟩] := by
  let source := m.regs srcBase + srcDisp.signExtend 32
  let target := m.regs dstBase + dstDisp.signExtend 32
  let m1 := m.setPair (.D 14) (m.load source) (m.load (source + 4))
  obtain ⟨hlow, hhigh⟩ := m.setPair_regs (.D 14) (m.load source) (m.load (source + 4))
  have hkept : m1.regs dstBase = m.regs dstBase :=
    (setPair_changes m (.D 14) _ _).regs dstBase (not_or.mpr hbase)
  have hexec : execAll [.LDD_Ea_deref_Ab_off10sx (.D 14) srcBase srcDisp,
      .STD_deref_Ab_off10sx_Ea dstBase dstDisp (.D 14)] m =
      m1.storePair target (m.load source) (m.load (source + 4)) := by
    change m1.storePair (m1.regs dstBase + dstDisp.signExtend 32) (m1.regs (.D 14))
      (m1.regs (REG.D 14).getOtherExtReg) = _
    rw [hkept, hlow, hhigh]
  obtain ⟨hlow', hhigh'⟩ := load_storePair m1 target (m.load source) (m.load (source + 4))
  refine ⟨⟨?_, fun r hr _ => ?_, fun x hx => ?_⟩, ?_⟩
  · rw [hexec]
    change loadValue (m1.storePair target (m.load source) (m.load (source + 4))) true target =
      loadValue m true source
    rw [loadValue_pair, loadValue_pair, hlow', hhigh']
  · rw [hexec]
    exact (setPair_changes m (.D 14) _ _).regs r hr
  · rw [hexec]
    exact (storePair_changes m1 target _ _).mem x (hx offset rfl)
  · change [Access.mk false source 8,
      Access.mk true (m1.regs dstBase + dstDisp.signExtend 32) 8] = _
    rw [hkept]

/-- A word goes to a register. -/
theorem goesTo_word_reg (targetReg base : REG) (hbase : base ≠ .A 15) (disp : BitVec 16)
    (target : BitVec 32) (m : Machine) :
    GoesTo false (.reg targetReg) (m.regs base + disp.signExtend 32) target m
      (execAll (loadWordDRegDerefARegDisp16sx targetReg base disp) m) := by
  have hload : m.Sets targetReg _ _ := execAll_loadWordDRegDerefARegDisp16sx hbase disp m
  refine ⟨?_, fun r _ hr => hload.changes.regs r (hr targetReg rfl).1,
    fun _ _ => congrFun hload.mem _⟩
  dsimp only
  rw [regValue_word, loadValue_word, hload.regs, Function.update_self]

/-- A word goes to the memory, through a scratch register. -/
theorem goesTo_word_stack (srcBase dstBase : REG) (hsrc : srcBase ≠ .A 15) (hdst : dstBase ≠ .D15)
    (srcDisp dstDisp : BitVec 16) (offset : ℕ) (m : Machine) :
    GoesTo false (.stack offset) (m.regs srcBase + srcDisp.signExtend 32)
        (m.regs dstBase + dstDisp.signExtend 32) m
        (execAll (loadWordDRegDerefARegDisp16sx .D15 srcBase srcDisp ++
          storeWordDerefARegDisp16sxDReg .D15 dstBase dstDisp) m) ∧
      accessesAll (loadWordDRegDerefARegDisp16sx .D15 srcBase srcDisp ++
          storeWordDerefARegDisp16sxDReg .D15 dstBase dstDisp) m =
        [⟨false, m.regs srcBase + srcDisp.signExtend 32, 4⟩,
          ⟨true, m.regs dstBase + dstDisp.signExtend 32, 4⟩] := by
  have hload : m.Sets .D15 _ _ := execAll_loadWordDRegDerefARegDisp16sx hsrc srcDisp m
  let m1 := execAll (loadWordDRegDerefARegDisp16sx .D15 srcBase srcDisp) m
  have hstore := execAll_storeWordDerefARegDisp16sxDReg .D15 dstBase dstDisp m1
  have hkept : m1.regs dstBase = m.regs dstBase := hload.changes.regs dstBase hdst
  have hvalue := congrFun hload.regs REG.D15
  rw [Function.update_self] at hvalue
  rw [hkept] at hstore
  refine ⟨⟨?_, fun r hr _ => ?_, fun x hx => ?_⟩, ?_⟩
  · dsimp only
    rw [execAll_append, loadValue_word, loadValue_word, Machine.load, hstore.mem,
      ByteMemory.readWord_storeWord]
    exact congrArg (BitVec.setWidth 64) hvalue
  · rw [execAll_append, hstore.regs]
    exact hload.changes.regs r fun heq => hr (.inr heq)
  · rw [execAll_append, hstore.mem]
    exact (storeWord_of_not_inBlock (hx offset rfl)).trans (congrFun hload.mem x)
  · rw [accessesAll_append, accessesAll_loadWordDRegDerefARegDisp16sx,
      accessesAll_storeWordDerefARegDisp16sxDReg]
    change [_, Access.mk true (m1.regs dstBase + dstDisp.signExtend 32) 4] = _
    rw [hkept]

/-- The accesses of moving a value between a slot and a place. -/
def slotAccesses (is64 : Bool) (location : ArgLocation) (source target : BitVec 32) :
    List Access :=
  ⟨false, source, accessSize is64⟩ ::
    (match location with
      | .reg _ => []
      | .stack _ => [⟨true, target, accessSize is64⟩])

/-- **Loading a parameter.** -/
theorem loadParam_spec (is64 : Bool) (location : ArgLocation)
    (serDisp spDisp : BitVec (dispBits is64)) (m : Machine) :
    let source := m.regs addrParamReg + serDisp.signExtend 32
    let target := m.regs .SP + spDisp.signExtend 32
    GoesTo is64 location source target m (execAll (loadParam is64 location serDisp spDisp) m) ∧
      accessesAll (loadParam is64 location serDisp spDisp) m =
        slotAccesses is64 location source target := by
  cases is64 with
  | true =>
      cases location with
      | reg targetReg => exact ⟨goesTo_pair_reg targetReg addrParamReg serDisp _ m, rfl⟩
      | stack offset =>
          exact goesTo_pair_stack addrParamReg .SP (by decide) serDisp spDisp offset m
  | false =>
      cases location with
      | reg targetReg =>
          exact ⟨goesTo_word_reg targetReg addrParamReg (by decide) serDisp _ m,
            accessesAll_loadWordDRegDerefARegDisp16sx targetReg addrParamReg serDisp m⟩
      | stack offset =>
          exact goesTo_word_stack addrParamReg .SP (by decide) (by decide) serDisp spDisp offset m

/-! ### Loading the parameters -/

/-- The address of a place on the stack. -/
def placeAddress (sp : BitVec 32) : ArgLocation → BitVec 32
  | .reg _ => sp
  | .stack offset => sp + BitVec.ofNat 32 offset

/-- The bytes of a place on the stack. -/
def PlaceByte (sp : BitVec 32) (p : MachineType × ArgLocation) (x : BitVec 32) : Prop :=
  match p.2 with
  | .reg _ => False
  | .stack offset => InBlock (sp + BitVec.ofNat 32 offset) (accessSize p.1.is64) x

/-- The displacement of a place on the stack fits. -/
def OffsetFits (p : MachineType × ArgLocation) : Prop :=
  match p.2 with
  | .reg _ => True
  | .stack offset => signedInRange (dispBits p.1.is64) offset = true

/-- The registers in the loop over the parameters. -/
structure ParamLoop.Points (loop : ParamLoop) (ser sp : BitVec 32) (m : Machine) : Prop where
  ser : m.regs addrParamReg = ser + BitVec.ofInt 32 loop.addedSerOffset
  sp : m.regs .SP = sp

/-- Execution moved a value to its place. -/
structure Placed (sp source : BitVec 32) (p : MachineType × ArgLocation) (m m' : Machine) :
    Prop where
  value : argValue sp m' p = loadValue m p.1.is64 source
  regs : ∀ r, ¬ DataScratch r → r ≠ addrParamReg → r ∉ p.2.regs p.1 → m'.regs r = m.regs r
  mem : ∀ x, ¬ PlaceByte sp p x → m'.mem x = m.mem x

variable {numGlobalsInGPR : ℕ} {imported : Bool} {stackParamWidth : ℕ} {ser sp : BitVec 32}

/-- An offset that is selected without code. -/
theorem selectOffsetRegisterHelper_of_fits {bits : ℕ} {offset : ℕ}
    (h : signedInRange bits offset = true) :
    selectOffsetRegisterHelper bits 0 (offset - 0) = ([], 0, BitVec.ofInt bits offset) := by
  rw [Int.sub_zero, selectOffsetRegisterHelper, if_pos h]

/-- The address of the slot. -/
theorem ser_address {loop : ParamLoop} {m : Machine} (h : loop.Points ser sp m) :
    m.regs addrParamReg + BitVec.ofInt 32 (loop.serOffset - loop.addedSerOffset) =
      ser + BitVec.ofNat 32 loop.serOffset := by
  rw [h.ser, BitVec.add_assoc, ← BitVec.ofInt_add, add_sub_cancel, BitVec.ofInt_natCast]

/-- A register that is not one of a place. -/
theorem ne_of_not_mem_regs {type : MachineType} {r r' : REG}
    (h : r ∉ (ArgLocation.reg r').regs type) :
    r ≠ r' ∧ (type.is64 = true → r ≠ r'.getOtherExtReg) := by
  rw [ArgLocation.regs, halves] at h
  split at h
  · simp only [List.mem_cons, List.not_mem_nil, or_false, not_or] at h
    exact ⟨h.1, fun _ => h.2⟩
  · case _ h64 => exact ⟨List.ne_of_not_mem_cons h, fun h64' => absurd h64' h64⟩

/-- **One parameter** is moved to its place if its displacement fits. -/
theorem emitParam_spec {paramType : MachineType} {loop : ParamLoop} {m : Machine}
    (hpoints : loop.Points ser sp m) (hadded : loop.addedSPOffset = 0)
    (hfits : OffsetFits (paramType,
      (argLocation numGlobalsInGPR imported stackParamWidth paramType loop.tracker).1))
    (hdata : ∀ r ∈ (argLocation numGlobalsInGPR imported stackParamWidth paramType
      loop.tracker).1.regs paramType, r.isDATA = true) :
    let place := argLocation numGlobalsInGPR imported stackParamWidth paramType loop.tracker
    let result := emitParam numGlobalsInGPR imported stackParamWidth paramType loop
    let source := ser + BitVec.ofNat 32 loop.serOffset
    Placed sp source (paramType, place.1) m (execAll result.1 m) ∧
      accessesAll result.1 m =
        slotAccesses paramType.is64 place.1 source (placeAddress sp place.1) ∧
      result.2.Points ser sp (execAll result.1 m) ∧ result.2.addedSPOffset = 0 ∧
      result.2.serOffset = loop.serOffset + 8 ∧ result.2.tracker = place.2 := by
  obtain ⟨hbits, hle⟩ : 0 < dispBits paramType.is64 ∧ dispBits paramType.is64 ≤ 32 := by
    cases paramType.is64 <;> decide
  let bits := dispBits paramType.is64
  obtain ⟨haddress, hreg, hchanges, haccesses⟩ := selectOffsetRegisterHelper_spec hbits hle
    loop.addedSerOffset (loop.serOffset - loop.addedSerOffset) m
  rw [ser_address hpoints] at haddress
  rw [emitParam]
  generalize argLocation numGlobalsInGPR imported stackParamWidth paramType loop.tracker = place
    at hfits hdata ⊢
  obtain ⟨location, tracker⟩ := place
  generalize selectOffsetRegisterHelper (dispBits paramType.is64) loop.addedSerOffset
    (loop.serOffset - loop.addedSerOffset) = ser' at haddress hreg hchanges haccesses ⊢
  obtain ⟨serCode, addedSerOffset, serDisp⟩ := ser'
  dsimp only at haddress hreg hchanges haccesses ⊢
  have hsp : (execAll serCode m).regs .SP = sp :=
    (hchanges.regs .SP (by decide)).trans hpoints.sp
  have hser : (execAll serCode m).regs addrParamReg = ser + BitVec.ofInt 32 addedSerOffset := by
    rw [hreg, hpoints.ser, BitVec.add_assoc, ← BitVec.ofInt_add, add_sub_cancel]
  have hload : ∀ a, loadValue (execAll serCode m) paramType.is64 a =
      loadValue m paramType.is64 a := fun a => by
    rw [loadValue, loadValue, hchanges.load, hchanges.load]
  have hnot : ∀ r : REG, r.isDATA = false → r ∉ location.regs paramType := fun r hr hin => by
    rw [hdata r hin] at hr
    cases hr
  cases location with
  | reg targetReg =>
      obtain ⟨hgoes, htrace⟩ := loadParam_spec paramType.is64 (.reg targetReg) serDisp 0
        (execAll serCode m)
      rw [haddress] at hgoes htrace
      dsimp only [List.nil_append]
      have hkept : ∀ r, ¬ DataScratch r → r ∉ (ArgLocation.reg targetReg).regs paramType →
          (execAll (loadParam paramType.is64 (.reg targetReg) serDisp 0)
            (execAll serCode m)).regs r = (execAll serCode m).regs r := fun r hr hin =>
        hgoes.regs r hr fun r' hr' => by
          cases hr'
          exact ne_of_not_mem_regs hin
      rw [execAll_append, accessesAll_append, haccesses, htrace]
      refine ⟨⟨?_, fun r hr hne hin => (hkept r hr hin).trans (hchanges.regs r hne), fun x _ => ?_⟩,
        rfl, ⟨?_, ?_⟩, hadded, rfl, rfl⟩
      · exact hgoes.value.trans (hload _)
      · exact (hgoes.mem x (by simp)).trans (hchanges.mem x id)
      · exact (hkept addrParamReg (by simp [DataScratch, addrParamReg]) (hnot _ rfl)).trans hser
      · exact (hkept .SP (by simp [DataScratch, REG.SP]) (hnot _ rfl)).trans hsp
  | stack offset =>
      have hfits' : signedInRange (dispBits paramType.is64) offset = true := hfits
      dsimp only
      rw [hadded, selectOffsetRegisterHelper_of_fits hfits']
      dsimp only [List.nil_append]
      obtain ⟨hgoes, htrace⟩ := loadParam_spec paramType.is64 (.stack offset) serDisp
        (BitVec.ofInt (dispBits paramType.is64) offset) (execAll serCode m)
      have htarget : sp + (BitVec.ofInt (dispBits paramType.is64) (offset : ℤ)).signExtend 32 =
          sp + BitVec.ofNat 32 offset := by
        rw [signExtend_ofInt hbits hle hfits', BitVec.ofInt_natCast]
      rw [haddress, hsp, htarget] at hgoes htrace
      have hkept : ∀ r, ¬ DataScratch r →
          (execAll (loadParam paramType.is64 (.stack offset) serDisp
            (BitVec.ofInt (dispBits paramType.is64) offset)) (execAll serCode m)).regs r =
            (execAll serCode m).regs r := fun r hr => hgoes.regs r hr (by simp)
      rw [execAll_append, accessesAll_append, haccesses, htrace]
      refine ⟨⟨?_, fun r hr hne _ => (hkept r hr).trans (hchanges.regs r hne), fun x hx => ?_⟩,
        rfl, ⟨?_, ?_⟩, rfl, rfl, rfl⟩
      · exact hgoes.value.trans (hload _)
      · refine (hgoes.mem x fun offset' hoffset => ?_).trans (hchanges.mem x id)
        exact hx
      · exact (hkept addrParamReg (by simp [DataScratch, addrParamReg])).trans hser
      · exact (hkept .SP (by simp [DataScratch, REG.SP])).trans hsp

/-- The type at a place. -/
theorem type_of_mem_locations
    {place : MachineType → RegStackTracker → ArgLocation × RegStackTracker}
    {tracker : RegStackTracker} {types : List MachineType} {p : MachineType × ArgLocation}
    (h : p ∈ locations place tracker types) : p.1 ∈ types := by
  rw [← locations_map_fst place tracker types]
  exact List.mem_map_of_mem h

/-- The bytes that a value has at an address. -/
theorem loadValue_congr {is64 : Bool} {a : BitVec 32} {m m' : Machine}
    (h : ∀ x, InBlock a (accessSize is64) x → m'.mem x = m.mem x) :
    loadValue m' is64 a = loadValue m is64 a := by
  cases is64 with
  | false =>
      rw [loadValue_word, loadValue_word]
      exact congrArg _ (ByteMemory.readWord_congr h)
  | true =>
      rw [loadValue_pair, loadValue_pair]
      congr 1
      · exact ByteMemory.readWord_congr fun x hx => h x (inBlock_of_add_four hx)
      · exact ByteMemory.readWord_congr fun x hx => h x (lt_of_lt_of_le hx (by decide))

/-- Blocks at different offsets, without an overflow. -/
theorem disjoint_of_offsets {a : BitVec 32} {i j n n' : ℕ} (h : i + n ≤ j ∨ j + n' ≤ i)
    (hi : i + n ≤ 2 ^ 32) (hj : j + n' ≤ 2 ^ 32) :
    ByteMemory.Disjoint (a + BitVec.ofNat 32 i) n (a + BitVec.ofNat 32 j) n' := by
  intro x hx hx'
  obtain ⟨k, hk, rfl⟩ := inBlock_iff.mp hx
  obtain ⟨k', hk', heq⟩ := inBlock_iff.mp hx'
  rw [BitVec.add_assoc, BitVec.add_assoc, ← BitVec.ofNat_add, ← BitVec.ofNat_add] at heq
  have hnat := congrArg BitVec.toNat ((BitVec.add_right_inj a).mp heq)
  rw [BitVec.toNat_ofNat, BitVec.toNat_ofNat, Nat.mod_eq_of_lt (by omega),
    Nat.mod_eq_of_lt (by omega)] at hnat
  omega

/-- Execution moved values from slots one behind the other to their places. -/
structure PlacedAll (sp ser : BitVec 32) (serOffset : ℕ) (ps : List (MachineType × ArgLocation))
    (m m' : Machine) : Prop where
  values : ∀ (i : ℕ) (p : MachineType × ArgLocation), ps[i]? = some p →
    argValue sp m' p = loadValue m p.1.is64 (ser + BitVec.ofNat 32 (serOffset + 8 * i))
  regs : ∀ r, ¬ DataScratch r → r ≠ addrParamReg → (∀ p ∈ ps, r ∉ p.2.regs p.1) →
    m'.regs r = m.regs r
  mem : ∀ x, (∀ p ∈ ps, ¬ PlaceByte sp p x) → m'.mem x = m.mem x

/-- A place that the code of a call does not need, inside the width that is reserved on the
stack. -/
def Reserved (stackWidth : ℕ) (p : MachineType × ArgLocation) : Prop :=
  (∀ r ∈ p.2.regs p.1, r.isDATA = true ∧ ¬ DataScratch r) ∧
    ∀ offset, p.2 = .stack offset → offset + accessSize p.1.is64 ≤ stackWidth

/-- The value at a place is kept if its registers and bytes are. -/
theorem argValue_congr {p : MachineType × ArgLocation} {m m' : Machine}
    (hregs : ∀ r ∈ p.2.regs p.1, m'.regs r = m.regs r)
    (hmem : ∀ x, PlaceByte sp p x → m'.mem x = m.mem x) :
    argValue sp m' p = argValue sp m p := by
  obtain ⟨type, r | offset⟩ := p
  · change regValue m' type.is64 r = regValue m type.is64 r
    cases h64 : type.is64 with
    | false =>
        rw [regValue_word, regValue_word, hregs r (by simp [ArgLocation.regs, halves, h64])]
    | true =>
        rw [regValue_pair, regValue_pair, hregs r (by simp [ArgLocation.regs, halves, h64]),
          hregs r.getOtherExtReg (by simp [ArgLocation.regs, halves, h64])]
  · exact loadValue_congr hmem

/-- Places that are separate have no common register. -/
theorem not_mem_regs_of_separate {p q : MachineType × ArgLocation} (h : ArgLocation.Separate p q)
    {r : REG} (hr : r ∈ p.2.regs p.1) : r ∉ q.2.regs q.1 := by
  obtain ⟨type, r' | offset⟩ := p
  · obtain ⟨type', r'' | offset'⟩ := q
    · exact h r hr
    · exact List.not_mem_nil
  · exact absurd hr List.not_mem_nil

/-- Places that are separate have no common byte. -/
theorem not_placeByte_of_separate {stackWidth : ℕ} (hwidth : stackWidth ≤ 2 ^ 32)
    {p q : MachineType × ArgLocation} (h : ArgLocation.Separate p q) (hp : Reserved stackWidth p)
    (hq : Reserved stackWidth q) (hptype : p.1 ≠ .invalid) (hqtype : q.1 ≠ .invalid)
    {x : BitVec 32} (hx : PlaceByte sp p x) : ¬ PlaceByte sp q x := by
  obtain ⟨type, r | offset⟩ := p
  · exact hx.elim
  · obtain ⟨type', r' | offset'⟩ := q
    · exact id
    · have hpend := hp.2 offset rfl
      have hqend := hq.2 offset' rfl
      have hsizes : accessSize type.is64 = widthInStack type := accessSize_eq hptype
      have hsizes' : accessSize type'.is64 = widthInStack type' := accessSize_eq hqtype
      dsimp only [ArgLocation.Separate] at h
      rw [← hsizes, ← hsizes'] at h
      exact disjoint_of_offsets h (hpend.trans hwidth) (hqend.trans hwidth) x hx

/-- The bytes of a place are on the stack. -/
theorem inBlock_of_placeByte {stackWidth : ℕ} {p : MachineType × ArgLocation}
    (hp : Reserved stackWidth p) {x : BitVec 32} (hx : PlaceByte sp p x) :
    InBlock sp stackWidth x := by
  obtain ⟨type, r | offset⟩ := p
  · exact hx.elim
  · exact hx.of_add (hp.2 offset rfl)

/-- **One value behind another**: a value stays at its place while the others are moved, and
their slots are still as they were. -/
theorem PlacedAll.cons {stackWidth serWidth serOffset : ℕ} (hwidth : stackWidth ≤ 2 ^ 32)
    (hdisjoint : ByteMemory.Disjoint ser serWidth sp stackWidth)
    {p : MachineType × ArgLocation} {ps : List (MachineType × ArgLocation)} {m m1 m' : Machine}
    (h : Placed sp (ser + BitVec.ofNat 32 serOffset) p m m1)
    (hrest : PlacedAll sp ser (serOffset + 8) ps m1 m')
    (hseparate : ∀ q ∈ ps, ArgLocation.Separate p q)
    (hreserved : ∀ q ∈ p :: ps, Reserved stackWidth q)
    (htypes : ∀ q ∈ p :: ps, q.1 ≠ .invalid)
    (hslots : serOffset + 8 * (ps.length + 1) ≤ serWidth) :
    PlacedAll sp ser serOffset (p :: ps) m m' := by
  have hp := hreserved p List.mem_cons_self
  have hkept : argValue sp m' p = argValue sp m1 p := by
    refine argValue_congr (fun r hr => ?_) fun x hx => ?_
    · obtain ⟨hdata, hscratch⟩ := hp.1 r hr
      refine hrest.regs r hscratch ?_ fun q hq => not_mem_regs_of_separate (hseparate q hq) hr
      rintro rfl
      exact absurd hdata (by decide)
    · exact hrest.mem x fun q hq => not_placeByte_of_separate hwidth (hseparate q hq) hp
        (hreserved q (List.mem_cons_of_mem p hq)) (htypes p List.mem_cons_self)
        (htypes q (List.mem_cons_of_mem p hq)) hx
  refine ⟨fun i q hq => ?_, fun r hscratch hr hregs => ?_, fun x hx => ?_⟩
  · cases i with
    | zero =>
        obtain rfl : p = q := Option.some.inj hq
        exact hkept.trans h.value
    | succ i =>
        rw [List.getElem?_cons_succ] at hq
        have hi : i < ps.length := (List.getElem?_eq_some_iff.mp hq).1
        have hoffset : serOffset + 8 + 8 * i = serOffset + 8 * (i + 1) := by omega
        rw [hrest.values i q hq, hoffset]
        refine loadValue_congr fun x hx => h.mem x fun hplace => ?_
        have hsize : accessSize q.1.is64 ≤ 8 := by
          rw [accessSize]
          split <;> omega
        exact hdisjoint x (hx.of_add (by omega)) (inBlock_of_placeByte hp hplace)
  · rw [hrest.regs r hscratch hr fun q hq => hregs q (List.mem_cons_of_mem p hq)]
    exact h.regs r hscratch hr (hregs p List.mem_cons_self)
  · rw [hrest.mem x fun q hq => hx q (List.mem_cons_of_mem p hq)]
    exact h.mem x (hx p List.mem_cons_self)

/-- The accesses of moving values from slots to their places. -/
def paramAccesses (sp ser : BitVec 32) : ℕ → List (MachineType × ArgLocation) → List Access
  | _, [] => []
  | serOffset, p :: ps =>
      slotAccesses p.1.is64 p.2 (ser + BitVec.ofNat 32 serOffset) (placeAddress sp p.2) ++
        paramAccesses sp ser (serOffset + 8) ps

/-- **The loop over the parameters** moves all of them to their places. -/
theorem emitParamsFrom_spec {stackWidth serWidth : ℕ} (hwidth : stackWidth ≤ 2 ^ 32)
    (hdisjoint : ByteMemory.Disjoint ser serWidth sp stackWidth)
    {paramTypes : List MachineType} {loop : ParamLoop} {m : Machine}
    (hpoints : loop.Points ser sp m) (hadded : loop.addedSPOffset = 0)
    (hslots : loop.serOffset + 8 * paramTypes.length ≤ serWidth)
    (htypes : ∀ type ∈ paramTypes, type ≠ .invalid) :
    let ps := locations (argLocation numGlobalsInGPR imported stackParamWidth) loop.tracker
      paramTypes
    let code := emitParamsFrom numGlobalsInGPR imported stackParamWidth loop paramTypes
    ps.Pairwise ArgLocation.Separate → (∀ p ∈ ps, Reserved stackWidth p ∧ OffsetFits p) →
      PlacedAll sp ser loop.serOffset ps m (execAll code m) ∧
        accessesAll code m = paramAccesses sp ser loop.serOffset ps := by
  induction paramTypes generalizing loop m with
  | nil => exact fun _ _ => ⟨⟨nofun, fun _ _ _ _ => rfl, fun _ _ => rfl⟩, rfl⟩
  | cons paramType paramTypes ih =>
      dsimp only
      rw [locations, emitParamsFrom]
      intro hpairwise hall
      obtain ⟨hseparate, hpairwise'⟩ := List.pairwise_cons.mp hpairwise
      obtain ⟨hreserved, hfits⟩ := hall _ List.mem_cons_self
      obtain ⟨hplaced, htrace, hpoints', hadded', hoffset, htracker⟩ :=
        emitParam_spec hpoints hadded hfits fun r hr => (hreserved.1 r hr).1
      rw [List.length_cons] at hslots
      have hrest := ih hpoints' hadded' (by omega)
        fun type htype => htypes type (List.mem_cons_of_mem _ htype)
      rw [hoffset, htracker] at hrest
      obtain ⟨hrestPlaced, hrestTrace⟩ := hrest hpairwise'
        fun p hp => hall p (List.mem_cons_of_mem _ hp)
      dsimp only
      rw [execAll_append, accessesAll_append, htrace, hrestTrace]
      refine ⟨.cons hwidth hdisjoint hplaced hrestPlaced hseparate (fun q hq => (hall q hq).1)
        (fun q hq => ?_) ?_, rfl⟩
      · rcases List.mem_cons.mp hq with rfl | hq
        · exact htypes paramType List.mem_cons_self
        · exact htypes q.1 (List.mem_cons_of_mem _ (type_of_mem_locations hq))
      · rw [length_locations]
        exact hslots

/-! ### Displacements that do not fit -/

/-- Adding an offset moves an address. -/
theorem add_ofNat_ne {a : BitVec 32} {offset : ℕ} (hpos : 0 < offset) (hlt : offset < 2 ^ 32) :
    a + BitVec.ofNat 32 offset ≠ a := by
  intro heq
  have hzero : BitVec.ofNat 32 offset = 0 := (BitVec.add_right_inj a).mp (by simpa using heq)
  have hnat := congrArg BitVec.toNat hzero
  rw [BitVec.toNat_ofNat, Nat.mod_eq_of_lt hlt] at hnat
  exact hpos.ne' hnat

/-- An offset that does not fit is not zero. -/
theorem pos_of_not_signedInRange {bits offset : ℕ} (h : ¬ signedInRange bits offset = true) :
    0 < offset := by
  refine Nat.pos_of_ne_zero fun hzero => h ?_
  simp [hzero, signedInRange]

/-- **An offset on the stack that does not fit** is added to the register that points to the
buffer, and so the parameter is loaded from behind its slot. -/
theorem emitParam_of_not_fits {paramType : MachineType} {loop : ParamLoop} {m : Machine}
    (hpoints : loop.Points ser sp m) (hadded : loop.addedSPOffset = 0) {offset : ℕ}
    (hplace : (argLocation numGlobalsInGPR imported stackParamWidth paramType
      loop.tracker).1 = .stack offset)
    (hfits : ¬ OffsetFits (paramType, .stack offset)) :
    ∃ target, accessesAll
        (emitParam numGlobalsInGPR imported stackParamWidth paramType loop).1 m =
      slotAccesses paramType.is64 (.stack offset)
        (ser + BitVec.ofNat 32 loop.serOffset + BitVec.ofNat 32 offset) target := by
  obtain ⟨hbits, hle⟩ : 0 < dispBits paramType.is64 ∧ dispBits paramType.is64 ≤ 32 := by
    cases paramType.is64 <;> decide
  obtain ⟨haddress, -, -, haccesses⟩ := selectOffsetRegisterHelper_spec hbits hle
    loop.addedSerOffset (loop.serOffset - loop.addedSerOffset) m
  rw [ser_address hpoints] at haddress
  rw [emitParam]
  generalize argLocation numGlobalsInGPR imported stackParamWidth paramType loop.tracker = place
    at hplace ⊢
  obtain ⟨location, tracker⟩ := place
  dsimp only at hplace
  subst hplace
  generalize selectOffsetRegisterHelper (dispBits paramType.is64) loop.addedSerOffset
    (loop.serOffset - loop.addedSerOffset) = ser' at haddress haccesses ⊢
  obtain ⟨serCode, addedSerOffset, serDisp⟩ := ser'
  have hhelper : selectOffsetRegisterHelper (dispBits paramType.is64) loop.addedSPOffset
      (offset - loop.addedSPOffset) = (addImmToReg addrParamReg (BitVec.ofNat 32 offset)
        addrParamReg, (offset : ℤ), 0) := by
    have hfits' : ¬ signedInRange (dispBits paramType.is64) offset = true := hfits
    rw [hadded, Int.sub_zero, selectOffsetRegisterHelper, if_neg hfits', zero_add,
      BitVec.ofInt_natCast]
  dsimp only at haddress haccesses ⊢
  rw [hhelper]
  dsimp only
  let m1 := execAll serCode m
  have hadd := execAll_addImmToReg addrParamReg (BitVec.ofNat 32 offset) addrParamReg m1
  let m2 := execAll (addImmToReg addrParamReg (BitVec.ofNat 32 offset) addrParamReg) m1
  have hreg : m2.regs addrParamReg = m1.regs addrParamReg + BitVec.ofNat 32 offset := by
    have hreg := congrFun hadd.regs addrParamReg
    rw [Function.update_self] at hreg
    exact hreg
  obtain ⟨-, htrace⟩ := loadParam_spec paramType.is64 (.stack offset) serDisp 0 m2
  have hsource : m2.regs addrParamReg + serDisp.signExtend 32 =
      ser + BitVec.ofNat 32 loop.serOffset + BitVec.ofNat 32 offset := by
    rw [hreg, ← haddress, BitVec.add_assoc, BitVec.add_assoc,
      BitVec.add_comm (BitVec.ofNat 32 offset)]
  rw [hsource] at htrace
  rw [accessesAll_append, accessesAll_append, haccesses, accessesAll_addImmToReg]
  exact ⟨_, htrace⟩

/-- The accesses of the loop are not those of the slots if an offset does not fit. -/
theorem accessesAll_emitParamsFrom_ne {stackWidth : ℕ} (hwidth : stackWidth ≤ 2 ^ 32)
    {paramTypes : List MachineType} {loop : ParamLoop} {m : Machine}
    (hpoints : loop.Points ser sp m) (hadded : loop.addedSPOffset = 0) :
    let ps := locations (argLocation numGlobalsInGPR imported stackParamWidth) loop.tracker
      paramTypes
    (∀ p ∈ ps, Reserved stackWidth p) → (∃ p ∈ ps, ¬ OffsetFits p) →
      accessesAll (emitParamsFrom numGlobalsInGPR imported stackParamWidth loop paramTypes) m ≠
        paramAccesses sp ser loop.serOffset ps := by
  induction paramTypes generalizing loop m with
  | nil => exact fun _ ⟨p, hp, _⟩ => absurd hp List.not_mem_nil
  | cons paramType paramTypes ih =>
      dsimp only
      rw [locations, emitParamsFrom]
      intro hall hbad
      dsimp only
      rw [accessesAll_append, paramAccesses]
      have hreserved : Reserved stackWidth (paramType,
          (argLocation numGlobalsInGPR imported stackParamWidth paramType loop.tracker).1) :=
        hall _ List.mem_cons_self
      by_cases hfits : OffsetFits (paramType,
          (argLocation numGlobalsInGPR imported stackParamWidth paramType loop.tracker).1)
      · obtain ⟨-, htrace, hpoints', hadded', hoffset, htracker⟩ :=
          emitParam_spec hpoints hadded hfits fun r hr => (hreserved.1 r hr).1
        have hbad' : ∃ p ∈ locations (argLocation numGlobalsInGPR imported stackParamWidth)
            (argLocation numGlobalsInGPR imported stackParamWidth paramType loop.tracker).2
            paramTypes, ¬ OffsetFits p := by
          obtain ⟨p, hp, hp'⟩ := hbad
          rcases List.mem_cons.mp hp with rfl | hp
          · exact absurd hfits hp'
          · exact ⟨p, hp, hp'⟩
        have hrest := ih hpoints' hadded'
        rw [hoffset, htracker] at hrest
        rw [htrace]
        exact fun heq => hrest (fun p hp => hall p (List.mem_cons_of_mem _ hp)) hbad'
          (List.append_cancel_left heq)
      · have hsome : ∃ offset, (argLocation numGlobalsInGPR imported stackParamWidth paramType
            loop.tracker).1 = .stack offset := by
          generalize argLocation numGlobalsInGPR imported stackParamWidth paramType
            loop.tracker = place at hfits
          obtain ⟨r | offset, tracker⟩ := place
          · exact absurd trivial hfits
          · exact ⟨offset, rfl⟩
        obtain ⟨offset, hplace⟩ := hsome
        rw [hplace] at hfits hreserved
        obtain ⟨target, htrace⟩ := emitParam_of_not_fits hpoints hadded hplace hfits
        rw [htrace]
        intro heq
        have haddress : ser + BitVec.ofNat 32 loop.serOffset + BitVec.ofNat 32 offset =
            ser + BitVec.ofNat 32 loop.serOffset :=
          congrArg Access.address (List.cons.inj heq).1
        have hend := hreserved.2 offset rfl
        have hsize : 0 < accessSize paramType.is64 := by
          rw [accessSize]
          split <;> decide
        refine add_ofNat_ne (pos_of_not_signedInRange hfits) ?_ haddress
        dsimp only at hend
        omega

/-! ### All parameters -/

/-- `ImplementationLimits::numParams`. -/
def numParams : ℕ := 128

/-- The width of the parameters on the stack. -/
theorem getStackParamWidth_le (numGlobalsInGPR : ℕ) (imported : Bool)
    (paramTypes : List MachineType) :
    getStackParamWidth numGlobalsInGPR imported paramTypes ≤ 8 * paramTypes.length := by
  rw [getStackParamWidth]
  generalize RegStackTracker.initial = tracker
  induction paramTypes generalizing tracker with
  | nil => exact le_rfl
  | cons type types ih =>
      rw [stackParamWidthFrom, List.length_cons]
      have hle := widthInStack_le type
      obtain ⟨reg, tracker'⟩ := getREGForArg numGlobalsInGPR type imported tracker
      have hrest := ih tracker'
      cases reg with
      | some r => dsimp only; omega
      | none => dsimp only; omega

/-- The registers for parameters are no scratch registers. -/
theorem not_dataScratch_of_mem_paramRegs (hglobals : numGlobalsInGPR ≤ 1) (imported : Bool)
    {r : REG} (h : r ∈ RegStackTracker.initial.paramRegs numGlobalsInGPR imported) :
    ¬ DataScratch r ∧ r.isDATA = true := by
  have hall : ∀ g ≤ 1, ∀ imported, ∀ r ∈ RegStackTracker.initial.paramRegs g imported,
      ¬ (r = .D 14 ∨ r = .D 15) ∧ r.isDATA = true := by
    intro g hg imported
    interval_cases g <;> cases imported <;> decide
  exact hall numGlobalsInGPR hglobals imported r h

/-- The places of parameters are reserved for them. -/
theorem reserved_of_mem_argLocations (hglobals : numGlobalsInGPR ≤ 1)
    {paramTypes : List MachineType} (htypes : ∀ type ∈ paramTypes, type ≠ .invalid)
    {p : MachineType × ArgLocation}
    (hp : p ∈ argLocations numGlobalsInGPR imported paramTypes) :
    Reserved (getStackParamWidth numGlobalsInGPR imported paramTypes) p := by
  have hleft := (argLocations_pairwise hglobals imported paramTypes).1 p hp
  have htype := htypes p.1 (type_of_mem_locations hp)
  obtain ⟨type, r | offset⟩ := p
  · refine ⟨fun r' hr' => ?_, nofun⟩
    obtain ⟨hscratch, hdata⟩ :=
      not_dataScratch_of_mem_paramRegs hglobals imported (hleft.2.2 r' hr')
    exact ⟨hdata, hscratch⟩
  · refine ⟨nofun, fun offset' hoffset => ?_⟩
    cases hoffset
    rw [accessSize_eq htype]
    exact hleft.2

/-- **Loading the parameters is right**: the value of every slot is at the place where the callee
expects it, and the accesses are those of the slots and the places. -/
def ParamsExact (numGlobalsInGPR : ℕ) (imported : Bool) (paramTypes : List MachineType) : Prop :=
  let ps := argLocations numGlobalsInGPR imported paramTypes
  let code := emitParams numGlobalsInGPR imported paramTypes
  ∀ m : Machine,
    ByteMemory.Disjoint (m.regs addrParamReg) (8 * paramTypes.length) (m.regs .SP)
        (getStackParamWidth numGlobalsInGPR imported paramTypes) →
      (∀ (i : ℕ) (p : MachineType × ArgLocation), ps[i]? = some p →
        argValue (m.regs .SP) (execAll code m) p =
          loadValue m p.1.is64 (m.regs addrParamReg + BitVec.ofNat 32 (8 * i))) ∧
      accessesAll code m = paramAccesses (m.regs .SP) (m.regs addrParamReg) 0 ps

/-- The loop starts at the first slot. -/
theorem points_initial (m : Machine) :
    ParamLoop.Points ⟨.initial, 0, 0, 0⟩ (m.regs addrParamReg) (m.regs .SP) m :=
  ⟨(BitVec.add_zero _).symm, rfl⟩

/-- **All parameters**: with displacements that fit every parameter is moved to its place. -/
theorem emitParams_spec (hglobals : numGlobalsInGPR ≤ 1) {paramTypes : List MachineType}
    (hlength : paramTypes.length ≤ numParams) (htypes : ∀ type ∈ paramTypes, type ≠ .invalid)
    (hfits : ∀ p ∈ argLocations numGlobalsInGPR imported paramTypes, OffsetFits p) {m : Machine}
    (hdisjoint : ByteMemory.Disjoint (m.regs addrParamReg) (8 * paramTypes.length) (m.regs .SP)
      (getStackParamWidth numGlobalsInGPR imported paramTypes)) :
    PlacedAll (m.regs .SP) (m.regs addrParamReg) 0
        (argLocations numGlobalsInGPR imported paramTypes) m
        (execAll (emitParams numGlobalsInGPR imported paramTypes) m) ∧
      accessesAll (emitParams numGlobalsInGPR imported paramTypes) m =
        paramAccesses (m.regs .SP) (m.regs addrParamReg) 0
          (argLocations numGlobalsInGPR imported paramTypes) := by
  have hwidth := getStackParamWidth_le numGlobalsInGPR imported paramTypes
  rw [numParams] at hlength
  exact emitParamsFrom_spec (by omega) hdisjoint (points_initial m) rfl
    (Nat.zero_add _).le htypes
    (argLocations_pairwise hglobals imported paramTypes).2
    fun p hp => ⟨reserved_of_mem_argLocations hglobals htypes hp, hfits p hp⟩

/-- A machine whose buffers are not on the stack. -/
theorem exists_disjoint (size width : ℕ) (hsize : size ≤ 2 ^ 31) (hwidth : width ≤ 2 ^ 31) :
    ∃ m : Machine, m.regs addrParamReg = 0 ∧ (∀ a, m.load a = 0) ∧
      ByteMemory.Disjoint 0 size (m.regs .SP) width := by
  let regs : REG → BitVec 32 := fun r => if r = .SP then BitVec.ofNat 32 (2 ^ 31) else 0
  refine ⟨⟨regs, fun _ => 0, ⟨false, false, false, false, false, 0⟩, fun _ => 0⟩, rfl,
    readWord_zero, ?_⟩
  have hdisjoint : ByteMemory.Disjoint ((0 : BitVec 32) + BitVec.ofNat 32 0) size
      (0 + BitVec.ofNat 32 (2 ^ 31)) width :=
    disjoint_of_offsets (.inl (by omega)) (by omega) (by omega)
  exact hdisjoint

/-- **Loading the parameters is right exactly if the displacements on the stack fit.** -/
theorem paramsExact_iff (hglobals : numGlobalsInGPR ≤ 1) {paramTypes : List MachineType}
    (hlength : paramTypes.length ≤ numParams) (htypes : ∀ type ∈ paramTypes, type ≠ .invalid) :
    ParamsExact numGlobalsInGPR imported paramTypes ↔
      ∀ p ∈ argLocations numGlobalsInGPR imported paramTypes, OffsetFits p := by
  have hwidth := getStackParamWidth_le numGlobalsInGPR imported paramTypes
  constructor
  · intro hexact p hp
    by_contra hfits
    rw [numParams] at hlength
    obtain ⟨m, hser, -, hdisjoint⟩ := exists_disjoint (8 * paramTypes.length)
      (getStackParamWidth numGlobalsInGPR imported paramTypes) (by omega) (by omega)
    rw [← hser] at hdisjoint
    exact accessesAll_emitParamsFrom_ne (by omega) (points_initial m) rfl
      (fun q hq => reserved_of_mem_argLocations hglobals htypes hq) ⟨p, hp, hfits⟩
      (hexact m hdisjoint).2
  · intro hfits m hdisjoint
    obtain ⟨hplaced, htrace⟩ := emitParams_spec hglobals hlength htypes hfits hdisjoint
    refine ⟨fun i p hp => ?_, htrace⟩
    rw [hplaced.values i p hp, Nat.zero_add]

end TriCore

end WasmCompiler
