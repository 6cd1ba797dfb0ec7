import WasmCompiler.TriCoreWrapper

/-!
# Results of Exported Functions on TriCore

Behind the call `emitFunctionEntryPoint` stores the results to the slots of a buffer. A
displacement that does not fit is added to the register that pointed to the parameters, which is
neither the stack pointer nor the register that points to the results.

## Main results

* `emitResultsFrom_spec`: with displacements that fit every result is stored to its slot.
* `resultsExact_iff`: storing the results is right exactly if the displacements of results on the
  stack and of their slots fit.
* `wrapperExact_iff`: the wrapper is right exactly if all displacements of values on the stack
  fit.
-/

namespace WasmCompiler

namespace TriCore

open ByteMemory Machine

/-! ### Results -/

/-- The offset of the pointer to the results in the frame of the wrapper,
`of_returnValuesPtr`. -/
def returnValuesPtr : ℕ := 20

/-- The displacement of a slot or of a result on the stack, which is added to a register if it
does not fit. -/
def selectResultOffset (bits : ℕ) (offset : ℕ) : List Instr × BitVec bits :=
  if signedInRange bits offset then ([], BitVec.ofInt bits offset)
  else (addImmToReg addrParamReg (BitVec.ofNat 32 offset) addrParamReg, 0)

/-- Store a result to a slot, behind the code for the displacements. -/
def storeResult (is64 : Bool) (location : ArgLocation)
    (srcDisp destDisp : BitVec (dispBits is64)) : List Instr :=
  match is64, location with
  | true, .reg srcReg => [.STD_deref_Ab_off10sx_Ea (addrScrReg 2) destDisp srcReg]
  | true, .stack _ =>
      [.LDD_Ea_deref_Ab_off10sx (.D 14) .SP srcDisp,
        .STD_deref_Ab_off10sx_Ea (addrScrReg 2) destDisp (.D 14)]
  | false, .reg srcReg => storeWordDerefARegDisp16sxDReg srcReg (addrScrReg 2) destDisp
  | false, .stack _ =>
      loadWordDRegDerefARegDisp16sx .D15 .SP srcDisp ++
        storeWordDerefARegDisp16sxDReg .D15 (addrScrReg 2) destDisp

/-- The code for one result; for a result in a register the displacement of the slot is not
checked. -/
def emitResult (machineType : MachineType) (location : ArgLocation) (index : ℕ) : List Instr :=
  let bits := dispBits machineType.is64
  let destOffset := index * 8
  match location with
  | .reg srcReg => storeResult machineType.is64 (.reg srcReg) 0 (BitVec.ofInt bits destOffset)
  | .stack srcOffset =>
      let (srcCode, srcDisp) := selectResultOffset bits srcOffset
      let (destCode, destDisp) := selectResultOffset bits destOffset
      srcCode ++ (destCode ++ storeResult machineType.is64 (.stack srcOffset) srcDisp destDisp)

/-- The code for the results from one on. -/
def emitResultsFrom : ℕ → List (MachineType × ArgLocation) → List Instr
  | _, [] => []
  | index, (machineType, location) :: results =>
      emitResult machineType location index ++ emitResultsFrom (index + 1) results

/-- The size of the frame of the wrapper, `totalReserved`. -/
def totalReserved : ℕ := 32

/-- `reservationFunctionCall`: the stack for parameters and results, up to the alignment of the
frame. -/
def reservationFunctionCall (stackParamWidth stackReturnValueWidth : ℕ) : ℕ :=
  let width := stackParamWidth + stackReturnValueWidth
  width + (8 - (totalReserved + width) % 8) % 8

/-- The address of the pointer to the results. -/
def returnValuePtrOffset (stackParamWidth : ℕ) (resultTypes : List MachineType) : ℕ :=
  returnValuesPtr +
    reservationFunctionCall stackParamWidth (getStackReturnValueWidth resultTypes)

/-- The code for the results behind the call. -/
def emitResults (stackParamWidth : ℕ) (resultTypes : List MachineType) : List Instr :=
  if resultTypes.length = 0 then []
  else
    emitLoadDerefOff16sx (addrScrReg 2) .SP
        (BitVec.ofNat 16 (returnValuePtrOffset stackParamWidth resultTypes)) ++
      emitResultsFrom 0 (resultLocations stackParamWidth resultTypes)

/-! ### Storing a result -/

/-- A result goes to a slot: besides it only scratch registers are written. -/
structure Stored (sp target : BitVec 32) (p : MachineType × ArgLocation) (m m' : Machine) :
    Prop where
  value : loadValue m' p.1.is64 target = argValue sp m p
  regs : ∀ r, ¬ DataScratch r → r ≠ addrParamReg → m'.regs r = m.regs r
  mem : ∀ x, ¬ InBlock target (accessSize p.1.is64) x → m'.mem x = m.mem x

/-- The address that the code computes for an offset. -/
def effectiveOffset (bits offset : ℕ) : BitVec 32 :=
  if signedInRange bits offset then BitVec.ofNat 32 offset else 0

/-- The address of an offset. -/
def exactOffset (_ offset : ℕ) : BitVec 32 := BitVec.ofNat 32 offset

/-- **Selecting an offset** of a result changes no register that its address depends on. -/
theorem selectResultOffset_spec {bits : ℕ} (hbits : 0 < bits) (hle : bits ≤ 32) (offset : ℕ)
    (m : Machine) :
    let result := selectResultOffset bits offset
    result.2.signExtend 32 = effectiveOffset bits offset ∧
      m.Changes (· = addrParamReg) NoBytes (execAll result.1 m) ∧
      accessesAll result.1 m = [] := by
  simp only [selectResultOffset, effectiveOffset]
  split
  · case _ hrange =>
      refine ⟨?_, .refl _ _ m, rfl⟩
      rw [signExtend_ofInt hbits hle hrange, BitVec.ofInt_natCast]
  · refine ⟨?_, (execAll_addImmToReg addrParamReg _ addrParamReg m).changes,
      accessesAll_addImmToReg _ _ _ m⟩
    simpa using add_signExtend_zero_field bits 0

/-- A pair of registers goes to the memory. -/
theorem stored_pair_reg (srcReg base : REG) (disp : BitVec 10) {type : MachineType}
    (h64 : type.is64 = true) (sp : BitVec 32) (m : Machine) :
    Stored sp (m.regs base + disp.signExtend 32) (type, .reg srcReg) m
      ((Instr.STD_deref_Ab_off10sx_Ea base disp srcReg).exec m) := by
  let target := m.regs base + disp.signExtend 32
  obtain ⟨hlow, hhigh⟩ :=
    load_storePair m target (m.regs srcReg) (m.regs srcReg.getOtherExtReg)
  have hchanges := storePair_changes m target (m.regs srcReg) (m.regs srcReg.getOtherExtReg)
  refine ⟨?_, fun r _ _ => hchanges.regs r id, fun x hx => hchanges.mem x ?_⟩
  · change loadValue (m.storePair target (m.regs srcReg) (m.regs srcReg.getOtherExtReg))
      type.is64 target = regValue m type.is64 srcReg
    rw [h64, loadValue_pair, hlow, hhigh, regValue_pair]
  · dsimp only at hx
    rw [h64] at hx
    exact hx

/-- A register goes to the memory. -/
theorem stored_word_reg (srcReg base : REG) (disp : BitVec 16) {type : MachineType}
    (h64 : type.is64 = false) (sp : BitVec 32) (m : Machine) :
    Stored sp (m.regs base + disp.signExtend 32) (type, .reg srcReg) m
      (execAll (storeWordDerefARegDisp16sxDReg srcReg base disp) m) := by
  have hstore := execAll_storeWordDerefARegDisp16sxDReg srcReg base disp m
  refine ⟨?_, fun r _ _ => congrFun hstore.regs r, fun x hx => ?_⟩
  · change loadValue _ type.is64 _ = regValue m type.is64 srcReg
    rw [h64, loadValue_word, regValue_word, Machine.load, hstore.mem, ByteMemory.readWord_storeWord]
  · dsimp only at hx
    rw [h64] at hx
    rw [hstore.mem]
    exact storeWord_of_not_inBlock hx

/-- **Moving a result on the stack**, with the displacements that were selected. -/
theorem storeResult_stack_spec (is64 : Bool) (offset : ℕ)
    (srcDisp destDisp : BitVec (dispBits is64)) (m : Machine) :
    let source := m.regs .SP + srcDisp.signExtend 32
    let target := m.regs (addrScrReg 2) + destDisp.signExtend 32
    GoesTo is64 (.stack offset) source target m
        (execAll (storeResult is64 (.stack offset) srcDisp destDisp) m) ∧
      accessesAll (storeResult is64 (.stack offset) srcDisp destDisp) m =
        [⟨false, source, accessSize is64⟩, ⟨true, target, accessSize is64⟩] := by
  cases is64 with
  | true => exact goesTo_pair_stack .SP (addrScrReg 2) (by decide) srcDisp destDisp offset m
  | false =>
      exact goesTo_word_stack .SP (addrScrReg 2) (by decide) (by decide) srcDisp destDisp offset m

/-- **Storing a result in a register.** -/
theorem storeResult_reg_spec (type : MachineType) (srcReg : REG)
    (destDisp : BitVec (dispBits type.is64)) (sp : BitVec 32) (m : Machine) :
    let target := m.regs (addrScrReg 2) + destDisp.signExtend 32
    Stored sp target (type, .reg srcReg) m
        (execAll (storeResult type.is64 (.reg srcReg) 0 destDisp) m) ∧
      accessesAll (storeResult type.is64 (.reg srcReg) 0 destDisp) m =
        [⟨true, target, accessSize type.is64⟩] := by
  have hpair : ∀ is64 (disp : BitVec (dispBits is64)), type.is64 = is64 →
      Stored sp (m.regs (addrScrReg 2) + disp.signExtend 32) (type, .reg srcReg) m
          (execAll (storeResult is64 (.reg srcReg) 0 disp) m) ∧
        accessesAll (storeResult is64 (.reg srcReg) 0 disp) m =
          [⟨true, m.regs (addrScrReg 2) + disp.signExtend 32, accessSize is64⟩] := by
    intro is64 disp h64
    cases is64 with
    | true => exact ⟨stored_pair_reg srcReg (addrScrReg 2) disp h64 sp m, rfl⟩
    | false =>
        exact ⟨stored_word_reg srcReg (addrScrReg 2) disp h64 sp m,
          accessesAll_storeWordDerefARegDisp16sxDReg srcReg (addrScrReg 2) disp m⟩
  exact hpair type.is64 destDisp rfl

/-- The displacements of a result on the stack, and of its slot, fit. -/
def ResultFits (index : ℕ) (p : MachineType × ArgLocation) : Prop :=
  match p.2 with
  | .reg _ => True
  | .stack offset => signedInRange (dispBits p.1.is64) offset = true ∧
      signedInRange (dispBits p.1.is64) ((index * 8 : ℕ) : ℤ) = true

/-- The displacement of the slot of a result in a register fits. -/
def RegSlotFits (index : ℕ) (p : MachineType × ArgLocation) : Prop :=
  ∀ r, p.2 = .reg r → signedInRange (dispBits p.1.is64) ((index * 8 : ℕ) : ℤ) = true

/-- The accesses of a result, with the offsets of its place and of its slot. -/
def resultAccess (disp : ℕ → ℕ → BitVec 32) (sp ptr : BitVec 32) (index : ℕ)
    (p : MachineType × ArgLocation) : List Access :=
  let bits := dispBits p.1.is64
  (match p.2 with
    | .reg _ => []
    | .stack offset => [⟨false, sp + disp bits offset, accessSize p.1.is64⟩]) ++
  [⟨true, ptr + disp bits (index * 8), accessSize p.1.is64⟩]

variable {sp ptr : BitVec 32}

/-- **One result**: it is stored to its slot if its displacements fit. -/
theorem emitResult_spec {index : ℕ} {p : MachineType × ArgLocation} {m : Machine}
    (hsp : m.regs .SP = sp) (hptr : m.regs (addrScrReg 2) = ptr) (hreg : RegSlotFits index p) :
    let code := emitResult p.1 p.2 index
    accessesAll code m = resultAccess effectiveOffset sp ptr index p ∧
      (∀ r, ¬ DataScratch r → r ≠ addrParamReg → (execAll code m).regs r = m.regs r) ∧
      (ResultFits index p →
        Stored sp (ptr + BitVec.ofNat 32 (index * 8)) p m (execAll code m)) := by
  obtain ⟨type, location⟩ := p
  obtain ⟨hbits, hle⟩ : 0 < dispBits type.is64 ∧ dispBits type.is64 ≤ 32 := by
    cases type.is64 <;> decide
  cases location with
  | reg srcReg =>
      have hrange := hreg srcReg rfl
      obtain ⟨hstored, htrace⟩ := storeResult_reg_spec type srcReg
        (BitVec.ofInt (dispBits type.is64) ((index * 8 : ℕ) : ℤ)) sp m
      have hdisp : (BitVec.ofInt (dispBits type.is64) ((index * 8 : ℕ) : ℤ)).signExtend 32 =
          BitVec.ofNat 32 (index * 8) := by
        rw [signExtend_ofInt hbits hle hrange, BitVec.ofInt_natCast]
      rw [hdisp, hptr] at hstored htrace
      refine ⟨?_, hstored.regs, fun _ => hstored⟩
      change accessesAll (storeResult type.is64 (.reg srcReg) 0
        (BitVec.ofInt (dispBits type.is64) ((index * 8 : ℕ) : ℤ))) m = _
      rw [htrace]
      dsimp only at hrange
      simp only [resultAccess, effectiveOffset, if_pos hrange, List.nil_append]
  | stack srcOffset =>
      obtain ⟨hsrc, hsrcChanges, hsrcAccesses⟩ := selectResultOffset_spec hbits hle srcOffset m
      simp only [emitResult]
      generalize selectResultOffset (dispBits type.is64) srcOffset = src
        at hsrc hsrcChanges hsrcAccesses ⊢
      obtain ⟨srcCode, srcDisp⟩ := src
      obtain ⟨hdest, hdestChanges, hdestAccesses⟩ :=
        selectResultOffset_spec hbits hle (index * 8) (execAll srcCode m)
      generalize selectResultOffset (dispBits type.is64) (index * 8) = dest
        at hdest hdestChanges hdestAccesses ⊢
      obtain ⟨destCode, destDisp⟩ := dest
      dsimp only at *
      have hchanges := hsrcChanges.trans hdestChanges
      obtain ⟨hgoes, htrace⟩ := storeResult_stack_spec type.is64 srcOffset srcDisp destDisp
        (execAll destCode (execAll srcCode m))
      have hsp' := (hchanges.regs .SP (by decide)).trans hsp
      have hptr' := (hchanges.regs (addrScrReg 2) (by decide)).trans hptr
      rw [hsp', hptr', hsrc, hdest] at hgoes htrace
      have hkept : ∀ r, ¬ DataScratch r → r ≠ addrParamReg →
          (execAll (srcCode ++ (destCode ++ storeResult type.is64 (.stack srcOffset) srcDisp
            destDisp)) m).regs r = m.regs r := fun r hr hne => by
        rw [execAll_append, execAll_append]
        exact (hgoes.regs r hr nofun).trans (hchanges.regs r hne)
      refine ⟨?_, hkept, fun hfits => ⟨?_, hkept, fun x hx => ?_⟩⟩
      · rw [accessesAll_append, accessesAll_append, hsrcAccesses, hdestAccesses, htrace]
        rfl
      · rw [execAll_append, execAll_append]
        obtain ⟨hsrcFits, hdestFits⟩ := hfits
        have hvalue := hgoes.value
        rw [effectiveOffset, effectiveOffset, if_pos hsrcFits, if_pos hdestFits] at hvalue
        exact hvalue.trans (loadValue_congr fun x _ => hchanges.mem x id)
      · rw [execAll_append, execAll_append]
        obtain ⟨hsrcFits, hdestFits⟩ := hfits
        refine (hgoes.mem x fun _ _ => ?_).trans (hchanges.mem x id)
        rw [effectiveOffset, if_pos hdestFits]
        exact hx

/-! ### Storing the results -/

/-- The accesses of results one behind the other. -/
def resultAccesses (disp : ℕ → ℕ → BitVec 32) (sp ptr : BitVec 32) :
    ℕ → List (MachineType × ArgLocation) → List Access
  | _, [] => []
  | index, p :: ps =>
      resultAccess disp sp ptr index p ++ resultAccesses disp sp ptr (index + 1) ps

/-- Execution stored results to slots one behind the other. -/
structure StoredAll (sp ptr : BitVec 32) (index : ℕ) (ps : List (MachineType × ArgLocation))
    (m m' : Machine) : Prop where
  values : ∀ (i : ℕ) (p : MachineType × ArgLocation), ps[i]? = some p →
    loadValue m' p.1.is64 (ptr + BitVec.ofNat 32 ((index + i) * 8)) = argValue sp m p
  mem : ∀ x, (∀ i < ps.length, ¬ InBlock (ptr + BitVec.ofNat 32 ((index + i) * 8)) 8 x) →
    m'.mem x = m.mem x

/-- A value takes at most eight bytes. -/
theorem accessSize_le (is64 : Bool) : accessSize is64 ≤ 8 := by
  cases is64 <;> decide

/-- **One result behind another**: a slot is kept while the others are stored, and their places
are still as they were. -/
theorem StoredAll.cons {stackWidth slots index : ℕ} (hslots : slots ≤ 2 ^ 32)
    (hdisjoint : ByteMemory.Disjoint ptr slots sp stackWidth)
    {p : MachineType × ArgLocation} {ps : List (MachineType × ArgLocation)} {m m1 m' : Machine}
    (h : Stored sp (ptr + BitVec.ofNat 32 (index * 8)) p m m1)
    (hrest : StoredAll sp ptr (index + 1) ps m1 m')
    (hreserved : ∀ q ∈ ps, Reserved stackWidth q)
    (hcount : (index + (ps.length + 1)) * 8 ≤ slots) : StoredAll sp ptr index (p :: ps) m m' := by
  have hsize := accessSize_le p.1.is64
  refine ⟨fun i q hq => ?_, fun x hx => ?_⟩
  · cases i with
    | zero =>
        obtain rfl : p = q := Option.some.inj hq
        rw [Nat.add_zero, ← h.value]
        refine loadValue_congr fun x hx => hrest.mem x fun i hi hin => ?_
        exact disjoint_of_offsets (.inl (by omega)) (by omega) (by omega) x hx hin
    | succ i =>
        rw [List.getElem?_cons_succ] at hq
        have hmem : q ∈ ps := List.mem_of_getElem? hq
        have hindex : index + (i + 1) = index + 1 + i := by omega
        rw [hindex, hrest.values i q hq]
        refine argValue_congr (fun r hr => ?_) fun x hx => h.mem x fun hin => ?_
        · obtain ⟨hdata, hscratch⟩ := (hreserved q hmem).1 r hr
          refine h.regs r hscratch ?_
          rintro rfl
          exact absurd hdata (by decide)
        · exact hdisjoint x (hin.of_add (by omega))
            (inBlock_of_placeByte (hreserved q hmem) hx)
  · rw [hrest.mem x fun i hi => ?_]
    · refine h.mem x fun hin => hx 0 (Nat.zero_lt_succ _) ?_
      exact lt_of_lt_of_le hin hsize
    · have hindex : index + 1 + i = index + (i + 1) := by omega
      rw [hindex]
      exact hx (i + 1) (Nat.succ_lt_succ hi)

/-- **The loop over the results.** -/
theorem emitResultsFrom_spec {stackWidth slots index : ℕ} (hslots : slots ≤ 2 ^ 32)
    {ps : List (MachineType × ArgLocation)} {m : Machine} (hsp : m.regs .SP = sp)
    (hptr : m.regs (addrScrReg 2) = ptr)
    (hreg : ∀ (i : ℕ) (p : MachineType × ArgLocation), ps[i]? = some p →
      RegSlotFits (index + i) p)
    (hreserved : ∀ q ∈ ps, Reserved stackWidth q) (hcount : (index + ps.length) * 8 ≤ slots) :
    accessesAll (emitResultsFrom index ps) m = resultAccesses effectiveOffset sp ptr index ps ∧
      (ByteMemory.Disjoint ptr slots sp stackWidth →
        (∀ (i : ℕ) (p : MachineType × ArgLocation), ps[i]? = some p →
          ResultFits (index + i) p) →
        StoredAll sp ptr index ps m (execAll (emitResultsFrom index ps) m)) := by
  induction ps generalizing index m with
  | nil => exact ⟨rfl, fun _ _ => ⟨nofun, fun _ _ => rfl⟩⟩
  | cons p ps ih =>
      have hfirst : RegSlotFits index p := hreg 0 p rfl
      obtain ⟨htrace, hkept, hstored⟩ := emitResult_spec hsp hptr hfirst
      have hnext : ∀ i, index + 1 + i = index + (i + 1) := fun i => by omega
      have hreg' : ∀ (i : ℕ) (q : MachineType × ArgLocation), ps[i]? = some q →
          RegSlotFits (index + 1 + i) q := fun i q hq => by
        rw [hnext]
        exact hreg (i + 1) q hq
      rw [List.length_cons] at hcount
      obtain ⟨hrestTrace, hrestStored⟩ := ih
        ((hkept .SP (by simp [DataScratch, REG.SP]) (by decide)).trans hsp)
        ((hkept (addrScrReg 2) (by simp [DataScratch, addrScrReg]) (by decide)).trans hptr)
        hreg' (fun q hq => hreserved q (List.mem_cons_of_mem p hq)) (by omega)
      rw [emitResultsFrom, accessesAll_append, htrace, hrestTrace, execAll_append]
      refine ⟨rfl, fun hdisjoint hfits => ?_⟩
      refine .cons hslots hdisjoint (hstored (hfits 0 p rfl)) (hrestStored hdisjoint ?_)
        (fun q hq => hreserved q (List.mem_cons_of_mem p hq)) hcount
      intro i q hq
      rw [hnext]
      exact hfits (i + 1) q hq

/-- The accesses of one result are those of its place and of its slot exactly if the displacements
fit. -/
theorem resultAccess_eq_iff {index stackWidth : ℕ} {p : MachineType × ArgLocation}
    (hwidth : stackWidth ≤ 2 ^ 32) (hindex : index * 8 < 2 ^ 32) (hreg : RegSlotFits index p)
    (hreserved : Reserved stackWidth p) :
    resultAccess effectiveOffset sp ptr index p = resultAccess exactOffset sp ptr index p ↔
      ResultFits index p := by
  have heffective : ∀ {a : BitVec 32} {bits offset : ℕ}, offset < 2 ^ 32 →
      (a + effectiveOffset bits offset = a + exactOffset bits offset ↔
        signedInRange bits offset = true) := by
    intro a bits offset hlt
    rw [effectiveOffset, exactOffset]
    split
    · case _ hrange => exact iff_of_true rfl hrange
    · case _ hrange =>
        refine iff_of_false (fun heq => ?_) hrange
        have hzero : a + 0 = a := BitVec.add_zero a
        exact add_ofNat_ne (pos_of_not_signedInRange hrange) hlt (heq.symm.trans hzero)
  obtain ⟨type, r | offset⟩ := p
  · have hrange : signedInRange (dispBits type.is64) ((index * 8 : ℕ) : ℤ) = true := hreg r rfl
    refine iff_of_true ?_ trivial
    simp only [resultAccess, (heffective hindex).mpr hrange]
  · have hend : offset + accessSize type.is64 ≤ stackWidth := hreserved.2 offset rfl
    have hsize : 0 < accessSize type.is64 := by
      rw [accessSize]
      split <;> decide
    have hlt : offset < 2 ^ 32 := by omega
    simp only [resultAccess, List.cons_append, List.nil_append, List.cons.injEq, Access.mk.injEq,
      true_and, and_true, heffective hlt, heffective hindex]
    exact Iff.rfl

/-- The accesses are those of the places and of the slots exactly if all displacements fit. -/
theorem resultAccesses_eq_iff {index stackWidth slots : ℕ} (hwidth : stackWidth ≤ 2 ^ 32)
    (hslots : slots ≤ 2 ^ 32) {ps : List (MachineType × ArgLocation)}
    (hreg : ∀ (i : ℕ) (p : MachineType × ArgLocation), ps[i]? = some p →
      RegSlotFits (index + i) p)
    (hreserved : ∀ q ∈ ps, Reserved stackWidth q) (hcount : (index + ps.length) * 8 ≤ slots) :
    resultAccesses effectiveOffset sp ptr index ps = resultAccesses exactOffset sp ptr index ps ↔
      ∀ (i : ℕ) (p : MachineType × ArgLocation), ps[i]? = some p → ResultFits (index + i) p := by
  induction ps generalizing index with
  | nil => exact iff_of_true rfl nofun
  | cons p ps ih =>
      rw [List.length_cons] at hcount
      have hnext : ∀ i, index + 1 + i = index + (i + 1) := fun i => by omega
      have hreg' : ∀ (i : ℕ) (q : MachineType × ArgLocation), ps[i]? = some q →
          RegSlotFits (index + 1 + i) q := fun i q hq => by
        rw [hnext]
        exact hreg (i + 1) q hq
      have hrest := ih hreg' (fun q hq => hreserved q (List.mem_cons_of_mem p hq)) (by omega)
      have hfirst : resultAccess effectiveOffset sp ptr index p =
          resultAccess exactOffset sp ptr index p ↔ ResultFits index p :=
        resultAccess_eq_iff hwidth (by omega) (hreg 0 p rfl)
          (hreserved p List.mem_cons_self)
      have hlength : (resultAccess effectiveOffset sp ptr index p).length =
          (resultAccess exactOffset sp ptr index p).length := by
        obtain ⟨type, r | offset⟩ := p <;> rfl
      rw [resultAccesses, resultAccesses]
      constructor
      · intro heq i q hq
        obtain ⟨heq1, heq2⟩ := List.append_inj heq hlength
        cases i with
        | zero =>
            obtain rfl : p = q := Option.some.inj hq
            exact hfirst.mp heq1
        | succ i =>
            rw [← hnext]
            exact hrest.mp heq2 i q hq
      · intro hfits
        have heq2 := hrest.mpr fun i q hq => by
          rw [hnext]
          exact hfits (i + 1) q hq
        rw [hfirst.mpr (hfits 0 p rfl), heq2]

/-! ### All results -/

/-- `ImplementationLimits::numResults`. -/
def numResults : ℕ := 128

/-- The width of the results on the stack. -/
theorem getStackReturnValueWidth_le (resultTypes : List MachineType) :
    getStackReturnValueWidth resultTypes ≤ 8 * resultTypes.length := by
  rw [getStackReturnValueWidth]
  generalize RegStackTracker.initial = tracker
  induction resultTypes generalizing tracker with
  | nil => exact le_rfl
  | cons type types ih =>
      rw [stackReturnValueWidthFrom, List.length_cons]
      obtain ⟨reg, tracker'⟩ := getREGForReturnValue type tracker
      have hrest := ih tracker'
      cases reg with
      | some r => dsimp only; omega
      | none => dsimp only; omega

/-- The places of results are kept for them. -/
theorem reserved_of_mem_resultLocations {stackParamWidth : ℕ} {resultTypes : List MachineType}
    (htypes : ∀ type ∈ resultTypes, type ≠ .invalid) {p : MachineType × ArgLocation}
    (hp : p ∈ resultLocations stackParamWidth resultTypes) :
    Reserved (stackParamWidth + getStackReturnValueWidth resultTypes) p := by
  have hleft := (resultLocations_pairwise stackParamWidth resultTypes).1 p hp
  have htype := htypes p.1 (type_of_mem_locations hp)
  obtain ⟨type, r | offset⟩ := p
  · refine ⟨fun r' hr' => ?_, nofun⟩
    have hall : ∀ r ∈ returnValueRegs, r.isDATA = true ∧ ¬ (r = .D 14 ∨ r = .D 15) := by decide
    exact hall r' (hleft.2.2 r' hr')
  · refine ⟨nofun, fun offset' hoffset => ?_⟩
    cases hoffset
    rw [accessSize_eq htype]
    exact hleft.2

/-- The tracker behind a result, and the only result that is a pair of registers. -/
theorem resultLocation_tracker (stackParamWidth : ℕ) (type : MachineType)
    {tracker : RegStackTracker} (h : tracker.Results) :
    let result := resultLocation stackParamWidth type tracker
    result.2.Results ∧ result.2.allocatedDRs = 2 ∧
      ∀ r, result.1 = .reg r → type.is64 = true → tracker.allocatedDRs = 0 := by
  obtain ⟨hresults, hdrs, hpair, -, -⟩ := getREGForReturnValue_spec type h
  rw [resultLocation]
  generalize getREGForReturnValue type tracker = result at hresults hdrs hpair ⊢
  obtain ⟨reg, tracker'⟩ := result
  cases reg with
  | some r => exact ⟨hresults, hdrs, fun _ _ h64 => hpair h64 rfl⟩
  | none => exact ⟨hresults, hdrs, by simp⟩

/-- Once registers were taken only 32-bit results are in registers. -/
theorem is64_of_mem_locations {stackParamWidth : ℕ} {tracker : RegStackTracker}
    {types : List MachineType} (h : tracker.Results) (hdrs : tracker.allocatedDRs = 2)
    {type : MachineType} {r : REG}
    (hp : (type, .reg r) ∈ locations (resultLocation stackParamWidth) tracker types) :
    type.is64 = false := by
  induction types generalizing tracker with
  | nil => exact absurd hp List.not_mem_nil
  | cons type' types ih =>
      obtain ⟨hresults, hdrs', hpair⟩ := resultLocation_tracker stackParamWidth type' h
      rw [locations] at hp
      rcases List.mem_cons.mp hp with heq | hp
      · obtain ⟨rfl, hreg⟩ := Prod.mk.inj heq
        rw [Bool.eq_false_iff]
        intro h64
        have hzero := hpair r hreg.symm h64
        rw [hdrs] at hzero
        cases hzero
      · exact ih hresults hdrs' hp

/-- The displacements of the slots of results in registers fit: only the first result is a pair
of registers. -/
theorem regSlotFits_of_mem_resultLocations {stackParamWidth : ℕ} {resultTypes : List MachineType}
    (hlength : resultTypes.length ≤ numResults) {i : ℕ} {p : MachineType × ArgLocation}
    (hp : (resultLocations stackParamWidth resultTypes)[i]? = some p) : RegSlotFits i p := by
  intro r hr
  have hi : i < resultTypes.length := by
    rw [← length_locations (resultLocation stackParamWidth) .initial resultTypes]
    exact (List.getElem?_eq_some_iff.mp hp).1
  rw [numResults] at hlength
  have hword : signedInRange 16 ((i * 8 : ℕ) : ℤ) = true := by
    simp only [signedInRange, decide_eq_true_eq]
    omega
  cases i with
  | zero =>
      rw [Nat.zero_mul]
      cases p.1.is64 <;> decide
  | succ i =>
      cases resultTypes with
      | nil => exact absurd hi (Nat.not_lt_zero _)
      | cons type types =>
          have hinitial : RegStackTracker.initial.Results := .inl ⟨rfl, .inl rfl⟩
          obtain ⟨hresults, hdrs, -⟩ := resultLocation_tracker stackParamWidth type hinitial
          rw [resultLocations, locations, List.getElem?_cons_succ] at hp
          have hfalse : p.1.is64 = false := by
            obtain ⟨type', location⟩ := p
            dsimp only at hr
            subst hr
            exact is64_of_mem_locations hresults hdrs (List.mem_of_getElem? hp)
          rw [hfalse]
          exact hword

/-- **Storing the results is right**: every result is in its slot, and the accesses behind that
to the pointer are those of the places and the slots. -/
def ResultsExact (stackParamWidth : ℕ) (resultTypes : List MachineType) : Prop :=
  let ps := resultLocations stackParamWidth resultTypes
  let code := emitResults stackParamWidth resultTypes
  ∀ m : Machine,
    let sp := m.regs .SP
    let pointer := sp + BitVec.ofNat 32 (returnValuePtrOffset stackParamWidth resultTypes)
    let ptr := m.load pointer
    ByteMemory.Disjoint ptr (8 * resultTypes.length) sp
        (stackParamWidth + getStackReturnValueWidth resultTypes) →
      (∀ (i : ℕ) (p : MachineType × ArgLocation), ps[i]? = some p →
        loadValue (execAll code m) p.1.is64 (ptr + BitVec.ofNat 32 (i * 8)) = argValue sp m p) ∧
      accessesAll code m = (if resultTypes.length = 0 then [] else [⟨false, pointer, 4⟩]) ++
        resultAccesses exactOffset sp ptr 0 ps

/-- The displacement of the pointer to the results fits. -/
theorem returnValuePtrOffset_lt {stackParamWidth : ℕ} (hwidth : stackParamWidth ≤ 8 * numParams)
    {resultTypes : List MachineType} (hlength : resultTypes.length ≤ numResults) :
    returnValuePtrOffset stackParamWidth resultTypes < 2 ^ 15 := by
  have hresults := getStackReturnValueWidth_le resultTypes
  simp only [returnValuePtrOffset, reservationFunctionCall, returnValuesPtr, totalReserved,
    numParams, numResults] at *
  omega

/-- **All results**: the accesses are those of the places and of the slots at the addresses that
the code computes, and with displacements that fit every result is stored to its slot. -/
theorem emitResults_spec {stackParamWidth : ℕ} (hwidth : stackParamWidth ≤ 8 * numParams)
    {resultTypes : List MachineType} (hlength : resultTypes.length ≤ numResults)
    (htypes : ∀ type ∈ resultTypes, type ≠ .invalid) (m : Machine) :
    let ps := resultLocations stackParamWidth resultTypes
    let code := emitResults stackParamWidth resultTypes
    let sp := m.regs .SP
    let pointer := sp + BitVec.ofNat 32 (returnValuePtrOffset stackParamWidth resultTypes)
    let ptr := m.load pointer
    accessesAll code m = (if resultTypes.length = 0 then [] else [⟨false, pointer, 4⟩]) ++
        resultAccesses effectiveOffset sp ptr 0 ps ∧
      (ByteMemory.Disjoint ptr (8 * resultTypes.length) sp
          (stackParamWidth + getStackReturnValueWidth resultTypes) →
        (∀ (i : ℕ) (p : MachineType × ArgLocation), ps[i]? = some p → ResultFits i p) →
        StoredAll sp ptr 0 ps m (execAll code m)) := by
  have hresults := getStackReturnValueWidth_le resultTypes
  cases resultTypes with
  | nil => exact ⟨rfl, fun _ _ => ⟨nofun, fun _ _ => rfl⟩⟩
  | cons type types =>
      have hlt := returnValuePtrOffset_lt hwidth hlength
      generalize hresultTypes : type :: types = resultTypes at *
      have hne : resultTypes.length ≠ 0 := by
        rw [← hresultTypes]
        exact Nat.succ_ne_zero _
      generalize hoffset : returnValuePtrOffset stackParamWidth resultTypes = offset at hlt
      have hdisp : (BitVec.ofNat 16 offset).signExtend 32 = BitVec.ofNat 32 offset := by
        have hrange : signedInRange 16 (offset : ℤ) = true := by
          simp only [signedInRange, decide_eq_true_eq]
          omega
        rw [← BitVec.ofInt_natCast, signExtend_ofInt (by decide) (by decide) hrange,
          BitVec.ofInt_natCast]
      have hload : m.Sets (addrScrReg 2) _ _ :=
        execAll_emitLoadDerefOff16sx (addrScrReg 2) .SP (BitVec.ofNat 16 offset) m
      have haccess := accessesAll_emitLoadDerefOff16sx (addrScrReg 2) .SP
        (BitVec.ofNat 16 offset) m
      rw [hdisp] at hload haccess
      let m1 := execAll (emitLoadDerefOff16sx (addrScrReg 2) .SP (BitVec.ofNat 16 offset)) m
      have hsp : m1.regs .SP = m.regs .SP := hload.changes.regs .SP (by decide)
      have hptr : m1.regs (addrScrReg 2) = m.load (m.regs .SP + BitVec.ofNat 32 offset) := by
        have hregs := congrFun hload.regs (addrScrReg 2)
        rwa [Function.update_self] at hregs
      have hreserved : ∀ p ∈ resultLocations stackParamWidth resultTypes,
          Reserved (stackParamWidth + getStackReturnValueWidth resultTypes) p :=
        fun p hp => reserved_of_mem_resultLocations htypes hp
      have hreg : ∀ (i : ℕ) (p : MachineType × ArgLocation),
          (resultLocations stackParamWidth resultTypes)[i]? = some p → RegSlotFits (0 + i) p := by
        intro i p hp
        rw [Nat.zero_add]
        exact regSlotFits_of_mem_resultLocations hlength hp
      have hcount : (0 + (resultLocations stackParamWidth resultTypes).length) * 8 ≤
          8 * resultTypes.length := by
        rw [resultLocations, length_locations]
        omega
      have hslots : 8 * resultTypes.length ≤ 2 ^ 32 := by
        rw [numResults] at hlength
        omega
      obtain ⟨htrace, hstored⟩ := emitResultsFrom_spec hslots hsp hptr hreg hreserved hcount
      dsimp only
      rw [emitResults, if_neg hne, if_neg hne, hoffset, accessesAll_append, haccess,
        execAll_append]
      refine ⟨congrArg (_ :: ·) htrace, fun hdisjoint hfits => ?_⟩
      have hall := hstored hdisjoint fun i p hp => by
        rw [Nat.zero_add]
        exact hfits i p hp
      refine ⟨fun i p hp => ?_, fun x hx => (hall.mem x hx).trans (congrFun hload.mem x)⟩
      rw [hall.values i p hp]
      refine argValue_congr (fun r hr => hload.changes.regs r ?_) fun x _ => congrFun hload.mem x
      rintro rfl
      exact absurd ((hreserved p (List.mem_of_getElem? hp)).1 _ hr).1 (by decide)

/-- The accesses to the results on the stack and to the slots are the right ones exactly if the
displacements fit. -/
theorem resultAccesses_resultLocations {stackParamWidth : ℕ}
    (hwidth : stackParamWidth ≤ 8 * numParams) {resultTypes : List MachineType}
    (hlength : resultTypes.length ≤ numResults) (htypes : ∀ type ∈ resultTypes, type ≠ .invalid) :
    let ps := resultLocations stackParamWidth resultTypes
    resultAccesses effectiveOffset sp ptr 0 ps = resultAccesses exactOffset sp ptr 0 ps ↔
      ∀ (i : ℕ) (p : MachineType × ArgLocation), ps[i]? = some p → ResultFits i p := by
  have hresults := getStackReturnValueWidth_le resultTypes
  have hcount : (0 + (resultLocations stackParamWidth resultTypes).length) * 8 ≤
      8 * resultTypes.length := by
    rw [resultLocations, length_locations]
    omega
  have hreg : ∀ (i : ℕ) (p : MachineType × ArgLocation),
      (resultLocations stackParamWidth resultTypes)[i]? = some p → RegSlotFits (0 + i) p := by
    intro i p hp
    rw [Nat.zero_add]
    exact regSlotFits_of_mem_resultLocations hlength hp
  rw [numResults] at hlength
  rw [numParams] at hwidth
  dsimp only
  rw [resultAccesses_eq_iff (by omega) (by omega) hreg
    (fun q hq => reserved_of_mem_resultLocations htypes hq) hcount]
  simp only [Nat.zero_add]

/-- **Storing the results is right exactly if the displacements fit.** -/
theorem resultsExact_iff {stackParamWidth : ℕ} (hwidth : stackParamWidth ≤ 8 * numParams)
    {resultTypes : List MachineType} (hlength : resultTypes.length ≤ numResults)
    (htypes : ∀ type ∈ resultTypes, type ≠ .invalid) :
    ResultsExact stackParamWidth resultTypes ↔
      ∀ (i : ℕ) (p : MachineType × ArgLocation),
        (resultLocations stackParamWidth resultTypes)[i]? = some p → ResultFits i p := by
  have hresults := getStackReturnValueWidth_le resultTypes
  constructor
  · intro hexact
    rw [numResults] at hlength
    rw [numParams] at hwidth
    obtain ⟨m, -, hload, hdisjoint⟩ := exists_disjoint (8 * resultTypes.length)
      (stackParamWidth + getStackReturnValueWidth resultTypes) (by omega) (by omega)
    have hptr := hload
      (m.regs .SP + BitVec.ofNat 32 (returnValuePtrOffset stackParamWidth resultTypes))
    rw [← hptr] at hdisjoint
    have htrace := (hexact m hdisjoint).2
    rw [(emitResults_spec (by rw [numParams]; omega) hlength htypes m).1] at htrace
    exact (resultAccesses_resultLocations (by rw [numParams]; omega) hlength htypes).mp
      (List.append_cancel_left htrace)
  · intro hfits m
    obtain ⟨htrace, hstored⟩ := emitResults_spec hwidth hlength htypes m
    dsimp only at htrace hstored ⊢
    intro hdisjoint
    have hall := hstored hdisjoint hfits
    refine ⟨fun i p hp => ?_, ?_⟩
    · have hvalue := hall.values i p hp
      rwa [Nat.zero_add] at hvalue
    · rw [htrace, (resultAccesses_resultLocations hwidth hlength htypes).mpr hfits]

/-! ### The wrapper -/

/-- **The wrapper is right**: it moves the parameters from the slots of the buffer to their places
and stores the results to their slots, without other accesses. -/
def WrapperExact (numGlobalsInGPR : ℕ) (imported : Bool)
    (paramTypes resultTypes : List MachineType) : Prop :=
  ParamsExact numGlobalsInGPR imported paramTypes ∧
    ResultsExact (getStackParamWidth numGlobalsInGPR imported paramTypes) resultTypes

/-- **The wrapper is right exactly if all displacements of values on the stack fit**, and of the
slots of results on the stack. -/
theorem wrapperExact_iff {numGlobalsInGPR : ℕ} (hglobals : numGlobalsInGPR ≤ 1) (imported : Bool)
    {paramTypes resultTypes : List MachineType}
    (hparams : paramTypes.length ≤ numParams) (hresults : resultTypes.length ≤ numResults)
    (hparamTypes : ∀ type ∈ paramTypes, type ≠ .invalid)
    (hresultTypes : ∀ type ∈ resultTypes, type ≠ .invalid) :
    WrapperExact numGlobalsInGPR imported paramTypes resultTypes ↔
      (∀ p ∈ argLocations numGlobalsInGPR imported paramTypes, OffsetFits p) ∧
        ∀ (i : ℕ) (p : MachineType × ArgLocation),
          (resultLocations (getStackParamWidth numGlobalsInGPR imported paramTypes)
            resultTypes)[i]? = some p → ResultFits i p := by
  have hwidth : getStackParamWidth numGlobalsInGPR imported paramTypes ≤ 8 * numParams :=
    (getStackParamWidth_le numGlobalsInGPR imported paramTypes).trans
      (Nat.mul_le_mul_left 8 hparams)
  rw [WrapperExact, paramsExact_iff hglobals hparams hparamTypes,
    resultsExact_iff hwidth hresults hresultTypes]

/-- The wrapper of a function with parameters in registers and on the stack, and with two
results. -/
theorem wrapperExact_of_two : WrapperExact 0 false [.i32, .i64] [.i64, .f64] := by
  refine (wrapperExact_iff (by decide) false (by decide) (by decide) (by decide)
    (by decide)).mpr ⟨fun p hp => ?_, fun i p hp => ?_⟩
  · have hall : ∀ p ∈ argLocations 0 false [.i32, .i64],
        p = (.i32, .reg (.D 8)) ∨ p = (.i64, .stack 0) := by decide
    rcases hall p hp with rfl | rfl
    · exact trivial
    · exact rfl
  · have hresults : resultLocations (getStackParamWidth 0 false [.i32, .i64]) [.i64, .f64] =
        [(.i64, .reg (.D 2)), (.f64, .stack 8)] := by decide
    rw [hresults] at hp
    match i with
    | 0 =>
        obtain rfl : (MachineType.i64, ArgLocation.reg (.D 2)) = p := Option.some.inj hp
        exact trivial
    | 1 =>
        obtain rfl : (MachineType.f64, ArgLocation.stack 8) = p := Option.some.inj hp
        exact ⟨by decide, by decide⟩

/-- The width of parameters of 64 bits, none of which is in a register of the module. -/
theorem getStackParamWidth_replicate (numGlobalsInGPR n : ℕ) :
    getStackParamWidth numGlobalsInGPR false (List.replicate n .i64) = 8 * n := by
  rw [getStackParamWidth]
  induction n with
  | zero => rfl
  | succ n ih =>
      rw [List.replicate_succ, Nat.mul_succ, Nat.add_comm, ← ih]
      rfl

/-- With 65 parameters of 64 bits the first one is 512 bytes above the stack pointer, which does
not fit. -/
theorem not_wrapperExact_of_sixtyFive :
    ¬ WrapperExact 0 false (List.replicate 65 .i64) [] := by
  intro hexact
  have hfits := (paramsExact_iff (by decide) (by decide) fun type htype => by
    rw [List.eq_of_mem_replicate htype]
    decide).mp hexact.1
  have hmem : (MachineType.i64, ArgLocation.stack (getStackParamWidth 0 false
      (List.replicate 65 .i64) - 0 - 8)) ∈ argLocations 0 false (List.replicate 65 .i64) :=
    List.mem_cons_self
  rw [getStackParamWidth_replicate] at hmem
  have hrange : signedInRange 10 512 = true := hfits _ hmem
  exact absurd hrange (by decide)

end TriCore

end WasmCompiler
