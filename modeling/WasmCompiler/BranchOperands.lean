import WasmCompiler.RegisterRequests

/-!
# Delivering Branch Operands

A branch brings its operands to the result locations of its target: the first results of
each kind go to result registers, the others to stack slots that were reserved when the
target block was entered. This file embeds the functions that emit the moves
(`Common::condenseMultipleValentBlocksWithTargetHintBelow`, `Common::loadReturnValues`) and
the branch itself (`Backend::emitBranch`), for operands that have been evaluated, and
relates what they deliver to where the operands were.
-/

namespace WasmCompiler

variable {TReg : Type}

/-! ### Result locations -/

/-- The registers and stack bytes assigned to results so far. -/
structure RegStackTracker where
  allocatedGPR : ℕ := 0
  allocatedFPR : ℕ := 0
  allocatedStackBytes : UInt32 := 0
  deriving DecidableEq, Repr

/-- The register for the next result, while there are result registers of its kind. -/
def getREGForReturnValue (ctx : FrameContext TReg) (returnValueType : MachineType)
    (tracker : RegStackTracker) : Option TReg × RegStackTracker :=
  if returnValueType.isInt then
    match ctx.gpRetRegs[tracker.allocatedGPR]? with
    | some reg => (some reg, { tracker with allocatedGPR := tracker.allocatedGPR + 1 })
    | none => (none, tracker)
  else
    match ctx.fpRetRegs[tracker.allocatedFPR]? with
    | some reg => (some reg, { tracker with allocatedFPR := tracker.allocatedFPR + 1 })
    | none => (none, tracker)

/-- The offset of the next result in stack memory. -/
def offsetInStackReturnValues (tracker : RegStackTracker) : UInt32 × RegStackTracker :=
  (tracker.allocatedStackBytes,
    { tracker with allocatedStackBytes := tracker.allocatedStackBytes + 8 })

/-- The location of the next result of a target whose results in stack memory start at an
offset. -/
def resultLocation (ctx : FrameContext TReg) (stackFramePosition : UInt32)
    (tracker : RegStackTracker) (machineType : MachineType) :
    VariableStorage TReg × RegStackTracker :=
  match getREGForReturnValue ctx machineType tracker with
  | (some targetReg, tracker) => (.reg machineType targetReg, tracker)
  | (none, tracker) =>
      (.stackMemory machineType (stackFramePosition - (offsetInStackReturnValues tracker).1),
        (offsetInStackReturnValues tracker).2)

/-- The locations of the results of a target. -/
def resultLocations (ctx : FrameContext TReg) (stackFramePosition : UInt32) :
    RegStackTracker → List MachineType → List (VariableStorage TReg)
  | _, [] => []
  | tracker, machineType :: types =>
      (resultLocation ctx stackFramePosition tracker machineType).1 ::
        resultLocations ctx stackFramePosition
          (resultLocation ctx stackFramePosition tracker machineType).2 types

/-- The width of the results in stack memory. -/
def getStackReturnValueWidth (ctx : FrameContext TReg) :
    RegStackTracker → List MachineType → UInt32
  | _, [] => 0
  | tracker, returnValueType :: types =>
      match getREGForReturnValue ctx returnValueType tracker with
      | (some _, tracker) => getStackReturnValueWidth ctx tracker types
      | (none, tracker) => getStackReturnValueWidth ctx tracker types + 8

/-- `ImplementationLimits::numResults`, also the limit for the parameters of a loop. -/
def numResults : ℕ := 128

/-- Where a result may be once some have been assigned: in a result register behind those
in use, or in stack memory behind the bytes in use. -/
inductive ResultPlace (ctx : FrameContext TReg) (stackFramePosition : UInt32)
    (tracker : RegStackTracker) (width : UInt32) : VariableStorage TReg → Prop where
  | gpr (machineType : MachineType) (i : ℕ) (reg : TReg) (h : tracker.allocatedGPR ≤ i)
      (hreg : ctx.gpRetRegs[i]? = some reg) (hint : machineType.isInt = true) :
      ResultPlace ctx stackFramePosition tracker width (.reg machineType reg)
  | fpr (machineType : MachineType) (i : ℕ) (reg : TReg) (h : tracker.allocatedFPR ≤ i)
      (hreg : ctx.fpRetRegs[i]? = some reg) (hint : machineType.isInt = false) :
      ResultPlace ctx stackFramePosition tracker width (.reg machineType reg)
  | slot (machineType : MachineType) (offset : UInt32)
      (hlow : tracker.allocatedStackBytes ≤ offset)
      (hle : offset ≤ tracker.allocatedStackBytes + width)
      (hhigh : offset + 8 ≤ tracker.allocatedStackBytes + width) :
      ResultPlace ctx stackFramePosition tracker width
        (.stackMemory machineType (stackFramePosition - offset))

/-- The width grows by eight bytes for each result at most. -/
theorem getStackReturnValueWidth_le (ctx : FrameContext TReg) :
    ∀ (types : List MachineType) (tracker : RegStackTracker), 8 * types.length ≤ 0x10000 →
      (getStackReturnValueWidth ctx tracker types).toNat ≤ 8 * types.length
  | [], _, _ => by simp [getStackReturnValueWidth]
  | returnValueType :: types, tracker, hlength => by
      simp only [List.length_cons] at hlength
      simp only [getStackReturnValueWidth, List.length_cons]
      split
      · case _ tracker' _ =>
          have ih := getStackReturnValueWidth_le ctx types tracker' (by omega)
          omega
      · case _ tracker' _ =>
          have ih := getStackReturnValueWidth_le ctx types tracker' (by omega)
          rw [UInt32.toNat_add]
          simp only [UInt32.reduceToNat]
          omega

/-- Results assigned later are behind those assigned before. -/
theorem ResultPlace.later {ctx : FrameContext TReg} {stackFramePosition : UInt32}
    {tracker tracker' : RegStackTracker} {width width' : UInt32} {s : VariableStorage TReg}
    (h : ResultPlace ctx stackFramePosition tracker' width' s)
    (hgpr : tracker.allocatedGPR ≤ tracker'.allocatedGPR)
    (hfpr : tracker.allocatedFPR ≤ tracker'.allocatedFPR)
    (hlow : tracker.allocatedStackBytes ≤ tracker'.allocatedStackBytes)
    (hhigh : tracker'.allocatedStackBytes + width' = tracker.allocatedStackBytes + width) :
    ResultPlace ctx stackFramePosition tracker width s := by
  cases h with
  | gpr machineType i reg hi hreg hint => exact .gpr _ i reg (by omega) hreg hint
  | fpr machineType i reg hi hreg hint => exact .fpr _ i reg (by omega) hreg hint
  | slot machineType offset hl hle hh =>
      exact .slot _ offset (UInt32.le_trans hlow hl) (hhigh ▸ hle) (hhigh ▸ hh)

/-- What assigning one result does to the tracker. -/
theorem getREGForReturnValue_spec (ctx : FrameContext TReg) (machineType : MachineType)
    (tracker : RegStackTracker) :
    (∃ reg, getREGForReturnValue ctx machineType tracker =
        (some reg, { tracker with allocatedGPR := tracker.allocatedGPR + 1 }) ∧
        ctx.gpRetRegs[tracker.allocatedGPR]? = some reg ∧ machineType.isInt = true) ∨
      (∃ reg, getREGForReturnValue ctx machineType tracker =
        (some reg, { tracker with allocatedFPR := tracker.allocatedFPR + 1 }) ∧
        ctx.fpRetRegs[tracker.allocatedFPR]? = some reg ∧ machineType.isInt = false) ∨
      getREGForReturnValue ctx machineType tracker = (none, tracker) := by
  simp only [getREGForReturnValue]
  cases hint : machineType.isInt with
  | true => cases hreg : ctx.gpRetRegs[tracker.allocatedGPR]? <;> simp
  | false => cases hreg : ctx.fpRetRegs[tracker.allocatedFPR]? <;> simp

/-- A result register among those behind the tracker is no register assigned before. -/
theorem ResultPlace.cell_ne_register {ctx : FrameContext TReg} {stackFramePosition : UInt32}
    {tracker : RegStackTracker} {width : UInt32} {s : VariableStorage TReg}
    (h : ResultPlace ctx stackFramePosition tracker width s) {i : ℕ} {reg : TReg}
    (hreg : (ctx.gpRetRegs[i]? = some reg ∧ i < tracker.allocatedGPR) ∨
      (ctx.fpRetRegs[i]? = some reg ∧ i < tracker.allocatedFPR)) :
    s.cell? ≠ some (.register reg) := by
  have hsame : ∀ {l : List TReg} {a b : ℕ} {r : TReg}, l.Nodup → l[a]? = some r →
      l[b]? = some r → a = b := fun hn ha hb =>
    (List.getElem?_inj (List.getElem?_eq_some_iff.mp ha).1 hn).mp (ha.trans hb.symm)
  have hgp : ∀ {a : ℕ} {r : TReg}, ctx.gpRetRegs[a]? = some r → r ∈ ctx.gpr :=
    fun ha => ctx.gpRetRegs_subset _ (List.mem_of_getElem? ha)
  have hfp : ∀ {a : ℕ} {r : TReg}, ctx.fpRetRegs[a]? = some r → r ∈ ctx.fpr :=
    fun ha => ctx.fpRetRegs_subset _ (List.mem_of_getElem? ha)
  intro hcell
  cases h with
  | gpr machineType j r hj hr hint =>
      obtain rfl : r = reg := by
        simpa [VariableStorage.cell?, VariableStorage.reg, StorageLocation.cell?] using hcell
      rcases hreg with ⟨hi, hlt⟩ | ⟨hi, -⟩
      · have := hsame ctx.gpRetRegs_nodup hr hi
        omega
      · exact ctx.gpr_disjoint_fpr r (hgp hr) (hfp hi)
  | fpr machineType j r hj hr hint =>
      obtain rfl : r = reg := by
        simpa [VariableStorage.cell?, VariableStorage.reg, StorageLocation.cell?] using hcell
      rcases hreg with ⟨hi, -⟩ | ⟨hi, hlt⟩
      · exact ctx.gpr_disjoint_fpr r (hgp hi) (hfp hr)
      · have := hsame ctx.fpRetRegs_nodup hr hi
        omega
  | slot machineType offset _ _ _ =>
      simp [VariableStorage.cell?, VariableStorage.stackMemory, StorageLocation.cell?] at hcell

/-- The bytes assigned before play no role for the register of the next result. -/
theorem getREGForReturnValue_bytes (ctx : FrameContext TReg) (machineType : MachineType)
    (tracker : RegStackTracker) (bytes : UInt32) :
    getREGForReturnValue ctx machineType { tracker with allocatedStackBytes := bytes } =
      ((getREGForReturnValue ctx machineType tracker).1,
        { (getREGForReturnValue ctx machineType tracker).2 with
          allocatedStackBytes := bytes }) := by
  simp only [getREGForReturnValue]
  cases machineType.isInt with
  | true => cases ctx.gpRetRegs[tracker.allocatedGPR]? <;> rfl
  | false => cases ctx.fpRetRegs[tracker.allocatedFPR]? <;> rfl

/-- The width does not depend on the bytes assigned before. -/
theorem getStackReturnValueWidth_bytes (ctx : FrameContext TReg) :
    ∀ (types : List MachineType) (tracker : RegStackTracker) (bytes : UInt32),
      getStackReturnValueWidth ctx { tracker with allocatedStackBytes := bytes } types =
        getStackReturnValueWidth ctx tracker types
  | [], _, _ => rfl
  | machineType :: types, tracker, bytes => by
      simp only [getStackReturnValueWidth, getREGForReturnValue_bytes]
      cases hreg : getREGForReturnValue ctx machineType tracker with
      | mk reg tracker' =>
          cases reg <;> simp [getStackReturnValueWidth_bytes ctx types]

/-- **Every result has a place of its own**: the locations are places behind the tracker,
and no two are the same cell. -/
theorem resultLocations_spec (ctx : FrameContext TReg) (stackFramePosition : UInt32) :
    ∀ (types : List MachineType) (tracker : RegStackTracker),
      tracker.allocatedStackBytes.toNat + 8 * types.length ≤ 0x10000 →
      (∀ s ∈ resultLocations ctx stackFramePosition tracker types,
        ResultPlace ctx stackFramePosition tracker (getStackReturnValueWidth ctx tracker types)
          s) ∧
      (resultLocations ctx stackFramePosition tracker types).Pairwise
        (fun a b => a.cell? ≠ b.cell?)
  | [], _, _ => by simp [resultLocations]
  | machineType :: types, tracker, hbound => by
      simp only [List.length_cons] at hbound
      have hwidth := fun tracker' =>
        getStackReturnValueWidth_le ctx types tracker' (by omega)
      simp only [resultLocations, resultLocation, getStackReturnValueWidth,
        List.forall_mem_cons, List.pairwise_cons]
      rcases getREGForReturnValue_spec ctx machineType tracker with
        ⟨reg, heq, hreg, hint⟩ | ⟨reg, heq, hreg, hint⟩ | heq
      · simp only [heq]
        obtain ⟨hplace, hpair⟩ := resultLocations_spec ctx stackFramePosition types
          { tracker with allocatedGPR := tracker.allocatedGPR + 1 } (by simp only; omega)
        refine ⟨⟨.gpr machineType _ reg (Nat.le_refl _) hreg hint, fun s hs =>
          (hplace s hs).later (by simp) (by simp) (by simp) rfl⟩, fun s hs hcell => ?_, hpair⟩
        exact (hplace s hs).cell_ne_register (Or.inl ⟨hreg, by simp⟩) hcell.symm
      · simp only [heq]
        obtain ⟨hplace, hpair⟩ := resultLocations_spec ctx stackFramePosition types
          { tracker with allocatedFPR := tracker.allocatedFPR + 1 } (by simp only; omega)
        refine ⟨⟨.fpr machineType _ reg (Nat.le_refl _) hreg hint, fun s hs =>
          (hplace s hs).later (by simp) (by simp) (by simp) rfl⟩, fun s hs hcell => ?_, hpair⟩
        exact (hplace s hs).cell_ne_register (Or.inr ⟨hreg, by simp⟩) hcell.symm
      · simp only [heq, offsetInStackReturnValues]
        have hnext : (tracker.allocatedStackBytes + 8).toNat =
            tracker.allocatedStackBytes.toNat + 8 := by
          rw [UInt32.toNat_add]
          simp only [UInt32.reduceToNat]
          omega
        obtain ⟨hplace, hpair⟩ := resultLocations_spec ctx stackFramePosition types
          { tracker with allocatedStackBytes := tracker.allocatedStackBytes + 8 }
          (by simp only [hnext]; omega)
        have hw := hwidth tracker
        have hw' := hwidth { tracker with allocatedStackBytes := tracker.allocatedStackBytes + 8 }
        -- the width does not depend on the bytes assigned so far
        have hsame : getStackReturnValueWidth ctx
            { tracker with allocatedStackBytes := tracker.allocatedStackBytes + 8 } types =
            getStackReturnValueWidth ctx tracker types := getStackReturnValueWidth_bytes ctx types _ _
        rw [hsame] at hplace
        generalize getStackReturnValueWidth ctx tracker types = width at *
        have hle : width ≤ 0x10000 :=
          UInt32.le_iff_toNat_le.mpr (by simp only [UInt32.reduceToNat]; omega)
        have hle' : tracker.allocatedStackBytes ≤ 0x10000 :=
          UInt32.le_iff_toNat_le.mpr (by simp only [UInt32.reduceToNat]; omega)
        clear hw' hwidth hbound hnext hw
        refine ⟨⟨.slot machineType _ (UInt32.le_refl _) (by grind) (by grind), fun s hs =>
          (hplace s hs).later (by simp) (by simp) (by simp only; grind) (by simp only; grind)⟩,
          fun s hs hcell => ?_, hpair⟩
        rcases hplace s hs with ⟨mt, i, reg, -, -, -⟩ | ⟨mt, i, reg, -, -, -⟩ |
          ⟨mt, offset, hlow, hoffset, hhigh⟩
        · simp [VariableStorage.cell?, VariableStorage.reg, VariableStorage.stackMemory,
            StorageLocation.cell?] at hcell
        · simp [VariableStorage.cell?, VariableStorage.reg, VariableStorage.stackMemory,
            StorageLocation.cell?] at hcell
        · simp only [VariableStorage.cell?, VariableStorage.stackMemory, StorageLocation.cell?,
            Option.some.injEq, Cell.stackMemory.injEq] at hcell
          simp only at hlow hoffset hhigh
          clear hplace hpair heq hsame hs
          grind

/-- The target of a branch: the types it takes, where its results in stack memory start, and
the frame size it expects. The function itself has its results at the base of the frame; the
results of an open block are in the part of the frame that was reserved for them. -/
structure BranchTarget (ctx : FrameContext TReg) where
  types : List MachineType
  blockResultsStackOffset : UInt32
  entryStackFrameSize : UInt32
  types_valid : ∀ machineType ∈ types, machineType ≠ .invalid
  types_length : types.length ≤ numResults
  region : blockResultsStackOffset = 0 ∨
    (ctx.fixedStackFrameWidth ≤
        blockResultsStackOffset - getStackReturnValueWidth ctx {} types ∧
      getStackReturnValueWidth ctx {} types ≤ blockResultsStackOffset ∧
      blockResultsStackOffset ≤ ctx.minimalStackFrameSize)

/-- The result locations of a target. -/
def BranchTarget.locations {ctx : FrameContext TReg} (target : BranchTarget ctx) :
    List (VariableStorage TReg) :=
  resultLocations ctx target.blockResultsStackOffset {} target.types

/-- Where results in stack memory can be: in the part of the frame that open blocks have
reserved, or at the base of the frame. -/
def ResultSlot (ctx : FrameContext TReg) (stackFramePosition : UInt32) : Prop :=
  (ctx.fixedStackFrameWidth < stackFramePosition ∧
      stackFramePosition ≤ ctx.minimalStackFrameSize) ∨
    stackFramePosition = 0 ∨ maxStackFrameSize < stackFramePosition

/-- A location a result may be delivered to: a scratch register of the result's kind, or a
result slot. -/
def Deliverable (ctx : FrameContext TReg) (s : VariableStorage TReg) : Prop :=
  match s.location with
  | .register reg => reg ∈ ctx.allocableRegs s.machineType
  | .stackMemory stackFramePosition => ResultSlot ctx stackFramePosition
  | _ => False

/-- Relocating elements never writes a result slot. -/
theorem ResultSlot.kept [DecidableEq TReg] {ctx : FrameContext TReg} {p : UInt32}
    (h : ResultSlot ctx p) (protRegs : RegMask TReg) : Kept ctx protRegs (.stackMemory p) := by
  rcases h with h | rfl | h
  · exact Or.inl h.2
  · exact Or.inl (UInt32.zero_le)
  · exact Or.inr h

/-- Every result location can be delivered to. -/
theorem BranchTarget.deliverable {ctx : FrameContext TReg} (target : BranchTarget ctx) :
    ∀ s ∈ target.locations, Deliverable ctx s := by
  have hlength := target.types_length
  have hbound : 8 * target.types.length ≤ 0x10000 := by simp only [numResults] at hlength; omega
  have hwidth := getStackReturnValueWidth_le ctx target.types {} hbound
  intro s hs
  have hspec := (resultLocations_spec ctx target.blockResultsStackOffset target.types {}
    (by simpa using hbound)).1 s hs
  cases hspec with
  | gpr machineType i reg _ hreg hint =>
      have := ctx.gpRetRegs_subset reg (List.mem_of_getElem? hreg)
      simpa [Deliverable, VariableStorage.reg, FrameContext.allocableRegs, hint] using this
  | fpr machineType i reg _ hreg hint =>
      have := ctx.fpRetRegs_subset reg (List.mem_of_getElem? hreg)
      simpa [Deliverable, VariableStorage.reg, FrameContext.allocableRegs, hint] using this
  | slot machineType offset hlow hoffset hhigh =>
      have hle : getStackReturnValueWidth ctx {} target.types ≤ 0x10000 :=
        UInt32.le_iff_toNat_le.mpr (by simp only [UInt32.reduceToNat]; omega)
      have hregion := target.region
      have hfixed := ctx.fixed_le_minimal
      simp only [Deliverable, VariableStorage.stackMemory, ResultSlot, maxStackFrameSize]
      generalize getStackReturnValueWidth ctx {} target.types = width at *
      generalize target.blockResultsStackOffset = start at *
      simp only at hlow hoffset hhigh
      clear hs hlength hbound hwidth
      rcases hregion with rfl | ⟨hstart, hfits, hmin⟩
      · right
        grind
      · have hbelow : offset + 8 ≤ start := by grind
        have hslot : start - width + 8 ≤ start - offset := by grind
        have hroom : start - width ≤ start - 8 := by grind
        exact Or.inl ⟨by grind, by grind⟩

end WasmCompiler
