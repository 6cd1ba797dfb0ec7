import WasmCompiler.TriCoreRegisterPairs

/-!
# The Calling Convention of TriCore

Where the parameters and the results of a function are: in data registers while there are some
left, and on the stack otherwise. A tracker goes from one parameter to the next one.

## Main results

* `argLocations_pairwise`, `resultLocations_pairwise`: the places of different parameters, and of
  different results, do not overlap, in data registers that the code of a call does not need and
  inside the width that is reserved on the stack.
-/

namespace WasmCompiler

namespace TriCore

/-! ### Trackers -/

/-- `RegStackTracker`. -/
structure RegStackTracker where
  allocatedDRs : ℕ
  missedReg : Option REG
  allocatedStackBytes : ℕ
  deriving DecidableEq, Repr

/-- The tracker before the first parameter. -/
def RegStackTracker.initial : RegStackTracker := ⟨0, none, 0⟩

/-- `NativeABI::paramRegs`. -/
def paramRegs : List REG := [.D 4, .D 5, .D 6, .D 7]

/-- `WasmABI::REGS::returnValueRegs`. -/
def returnValueRegs : List REG := [.D 2, .D 3]

/-- `WasmABI::gpRegsForReturnValues`. -/
def gpRegsForReturnValues : ℕ := 2

/-- `NativeABI::callScrRegs`. -/
def callScrRegs : List REG := [.D 14, .D 15, .D 1]

/-- `widthInStack`. -/
def widthInStack (machineType : MachineType) : ℕ := machineType.getSize

/-- `getREGForArg` for an imported function. -/
def getREGForImportedArg (paramType : MachineType) (tracker : RegStackTracker) :
    Option REG × RegStackTracker :=
  if !paramType.is64 then
    match tracker.missedReg with
    | some targetReg =>
        (some targetReg,
          { tracker with missedReg := none, allocatedDRs := tracker.allocatedDRs + 1 })
    | none =>
        if tracker.allocatedDRs < paramRegs.length then
          (paramRegs[tracker.allocatedDRs]?,
            { tracker with allocatedDRs := tracker.allocatedDRs + 1 })
        else (none, tracker)
  else if tracker.allocatedDRs < paramRegs.length then
    let firstCandidateIdx :=
      if tracker.allocatedDRs % 2 = 0 then tracker.allocatedDRs else tracker.allocatedDRs + 1
    if firstCandidateIdx + 1 < paramRegs.length then
      let newMissedReg :=
        if tracker.allocatedDRs < firstCandidateIdx then paramRegs[tracker.allocatedDRs]? else none
      (paramRegs[firstCandidateIdx]?,
        { tracker with missedReg := newMissedReg, allocatedDRs := tracker.allocatedDRs + 2 })
    else (none, tracker)
  else (none, tracker)

/-- `getREGForArg` for a function of the module, behind the globals in registers. -/
def getREGForInternalArg (numGlobalsInGPR : ℕ) (paramType : MachineType)
    (tracker : RegStackTracker) : Option REG × RegStackTracker :=
  if !paramType.is64 ∧ tracker.allocatedDRs < regsForParams then
    (dr[numGlobalsInGPR + tracker.allocatedDRs]?,
      { tracker with allocatedDRs := tracker.allocatedDRs + 1 })
  else (none, tracker)

/-- `getREGForArg`. -/
def getREGForArg (numGlobalsInGPR : ℕ) (paramType : MachineType) (imported : Bool)
    (tracker : RegStackTracker) : Option REG × RegStackTracker :=
  if imported then getREGForImportedArg paramType tracker
  else getREGForInternalArg numGlobalsInGPR paramType tracker

/-- `offsetInStackArgs`. -/
def offsetInStackArgs (imported : Bool) (paramWidth : ℕ) (tracker : RegStackTracker)
    (paramType : MachineType) : ℕ × RegStackTracker :=
  (if imported then tracker.allocatedStackBytes
    else paramWidth - tracker.allocatedStackBytes - widthInStack paramType,
    { tracker with
      allocatedStackBytes := tracker.allocatedStackBytes + widthInStack paramType })

/-- `getREGForReturnValue`. -/
def getREGForReturnValue (returnValueType : MachineType) (tracker : RegStackTracker) :
    Option REG × RegStackTracker :=
  if returnValueType.is64 then
    if tracker.allocatedDRs < gpRegsForReturnValues then
      (returnValueRegs[tracker.allocatedDRs]?,
        { tracker with allocatedDRs := tracker.allocatedDRs + 2 })
    else (none, tracker)
  else
    match tracker.missedReg with
    | some reg => (some reg, { tracker with missedReg := none })
    | none =>
        if tracker.allocatedDRs < gpRegsForReturnValues - 1 then
          (returnValueRegs[tracker.allocatedDRs]?,
            { tracker with
              missedReg := returnValueRegs[tracker.allocatedDRs + 1]?
              allocatedDRs := tracker.allocatedDRs + 2 })
        else (none, tracker)

/-- `offsetInStackReturnValues`. -/
def offsetInStackReturnValues (tracker : RegStackTracker) (returnValueType : MachineType) :
    ℕ × RegStackTracker :=
  (tracker.allocatedStackBytes,
    { tracker with
      allocatedStackBytes := tracker.allocatedStackBytes + widthInStack returnValueType })

/-! ### Places -/

/-- Where a parameter or a result is: in a register, which is the even one of a pair for a 64-bit
value, or at an offset from the stack pointer of the caller. -/
inductive ArgLocation where
  | reg (reg : REG)
  | stack (offset : ℕ)
  deriving DecidableEq, Repr

/-- The place of a parameter. -/
def argLocation (numGlobalsInGPR : ℕ) (imported : Bool) (stackParamWidth : ℕ)
    (paramType : MachineType) (tracker : RegStackTracker) : ArgLocation × RegStackTracker :=
  match getREGForArg numGlobalsInGPR paramType imported tracker with
  | (some targetReg, tracker') => (.reg targetReg, tracker')
  | (none, tracker') =>
      let (offsetFromSP, tracker'') :=
        offsetInStackArgs imported stackParamWidth tracker' paramType
      (.stack offsetFromSP, tracker'')

/-- The place of a result, behind the parameters. -/
def resultLocation (stackParamWidth : ℕ) (machineType : MachineType)
    (tracker : RegStackTracker) : ArgLocation × RegStackTracker :=
  match getREGForReturnValue machineType tracker with
  | (some srcReg, tracker') => (.reg srcReg, tracker')
  | (none, tracker') =>
      let (offset, tracker'') := offsetInStackReturnValues tracker' machineType
      (.stack (stackParamWidth + offset), tracker'')

/-- The places of values one behind the other. -/
def locations (place : MachineType → RegStackTracker → ArgLocation × RegStackTracker) :
    RegStackTracker → List MachineType → List (MachineType × ArgLocation)
  | _, [] => []
  | tracker, type :: types =>
      let (location, tracker') := place type tracker
      (type, location) :: locations place tracker' types

/-- The types of places. -/
theorem locations_map_fst
    (place : MachineType → RegStackTracker → ArgLocation × RegStackTracker)
    (tracker : RegStackTracker) (types : List MachineType) :
    (locations place tracker types).map Prod.fst = types := by
  induction types generalizing tracker with
  | nil => rfl
  | cons type types ih =>
      rw [locations, List.map_cons, ih]

/-- The number of places. -/
theorem length_locations
    (place : MachineType → RegStackTracker → ArgLocation × RegStackTracker)
    (tracker : RegStackTracker) (types : List MachineType) :
    (locations place tracker types).length = types.length := by
  rw [← List.length_map Prod.fst, locations_map_fst]

/-- `getStackParamWidth`, from a tracker on. -/
def stackParamWidthFrom (numGlobalsInGPR : ℕ) (imported : Bool) :
    RegStackTracker → List MachineType → ℕ
  | _, [] => 0
  | tracker, paramType :: paramTypes =>
      match getREGForArg numGlobalsInGPR paramType imported tracker with
      | (some _, tracker') => stackParamWidthFrom numGlobalsInGPR imported tracker' paramTypes
      | (none, tracker') =>
          widthInStack paramType + stackParamWidthFrom numGlobalsInGPR imported tracker' paramTypes

/-- `getStackParamWidth`. -/
def getStackParamWidth (numGlobalsInGPR : ℕ) (imported : Bool) (paramTypes : List MachineType) :
    ℕ :=
  stackParamWidthFrom numGlobalsInGPR imported .initial paramTypes

/-- The places of the parameters. -/
def argLocations (numGlobalsInGPR : ℕ) (imported : Bool) (paramTypes : List MachineType) :
    List (MachineType × ArgLocation) :=
  locations (argLocation numGlobalsInGPR imported
    (getStackParamWidth numGlobalsInGPR imported paramTypes)) .initial paramTypes

/-- The places of the results. -/
def resultLocations (stackParamWidth : ℕ) (resultTypes : List MachineType) :
    List (MachineType × ArgLocation) :=
  locations (resultLocation stackParamWidth) .initial resultTypes

/-- The registers of a place. -/
def ArgLocation.regs (type : MachineType) : ArgLocation → List REG
  | .reg r => halves type r
  | .stack _ => []

/-- Two places have nothing in common. -/
def ArgLocation.Separate : MachineType × ArgLocation → MachineType × ArgLocation → Prop
  | (type, .reg r), (type', .reg r') => ∀ half ∈ halves type r, half ∉ halves type' r'
  | (type, .stack offset), (type', .stack offset') =>
      offset + widthInStack type ≤ offset' ∨ offset' + widthInStack type' ≤ offset
  | _, _ => True

/-! ### Places do not overlap -/

/-- **Places one behind the other**: what one step of a tracker takes is kept apart from all that
is taken later. -/
theorem locations_spec
    {place : MachineType → RegStackTracker → ArgLocation × RegStackTracker}
    (inv : RegStackTracker → List MachineType → Prop)
    (within : RegStackTracker → MachineType × ArgLocation → Prop)
    (hstep : ∀ tracker type types, inv tracker (type :: types) →
      within tracker (type, (place type tracker).1) ∧ inv (place type tracker).2 types ∧
        ∀ p, within (place type tracker).2 p →
          within tracker p ∧ ArgLocation.Separate (type, (place type tracker).1) p)
    {tracker : RegStackTracker} {types : List MachineType} (h : inv tracker types) :
    (∀ p ∈ locations place tracker types, within tracker p) ∧
      (locations place tracker types).Pairwise ArgLocation.Separate := by
  induction types generalizing tracker with
  | nil => exact ⟨nofun, .nil⟩
  | cons type types ih =>
      obtain ⟨hfirst, hinv, hlater⟩ := hstep tracker type types h
      obtain ⟨hall, hpairwise⟩ := ih hinv
      rw [locations]
      refine ⟨fun p hp => ?_, List.pairwise_cons.mpr ⟨fun p hp => ?_, hpairwise⟩⟩
      · rcases List.mem_cons.mp hp with rfl | hp
        · exact hfirst
        · exact (hlater p (hall p hp)).1
      · exact (hlater p (hall p hp)).2

/-- The registers and the part of the stack that are left. -/
def Left (available : List REG) (low high : ℕ) : MachineType × ArgLocation → Prop
  | (type, .reg r) => r.isDATA = true ∧ (type.is64 = true → r.canBeExtReg = true) ∧
      ∀ half ∈ halves type r, half ∈ available
  | (type, .stack offset) => low ≤ offset ∧ offset + widthInStack type ≤ high

/-- Less is left. -/
theorem Left.mono {available available' : List REG} {low high low' high' : ℕ}
    (hregs : ∀ r ∈ available', r ∈ available) (hlow : low ≤ low') (hhigh : high' ≤ high)
    {p : MachineType × ArgLocation} (h : Left available' low' high' p) :
    Left available low high p := by
  obtain ⟨type, r | offset⟩ := p
  · exact ⟨h.1, h.2.1, fun half hhalf => hregs half (h.2.2 half hhalf)⟩
  · exact ⟨hlow.trans h.1, h.2.trans hhigh⟩

/-- A register that was taken is separate from what is left without it. -/
theorem separate_of_left_reg {available : List REG} {low high : ℕ} {type : MachineType} {r : REG}
    (hregs : ∀ half ∈ halves type r, half ∉ available) {p : MachineType × ArgLocation}
    (h : Left available low high p) : ArgLocation.Separate (type, .reg r) p := by
  obtain ⟨type', r' | offset⟩ := p
  · exact fun half hhalf hhalf' => hregs half hhalf (h.2.2 half hhalf')
  · exact trivial

/-- A slot that was taken is separate from what is left above or below it. -/
theorem separate_of_left_stack {available : List REG} {low high offset : ℕ} {type : MachineType}
    (hslot : offset + widthInStack type ≤ low ∨ high ≤ offset) {p : MachineType × ArgLocation}
    (h : Left available low high p) : ArgLocation.Separate (type, .stack offset) p := by
  obtain ⟨type', r' | offset'⟩ := p
  · exact trivial
  · rcases hslot with hbelow | habove
    · exact .inl (hbelow.trans h.1)
    · exact .inr (h.2.trans habove)

/-- What a step of a tracker does: a register is taken from those that are left, or none. -/
def TakesRegister (left : RegStackTracker → List REG) (type : MachineType)
    (tracker : RegStackTracker) (result : Option REG × RegStackTracker) : Prop :=
  result.2.allocatedStackBytes = tracker.allocatedStackBytes ∧
    match result.1 with
    | some r => (r.isDATA = true ∧ (type.is64 = true → r.canBeExtReg = true) ∧
        ∀ half ∈ halves type r, half ∈ left tracker) ∧
      (∀ r' ∈ left result.2, r' ∈ left tracker) ∧ ∀ half ∈ halves type r, half ∉ left result.2
    | none => result.2 = tracker

/-- The registers that are left for the parameters of an imported function. -/
def RegStackTracker.importedRegs (tracker : RegStackTracker) : List REG :=
  match tracker.missedReg with
  | some r => [r]
  | none => paramRegs.drop tracker.allocatedDRs

/-- The trackers of imported functions: a register is missed only if the pair behind it was
taken. -/
def RegStackTracker.Imported (tracker : RegStackTracker) : Prop :=
  (tracker.missedReg = none ∧ tracker.allocatedDRs ≤ 4) ∨
    (tracker.missedReg = some (.D 5) ∧ tracker.allocatedDRs = 3)

/-- **A step for an imported function**: a register is taken from those that are left, or none. -/
theorem getREGForImportedArg_spec (paramType : MachineType) {tracker : RegStackTracker}
    (h : tracker.Imported) :
    let result := getREGForImportedArg paramType tracker
    result.2.Imported ∧
      TakesRegister RegStackTracker.importedRegs paramType tracker result := by
  obtain ⟨d, missed, bytes⟩ := tracker
  cases h64 : paramType.is64 with
  | false =>
      rcases h with ⟨hmissed, hd⟩ | ⟨hmissed, hd⟩
      · dsimp only at hmissed hd
        subst hmissed
        interval_cases d <;>
          simp [getREGForImportedArg, h64, paramRegs, RegStackTracker.Imported,
            TakesRegister, RegStackTracker.importedRegs, halves, REG.isDATA]
      · dsimp only at hmissed hd
        subst hmissed hd
        simp [getREGForImportedArg, h64, paramRegs, RegStackTracker.Imported,
          TakesRegister, RegStackTracker.importedRegs, halves, REG.isDATA]
  | true =>
      rcases h with ⟨hmissed, hd⟩ | ⟨hmissed, hd⟩
      · dsimp only at hmissed hd
        subst hmissed
        interval_cases d <;>
          simp [getREGForImportedArg, h64, paramRegs, RegStackTracker.Imported,
            TakesRegister, RegStackTracker.importedRegs, halves, REG.isDATA, REG.canBeExtReg,
            REG.getOtherExtReg]
      · dsimp only at hmissed hd
        subst hmissed hd
        simp [getREGForImportedArg, h64, paramRegs, RegStackTracker.Imported,
          TakesRegister]

/-- The registers that are left for the parameters of a function of the module. -/
def RegStackTracker.internalRegs (numGlobalsInGPR : ℕ) (tracker : RegStackTracker) : List REG :=
  (dr.take (numGlobalsInGPR + regsForParams)).drop (numGlobalsInGPR + tracker.allocatedDRs)

/-- **A step for a function of the module.** -/
theorem getREGForInternalArg_spec {numGlobalsInGPR : ℕ} (hglobals : numGlobalsInGPR ≤ 1)
    (paramType : MachineType) {tracker : RegStackTracker} (h : tracker.allocatedDRs ≤ 7) :
    let result := getREGForInternalArg numGlobalsInGPR paramType tracker
    result.2.allocatedDRs ≤ 7 ∧
      TakesRegister (RegStackTracker.internalRegs numGlobalsInGPR) paramType tracker result := by
  obtain ⟨d, missed, bytes⟩ := tracker
  dsimp only at h
  cases h64 : paramType.is64 with
  | true => simp [getREGForInternalArg, h64, h, TakesRegister]
  | false =>
      interval_cases numGlobalsInGPR <;> interval_cases d <;>
        simp [getREGForInternalArg, h64, TakesRegister, RegStackTracker.internalRegs, halves, dr,
          regsForParams, REG.isDATA]

/-- The registers that are left for results. -/
def RegStackTracker.returnRegs (tracker : RegStackTracker) : List REG :=
  match tracker.missedReg with
  | some r => [r]
  | none => returnValueRegs.drop tracker.allocatedDRs

/-- The trackers of results: both registers are taken at once, or the second one is missed. -/
def RegStackTracker.Results (tracker : RegStackTracker) : Prop :=
  (tracker.missedReg = none ∧ (tracker.allocatedDRs = 0 ∨ tracker.allocatedDRs = 2)) ∨
    (tracker.missedReg = some (.D 3) ∧ tracker.allocatedDRs = 2)

/-- **A step for a result.** -/
theorem getREGForReturnValue_spec (type : MachineType) {tracker : RegStackTracker}
    (h : tracker.Results) :
    let result := getREGForReturnValue type tracker
    result.2.Results ∧ result.2.allocatedDRs = 2 ∧
      (type.is64 = true → result.1.isSome = true → tracker.allocatedDRs = 0) ∧
      TakesRegister RegStackTracker.returnRegs type tracker result := by
  obtain ⟨d, missed, bytes⟩ := tracker
  dsimp only [RegStackTracker.Results] at h
  cases h64 : type.is64 with
  | false =>
      rcases h with ⟨rfl, rfl | rfl⟩ | ⟨rfl, rfl⟩ <;>
        simp [getREGForReturnValue, h64, TakesRegister, RegStackTracker.Results,
          RegStackTracker.returnRegs, returnValueRegs, gpRegsForReturnValues, halves, REG.isDATA]
  | true =>
      rcases h with ⟨rfl, rfl | rfl⟩ | ⟨rfl, rfl⟩ <;>
        simp [getREGForReturnValue, h64, TakesRegister, RegStackTracker.Results,
          RegStackTracker.returnRegs, returnValueRegs, gpRegsForReturnValues, halves, REG.isDATA,
          REG.canBeExtReg, REG.getOtherExtReg]

/-- The bytes on the stack do not matter for the registers. -/
theorem getREGForArg_bytes (numGlobalsInGPR : ℕ) (paramType : MachineType) (imported : Bool)
    (tracker : RegStackTracker) (bytes : ℕ) :
    getREGForArg numGlobalsInGPR paramType imported { tracker with allocatedStackBytes := bytes } =
      ((getREGForArg numGlobalsInGPR paramType imported tracker).1,
        { (getREGForArg numGlobalsInGPR paramType imported tracker).2 with
          allocatedStackBytes := bytes }) := by
  simp only [getREGForArg, getREGForImportedArg, getREGForInternalArg]
  obtain ⟨d, missed, _⟩ := tracker
  split <;> dsimp only
  · split
    · cases missed with
      | some r => rfl
      | none => dsimp only; split <;> rfl
    · split
      · split <;> split <;> rfl
      · rfl
  · split <;> rfl

/-- The bytes on the stack do not matter for the width. -/
theorem stackParamWidthFrom_bytes (numGlobalsInGPR : ℕ) (imported : Bool)
    (tracker : RegStackTracker) (bytes : ℕ) (types : List MachineType) :
    stackParamWidthFrom numGlobalsInGPR imported { tracker with allocatedStackBytes := bytes }
        types = stackParamWidthFrom numGlobalsInGPR imported tracker types := by
  induction types generalizing tracker bytes with
  | nil => rfl
  | cons type types ih =>
      rw [stackParamWidthFrom, stackParamWidthFrom, getREGForArg_bytes]
      obtain ⟨reg, tracker'⟩ := getREGForArg numGlobalsInGPR type imported tracker
      cases reg with
      | some r => exact ih tracker' bytes
      | none => exact congrArg (widthInStack type + ·) (ih tracker' bytes)

/-- The trackers of parameters. -/
def RegStackTracker.Params (imported : Bool) (tracker : RegStackTracker) : Prop :=
  if imported then tracker.Imported else tracker.allocatedDRs ≤ 7

/-- The registers that are left for parameters. -/
def RegStackTracker.paramRegs (numGlobalsInGPR : ℕ) (imported : Bool)
    (tracker : RegStackTracker) : List REG :=
  if imported then tracker.importedRegs else tracker.internalRegs numGlobalsInGPR

/-- **A step for a parameter.** -/
theorem getREGForArg_spec {numGlobalsInGPR : ℕ} (hglobals : numGlobalsInGPR ≤ 1)
    (paramType : MachineType) (imported : Bool) {tracker : RegStackTracker}
    (h : tracker.Params imported) :
    let result := getREGForArg numGlobalsInGPR paramType imported tracker
    result.2.Params imported ∧
      TakesRegister (RegStackTracker.paramRegs numGlobalsInGPR imported) paramType tracker
        result := by
  cases imported with
  | true => exact getREGForImportedArg_spec paramType h
  | false => exact getREGForInternalArg_spec hglobals paramType h

/-- What is left for parameters on the stack: what is above the parameters so far for an imported
function, and what is below them for a function of the module. -/
def LeftForParams (numGlobalsInGPR : ℕ) (imported : Bool) (stackParamWidth : ℕ)
    (tracker : RegStackTracker) : MachineType × ArgLocation → Prop :=
  Left (tracker.paramRegs numGlobalsInGPR imported)
    (if imported then tracker.allocatedStackBytes else 0)
    (if imported then stackParamWidth else stackParamWidth - tracker.allocatedStackBytes)

/-- The width that is reserved is what was taken so far and what is needed from here on. -/
def ParamsReserved (numGlobalsInGPR : ℕ) (imported : Bool) (stackParamWidth : ℕ)
    (tracker : RegStackTracker) (types : List MachineType) : Prop :=
  tracker.Params imported ∧ tracker.allocatedStackBytes +
    stackParamWidthFrom numGlobalsInGPR imported tracker types = stackParamWidth

/-- **A step for the place of a parameter.** -/
theorem argLocation_step {numGlobalsInGPR : ℕ} (hglobals : numGlobalsInGPR ≤ 1) (imported : Bool)
    (stackParamWidth : ℕ) (tracker : RegStackTracker) (type : MachineType)
    (types : List MachineType)
    (h : ParamsReserved numGlobalsInGPR imported stackParamWidth tracker (type :: types)) :
    let result := argLocation numGlobalsInGPR imported stackParamWidth type tracker
    LeftForParams numGlobalsInGPR imported stackParamWidth tracker (type, result.1) ∧
      ParamsReserved numGlobalsInGPR imported stackParamWidth result.2 types ∧
      ∀ p, LeftForParams numGlobalsInGPR imported stackParamWidth result.2 p →
        LeftForParams numGlobalsInGPR imported stackParamWidth tracker p ∧
          ArgLocation.Separate (type, result.1) p := by
  obtain ⟨hparams, hwidth⟩ := h
  obtain ⟨hparams', hbytes, htakes⟩ := getREGForArg_spec hglobals type imported hparams
  rw [stackParamWidthFrom] at hwidth
  rw [argLocation]
  generalize getREGForArg numGlobalsInGPR type imported tracker = result at *
  obtain ⟨reg, tracker'⟩ := result
  cases reg with
  | some r =>
      obtain ⟨hleft, hless, hnot⟩ := htakes
      dsimp only at hbytes hwidth hless hnot hparams' ⊢
      refine ⟨hleft, ⟨hparams', by omega⟩, fun p hp => ⟨?_, separate_of_left_reg hnot hp⟩⟩
      exact hp.mono hless (by rw [hbytes]) (by rw [hbytes])
  | none =>
      obtain rfl : tracker' = tracker := htakes
      dsimp only at hwidth hparams' ⊢
      have hwidth' : tracker'.allocatedStackBytes + widthInStack type +
          stackParamWidthFrom numGlobalsInGPR imported tracker' types = stackParamWidth := by
        omega
      refine ⟨?_, ⟨hparams', ?_⟩, fun p hp => ⟨?_, ?_⟩⟩
      · cases imported with
        | true => exact ⟨le_rfl, by simp only [offsetInStackArgs, if_true]; omega⟩
        | false =>
            refine ⟨Nat.zero_le _, ?_⟩
            simp only [offsetInStackArgs, Bool.false_eq_true, if_false]
            omega
      · simp only [offsetInStackArgs]
        rw [stackParamWidthFrom_bytes]
        exact hwidth'
      · refine hp.mono (fun _ => id) ?_ ?_
        · cases imported <;> simp [offsetInStackArgs]
        · cases imported <;> simp [offsetInStackArgs]
          omega
      · refine separate_of_left_stack ?_ hp
        cases imported with
        | true => exact .inl le_rfl
        | false =>
            right
            simp only [offsetInStackArgs, Bool.false_eq_true, if_false]
            omega

/-- **Parameters do not overlap**: they are in the registers for parameters or inside the width
that is reserved on the stack. -/
theorem argLocations_pairwise {numGlobalsInGPR : ℕ} (hglobals : numGlobalsInGPR ≤ 1)
    (imported : Bool) (types : List MachineType) :
    (∀ p ∈ argLocations numGlobalsInGPR imported types,
      Left (RegStackTracker.initial.paramRegs numGlobalsInGPR imported) 0
        (getStackParamWidth numGlobalsInGPR imported types) p) ∧
      (argLocations numGlobalsInGPR imported types).Pairwise ArgLocation.Separate := by
  have hinitial : RegStackTracker.initial.Params imported := by
    cases imported with
    | true => exact .inl ⟨rfl, by decide⟩
    | false => exact Nat.zero_le _
  let stackParamWidth := getStackParamWidth numGlobalsInGPR imported types
  have hreserved : ParamsReserved numGlobalsInGPR imported stackParamWidth .initial types :=
    ⟨hinitial, Nat.zero_add _⟩
  obtain ⟨hall, hpairwise⟩ := locations_spec
    (ParamsReserved numGlobalsInGPR imported stackParamWidth)
    (LeftForParams numGlobalsInGPR imported stackParamWidth)
    (argLocation_step hglobals imported stackParamWidth) hreserved
  refine ⟨fun p hp => ?_, hpairwise⟩
  have hleft := hall p hp
  cases imported with
  | true => exact hleft
  | false => exact hleft

/-- The width of the results on the stack, from a tracker on; every one takes eight bytes. -/
def stackReturnValueWidthFrom : RegStackTracker → List MachineType → ℕ
  | _, [] => 0
  | tracker, type :: types =>
      match getREGForReturnValue type tracker with
      | (some _, tracker') => stackReturnValueWidthFrom tracker' types
      | (none, tracker') => 8 + stackReturnValueWidthFrom tracker' types

/-- `getStackReturnValueWidth`. -/
def getStackReturnValueWidth (resultTypes : List MachineType) : ℕ :=
  stackReturnValueWidthFrom .initial resultTypes

/-- The bytes on the stack do not matter for the register of a result. -/
theorem getREGForReturnValue_bytes (type : MachineType) (tracker : RegStackTracker)
    (bytes : ℕ) :
    getREGForReturnValue type { tracker with allocatedStackBytes := bytes } =
      ((getREGForReturnValue type tracker).1,
        { (getREGForReturnValue type tracker).2 with allocatedStackBytes := bytes }) := by
  obtain ⟨d, missed, _⟩ := tracker
  simp only [getREGForReturnValue]
  split
  · split <;> rfl
  · cases missed with
    | some r => rfl
    | none => dsimp only; split <;> rfl

/-- The bytes on the stack do not matter for the width of the results. -/
theorem stackReturnValueWidthFrom_bytes (tracker : RegStackTracker) (bytes : ℕ)
    (types : List MachineType) :
    stackReturnValueWidthFrom { tracker with allocatedStackBytes := bytes } types =
      stackReturnValueWidthFrom tracker types := by
  induction types generalizing tracker bytes with
  | nil => rfl
  | cons type types ih =>
      rw [stackReturnValueWidthFrom, stackReturnValueWidthFrom, getREGForReturnValue_bytes]
      obtain ⟨reg, tracker'⟩ := getREGForReturnValue type tracker
      cases reg with
      | some r => exact ih tracker' bytes
      | none => exact congrArg (8 + ·) (ih tracker' bytes)

/-- What is left for results. -/
def LeftForResults (stackParamWidth width : ℕ) (tracker : RegStackTracker) :
    MachineType × ArgLocation → Prop :=
  Left tracker.returnRegs (stackParamWidth + tracker.allocatedStackBytes)
    (stackParamWidth + width)

/-- The width that is reserved covers what was taken so far and what is needed from here on. -/
def ResultsReserved (width : ℕ) (tracker : RegStackTracker) (types : List MachineType) : Prop :=
  tracker.Results ∧ tracker.allocatedStackBytes + stackReturnValueWidthFrom tracker types ≤ width

/-- A value takes at most eight bytes. -/
theorem widthInStack_le (type : MachineType) : widthInStack type ≤ 8 := by
  cases type <;> decide

/-- **A step for the place of a result.** -/
theorem resultLocation_step (stackParamWidth width : ℕ) (tracker : RegStackTracker)
    (type : MachineType) (types : List MachineType)
    (h : ResultsReserved width tracker (type :: types)) :
    let result := resultLocation stackParamWidth type tracker
    LeftForResults stackParamWidth width tracker (type, result.1) ∧
      ResultsReserved width result.2 types ∧
      ∀ p, LeftForResults stackParamWidth width result.2 p →
        LeftForResults stackParamWidth width tracker p ∧
          ArgLocation.Separate (type, result.1) p := by
  obtain ⟨hresults, hwidth⟩ := h
  obtain ⟨hresults', -, -, hbytes, htakes⟩ := getREGForReturnValue_spec type hresults
  have hle := widthInStack_le type
  rw [stackReturnValueWidthFrom] at hwidth
  rw [resultLocation]
  generalize getREGForReturnValue type tracker = result at *
  obtain ⟨reg, tracker'⟩ := result
  cases reg with
  | some r =>
      obtain ⟨hleft, hless, hnot⟩ := htakes
      dsimp only at hbytes hwidth hless hnot hresults' ⊢
      refine ⟨hleft, ⟨hresults', by omega⟩, fun p hp => ⟨?_, separate_of_left_reg hnot hp⟩⟩
      exact hp.mono hless (by rw [hbytes]) le_rfl
  | none =>
      obtain rfl : tracker' = tracker := htakes
      dsimp only at hwidth hresults' ⊢
      refine ⟨⟨le_rfl, by simp only [offsetInStackReturnValues]; omega⟩, ⟨hresults', ?_⟩,
        fun p hp => ⟨?_, ?_⟩⟩
      · simp only [offsetInStackReturnValues]
        rw [stackReturnValueWidthFrom_bytes]
        omega
      · refine hp.mono (fun _ => id) ?_ le_rfl
        simp only [offsetInStackReturnValues]
        omega
      · refine separate_of_left_stack (.inl ?_) hp
        simp only [offsetInStackReturnValues]
        omega

/-- **Results do not overlap**: they are in the registers for results or inside the width that is
reserved on the stack behind the parameters. -/
theorem resultLocations_pairwise (stackParamWidth : ℕ) (types : List MachineType) :
    (∀ p ∈ resultLocations stackParamWidth types,
      Left returnValueRegs stackParamWidth
        (stackParamWidth + getStackReturnValueWidth types) p) ∧
      (resultLocations stackParamWidth types).Pairwise ArgLocation.Separate := by
  have hreserved : ResultsReserved (getStackReturnValueWidth types) .initial types :=
    ⟨.inl ⟨rfl, .inl rfl⟩, (Nat.zero_add _).le⟩
  exact locations_spec (ResultsReserved (getStackReturnValueWidth types))
    (LeftForResults stackParamWidth (getStackReturnValueWidth types))
    (resultLocation_step stackParamWidth (getStackReturnValueWidth types)) hreserved

end TriCore

end WasmCompiler
