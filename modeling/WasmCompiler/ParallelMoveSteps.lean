import WasmCompiler.ParallelMoveResolver

/-!
# The Steps of the Parallel Move Resolver

Between two operations it emits, the resolver is at one of few points of its loops. `stepTemp`
and `stepSwap` lead from one such point to the next, and the loops of
`ParallelMoveResolver` are runs of these steps: whatever holds at every point of every run
holds between any two operations of a resolution.

## Main results

* `emits_resolveTemp`, `emits_resolveSwap`: a resolution is a run of steps that emits the same
  operations.
-/

namespace WasmCompiler

/-! ### Runs -/

section Runs

variable {State Output : Type} (step : State → Option (Output × State))

/-- The run from one state to another emits these outputs. -/
inductive Emits : State → List Output → State → Prop where
  | nil (s : State) : Emits s [] s
  | cons {s s' s'' : State} {output : Output} {outputs : List Output}
      (first : step s = some (output, s')) (rest : Emits s' outputs s'') :
      Emits s (output :: outputs) s''

variable {step}

/-- Two runs in a row. -/
theorem Emits.append {s s' s'' : State} {outputs outputs' : List Output}
    (h : Emits step s outputs s') (h' : Emits step s' outputs' s'') :
    Emits step s (outputs ++ outputs') s'' := by
  induction h with
  | nil => exact h'
  | cons first _ ih => exact .cons first (ih h')

/-- What holds at first and is kept by every step holds after every run. -/
theorem Emits.invariant (Inv : State → Prop) {s s' : State} {outputs : List Output}
    (h : Emits step s outputs s') (hfirst : Inv s)
    (hstep : ∀ s output s', Inv s → step s = some (output, s') → Inv s') : Inv s' := by
  induction h with
  | nil => exact hfirst
  | cons first _ ih => exact ih (hstep _ _ _ hfirst first)

end Runs

open ParallelMoveResolver

variable {TReg : Type}

/-! ### Points -/

/-- A point of the loops between two operations. -/
inductive ResolverPoint (TReg : Type) where
  /-- In `moveAllWithoutConflict`. -/
  | moving
  /-- In `resolveCycleImpl` with a temp, after the head of the cycle has been saved: what was
  read last may be overwritten. -/
  | hole (cycleHead : ParallelMoveRecord TReg) (tempStorage freedLocation : VariableStorage TReg)
  /-- In `resolveCycleImpl` with swaps, at a record of a cycle. The targets of the first record
  of the cycle are not in the source, where nothing reads them. -/
  | swapping (swapContains64 : Bool) (first : List (VariableStorage TReg)) (swapIndex : ℕ)

/-- A point, and the resolver there. -/
abbrev ResolverState (TReg : Type) : Type := ResolverPoint TReg × ParallelMoveResolver TReg

variable [DecidableEq TReg] (isImmediateEncodableInOneInstruction : MachineType → Word → Bool)
  (tempProvider : ParallelMoveResolver TReg → VariableStorage TReg → TReg)

/-- The targets of a record, and of its placeholder. -/
def targetsAt (r : ParallelMoveResolver TReg) (index : ℕ) : List (VariableStorage TReg) :=
  (r.recordAt index).target ::
    if (r.recordAt index).targetType = .extend then [(r.recordAt (index + 1)).target] else []

/-- Unmark the source of a record and erase the record. -/
def resolveRecord (r : ParallelMoveResolver TReg) (index : ℕ) : ParallelMoveResolver TReg :=
  (r.unmarkSourceAsUsed (r.recordAt index).source).eraseRecordWithExtendPlaceholder index

/-- The next operation of a resolution with a temp. -/
def stepTemp : ResolverState TReg → Option (Action TReg × ResolverState TReg)
  | (.moving, r) =>
      match r.tryMove isImmediateEncodableInOneInstruction with
      | some (action, r') => some (action, .moving, r')
      | none =>
          match r.getFirstOperationalRecord with
          | none => none
          | some cycleHeadIndex =>
              let cycleHead := r.recordAt cycleHeadIndex
              let tempStorage : VariableStorage TReg :=
                .reg cycleHead.source.machineType (tempProvider r cycleHead.source)
              some (.move tempStorage cycleHead.source,
                .hole cycleHead tempStorage cycleHead.source, resolveRecord r cycleHeadIndex)
  | (.hole cycleHead tempStorage freedLocation, r) =>
      match r.findRecordTargetingFreedLocation freedLocation with
      | some nextIndex =>
          let record := r.recordAt nextIndex
          some (.move record.target record.source, .hole cycleHead tempStorage record.source,
            resolveRecord r nextIndex)
      | none => some (.move cycleHead.target tempStorage, .moving, r)
  | (.swapping _ _ _, _) => none

/-- Go on with the next cycle, if there is one. -/
def nextCycle (swapContains64 : Bool) (r : ParallelMoveResolver TReg) : ResolverState TReg :=
  match r.getFirstOperationalRecord with
  | none => (.moving, r)
  | some swapIndex => (.swapping swapContains64 (targetsAt r swapIndex) swapIndex, r)

/-- Swap at a record of a cycle. -/
def swapAt (swapContains64 : Bool) (first : List (VariableStorage TReg))
    (r : ParallelMoveResolver TReg) (swapIndex : ℕ) : Action TReg × ResolverState TReg :=
  let record := r.recordAt swapIndex
  let r' := r.markAsSwapped swapIndex
  (.swap record.target record.source swapContains64,
    match r'.findRecordTargetingFreedLocation record.source with
    | none => nextCycle swapContains64 r'
    | some next =>
        match r'.findRecordTargetingFreedLocation (r'.recordAt next).source with
        | none => nextCycle swapContains64 (r'.markAsSwapped next)
        | some _ => (.swapping swapContains64 first next, r'))

/-- The next operation of a resolution with swaps. -/
def stepSwap : ResolverState TReg → Option (Action TReg × ResolverState TReg)
  | (.moving, r) =>
      match r.tryMove isImmediateEncodableInOneInstruction with
      | some (action, r') => some (action, .moving, r')
      | none =>
          match r.getFirstOperationalRecord with
          | none => none
          | some swapIndex =>
              some (swapAt r.remainingCycleContains64BitTarget (targetsAt r swapIndex) r swapIndex)
  | (.swapping swapContains64 first swapIndex, r) => some (swapAt swapContains64 first r swapIndex)
  | (.hole _ _ _, _) => none

/-! ### The loops are runs -/

variable {isImmediateEncodableInOneInstruction} {tempProvider}
  {r r' : ParallelMoveResolver TReg} {actions : List (Action TReg)} {fuel : ℕ}

/-- A step does what `tryMove` does, where the loop of `moveAllWithoutConflict` is. -/
def TriesMove (isImmediateEncodableInOneInstruction : MachineType → Word → Bool)
    (step : ResolverState TReg → Option (Action TReg × ResolverState TReg)) : Prop :=
  ∀ r action r', r.tryMove isImmediateEncodableInOneInstruction = some (action, r') →
    step (.moving, r) = some (action, .moving, r')

/-- So does the step with a temp. -/
theorem stepTemp_triesMove : TriesMove isImmediateEncodableInOneInstruction
    (stepTemp isImmediateEncodableInOneInstruction tempProvider) := by
  intro r action r' h
  simp only [stepTemp, h]

/-- And the one with swaps. -/
theorem stepSwap_triesMove : TriesMove isImmediateEncodableInOneInstruction
    (stepSwap isImmediateEncodableInOneInstruction : ResolverState TReg → _) := by
  intro r action r' h
  simp only [stepSwap, h]

/-- `moveAllWithoutConflict` is a run that ends where nothing can be moved. -/
theorem emits_moveAll {step : ResolverState TReg → Option (Action TReg × ResolverState TReg)}
    (hstep : TriesMove isImmediateEncodableInOneInstruction step)
    (h : r.moveAllWithoutConflict isImmediateEncodableInOneInstruction fuel = some (actions, r')) :
    Emits step (.moving, r) actions (.moving, r') ∧
      r'.tryMove isImmediateEncodableInOneInstruction = none := by
  induction fuel generalizing r actions with
  | zero => simp [moveAllWithoutConflict] at h
  | succ fuel ih =>
      rw [moveAllWithoutConflict] at h
      split at h
      · case _ hstop =>
          obtain ⟨rfl, rfl⟩ := Prod.mk.inj (Option.some.inj h)
          exact ⟨.nil _, hstop⟩
      · case _ action r₁ hmove =>
          rw [Option.bind_eq_bind, Option.bind_eq_some_iff] at h
          obtain ⟨⟨rest, r₂⟩, hrest, heq⟩ := h
          obtain ⟨rfl, rfl⟩ := Prod.mk.inj (Option.some.inj heq)
          obtain ⟨hemits, hstop⟩ := ih hrest
          exact ⟨.cons (hstep _ _ _ hmove) hemits, hstop⟩

/-- `resolveLinear` is a run that starts with the counts of all records. -/
theorem emits_resolveLinear
    {step : ResolverState TReg → Option (Action TReg × ResolverState TReg)}
    (hstep : TriesMove isImmediateEncodableInOneInstruction step)
    (h : r.resolveLinear isImmediateEncodableInOneInstruction fuel = some (actions, r')) :
    Emits step (.moving, r.initSourceUsage) actions (.moving, r') ∧
      (r'.recordsCount ≠ 0 → r'.tryMove isImmediateEncodableInOneInstruction = none) := by
  rw [resolveLinear] at h
  split at h
  · obtain ⟨hemits, hstop⟩ := emits_moveAll hstep h
    exact ⟨hemits, fun _ => hstop⟩
  · case _ hzero =>
      rw [not_not] at hzero
      obtain ⟨rfl, rfl⟩ := Prod.mk.inj (Option.some.inj h)
      have hinit : r.initSourceUsage = r := by simp [initSourceUsage, hzero]
      rw [hinit]
      exact ⟨.nil _, fun hne => absurd hzero hne⟩

/-- Following the hole is a run that ends where no record targets the freed location. -/
theorem emits_chaseHole {cycleHead : ParallelMoveRecord TReg}
    {tempStorage freedLocation : VariableStorage TReg}
    (h : chaseHole fuel r (r.findRecordTargetingFreedLocation freedLocation) =
      some (actions, r')) :
    Emits (stepTemp isImmediateEncodableInOneInstruction tempProvider)
      (.hole cycleHead tempStorage freedLocation, r)
      (actions ++ [.move cycleHead.target tempStorage]) (.moving, r') := by
  induction fuel generalizing r actions freedLocation with
  | zero => simp [chaseHole] at h
  | succ fuel ih =>
      cases hfind : r.findRecordTargetingFreedLocation freedLocation with
      | none =>
          simp only [hfind, chaseHole] at h
          obtain ⟨rfl, rfl⟩ := Prod.mk.inj (Option.some.inj h)
          exact .cons (by simp only [stepTemp, hfind]) (.nil _)
      | some nextIndex =>
          simp only [hfind, chaseHole, Option.bind_eq_bind, Option.bind_eq_some_iff] at h
          obtain ⟨⟨rest, r₁⟩, hrest, heq⟩ := h
          obtain ⟨rfl, rfl⟩ := Prod.mk.inj (Option.some.inj heq)
          exact .cons (by simp only [stepTemp, resolveRecord, hfind]) (ih hrest)

/-- A cycle with a temp is a run. -/
theorem emits_resolveCycleImplTemp
    (hstop : r.tryMove isImmediateEncodableInOneInstruction = none)
    (h : r.resolveCycleImplTemp tempProvider fuel = some (actions, r')) :
    Emits (stepTemp isImmediateEncodableInOneInstruction tempProvider) (.moving, r) actions
      (.moving, r') := by
  rw [resolveCycleImplTemp] at h
  split at h
  · obtain ⟨rfl, rfl⟩ := Prod.mk.inj (Option.some.inj h)
    exact .nil _
  · case _ cycleHeadIndex hfirst =>
      simp only [Option.bind_eq_bind, Option.bind_eq_some_iff] at h
      obtain ⟨⟨rest, r₁⟩, hrest, heq⟩ := h
      obtain ⟨rfl, rfl⟩ := Prod.mk.inj (Option.some.inj heq)
      exact .cons (by simp only [stepTemp, resolveRecord, hstop, hfirst]) (emits_chaseHole hrest)

/-- The cycle phase with a temp is a run. -/
theorem emits_resolveCycleTemp
    (hstop : r.recordsCount ≠ 0 → r.tryMove isImmediateEncodableInOneInstruction = none)
    (h : r.resolveCycleTemp isImmediateEncodableInOneInstruction tempProvider fuel =
      some (actions, r')) :
    Emits (stepTemp isImmediateEncodableInOneInstruction tempProvider) (.moving, r) actions
      (.moving, r') := by
  induction fuel generalizing r actions with
  | zero => simp [resolveCycleTemp] at h
  | succ fuel ih =>
      rw [resolveCycleTemp] at h
      split at h
      · case _ hne =>
          simp only [Option.bind_eq_bind, Option.bind_eq_some_iff] at h
          obtain ⟨⟨cycle, r₁⟩, hcycle, ⟨moves, r₂⟩, hmoves, ⟨rest, r₃⟩, hrest, heq⟩ := h
          obtain ⟨rfl, rfl⟩ := Prod.mk.inj (Option.some.inj heq)
          obtain ⟨hemits, hstop'⟩ := emits_moveAll stepTemp_triesMove hmoves
          exact ((emits_resolveCycleImplTemp (hstop hne) hcycle).append hemits).append
            (ih (fun _ => hstop') hrest)
      · obtain ⟨rfl, rfl⟩ := Prod.mk.inj (Option.some.inj h)
        exact .nil _

/-- **A resolution with a temp** is a run. -/
theorem emits_resolveTemp
    (h : r.resolveTemp isImmediateEncodableInOneInstruction tempProvider fuel =
      some (actions, r')) :
    Emits (stepTemp isImmediateEncodableInOneInstruction tempProvider)
      (.moving, r.initSourceUsage) actions (.moving, r') := by
  simp only [resolveTemp, Option.bind_eq_bind, Option.bind_eq_some_iff] at h
  obtain ⟨⟨linear, r₁⟩, hlinear, ⟨cycles, r₂⟩, hcycles, heq⟩ := h
  obtain ⟨rfl, rfl⟩ := Prod.mk.inj (Option.some.inj heq)
  obtain ⟨hemits, hstop⟩ := emits_resolveLinear stepTemp_triesMove hlinear
  exact hemits.append (emits_resolveCycleTemp hstop hcycles)

/-- The run of `swapCycles` from the first operational record on, given those from any
record. -/
theorem emits_nextCycle {swapContains64 : Bool}
    (hrun : ∀ first swapIndex,
      swapCycles swapContains64 fuel r (some swapIndex) = some (actions, r') →
      Emits (stepSwap isImmediateEncodableInOneInstruction)
        (.swapping swapContains64 first swapIndex, r) actions (.moving, r'))
    (h : swapCycles swapContains64 fuel r r.getFirstOperationalRecord = some (actions, r')) :
    Emits (stepSwap isImmediateEncodableInOneInstruction) (nextCycle swapContains64 r) actions
      (.moving, r') := by
  rw [nextCycle]
  cases hfirst : r.getFirstOperationalRecord with
  | none =>
      rw [hfirst] at h
      cases fuel with
      | zero => simp [swapCycles] at h
      | succ fuel =>
          obtain ⟨rfl, rfl⟩ := Prod.mk.inj (Option.some.inj h)
          exact .nil _
  | some swapIndex =>
      rw [hfirst] at h
      exact hrun _ _ h

/-- Swapping along the remaining cycles is a run. -/
theorem emits_swapCycles (isImmediateEncodableInOneInstruction : MachineType → Word → Bool)
    {swapContains64 : Bool} (first : List (VariableStorage TReg)) {swapIndex : ℕ}
    (h : swapCycles swapContains64 fuel r (some swapIndex) = some (actions, r')) :
    Emits (stepSwap isImmediateEncodableInOneInstruction)
      (.swapping swapContains64 first swapIndex, r) actions (.moving, r') := by
  induction fuel generalizing r actions first swapIndex with
  | zero => simp [swapCycles] at h
  | succ fuel ih =>
      rw [swapCycles] at h
      have hfirst : stepSwap isImmediateEncodableInOneInstruction
          (.swapping swapContains64 first swapIndex, r) =
          some (.swap (r.recordAt swapIndex).target (r.recordAt swapIndex).source swapContains64,
            (swapAt swapContains64 first r swapIndex).2) := rfl
      rw [swapAt] at hfirst
      cases hnext : (r.markAsSwapped swapIndex).findRecordTargetingFreedLocation
          (r.recordAt swapIndex).source with
      | none =>
          simp only [hnext, Option.bind_eq_bind, Option.bind_eq_some_iff] at h hfirst
          obtain ⟨⟨rest, r₁⟩, hrest, heq⟩ := h
          obtain ⟨rfl, rfl⟩ := Prod.mk.inj (Option.some.inj heq)
          exact .cons hfirst (emits_nextCycle (fun first' _ => ih first') hrest)
      | some next =>
          simp only [hnext] at h hfirst
          cases hnextNext : (r.markAsSwapped swapIndex).findRecordTargetingFreedLocation
              ((r.markAsSwapped swapIndex).recordAt next).source with
          | none =>
              simp only [hnextNext, Option.bind_eq_bind, Option.bind_eq_some_iff] at h hfirst
              obtain ⟨⟨rest, r₁⟩, hrest, heq⟩ := h
              obtain ⟨rfl, rfl⟩ := Prod.mk.inj (Option.some.inj heq)
              exact .cons hfirst (emits_nextCycle (fun first' _ => ih first') hrest)
          | some nextNext =>
              simp only [hnextNext, Option.bind_eq_bind, Option.bind_eq_some_iff] at h hfirst
              obtain ⟨⟨rest, r₁⟩, hrest, heq⟩ := h
              obtain ⟨rfl, rfl⟩ := Prod.mk.inj (Option.some.inj heq)
              exact .cons hfirst (ih first hrest)

/-- The cycles with swaps are a run. -/
theorem emits_resolveCycleImplSwap
    (hstop : r.tryMove isImmediateEncodableInOneInstruction = none)
    (h : r.resolveCycleImplSwap fuel = some (actions, r')) :
    Emits (stepSwap isImmediateEncodableInOneInstruction) (.moving, r) actions (.moving, r') := by
  rw [resolveCycleImplSwap] at h
  split at h
  · obtain ⟨rfl, rfl⟩ := Prod.mk.inj (Option.some.inj h)
    exact .nil _
  · case _ swapIndex hfirst =>
      have hemits := emits_swapCycles isImmediateEncodableInOneInstruction
        (targetsAt r swapIndex) h
      cases hemits with
      | cons first rest =>
          refine .cons ?_ rest
          rw [← first]
          simp only [stepSwap, hstop, hfirst]

/-- The cycle phase with swaps is a run. -/
theorem emits_resolveCycleSwap
    (hstop : r.recordsCount ≠ 0 → r.tryMove isImmediateEncodableInOneInstruction = none)
    (h : r.resolveCycleSwap isImmediateEncodableInOneInstruction fuel = some (actions, r')) :
    Emits (stepSwap isImmediateEncodableInOneInstruction) (.moving, r) actions (.moving, r') := by
  induction fuel generalizing r actions with
  | zero => simp [resolveCycleSwap] at h
  | succ fuel ih =>
      rw [resolveCycleSwap] at h
      split at h
      · case _ hne =>
          simp only [Option.bind_eq_bind, Option.bind_eq_some_iff] at h
          obtain ⟨⟨cycles, r₁⟩, hcycles, ⟨moves, r₂⟩, hmoves, ⟨rest, r₃⟩, hrest, heq⟩ := h
          obtain ⟨rfl, rfl⟩ := Prod.mk.inj (Option.some.inj heq)
          obtain ⟨hemits, hstop'⟩ := emits_moveAll stepSwap_triesMove hmoves
          exact ((emits_resolveCycleImplSwap (hstop hne) hcycles).append hemits).append
            (ih (fun _ => hstop') hrest)
      · obtain ⟨rfl, rfl⟩ := Prod.mk.inj (Option.some.inj h)
        exact .nil _

/-- **A resolution with swaps** is a run. -/
theorem emits_resolveSwap
    (h : r.resolveSwap isImmediateEncodableInOneInstruction fuel = some (actions, r')) :
    Emits (stepSwap isImmediateEncodableInOneInstruction) (.moving, r.initSourceUsage) actions
      (.moving, r') := by
  simp only [resolveSwap, Option.bind_eq_bind, Option.bind_eq_some_iff] at h
  obtain ⟨⟨linear, r₁⟩, hlinear, ⟨cycles, r₂⟩, hcycles, heq⟩ := h
  obtain ⟨rfl, rfl⟩ := Prod.mk.inj (Option.some.inj heq)
  obtain ⟨hemits, hstop⟩ := emits_resolveLinear stepSwap_triesMove hlinear
  exact hemits.append (emits_resolveCycleSwap hstop hcycles)

end WasmCompiler
