import WasmCompiler.VariableStorage

/-!
# The Parallel Move Resolver

`ParallelMoveResolver` (`ParallelMoveResolver.hpp`) orders the moves that must happen "at
once" before a call or a branch, so that no move overwrites a location another move still
has to read. The resolver keeps a fixed-capacity array of records whose resolved entries
are invalidated in place, and counts how many pending records read each register and each
memory slot. This module translates the class: the linear phase (`resolveLinear`), the
cycle phase through a temporary (`resolveCycleTemp`) and the cycle phase through swaps
(`resolveCycleSwap`). What the emitters are called with is returned as a list of `Action`s,
and `exec` is their sequential execution.

The `while` loops run on fuel and return `none` when it runs out; the correctness theorems
show how much fuel is enough.
-/

namespace WasmCompiler

variable {TReg : Type}

/-- Target storage types used by the resolver. -/
inductive ParallelMoveTargetType where
  | normal
  | extend
  | extendPlaceholder
  deriving DecidableEq, Repr

/-- One pending target-source move pair; a default record is an empty slot. -/
structure ParallelMoveRecord (TReg : Type) where
  target : VariableStorage TReg := .none
  source : VariableStorage TReg := .none
  targetType : ParallelMoveTargetType := .normal
  deriving DecidableEq, Repr

/-- One memory-source usage count keyed by its slot offset. -/
structure MemorySourceEntry where
  offset : UInt32
  count : ℕ
  isStackMemory : Bool
  deriving DecidableEq, Repr

/-- The resolver: its record array, whose length is the capacity, and the usage counts of
the pending sources. -/
structure ParallelMoveResolver (TReg : Type) where
  records : List (ParallelMoveRecord TReg)
  recordsCount : ℕ
  memorySourceMap : List MemorySourceEntry
  regSourceMap : TReg → ℕ

/-- One call of an emitter. -/
inductive Action (TReg : Type) where
  | move (target source : VariableStorage TReg)
  | swap (target source : VariableStorage TReg) (contains64 : Bool)
  deriving DecidableEq, Repr

section Execution

variable [DecidableEq TReg]

/-- The effect of one emitted operation: a move stores the source's value in the target's
cell, a swap exchanges the contents of its two cells. -/
def Action.exec (σ : MachineState TReg) : Action TReg → MachineState TReg
  | move target source =>
      match target.cell? with
      | some c => Function.update σ c (source.value σ)
      | Option.none => σ
  | swap target source _ =>
      match target.cell?, source.cell? with
      | some c, some d => Function.update (Function.update σ c (σ d)) d (σ c)
      | _, _ => σ

/-- Sequential execution of emitted operations. -/
def exec (σ : MachineState TReg) (actions : List (Action TReg)) : MachineState TReg :=
  actions.foldl Action.exec σ

/-- No operation, no effect. -/
@[simp] theorem exec_nil (σ : MachineState TReg) : exec σ [] = σ := rfl

/-- The first operation is executed first. -/
@[simp] theorem exec_cons (σ : MachineState TReg) (a : Action TReg) (l : List (Action TReg)) :
    exec σ (a :: l) = exec (a.exec σ) l := rfl

/-- Consecutive sequences are executed one after the other. -/
@[simp] theorem exec_append (σ : MachineState TReg) (l l' : List (Action TReg)) :
    exec σ (l ++ l') = exec (exec σ l) l' := by
  simp [exec, List.foldl_append]

end Execution

namespace ParallelMoveRecord

/-- The record is pending and not an extend placeholder. -/
def isOperationalRecord (record : ParallelMoveRecord TReg) : Bool :=
  (match record.target.location with
    | .invalid => false
    | _ => true) && !(record.targetType == .extendPlaceholder)

end ParallelMoveRecord

namespace ParallelMoveResolver

/-- A resolver with room for `recordsCapacity` records and nothing pushed. -/
def init (recordsCapacity : ℕ) : ParallelMoveResolver TReg where
  records := List.replicate recordsCapacity {}
  recordsCount := 0
  memorySourceMap := []
  regSourceMap := fun _ => 0

/-- The maximum number of records. -/
def recordsCapacity (r : ParallelMoveResolver TReg) : ℕ := r.records.length

variable [DecidableEq TReg]

/-- Push a new copy operation of the given target type; a copy of a location onto itself is
ignored, and so is one that exceeds the capacity. -/
def pushTyped (r : ParallelMoveResolver TReg) (target : VariableStorage TReg)
    (targetType : ParallelMoveTargetType) (source : VariableStorage TReg) :
    ParallelMoveResolver TReg :=
  if target.inSameLocation source then r
  else if r.recordsCapacity ≤ r.recordsCount then r
  else
    { r with
      records := r.records.set r.recordsCount ⟨target, source, targetType⟩
      recordsCount := r.recordsCount + 1 }

/-- Push a new copy operation onto the resolver. -/
def push (r : ParallelMoveResolver TReg) (target source : VariableStorage TReg) :
    ParallelMoveResolver TReg :=
  r.pushTyped target .normal source

/-- Push a list of copy operations in order. -/
def pushAll (r : ParallelMoveResolver TReg)
    (moves : List (VariableStorage TReg × VariableStorage TReg)) : ParallelMoveResolver TReg :=
  moves.foldl (fun r m => r.push m.1 m.2) r

/-! ### Source usage counts -/

/-- The key under which a memory location is counted; any location but stack memory is read
as a link-data offset. -/
def memoryKey (s : VariableStorage TReg) : Bool × UInt32 :=
  match s.location with
  | .stackMemory stackFramePosition => (true, stackFramePosition)
  | .linkData linkDataOffset => (false, linkDataOffset)
  | _ => (false, 0)

/-- Find a memory-source usage entry. -/
def findMemorySource (r : ParallelMoveResolver TReg) (s : VariableStorage TReg) : Option ℕ :=
  r.memorySourceMap.findIdx? fun e =>
    e.isStackMemory == (memoryKey s).1 && e.offset == (memoryKey s).2

/-- Increment the usage count of a register source. -/
def incrementRegisterSource (r : ParallelMoveResolver TReg) (reg : TReg) :
    ParallelMoveResolver TReg :=
  { r with regSourceMap := Function.update r.regSourceMap reg (r.regSourceMap reg + 1) }

/-- Decrement the usage count of a register source. -/
def decrementRegisterSource (r : ParallelMoveResolver TReg) (reg : TReg) :
    ParallelMoveResolver TReg :=
  { r with regSourceMap := Function.update r.regSourceMap reg (r.regSourceMap reg - 1) }

/-- Increment the usage count of a memory source, inserting it if new. -/
def incrementMemorySource (r : ParallelMoveResolver TReg) (s : VariableStorage TReg) :
    ParallelMoveResolver TReg :=
  match r.findMemorySource s with
  | some index =>
      { r with memorySourceMap :=
          r.memorySourceMap.modify index fun e => { e with count := e.count + 1 } }
  | none =>
      if r.memorySourceMap.length < r.recordsCapacity then
        { r with memorySourceMap :=
            r.memorySourceMap ++ [⟨(memoryKey s).2, 1, (memoryKey s).1⟩] }
      else r

/-- Decrement the usage count of a memory source; an entry that reaches zero is replaced by
the last one. -/
def decrementMemorySource (r : ParallelMoveResolver TReg) (s : VariableStorage TReg) :
    ParallelMoveResolver TReg :=
  match r.findMemorySource s with
  | some index =>
      let map := r.memorySourceMap.modify index fun e => { e with count := e.count - 1 }
      match map[index]?, map.getLast? with
      | some entry, some last =>
          if entry.count = 0 then
            { r with memorySourceMap := (map.set index last).dropLast }
          else { r with memorySourceMap := map }
      | _, _ => { r with memorySourceMap := map }
  | none => r

/-- Record one pending source in the usage maps. -/
def markSourceAsUsed (r : ParallelMoveResolver TReg) (s : VariableStorage TReg) :
    ParallelMoveResolver TReg :=
  match s.location with
  | .constant _ => r
  | .register reg => r.incrementRegisterSource reg
  | _ => r.incrementMemorySource s

/-- Remove one resolved source from the usage maps. -/
def unmarkSourceAsUsed (r : ParallelMoveResolver TReg) (s : VariableStorage TReg) :
    ParallelMoveResolver TReg :=
  match s.location with
  | .constant _ => r
  | .register reg => r.decrementRegisterSource reg
  | _ => r.decrementMemorySource s

/-- Whether a target location is still read by a pending record. -/
def targetIsUsedAsSource (r : ParallelMoveResolver TReg) (target : VariableStorage TReg) :
    Bool :=
  match target.location with
  | .register reg => 0 < r.regSourceMap reg
  | _ =>
      match (r.findMemorySource target).bind fun index => r.memorySourceMap[index]? with
      | some entry => 0 < entry.count
      | none => false

/-- Init the usage counts for all pushed records. -/
def initSourceUsage (r : ParallelMoveResolver TReg) : ParallelMoveResolver TReg :=
  (r.records.take r.recordsCount).foldl (fun r record => r.markSourceAsUsed record.source) r

/-! ### Erasing records -/

/-- Erase one resolved record by invalidating its slot. -/
def eraseRecord (r : ParallelMoveResolver TReg) (index : ℕ) : ParallelMoveResolver TReg :=
  { r with records := r.records.set index {}, recordsCount := r.recordsCount - 1 }

/-- The record in a slot. -/
def recordAt (r : ParallelMoveResolver TReg) (index : ℕ) : ParallelMoveRecord TReg :=
  r.records.getD index {}

/-- Erase a resolved operational record and its optional extend placeholder. -/
def eraseRecordWithExtendPlaceholder (r : ParallelMoveResolver TReg) (index : ℕ) :
    ParallelMoveResolver TReg :=
  if (r.recordAt index).targetType = .extend then
    ((r.unmarkSourceAsUsed (r.recordAt (index + 1)).source).eraseRecord (index + 1)).eraseRecord
      index
  else r.eraseRecord index

/-- Mark a record resolved by a swap: the swap consumed the content of its target, which is
tracked as a pending source elsewhere in the cycle. -/
def markAsSwapped (r : ParallelMoveResolver TReg) (index : ℕ) : ParallelMoveResolver TReg :=
  let unmarked := r.unmarkSourceAsUsed (r.recordAt index).target
  if (r.recordAt index).targetType = .extend then
    ((unmarked.unmarkSourceAsUsed (r.recordAt (index + 1)).target).eraseRecord
      (index + 1)).eraseRecord index
  else unmarked.eraseRecord index

/-! ### Searching records -/

/-- The first operational record. -/
def getFirstOperationalRecord (r : ParallelMoveResolver TReg) : Option ℕ :=
  r.records.findIdx? fun record => record.isOperationalRecord

/-- The remaining record whose target is the location freed by the previous cycle step. -/
def findRecordTargetingFreedLocation (r : ParallelMoveResolver TReg)
    (freedLocation : VariableStorage TReg) : Option ℕ :=
  r.records.findIdx? fun record =>
    record.isOperationalRecord && record.target.inSameLocation freedLocation

/-- Whether a remaining target is 64 bits wide. -/
def remainingCycleContains64BitTarget (r : ParallelMoveResolver TReg) : Bool :=
  r.records.any fun record => record.isOperationalRecord && record.target.machineType.is64

/-- Whether a register is the source of a pending record. -/
def regUsedAsSource (r : ParallelMoveResolver TReg) (tempReg : TReg) : Bool :=
  r.records.any fun record => record.source.location == .register tempReg

/-! ### The linear phase -/

section Linear

/- Whether the backend materialises an immediate in one instruction. -/
variable (isImmediateEncodableInOneInstruction : MachineType → Word → Bool)

/-- Whether a source is a constant that takes several instructions to materialise. -/
def multiInstructionImmediate (s : VariableStorage TReg) : Bool :=
  match s.location with
  | .constant c =>
      !isImmediateEncodableInOneInstruction s.machineType (s.machineType.carried c)
  | _ => false

/-- Let one pending record read the register that a resolved record has just populated, if
it reads the resolved record's source at the same type. -/
def replaceSource (record : ParallelMoveRecord TReg) (reg : TReg)
    (r : ParallelMoveResolver TReg) (index : ℕ) : ParallelMoveResolver TReg :=
  let pending := r.recordAt index
  if pending.isOperationalRecord && (pending.source.inSameLocation record.source &&
      pending.source.machineType == record.source.machineType) then
    let unmarked := r.unmarkSourceAsUsed pending.source
    let rewritten := { unmarked with
      records := unmarked.records.set index
        { pending with source := .reg record.source.machineType reg } }
    rewritten.incrementRegisterSource reg
  else r

/-- Replace pending sources with the register populated by a resolved move, where the
source was memory or an expensive constant. -/
def storageReplacement (r : ParallelMoveResolver TReg) (record : ParallelMoveRecord TReg) :
    ParallelMoveResolver TReg :=
  match record.target.location with
  | .register reg =>
      match record.source.location with
      | .stackMemory _ | .linkData _ =>
          (List.range r.recordsCapacity).foldl (replaceSource record reg) r
      | _ =>
          if multiInstructionImmediate isImmediateEncodableInOneInstruction record.source then
            (List.range r.recordsCapacity).foldl (replaceSource record reg) r
          else r
  | _ => r

/-- Perform the first pending move whose target no pending record reads, if there is one. -/
def tryMove (r : ParallelMoveResolver TReg) :
    Option (Action TReg × ParallelMoveResolver TReg) :=
  match r.records.findIdx? fun record =>
      record.isOperationalRecord && !r.targetIsUsedAsSource record.target with
  | some i =>
      let record := r.recordAt i
      some (.move record.target record.source,
        ((r.unmarkSourceAsUsed record.source).eraseRecordWithExtendPlaceholder i).storageReplacement
          isImmediateEncodableInOneInstruction record)
  | none => none

/-- Move all records without conflict. -/
def moveAllWithoutConflict : ℕ → ParallelMoveResolver TReg →
    Option (List (Action TReg) × ParallelMoveResolver TReg)
  | 0, _ => none
  | fuel + 1, r =>
      match r.tryMove isImmediateEncodableInOneInstruction with
      | none => some ([], r)
      | some (action, r') => do
          let (actions, r'') ← moveAllWithoutConflict fuel r'
          some (action :: actions, r'')

/-- Resolve the pending parallel moves without cycles. -/
def resolveLinear (fuel : ℕ) (r : ParallelMoveResolver TReg) :
    Option (List (Action TReg) × ParallelMoveResolver TReg) :=
  if r.recordsCount ≠ 0 then
    moveAllWithoutConflict isImmediateEncodableInOneInstruction fuel r.initSourceUsage
  else some ([], r)

end Linear

/-! ### The cycle phase through a temporary -/

section Temp

variable (isImmediateEncodableInOneInstruction : MachineType → Word → Bool)
  (tempProvider : ParallelMoveResolver TReg → VariableStorage TReg → TReg)

/-- Follow the hole a cycle leaves behind, from the record at `nextIndex` on. -/
def chaseHole : ℕ → ParallelMoveResolver TReg → Option ℕ →
    Option (List (Action TReg) × ParallelMoveResolver TReg)
  | 0, _, _ => none
  | _ + 1, r, none => some ([], r)
  | fuel + 1, r, some nextIndex => do
      let record := r.recordAt nextIndex
      let r' := (r.unmarkSourceAsUsed record.source).eraseRecordWithExtendPlaceholder nextIndex
      let (actions, r'') ←
        chaseHole fuel r' (r'.findRecordTargetingFreedLocation record.source)
      some (.move record.target record.source :: actions, r'')

/-- Resolve one remaining cycle through an explicit temp register. The temp takes the
machine type of the source it saves. -/
def resolveCycleImplTemp (fuel : ℕ) (r : ParallelMoveResolver TReg) :
    Option (List (Action TReg) × ParallelMoveResolver TReg) :=
  match r.getFirstOperationalRecord with
  | none => some ([], r)
  | some cycleHeadIndex => do
      let cycleHead := r.recordAt cycleHeadIndex
      let tempStorage : VariableStorage TReg :=
        .reg cycleHead.source.machineType (tempProvider r cycleHead.source)
      let r' :=
        (r.unmarkSourceAsUsed cycleHead.source).eraseRecordWithExtendPlaceholder cycleHeadIndex
      let (actions, r'') ←
        chaseHole fuel r' (r'.findRecordTargetingFreedLocation cycleHead.source)
      some (.move tempStorage cycleHead.source ::
        (actions ++ [.move cycleHead.target tempStorage]), r'')

/-- Resolve the pending parallel moves with cycles through a temp register. -/
def resolveCycleTemp : ℕ → ParallelMoveResolver TReg →
    Option (List (Action TReg) × ParallelMoveResolver TReg)
  | 0, _ => none
  | fuel + 1, r =>
      if r.recordsCount ≠ 0 then do
        let (cycle, r') ← resolveCycleImplTemp tempProvider (fuel + 1) r
        let (moves, r'') ←
          moveAllWithoutConflict isImmediateEncodableInOneInstruction (fuel + 1) r'
        let (rest, r''') ← resolveCycleTemp fuel r''
        some (cycle ++ moves ++ rest, r''')
      else some ([], r)

/-- Resolve with a temp: linear phase, then cycle phase. -/
def resolveTemp (fuel : ℕ) (r : ParallelMoveResolver TReg) :
    Option (List (Action TReg) × ParallelMoveResolver TReg) := do
  let (linear, r') ← resolveLinear isImmediateEncodableInOneInstruction fuel r
  let (cycles, r'') ←
    resolveCycleTemp isImmediateEncodableInOneInstruction tempProvider fuel r'
  some (linear ++ cycles, r'')

end Temp

/-! ### The cycle phase through swaps -/

section Swap

variable (isImmediateEncodableInOneInstruction : MachineType → Word → Bool)

/-- Swap along the remaining cycles, from the record at `swapIndex` on. -/
def swapCycles (swapContains64 : Bool) : ℕ → ParallelMoveResolver TReg → Option ℕ →
    Option (List (Action TReg) × ParallelMoveResolver TReg)
  | 0, _, _ => none
  | _ + 1, r, none => some ([], r)
  | fuel + 1, r, some swapIndex => do
      let record := r.recordAt swapIndex
      let r' := r.markAsSwapped swapIndex
      let (actions, r'') ←
        match r'.findRecordTargetingFreedLocation record.source with
        | none => swapCycles swapContains64 fuel r' r'.getFirstOperationalRecord
        | some next =>
            match r'.findRecordTargetingFreedLocation (r'.recordAt next).source with
            | none =>
                let r'' := r'.markAsSwapped next
                swapCycles swapContains64 fuel r'' r''.getFirstOperationalRecord
            | some _ => swapCycles swapContains64 fuel r' (some next)
      some (.swap record.target record.source swapContains64 :: actions, r'')

/-- Resolve the remaining cycles through swap operations. -/
def resolveCycleImplSwap (fuel : ℕ) (r : ParallelMoveResolver TReg) :
    Option (List (Action TReg) × ParallelMoveResolver TReg) :=
  match r.getFirstOperationalRecord with
  | none => some ([], r)
  | some swapIndex =>
      swapCycles r.remainingCycleContains64BitTarget fuel r (some swapIndex)

/-- Resolve the pending parallel moves with cycles through swap operations. -/
def resolveCycleSwap : ℕ → ParallelMoveResolver TReg →
    Option (List (Action TReg) × ParallelMoveResolver TReg)
  | 0, _ => none
  | fuel + 1, r =>
      if r.recordsCount ≠ 0 then do
        let (cycles, r') ← resolveCycleImplSwap (fuel + 1) r
        let (moves, r'') ←
          moveAllWithoutConflict isImmediateEncodableInOneInstruction (fuel + 1) r'
        let (rest, r''') ← resolveCycleSwap fuel r''
        some (cycles ++ moves ++ rest, r''')
      else some ([], r)

/-- Resolve with swaps: linear phase, then cycle phase. -/
def resolveSwap (fuel : ℕ) (r : ParallelMoveResolver TReg) :
    Option (List (Action TReg) × ParallelMoveResolver TReg) := do
  let (linear, r') ← resolveLinear isImmediateEncodableInOneInstruction fuel r
  let (cycles, r'') ← resolveCycleSwap isImmediateEncodableInOneInstruction fuel r'
  some (linear ++ cycles, r'')

end Swap

end ParallelMoveResolver

end WasmCompiler
