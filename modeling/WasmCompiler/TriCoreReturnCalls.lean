import WasmCompiler.ResolverStorages
import WasmCompiler.TriCoreCallingConvention

/-!
# Return Calls on TriCore

A return call that jumps places the arguments where the parameters of the caller are. While the
arguments are condensed, a value in a register goes to its slot at once if no other argument
overlaps it; the resolver moves the others.

## Main results

* `returnCall_neverOverwrites`: no argument is overwritten before it is read, if storages with a
  byte in common are the same.
* `storageConflicts_exact_iff`: when the tests of storages are right about bytes, and what follows
  for return calls.
-/

namespace WasmCompiler

namespace TriCore

open ParallelMoveResolver

/-! ### The code -/

/-- A 64-bit value takes a pair of registers. -/
def pairFile : RegisterFile REG where
  takes machineType reg r := r ∈ halves machineType reg
  self machineType reg := by
    rw [halves]
    split <;> simp

/-- `REGS::indirectCallReg`. -/
def indirectCallReg : REG := .D 0

/-- `WasmABI::scratchRegStart`. -/
def scratchRegStart : ℕ := numGPR - resScratchRegsGPR

/-- An argument: the storages of the elements of its valent block, and that of its value once it
is condensed. -/
structure Argument where
  type : MachineType
  reads : List (VariableStorage REG)
  result : VariableStorage REG

/-- `canTailJump`. -/
def canTailJump (calleeStackParamWidth callerStackParamWidth stackReturnValuesWidth : ℕ)
    (imported : Bool) : Bool :=
  !imported && (calleeStackParamWidth == callerStackParamWidth ||
    (stackReturnValuesWidth == 0 && decide (calleeStackParamWidth < callerStackParamWidth)))

/-- A return call that jumps: the arguments, and the index for an indirect call. -/
structure ReturnCall where
  numGlobalsInGPR : ℕ
  /-- `fnc.paramWidth` of the caller. -/
  paramWidth : UInt32
  args : List Argument
  resultTypes : List MachineType
  index : Option Argument

/-- The storage for the place of a parameter. -/
def targetStorage (paramWidth : UInt32) : MachineType × ArgLocation → VariableStorage REG
  | (paramType, .reg targetReg) => .reg paramType targetReg
  | (paramType, .stack offsetFromEntryFP) =>
      .stackMemory paramType (paramWidth - UInt32.ofNat offsetFromEntryFP)

/-- The storages that the arguments are moved to. -/
def ReturnCall.targets (call : ReturnCall) : List (VariableStorage REG) :=
  (argLocations call.numGlobalsInGPR false (call.args.map Argument.type)).map
    (targetStorage call.paramWidth)

/-- The arguments and their targets, with the index at the end. -/
def ReturnCall.pairs (call : ReturnCall) : List (VariableStorage REG × Argument) :=
  call.targets.zip call.args ++
    call.index.toList.map fun index => (.reg .i32 indirectCallReg, index)

/-- `condenseParameter` moves a value from its register to its slot. -/
def storesEarly (target : VariableStorage REG) (others : List (VariableStorage REG))
    (result : VariableStorage REG) : Bool :=
  match target.location, result.location with
  | .stackMemory _, .register _ => !others.any fun other => target.overlapsWith other
  | _, _ => false

/-- An argument that is condensed: its target, the storages of the other arguments at that time,
its storage from then on, and whether it was moved to its target. -/
structure PreparedArgument where
  target : VariableStorage REG
  others : List (VariableStorage REG)
  storage : VariableStorage REG
  early : Bool

/-- `prepareCallParams`, with the storages of the arguments that are condensed. -/
def prepareCallParams : List (VariableStorage REG) → List (VariableStorage REG × Argument) →
    List PreparedArgument
  | _, [] => []
  | done, (target, arg) :: rest =>
      let others := (rest.flatMap fun p => p.2.reads) ++ done
      let early := storesEarly target others arg.result
      let storage := if early then target else arg.result
      ⟨target, others, storage, early⟩ :: prepareCallParams (done ++ [storage]) rest

/-- The arguments when all are condensed. -/
def ReturnCall.prepared (call : ReturnCall) : List PreparedArgument :=
  prepareCallParams [] call.pairs

/-- What is pushed for an argument. -/
def pushedMove (target source : VariableStorage REG) : PushedMove REG :=
  match target.location with
  | .register targetReg =>
      if target.machineType.is64 then
        let placeholderSource := match source.location with
          | .register reg => .reg target.machineType reg.getOtherExtReg
          | _ => source
        .extend target source (.reg target.machineType targetReg.getOtherExtReg) placeholderSource
      else .normal target source
  | _ => .normal target source

/-- The moves for the resolver. -/
def ReturnCall.moves (call : ReturnCall) : List (PushedMove REG) :=
  call.prepared.map fun p => pushedMove p.target p.storage

/-- `parallelMoveCapacity`. -/
def ReturnCall.capacity (call : ReturnCall) : ℕ :=
  min (2 * call.args.length) (call.args.length + 32) + call.index.toList.length

/-- `selectDefaultParallelMoveTemp`. -/
def selectDefaultParallelMoveTemp (moveResolver : ParallelMoveResolver REG)
    (source : VariableStorage REG) : REG :=
  ((dr.drop scratchRegStart).find? fun currentReg =>
    currentReg != indirectCallReg && (!moveResolver.regUsedAsSource currentReg &&
      (!source.machineType.is64 || (currentReg.canBeExtReg &&
        !moveResolver.regUsedAsSource currentReg.getOtherExtReg)))).getD indirectCallReg

/-- The resolver with all that was pushed. -/
def ReturnCall.resolver (call : ReturnCall) : ParallelMoveResolver REG :=
  ((init call.capacity).pushMoves call.moves).initSourceUsage

/-! ### What is overwritten -/

/-- Every write, of a value that is moved early and of the resolver, leaves what is still to be
read. -/
structure ReturnCall.NeverOverwrites (call : ReturnCall)
    (isImmediateEncodableInOneInstruction : MachineType → Word → Bool) : Prop where
  early : ∀ p ∈ call.prepared, p.early = true →
    ∀ other ∈ p.others, ¬ p.target.Intersects pairFile other
  resolved : ∀ actions point r action point' r',
    Emits (stepTemp isImmediateEncodableInOneInstruction selectDefaultParallelMoveTemp)
        (.moving, call.resolver) actions (point, r) →
      stepTemp isImmediateEncodableInOneInstruction selectDefaultParallelMoveTemp (point, r) =
          some (action, point', r') →
        ∃ target source, action = .move target source ∧
          ∀ s ∈ r.pendingSources.erase source, ¬ target.Intersects pairFile s

/-- The storages of a call. -/
def ReturnCall.storages (call : ReturnCall) : Set (VariableStorage REG) :=
  {s | ∃ p ∈ call.pairs, s = p.1 ∨ s ∈ p.2.reads ∨ s = p.2.result}

/-- What the compiler provides for a call: places for values of a type inside the frame, and
values that can be moved. -/
structure ReturnCall.Valid (call : ReturnCall) : Prop where
  globals : call.numGlobalsInGPR ≤ 1
  width : call.paramWidth ≤ maxStackFrameSize
  tailJump : canTailJump
    (getStackParamWidth call.numGlobalsInGPR false (call.args.map Argument.type))
    call.paramWidth.toNat (getStackReturnValueWidth call.resultTypes) false = true
  result : ∀ arg ∈ call.args, arg.result.machineType = arg.type
  index : ∀ arg ∈ call.index, arg.result.machineType = .i32
  source : ∀ p ∈ call.pairs, p.2.result.IsSource
  inFrame : ∀ s ∈ call.storages, s.InFrame

/-! ### Targets -/

/-- The registers that are targets: those for parameters, and the one for the index. -/
def targetRegs : List REG := indirectCallReg :: dr.take 8

/-- The target of a normal record: no pair of registers. -/
def NormalTarget (kind : ParallelMoveTargetType) (target : VariableStorage REG) : Prop :=
  kind = .normal ∧ ∀ r, target.location = .register r →
    target.machineType.is64 = false ∧ r ∈ targetRegs

/-- A function of the module has no 64-bit parameter in registers. -/
theorem is64_of_argLocation {numGlobalsInGPR stackParamWidth : ℕ} {tracker : RegStackTracker}
    {types : List MachineType} {p : MachineType × ArgLocation}
    (hp : p ∈ locations (argLocation numGlobalsInGPR false stackParamWidth) tracker types)
    {r : REG} (hr : p.2 = .reg r) : p.1.is64 = false := by
  induction types generalizing tracker with
  | nil => cases hp
  | cons type types ih =>
      rw [locations] at hp
      rcases List.mem_cons.mp hp with rfl | hp
      · by_contra h64
        rw [Bool.not_eq_false] at h64
        have hnone : getREGForArg numGlobalsInGPR type false tracker = (none, tracker) := by
          rw [getREGForArg, if_neg (by decide), getREGForInternalArg, h64]
          rfl
        simp [hnone] at hr
      · exact ih hp

/-- The places are for the types of the arguments. -/
theorem type_of_mem_zip {place : MachineType → RegStackTracker → ArgLocation × RegStackTracker}
    {tracker : RegStackTracker} {args : List Argument}
    {p : (MachineType × ArgLocation) × Argument}
    (hp : p ∈ (locations place tracker (args.map Argument.type)).zip args) :
    p.1.1 = p.2.type := by
  induction args generalizing tracker with
  | nil => cases hp
  | cons arg args ih =>
      rw [List.map_cons, locations, List.zip_cons_cons] at hp
      rcases List.mem_cons.mp hp with rfl | hp
      · rfl
      · exact ih hp

/-- The storage for a place has the type of the parameter. -/
theorem machineType_targetStorage (paramWidth : UInt32) (p : MachineType × ArgLocation) :
    (targetStorage paramWidth p).machineType = p.1 := by
  obtain ⟨type, r | offset⟩ := p <;> rfl

/-- The storage for a place is a register or memory. -/
theorem isParallelMoveLocation_targetStorage (paramWidth : UInt32)
    (p : MachineType × ArgLocation) :
    (targetStorage paramWidth p).isParallelMoveLocation = true := by
  obtain ⟨type, r | offset⟩ := p <;> rfl

/-- The position of a slot. -/
theorem toNat_position {paramWidth : UInt32} {offset : ℕ} (h : offset ≤ paramWidth.toNat) :
    (paramWidth - UInt32.ofNat offset).toNat = paramWidth.toNat - offset := by
  have hlt := paramWidth.toNat_lt
  have hofNat : (UInt32.ofNat offset).toNat = offset := by
    rw [UInt32.toNat_ofNat', Nat.mod_eq_of_lt (by omega)]
  rw [UInt32.toNat_sub_of_le, hofNat]
  rw [UInt32.le_iff_toNat_le, hofNat]
  exact h

/-- Places that do not overlap are different cells. -/
theorem cell?_ne_of_separate {paramWidth : UInt32} {available : List REG} {high : ℕ}
    {p q : MachineType × ArgLocation} (hp : Left available 0 high p) (hq : Left available 0 high q)
    (hhigh : high ≤ paramWidth.toNat) (htype : p.1 ≠ .invalid) (htype' : q.1 ≠ .invalid)
    (h : ArgLocation.Separate p q) :
    (targetStorage paramWidth p).cell? ≠ (targetStorage paramWidth q).cell? := by
  obtain ⟨type, r | offset⟩ := p
  · obtain ⟨type', r' | offset'⟩ := q
    · intro heq
      have hr : r = r' := Cell.register.inj (Option.some.inj heq)
      refine h r ?_ ?_
      · rw [halves]
        split <;> simp
      · rw [hr, halves]
        split <;> simp
    · intro heq
      cases heq
  · obtain ⟨type', r' | offset'⟩ := q
    · intro heq
      cases heq
    · intro heq
      have hpos : paramWidth - UInt32.ofNat offset = paramWidth - UInt32.ofNat offset' :=
        Cell.stackMemory.inj (Option.some.inj heq)
      have hle : offset + widthInStack type ≤ high := hp.2
      have hle' : offset' + widthInStack type' ≤ high := hq.2
      have hsize : 0 < widthInStack type := MachineType.getSize_pos htype
      have hsize' : 0 < widthInStack type' := MachineType.getSize_pos htype'
      have hnat := congrArg UInt32.toNat hpos
      rw [toNat_position (by omega), toNat_position (by omega)] at hnat
      rcases h with hbelow | habove
      · omega
      · omega

/-- A place in a register is one of those for parameters. -/
theorem mem_targetRegs {numGlobalsInGPR : ℕ} (hglobals : numGlobalsInGPR ≤ 1) {r : REG}
    (hr : r ∈ RegStackTracker.initial.paramRegs numGlobalsInGPR false) :
    r ∈ targetRegs ∧ r ≠ indirectCallReg := by
  have hall : ∀ n < 2, ∀ r ∈ RegStackTracker.initial.paramRegs n false,
      r ∈ targetRegs ∧ r ≠ indirectCallReg := by decide
  exact hall numGlobalsInGPR (Nat.lt_succ_of_le hglobals) r hr

/-! ### Arguments that are condensed -/

section Prepared

variable {done : List (VariableStorage REG)} {pairs : List (VariableStorage REG × Argument)}

/-- What is known of an argument that is condensed. -/
structure PreparedFrom (done : List (VariableStorage REG))
    (pairs : List (VariableStorage REG × Argument)) (q : PreparedArgument) : Prop where
  storage : ∃ p ∈ pairs, q.target = p.1 ∧ (q.storage = p.1 ∨ q.storage = p.2.result)
  others : ∀ s ∈ q.others, s ∈ done ∨ ∃ p ∈ pairs, s = p.1 ∨ s ∈ p.2.reads ∨ s = p.2.result
  early : q.early = true → ∀ s ∈ q.others, q.target.overlapsWith s = false

/-- A value that is stored early overlaps no other argument. -/
theorem not_overlapsWith_of_storesEarly {target result : VariableStorage REG}
    {others : List (VariableStorage REG)} (h : storesEarly target others result = true) :
    ∀ s ∈ others, target.overlapsWith s = false := by
  rw [storesEarly] at h
  split at h
  · intro s hs
    rw [Bool.not_eq_true', List.any_eq_false] at h
    exact Bool.not_eq_true _ ▸ h s hs
  · cases h

/-- **Condensing the arguments**: every argument ends at its own place or at its target, and the
other ones are those before and behind it. -/
theorem preparedFrom_prepareCallParams :
    ∀ q ∈ prepareCallParams done pairs, PreparedFrom done pairs q := by
  induction pairs generalizing done with
  | nil => exact nofun
  | cons first rest ih =>
      obtain ⟨target, arg⟩ := first
      intro q hq
      rw [prepareCallParams] at hq
      rcases List.mem_cons.mp hq with rfl | hq
      · refine ⟨⟨(target, arg), List.mem_cons_self, rfl, ?_⟩, fun s hs => ?_,
          not_overlapsWith_of_storesEarly⟩
        · dsimp only
          split
          · exact .inl rfl
          · exact .inr rfl
        · rcases List.mem_append.mp hs with hs | hs
          · obtain ⟨p, hp, hread⟩ := List.mem_flatMap.mp hs
            exact .inr ⟨p, List.mem_cons_of_mem _ hp, .inr (.inl hread)⟩
          · exact .inl hs
      · obtain ⟨⟨p, hp, hstorage⟩, hothers, hearly⟩ := ih q hq
        refine ⟨⟨p, List.mem_cons_of_mem _ hp, hstorage⟩, fun s hs => ?_, hearly⟩
        rcases hothers s hs with hdone | ⟨p', hp', hs⟩
        · rcases List.mem_append.mp hdone with hdone | hlast
          · exact .inl hdone
          · rw [List.mem_singleton] at hlast
            refine .inr ⟨(target, arg), List.mem_cons_self, ?_⟩
            rw [hlast]
            split
            · exact .inl rfl
            · exact .inr (.inr rfl)
        · exact .inr ⟨p', List.mem_cons_of_mem _ hp', hs⟩

/-- The targets stay in their order. -/
theorem map_target_prepareCallParams :
    (prepareCallParams done pairs).map PreparedArgument.target = pairs.map Prod.fst := by
  induction pairs generalizing done with
  | nil => rfl
  | cons first rest ih =>
      obtain ⟨target, arg⟩ := first
      rw [prepareCallParams, List.map_cons, List.map_cons, ih]

end Prepared

/-! ### The moves of a call -/

section Moves

variable {call : ReturnCall}

namespace ReturnCall

/-- The places of the parameters. -/
def places (call : ReturnCall) : List (MachineType × ArgLocation) :=
  argLocations call.numGlobalsInGPR false (call.args.map Argument.type)

/-- There is a target for every argument. -/
theorem length_targets (call : ReturnCall) : call.targets.length = call.args.length := by
  rw [targets, List.length_map, argLocations, length_locations, List.length_map]

/-- The targets of the arguments and of the index. -/
theorem map_fst_pairs (call : ReturnCall) :
    call.pairs.map Prod.fst =
      call.targets ++ call.index.toList.map fun _ => .reg .i32 indirectCallReg := by
  rw [pairs, List.map_append, List.map_fst_zip call.length_targets.le, List.map_map]
  rfl

/-- The arguments and the index. -/
theorem map_snd_pairs (call : ReturnCall) :
    call.pairs.map Prod.snd = call.args ++ call.index.toList := by
  rw [pairs, List.map_append, List.map_snd_zip call.length_targets.ge, List.map_map]
  congr 1
  exact List.map_id _

/-- The pairs of the arguments. -/
theorem zip_targets (call : ReturnCall) :
    call.targets.zip call.args =
      (call.places.zip call.args).map fun p => (targetStorage call.paramWidth p.1, p.2) := by
  rw [targets, ← places, List.zip_map_left]
  rfl

namespace Valid

/-- The parameters of the callee fit into those of the caller. -/
theorem fits (h : call.Valid) :
    getStackParamWidth call.numGlobalsInGPR false (call.args.map Argument.type) ≤
      call.paramWidth.toNat := by
  have htail := h.tailJump
  rw [canTailJump, Bool.not_false, Bool.true_and, Bool.or_eq_true, beq_iff_eq, Bool.and_eq_true,
    decide_eq_true_iff] at htail
  rcases htail with heq | ⟨-, hlt⟩
  · exact heq.le
  · exact hlt.le

/-- Where the parameters are. -/
theorem left_places (h : call.Valid) : ∀ p ∈ call.places,
    Left (RegStackTracker.initial.paramRegs call.numGlobalsInGPR false) 0
      (getStackParamWidth call.numGlobalsInGPR false (call.args.map Argument.type)) p :=
  (argLocations_pairwise h.globals false _).1

/-- **The targets** are for values of the types of the arguments, and take no pair of
registers. -/
theorem pair (h : call.Valid) : ∀ p ∈ call.pairs,
    p.1.machineType = p.2.result.machineType ∧ p.1.isParallelMoveLocation = true ∧
      NormalTarget .normal p.1 := by
  intro p hp
  rw [pairs, zip_targets] at hp
  rcases List.mem_append.mp hp with hp | hp
  · obtain ⟨⟨place, arg⟩, hplace, rfl⟩ := List.mem_map.mp hp
    have hmem := List.of_mem_zip hplace
    refine ⟨?_, isParallelMoveLocation_targetStorage _ _, rfl, fun r hr => ?_⟩
    · rw [machineType_targetStorage, h.result arg hmem.2]
      exact type_of_mem_zip hplace
    · obtain ⟨type, location⟩ := place
      cases location with
      | reg r' =>
          obtain rfl : r' = r := StorageLocation.register.inj hr
          have hleft := h.left_places _ hmem.1
          refine ⟨?_, (mem_targetRegs h.globals (hleft.2.2 r' (pairFile.self type r'))).1⟩
          exact is64_of_argLocation hmem.1 rfl
      | stack offset => cases hr
  · obtain ⟨index, hindex, rfl⟩ := List.mem_map.mp hp
    rw [Option.mem_toList] at hindex
    refine ⟨(h.index index hindex).symm, rfl, rfl, fun r hr => ?_⟩
    obtain rfl : indirectCallReg = r := StorageLocation.register.inj hr
    exact ⟨rfl, List.mem_cons_self⟩

/-- The types of the places are types of values. -/
theorem type_places (h : call.Valid) : ∀ p ∈ call.places, p.1 ≠ .invalid := by
  intro p hp
  have hlength : call.places.length = call.args.length := by
    rw [← call.length_targets, targets, List.length_map, places]
  obtain ⟨⟨place, arg⟩, hpair, rfl⟩ : ∃ q ∈ call.places.zip call.args, q.1 = p := by
    have hfst : (call.places.zip call.args).map Prod.fst = call.places :=
      List.map_fst_zip hlength.le
    rw [← hfst] at hp
    exact List.mem_map.mp hp
  have hmem : (targetStorage call.paramWidth place, arg) ∈ call.pairs := by
    rw [pairs, zip_targets]
    exact List.mem_append_left _ (List.mem_map_of_mem hpair)
  have hframe := h.inFrame _ ⟨_, hmem, .inl rfl⟩
  have htype := hframe.machineType
  rw [machineType_targetStorage] at htype
  exact htype

/-- **The targets** are different cells. -/
theorem nodup_targets (h : call.Valid) :
    ((call.pairs.map Prod.fst).map fun s => s.cell?).Nodup := by
  rw [map_fst_pairs, List.map_append, List.nodup_append]
  refine ⟨?_, ?_, ?_⟩
  · rw [targets, List.map_map, List.Nodup, List.pairwise_map]
    refine (argLocations_pairwise h.globals false _).2.imp_of_mem fun {p q} hp hq hseparate => ?_
    exact cell?_ne_of_separate (h.left_places p hp) (h.left_places q hq) h.fits
      (h.type_places p hp) (h.type_places q hq) hseparate
  · cases call.index with
    | none => exact List.nodup_nil
    | some index => exact List.nodup_singleton _
  · intro a ha b hb heq
    obtain ⟨s, hs, rfl⟩ := List.mem_map.mp ha
    obtain ⟨place, hplace, rfl⟩ := List.mem_map.mp hs
    obtain ⟨t, ht, rfl⟩ := List.mem_map.mp hb
    obtain ⟨index, -, rfl⟩ := List.mem_map.mp ht
    obtain ⟨type, r | offset⟩ := place
    · have hr : r = indirectCallReg := Cell.register.inj (Option.some.inj heq)
      have hleft := h.left_places _ hplace
      exact (mem_targetRegs h.globals (hleft.2.2 r (pairFile.self type r))).2 hr
    · cases heq

/-- **An argument that is condensed** is of the type of its target, and among the storages of
the call. -/
theorem prepared (h : call.Valid) : ∀ q ∈ call.prepared,
    q.target ∈ call.storages ∧ q.storage ∈ call.storages ∧ (∀ s ∈ q.others, s ∈ call.storages) ∧
      q.target.machineType = q.storage.machineType ∧ q.storage.IsSource ∧
        q.target.isParallelMoveLocation = true ∧ NormalTarget .normal q.target := by
  intro q hq
  obtain ⟨⟨p, hp, htarget, hstorage⟩, hothers, -⟩ := preparedFrom_prepareCallParams q hq
  obtain ⟨htype, hlocation, hnormal⟩ := h.pair p hp
  have hmem : ∀ s ∈ q.others, s ∈ call.storages := by
    intro s hs
    rcases hothers s hs with hdone | hfrom
    · cases hdone
    · exact hfrom
  rw [htarget]
  refine ⟨⟨p, hp, .inl rfl⟩, ?_, hmem, ?_, ?_, hlocation, hnormal⟩
  · rcases hstorage with heq | heq
    · exact ⟨p, hp, .inl heq⟩
    · exact ⟨p, hp, .inr (.inr heq)⟩
  · rcases hstorage with heq | heq
    · rw [heq]
    · rw [heq]
      exact htype
  · rcases hstorage with heq | heq
    · rw [heq]
      exact .inr hlocation
    · rw [heq]
      exact h.source p hp

end Valid

/-- The pairs of a target and a source that are pushed. -/
def copies (call : ReturnCall) : List (VariableStorage REG × VariableStorage REG) :=
  call.prepared.map fun q => (q.target, q.storage)

/-- The targets of the moves. -/
theorem map_target_prepared (call : ReturnCall) :
    call.prepared.map PreparedArgument.target = call.pairs.map Prod.fst :=
  map_target_prepareCallParams

/-- There is room for the moves. -/
theorem length_copies (call : ReturnCall) : call.copies.length ≤ call.capacity := by
  have hlength : call.prepared.length = call.args.length + call.index.toList.length := by
    have htargets := congrArg List.length call.map_target_prepared
    have hpairs := congrArg List.length call.map_snd_pairs
    rw [List.length_map, List.length_map] at htargets
    rw [List.length_map, List.length_append] at hpairs
    exact htargets.trans hpairs
  rw [copies, List.length_map, hlength, capacity]
  omega

/-- A target that is no pair of registers needs one record. -/
theorem pushedMove_eq_normal {target : VariableStorage REG} (h : NormalTarget .normal target)
    (source : VariableStorage REG) : pushedMove target source = .normal target source := by
  rw [pushedMove]
  split
  · case _ r hr =>
    rw [(h.2 r hr).1]
    rfl
  · rfl

namespace Valid

/-- All moves are normal. -/
theorem moves_eq (h : call.Valid) : call.moves = normalMoves call.copies := by
  rw [moves, normalMoves, copies, List.map_map]
  refine List.map_congr_left fun q hq => ?_
  obtain ⟨-, -, -, -, -, -, hnormal⟩ := h.prepared q hq
  exact pushedMove_eq_normal hnormal _

/-- **What is pushed** for a call. -/
theorem pushedMoves (h : call.Valid) : PushedMoves call.capacity call.moves := by
  rw [h.moves_eq]
  refine pushedMoves_normalMoves (length_copies call) ?_ ?_
  · intro m hm
    obtain ⟨q, hq, rfl⟩ := List.mem_map.mp hm
    obtain ⟨-, -, -, -, -, hlocation, -⟩ := h.prepared q hq
    exact hlocation
  · intro m hm
    obtain ⟨q, hq, rfl⟩ := List.mem_map.mp hm
    obtain ⟨-, -, -, -, hsource, -⟩ := h.prepared q hq
    exact hsource

/-- The moves are of whole values. -/
theorem aligned (h : call.Valid) : Aligned (units (call.moves.flatMap PushedMove.records)) := by
  rw [h.moves_eq, flatMap_records_normalMoves]
  refine aligned_normalMoves ?_ ?_
  · intro m hm
    obtain ⟨q, hq, rfl⟩ := List.mem_map.mp hm
    obtain ⟨-, -, -, -, -, hlocation, -⟩ := h.prepared q hq
    exact hlocation
  · have htargets : call.copies.map (fun m => m.1.cell?) =
        (call.pairs.map Prod.fst).map fun s => s.cell? := by
      rw [← call.map_target_prepared, copies, List.map_map, List.map_map]
      rfl
    rw [htargets]
    exact h.nodup_targets

/-- The moves are about the storages of the call. -/
theorem movesIn (h : call.Valid) : ∀ record ∈ call.moves.flatMap PushedMove.records,
    record.MovesIn NormalTarget call.storages := by
  intro record hrecord
  rw [h.moves_eq, flatMap_records_normalMoves] at hrecord
  obtain ⟨m, hm, -, rfl⟩ := MoveList.mem_pushedRecords hrecord
  obtain ⟨q, hq, rfl⟩ := List.mem_map.mp hm
  obtain ⟨htarget, hstorage, -, htype, -, -, hnormal⟩ := h.prepared q hq
  exact ⟨hnormal, hstorage, htarget, htype⟩

end Valid

end ReturnCall

end Moves

/-! ### The temporary -/

section Temp

variable {r : ParallelMoveResolver REG} {S : Set (VariableStorage REG)}
  {isImmediateEncodableInOneInstruction : MachineType → Word → Bool}

/-- A slot is empty or in use. -/
theorem eq_or_isPending_of_mem {l : List (ParallelMoveRecord REG)} (h : Paired l) :
    ∀ x ∈ l, x = {} ∨ x.isPending = true := by
  induction h with
  | nil => exact nofun
  | empty _ ih =>
      intro x hx
      rcases List.mem_cons.mp hx with rfl | hx
      · exact .inl rfl
      · exact ih x hx
  | unit hunit _ ih =>
      intro x hx
      rw [← List.cons_append] at hx
      rcases List.mem_append.mp hx with hx | hx
      · exact .inr (hunit.isPending hx)
      · exact ih x hx

/-- Where a register is used, a pending record reads it. -/
theorem regUsedAsSource_iff (h : Paired r.records) (reg : REG) :
    r.regUsedAsSource reg = true ↔ ∃ s ∈ r.pendingSources, s.location = .register reg := by
  rw [regUsedAsSource, List.any_eq_true]
  constructor
  · rintro ⟨record, hrecord, hreg⟩
    rw [beq_iff_eq] at hreg
    rcases eq_or_isPending_of_mem h record hrecord with rfl | hpending
    · cases hreg
    · exact ⟨_, List.mem_map_of_mem (List.mem_filter.mpr ⟨hrecord, hpending⟩), hreg⟩
  · rintro ⟨s, hs, hreg⟩
    obtain ⟨record, hrecord, rfl⟩ := List.mem_map.mp hs
    exact ⟨record, (List.mem_filter.mp hrecord).1, beq_iff_eq.mpr hreg⟩

/-- Values of one size are 64-bit values, or none of them is. -/
theorem is64_eq_false_of_getSize_eq {a b : MachineType} (h : a.getSize = b.getSize)
    (ha : a ≠ .invalid) (hb : b.is64 = false) : a.is64 = false := by
  cases a <;> cases b <;> revert h ha hb <;> decide

/-- **Where no move is possible**, registers that are read are registers for parameters, and no
pairs. -/
theorem targetRegs_of_blocked (hbooks : Bookkept r r.pendingReads) (ha : Aligned (units r.records))
    (hrecords : RecordsFrom NormalTarget S r.records) (hseparate : Separate pairFile S)
    (htypes : ∀ s ∈ S, s.machineType ≠ .invalid)
    (hnone : r.tryMove isImmediateEncodableInOneInstruction = none) :
    ∀ s ∈ r.pendingSources, ∀ reg, s.location = .register reg →
      s.machineType.is64 = false ∧ reg ∈ targetRegs := by
  intro s hs reg hreg
  obtain ⟨target, htarget, hnormal, hcell, c, hc⟩ :=
    hbooks.exists_target_of_blocked ha hrecords (fun _ _ h => h.1) hnone hs
  have hmem := hrecords.mem_pendingSources hs
  have hlocation : target.location = .register reg :=
    (StorageLocation.cell?_inj (hcell.symm.trans hc) hc).trans hreg
  obtain ⟨h64, htargetReg⟩ := hnormal.2 reg hlocation
  have hintersects : s.Intersects pairFile target :=
    intersects_of_cell?_eq hc (hcell.symm.trans hc) (htypes s hmem) (htypes target htarget)
  have hsize := (hseparate s hmem target htarget hintersects).2
  exact ⟨is64_eq_false_of_getSize_eq hsize (htypes s hmem) h64, htargetReg⟩

/-- **The temporary** is in no register that is read. -/
theorem selectDefaultParallelMoveTemp_spec (hpaired : Paired r.records)
    (hregs : ∀ s ∈ r.pendingSources, ∀ reg, s.location = .register reg →
      s.machineType.is64 = false ∧ reg ∈ targetRegs) (source : VariableStorage REG) :
    ∀ s ∈ r.pendingSources,
      ¬ (VariableStorage.reg source.machineType
        (selectDefaultParallelMoveTemp r source)).Intersects pairFile s := by
  have hfree : ∀ reg, reg ∉ targetRegs → r.regUsedAsSource reg = false := by
    intro reg hreg
    rw [← Bool.not_eq_true, regUsedAsSource_iff hpaired]
    rintro ⟨s, hs, hlocation⟩
    exact hreg (hregs s hs reg hlocation).2
  intro s hs hintersects
  have hused : ∀ reg, s.location = .register reg → r.regUsedAsSource reg = true :=
    fun reg hreg => (regUsedAsSource_iff hpaired reg).mpr ⟨s, hs, hreg⟩
  rw [selectDefaultParallelMoveTemp] at hintersects
  generalize hfind : List.find? _ (dr.drop scratchRegStart) = found at hintersects
  cases found with
  | none =>
      have hD2 := List.find?_eq_none.mp hfind (.D 2) (by decide)
      rw [hfree (.D 2) (by decide), REG.getOtherExtReg, hfree (.D (2 ^^^ 1)) (by decide)] at hD2
      refine hD2 ?_
      cases source.machineType.is64 <;> rfl
  | some temp =>
      have hpred := List.find?_some hfind
      rw [Bool.and_eq_true, Bool.and_eq_true, Bool.not_eq_true', Bool.or_eq_true,
        Bool.and_eq_true, Bool.not_eq_true', Bool.not_eq_true'] at hpred
      obtain ⟨-, htemp, hother⟩ := hpred
      rw [Option.getD_some] at hintersects
      rcases hintersects.cases with ⟨_, reg, h, hreg⟩ | ⟨p, q, h, -⟩ | ⟨p, q, h, -⟩
      · obtain rfl := StorageLocation.register.inj h
        obtain ⟨x, hx, hxs⟩ := (VariableStorage.intersects_register_iff rfl hreg).mp hintersects
        have hxreg : x = reg := by
          change x ∈ halves s.machineType reg at hxs
          rw [halves, (hregs s hs reg hreg).1] at hxs
          exact List.mem_singleton.mp hxs
        have htrue := hused reg hreg
        rw [← hxreg] at htrue
        change x ∈ halves source.machineType temp at hx
        rw [halves] at hx
        split at hx
        · case _ h64 =>
          rcases List.mem_cons.mp hx with rfl | hx
          · rw [htemp] at htrue
            cases htrue
          · rw [List.mem_singleton.mp hx] at htrue
            rcases hother with hnot | ⟨-, hnotUsed⟩
            · rw [h64] at hnot
              cases hnot
            · rw [hnotUsed] at htrue
              cases htrue
        · rw [List.mem_singleton.mp hx, htemp] at htrue
          cases htrue
      · cases h
      · cases h

end Temp

/-! ### Nothing is overwritten -/

/-- **A return call** overwrites no argument before it is read, if storages with a byte in common
are the same cell and of one size. -/
theorem returnCall_neverOverwrites
    (isImmediateEncodableInOneInstruction : MachineType → Word → Bool) {call : ReturnCall}
    (h : call.Valid) (hseparate : Separate pairFile call.storages) :
    call.NeverOverwrites isImmediateEncodableInOneInstruction := by
  have htypes : ∀ s ∈ call.storages, s.machineType ≠ .invalid :=
    fun s hs => (h.inFrame s hs).machineType
  refine ⟨?_, ?_⟩
  · intro p hp hearly other hother
    obtain ⟨htarget, -, hothers, -⟩ := h.prepared p hp
    obtain ⟨-, -, hnot⟩ := preparedFrom_prepareCallParams p hp
    have hmem := hothers other hother
    exact hseparate.intersects_of_overlapsWith htarget hmem (h.inFrame _ htarget)
      (h.inFrame _ hmem) (hnot hearly other hother)
  · intro actions point r action point' r' hrun hstep
    obtain ⟨target, source, rfl, hwrites⟩ :=
      h.pushedMoves.writes h.aligned h.movesIn hseparate hrun hstep
    refine ⟨target, source, rfl, fun s hs => ?_⟩
    have hpending : s ∈ r.pendingSources := List.mem_of_mem_erase hs
    rcases hwrites with hnot | ⟨rfl, hnone, -, htemp⟩
    · exact hnot s hpending
    · obtain ⟨hbooks, ha⟩ := h.pushedMoves.tempInvariant h.aligned hrun
      obtain ⟨hrecords, -⟩ := h.pushedMoves.recordsFrom h.movesIn hrun
      have hregs := targetRegs_of_blocked hbooks ha hrecords hseparate htypes hnone
      rw [htemp]
      exact selectDefaultParallelMoveTemp_spec hbooks.paired hregs source s hpending

/-! ### When the tests are right -/

/-- **Storage conflicts**: `overlapsWith` is right about the bytes of two storages exactly if they
are comparable, the resolver's test of a target, at every point of a resolution, exactly if the
target is comparable with what is pending, and a return call whose storages are the same cells or
have no byte in common overwrites no argument before it is read. -/
theorem storageConflicts_exact_iff {TReg : Type} [DecidableEq TReg] (file : RegisterFile TReg)
    (isImmediateEncodableInOneInstruction : MachineType → Word → Bool) :
    (∀ a b : VariableStorage TReg, a.InFrame → b.InFrame →
      ((a.overlapsWith b = true ↔ a.Intersects file b) ↔ a.Comparable file b)) ∧
    (∀ (cap : ℕ) (moves : List (PushedMove TReg)), PushedMoves cap moves →
      (∀ record ∈ moves.flatMap PushedMove.records,
        record.MovesIn (fun _ _ => True) {s | s.machineType ≠ .invalid}) →
      ∀ (actions : List (Action TReg)) (point : ResolverPoint TReg)
          (r : ParallelMoveResolver TReg),
        ((∃ tempProvider, Emits (stepTemp isImmediateEncodableInOneInstruction tempProvider)
            (.moving, ((init cap).pushMoves moves).initSourceUsage) actions (point, r)) ∨
          (Emits (stepSwap isImmediateEncodableInOneInstruction)
              (.moving, ((init cap).pushMoves moves).initSourceUsage) actions (point, r) ∧
            ∀ action ∈ actions, ∃ target source, action = .move target source)) →
        ∀ target : VariableStorage TReg, target.isParallelMoveLocation = true →
          target.machineType ≠ .invalid →
          ((r.targetIsUsedAsSource target = true ↔
              ∃ s ∈ r.pendingSources, target.Intersects file s) ↔
            ComparableTarget file r target)) ∧
    (∀ call : ReturnCall, call.Valid → Separate pairFile call.storages →
      call.NeverOverwrites isImmediateEncodableInOneInstruction) := by
  refine ⟨fun a b ha hb => VariableStorage.overlapsWith_exact_iff ha hb, ?_,
    fun call h hseparate => returnCall_neverOverwrites _ h hseparate⟩
  intro cap moves hmoves hfrom actions point r hrun target htarget htype
  exact hmoves.targetIsUsedAsSource_exact_iff hfrom hrun htarget htype

/-- A return call that exchanges two 64-bit parameters on the stack. -/
def exchangeCall : ReturnCall where
  numGlobalsInGPR := 0
  paramWidth := 16
  args := [⟨.i64, [.stackMemory .i64 16], .stackMemory .i64 16⟩,
    ⟨.i64, [.stackMemory .i64 8], .stackMemory .i64 8⟩]
  resultTypes := []
  index := none

/-- Its storages. -/
theorem mem_storages_exchangeCall {s : VariableStorage REG} (h : s ∈ exchangeCall.storages) :
    s = .stackMemory .i64 8 ∨ s = .stackMemory .i64 16 := by
  have hall : ∀ p ∈ exchangeCall.pairs, (p.1 = .stackMemory .i64 8 ∨ p.1 = .stackMemory .i64 16) ∧
      (∀ s ∈ p.2.reads, s = .stackMemory .i64 8 ∨ s = .stackMemory .i64 16) ∧
        (p.2.result = .stackMemory .i64 8 ∨ p.2.result = .stackMemory .i64 16) := by
    decide
  obtain ⟨p, hp, hs⟩ := h
  obtain ⟨htarget, hreads, hresult⟩ := hall p hp
  rcases hs with rfl | hs | rfl
  · exact htarget
  · exact hreads s hs
  · exact hresult

/-- The compiler provides for it. -/
theorem valid_exchangeCall : exchangeCall.Valid where
  globals := by decide
  width := by decide
  tailJump := by decide
  result := by decide
  index := nofun
  source p hp := by
    have hall : ∀ p ∈ exchangeCall.pairs, p.2.result.isParallelMoveLocation = true := by decide
    exact .inr (hall p hp)
  inFrame s hs := by
    rcases mem_storages_exchangeCall hs with rfl | rfl <;> decide

/-- Both slots are exchanged without a loss. -/
theorem exchangeCall_neverOverwrites (enc : MachineType → Word → Bool) :
    exchangeCall.NeverOverwrites enc := by
  refine (storageConflicts_exact_iff pairFile enc).2.2 _ valid_exchangeCall ?_
  have hapart : ¬ (VariableStorage.stackMemory .i64 8 : VariableStorage REG).Intersects pairFile
      (.stackMemory .i64 16) := by
    rw [VariableStorage.intersects_stackMemory_iff rfl rfl (by decide) (by decide)]
    decide
  have hapart' : ¬ (VariableStorage.stackMemory .i64 16 : VariableStorage REG).Intersects pairFile
      (.stackMemory .i64 8) := by
    rw [VariableStorage.intersects_stackMemory_iff rfl rfl (by decide) (by decide)]
    decide
  intro a ha b hb hintersects
  rcases mem_storages_exchangeCall ha with rfl | rfl
  · rcases mem_storages_exchangeCall hb with rfl | rfl
    · exact ⟨rfl, rfl⟩
    · exact absurd hintersects hapart
  · rcases mem_storages_exchangeCall hb with rfl | rfl
    · exact absurd hintersects hapart'
    · exact ⟨rfl, rfl⟩

/-- A return call from a function with an `i32` and an `i64` on the stack to one with these
parameters in the other order. -/
def mixedCall : ReturnCall where
  numGlobalsInGPR := 0
  paramWidth := 12
  args := (dr.take 7).map (fun reg => ⟨.i32, [.reg .i32 reg], .reg .i32 reg⟩) ++
    [⟨.i64, [.stackMemory .i64 12], .stackMemory .i64 12⟩,
      ⟨.i32, [.stackMemory .i32 4], .stackMemory .i32 4⟩]
  resultTypes := []
  index := none

/-- The compiler provides for it, too. -/
theorem valid_mixedCall : mixedCall.Valid where
  globals := by decide
  width := by decide
  tailJump := by decide
  result := by decide
  index := nofun
  source p hp := by
    have hall : ∀ p ∈ mixedCall.pairs, p.2.result.isParallelMoveLocation = true := by decide
    exact .inr (hall p hp)
  inFrame s hs := by
    have hall : ∀ p ∈ mixedCall.pairs, ∀ s ∈ p.1 :: p.2.result :: p.2.reads, s.InFrame := by
      decide
    obtain ⟨p, hp, hs⟩ := hs
    rcases hs with rfl | hs | rfl
    · exact hall p hp _ List.mem_cons_self
    · exact hall p hp s (List.mem_cons_of_mem _ (List.mem_cons_of_mem _ hs))
    · exact hall p hp _ (List.mem_cons_of_mem _ List.mem_cons_self)

/-- Its first move. -/
theorem stepTemp_mixedCall (enc : MachineType → Word → Bool) :
    (stepTemp enc selectDefaultParallelMoveTemp (.moving, mixedCall.resolver)).map Prod.fst =
      some (.move (.stackMemory .i64 8) (.stackMemory .i64 12)) := by
  rfl

/-- The `i64` and the `i32` have bytes in common. -/
theorem intersects_mixedCall : (VariableStorage.stackMemory .i64 8 : VariableStorage REG).Intersects
    pairFile (.stackMemory .i32 4) := by
  rw [VariableStorage.intersects_stackMemory_iff rfl rfl (by decide) (by decide)]
  decide

/-- **The mixed call** writes the slot of its `i64` over the `i32` that is still to be read:
neither test sees that they overlap. -/
theorem not_storageConflicts_exact :
    (VariableStorage.stackMemory .i64 8 : VariableStorage REG).overlapsWith (.stackMemory .i32 4) =
        false ∧
      (VariableStorage.stackMemory .i64 8 : VariableStorage REG).Intersects pairFile
        (.stackMemory .i32 4) ∧
      mixedCall.resolver.targetIsUsedAsSource (.stackMemory .i64 8) = false ∧
      (∃ s ∈ mixedCall.resolver.pendingSources,
        (VariableStorage.stackMemory .i64 8).Intersects pairFile s) ∧
      mixedCall.Valid ∧ ¬ mixedCall.NeverOverwrites fun _ _ => true := by
  have hpending : mixedCall.resolver.pendingSources =
      [.stackMemory .i64 12, .stackMemory .i32 4] := rfl
  refine ⟨by decide, intersects_mixedCall, rfl, ⟨.stackMemory .i32 4, ?_, intersects_mixedCall⟩,
    valid_mixedCall, fun h => ?_⟩
  · rw [hpending]
    decide
  · obtain ⟨⟨action, point, r⟩, hstep, haction⟩ :=
      Option.map_eq_some_iff.mp (stepTemp_mixedCall fun _ _ => true)
    obtain ⟨target, source, heq, hnot⟩ := h.resolved [] .moving _ action point r (.nil _) hstep
    obtain ⟨rfl, rfl⟩ := Action.move.inj (haction.symm.trans heq)
    refine hnot (.stackMemory .i32 4) ?_ intersects_mixedCall
    rw [hpending]
    decide

end TriCore

end WasmCompiler
