import WasmCompiler.ParallelMoveSwapCounts
import WasmCompiler.StorageConflicts

/-!
# The Resolver and the Bytes of Storages

The parallel move resolver knows a memory source by its position only. Whether a target is in use
is right, byte by byte, if no pending source reaches into the target from another position.

## Main results

* `RecordsFrom.stepTemp`: all that the records read and write are storages that were pushed.
* `targetIsUsedAsSource_exact_iff`: when the test of a target is right about the bytes of the
  pending sources.
* `PushedMoves.writes`: with storages that are the same or separate, a resolution writes a
  temporary or what has no byte of a pending source.
-/

namespace WasmCompiler

open ParallelMoveResolver

variable {TReg : Type}

/-! ### The storages of the records -/

/-- The record has a target with some property, and moves a value of one type between storages of
a set. -/
structure ParallelMoveRecord.MovesIn (P : ParallelMoveTargetType → VariableStorage TReg → Prop)
    (S : Set (VariableStorage TReg)) (record : ParallelMoveRecord TReg) : Prop where
  property : P record.targetType record.target
  source : record.source ∈ S
  target : record.target ∈ S
  machineType : record.target.machineType = record.source.machineType

/-- All records in use do. -/
def RecordsFrom (P : ParallelMoveTargetType → VariableStorage TReg → Prop)
    (S : Set (VariableStorage TReg)) (l : List (ParallelMoveRecord TReg)) : Prop :=
  ∀ record ∈ l, record.isPending = true → record.MovesIn P S

/-- What the pending records read. -/
def ParallelMoveResolver.pendingSources (r : ParallelMoveResolver TReg) :
    List (VariableStorage TReg) :=
  r.pending.map fun record => record.source

section Records

variable {P : ParallelMoveTargetType → VariableStorage TReg → Prop}
  {S : Set (VariableStorage TReg)} {l : List (ParallelMoveRecord TReg)} {record : ParallelMoveRecord TReg}

/-- Writing a slot. -/
theorem RecordsFrom.set (h : RecordsFrom P S l) (i : ℕ)
    (hrecord : record.isPending = true → record.MovesIn P S) : RecordsFrom P S (l.set i record) := by
  intro x hx hpending
  rcases List.mem_or_eq_of_mem_set hx with hx | rfl
  · exact h x hx hpending
  · exact hrecord hpending

/-- Emptying a slot. -/
theorem RecordsFrom.erase (h : RecordsFrom P S l) (i : ℕ) : RecordsFrom P S (l.set i {}) :=
  h.set i fun hpending => absurd (isPending_empty.symm.trans hpending) (by decide)

/-- An operational record is in use. -/
theorem isPending_of_isOperationalRecord (h : record.isOperationalRecord = true) :
    record.isPending = true := by
  rw [ParallelMoveRecord.isOperationalRecord, Bool.and_eq_true] at h
  exact h.1

/-- An operational record of a slot. -/
theorem RecordsFrom.recordAt {r : ParallelMoveResolver TReg} (h : RecordsFrom P S r.records) {i : ℕ}
    (hop : (r.recordAt i).isOperationalRecord = true) : (r.recordAt i).MovesIn P S := by
  by_cases hi : i < r.records.length
  · have hslot : r.recordAt i = r.records[i] := by simp [ParallelMoveResolver.recordAt, hi]
    rw [hslot] at hop ⊢
    exact h _ (List.getElem_mem hi) (isPending_of_isOperationalRecord hop)
  · have hslot : r.recordAt i = {} := by simp [ParallelMoveResolver.recordAt, hi]
    rw [hslot] at hop
    exact absurd (isOperationalRecord_default.symm.trans hop) (by decide)

/-- An operational record that was found. -/
theorem RecordsFrom.found {r : ParallelMoveResolver TReg} (h : RecordsFrom P S r.records) {i : ℕ}
    {p : ParallelMoveRecord TReg → Bool} (hi : r.records.findIdx? p = some i)
    (hp : ∀ x, p x = true → x.isOperationalRecord = true) : (r.recordAt i).MovesIn P S := by
  obtain ⟨hlt, hfound, -⟩ := List.findIdx?_eq_some_iff_getElem.mp hi
  have hslot : r.recordAt i = r.records[i] := by simp [ParallelMoveResolver.recordAt, hlt]
  refine h.recordAt ?_
  rw [hslot]
  exact hp _ hfound

/-- What a pending record reads. -/
theorem RecordsFrom.mem_pendingSources {r : ParallelMoveResolver TReg}
    (h : RecordsFrom P S r.records) {s : VariableStorage TReg} (hs : s ∈ r.pendingSources) :
    s ∈ S := by
  obtain ⟨record, hrecord, rfl⟩ := List.mem_map.mp hs
  obtain ⟨hmem, hpending⟩ := List.mem_filter.mp hrecord
  exact (h record hmem hpending).source

/-- The cells that pending records read are those of the storages. -/
theorem mem_pendingReads_iff {r : ParallelMoveResolver TReg} {c : Cell TReg} :
    c ∈ r.pendingReads ↔ ∃ s ∈ r.pendingSources, s.cell? = some c := by
  rw [pendingReads, liveSources, List.mem_filterMap, pendingSources]
  constructor
  · rintro ⟨record, hrecord, hc⟩
    exact ⟨_, List.mem_map_of_mem hrecord, hc⟩
  · rintro ⟨s, hs, hc⟩
    obtain ⟨record, hrecord, rfl⟩ := List.mem_map.mp hs
    exact ⟨record, hrecord, hc⟩

variable [DecidableEq TReg] {r : ParallelMoveResolver TReg}

/-- Resolving a record leaves the others. -/
theorem RecordsFrom.resolveRecord (h : RecordsFrom P S r.records) (i : ℕ) :
    RecordsFrom P S (WasmCompiler.resolveRecord r i).records := by
  rw [WasmCompiler.resolveRecord, eraseRecordWithExtendPlaceholder]
  split
  · simp only [eraseRecord, unmarkSourceAsUsed_records]
    exact (h.erase _).erase _
  · simp only [eraseRecord, unmarkSourceAsUsed_records]
    exact h.erase _

/-- A record that reads the register that another one has just written. -/
theorem RecordsFrom.replaceSource (h : RecordsFrom P S r.records) (hrecord : record.MovesIn P S)
    {reg : TReg} (hreg : record.target.location = .register reg) (i : ℕ) :
    RecordsFrom P S (r.replaceSource record reg i).records := by
  rw [ParallelMoveResolver.replaceSource]
  dsimp only
  split
  · case _ hcond =>
    rw [Bool.and_eq_true, Bool.and_eq_true, beq_iff_eq] at hcond
    obtain ⟨hop, -, htype⟩ := hcond
    have hold : (r.recordAt i).MovesIn P S := h.recordAt hop
    have hnew : (VariableStorage.reg record.source.machineType reg : VariableStorage TReg) =
        record.target := by
      rw [VariableStorage.reg, ← hrecord.machineType, ← hreg]
    simp only [incrementRegisterSource, unmarkSourceAsUsed_records]
    refine h.set i fun _ => ⟨hold.property, ?_, hold.target, ?_⟩
    · change VariableStorage.reg record.source.machineType reg ∈ S
      rw [hnew]
      exact hrecord.target
    · exact hold.machineType.trans htype
  · exact h

/-- Record after record. -/
theorem RecordsFrom.foldl_replaceSource (h : RecordsFrom P S r.records) (hrecord : record.MovesIn P S)
    {reg : TReg} (hreg : record.target.location = .register reg) (indices : List ℕ) :
    RecordsFrom P S (indices.foldl (ParallelMoveResolver.replaceSource record reg) r).records := by
  induction indices generalizing r with
  | nil => exact h
  | cons i indices ih => exact ih (h.replaceSource hrecord hreg i)

variable {isImmediateEncodableInOneInstruction : MachineType → Word → Bool}
  {tempProvider : ParallelMoveResolver TReg → VariableStorage TReg → TReg}

/-- A linear move. -/
theorem RecordsFrom.tryMove (h : RecordsFrom P S r.records) {action : Action TReg}
    {r' : ParallelMoveResolver TReg}
    (hmove : r.tryMove isImmediateEncodableInOneInstruction = some (action, r')) :
    RecordsFrom P S r'.records ∧ ∃ target source, action = .move target source ∧ target ∈ S := by
  rw [ParallelMoveResolver.tryMove] at hmove
  split at hmove
  · case _ i hi =>
    have hrecord : (r.recordAt i).MovesIn P S :=
      h.found hi fun x hx => (Bool.and_eq_true_iff.mp hx).1
    obtain ⟨rfl, rfl⟩ := Prod.mk.inj (Option.some.inj hmove)
    refine ⟨?_, _, _, rfl, hrecord.target⟩
    have hresolved := h.resolveRecord i
    rw [WasmCompiler.resolveRecord] at hresolved
    rw [storageReplacement]
    split
    · case _ reg hreg =>
      split
      · exact hresolved.foldl_replaceSource hrecord hreg _
      · exact hresolved.foldl_replaceSource hrecord hreg _
      · split
        · exact hresolved.foldl_replaceSource hrecord hreg _
        · exact hresolved
    · exact hresolved
  · cases hmove

/-- The record that a point of the loops has in hand. -/
def PointFrom (P : ParallelMoveTargetType → VariableStorage TReg → Prop)
    (S : Set (VariableStorage TReg)) : ResolverPoint TReg → Prop
  | .hole cycleHead _ _ => cycleHead.MovesIn P S
  | _ => True

/-- **Every step** is about storages that were pushed, or about a temporary. -/
theorem RecordsFrom.stepTemp {point point' : ResolverPoint TReg} {r' : ParallelMoveResolver TReg}
    {action : Action TReg} (h : RecordsFrom P S r.records) (hpoint : PointFrom P S point)
    (hstep : WasmCompiler.stepTemp isImmediateEncodableInOneInstruction tempProvider (point, r) =
      some (action, point', r')) :
    (RecordsFrom P S r'.records ∧ PointFrom P S point') ∧ ∃ target source,
      action = .move target source ∧
        ((¬ (point = .moving ∧ r.tryMove isImmediateEncodableInOneInstruction = none) ∧
            target ∈ S) ∨
          (point = .moving ∧ r.tryMove isImmediateEncodableInOneInstruction = none ∧ source ∈ S ∧
            target = .reg source.machineType (tempProvider r source))) := by
  cases point with
  | moving =>
      cases hmove : r.tryMove isImmediateEncodableInOneInstruction with
      | some step =>
          obtain ⟨action₁, r₁⟩ := step
          simp only [WasmCompiler.stepTemp, hmove, Option.some.injEq, Prod.mk.injEq] at hstep
          obtain ⟨rfl, rfl, rfl⟩ := hstep
          obtain ⟨hrecords, target, source, haction, htarget⟩ := h.tryMove hmove
          exact ⟨⟨hrecords, trivial⟩, target, source, haction, .inl ⟨by simp, htarget⟩⟩
      | none =>
          cases hfirst : r.getFirstOperationalRecord with
          | none => simp [WasmCompiler.stepTemp, hmove, hfirst] at hstep
          | some cycleHeadIndex =>
              simp only [WasmCompiler.stepTemp, hmove, hfirst, Option.some.injEq,
                Prod.mk.injEq] at hstep
              obtain ⟨rfl, rfl, rfl⟩ := hstep
              have hrecord : (r.recordAt cycleHeadIndex).MovesIn P S := h.found hfirst fun _ hx => hx
              exact ⟨⟨h.resolveRecord _, hrecord⟩, _, _, rfl,
                .inr ⟨rfl, rfl, hrecord.source, rfl⟩⟩
  | hole cycleHead tempStorage freedLocation =>
      cases hfind : r.findRecordTargetingFreedLocation freedLocation with
      | none =>
          simp only [WasmCompiler.stepTemp, hfind, Option.some.injEq, Prod.mk.injEq] at hstep
          obtain ⟨rfl, rfl, rfl⟩ := hstep
          exact ⟨⟨h, trivial⟩, _, _, rfl, .inl ⟨by simp, hpoint.target⟩⟩
      | some nextIndex =>
          simp only [WasmCompiler.stepTemp, hfind, Option.some.injEq, Prod.mk.injEq] at hstep
          obtain ⟨rfl, rfl, rfl⟩ := hstep
          have hrecord : (r.recordAt nextIndex).MovesIn P S :=
            h.found hfind fun x hx => (Bool.and_eq_true_iff.mp hx).1
          exact ⟨⟨h.resolveRecord _, hpoint⟩, _, _, rfl, .inl ⟨by simp, hrecord.target⟩⟩
  | swapping swapContains64 first swapIndex => simp [WasmCompiler.stepTemp] at hstep

end Records

/-! ### Before the first swap -/

/-- **As long as it moves**, a resolution through swaps is about storages that were pushed. -/
theorem RecordsFrom.linear [DecidableEq TReg]
    {P : ParallelMoveTargetType → VariableStorage TReg → Prop} {S : Set (VariableStorage TReg)}
    {isImmediateEncodableInOneInstruction : MachineType → Word → Bool}
    {r : ParallelMoveResolver TReg} (h : RecordsFrom P S r.records)
    {actions : List (Action TReg)} {s : ResolverState TReg}
    (hrun : Emits (stepSwap isImmediateEncodableInOneInstruction) (.moving, r) actions s)
    (hmoves : ∀ action ∈ actions, ∃ target source, action = .move target source) :
    RecordsFrom P S s.2.records := by
  generalize hs : ((.moving, r) : ResolverState TReg) = s₀ at hrun
  induction hrun generalizing r with
  | nil s₀ =>
      subst hs
      exact h
  | @cons s₀ s₁ s₂ action actions first rest ih =>
      subst hs
      obtain ⟨target, source, rfl⟩ := hmoves action List.mem_cons_self
      cases hmove : r.tryMove isImmediateEncodableInOneInstruction with
      | some step =>
          obtain ⟨action₁, r₁⟩ := step
          simp only [stepSwap, hmove, Option.some.injEq, Prod.mk.injEq] at first
          obtain ⟨-, rfl⟩ := first
          exact ih (h.tryMove hmove).1 (fun a ha => hmoves a (List.mem_cons_of_mem _ ha)) rfl
      | none =>
          cases hfirst : r.getFirstOperationalRecord with
          | none => simp [stepSwap, hmove, hfirst] at first
          | some swapIndex => simp [stepSwap, hmove, hfirst, swapAt] at first

/-! ### The test of a target -/

section Test

variable {file : RegisterFile TReg} {r : ParallelMoveResolver TReg}
  {a b target : VariableStorage TReg} {c : Cell TReg}

/-- Storages of the same cell have a place in common. -/
theorem intersects_of_cell?_eq (ha : a.cell? = some c) (hb : b.cell? = some c)
    (hta : a.machineType ≠ .invalid) (htb : b.machineType ≠ .invalid) : a.Intersects file b := by
  have hloc : a.location = b.location := StorageLocation.cell?_inj ha hb
  have hpa := MachineType.getSize_pos hta
  have hpb := MachineType.getSize_pos htb
  cases hla : a.location with
  | register reg =>
      exact (VariableStorage.intersects_register_iff hla (hloc.symm.trans hla)).mpr
        ⟨reg, file.self _ reg, file.self _ reg⟩
  | stackMemory p =>
      exact (VariableStorage.intersects_stackMemory_iff hla (hloc.symm.trans hla) hta htb).mpr
        ⟨by omega, by omega⟩
  | linkData p =>
      exact (VariableStorage.intersects_linkData_iff hla (hloc.symm.trans hla) hta htb).mpr
        ⟨by omega, by omega⟩
  | constant w =>
      rw [VariableStorage.cell?, hla] at ha
      cases ha
  | invalid =>
      rw [VariableStorage.cell?, hla] at ha
      cases ha

/-- A storage that intersects another one has a cell. -/
theorem VariableStorage.Intersects.exists_cell (h : a.Intersects file b) :
    ∃ c, a.cell? = some c := by
  rcases h.cases with ⟨r, r', h, -⟩ | ⟨p, q, h, -⟩ | ⟨p, q, h, -⟩
  · exact ⟨.register r, by rw [VariableStorage.cell?, h]; rfl⟩
  · exact ⟨.stackMemory p, by rw [VariableStorage.cell?, h]; rfl⟩
  · exact ⟨.linkData p, by rw [VariableStorage.cell?, h]; rfl⟩

/-- If a pending source reaches into the target, one begins at the position of the target. -/
def ComparableTarget (file : RegisterFile TReg) (r : ParallelMoveResolver TReg)
    (target : VariableStorage TReg) : Prop :=
  ∀ s ∈ r.pendingSources, target.Intersects file s →
    ∃ s' ∈ r.pendingSources, s'.cell? = target.cell?

variable [DecidableEq TReg]

/-- **The test of a target** is right about the bytes of the pending sources exactly if the target
is comparable with them. -/
theorem targetIsUsedAsSource_exact_iff (h : Bookkept r r.pendingReads)
    (htypes : ∀ s ∈ r.pendingSources, s.machineType ≠ .invalid)
    (htarget : target.isParallelMoveLocation = true) (htype : target.machineType ≠ .invalid) :
    (r.targetIsUsedAsSource target = true ↔ ∃ s ∈ r.pendingSources, target.Intersects file s) ↔
      ComparableTarget file r target := by
  obtain ⟨c, hc⟩ := VariableStorage.isParallelMoveLocation_iff.mp htarget
  have htest : r.targetIsUsedAsSource target = true ↔
      ∃ s ∈ r.pendingSources, s.cell? = target.cell? := by
    rw [h.counts.targetIsUsedAsSource_iff hc, mem_pendingReads_iff, hc]
  rw [htest]
  constructor
  · intro hiff s hs hint
    exact hiff.mpr ⟨s, hs, hint⟩
  · intro hcomparable
    constructor
    · rintro ⟨s, hs, hcell⟩
      exact ⟨s, hs, intersects_of_cell?_eq hc (hcell.trans hc) htype (htypes s hs)⟩
    · rintro ⟨s, hs, hint⟩
      exact hcomparable s hs hint

end Test

/-! ### Separate storages -/

/-- Storages with a place in common are the same cell, of one size. -/
def Separate (file : RegisterFile TReg) (S : Set (VariableStorage TReg)) : Prop :=
  ∀ a ∈ S, ∀ b ∈ S, a.Intersects file b →
    a.cell? = b.cell? ∧ a.machineType.getSize = b.machineType.getSize

section Separate

variable [DecidableEq TReg] {file : RegisterFile TReg} {r : ParallelMoveResolver TReg}
  {S : Set (VariableStorage TReg)} {P : ParallelMoveTargetType → VariableStorage TReg → Prop}
  {isImmediateEncodableInOneInstruction : MachineType → Word → Bool}
  {tempProvider : ParallelMoveResolver TReg → VariableStorage TReg → TReg}

/-- `overlapsWith` is right about separate storages. -/
theorem Separate.intersects_of_overlapsWith (h : Separate file S) {a b : VariableStorage TReg}
    (ha : a ∈ S) (hb : b ∈ S) (hfa : a.InFrame) (hfb : b.InFrame)
    (hnot : a.overlapsWith b = false) : ¬ a.Intersects file b := by
  intro hint
  obtain ⟨hcell, hsize⟩ := h a ha b hb hint
  have hcomparable : a.Comparable file b := by
    obtain ⟨c, hc⟩ := hint.exists_cell
    have hloc : a.location = b.location := StorageLocation.cell?_inj hc (hcell.symm.trans hc)
    rw [VariableStorage.Comparable, ← hloc]
    cases a.location with
    | stackMemory p => exact .inl hsize
    | register reg => exact .inl rfl
    | _ => trivial
  have htrue := ((VariableStorage.overlapsWith_exact_iff hfa hfb).mpr hcomparable).mpr hint
  rw [hnot] at htrue
  cases htrue

omit [DecidableEq TReg] in
/-- What no pending record reads has no byte that one reads. -/
theorem Separate.not_intersects (h : Separate file S) (hrecords : RecordsFrom P S r.records)
    {target : VariableStorage TReg} (htarget : target ∈ S) (hunread : Unread r target) :
    ∀ s ∈ r.pendingSources, ¬ target.Intersects file s := by
  intro s hs hint
  obtain ⟨c, hc⟩ := hint.exists_cell
  have hcell := (h target htarget s (hrecords.mem_pendingSources hs) hint).1
  exact hunread c hc (mem_pendingReads_iff.mpr ⟨s, hs, hcell.symm.trans hc⟩)

/-- The records that were pushed are pending. -/
theorem PushedMoves.pending_start {cap : ℕ} {moves : List (PushedMove TReg)}
    (h : PushedMoves cap moves) :
    (((init cap : ParallelMoveResolver TReg).pushMoves moves).initSourceUsage).pending =
      moves.flatMap PushedMove.records := by
  obtain ⟨hbooks, hunits⟩ := h.start
  have hpaired := h.paired 0
  rw [List.replicate_zero, List.append_nil] at hpaired
  have hall : (moves.flatMap PushedMove.records).filter (fun x => x.isPending) =
      moves.flatMap PushedMove.records :=
    List.filter_eq_self.mpr fun x hx => isPending_of_target (h.target x hx)
  rw [ParallelMoveResolver.pending, hbooks.paired.filter_isPending, hunits,
    ← hpaired.filter_isPending, hall]

/-- The first records are those that were pushed. -/
theorem PushedMoves.recordsFrom_start {cap : ℕ} {moves : List (PushedMove TReg)}
    (h : PushedMoves cap moves)
    (hfrom : ∀ record ∈ moves.flatMap PushedMove.records, record.MovesIn P S) :
    RecordsFrom P S
      ((init cap : ParallelMoveResolver TReg).pushMoves moves).initSourceUsage.records := by
  intro record hrecord hpending
  refine hfrom record ?_
  rw [← h.pending_start]
  exact List.mem_filter.mpr ⟨hrecord, hpending⟩

/-- **At every point of a resolution** the books are kept, about storages that were pushed. -/
theorem PushedMoves.recordsFrom {cap : ℕ} {moves : List (PushedMove TReg)}
    (h : PushedMoves cap moves)
    (hfrom : ∀ record ∈ moves.flatMap PushedMove.records, record.MovesIn P S)
    {actions : List (Action TReg)} {point : ResolverPoint TReg}
    (hrun : Emits (WasmCompiler.stepTemp isImmediateEncodableInOneInstruction tempProvider)
      (.moving, ((init cap).pushMoves moves).initSourceUsage) actions (point, r)) :
    RecordsFrom P S r.records ∧ PointFrom P S point := by
  have hpoint : PointFrom P S (.moving : ResolverPoint TReg) := trivial
  exact hrun.invariant (fun s => RecordsFrom P S s.2.records ∧ PointFrom P S s.1)
    ⟨h.recordsFrom_start hfrom, hpoint⟩ fun _ _ _ hs hstep => (hs.1.stepTemp hs.2 hstep).1

/-- Where the records move whole values, they do so at every point of a resolution. -/
theorem PushedMoves.tempInvariant {cap : ℕ} {moves : List (PushedMove TReg)}
    (h : PushedMoves cap moves) (ha : Aligned (units (moves.flatMap PushedMove.records)))
    {actions : List (Action TReg)} {point : ResolverPoint TReg}
    (hrun : Emits (WasmCompiler.stepTemp isImmediateEncodableInOneInstruction tempProvider)
      (.moving, ((init cap).pushMoves moves).initSourceUsage) actions (point, r)) :
    TempInvariant point r := by
  obtain ⟨hstart, hunits⟩ := h.start
  have hfirst : TempInvariant .moving
      ((init cap : ParallelMoveResolver TReg).pushMoves moves).initSourceUsage :=
    ⟨hstart, hunits ▸ ha⟩
  exact hrun.invariant (fun s => TempInvariant s.1 s.2) hfirst
    fun _ _ _ hs hstep => (hs.step hstep).1

/-- **What a resolution writes**: a temporary at the start of a cycle, or what has no byte that a
pending record reads. -/
theorem PushedMoves.writes {cap : ℕ} {moves : List (PushedMove TReg)} (h : PushedMoves cap moves)
    (ha : Aligned (units (moves.flatMap PushedMove.records)))
    (hfrom : ∀ record ∈ moves.flatMap PushedMove.records, record.MovesIn P S)
    (hseparate : Separate file S) {actions : List (Action TReg)}
    {point point' : ResolverPoint TReg} {r' : ParallelMoveResolver TReg} {action : Action TReg}
    (hrun : Emits (WasmCompiler.stepTemp isImmediateEncodableInOneInstruction tempProvider)
      (.moving, ((init cap).pushMoves moves).initSourceUsage) actions (point, r))
    (hstep : WasmCompiler.stepTemp isImmediateEncodableInOneInstruction tempProvider (point, r) =
      some (action, point', r')) :
    ∃ target source, action = .move target source ∧
      ((∀ s ∈ r.pendingSources, ¬ target.Intersects file s) ∨
        (point = .moving ∧ r.tryMove isImmediateEncodableInOneInstruction = none ∧ source ∈ S ∧
          target = .reg source.machineType (tempProvider r source))) := by
  have hinvariant := h.tempInvariant ha hrun
  obtain ⟨hrecords, hpoint⟩ := h.recordsFrom hfrom hrun
  obtain ⟨-, target, source, rfl, hcell⟩ := hinvariant.step hstep
  obtain ⟨-, target', source', heq, hplace⟩ := hrecords.stepTemp hpoint hstep
  obtain ⟨rfl, rfl⟩ := Action.move.inj heq
  refine ⟨target, source, rfl, ?_⟩
  rcases hplace with ⟨hnot, htarget⟩ | htemp
  · rcases hcell with ⟨hmoving, hnone, -⟩ | hunread
    · exact absurd ⟨hmoving, hnone⟩ hnot
    · exact .inl (hseparate.not_intersects hrecords htarget hunread)
  · exact .inr htemp

/-- **Where no move is possible**, normal records read what other ones write. -/
theorem Bookkept.exists_target_of_blocked (h : Bookkept r r.pendingReads)
    (ha : Aligned (units r.records)) (hrecords : RecordsFrom P S r.records)
    (hP : ∀ kind target, P kind target → kind = .normal)
    (hnone : r.tryMove isImmediateEncodableInOneInstruction = none)
    {s : VariableStorage TReg} (hs : s ∈ r.pendingSources) :
    ∃ target ∈ S, P .normal target ∧ s.cell? = target.cell? ∧ ∃ c, s.cell? = some c := by
  obtain ⟨hperm, hread⟩ := h.blocked ha hnone
  obtain ⟨record, hrecord, rfl⟩ := List.mem_map.mp hs
  obtain ⟨hmem, hpending⟩ := List.mem_filter.mp hrecord
  have hkind : record.targetType = .normal := hP _ _ (hrecords record hmem hpending).property
  have hunits := hrecord
  rw [ParallelMoveResolver.pending, h.paired.filter_isPending] at hunits
  obtain ⟨u, hu, hin⟩ := List.mem_flatMap.mp hunits
  have hfirst : record = u.1 := by
    rcases List.mem_cons.mp hin with heq | hplaceholder
    · exact heq
    · rcases (h.paired.isUnit hu).kinds with ⟨-, hnil⟩ | ⟨-, y, hy, -, hytype⟩
      · rw [hnil] at hplaceholder
        cases hplaceholder
      · rw [hy, List.mem_singleton] at hplaceholder
        rw [hplaceholder, hytype] at hkind
        cases hkind
  obtain ⟨c, hc⟩ := hread u hu
  rw [hfirst]
  have hsource : c ∈ firstSources (units r.records) := List.mem_filterMap.mpr ⟨u, hu, hc⟩
  obtain ⟨v, hv, htarget⟩ := List.mem_filterMap.mp (hperm.mem_iff.mpr hsource)
  obtain ⟨hvmem, hvop⟩ := mem_records_of_mem_units hv
  have hmoves := hrecords v.1 hvmem (isPending_of_isOperationalRecord hvop)
  have hproperty := hmoves.property
  rw [hP _ _ hproperty] at hproperty
  exact ⟨v.1.target, hmoves.target, hproperty, hc.trans htarget.symm, c, hc⟩

end Separate

/-! ### Normal records only -/

section Normal

variable [DecidableEq TReg] {moves : List (VariableStorage TReg × VariableStorage TReg)} {cap : ℕ}

/-- Moves of values that take one place each. -/
def normalMoves (moves : List (VariableStorage TReg × VariableStorage TReg)) :
    List (PushedMove TReg) :=
  moves.map fun m => .normal m.1 m.2

/-- The records of such moves. -/
theorem flatMap_records_normalMoves :
    (normalMoves moves).flatMap PushedMove.records = pushedRecords moves := by
  induction moves with
  | nil => rfl
  | cons m moves ih =>
      rw [normalMoves, List.map_cons, List.flatMap_cons, ← normalMoves, ih, PushedMove.records,
        pushedRecords, pushedRecords, List.filter_cons]
      cases m.1.inSameLocation m.2 with
      | true => rfl
      | false => rfl

/-- They can be pushed if there is room. -/
theorem pushedMoves_normalMoves (hroom : moves.length ≤ cap)
    (htarget : ∀ m ∈ moves, m.1.isParallelMoveLocation = true)
    (hsource : ∀ m ∈ moves, m.2.IsSource) : PushedMoves cap (normalMoves moves) := by
  refine ⟨?_, ?_, ?_, ?_⟩
  · rw [flatMap_records_normalMoves, pushedRecords, List.length_map]
    exact (List.length_filter_le _ _).trans hroom
  · intro record hrecord
    rw [flatMap_records_normalMoves] at hrecord
    obtain ⟨m, hm, -, rfl⟩ := MoveList.mem_pushedRecords hrecord
    exact htarget m hm
  · intro record hrecord
    rw [flatMap_records_normalMoves] at hrecord
    obtain ⟨m, hm, -, rfl⟩ := MoveList.mem_pushedRecords hrecord
    exact hsource m hm
  · intro move hmove
    obtain ⟨m, -, rfl⟩ := List.mem_map.mp hmove
    rfl

omit [DecidableEq TReg] in
/-- Normal records are units without placeholders. -/
theorem units_of_normal {l : List (ParallelMoveRecord TReg)}
    (h : ∀ x ∈ l, x.isPending = true ∧ x.targetType = .normal) :
    units l = l.map fun x => (x, []) := by
  induction l with
  | nil => rfl
  | cons x l ih =>
      obtain ⟨hpending, hkind⟩ := h x List.mem_cons_self
      have hunit : IsUnit x [] := ⟨hpending, .inl ⟨hkind, rfl⟩⟩
      have hrest := ih fun y hy => h y (List.mem_cons_of_mem _ hy)
      have hcons := units_unit hunit l
      rw [List.nil_append] at hcons
      rw [hcons, hrest, List.map_cons]

/-- Normal records move whole values if their targets are different cells. -/
theorem aligned_normalMoves (htarget : ∀ m ∈ moves, m.1.isParallelMoveLocation = true)
    (hdistinct : (moves.map fun m => m.1.cell?).Nodup) : Aligned (units (pushedRecords moves)) := by
  have hnormal : ∀ x ∈ pushedRecords moves, x.isPending = true ∧ x.targetType = .normal := by
    intro x hx
    obtain ⟨m, hm, -, rfl⟩ := MoveList.mem_pushedRecords hx
    exact ⟨isPending_of_target (htarget m hm), rfl⟩
  rw [units_of_normal hnormal]
  refine ⟨?_, ?_, ?_⟩
  · rw [List.flatMap_map]
    have hcells : ((pushedRecords moves).flatMap fun x => [x].filterMap fun y => y.target.cell?) =
        (pushedRecords moves).filterMap fun x => x.target.cell? := by
      induction pushedRecords moves with
      | nil => rfl
      | cons x l ih =>
          rw [List.flatMap_cons, ih, List.filterMap_cons, List.filterMap_cons]
          cases x.target.cell? <;> rfl
    rw [hcells, pushedRecords, List.filterMap_map]
    have hsublist : ((moves.filter fun m => !m.1.inSameLocation m.2).filterMap
        fun m => m.1.cell?).Sublist (moves.filterMap fun m => m.1.cell?) :=
      List.filter_sublist.filterMap _
    refine List.Nodup.sublist hsublist ?_
    have hmap : moves.filterMap (fun m => m.1.cell?) =
        (moves.map fun m => m.1.cell?).filterMap id := by
      rw [List.filterMap_map]
      rfl
    rw [hmap]
    refine hdistinct.filterMap fun a b c ha hb => ?_
    rw [Option.mem_def, id] at ha hb
    rw [ha, hb]
  · intro u hu u' hu' _
    obtain ⟨x, -, rfl⟩ := List.mem_map.mp hu
    obtain ⟨y, -, rfl⟩ := List.mem_map.mp hu'
    rfl
  · intro u hu u' _ y hy
    obtain ⟨x, -, rfl⟩ := List.mem_map.mp hu
    cases hy

end Normal

/-! ### The test during a resolution -/

/-- **At every point of a resolution** through a temporary, and of one through swaps before the
first swap, the test of a target is right about bytes exactly if the target is comparable with
what is pending. -/
theorem PushedMoves.targetIsUsedAsSource_exact_iff [DecidableEq TReg] {file : RegisterFile TReg}
    {isImmediateEncodableInOneInstruction : MachineType → Word → Bool} {cap : ℕ}
    {moves : List (PushedMove TReg)} (h : PushedMoves cap moves)
    (hfrom : ∀ record ∈ moves.flatMap PushedMove.records,
      record.MovesIn (fun _ _ => True) {s | s.machineType ≠ .invalid})
    {actions : List (Action TReg)} {point : ResolverPoint TReg} {r : ParallelMoveResolver TReg}
    (hrun : (∃ tempProvider, Emits (stepTemp isImmediateEncodableInOneInstruction tempProvider)
        (.moving, ((init cap).pushMoves moves).initSourceUsage) actions (point, r)) ∨
      (Emits (stepSwap isImmediateEncodableInOneInstruction)
          (.moving, ((init cap).pushMoves moves).initSourceUsage) actions (point, r) ∧
        ∀ action ∈ actions, ∃ target source, action = .move target source))
    {target : VariableStorage TReg} (htarget : target.isParallelMoveLocation = true)
    (htype : target.machineType ≠ .invalid) :
    (r.targetIsUsedAsSource target = true ↔ ∃ s ∈ r.pendingSources, target.Intersects file s) ↔
      ComparableTarget file r target := by
  rcases hrun with ⟨tempProvider, htemp⟩ | ⟨hswap, hmoves⟩
  · obtain ⟨hrecords, -⟩ := h.recordsFrom hfrom htemp
    have htypes : ∀ s ∈ r.pendingSources, s.machineType ≠ .invalid :=
      fun s hs => hrecords.mem_pendingSources hs
    exact WasmCompiler.targetIsUsedAsSource_exact_iff (h.bookkept_temp htemp) htypes htarget htype
  · have hrecords := (h.recordsFrom_start hfrom).linear hswap hmoves
    have htypes : ∀ s ∈ r.pendingSources, s.machineType ≠ .invalid :=
      fun s hs => hrecords.mem_pendingSources hs
    have hbooks := (h.start.1.linear hswap hmoves).2
    exact WasmCompiler.targetIsUsedAsSource_exact_iff hbooks htypes htarget htype

end WasmCompiler
