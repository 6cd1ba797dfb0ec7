import WasmCompiler.ParallelMoveUnits

/-!
# The Bookkeeping of the Parallel Move Resolver

Whatever has been pushed, normal records or extend records with their placeholders, the usage
maps are those of the pending reads at every point of the linear phase and of the resolution
through a temporary. Where the records move whole values, the pending records of the cycle phase
write what they read, and so nothing is overwritten that is still to be read.

## Main results

* `PushedMoves.bookkept_temp`: the maps at every point of a resolution through a temporary,
  whatever has been pushed.
* `TempInvariant.step`: for records that move whole values, every move writes a temporary or
  what no pending record reads.
-/

namespace WasmCompiler

open ParallelMoveResolver

variable {TReg : Type}

/-! ### The pushed records -/

/-- What is pushed: a normal record, or an extend record and its placeholder. -/
inductive PushedMove (TReg : Type) where
  | normal (target source : VariableStorage TReg)
  | extend (target source placeholderTarget placeholderSource : VariableStorage TReg)
  deriving DecidableEq, Repr

variable [DecidableEq TReg]

/-- The records it leaves in the resolver: what is in place already is ignored. -/
def PushedMove.records : PushedMove TReg → List (ParallelMoveRecord TReg)
  | normal target source =>
      if target.inSameLocation source then [] else [⟨target, source, .normal⟩]
  | extend target source placeholderTarget placeholderSource =>
      if target.inSameLocation source then []
      else [⟨target, source, .extend⟩, ⟨placeholderTarget, placeholderSource, .extendPlaceholder⟩]

/-- Both halves of an extend record are in place already, or none. -/
def PushedMove.whole : PushedMove TReg → Bool
  | normal _ _ => true
  | extend target source placeholderTarget placeholderSource =>
      placeholderTarget.inSameLocation placeholderSource == target.inSameLocation source

/-- A list of what the callers of the resolver push. -/
structure PushedMoves (recordsCapacity : ℕ) (moves : List (PushedMove TReg)) : Prop where
  /-- There is room for every record. -/
  room : (moves.flatMap PushedMove.records).length ≤ recordsCapacity
  /-- Every target is a register or memory. -/
  target : ∀ record ∈ moves.flatMap PushedMove.records,
    record.target.isParallelMoveLocation = true
  /-- Every source is a constant, a register or memory. -/
  source : ∀ record ∈ moves.flatMap PushedMove.records, record.source.IsSource
  /-- No half of an extend record is pushed without the other. -/
  whole : ∀ move ∈ moves, move.whole = true

/-- Push what one move needs. -/
def ParallelMoveResolver.pushMove (r : ParallelMoveResolver TReg) :
    PushedMove TReg → ParallelMoveResolver TReg
  | .normal target source => r.push target source
  | .extend target source placeholderTarget placeholderSource =>
      (r.pushTyped target .extend source).pushTyped placeholderTarget .extendPlaceholder
        placeholderSource

/-- Push several moves in order. -/
def ParallelMoveResolver.pushMoves (r : ParallelMoveResolver TReg)
    (moves : List (PushedMove TReg)) : ParallelMoveResolver TReg :=
  moves.foldl pushMove r

/-- A resolver with the given records in its first slots. -/
def filled (records : List (ParallelMoveRecord TReg)) (free : ℕ) : ParallelMoveResolver TReg :=
  ⟨records ++ List.replicate free emptyRecord, records.length, [], fun _ => 0⟩

/-- Pushing one record fills the next slot. -/
theorem filled_pushTyped {target source : VariableStorage TReg} {kind : ParallelMoveTargetType}
    (hself : target.inSameLocation source = false) (records : List (ParallelMoveRecord TReg))
    (free : ℕ) :
    (filled records (free + 1)).pushTyped target kind source =
      filled (records ++ [⟨target, source, kind⟩]) free := by
  simp [filled, pushTyped, hself, recordsCapacity, List.replicate_succ]

/-- Pushing one move fills the next slots with its records. -/
theorem filled_pushMove {move : PushedMove TReg} (hwhole : move.whole = true)
    (records : List (ParallelMoveRecord TReg)) (free : ℕ) :
    (filled records (move.records.length + free)).pushMove move =
      filled (records ++ move.records) free := by
  cases move with
  | normal target source =>
      cases hself : target.inSameLocation source with
      | true => simp [pushMove, push, pushTyped, PushedMove.records, hself]
      | false =>
          simpa [pushMove, push, PushedMove.records, hself, Nat.add_comm] using
            filled_pushTyped hself records free
  | extend target source placeholderTarget placeholderSource =>
      have hsame := beq_iff_eq.mp hwhole
      cases hself : target.inSameLocation source with
      | true =>
          rw [hself] at hsame
          simp [pushMove, pushTyped, PushedMove.records, hself, hsame]
      | false =>
          rw [hself] at hsame
          have hlen : (PushedMove.extend target source placeholderTarget
              placeholderSource).records.length + free = free + 1 + 1 := by
            simp [PushedMove.records, hself, Nat.add_comm, Nat.add_left_comm]
          rw [hlen, pushMove, filled_pushTyped hself, filled_pushTyped hsame]
          simp [PushedMove.records, hself]

/-- Pushing several moves fills the slots with their records, in order. -/
theorem filled_pushMoves {moves : List (PushedMove TReg)}
    (hwhole : ∀ move ∈ moves, move.whole = true)
    (records : List (ParallelMoveRecord TReg)) (free : ℕ) :
    (filled records ((moves.flatMap PushedMove.records).length + free)).pushMoves moves =
      filled (records ++ moves.flatMap PushedMove.records) free := by
  induction moves generalizing records with
  | nil => simp [pushMoves]
  | cons move moves ih =>
      have hmove := filled_pushMove (hwhole move List.mem_cons_self) records
        ((moves.flatMap PushedMove.records).length + free)
      have hrest := ih (fun m hm => hwhole m (List.mem_cons_of_mem _ hm)) (records ++ move.records)
      rw [List.flatMap_cons, List.length_append, Nat.add_assoc, pushMoves, List.foldl_cons,
        hmove, ← pushMoves, hrest, List.append_assoc]

omit [DecidableEq TReg] in
/-- What targets a register or memory is in use. -/
theorem isPending_of_target {record : ParallelMoveRecord TReg}
    (h : record.target.isParallelMoveLocation = true) : record.isPending = true := by
  obtain ⟨⟨mt, loc⟩, source, kind⟩ := record
  cases loc <;> simp_all [VariableStorage.isParallelMoveLocation, ParallelMoveRecord.isPending]

/-- The records of a move are a whole unit, or none. -/
theorem PushedMove.paired_records {move : PushedMove TReg} {l : List (ParallelMoveRecord TReg)}
    (htarget : ∀ record ∈ move.records, record.target.isParallelMoveLocation = true)
    (hl : Paired l) : Paired (move.records ++ l) := by
  have hpending : ∀ record ∈ move.records, record.isPending = true :=
    fun record hr => isPending_of_target (htarget record hr)
  cases move with
  | normal target source =>
      rw [PushedMove.records] at hpending ⊢
      split
      · exact hl
      · case _ hself =>
        rw [if_neg hself] at hpending
        exact .unit ⟨hpending _ List.mem_cons_self, Or.inl ⟨rfl, rfl⟩⟩ hl
  | extend target source placeholderTarget placeholderSource =>
      rw [PushedMove.records] at hpending ⊢
      split
      · exact hl
      · case _ hself =>
        rw [if_neg hself] at hpending
        refine .unit ⟨hpending _ List.mem_cons_self, Or.inr ⟨rfl, _, rfl, ?_, rfl⟩⟩ hl
        exact hpending _ (List.mem_cons_of_mem _ List.mem_cons_self)

namespace PushedMoves

variable {cap : ℕ} {moves : List (PushedMove TReg)}

/-- The resolver after pushing. -/
theorem pushMoves_init (h : PushedMoves cap moves) :
    (init cap : ParallelMoveResolver TReg).pushMoves moves =
      filled (moves.flatMap PushedMove.records)
        (cap - (moves.flatMap PushedMove.records).length) := by
  have hfilled := filled_pushMoves h.whole []
    (cap - (moves.flatMap PushedMove.records).length)
  rw [Nat.add_sub_cancel' h.room] at hfilled
  exact hfilled

/-- The slots hold whole units. -/
theorem paired (h : PushedMoves cap moves) (free : ℕ) :
    Paired (moves.flatMap PushedMove.records ++ List.replicate free emptyRecord) := by
  have htarget := h.target
  clear h
  induction moves with
  | nil =>
      rw [List.flatMap_nil, List.nil_append, ← List.append_nil (List.replicate _ _)]
      exact Paired.nil.replicate_append free
  | cons move moves ih =>
      rw [List.flatMap_cons, List.append_assoc]
      rw [List.flatMap_cons] at htarget
      exact PushedMove.paired_records (fun x hx => htarget x (List.mem_append_left _ hx))
        (ih fun x hx => htarget x (List.mem_append_right _ hx))

/-- Everything pushed is in use. -/
theorem pending_filled (h : PushedMoves cap moves) (free : ℕ) :
    (filled (moves.flatMap PushedMove.records) free).pending =
      moves.flatMap PushedMove.records := by
  have hall : (moves.flatMap PushedMove.records).filter (fun x => x.isPending) =
      moves.flatMap PushedMove.records :=
    List.filter_eq_self.mpr fun x hx => isPending_of_target (h.target x hx)
  have hempty : (List.replicate free (emptyRecord : ParallelMoveRecord TReg)).filter
      (fun y => y.isPending) = [] :=
    List.filter_eq_nil_iff.mpr fun y hy => by simp [List.eq_of_mem_replicate hy]
  rw [ParallelMoveResolver.pending, filled, List.filter_append, hall, hempty, List.append_nil]

/-- **The start**: the maps are those of the pending reads. -/
theorem start (h : PushedMoves cap moves) :
    let r := ((init cap : ParallelMoveResolver TReg).pushMoves moves).initSourceUsage
    Bookkept r r.pendingReads ∧ units r.records = units (moves.flatMap PushedMove.records) := by
  have hroom := h.room
  set records := moves.flatMap PushedMove.records with hrecords
  set free := cap - records.length with hfree
  have htake : (filled records free).records.take (filled records free).recordsCount = records := by
    simp [filled]
  obtain ⟨hcounts, hsame, hcount⟩ :=
    (show Counts (filled records free) [] from Counts.empty _ _).foldl_mark records h.source
      (by simp only [filled, recordsCapacity, List.length_nil, List.length_append,
            List.length_replicate]
          omega)
  have hinit : ((init cap : ParallelMoveResolver TReg).pushMoves moves).initSourceUsage =
      records.foldl (fun r record => r.markSourceAsUsed record.source) (filled records free) := by
    rw [h.pushMoves_init, initSourceUsage, htake]
  rw [← hinit] at hcounts hsame hcount
  have hpending : (((init cap : ParallelMoveResolver TReg).pushMoves moves).initSourceUsage).pending
      = records := by
    rw [ParallelMoveResolver.pending, hsame]
    exact h.pending_filled free
  refine ⟨⟨?_, ?_, ?_, ?_, ?_⟩, ?_⟩
  · rw [hsame]
    exact h.paired free
  · rw [hpending]
    exact h.source
  · rw [hpending]
    exact h.target
  · rw [hcount, hpending]
    rfl
  · rw [pendingReads, hpending, liveSources]
    rwa [List.append_nil] at hcounts
  · rw [hsame]
    have hpaired := h.paired 0
    rw [List.replicate_zero, List.append_nil] at hpaired
    have hempty : units (List.replicate free (emptyRecord : ParallelMoveRecord TReg)) = [] := by
      generalize free = n
      induction n with
      | zero => rfl
      | succ n ih => simpa [List.replicate_succ] using ih
    change units (records ++ List.replicate free emptyRecord) = _
    rw [hpaired.units_append, hempty, List.append_nil]

end PushedMoves

/-! ### The temporary, whatever is pushed -/

section Temp

variable {r r' : ParallelMoveResolver TReg} {cells : List (Cell TReg)}
  {isImmediateEncodableInOneInstruction : MachineType → Word → Bool}
  {tempProvider : ParallelMoveResolver TReg → VariableStorage TReg → TReg}

/-- The slots around an operational record that a search has found. -/
theorem Bookkept.found (h : Bookkept r cells) {p : ParallelMoveRecord TReg → Bool} {i : ℕ}
    (hi : r.records.findIdx? p = some i) (hp : ∀ x, p x = true → x.isOperationalRecord = true) :
    ∃ a x placeholder b, r.records = a ++ x :: (placeholder ++ b) ∧ a.length = i ∧ p x = true ∧
      IsUnit x placeholder ∧ Paired a ∧ Paired b := by
  obtain ⟨a, x, d, hr, hlen, hx⟩ := exists_record_of_findIdx? hi
  obtain ⟨ha, placeholder, b, hr, hunit, hb⟩ := h.split hr (hp x hx)
  exact ⟨a, x, placeholder, b, hr, hlen, hx, hunit, ha, hb⟩

/-- Resolving what a search has found keeps the maps those of the pending reads. -/
theorem Bookkept.resolveRecord_found (h : Bookkept r r.pendingReads)
    {p : ParallelMoveRecord TReg → Bool} {i : ℕ} (hi : r.records.findIdx? p = some i)
    (hp : ∀ x, p x = true → x.isOperationalRecord = true) :
    Bookkept (WasmCompiler.resolveRecord r i) (WasmCompiler.resolveRecord r i).pendingReads := by
  obtain ⟨a, x, placeholder, b, hr, rfl, -, hunit, ha, hb⟩ := h.found hi hp
  exact h.resolveRecord hr hunit ha hb

/-- **One step with a temporary** keeps the maps those of the pending reads. -/
theorem Bookkept.stepTemp (h : Bookkept r r.pendingReads) {point point' : ResolverPoint TReg}
    {action : Action TReg}
    (hs : WasmCompiler.stepTemp isImmediateEncodableInOneInstruction tempProvider (point, r) =
      some (action, point', r')) : Bookkept r' r'.pendingReads := by
  cases point with
  | moving =>
      cases hmove : r.tryMove isImmediateEncodableInOneInstruction with
      | some step =>
          obtain ⟨action₁, r₁⟩ := step
          simp only [WasmCompiler.stepTemp, hmove, Option.some.injEq, Prod.mk.injEq] at hs
          obtain ⟨-, -, rfl⟩ := hs
          obtain ⟨-, -, -, -, -, -, -, h', -⟩ := h.tryMove hmove
          exact h'
      | none =>
          cases hfirst : r.getFirstOperationalRecord with
          | none => simp [WasmCompiler.stepTemp, hmove, hfirst] at hs
          | some cycleHeadIndex =>
              simp only [WasmCompiler.stepTemp, hmove, hfirst, Option.some.injEq,
                Prod.mk.injEq] at hs
              obtain ⟨-, -, rfl⟩ := hs
              exact h.resolveRecord_found hfirst fun x hx => hx
  | hole cycleHead tempStorage freedLocation =>
      cases hfind : r.findRecordTargetingFreedLocation freedLocation with
      | none =>
          simp only [WasmCompiler.stepTemp, hfind, Option.some.injEq, Prod.mk.injEq] at hs
          obtain ⟨-, -, rfl⟩ := hs
          exact h
      | some nextIndex =>
          simp only [WasmCompiler.stepTemp, hfind, Option.some.injEq, Prod.mk.injEq] at hs
          obtain ⟨-, -, rfl⟩ := hs
          exact h.resolveRecord_found hfind fun x hx => (Bool.and_eq_true_iff.mp hx).1
  | swapping swapContains64 first swapIndex => simp [WasmCompiler.stepTemp] at hs

/-- **At every point of a resolution through a temporary** the maps are those of the pending
reads, whatever has been pushed. -/
theorem PushedMoves.bookkept_temp {cap : ℕ} {moves : List (PushedMove TReg)}
    (h : PushedMoves cap moves) {actions : List (Action TReg)} {point : ResolverPoint TReg}
    (hrun : Emits (WasmCompiler.stepTemp isImmediateEncodableInOneInstruction tempProvider)
      (.moving, ((init cap).pushMoves moves).initSourceUsage) actions (point, r)) :
    Bookkept r r.pendingReads :=
  hrun.invariant (fun s => Bookkept s.2 s.2.pendingReads) h.start.1
    fun _ _ _ hs hstep => hs.stepTemp hstep

end Temp

/-! ### Records that move whole values -/

/-- The units move whole values: their targets are different, a unit that reads the target of
another one reads both halves of it, and no placeholder reads the target of a record. -/
structure Aligned (l : List (ParallelMoveRecord TReg × List (ParallelMoveRecord TReg))) :
    Prop where
  /-- The targets are different. -/
  distinct : (l.flatMap fun u => (u.1 :: u.2).filterMap fun y => y.target.cell?).Nodup
  /-- Who reads a target reads both halves of it. -/
  halves : ∀ u ∈ l, ∀ u' ∈ l, u.1.source.cell? = u'.1.target.cell? →
    (u.2.filterMap fun y => y.source.cell?) = u'.2.filterMap fun y => y.target.cell?
  /-- No placeholder reads the target of a record. -/
  second : ∀ u ∈ l, ∀ u' ∈ l, ∀ y ∈ u.2, y.source.cell? ≠ u'.1.target.cell?

/-- The targets of the operational records. -/
def firstTargets (l : List (ParallelMoveRecord TReg × List (ParallelMoveRecord TReg))) :
    List (Cell TReg) :=
  l.filterMap fun u => u.1.target.cell?

/-- The cells the operational records read. -/
def firstSources (l : List (ParallelMoveRecord TReg × List (ParallelMoveRecord TReg))) :
    List (Cell TReg) :=
  l.filterMap fun u => u.1.source.cell?

section Aligned

omit [DecidableEq TReg]

variable {u : ParallelMoveRecord TReg × List (ParallelMoveRecord TReg)}
  {l l' : List (ParallelMoveRecord TReg × List (ParallelMoveRecord TReg))} {c : Cell TReg}

/-- The targets of operational records are among all targets. -/
theorem firstTargets_sublist (l : List (ParallelMoveRecord TReg × List (ParallelMoveRecord TReg))) :
    (firstTargets l).Sublist
      (l.flatMap fun u => (u.1 :: u.2).filterMap fun y => y.target.cell?) := by
  induction l with
  | nil => exact .slnil
  | cons u l ih =>
      rw [List.flatMap_cons]
      cases hc : u.1.target.cell? with
      | none =>
          simp only [firstTargets, List.filterMap_cons, hc]
          exact ih.trans (List.sublist_append_right _ _)
      | some c =>
          simp only [firstTargets, List.filterMap_cons, hc, List.cons_append]
          exact (ih.trans (List.sublist_append_right _ _)).cons_cons c

namespace Aligned

/-- The operational records have different targets. -/
theorem nodup (h : Aligned l) : (firstTargets l).Nodup := h.distinct.sublist (firstTargets_sublist l)

/-- The order of the units does not matter. -/
theorem perm (h : Aligned l) (hp : l.Perm l') : Aligned l' where
  distinct := (hp.flatMap_right _).nodup_iff.mp h.distinct
  halves u hu u' hu' := h.halves u (hp.mem_iff.mpr hu) u' (hp.mem_iff.mpr hu')
  second u hu u' hu' := h.second u (hp.mem_iff.mpr hu) u' (hp.mem_iff.mpr hu')

/-- Without one of the units. -/
theorem tail (h : Aligned (u :: l)) : Aligned l where
  distinct := by
    have hd := h.distinct
    rw [List.flatMap_cons] at hd
    exact hd.sublist (List.sublist_append_right _ _)
  halves v hv v' hv' := h.halves v (List.mem_cons_of_mem _ hv) v' (List.mem_cons_of_mem _ hv')
  second v hv v' hv' := h.second v (List.mem_cons_of_mem _ hv) v' (List.mem_cons_of_mem _ hv')

/-- A unit without its target. -/
theorem notMem_tail (h : Aligned (u :: l)) (hc : u.1.target.cell? = some c) :
    c ∉ firstTargets l := by
  have hd := h.nodup
  simp only [firstTargets, List.filterMap_cons, hc] at hd
  exact (List.nodup_cons.mp hd).1

/-- Making records read a cell that no record writes any more. -/
theorem redirected (h : Aligned l) (hr : List.Forall₂ (Redirected c) l l')
    (hc : c ∉ firstTargets l) : Aligned l' := by
  have hmem : ∀ u' ∈ l', ∃ u ∈ l, Redirected c u u' := by
    intro u' hu'
    obtain ⟨i, hi, rfl⟩ := List.getElem_of_mem hu'
    have hi' : i < l.length := hr.length_eq ▸ hi
    exact ⟨l[i], List.getElem_mem hi', hr.get hi' hi⟩
  refine ⟨?_, ?_, ?_⟩
  · have heq : (l'.flatMap fun u => (u.1 :: u.2).filterMap fun y => y.target.cell?) =
        l.flatMap fun u => (u.1 :: u.2).filterMap fun y => y.target.cell? := by
      clear hmem hc h
      induction hr with
      | nil => rfl
      | cons hu _ ih =>
          obtain ⟨ht, hp, -⟩ := hu
          rw [List.flatMap_cons, List.flatMap_cons, ih, hp, List.filterMap_cons, ht,
            List.filterMap_cons]
    rw [heq]
    exact h.distinct
  · intro u₁ hu₁ u₂ hu₂ he
    obtain ⟨v₁, hv₁, ht₁, hp₁, hs₁⟩ := hmem u₁ hu₁
    obtain ⟨v₂, hv₂, ht₂, hp₂, -⟩ := hmem u₂ hu₂
    rw [ht₂] at he
    rcases hs₁ with hs₁ | hs₁
    · rw [hp₁, hp₂]
      exact h.halves v₁ hv₁ v₂ hv₂ (hs₁ ▸ he)
    · refine absurd ?_ hc
      exact List.mem_filterMap.mpr ⟨v₂, hv₂, he ▸ hs₁⟩
  · intro u₁ hu₁ u₂ hu₂ y hy
    obtain ⟨v₁, hv₁, -, hp₁, -⟩ := hmem u₁ hu₁
    obtain ⟨v₂, hv₂, ht₂, -, -⟩ := hmem u₂ hu₂
    rw [ht₂]
    exact h.second v₁ hv₁ v₂ hv₂ y (hp₁ ▸ hy)

end Aligned

/-- Every unit reads and writes whole values, the second half of the value at a cell being
`half` of it. -/
def Matched (half : Cell TReg → List (Cell TReg))
    (l : List (ParallelMoveRecord TReg × List (ParallelMoveRecord TReg))) : Prop :=
  ∀ u ∈ l, ∃ t s, u.1.target.cell? = some t ∧ u.1.source.cell? = some s ∧
    (u.2.filterMap fun y => y.target.cell?) = half t ∧
    (u.2.filterMap fun y => y.source.cell?) = half s

/-- Where every target is read, the units read and write whole values. -/
theorem Aligned.matched (h : Aligned l) (htarget : ∀ u ∈ l, ∃ t, u.1.target.cell? = some t)
    (hsource : ∀ u ∈ l, ∃ s, u.1.source.cell? = some s)
    (hp : (firstTargets l).Perm (firstSources l)) : ∃ half, Matched half l := by
  classical
  have hwriter : ∀ c ∈ firstSources l, ∃ u, (l.find? fun u => u.1.target.cell? = some c) = some u ∧
      u ∈ l ∧ u.1.target.cell? = some c := by
    intro c hc
    obtain ⟨u, hu, hut⟩ := List.mem_filterMap.mp (hp.mem_iff.mpr hc)
    cases hf : l.find? fun u => u.1.target.cell? = some c with
    | none => exact absurd (List.find?_eq_none.mp hf u hu) (by simp [hut])
    | some v => exact ⟨v, rfl, List.mem_of_find?_eq_some hf, by simpa using List.find?_some hf⟩
  refine ⟨fun c => ((l.find? fun u => u.1.target.cell? = some c).elim [] fun u =>
    u.2.filterMap fun y => y.target.cell?), ?_⟩
  intro u hu
  obtain ⟨t, ht⟩ := htarget u hu
  obtain ⟨s, hs⟩ := hsource u hu
  refine ⟨t, s, ht, hs, ?_, ?_⟩
  · have hread : t ∈ firstSources l :=
      hp.mem_iff.mp (List.mem_filterMap.mpr ⟨u, hu, ht⟩)
    obtain ⟨v, hv, hvs⟩ := List.mem_filterMap.mp hread
    obtain ⟨w, hf, hw, hwt⟩ := hwriter t hread
    dsimp only
    rw [hf, Option.elim_some, ← h.halves v hv u hu (hvs.trans ht.symm),
      ← h.halves v hv w hw (hvs.trans hwt.symm)]
  · obtain ⟨w, hf, hw, hwt⟩ := hwriter s (List.mem_filterMap.mpr ⟨u, hu, hs⟩)
    dsimp only
    rw [hf, Option.elim_some, h.halves u hu w hw (hs.trans hwt.symm)]

namespace Matched

variable {half : Cell TReg → List (Cell TReg)}

/-- The order of the units does not matter. -/
theorem perm (h : Matched half l) (hp : l.Perm l') : Matched half l' :=
  fun u hu => h u (hp.mem_iff.mpr hu)

/-- Without one of the units. -/
theorem tail (h : Matched half (u :: l)) : Matched half l :=
  fun v hv => h v (List.mem_cons_of_mem _ hv)

/-- All that is written. -/
theorem targets_eq (h : Matched half l) :
    (l.flatMap fun u => (u.1 :: u.2).filterMap fun y => y.target.cell?) =
      (firstTargets l).flatMap fun c => c :: half c := by
  induction l with
  | nil => rfl
  | cons u l ih =>
      obtain ⟨t, s, ht, -, hp, -⟩ := h u List.mem_cons_self
      have hfirst : firstTargets (u :: l) = t :: firstTargets l := by simp [firstTargets, ht]
      rw [List.flatMap_cons, ih h.tail, hfirst, List.flatMap_cons, List.filterMap_cons, ht, hp]

/-- All that is read. -/
theorem sources_eq (h : Matched half l) :
    (l.flatMap fun u => (u.1 :: u.2).filterMap fun y => y.source.cell?) =
      (firstSources l).flatMap fun c => c :: half c := by
  induction l with
  | nil => rfl
  | cons u l ih =>
      obtain ⟨t, s, -, hs, -, hp⟩ := h u List.mem_cons_self
      have hfirst : firstSources (u :: l) = s :: firstSources l := by simp [firstSources, hs]
      rw [List.flatMap_cons, ih h.tail, hfirst, List.flatMap_cons, List.filterMap_cons, hs, hp]

end Matched

end Aligned

section Blocked

variable {r : ParallelMoveResolver TReg} {cells : List (Cell TReg)}
  {isImmediateEncodableInOneInstruction : MachineType → Word → Bool}

/-- The pending reads, unit by unit. -/
theorem Bookkept.pendingReads_eq (h : Bookkept r cells) :
    r.pendingReads = (units r.records).flatMap fun u =>
      (u.1 :: u.2).filterMap fun y => y.source.cell? := by
  rw [pendingReads, ParallelMoveResolver.pending, h.paired.filter_isPending, liveSources,
    List.filterMap_flatMap]

/-- The pending targets, unit by unit. -/
theorem Bookkept.pendingTargets_eq (h : Bookkept r cells) :
    r.pendingTargets = (units r.records).flatMap fun u =>
      (u.1 :: u.2).filterMap fun y => y.target.cell? := by
  rw [pendingTargets, ParallelMoveResolver.pending, h.paired.filter_isPending,
    List.filterMap_flatMap]

/-- The records of the units are in use. -/
theorem Bookkept.mem_pending (h : Bookkept r cells)
    {u : ParallelMoveRecord TReg × List (ParallelMoveRecord TReg)} (hu : u ∈ units r.records)
    {y : ParallelMoveRecord TReg} (hy : y ∈ u.1 :: u.2) : y ∈ r.pending := by
  rw [ParallelMoveResolver.pending, h.paired.filter_isPending]
  exact List.mem_flatMap.mpr ⟨u, hu, hy⟩

/-- Every unit has a target cell. -/
theorem Bookkept.exists_target (h : Bookkept r cells)
    {u : ParallelMoveRecord TReg × List (ParallelMoveRecord TReg)} (hu : u ∈ units r.records) :
    ∃ t, u.1.target.cell? = some t :=
  VariableStorage.isParallelMoveLocation_iff.mp
    (h.target u.1 (h.mem_pending hu List.mem_cons_self))

omit [DecidableEq TReg] in
/-- The operational record of a unit stands in a slot. -/
theorem mem_records_of_mem_units {l : List (ParallelMoveRecord TReg)}
    {u : ParallelMoveRecord TReg × List (ParallelMoveRecord TReg)} (hu : u ∈ units l) :
    u.1 ∈ l ∧ u.1.isOperationalRecord = true := by
  induction l with
  | nil => simp [units] at hu
  | cons x l ih =>
      rw [units] at hu
      split at hu
      · case _ hop =>
        rcases List.mem_cons.mp hu with rfl | hu
        · exact ⟨List.mem_cons_self, hop⟩
        · exact ⟨List.mem_cons_of_mem _ (ih hu).1, (ih hu).2⟩
      · exact ⟨List.mem_cons_of_mem _ (ih hu).1, (ih hu).2⟩

/-- **Where no move is possible**, the operational records read just what they write. -/
theorem Bookkept.blocked (h : Bookkept r r.pendingReads) (ha : Aligned (units r.records))
    (ht : r.tryMove isImmediateEncodableInOneInstruction = none) :
    (firstTargets (units r.records)).Perm (firstSources (units r.records)) ∧
      ∀ u ∈ units r.records, ∃ s, u.1.source.cell? = some s := by
  have hsub : firstTargets (units r.records) ⊆ firstSources (units r.records) := by
    intro c hc
    obtain ⟨u, hu, hut⟩ := List.mem_filterMap.mp hc
    obtain ⟨hmem, hop⟩ := mem_records_of_mem_units hu
    unfold ParallelMoveResolver.tryMove at ht
    split at ht
    · exact absurd ht (by simp)
    · case _ hnone =>
      have hblocked := List.findIdx?_eq_none_iff.mp hnone u.1 hmem
      rw [hop, Bool.true_and, Bool.not_eq_false', h.counts.targetIsUsedAsSource_iff hut,
        h.pendingReads_eq] at hblocked
      obtain ⟨v, hv, hread⟩ := List.mem_flatMap.mp hblocked
      obtain ⟨y, hy, hys⟩ := List.mem_filterMap.mp hread
      rcases List.mem_cons.mp hy with rfl | hy
      · exact List.mem_filterMap.mpr ⟨v, hv, hys⟩
      · exact absurd (hys.trans hut.symm) (ha.second v hv u hu y hy)
  have hlen : (firstTargets (units r.records)).length = (units r.records).length := by
    refine List.filterMap_length_eq_length.mpr fun u hu => ?_
    obtain ⟨t, ht⟩ := h.exists_target hu
    exact Option.isSome_iff_exists.mpr ⟨t, ht⟩
  have hle : (firstSources (units r.records)).length ≤ (units r.records).length :=
    List.length_filterMap_le _ _
  have hsubperm := List.subperm_of_subset ha.nodup hsub
  have hperm := hsubperm.perm_of_length_le (by omega)
  refine ⟨hperm, fun u hu => ?_⟩
  have hlen' : (firstSources (units r.records)).length = (units r.records).length :=
    hperm.length_eq ▸ hlen
  exact Option.isSome_iff_exists.mp (List.filterMap_length_eq_length.mp hlen' u hu)

end Blocked

/-! ### The temporary, for records that move whole values -/

section AlignedTemp

variable {r r' : ParallelMoveResolver TReg} {cells : List (Cell TReg)}
  {isImmediateEncodableInOneInstruction : MachineType → Word → Bool}
  {tempProvider : ParallelMoveResolver TReg → VariableStorage TReg → TReg}

/-- No record in use reads a storage. -/
def Unread (r : ParallelMoveResolver TReg) (target : VariableStorage TReg) : Prop :=
  ∀ c, target.cell? = some c → c ∉ r.pendingReads

/-- After the head of a cycle has been saved: with the head's target, the pending records write
what they read and the freed location. -/
structure HoleAt (l : List (ParallelMoveRecord TReg × List (ParallelMoveRecord TReg)))
    (head freed : Cell TReg) : Prop where
  /-- The targets are different. -/
  nodup : (head :: firstTargets l).Nodup
  /-- What is written is what is read. -/
  perm : (head :: firstTargets l).Perm (freed :: firstSources l)
  /-- Every record reads a location. -/
  read : ∀ u ∈ l, ∃ s, u.1.source.cell? = some s
  /-- No placeholder reads the head's target. -/
  second : ∀ u ∈ l, ∀ y ∈ u.2, y.source.cell? ≠ some head

omit [DecidableEq TReg] in
/-- A unit seen among the targets and the sources. -/
theorem perm_firstTargets {l l' : List (ParallelMoveRecord TReg × List (ParallelMoveRecord TReg))}
    {x : ParallelMoveRecord TReg} {placeholder : List (ParallelMoveRecord TReg)} {t s : Cell TReg}
    (hp : l.Perm ((x, placeholder) :: l')) (ht : x.target.cell? = some t)
    (hs : x.source.cell? = some s) :
    (firstTargets l).Perm (t :: firstTargets l') ∧
      (firstSources l).Perm (s :: firstSources l') := by
  constructor
  · exact (hp.filterMap _).trans (by rw [List.filterMap_cons, ht]; rfl)
  · exact (hp.filterMap _).trans (by rw [List.filterMap_cons, hs]; rfl)

/-- What holds at every point of a resolution through a temporary. -/
def TempInvariant : ResolverPoint TReg → ParallelMoveResolver TReg → Prop
  | .moving, r => Bookkept r r.pendingReads ∧ Aligned (units r.records)
  | .hole cycleHead _ freedLocation, r =>
      Bookkept r r.pendingReads ∧ Aligned (units r.records) ∧
        ∃ head freed, cycleHead.target.cell? = some head ∧ freedLocation.cell? = some freed ∧
          HoleAt (units r.records) head freed
  | .swapping _ _ _, _ => False

/-- A linear move keeps the records whole. -/
theorem Bookkept.tryMove_aligned (h : Bookkept r r.pendingReads)
    (ha : Aligned (units r.records)) {action : Action TReg}
    (ht : r.tryMove isImmediateEncodableInOneInstruction = some (action, r')) :
    Bookkept r' r'.pendingReads ∧ Aligned (units r'.records) := by
  obtain ⟨x, placeholder, c, l, -, hc, -, h', hperm, hredirected⟩ := h.tryMove ht
  have hsplit := ha.perm hperm
  exact ⟨h', hsplit.tail.redirected hredirected (hsplit.notMem_tail hc)⟩

/-- The target of a linear move is unread. -/
theorem Bookkept.tryMove_unread (h : Bookkept r r.pendingReads)
    {target source : VariableStorage TReg}
    (ht : r.tryMove isImmediateEncodableInOneInstruction = some (.move target source, r')) :
    Unread r target := by
  obtain ⟨x, placeholder, c, l, haction, hc, hunread, -⟩ := h.tryMove ht
  obtain ⟨rfl, rfl⟩ := Action.move.inj haction
  intro c' hc'
  obtain rfl := Option.some.inj (hc.symm.trans hc')
  exact hunread

/-- What a search for an operational record finds, and what resolving it leaves. -/
theorem Bookkept.resolve_aligned (h : Bookkept r r.pendingReads) (ha : Aligned (units r.records))
    {p : ParallelMoveRecord TReg → Bool} {i : ℕ} (hi : r.records.findIdx? p = some i)
    (hp : ∀ x, p x = true → x.isOperationalRecord = true) :
    ∃ placeholder, p (r.recordAt i) = true ∧
      Bookkept (WasmCompiler.resolveRecord r i) (WasmCompiler.resolveRecord r i).pendingReads ∧
      Aligned (units (WasmCompiler.resolveRecord r i).records) ∧
      (units r.records).Perm
        ((r.recordAt i, placeholder) :: units (WasmCompiler.resolveRecord r i).records) := by
  obtain ⟨a, x, placeholder, b, hr, rfl, hx, hunit, hpa, hpb⟩ := h.found hi hp
  have hperm := eraseUnit_units_perm (fun y => y.source) hr hunit hpa
  rw [← resolveRecord_eq hr hunit] at hperm
  rw [recordAt_split hr]
  exact ⟨placeholder, hx, h.resolveRecord hr hunit hpa hpb, (ha.perm hperm).tail, hperm⟩

/-- The cells of a search that has found a record targeting a freed location. -/
theorem cell?_of_targeting {x : ParallelMoveRecord TReg} {freedLocation : VariableStorage TReg}
    {freed : Cell TReg} (hf : freedLocation.cell? = some freed)
    (hx : (x.isOperationalRecord && x.target.inSameLocation freedLocation) = true)
    (htarget : x.target.isParallelMoveLocation = true) : x.target.cell? = some freed := by
  obtain ⟨c, hc⟩ := VariableStorage.isParallelMoveLocation_iff.mp htarget
  have hsame := (VariableStorage.inSameLocation_iff_cell hc).mp (Bool.and_eq_true_iff.mp hx).2
  obtain rfl := Option.some.inj (hsame.symm.trans hf)
  exact hc

/-- A search that finds no record targeting a freed location. -/
theorem notMem_firstTargets {freedLocation : VariableStorage TReg} {freed : Cell TReg}
    (hf : freedLocation.cell? = some freed)
    (hnone : r.findRecordTargetingFreedLocation freedLocation = none) :
    freed ∉ firstTargets (units r.records) := by
  intro hmem
  obtain ⟨u, hu, hut⟩ := List.mem_filterMap.mp hmem
  obtain ⟨hslot, hop⟩ := mem_records_of_mem_units hu
  have hnot := List.findIdx?_eq_none_iff.mp hnone u.1 hslot
  rw [hop, Bool.true_and, (VariableStorage.inSameLocation_iff_cell hut).mpr hf] at hnot
  exact absurd hnot (by simp)

/-- Nothing pending reads a cell that neither an operational record nor a placeholder reads. -/
theorem Bookkept.unread_of (h : Bookkept r cells) {target : VariableStorage TReg} {c : Cell TReg}
    (hc : target.cell? = some c) (hfirst : c ∉ firstSources (units r.records))
    (hsecond : ∀ u ∈ units r.records, ∀ y ∈ u.2, y.source.cell? ≠ some c) : Unread r target := by
  intro c' hc' hmem
  obtain rfl := Option.some.inj (hc.symm.trans hc')
  rw [h.pendingReads_eq] at hmem
  obtain ⟨u, hu, hread⟩ := List.mem_flatMap.mp hmem
  obtain ⟨y, hy, hys⟩ := List.mem_filterMap.mp hread
  rcases List.mem_cons.mp hy with rfl | hy
  · exact hfirst (List.mem_filterMap.mpr ⟨u, hu, hys⟩)
  · exact hsecond u hu y hy hys

/-- **One step with a temporary** keeps the invariant, and writes a temporary or what no pending
record reads. -/
theorem TempInvariant.step {point point' : ResolverPoint TReg} {action : Action TReg}
    (h : TempInvariant point r)
    (hs : stepTemp isImmediateEncodableInOneInstruction tempProvider (point, r) =
      some (action, point', r')) :
    TempInvariant point' r' ∧ ∃ target source, action = .move target source ∧
      ((point = .moving ∧ r.tryMove isImmediateEncodableInOneInstruction = none ∧
          target = .reg source.machineType (tempProvider r source)) ∨ Unread r target) := by
  cases point with
  | moving =>
      obtain ⟨hb, ha⟩ := h
      cases hmove : r.tryMove isImmediateEncodableInOneInstruction with
      | some step =>
          obtain ⟨action₁, r₁⟩ := step
          simp only [stepTemp, hmove, Option.some.injEq, Prod.mk.injEq] at hs
          obtain ⟨rfl, rfl, rfl⟩ := hs
          obtain ⟨x, placeholder, c, l, rfl, -⟩ := hb.tryMove hmove
          exact ⟨hb.tryMove_aligned ha hmove, _, _, rfl, Or.inr (hb.tryMove_unread hmove)⟩
      | none =>
          cases hfirst : r.getFirstOperationalRecord with
          | none => simp [stepTemp, hmove, hfirst] at hs
          | some cycleHeadIndex =>
              simp only [stepTemp, hmove, hfirst, Option.some.injEq, Prod.mk.injEq] at hs
              obtain ⟨rfl, rfl, rfl⟩ := hs
              obtain ⟨placeholder, -, hb', ha', hperm⟩ := hb.resolve_aligned ha hfirst fun x hx => hx
              obtain ⟨hcells, hread⟩ := hb.blocked ha hmove
              have hmem := hperm.mem_iff.mpr List.mem_cons_self
              obtain ⟨head, hhead⟩ := hb.exists_target hmem
              obtain ⟨freed, hfreed⟩ := hread _ hmem
              obtain ⟨htargets, hsources⟩ := perm_firstTargets hperm hhead hfreed
              refine ⟨⟨hb', ha', head, freed, hhead, hfreed, ?_, ?_, ?_, ?_⟩, _, _, rfl,
                Or.inl ⟨rfl, rfl, rfl⟩⟩
              · exact htargets.nodup_iff.mp ha.nodup
              · exact htargets.symm.trans (hcells.trans hsources)
              · exact fun u hu => hread u (hperm.mem_iff.mpr (List.mem_cons_of_mem _ hu))
              · intro u hu y hy
                rw [← hhead]
                exact ha.second u (hperm.mem_iff.mpr (List.mem_cons_of_mem _ hu)) _ hmem y hy
  | hole cycleHead tempStorage freedLocation =>
      obtain ⟨hb, ha, head, freed, hhead, hfreed, hhole⟩ := h
      cases hfind : r.findRecordTargetingFreedLocation freedLocation with
      | none =>
          simp only [stepTemp, hfind, Option.some.injEq, Prod.mk.injEq] at hs
          obtain ⟨rfl, rfl, rfl⟩ := hs
          have hnot := notMem_firstTargets hfreed hfind
          have hmem := hhole.perm.mem_iff.mpr List.mem_cons_self
          obtain rfl := (List.mem_cons.mp hmem).resolve_right hnot
          have hnodup := hhole.perm.nodup_iff.mp hhole.nodup
          exact ⟨⟨hb, ha⟩, _, _, rfl,
            Or.inr (hb.unread_of hhead (List.nodup_cons.mp hnodup).1 hhole.second)⟩
      | some nextIndex =>
          simp only [stepTemp, hfind, Option.some.injEq, Prod.mk.injEq] at hs
          obtain ⟨rfl, rfl, rfl⟩ := hs
          obtain ⟨placeholder, hx, hb', ha', hperm⟩ :=
            hb.resolve_aligned ha hfind fun x hx => (Bool.and_eq_true_iff.mp hx).1
          have hmem := hperm.mem_iff.mpr List.mem_cons_self
          have htarget := cell?_of_targeting hfreed hx
            (hb.target _ (hb.mem_pending hmem List.mem_cons_self))
          obtain ⟨next, hnext⟩ := hhole.read _ hmem
          obtain ⟨htargets, hsources⟩ := perm_firstTargets hperm htarget hnext
          have hsub : ∀ u ∈ units (resolveRecord r nextIndex).records, u ∈ units r.records :=
            fun u hu => hperm.mem_iff.mpr (List.mem_cons_of_mem _ hu)
          have hunread : Unread r (r.recordAt nextIndex).target :=
            hb.unread_of htarget (List.nodup_cons.mp (hhole.perm.nodup_iff.mp hhole.nodup)).1
              fun u hu y hy => htarget ▸ ha.second u hu _ hmem y hy
          refine ⟨⟨hb', ha', head, next, hhead, hnext, ?_, ?_, ?_, ?_⟩, _, _, rfl, Or.inr hunread⟩
          · have hnodup := (htargets.cons head).nodup_iff.mp hhole.nodup
            exact hnodup.sublist ((List.sublist_cons_self freed _).cons_cons head)
          · have hall := ((htargets.cons head).symm.trans hhole.perm).trans (hsources.cons freed)
            exact ((List.Perm.swap head freed _).trans hall).cons_inv
          · exact fun u hu => hhole.read u (hsub u hu)
          · exact fun u hu => hhole.second u (hsub u hu)
  | swapping swapContains64 first swapIndex => exact h.elim

end AlignedTemp

end WasmCompiler
