import WasmCompiler.ParallelMoveBookkeeping

/-!
# The Usage Counts between Swaps

A swap moves the content of the target of a record to the location the record has read, where
the pending record that still needs it finds it after all; the maps follow the content, while
the sources of the records stay as they are. Between two swaps the maps count, therefore, the
locations the pending records write: these are the ones they read, with the targets of the
first record of the cycle exchanged for those of the record that is swapped next.

## Main results

* `SwapInvariant.step`: a step of a resolution through swaps keeps the invariant, and nothing
  is left to be read at the target of a swap.
* `PushedMoves.bookkeeping`: the maps and the record counter at every point of a resolution.
-/

namespace WasmCompiler

open ParallelMoveResolver

variable {TReg : Type} [DecidableEq TReg]

section Swap

variable {r r' : ParallelMoveResolver TReg} {half : Cell TReg → List (Cell TReg)}
  {first : Cell TReg} {i : ℕ}
  {isImmediateEncodableInOneInstruction : MachineType → Word → Bool}

/-! ### Between two swaps -/

/-- The maps count what the pending records write, and these move whole values. -/
structure Swapping (half : Cell TReg → List (Cell TReg)) (r : ParallelMoveResolver TReg) :
    Prop where
  /-- The maps count what is written. -/
  bookkept : Bookkept r r.pendingTargets
  /-- The records move whole values. -/
  aligned : Aligned (units r.records)
  /-- Their second halves are given by `half`. -/
  matched : Matched half (units r.records)

/-- The resolver is at a record of a cycle whose first target was `first`. -/
structure SwapPoint (half : Cell TReg → List (Cell TReg)) (first : Cell TReg) (i : ℕ)
    (r : ParallelMoveResolver TReg) : Prop extends Swapping half r where
  /-- There is an operational record. -/
  operational : (r.recordAt i).isOperationalRecord = true
  /-- With the first target of the cycle, the records write what they read and the target of
  the record that comes next. -/
  perm : ∃ hole, (r.recordAt i).target.cell? = some hole ∧
    (first :: firstTargets (units r.records)).Perm (hole :: firstSources (units r.records))

/-- Where no cycle has been begun, the maps count what is read. -/
theorem Swapping.targets_perm_reads (h : Swapping half r)
    (hp : (firstTargets (units r.records)).Perm (firstSources (units r.records))) :
    r.pendingTargets.Perm r.pendingReads := by
  rw [h.bookkept.pendingTargets_eq, h.bookkept.pendingReads_eq, h.matched.targets_eq,
    h.matched.sources_eq]
  exact hp.flatMap_right _

/-- **Marking a record as swapped**: the content of its target is not counted any more. -/
theorem Swapping.markAsSwapped (h : Swapping half r)
    (hop : (r.recordAt i).isOperationalRecord = true) :
    Swapping half (r.markAsSwapped i) ∧ ∃ t s, (r.recordAt i).target.cell? = some t ∧
      (r.recordAt i).source.cell? = some s ∧
      (firstTargets (units r.records)).Perm
        (t :: firstTargets (units (r.markAsSwapped i).records)) ∧
      (firstSources (units r.records)).Perm
        (s :: firstSources (units (r.markAsSwapped i).records)) ∧
      t ∉ (r.markAsSwapped i).pendingTargets ∧
      (r.markAsSwapped i).pendingTargets ⊆ r.pendingTargets := by
  obtain ⟨a, x, placeholder, b, hr, rfl, hunit, ha, hb⟩ := h.bookkept.slot hop
  have hbookkept := h.bookkept.markAsSwapped hr hunit ha hb
  have hperm := eraseUnit_units_perm (fun y => y.target) hr hunit ha
  have htargets := pendingTargets_perm hr hunit fun y => y.target
  rw [← markAsSwapped_eq hr hunit] at hperm htargets
  rw [recordAt_split hr]
  obtain ⟨t, s, ht, hs, -, -⟩ := h.matched _ (hperm.mem_iff.mpr List.mem_cons_self)
  obtain ⟨hfirst, hsource⟩ := perm_firstTargets hperm ht hs
  refine ⟨⟨hbookkept, (h.aligned.perm hperm).tail, (h.matched.perm hperm).tail⟩,
    t, s, ht, hs, hfirst, hsource, ?_, ?_⟩
  · have hdistinct := h.aligned.distinct
    rw [← h.bookkept.pendingTargets_eq, htargets.nodup_iff] at hdistinct
    have hmem : t ∈ ((x :: placeholder).map fun y => y.target).filterMap VariableStorage.cell? := by
      simp [ht]
    exact fun hin => (List.nodup_append.mp hdistinct).2.2 t hmem t hin rfl
  · exact fun c hc => htargets.mem_iff.mpr (List.mem_append_right _ hc)

/-- The record found to target a freed location. -/
theorem Swapping.found (h : Swapping half r) {freedLocation : VariableStorage TReg}
    {freed : Cell TReg} (hf : freedLocation.cell? = some freed)
    (hi : r.findRecordTargetingFreedLocation freedLocation = some i) :
    (r.recordAt i).isOperationalRecord = true ∧ (r.recordAt i).target.cell? = some freed := by
  obtain ⟨a, x, placeholder, b, hr, rfl, hx, hunit, -, -⟩ :=
    h.bookkept.found hi fun x hx => (Bool.and_eq_true_iff.mp hx).1
  rw [recordAt_split hr]
  exact ⟨hunit.isOperationalRecord, cell?_of_targeting hf hx
    (h.bookkept.target _ (mem_pending_of_split hr hunit List.mem_cons_self))⟩

/-- The targets of a record and of its placeholder. -/
theorem Swapping.targetsAt (h : Swapping half r)
    (hop : (r.recordAt i).isOperationalRecord = true) {t : Cell TReg}
    (ht : (r.recordAt i).target.cell? = some t) :
    (WasmCompiler.targetsAt r i).filterMap VariableStorage.cell? = t :: half t := by
  obtain ⟨a, x, placeholder, b, hr, rfl, hunit, ha, hb⟩ := h.bookkept.slot hop
  have hmem : (x, placeholder) ∈ units r.records := by
    rw [hr, ha.units_append, units_unit hunit]
    simp
  rw [recordAt_split hr] at ht
  obtain ⟨t', s, ht', -, hhalf, -⟩ := h.matched _ hmem
  obtain rfl := Option.some.inj (ht.symm.trans ht')
  have htargets : WasmCompiler.targetsAt r a.length = (x :: placeholder).map fun y => y.target := by
    rw [WasmCompiler.targetsAt, recordAt_split hr]
    rcases hunit.kinds with ⟨hkind, rfl⟩ | ⟨hkind, y, rfl, -, -⟩
    · simp [hkind]
    · have hy : r.recordAt (a.length + 1) = y := by simp [recordAt, hr]
      simp [hkind, hy]
  rw [htargets, List.filterMap_map]
  simp only [List.filterMap_cons, Function.comp_apply, ht, ← hhalf]

/-! ### The steps -/

/-- What holds at every point of a resolution through swaps. -/
def SwapInvariant : ResolverPoint TReg → ParallelMoveResolver TReg → Prop
  | .moving, r => Bookkept r r.pendingReads ∧ Aligned (units r.records)
  | .hole _ _ _, _ => False
  | .swapping _ targets i, r => ∃ half first, SwapPoint half first i r ∧
      targets.filterMap VariableStorage.cell? = first :: half first

/-- Where a cycle begins. -/
theorem Swapping.start (h : Swapping half r)
    (hp : (firstTargets (units r.records)).Perm (firstSources (units r.records)))
    (hfirst : r.getFirstOperationalRecord = some i) :
    ∃ first, SwapPoint half first i r ∧
      (WasmCompiler.targetsAt r i).filterMap VariableStorage.cell? = first :: half first := by
  obtain ⟨a, x, placeholder, b, hr, rfl, hx, hunit, -, -⟩ :=
    h.bookkept.found hfirst fun x hx => hx
  have hop : (r.recordAt a.length).isOperationalRecord = true := by
    rw [recordAt_split hr]
    exact hx
  obtain ⟨t, ht⟩ := VariableStorage.isParallelMoveLocation_iff.mp
    (h.bookkept.target _ (mem_pending_of_split hr hunit List.mem_cons_self))
  rw [← recordAt_split hr] at ht
  exact ⟨t, ⟨h, hop, t, ht, hp.cons t⟩, h.targetsAt hop ht⟩

/-- Going on with the next cycle. -/
theorem Swapping.nextCycle (h : Swapping half r)
    (hp : (firstTargets (units r.records)).Perm (firstSources (units r.records)))
    (swapContains64 : Bool) :
    (WasmCompiler.nextCycle swapContains64 r).2 = r ∧
      SwapInvariant (WasmCompiler.nextCycle swapContains64 r).1 r := by
  rw [WasmCompiler.nextCycle]
  cases hfirst : r.getFirstOperationalRecord with
  | none =>
      have hb := h.bookkept
      exact ⟨rfl, ⟨hb.paired, hb.source, hb.target, hb.count,
        hb.counts.perm (h.targets_perm_reads hp)⟩, h.aligned⟩
  | some i =>
      obtain ⟨first, hpoint, htargets⟩ := h.start hp hfirst
      exact ⟨rfl, half, first, hpoint, htargets⟩

/-- **One swap** keeps the invariant, and nothing is left to be read at its target. -/
theorem SwapPoint.swapAt (h : SwapPoint half first i r) (swapContains64 : Bool)
    {targets : List (VariableStorage TReg)}
    (htargets : targets.filterMap VariableStorage.cell? = first :: half first) :
    SwapInvariant (WasmCompiler.swapAt swapContains64 targets r i).2.1
        (WasmCompiler.swapAt swapContains64 targets r i).2.2 ∧
      ∀ c, (r.recordAt i).target.cell? = some c →
        c ∉ (WasmCompiler.swapAt swapContains64 targets r i).2.2.pendingTargets := by
  obtain ⟨h₁, t, s, ht, hs, hfirst, hsource, hunwritten, -⟩ := h.markAsSwapped h.operational
  obtain ⟨hole, hhole, hperm⟩ := h.perm
  obtain rfl := Option.some.inj (ht.symm.trans hhole)
  -- what is written and read without the record
  have hperm₁ : (first :: firstTargets (units (r.markAsSwapped i).records)).Perm
      (s :: firstSources (units (r.markAsSwapped i).records)) := by
    have hall := ((hfirst.cons first).symm.trans hperm).trans (hsource.cons t)
    exact ((List.Perm.swap first t _).trans hall).cons_inv
  have htarget : ∀ {l : List (Cell TReg)}, t ∉ l → ∀ c, (r.recordAt i).target.cell? = some c →
      c ∉ l := fun hl c hc => Option.some.inj (ht.symm.trans hc) ▸ hl
  rw [WasmCompiler.swapAt]
  cases hnext : (r.markAsSwapped i).findRecordTargetingFreedLocation (r.recordAt i).source with
  | none =>
      -- nobody targets what the record has read: it was the last one of its cycle
      have hmem := hperm₁.mem_iff.mpr List.mem_cons_self
      obtain rfl := (List.mem_cons.mp hmem).resolve_right (notMem_firstTargets hs hnext)
      obtain ⟨hsame, hinv⟩ := h₁.nextCycle hperm₁.cons_inv swapContains64
      simp only [hsame]
      exact ⟨hinv, htarget hunwritten⟩
  | some next =>
      obtain ⟨hop', ht'⟩ := h₁.found hs hnext
      obtain ⟨h₂, t', s', ht'', hs', hfirst', hsource', -, hsub⟩ := h₁.markAsSwapped hop'
      obtain rfl := Option.some.inj (ht'.symm.trans ht'')
      dsimp only
      cases hnextNext : (r.markAsSwapped i).findRecordTargetingFreedLocation
          ((r.markAsSwapped i).recordAt next).source with
      | none =>
          -- the next record is the last one of its cycle
          have hmem : s' ∈ first :: firstTargets (units (r.markAsSwapped i).records) :=
            hperm₁.mem_iff.mpr (List.mem_cons_of_mem _ (hsource'.mem_iff.mpr List.mem_cons_self))
          obtain rfl := (List.mem_cons.mp hmem).resolve_right (notMem_firstTargets hs' hnextNext)
          have hall := ((hfirst'.cons s').symm.trans hperm₁).trans (hsource'.cons s)
          have hperm₂ := ((List.Perm.swap s' s _).trans hall).cons_inv.cons_inv
          obtain ⟨hsame, hinv⟩ := h₂.nextCycle hperm₂ swapContains64
          simp only [hsame]
          exact ⟨hinv, htarget fun hin => hunwritten (hsub hin)⟩
      | some nextNext =>
          exact ⟨⟨half, first, ⟨h₁, hop', s, ht', hperm₁⟩, htargets⟩, htarget hunwritten⟩

/-- **One step with swaps** keeps the invariant; a move writes what no pending record reads,
and nothing is left to be read at the target of a swap. -/
theorem SwapInvariant.step {point point' : ResolverPoint TReg} {action : Action TReg}
    (h : SwapInvariant point r)
    (hs : stepSwap isImmediateEncodableInOneInstruction (point, r) = some (action, point', r')) :
    SwapInvariant point' r' ∧
      ((∃ target source, action = .move target source ∧ Unread r target) ∨
        ∃ target source swapContains64, action = .swap target source swapContains64 ∧
          ∀ c, target.cell? = some c → c ∉ r'.pendingTargets) := by
  cases point with
  | moving =>
      obtain ⟨hb, ha⟩ := h
      cases hmove : r.tryMove isImmediateEncodableInOneInstruction with
      | some step =>
          obtain ⟨action₁, r₁⟩ := step
          simp only [stepSwap, hmove, Option.some.injEq, Prod.mk.injEq] at hs
          obtain ⟨rfl, rfl, rfl⟩ := hs
          obtain ⟨x, placeholder, c, l, rfl, -⟩ := hb.tryMove hmove
          exact ⟨hb.tryMove_aligned ha hmove, Or.inl ⟨_, _, rfl, hb.tryMove_unread hmove⟩⟩
      | none =>
          cases hfirst : r.getFirstOperationalRecord with
          | none => simp [stepSwap, hmove, hfirst] at hs
          | some swapIndex =>
              simp only [stepSwap, hmove, hfirst] at hs
              obtain ⟨hcells, hread⟩ := hb.blocked ha hmove
              obtain ⟨half, hmatched⟩ := ha.matched (fun u hu => hb.exists_target hu) hread hcells
              have hperm : r.pendingReads.Perm r.pendingTargets := by
                rw [hb.pendingTargets_eq, hb.pendingReads_eq, hmatched.targets_eq,
                  hmatched.sources_eq]
                exact (hcells.flatMap_right _).symm
              have hswapping : Swapping half r := ⟨⟨hb.paired, hb.source, hb.target, hb.count,
                hb.counts.perm hperm⟩, ha, hmatched⟩
              obtain ⟨first, hpoint, htargets⟩ := hswapping.start hcells hfirst
              obtain ⟨hinv, hunwritten⟩ :=
                hpoint.swapAt r.remainingCycleContains64BitTarget htargets
              rw [Option.some.inj hs] at hinv hunwritten
              refine ⟨hinv, Or.inr ⟨(r.recordAt swapIndex).target, (r.recordAt swapIndex).source,
                r.remainingCycleContains64BitTarget, ?_, hunwritten⟩⟩
              exact (congrArg Prod.fst (Option.some.inj hs)).symm
  | hole cycleHead tempStorage freedLocation => exact h.elim
  | swapping swapContains64 targets swapIndex =>
      obtain ⟨half, first, hpoint, htargets⟩ := h
      obtain ⟨hinv, hunwritten⟩ := hpoint.swapAt swapContains64 htargets
      simp only [stepSwap, Option.some.injEq] at hs
      rw [hs] at hinv hunwritten
      refine ⟨hinv, Or.inr ⟨(r.recordAt swapIndex).target, (r.recordAt swapIndex).source,
        swapContains64, ?_, hunwritten⟩⟩
      exact (congrArg Prod.fst hs).symm

/-- **The linear phase** before the first swap keeps the maps those of the pending reads,
whatever has been pushed. -/
theorem Bookkept.linear (h : Bookkept r r.pendingReads) {actions : List (Action TReg)}
    {s : ResolverState TReg}
    (hrun : Emits (stepSwap isImmediateEncodableInOneInstruction) (.moving, r) actions s)
    (hmoves : ∀ action ∈ actions, ∃ target source, action = .move target source) :
    s.1 = .moving ∧ Bookkept s.2 s.2.pendingReads := by
  generalize hs : ((.moving, r) : ResolverState TReg) = s₀ at hrun
  induction hrun generalizing r with
  | nil s₀ =>
      subst hs
      exact ⟨rfl, h⟩
  | @cons s₀ s₁ s₂ action actions first rest ih =>
      subst hs
      obtain ⟨target, source, rfl⟩ := hmoves action List.mem_cons_self
      cases hmove : r.tryMove isImmediateEncodableInOneInstruction with
      | some step =>
          obtain ⟨action₁, r₁⟩ := step
          simp only [stepSwap, hmove, Option.some.injEq, Prod.mk.injEq] at first
          obtain ⟨-, rfl⟩ := first
          obtain ⟨-, -, -, -, -, -, -, h₁, -⟩ := h.tryMove hmove
          exact ih h₁ (fun a ha => hmoves a (List.mem_cons_of_mem _ ha)) rfl
      | none =>
          cases hfirst : r.getFirstOperationalRecord with
          | none => simp [stepSwap, hmove, hfirst] at first
          | some swapIndex => simp [stepSwap, hmove, hfirst, swapAt] at first

end Swap

/-! ### The books -/

/-- The maps and the counter of the resolver, for the cells that are still to be read. -/
structure Bookkeeping (r : ParallelMoveResolver TReg) (reads : List (Cell TReg)) : Prop where
  /-- A register counts as often as it is read. -/
  register : ∀ reg, r.regSourceMap reg = reads.count (.register reg)
  /-- A memory location has exactly one entry with its positive count if it is read, and none
  otherwise. -/
  memory : ∀ k, (r.memorySourceMap.filter fun e => e.key = k) =
    if reads.count (memoryCell k) = 0 then []
    else [⟨k.2, reads.count (memoryCell k), k.1⟩]
  /-- The counter is the number of records in use. -/
  count : r.recordsCount = r.pending.length

/-- What `Bookkept` says about the maps. -/
theorem Bookkept.bookkeeping {r : ParallelMoveResolver TReg} {cells : List (Cell TReg)}
    (h : Bookkept r cells) : Bookkeeping r cells := by
  refine ⟨h.counts.reg, fun k => ?_, h.count⟩
  have hmem := h.counts.mem k
  rw [memoryCount] at hmem
  have hkeys := h.counts.keys.filter fun key => decide (key = k)
  have hpos := h.counts.pos
  cases hf : r.memorySourceMap.filter (fun e => e.key = k) with
  | nil =>
      rw [hf] at hmem
      have hzero : cells.count (memoryCell k) = 0 := hmem.symm
      rw [if_pos hzero]
  | cons e l =>
      have hkey : ∀ e' ∈ e :: l, e'.key = k ∧ e' ∈ r.memorySourceMap := by
        intro e' he'
        rw [← hf] at he'
        exact ⟨by simpa using (List.mem_filter.mp he').2, (List.mem_filter.mp he').1⟩
      have hnil : l = [] := by
        rw [List.filter_map] at hkeys
        have hcomp : r.memorySourceMap.filter ((fun key => decide (key = k)) ∘ MemorySourceEntry.key)
            = e :: l := hf
        rw [hcomp, List.map_cons, List.nodup_cons] at hkeys
        rw [List.eq_nil_iff_forall_not_mem]
        intro e' he'
        refine hkeys.1 (List.mem_map.mpr ⟨e', he', ?_⟩)
        rw [(hkey e' (List.mem_cons_of_mem _ he')).1, (hkey e List.mem_cons_self).1]
      subst hnil
      rw [hf] at hmem
      obtain ⟨hek, he⟩ := hkey e List.mem_cons_self
      have hcount : e.count = cells.count (memoryCell k) := by simpa using hmem
      have hne : ¬ cells.count (memoryCell k) = 0 := by
        have := hpos e he
        omega
      rw [if_neg hne, ← hcount, ← hek]
      rfl

/-- The books at a point of a resolution through swaps: between two swaps, the contents of the
targets of the first record of the cycle count where the swaps have moved them. -/
def SwapBooks (r : ParallelMoveResolver TReg) : ResolverPoint TReg → Prop
  | .moving => Bookkeeping r r.pendingReads
  | .hole _ _ _ => False
  | .swapping _ first swapIndex =>
      Bookkeeping r r.pendingTargets ∧
        (first.filterMap VariableStorage.cell? ++ r.pendingTargets).Perm
          ((targetsAt r swapIndex).filterMap VariableStorage.cell? ++ r.pendingReads)

/-- What the invariant says about the books. -/
theorem SwapInvariant.swapBooks {r : ParallelMoveResolver TReg} {point : ResolverPoint TReg}
    (h : SwapInvariant point r) : SwapBooks r point := by
  cases point with
  | moving => exact h.1.bookkeeping
  | hole cycleHead tempStorage freedLocation => exact h
  | swapping swapContains64 targets i =>
      obtain ⟨half, first, hpoint, htargets⟩ := h
      refine ⟨hpoint.bookkept.bookkeeping, ?_⟩
      obtain ⟨hole, hhole, hperm⟩ := hpoint.perm
      rw [htargets, hpoint.targetsAt hpoint.operational hhole, hpoint.bookkept.pendingTargets_eq,
        hpoint.bookkept.pendingReads_eq, hpoint.matched.targets_eq, hpoint.matched.sources_eq]
      have hall := hperm.flatMap_right fun c => c :: half c
      rwa [List.flatMap_cons, List.flatMap_cons] at hall

/-- The books of the resolver at every point of the resolution of pushed moves. -/
structure KeepsBooks (isImmediateEncodableInOneInstruction : MachineType → Word → Bool) (cap : ℕ)
    (moves : List (PushedMove TReg)) : Prop where
  /-- A resolution through a temporary is a run of steps. -/
  temp : ∀ tempProvider fuel actions r,
    resolveTemp isImmediateEncodableInOneInstruction tempProvider fuel
        ((init cap).pushMoves moves) = some (actions, r) →
      Emits (stepTemp isImmediateEncodableInOneInstruction tempProvider)
        (.moving, ((init cap).pushMoves moves).initSourceUsage) actions (.moving, r)
  /-- After every step the books are those of the pending reads. -/
  temp_books : ∀ tempProvider actions point r,
    Emits (stepTemp isImmediateEncodableInOneInstruction tempProvider)
        (.moving, ((init cap).pushMoves moves).initSourceUsage) actions (point, r) →
      Bookkeeping r r.pendingReads
  /-- A linear move writes what no pending record reads. -/
  linear_unread : ∀ tempProvider actions r target source r',
    Emits (stepTemp isImmediateEncodableInOneInstruction tempProvider)
        (.moving, ((init cap).pushMoves moves).initSourceUsage) actions (.moving, r) →
      r.tryMove isImmediateEncodableInOneInstruction = some (.move target source, r') →
      Unread r target
  /-- If the records move whole values, every move writes a temporary or what no pending record
  reads. -/
  temp_unread : Aligned (units (moves.flatMap PushedMove.records)) →
    ∀ tempProvider actions point r target source s',
      Emits (stepTemp isImmediateEncodableInOneInstruction tempProvider)
          (.moving, ((init cap).pushMoves moves).initSourceUsage) actions (point, r) →
        stepTemp isImmediateEncodableInOneInstruction tempProvider (point, r) =
          some (.move target source, s') →
        target = .reg source.machineType (tempProvider r source) ∨ Unread r target
  /-- A resolution through swaps is a run of steps. -/
  swap : ∀ fuel actions r,
    resolveSwap isImmediateEncodableInOneInstruction fuel ((init cap).pushMoves moves) =
        some (actions, r) →
      Emits (stepSwap isImmediateEncodableInOneInstruction)
        (.moving, ((init cap).pushMoves moves).initSourceUsage) actions (.moving, r)
  /-- Before the first swap the books are those of the pending reads. -/
  swap_linear_books : ∀ actions point r,
    Emits (stepSwap isImmediateEncodableInOneInstruction)
        (.moving, ((init cap).pushMoves moves).initSourceUsage) actions (point, r) →
      (∀ action ∈ actions, ∃ target source, action = .move target source) →
      Bookkeeping r r.pendingReads
  /-- If the records move whole values, the books after every step are those of the pending
  reads, as far as the swaps have not moved what is to be read. -/
  swap_books : Aligned (units (moves.flatMap PushedMove.records)) →
    ∀ actions point r,
      Emits (stepSwap isImmediateEncodableInOneInstruction)
          (.moving, ((init cap).pushMoves moves).initSourceUsage) actions (point, r) →
        SwapBooks r point
  /-- Then a move writes what no pending record reads, and nothing is left to be read at the
  target of a swap. -/
  swap_unread : Aligned (units (moves.flatMap PushedMove.records)) →
    ∀ actions point r action point' r',
      Emits (stepSwap isImmediateEncodableInOneInstruction)
          (.moving, ((init cap).pushMoves moves).initSourceUsage) actions (point, r) →
        stepSwap isImmediateEncodableInOneInstruction (point, r) = some (action, point', r') →
        (∃ target source, action = .move target source ∧ Unread r target) ∨
          ∃ target source swapContains64, action = .swap target source swapContains64 ∧
            ∀ c, target.cell? = some c → c ∉ r'.pendingTargets

/-- **The bookkeeping of the resolver**, for all that its callers push. -/
theorem PushedMoves.keepsBooks
    (isImmediateEncodableInOneInstruction : MachineType → Word → Bool) {cap : ℕ}
    {moves : List (PushedMove TReg)} (h : PushedMoves cap moves) :
    KeepsBooks isImmediateEncodableInOneInstruction cap moves := by
  obtain ⟨hstart, hunits⟩ := h.start
  have htemp : Aligned (units (moves.flatMap PushedMove.records)) →
      ∀ tempProvider actions point r,
        Emits (stepTemp isImmediateEncodableInOneInstruction tempProvider)
            (.moving, ((init cap).pushMoves moves).initSourceUsage) actions (point, r) →
          TempInvariant point r := by
    intro ha tempProvider actions point r hrun
    have hfirst : TempInvariant .moving ((init cap).pushMoves moves).initSourceUsage :=
      ⟨hstart, hunits ▸ ha⟩
    exact hrun.invariant (fun s => TempInvariant s.1 s.2) hfirst
      fun _ _ _ hs hstep => (hs.step hstep).1
  have hswap : Aligned (units (moves.flatMap PushedMove.records)) →
      ∀ actions point r,
        Emits (stepSwap isImmediateEncodableInOneInstruction)
            (.moving, ((init cap).pushMoves moves).initSourceUsage) actions (point, r) →
          SwapInvariant point r := by
    intro ha actions point r hrun
    have hfirst : SwapInvariant .moving ((init cap).pushMoves moves).initSourceUsage :=
      ⟨hstart, hunits ▸ ha⟩
    exact hrun.invariant (fun s => SwapInvariant s.1 s.2) hfirst
      fun _ _ _ hs hstep => (hs.step hstep).1
  refine ⟨fun _ _ _ _ hres => emits_resolveTemp hres,
    fun _ _ _ _ hrun => (h.bookkept_temp hrun).bookkeeping,
    fun _ _ _ _ _ _ hrun hmove => (h.bookkept_temp hrun).tryMove_unread hmove, ?_,
    fun _ _ _ hres => emits_resolveSwap hres,
    fun _ _ _ hrun hmoves => (hstart.linear hrun hmoves).2.bookkeeping,
    fun ha _ _ _ hrun => (hswap ha _ _ _ hrun).swapBooks,
    fun ha _ _ _ _ _ _ hrun hstep => ((hswap ha _ _ _ hrun).step hstep).2⟩
  intro ha tempProvider actions point r target source s' hrun hstep
  obtain ⟨-, target', source', haction, hunread⟩ := (htemp ha _ _ _ _ hrun).step hstep
  obtain ⟨rfl, rfl⟩ := Action.move.inj haction
  exact hunread.imp_left fun h => h.2.2

/-- Two pairs of registers to be exchanged, next to a rotation of three registers and a register
to be loaded. -/
def pairMoves : List (PushedMove (Fin 10)) :=
  [.extend (.reg .i64 0) (.reg .i64 2) (.reg .i64 1) (.reg .i64 3),
    .extend (.reg .i64 2) (.reg .i64 0) (.reg .i64 3) (.reg .i64 1),
    .normal (.reg .i32 4) (.reg .i32 5), .normal (.reg .i32 5) (.reg .i32 6),
    .normal (.reg .i32 6) (.reg .i32 4), .normal (.reg .i32 7) (.stackMemory .i32 16)]

/-- The books are kept for them. -/
theorem pairMoves_keepsBooks : KeepsBooks (fun _ _ => true) 8 pairMoves :=
  PushedMoves.keepsBooks (fun _ _ => true)
    { room := by decide
      target := by decide
      source := by
        unfold VariableStorage.IsSource
        decide
      whole := by decide }

/-- They move whole values. -/
example : Aligned (units (pairMoves.flatMap PushedMove.records)) where
  distinct := by decide
  halves := by decide
  second := by decide

/-- A rotation of three registers. -/
def rotationMoves : List (PushedMove (Fin 3)) :=
  [.normal (.reg .i32 0) (.reg .i32 1), .normal (.reg .i32 1) (.reg .i32 2),
    .normal (.reg .i32 2) (.reg .i32 0)]

/-- After the first swap of the rotation, the books are not those of the pending reads: the
record that reads the first register finds what it needs in the second one. -/
theorem rotation_not_bookkeeping :
    PushedMoves 3 rotationMoves ∧ ∃ actions point r,
      Emits (stepSwap fun _ _ => true)
        (.moving, ((init 3).pushMoves rotationMoves).initSourceUsage) actions (point, r) ∧
      ¬ Bookkeeping r r.pendingReads := by
  refine ⟨⟨by decide, by decide, ?_, by decide⟩, [.swap (.reg .i32 0) (.reg .i32 1) false], _, _,
    .cons rfl (.nil _), fun h => absurd (h.register 0) (by decide)⟩
  unfold VariableStorage.IsSource
  decide

end WasmCompiler
