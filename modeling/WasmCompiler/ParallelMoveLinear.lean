import WasmCompiler.ParallelMoveInvariant

/-!
# The Linear Phase of the Parallel Move Resolver

`Running` joins the resolver's invariant with the progress its emitted moves have made.
`tryMove` keeps it and removes one record, so `moveAllWithoutConflict` terminates, and where
it stops the pending records are cycles.

## Main results

* `Running.tryMove`: one linear move keeps `Running`.
* `Running.moveAllWithoutConflict`: the linear phase terminates and leaves cycles only.
* `MoveList.resolveLinear`: so does `resolveLinear` on a list of pushed records.
-/

namespace WasmCompiler

open ParallelMoveResolver ParallelAssignment

variable {TReg : Type} [DecidableEq TReg]

/-- The emitted moves have brought the machine from `σ₀` to `σ`: the records of `r` are what
is still to be done, and only targets and `spare` cells have changed. -/
structure Running (norm : Cell TReg → Word → Word) (goal : Cell TReg → Word)
    (targets spare : Set (Cell TReg)) (σ₀ σ : MachineState TReg)
    (r : ParallelMoveResolver TReg) : Prop where
  /-- Truncating twice changes nothing. -/
  idem : ∀ c w, norm c (norm c w) = norm c w
  /-- The resolver's invariant. -/
  resolving : Resolving norm r
  /-- The pending records are on the way. -/
  progress : Progress norm goal targets (assignments r.live) σ
  /-- Nothing else has changed. -/
  frame : ∀ c, c ∉ targets → c ∉ spare → σ c = σ₀ c

section Step

variable {norm : Cell TReg → Word → Word} {goal : Cell TReg → Word}
  {targets spare : Set (Cell TReg)} {σ₀ σ : MachineState TReg}
  {r : ParallelMoveResolver TReg}

omit [DecidableEq TReg] in
/-- What `findIdx?` finds among the records is a live record. -/
theorem exists_record_of_findIdx? {p : ParallelMoveRecord TReg → Bool} {i : ℕ}
    (h : r.records.findIdx? p = some i) :
    ∃ a record b, r.records = a ++ record :: b ∧ a.length = i ∧ p record = true := by
  obtain ⟨a, record, b, hr, hlen, hp, -⟩ := exists_split_of_findIdx? h
  exact ⟨a, record, b, hr, hlen, hp⟩

omit [DecidableEq TReg] in
/-- Records are live exactly when they are stored and operational. -/
theorem mem_live {record : ParallelMoveRecord TReg} :
    record ∈ r.live ↔ record ∈ r.records ∧ record.isOperationalRecord = true := by
  simp [live]

/-- Redirecting slot after slot keeps the invariant and the progress. -/
theorem Resolving.foldl_replaceSource (h : Resolving norm r)
    (hp : Progress norm goal targets (assignments r.live) σ)
    {record : ParallelMoveRecord TReg} {reg : TReg}
    (hheld : record.source.machineType.carried (σ (.register reg)) = record.source.value σ)
    (hfree : ∀ x ∈ r.live, x.target.cell? ≠ some (.register reg)) (indices : List ℕ) :
    let r' := indices.foldl (ParallelMoveResolver.replaceSource record reg) r
    Resolving norm r' ∧ Progress norm goal targets (assignments r'.live) σ ∧
      r'.live.length = r.live.length := by
  induction indices generalizing r with
  | nil => exact ⟨h, hp, rfl⟩
  | cons i indices ih =>
      obtain ⟨h', hp', hmap⟩ := h.replaceSource hp hheld hfree i
      have hfree' : ∀ x ∈ (r.replaceSource record reg i).live,
          x.target.cell? ≠ some (.register reg) := by
        intro x hx
        have hx' := List.mem_map_of_mem (f := fun x => x.target) hx
        rw [hmap] at hx'
        obtain ⟨y, hy, hyx⟩ := List.mem_map.mp hx'
        exact hyx ▸ hfree y hy
      obtain ⟨h'', hp'', hlen⟩ := ih h' hp' hfree'
      refine ⟨h'', hp'', hlen.trans ?_⟩
      simpa using congrArg List.length hmap

/-- **Storage replacement** keeps the invariant and the progress, when the target of the
resolved record holds its source and is nobody's target any more. -/
theorem Resolving.storageReplacement
    (isImmediateEncodableInOneInstruction : MachineType → Word → Bool) (h : Resolving norm r)
    (hp : Progress norm goal targets (assignments r.live) σ)
    {record : ParallelMoveRecord TReg} {c : Cell TReg} (hc : record.target.cell? = some c)
    (hheld : record.source.machineType.carried (σ c) = record.source.value σ)
    (hfree : ∀ x ∈ r.live, x.target.cell? ≠ some c) :
    let r' := r.storageReplacement isImmediateEncodableInOneInstruction record
    Resolving norm r' ∧ Progress norm goal targets (assignments r'.live) σ ∧
      r'.live.length = r.live.length := by
  unfold ParallelMoveResolver.storageReplacement
  dsimp only
  split
  · rename_i reg hreg
    obtain rfl : .register reg = c :=
      Option.some.inj ((Counts.cell?_of_register hreg).symm.trans hc)
    split
    · exact h.foldl_replaceSource hp hheld hfree _
    · exact h.foldl_replaceSource hp hheld hfree _
    · split
      · exact h.foldl_replaceSource hp hheld hfree _
      · exact ⟨h, hp, rfl⟩
  · exact ⟨h, hp, rfl⟩

variable {isImmediateEncodableInOneInstruction : MachineType → Word → Bool}

/-- **One linear move** keeps `Running` and removes one record. -/
theorem Running.tryMove (h : Running norm goal targets spare σ₀ σ r) {action : Action TReg}
    {r' : ParallelMoveResolver TReg}
    (ht : r.tryMove isImmediateEncodableInOneInstruction = some (action, r')) :
    (∃ target source, action = .move target source) ∧
      Running norm goal targets spare σ₀ (action.exec σ) r' ∧
      r.live.length = r'.live.length + 1 := by
  unfold ParallelMoveResolver.tryMove at ht
  split at ht
  · rename_i i hi
    obtain ⟨a, record, b, hr, rfl, hfound⟩ := exists_record_of_findIdx? hi
    rw [Bool.and_eq_true, Bool.not_eq_true'] at hfound
    obtain ⟨hop, hunused⟩ := hfound
    rw [recordAt_split hr] at ht
    obtain ⟨rfl, rfl⟩ := Prod.mk.injEq .. ▸ Option.some.inj ht
    have hmem : record ∈ r.live := mem_live.mpr ⟨by simp [hr], hop⟩
    obtain ⟨x, hx, hxmem⟩ := h.resolving.exists_assignment hmem
    obtain ⟨hxt, hxs⟩ := ParallelMoveRecord.assignment?_eq_some.mp hx
    have hread : ∀ y ∈ assignments r.live, ¬ y.Reads x.target := by
      intro y hy hyr
      have hcell := h.resolving.mem_liveSources.mpr ⟨y, hy, hyr⟩
      have hused := (h.resolving.counts.targetIsUsedAsSource_iff hxt).mpr hcell
      rw [hunused] at hused
      exact absurd hused (by simp)
    obtain ⟨hresolving, hperm⟩ := h.resolving.resolve hr hop
    -- the state after the move
    have hexec : (Action.move record.target record.source).exec σ =
        Function.update σ x.target (norm x.target (x.source.eval σ)) := by
      rw [Action.exec, hxt, h.resolving.typed record hmem _ hxt, ← hxs,
        ← VariableStorage.value_eq_carried]
    have hprogress := h.progress.assign h.idem hxmem fun y hy _ => hread y hy
    rw [← assignments_remove h.resolving.distinct hperm hx, ← hexec] at hprogress
    have hfree : ∀ y ∈ ((r.unmarkSourceAsUsed record.source).eraseRecordWithExtendPlaceholder
        a.length).live, y.target.cell? ≠ some x.target := by
      intro y hy
      have hd : DistinctTargets (record :: _) :=
        (hperm.pairwise_iff fun hab => Ne.symm hab).mp h.resolving.distinct
      exact fun he => (List.pairwise_cons.mp hd).1 y hy (hxt.trans he.symm)
    have hheld : record.source.machineType.carried
        ((Action.move record.target record.source).exec σ x.target) =
        record.source.value ((Action.move record.target record.source).exec σ) := by
      have hne : record.source.cell? ≠ some x.target := hxt ▸ h.resolving.noSelf record hmem
      have hexec' : (Action.move record.target record.source).exec σ =
          Function.update σ x.target (record.source.value σ) := by rw [Action.exec, hxt]
      rw [hexec', Function.update_self, VariableStorage.value_update hne,
        VariableStorage.carried_value]
    obtain ⟨hresolving', hprogress', hlen⟩ := hresolving.storageReplacement
      isImmediateEncodableInOneInstruction hprogress hxt hheld hfree
    refine ⟨⟨_, _, rfl⟩, ⟨h.idem, hresolving', hprogress', ?_⟩, ?_⟩
    · intro c hct hcs
      have hne : c ≠ x.target := fun he => hct (he ▸ h.progress.subset x hxmem)
      rw [hexec, Function.update_of_ne hne]
      exact h.frame c hct hcs
    · rw [hlen, hperm.length_eq, List.length_cons]
  · exact absurd ht (by simp)

/-- **Where the linear phase stops**, the pending records are cycles. -/
theorem Resolving.permutes (h : Resolving norm r)
    (ht : r.tryMove isImmediateEncodableInOneInstruction = none) :
    Permutes (assignments r.live) := by
  refine blocked_permutes (assignments_finite _) h.distinct.assignments_inj ?_
  rintro x ⟨record, hr, hx⟩
  have hxt := (ParallelMoveRecord.assignment?_eq_some.mp hx).1
  unfold ParallelMoveResolver.tryMove at ht
  split at ht
  · exact absurd ht (by simp)
  · rename_i hnone
    have hblocked := List.findIdx?_eq_none_iff.mp hnone record (mem_live.mp hr).1
    rw [(mem_live.mp hr).2, Bool.true_and, Bool.not_eq_false'] at hblocked
    exact h.mem_liveSources.mp ((h.counts.targetIsUsedAsSource_iff hxt).mp hblocked)

/-- **The linear phase** terminates, emits moves only and leaves cycles. -/
theorem Running.moveAllWithoutConflict
    (isImmediateEncodableInOneInstruction : MachineType → Word → Bool)
    (h : Running norm goal targets spare σ₀ σ r) {fuel : ℕ} (hf : r.live.length < fuel) :
    ∃ actions r',
      ParallelMoveResolver.moveAllWithoutConflict isImmediateEncodableInOneInstruction fuel r =
        some (actions, r') ∧
      (∀ action ∈ actions, ∃ target source, action = .move target source) ∧
      Running norm goal targets spare σ₀ (exec σ actions) r' ∧
      r'.live.length ≤ r.live.length ∧ Permutes (assignments r'.live) := by
  induction fuel generalizing r σ with
  | zero => omega
  | succ fuel ih =>
      unfold ParallelMoveResolver.moveAllWithoutConflict
      cases ht : r.tryMove isImmediateEncodableInOneInstruction with
      | none => exact ⟨[], r, rfl, by simp, h, le_refl _, h.resolving.permutes ht⟩
      | some step =>
          obtain ⟨action, r'⟩ := step
          obtain ⟨hmove, hrunning, hlen⟩ := h.tryMove ht
          obtain ⟨actions, r'', hrest, hmoves, hrunning', hle, hperm⟩ :=
            ih hrunning (by omega)
          refine ⟨action :: actions, r'', by simp [hrest], ?_, hrunning', by omega, hperm⟩
          intro a ha
          rcases List.mem_cons.mp ha with rfl | ha
          · exact hmove
          · exact hmoves a ha

end Step

/-! ### The pushed records -/

/-- A list of copy operations, target first, that the resolver can take. -/
structure MoveList (recordsCapacity : ℕ)
    (moves : List (VariableStorage TReg × VariableStorage TReg)) : Prop where
  /-- There is room for every record. -/
  room : moves.length ≤ recordsCapacity
  /-- Every target is a register or memory. -/
  target : ∀ m ∈ moves, m.1.isParallelMoveLocation = true
  /-- Every source is a constant, a register or memory. -/
  source : ∀ m ∈ moves, m.2.IsSource
  /-- The target locations are pairwise distinct. -/
  distinct : moves.Pairwise fun m m' => m.1.inSameLocation m'.1 = false

/-- The target cells of a list of copy operations. -/
def targetCells (moves : List (VariableStorage TReg × VariableStorage TReg)) :
    Set (Cell TReg) :=
  {c | ∃ m ∈ moves, m.1.cell? = some c}

/-- The copy operation with a given target cell. -/
def moveTo (moves : List (VariableStorage TReg × VariableStorage TReg)) (c : Cell TReg) :
    Option (VariableStorage TReg × VariableStorage TReg) :=
  moves.find? fun m => m.1.cell? == some c

/-- What a target keeps of a word: as much as its source's type carries. -/
def moveNorm (moves : List (VariableStorage TReg × VariableStorage TReg)) (c : Cell TReg)
    (w : Word) : Word :=
  match moveTo moves c with
  | some m => m.2.machineType.carried w
  | none => w

/-- The value a target is to hold: the value its source holds in `σ`. -/
def moveGoal (moves : List (VariableStorage TReg × VariableStorage TReg))
    (σ : MachineState TReg) (c : Cell TReg) : Word :=
  match moveTo moves c with
  | some m => m.2.value σ
  | none => σ c

/-- The records the copy operations leave in the resolver: self moves are ignored. -/
def pushedRecords (moves : List (VariableStorage TReg × VariableStorage TReg)) :
    List (ParallelMoveRecord TReg) :=
  (moves.filter fun m => !m.1.inSameLocation m.2).map fun m => ⟨m.1, m.2, .normal⟩

/-- An empty slot of the record array. -/
abbrev emptyRecord : ParallelMoveRecord TReg := {}

/-- Pushing fills the free slots in order. -/
theorem pushAll_eq (moves : List (VariableStorage TReg × VariableStorage TReg))
    (pushed : List (ParallelMoveRecord TReg)) (n : ℕ) (hn : moves.length ≤ n)
    (map : List MemorySourceEntry) (regs : TReg → ℕ) :
    (⟨pushed ++ List.replicate n emptyRecord, pushed.length, map, regs⟩ :
        ParallelMoveResolver TReg).pushAll moves =
      ⟨pushed ++ pushedRecords moves ++
          List.replicate (n - (pushedRecords moves).length) emptyRecord,
        pushed.length + (pushedRecords moves).length, map, regs⟩ := by
  induction moves generalizing pushed n with
  | nil => simp [pushAll, pushedRecords]
  | cons m moves ih =>
      obtain ⟨target, source⟩ := m
      by_cases hself : target.inSameLocation source = true
      · have hrecords : pushedRecords ((target, source) :: moves) = pushedRecords moves := by
          simp [pushedRecords, hself]
        have hstep : (⟨pushed ++ List.replicate n emptyRecord, pushed.length, map, regs⟩ :
            ParallelMoveResolver TReg).push target source =
            ⟨pushed ++ List.replicate n emptyRecord, pushed.length, map, regs⟩ := by
          rw [push, pushTyped, if_pos hself]
        have hrest := ih pushed n (by simp only [List.length_cons] at hn; omega)
        rw [pushAll, List.foldl_cons, ← pushAll, hstep, hrest, hrecords]
      · obtain ⟨n, rfl⟩ : ∃ k, n = k + 1 := ⟨n - 1, by simp only [List.length_cons] at hn; omega⟩
        have hself' : target.inSameLocation source = false := by simpa using hself
        have hrecords : pushedRecords ((target, source) :: moves) =
            ⟨target, source, .normal⟩ :: pushedRecords moves := by
          simp [pushedRecords, hself']
        have hstep : (⟨pushed ++ List.replicate (n + 1) emptyRecord, pushed.length, map, regs⟩ :
            ParallelMoveResolver TReg).push target source =
            ⟨(pushed ++ [⟨target, source, .normal⟩]) ++ List.replicate n emptyRecord,
              (pushed ++ [(⟨target, source, .normal⟩ : ParallelMoveRecord TReg)]).length,
              map, regs⟩ := by
          simp [push, pushTyped, hself', recordsCapacity, List.replicate_succ]
        have hrest := ih (pushed ++ [⟨target, source, .normal⟩]) n
          (by simp only [List.length_cons] at hn; omega)
        rw [← hstep] at hrest
        rw [pushAll, List.foldl_cons, ← pushAll, hrest, hrecords]
        simp
        omega

namespace MoveList

variable {cap : ℕ} {moves : List (VariableStorage TReg × VariableStorage TReg)}

/-- The copy operation with a given target cell is the only one. -/
theorem moveTo_eq (h : MoveList cap moves) {m : VariableStorage TReg × VariableStorage TReg}
    (hm : m ∈ moves) {c : Cell TReg} (hc : m.1.cell? = some c) : moveTo moves c = some m := by
  cases hf : moveTo moves c with
  | none =>
      have hnone := List.find?_eq_none.mp hf m hm
      simp [hc] at hnone
  | some m' =>
      have hm' := List.mem_of_find?_eq_some hf
      have hc' : m'.1.cell? = some c := by simpa using List.find?_some hf
      by_contra hne
      have hsymm : Std.Symm fun m m' : VariableStorage TReg × VariableStorage TReg =>
          m.1.cell? ≠ m'.1.cell? := ⟨fun _ _ hab => hab.symm⟩
      have hcells : moves.Pairwise fun m m' => m.1.cell? ≠ m'.1.cell? := by
        refine h.distinct.imp_of_mem fun {a b} ha _ hab he => ?_
        obtain ⟨d, hd⟩ := VariableStorage.isParallelMoveLocation_iff.mp (h.target a ha)
        rw [(VariableStorage.inSameLocation_iff_cell hd).mpr (he ▸ hd)] at hab
        exact absurd hab (by simp)
      have hmm : m' ≠ m := fun he => hne (by rw [he])
      exact List.Pairwise.forall hcells hm' hm hmm (hc'.trans hc.symm)

/-- A target keeps as much as its source's type carries. -/
theorem moveNorm_eq (h : MoveList cap moves) {m : VariableStorage TReg × VariableStorage TReg}
    (hm : m ∈ moves) {c : Cell TReg} (hc : m.1.cell? = some c) :
    moveNorm moves c = m.2.machineType.carried := by
  funext w
  simp only [moveNorm, h.moveTo_eq hm hc]

/-- A target is to hold its source's value. -/
theorem moveGoal_eq (h : MoveList cap moves) {m : VariableStorage TReg × VariableStorage TReg}
    (hm : m ∈ moves) {c : Cell TReg} (hc : m.1.cell? = some c) (σ : MachineState TReg) :
    moveGoal moves σ c = m.2.value σ := by
  simp only [moveGoal, h.moveTo_eq hm hc]

/-- Truncating twice changes nothing. -/
theorem moveNorm_idem (moves : List (VariableStorage TReg × VariableStorage TReg))
    (c : Cell TReg) (w : Word) :
    moveNorm moves c (moveNorm moves c w) = moveNorm moves c w := by
  unfold moveNorm
  split <;> simp

/-- The records of pushed copy operations come from them. -/
theorem mem_pushedRecords {record : ParallelMoveRecord TReg}
    (hr : record ∈ pushedRecords moves) :
    ∃ m ∈ moves, m.1.inSameLocation m.2 = false ∧ record = ⟨m.1, m.2, .normal⟩ := by
  obtain ⟨m, hm, rfl⟩ := List.mem_map.mp hr
  obtain ⟨hmem, hself⟩ := List.mem_filter.mp hm
  exact ⟨m, hmem, by simpa using hself, rfl⟩

/-- The resolver after pushing. -/
theorem pushAll_init (h : MoveList cap moves) :
    (init cap : ParallelMoveResolver TReg).pushAll moves =
      ⟨pushedRecords moves ++ List.replicate (cap - (pushedRecords moves).length) emptyRecord,
        (pushedRecords moves).length, [], fun _ => 0⟩ := by
  simpa [init] using pushAll_eq moves [] cap h.room [] fun _ => 0

/-- **The start.** After pushing, the records are the copy operations that are not self
moves, in order. -/
theorem live_pushAll (h : MoveList cap moves) :
    ((init cap : ParallelMoveResolver TReg).pushAll moves).live = pushedRecords moves := by
  rw [h.pushAll_init, live, List.filter_append]
  have hpushed : (pushedRecords moves).filter (fun x => x.isOperationalRecord) =
      pushedRecords moves := by
    refine List.filter_eq_self.mpr fun x hx => ?_
    obtain ⟨m, hm, -, rfl⟩ := mem_pushedRecords hx
    have htarget := h.target m hm
    obtain ⟨⟨mt, loc⟩, source⟩ := m
    cases loc <;> simp_all [VariableStorage.isParallelMoveLocation,
      ParallelMoveRecord.isOperationalRecord]
  rw [hpushed]
  simp

/-- The records pending after pushing satisfy the invariant. -/
theorem pending (h : MoveList cap moves) :
    Pending (moveNorm moves) ((init cap : ParallelMoveResolver TReg).pushAll moves) := by
  have hcell : ∀ m ∈ moves, ∃ c, m.1.cell? = some c := fun m hm =>
    VariableStorage.isParallelMoveLocation_iff.mp (h.target m hm)
  refine ⟨?_, ?_, ?_, ?_, ?_, ?_, ?_⟩
  · rw [h.live_pushAll, h.pushAll_init]
  · rw [h.pushAll_init]
    intro x hx
    rcases List.mem_append.mp hx with hx | hx
    · obtain ⟨m, -, -, rfl⟩ := mem_pushedRecords hx
      rfl
    · rw [List.eq_of_mem_replicate hx]
  all_goals rw [h.live_pushAll]
  · intro x hx
    obtain ⟨m, hm, -, rfl⟩ := mem_pushedRecords hx
    exact h.target m hm
  · intro x hx
    obtain ⟨m, hm, -, rfl⟩ := mem_pushedRecords hx
    exact h.source m hm
  · intro x hx he
    obtain ⟨m, hm, hself, rfl⟩ := mem_pushedRecords hx
    obtain ⟨c, hc⟩ := hcell m hm
    rw [(VariableStorage.inSameLocation_iff_cell hc).mpr (he.trans hc)] at hself
    exact absurd hself (by simp)
  · refine List.pairwise_map.mpr ((h.distinct.filter _).imp_of_mem ?_)
    intro a b ha _ hab he
    obtain ⟨d, hd⟩ := hcell a (List.mem_filter.mp ha).1
    rw [(VariableStorage.inSameLocation_iff_cell hd).mpr (he ▸ hd)] at hab
    exact absurd hab (by simp)
  · intro x hx c hc
    obtain ⟨m, hm, -, rfl⟩ := mem_pushedRecords hx
    exact h.moveNorm_eq hm hc

/-- Initially every pending source provides the goal, and self moves are done. -/
theorem progress (h : MoveList cap moves) (σ : MachineState TReg) :
    Progress (moveNorm moves) (moveGoal moves σ) (targetCells moves)
      (assignments (pushedRecords moves)) σ := by
  have hdistinct := h.pending.distinct
  rw [h.live_pushAll] at hdistinct
  refine ⟨?_, hdistinct.assignments_inj, ?_, ?_⟩
  · rintro a ⟨x, hx, hxa⟩
    obtain ⟨m, hm, -, rfl⟩ := mem_pushedRecords hx
    exact ⟨m, hm, (ParallelMoveRecord.assignment?_eq_some.mp hxa).1⟩
  · rintro a ⟨x, hx, hxa⟩
    obtain ⟨m, hm, -, rfl⟩ := mem_pushedRecords hx
    obtain ⟨hc, hs⟩ := ParallelMoveRecord.assignment?_eq_some.mp hxa
    rw [h.moveNorm_eq hm hc, h.moveGoal_eq hm hc, ← hs, ← VariableStorage.value_eq_carried]
  · rintro c ⟨m, hm, hc⟩ hnp
    rw [h.moveNorm_eq hm hc, h.moveGoal_eq hm hc]
    by_cases hself : m.1.inSameLocation m.2 = true
    · rw [VariableStorage.value_of_cell ((VariableStorage.inSameLocation_iff_cell hc).mp hself)]
    · have hx : (⟨m.1, m.2, .normal⟩ : ParallelMoveRecord TReg) ∈ pushedRecords moves :=
        List.mem_map.mpr ⟨m, List.mem_filter.mpr ⟨hm, by simpa using hself⟩, rfl⟩
      exact absurd rfl (hnp ⟨c, m.2.toSource⟩ ⟨_, hx,
        ParallelMoveRecord.assignment?_eq_some.mpr ⟨hc, rfl⟩⟩)

/-- **The linear phase** of a resolution: it terminates, emits moves only, and leaves
cycles. -/
theorem resolveLinear (h : MoveList cap moves) (σ : MachineState TReg)
    (isImmediateEncodableInOneInstruction : MachineType → Word → Bool)
    (spare : Set (Cell TReg)) {fuel : ℕ} (hf : moves.length < fuel) :
    ∃ actions r',
      ParallelMoveResolver.resolveLinear isImmediateEncodableInOneInstruction fuel
        ((init cap : ParallelMoveResolver TReg).pushAll moves) = some (actions, r') ∧
      (∀ action ∈ actions, ∃ target source, action = .move target source) ∧
      Running (moveNorm moves) (moveGoal moves σ) (targetCells moves) spare σ
        (exec σ actions) r' ∧
      r'.live.length < fuel ∧ Permutes (assignments r'.live) := by
  have hle : (pushedRecords moves).length ≤ moves.length := by
    rw [pushedRecords, List.length_map]
    exact List.length_filter_le _ _
  have hlive := h.live_pushAll
  have hprogress := h.progress σ
  by_cases hzero : (pushedRecords moves).length = 0
  · have hnil : pushedRecords moves = [] := List.length_eq_zero_iff.mp hzero
    refine ⟨[], (init cap : ParallelMoveResolver TReg).pushAll moves, ?_, by simp,
      ⟨moveNorm_idem moves, ⟨h.pending, ?_⟩, ?_, fun _ _ _ => rfl⟩, ?_, ?_⟩
    · simp [ParallelMoveResolver.resolveLinear, h.pushAll_init, hnil]
    · rw [hlive, hnil, h.pushAll_init]
      exact Counts.empty _ _
    · rw [hlive]
      exact hprogress
    · rw [hlive, hnil]
      simp only [List.length_nil]
      omega
    · rw [hlive, hnil, assignments_nil]
      exact ⟨by simp, by simp, by simp⟩
  · set r := (init cap : ParallelMoveResolver TReg).pushAll moves with hr
    have hcap : r.recordsCapacity = cap := by
      have hroom := h.room
      rw [hr, h.pushAll_init, recordsCapacity]
      simp only [List.length_append, List.length_replicate]
      omega
    have htake : r.records.take r.recordsCount = pushedRecords moves := by
      rw [hr, h.pushAll_init]
      simp
    have hempty : Counts r ([] : List (Cell TReg)) := by
      rw [hr, h.pushAll_init]
      exact Counts.empty _ _
    obtain ⟨hcounts, hrecords, hcount⟩ := hempty.foldl_mark (pushedRecords moves)
      (fun x hx => h.pending.source x (by rw [hlive]; exact hx))
      (by have hroom := h.room; simp only [hcap, List.length_nil]; omega)
    have hinit : r.initSourceUsage = (pushedRecords moves).foldl
        (fun r record => r.markSourceAsUsed record.source) r := by
      rw [initSourceUsage, htake]
    rw [← hinit] at hcounts hrecords hcount
    have hlive' : r.initSourceUsage.live = pushedRecords moves := by
      rw [live, hrecords, ← live, hlive]
    have hrunning : Running (moveNorm moves) (moveGoal moves σ) (targetCells moves) spare σ σ
        r.initSourceUsage := by
      refine ⟨moveNorm_idem moves, ⟨h.pending.of_records_eq hrecords hcount, ?_⟩, ?_,
        fun _ _ _ => rfl⟩
      · rw [hlive', liveSources]
        rwa [List.append_nil] at hcounts
      · rw [hlive']
        exact hprogress
    obtain ⟨actions, r', hres, hmoves, hrunning', hlen, hperm⟩ :=
      hrunning.moveAllWithoutConflict isImmediateEncodableInOneInstruction
        (show r.initSourceUsage.live.length < fuel by rw [hlive']; omega)
    refine ⟨actions, r', ?_, hmoves, hrunning', by rw [hlive'] at hlen; omega, hperm⟩
    have hne : r.recordsCount ≠ 0 := by
      rw [hr, h.pushAll_init]
      exact hzero
    rw [ParallelMoveResolver.resolveLinear, if_pos hne, hres]

end MoveList

/-- Two registers to be exchanged, a memory target fed by one of them, a constant, a register
loaded from memory twice, and a self move. -/
def exchangeMoves : List (VariableStorage (Fin 8) × VariableStorage (Fin 8)) :=
  [(.reg .i64 0, .reg .i64 1), (.reg .i64 1, .reg .i64 0), (.stackMemory .i32 8, .reg .i32 0),
    (.reg .i32 2, .const .i32 7), (.reg .i64 3, .linkData .i64 16),
    (.reg .i64 4, .linkData .i64 16), (.reg .i32 5, .reg .i32 5)]

/-- The resolver can take them. -/
theorem exchangeMoves_moveList : MoveList 7 exchangeMoves where
  room := by decide
  target := by decide
  source := by
    unfold VariableStorage.IsSource
    decide
  distinct := by decide

/-- A state in which all registers hold different words. -/
def exchangeState : MachineState (Fin 8)
  | .register reg => BitVec.ofNat 64 (reg.val + 1)
  | .stackMemory stackFramePosition => BitVec.ofNat 64 (stackFramePosition.toNat + 100)
  | .linkData linkDataOffset => BitVec.ofNat 64 (linkDataOffset.toNat + 200)

end WasmCompiler
