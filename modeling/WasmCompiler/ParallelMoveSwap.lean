import WasmCompiler.ParallelMoveTemp

/-!
# Resolving Parallel Moves through Swaps

The cycle phase with swaps renames no source after a swap: it exchanges the target of a
record with its source, goes on with the record targeting that source, and drops the last
record of a cycle without emitting anything. `Rotation` is the invariant that makes this
right: the content the first target of the cycle had travels along with the hole.

## Main results

* `swapCycles_mid`, `swapCycles_start`: the emitted swaps split into the cycles of the
  pending records, each cycle being rotated by swaps between its own locations.
* `resolveSwap_correct`: the emitted operations, executed in order, perform the parallel
  move and change nothing but the targets.
-/

namespace WasmCompiler

open ParallelMoveResolver ParallelAssignment

variable {TReg : Type}

/-! ### Cycles of records -/

/-- The records lead from the target cell `hole` to the source cell `last`, each reading the
target of the next one. -/
def IsPath : Cell TReg → Cell TReg → List (ParallelMoveRecord TReg) → Prop
  | hole, last, [] => hole = last
  | hole, last, record :: rest =>
      record.target.cell? = some hole ∧
        ∃ next, record.source.cell? = some next ∧ IsPath next last rest

/-- The records form a cycle. -/
def IsCycle (l : List (ParallelMoveRecord TReg)) : Prop :=
  l ≠ [] ∧ ∃ first, IsPath first first l

/-- The swaps of one cycle: its last record is dropped without an operation. -/
def swapsOf (swapContains64 : Bool) (cycle : List (ParallelMoveRecord TReg)) :
    List (Action TReg) :=
  cycle.dropLast.map fun record => .swap record.target record.source swapContains64

/-- A record followed by others is swapped first. -/
theorem swapsOf_cons (swapContains64 : Bool) (record : ParallelMoveRecord TReg)
    {rest : List (ParallelMoveRecord TReg)} (h : rest ≠ []) :
    swapsOf swapContains64 (record :: rest) =
      .swap record.target record.source swapContains64 :: swapsOf swapContains64 rest := by
  rw [swapsOf, List.dropLast_cons_of_ne_nil h, List.map_cons, swapsOf]

section Cycle

variable [DecidableEq TReg] {norm : Cell TReg → Word → Word} {goal : Cell TReg → Word}
  {targets : Set (Cell TReg)} {σ : MachineState TReg} {r : ParallelMoveResolver TReg}
  {swapContains64 : Bool}

/-- The pending records `pending` are resolved by rotating the cycles one after the other:
after any number of them, the records of the others are what is still to be done, and
nothing but targets has changed. -/
structure CyclesResolved (norm : Cell TReg → Word → Word) (goal : Cell TReg → Word)
    (targets : Set (Cell TReg)) (swapContains64 : Bool) (σ : MachineState TReg)
    (pending : List (ParallelMoveRecord TReg))
    (cycles : List (List (ParallelMoveRecord TReg))) : Prop where
  /-- Every list of records is a cycle. -/
  cycle : ∀ c ∈ cycles, IsCycle c
  /-- Together they are the pending records. -/
  perm : pending.Perm cycles.flatten
  /-- Rotating some cycles leaves the others to be done. -/
  progress : ∀ before after, cycles = before ++ after →
    Progress norm goal targets (assignments after.flatten)
      (exec σ (before.flatMap (swapsOf swapContains64)))
  /-- Only targets change. -/
  frame : ∀ c, c ∉ targets → exec σ (cycles.flatMap (swapsOf swapContains64)) c = σ c

omit [DecidableEq TReg] in
/-- The order of the records does not matter for their assignments. -/
theorem assignments_perm {l l' : List (ParallelMoveRecord TReg)} (h : l.Perm l') :
    assignments l = assignments l' := by
  ext a
  simp only [assignments, Set.mem_ofPred_eq, h.mem_iff]

/-- One more cycle in front. -/
theorem CyclesResolved.cons {path rest : List (ParallelMoveRecord TReg)}
    {cycles : List (List (ParallelMoveRecord TReg))} {pending : List (ParallelMoveRecord TReg)}
    (h : CyclesResolved norm goal targets swapContains64
      (exec σ (swapsOf swapContains64 path)) rest cycles)
    (hcycle : IsCycle path) (hperm : pending.Perm (path ++ rest))
    (hprogress : Progress norm goal targets (assignments pending) σ)
    (hframe : ∀ c, c ∉ targets → exec σ (swapsOf swapContains64 path) c = σ c) :
    CyclesResolved norm goal targets swapContains64 σ pending (path :: cycles) := by
  have hflat : pending.Perm (path :: cycles).flatten := by
    rw [List.flatten_cons]
    exact hperm.trans (h.perm.append_left path)
  refine ⟨?_, hflat, ?_, ?_⟩
  · intro c hc
    rcases List.mem_cons.mp hc with rfl | hc
    · exact hcycle
    · exact h.cycle c hc
  · intro before after hsplit
    cases before with
    | nil =>
        obtain rfl : path :: cycles = after := hsplit
        rw [← assignments_perm hflat]
        exact hprogress
    | cons c before =>
        obtain ⟨rfl, hrest⟩ := List.cons.inj hsplit
        rw [List.flatMap_cons, exec_append]
        exact h.progress before after hrest
  · intro c hc
    rw [List.flatMap_cons, exec_append, h.frame c hc, hframe c hc]

/-- Executing the swap of a record exchanges its target and its source. -/
theorem exec_swap {record : ParallelMoveRecord TReg} {c d : Cell TReg}
    (swapContains64 : Bool) (ht : record.target.cell? = some c)
    (hs : record.source.cell? = some d) (σ : MachineState TReg) :
    (Action.swap record.target record.source swapContains64).exec σ = exchange σ c d := by
  simp only [Action.exec, ht, hs, exchange]

/-- **Marking a record as swapped** erases it and removes its target from the counts. -/
theorem Pending.markAsSwapped (h : Pending norm r) {cells : List (Cell TReg)}
    {c : Cell TReg} (hcounts : Counts r (c :: cells)) {a b : List (ParallelMoveRecord TReg)}
    {record : ParallelMoveRecord TReg} (hr : r.records = a ++ record :: b)
    (hop : record.isOperationalRecord = true) (hc : record.target.cell? = some c) :
    Pending norm (r.markAsSwapped a.length) ∧
      r.live.Perm (record :: (r.markAsSwapped a.length).live) ∧
      Counts (r.markAsSwapped a.length) cells := by
  have hn := h.normal record (by simp [hr])
  have hsource : record.target.IsSource :=
    Or.inr (VariableStorage.isParallelMoveLocation_iff.mpr ⟨c, hc⟩)
  have hunmarked : Pending norm (r.unmarkSourceAsUsed record.target) :=
    h.of_records_eq (by simp) (by simp)
  have hr' : (r.unmarkSourceAsUsed record.target).records = a ++ record :: b := by simpa using hr
  have hmark : r.markAsSwapped a.length =
      (r.unmarkSourceAsUsed record.target).eraseRecord a.length := by
    simp [ParallelMoveResolver.markAsSwapped, recordAt_split hr, hn]
  obtain ⟨herased, hperm⟩ := hunmarked.erase hr' hop
  have hlive : (r.unmarkSourceAsUsed record.target).live = r.live := by simp [live]
  rw [hlive] at hperm
  rw [hmark]
  refine ⟨herased, hperm, ?_⟩
  have hcounts' : Counts r (record.target.cell?.toList ++ cells) := by
    rw [hc]
    exact hcounts
  exact (hcounts'.unmark hsource).of_maps_eq rfl rfl

omit [DecidableEq TReg] in
/-- With no live record, no record is pending. -/
theorem Pending.recordsCount_eq_zero (h : Pending norm r)
    (hf : r.getFirstOperationalRecord = none) : r.live = [] ∧ r.recordsCount = 0 := by
  have hnil : r.live = [] := List.filter_eq_nil_iff.mpr fun x hx => by
    simpa using List.findIdx?_eq_none_iff.mp hf x hx
  exact ⟨hnil, by rw [h.count, hnil, List.length_nil]⟩

/-- What swapping from the middle of a cycle on achieves: the rest of the cycle leads from
the hole to its first target, and the other pending records are resolved after it. -/
def SwapsFromMid (TReg : Type) [DecidableEq TReg] (swapContains64 : Bool) (fuel : ℕ) :
    Prop :=
  ∀ (norm : Cell TReg → Word → Word) (goal : Cell TReg → Word) (targets : Set (Cell TReg))
    (σ : MachineState TReg) (r : ParallelMoveResolver TReg) (hole first : Cell TReg)
    (cells : List (Cell TReg)) (a b : List (ParallelMoveRecord TReg))
    (record : ParallelMoveRecord TReg),
    Pending norm r → Rotation norm goal targets (assignments r.live) hole first σ →
    Counts r cells → (first :: cells).Perm (hole :: liveSources r.live) → hole ∈ cells →
    r.records = a ++ record :: b → record.isOperationalRecord = true →
    record.target.cell? = some hole → record.source.cell? ≠ some first →
    r.live.length < fuel →
    ∃ path rest cycles r',
      swapCycles swapContains64 fuel r (some a.length) =
        some (swapsOf swapContains64 path ++ cycles.flatMap (swapsOf swapContains64), r') ∧
      2 ≤ path.length ∧ IsPath hole first path ∧ r.live.Perm (path ++ rest) ∧
      (∀ c, c ∉ targets → exec σ (swapsOf swapContains64 path) c = σ c) ∧
      CyclesResolved norm goal targets swapContains64
        (exec σ (swapsOf swapContains64 path)) rest cycles ∧
      Resolving norm r' ∧ r'.recordsCount = 0

/-- **Swapping from the start of a cycle**, given what swapping from the middle achieves. -/
theorem swapCycles_start {fuel : ℕ} (hmid : SwapsFromMid TReg swapContains64 fuel)
    (h : Resolving norm r) (hprogress : Progress norm goal targets (assignments r.live) σ)
    (hperm : Permutes (assignments r.live)) (hf : r.live.length < fuel) :
    ∃ cycles r',
      swapCycles swapContains64 fuel r r.getFirstOperationalRecord =
        some (cycles.flatMap (swapsOf swapContains64), r') ∧
      CyclesResolved norm goal targets swapContains64 σ r.live cycles ∧
      Resolving norm r' ∧ r'.recordsCount = 0 := by
  cases hfirst : r.getFirstOperationalRecord with
  | none =>
      obtain ⟨fuel, rfl⟩ : ∃ k, fuel = k + 1 := ⟨fuel - 1, by omega⟩
      obtain ⟨hnil, hzero⟩ := h.recordsCount_eq_zero hfirst
      rw [hnil] at hprogress ⊢
      refine ⟨[], r, rfl, ⟨by simp, List.Perm.refl _, ?_, fun _ _ => rfl⟩, h, hzero⟩
      intro before after hsplit
      obtain ⟨rfl, rfl⟩ := List.append_eq_nil_iff.mp hsplit.symm
      exact hprogress
  | some i =>
      obtain ⟨a, record, b, hr, rfl, hop⟩ := exists_record_of_findIdx? hfirst
      have hmem : record ∈ r.live := mem_live.mpr ⟨by simp [hr], hop⟩
      obtain ⟨x, hx, hxmem⟩ := h.exists_assignment hmem
      have hxt := (ParallelMoveRecord.assignment?_eq_some.mp hx).1
      have hread : x.target ∈ liveSources r.live := h.mem_liveSources.mpr (hperm.read x hxmem)
      have hne : record.source.cell? ≠ some x.target := hxt ▸ h.noSelf record hmem
      obtain ⟨path, rest, cycles, r', hswaps, hlen, hpath, hlive, hframe, hres, hr', hzero⟩ :=
        hmid norm goal targets σ r x.target x.target _ a b record h.toPending
          (Rotation.start hprogress hperm x.target) h.counts (List.Perm.refl _) hread hr hop hxt
          hne hf
      have hnil : path ≠ [] := by
        rintro rfl
        simp at hlen
      refine ⟨path :: cycles, r', ?_, hres.cons ⟨hnil, _, hpath⟩ hlive hprogress hframe, hr',
        hzero⟩
      rw [hswaps, List.flatMap_cons]

/-- **Swapping from the middle of a cycle.** Each swap completes the record it is emitted
for; when the next record reads the first target of the cycle, it is complete already. -/
theorem swapCycles_mid (swapContains64 : Bool) (fuel : ℕ) :
    SwapsFromMid TReg swapContains64 fuel := by
  induction fuel with
  | zero =>
      intro norm goal targets σ r hole first cells a b record _ _ _ _ _ _ _ _ _ hf
      omega
  | succ fuel ih =>
      intro norm goal targets σ r hole first cells a b record h hrot hcounts hcells hhole hr hop
        ht hs hf
      have hmem : record ∈ r.live := mem_live.mpr ⟨by simp [hr], hop⟩
      obtain ⟨x, hx, hxmem⟩ := h.exists_assignment hmem
      have hxt := (ParallelMoveRecord.assignment?_eq_some.mp hx).1
      have hxhole : x.target = hole := Option.some.inj (hxt.symm.trans ht)
      -- the record reads the target of another record
      obtain ⟨y, hymem, hread⟩ : ∃ y ∈ assignments r.live, x.Reads y.target := by
        refine (hrot.reads x hxmem).resolve_left fun hfirst => hs ?_
        exact (ParallelMoveRecord.assignment?_reads hx).mp hfirst
      have hsource := (ParallelMoveRecord.assignment?_reads hx).mp hread
      have hnf : y.target ≠ first := fun he => hs (he ▸ hsource)
      have hnh : y.target ≠ hole := fun he => h.noSelf record hmem (by rw [hsource, ht, he])
      -- the swap
      have hrot' := hrot.swap hxmem hxhole hread hnf hnh
      have hexec := exec_swap swapContains64 ht hsource σ
      obtain ⟨cells₁, hcells₁⟩ : ∃ cells₁, cells.Perm (hole :: cells₁) :=
        ⟨cells.erase hole, List.perm_cons_erase hhole⟩
      obtain ⟨h₁, hlive₁, hcounts₁⟩ := h.markAsSwapped (hcounts.perm hcells₁) hr hop ht
      set r₁ := r.markAsSwapped a.length with hr₁
      have hremove := assignments_remove h.distinct hlive₁ hx
      rw [← hremove, ← hexec] at hrot'
      have hlen := hlive₁.length_eq
      rw [List.length_cons] at hlen
      have hperm₁ : (first :: cells₁).Perm (y.target :: liveSources r₁.live) := by
        have hsources := liveSources_perm hlive₁
        rw [liveSources_cons, hsource] at hsources
        have hall : (hole :: first :: cells₁).Perm (hole :: y.target :: liveSources r₁.live) :=
          ((List.Perm.swap first hole cells₁).trans ((hcells₁.symm).cons first)).trans
            (hcells.trans (hsources.cons hole))
        exact hall.cons_inv
      have hytarget : y.target ∈ cells₁ := by
        have hin := hperm₁.mem_iff.mpr (List.mem_cons_self)
        exact (List.mem_cons.mp hin).resolve_left hnf
      have hframe₁ : ∀ c, c ∉ targets →
          (Action.swap record.target record.source swapContains64).exec σ c = σ c := by
        intro c hc
        rw [hexec, exchange_of_ne]
        · exact fun he => hc (he ▸ hxhole ▸ hrot.subset x hxmem)
        · exact fun he => hc (he ▸ hrot.subset y hymem)
      -- the next record of the cycle
      cases hnext : r₁.findRecordTargetingFreedLocation record.source with
      | none =>
          have hyx : y ≠ x := fun he => hnh (he ▸ hxhole)
          exact absurd rfl (findRecord_none hsource hnext y (hremove ▸ ⟨hymem, hyx⟩))
      | some j =>
          obtain ⟨a', record', b', hr', rfl, hop', hmem', ht'⟩ := h₁.findRecord_some hsource hnext
          obtain ⟨z, hz, hzmem⟩ := h₁.exists_assignment hmem'
          have hzt := (ParallelMoveRecord.assignment?_eq_some.mp hz).1
          have hztarget : z.target = y.target := Option.some.inj (hzt.symm.trans ht')
          obtain ⟨l, hzread⟩ : ∃ l, z.Reads l := by
            rcases hrot'.reads z hzmem with hl | ⟨w, -, hw⟩
            · exact ⟨_, hl⟩
            · exact ⟨_, hw⟩
          have hsource' := (ParallelMoveRecord.assignment?_reads hz).mp hzread
          cases hnextNext : r₁.findRecordTargetingFreedLocation record'.source with
          | none =>
              -- the next record is the last one of its cycle and is dropped
              have hend : ∀ w ∈ assignments r₁.live, ¬ z.Reads w.target := fun w hw hzw =>
                findRecord_none hsource' hnextNext w hw (hzw.unique hzread)
              obtain ⟨hzfirst, -, hprogress, hpermutes⟩ := hrot'.drop hzmem hztarget hnf hend
              obtain rfl : first = l := hzfirst.unique hzread
              obtain ⟨cells₂, hcells₂⟩ : ∃ cells₂, cells₁.Perm (y.target :: cells₂) :=
                ⟨cells₁.erase y.target, List.perm_cons_erase hytarget⟩
              obtain ⟨h₂, hlive₂, hcounts₂⟩ :=
                h₁.markAsSwapped (hcounts₁.perm hcells₂) hr' hop' ht'
              set r₂ := r₁.markAsSwapped a'.length with hr₂
              have hlen₂ := hlive₂.length_eq
              rw [List.length_cons] at hlen₂
              rw [← assignments_remove h₁.distinct hlive₂ hz] at hprogress hpermutes
              have hcounts₂' : Counts r₂ (liveSources r₂.live) := by
                have hsources := liveSources_perm hlive₂
                rw [liveSources_cons, hsource'] at hsources
                have hall : (first :: y.target :: cells₂).Perm
                    (first :: y.target :: liveSources r₂.live) :=
                  ((hcells₂.symm.cons first).trans hperm₁).trans
                    ((hsources.cons y.target).trans (List.Perm.swap _ _ _))
                exact hcounts₂.perm hall.cons_inv.cons_inv
              obtain ⟨cycles, r', hswaps, hres, hr'', hzero⟩ :=
                swapCycles_start ih ⟨h₂, hcounts₂'⟩ hprogress hpermutes (by omega)
              refine ⟨[record, record'], r₂.live, cycles, r', ?_, le_refl _, ?_, ?_, ?_, hres,
                hr'', hzero⟩
              · simp only [swapCycles, recordAt_split hr, ← hr₁, hnext, recordAt_split hr',
                  hnextNext, ← hr₂, hswaps, Option.bind_eq_bind, Option.bind_some]
                rfl
              · exact ⟨ht, y.target, hsource, ht', first, hsource', rfl⟩
              · exact hlive₁.trans (hlive₂.cons record)
              · exact hframe₁
          | some k =>
              -- the next record is in the middle of its cycle
              have hne : record'.source.cell? ≠ some first := by
                intro he
                obtain ⟨a'', record'', b'', -, -, -, hmem'', ht''⟩ :=
                  h₁.findRecord_some he hnextNext
                obtain ⟨w, hw, hwmem⟩ := h₁.exists_assignment hmem''
                have hwt := (ParallelMoveRecord.assignment?_eq_some.mp hw).1
                exact hrot'.settled hnf w hwmem (Option.some.inj (hwt.symm.trans ht''))
              obtain ⟨path, rest, cycles, r', hswaps, hpathlen, hpath, hlive, hframe, hres, hr'',
                  hzero⟩ :=
                ih norm goal targets _ r₁ y.target first cells₁ a' b' record' h₁ hrot' hcounts₁
                  hperm₁ hytarget hr' hop' ht' hne (by omega)
              have hnil : path ≠ [] := by
                rintro rfl
                simp at hpathlen
              have hcons := swapsOf_cons swapContains64 record hnil
              refine ⟨record :: path, rest, cycles, r', ?_, ?_, ⟨ht, y.target, hsource, hpath⟩,
                hlive₁.trans (hlive.cons record), ?_, ?_, hr'', hzero⟩
              · simp only [swapCycles, recordAt_split hr, ← hr₁, hnext, recordAt_split hr',
                  hnextNext, hswaps, hcons, Option.bind_eq_bind, Option.bind_some, List.cons_append]
              · rw [List.length_cons]
                omega
              · intro c hc
                rw [hcons, exec_cons, hframe c hc, hframe₁ c hc]
              · rw [hcons, exec_cons]
                exact hres

/-- **The cycle phase** rotates the cycles one after the other and leaves nothing pending. -/
theorem Running.resolveCycleSwap {σ₀ : MachineState TReg}
    (isImmediateEncodableInOneInstruction : MachineType → Word → Bool)
    (h : Running norm goal targets ∅ σ₀ σ r) (hperm : Permutes (assignments r.live)) {fuel : ℕ}
    (hf : r.live.length < fuel) :
    ∃ swapContains64 cycles r',
      ParallelMoveResolver.resolveCycleSwap isImmediateEncodableInOneInstruction fuel r =
        some (cycles.flatMap (swapsOf swapContains64), r') ∧
      CyclesResolved norm goal targets swapContains64 σ r.live cycles ∧ r'.recordsCount = 0 := by
  obtain ⟨fuel, rfl⟩ : ∃ k, fuel = k + 1 := ⟨fuel - 1, by omega⟩
  obtain ⟨cycles, r', hswaps, hres, hr', hzero⟩ :=
    swapCycles_start (swapCycles_mid r.remainingCycleContains64BitTarget (fuel + 1)) h.resolving h.progress hperm hf
  refine ⟨r.remainingCycleContains64BitTarget, cycles, r', ?_, hres, hzero⟩
  by_cases hne : r.recordsCount = 0
  · have hnil : r.live = [] := List.length_eq_zero_iff.mp (h.resolving.count.symm.trans hne)
    have hfirst : r.getFirstOperationalRecord = none := by
      refine List.findIdx?_eq_none_iff.mpr fun x hx => ?_
      simpa using List.filter_eq_nil_iff.mp hnil x hx
    rw [hfirst] at hswaps
    simpa only [ParallelMoveResolver.resolveCycleSwap, hne, ne_eq, not_true_eq_false, if_false,
      swapCycles] using hswaps
  · have hfirst : resolveCycleImplSwap (fuel + 1) r =
        some (cycles.flatMap (swapsOf r.remainingCycleContains64BitTarget), r') := by
      rw [resolveCycleImplSwap]
      cases hi : r.getFirstOperationalRecord with
      | none => exact absurd (h.resolving.recordsCount_eq_zero hi).2 hne
      | some i => rwa [hi] at hswaps
    -- nothing is left to move
    have hnil : r'.live = [] := List.length_eq_zero_iff.mp (hr'.count.symm.trans hzero)
    have hstop : r'.tryMove isImmediateEncodableInOneInstruction = none := by
      cases ht : r'.tryMove isImmediateEncodableInOneInstruction with
      | none => rfl
      | some step =>
          unfold ParallelMoveResolver.tryMove at ht
          split at ht
          · rename_i i hi
            obtain ⟨a, record, b, hrec, -, hop⟩ := exists_record_of_findIdx? hi
            rw [Bool.and_eq_true] at hop
            have hmem : record ∈ r'.live := mem_live.mpr ⟨by simp [hrec], hop.1⟩
            rw [hnil] at hmem
            exact absurd hmem List.not_mem_nil
          · exact absurd ht (by simp)
    have hmoves : ParallelMoveResolver.moveAllWithoutConflict
        isImmediateEncodableInOneInstruction (fuel + 1) r' = some ([], r') := by
      rw [ParallelMoveResolver.moveAllWithoutConflict, hstop]
    have hrest : ParallelMoveResolver.resolveCycleSwap isImmediateEncodableInOneInstruction fuel
        r' = some ([], r') := by
      obtain ⟨fuel, rfl⟩ : ∃ k, fuel = k + 1 := ⟨fuel - 1, by
        have hcount := h.resolving.count
        omega⟩
      simp only [ParallelMoveResolver.resolveCycleSwap, hzero, ne_eq, not_true_eq_false, if_false]
    simp only [ParallelMoveResolver.resolveCycleSwap, hne, ne_eq, not_false_eq_true, if_true,
      hfirst, hmoves, hrest, Option.bind_eq_bind, Option.bind_some, List.append_nil]

end Cycle

/-- **Correctness of the resolution through swaps.** For any copy operations with pairwise
different targets, `resolveSwap` terminates with no record pending. It emits moves for the
linear phase and then, for each cycle of the records that are left, the swaps of all its
records but the last; so no swap leaves its cycle. Executing the operations in order leaves
every target with the value its source held at first and every other cell as it was; the
targets of a cycle, that of its dropped last record included, hold their values as soon as
the swaps of that cycle are done. -/
theorem resolveSwap_correct [DecidableEq TReg]
    (isImmediateEncodableInOneInstruction : MachineType → Word → Bool)
    {cap : ℕ} {moves : List (VariableStorage TReg × VariableStorage TReg)}
    (hmoves : MoveList cap moves) (σ : MachineState TReg) {fuel : ℕ}
    (hfuel : moves.length < fuel) :
    ∃ linear r₁ swapContains64 cycles r₂,
      resolveLinear isImmediateEncodableInOneInstruction fuel ((init cap).pushAll moves) =
        some (linear, r₁) ∧
      resolveSwap isImmediateEncodableInOneInstruction fuel ((init cap).pushAll moves) =
        some (linear ++ cycles.flatMap (swapsOf swapContains64), r₂) ∧
      r₂.recordsCount = 0 ∧
      (∀ action ∈ linear, ∃ target source, action = .move target source) ∧
      (∀ c ∈ cycles, IsCycle c) ∧ r₁.live.Perm cycles.flatten ∧
      (∀ before c after, cycles = before ++ c :: after → ∀ record ∈ c, ∀ m ∈ moves, ∀ t,
        record.target.cell? = some t → m.1.cell? = some t →
        m.2.machineType.carried
          (exec σ (linear ++ (before ++ [c]).flatMap (swapsOf swapContains64)) t) =
          m.2.value σ) ∧
      (∀ m ∈ moves, ∀ t, m.1.cell? = some t →
        m.2.machineType.carried
          (exec σ (linear ++ cycles.flatMap (swapsOf swapContains64)) t) = m.2.value σ) ∧
      ∀ t, (∀ m ∈ moves, m.1.cell? ≠ some t) →
        exec σ (linear ++ cycles.flatMap (swapsOf swapContains64)) t = σ t := by
  obtain ⟨linear, r₁, hlinear, honly, h₁, hlt, hperm⟩ :=
    hmoves.resolveLinear σ isImmediateEncodableInOneInstruction ∅ hfuel
  obtain ⟨swapContains64, cycles, r₂, hcycles, hres, hzero⟩ :=
    h₁.resolveCycleSwap isImmediateEncodableInOneInstruction hperm hlt
  refine ⟨linear, r₁, swapContains64, cycles, r₂, hlinear, ?_, hzero, honly, hres.cycle,
    hres.perm, ?_, ?_, ?_⟩
  · simp only [resolveSwap, hlinear, hcycles, Option.bind_eq_bind, Option.bind_some]
  · intro before c after hsplit record hrecord m hm t ht hmt
    have hprogress := hres.progress (before ++ [c]) after (by simp [hsplit])
    have hdistinct : DistinctTargets cycles.flatten :=
      (hres.perm.pairwise_iff fun hab => Ne.symm hab).mp h₁.resolving.distinct
    have hdone := hprogress.done t ⟨m, hm, hmt⟩ ?_
    · rwa [hmoves.moveNorm_eq hm hmt, hmoves.moveGoal_eq hm hmt, ← exec_append] at hdone
    · rintro x ⟨other, hother, hx⟩ rfl
      have hxt := (ParallelMoveRecord.assignment?_eq_some.mp hx).1
      rw [hsplit, show before ++ c :: after = (before ++ [c]) ++ after by simp,
        List.flatten_append] at hdistinct
      refine (List.pairwise_append.mp hdistinct).2.2 record ?_ other hother (ht.trans hxt.symm)
      exact List.mem_flatten.mpr ⟨c, by simp, hrecord⟩
  · intro m hm t hmt
    have hprogress := hres.progress cycles [] (by simp)
    rw [List.flatten_nil, assignments_nil] at hprogress
    have hfinal := hprogress.finished ⟨m, hm, hmt⟩
    rwa [hmoves.moveNorm_eq hm hmt, hmoves.moveGoal_eq hm hmt, ← exec_append] at hfinal
  · intro t ht
    have hnt : t ∉ targetCells moves := fun ⟨m, hm, hmt⟩ => ht m hm hmt
    rw [exec_append, hres.frame t hnt]
    exact h₁.frame t hnt (Set.notMem_empty t)

/-- The exchange of two registers among other moves, through a swap. -/
theorem resolveSwap_correct_exchangeMoves :
    ∃ linear r₁ swapContains64 cycles r₂,
      resolveLinear (fun _ _ => true) 8 ((init 7).pushAll exchangeMoves) = some (linear, r₁) ∧
      resolveSwap (fun _ _ => true) 8 ((init 7).pushAll exchangeMoves) =
        some (linear ++ cycles.flatMap (swapsOf swapContains64), r₂) ∧
      r₂.recordsCount = 0 ∧
      (∀ action ∈ linear, ∃ target source, action = .move target source) ∧
      (∀ c ∈ cycles, IsCycle c) ∧ r₁.live.Perm cycles.flatten ∧
      (∀ before c after, cycles = before ++ c :: after → ∀ record ∈ c, ∀ m ∈ exchangeMoves,
        ∀ t, record.target.cell? = some t → m.1.cell? = some t →
        m.2.machineType.carried
          (exec exchangeState (linear ++ (before ++ [c]).flatMap (swapsOf swapContains64)) t) =
          m.2.value exchangeState) ∧
      (∀ m ∈ exchangeMoves, ∀ t, m.1.cell? = some t →
        m.2.machineType.carried
          (exec exchangeState (linear ++ cycles.flatMap (swapsOf swapContains64)) t) =
          m.2.value exchangeState) ∧
      ∀ t, (∀ m ∈ exchangeMoves, m.1.cell? ≠ some t) →
        exec exchangeState (linear ++ cycles.flatMap (swapsOf swapContains64)) t =
          exchangeState t :=
  resolveSwap_correct (fun _ _ => true) exchangeMoves_moveList exchangeState (by decide)

end WasmCompiler
