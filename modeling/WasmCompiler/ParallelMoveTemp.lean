import WasmCompiler.ParallelMoveLinear

/-!
# Resolving Parallel Moves through a Temporary

The cycle phase with a temporary saves the source of the first pending record, follows the
hole this opens through the cycle, and completes the cycle from the temporary. Together
with the linear phase it performs any parallel move.

## Main results

* `chaseHole_spec`: following the hole resolves the rest of the cycle.
* `resolveTemp_correct`: the emitted moves, executed in order, perform the parallel move
  and change nothing but the targets and the temporaries.
-/

namespace WasmCompiler

open ParallelMoveResolver ParallelAssignment

variable {TReg : Type} [DecidableEq TReg]

section Cycle

variable {norm : Cell TReg → Word → Word} {goal : Cell TReg → Word}
  {targets spare : Set (Cell TReg)} {σ₀ σ : MachineState TReg}
  {r : ParallelMoveResolver TReg}

/-- When the search for a record targeting a freed location fails, no live record has that
cell as its target. -/
theorem findRecord_none {source : VariableStorage TReg} {hole : Cell TReg}
    (hs : source.cell? = some hole)
    (hf : r.findRecordTargetingFreedLocation source = none) :
    ∀ a ∈ assignments r.live, a.target ≠ hole := by
  rintro a ⟨record, hr, ha⟩ rfl
  have hc := (ParallelMoveRecord.assignment?_eq_some.mp ha).1
  have hnot := List.findIdx?_eq_none_iff.mp hf record (mem_live.mp hr).1
  rw [(mem_live.mp hr).2, Bool.true_and,
    (VariableStorage.inSameLocation_iff_cell hc).mpr hs] at hnot
  exact absurd hnot (by simp)

/-- When it succeeds, it finds the live record with that cell as its target. -/
theorem Pending.findRecord_some (h : Pending norm r) {source : VariableStorage TReg}
    {hole : Cell TReg} (hs : source.cell? = some hole) {i : ℕ}
    (hf : r.findRecordTargetingFreedLocation source = some i) :
    ∃ a record b, r.records = a ++ record :: b ∧ a.length = i ∧
      record.isOperationalRecord = true ∧ record ∈ r.live ∧ record.target.cell? = some hole := by
  obtain ⟨a, record, b, hr, hlen, hp⟩ := exists_record_of_findIdx? hf
  rw [Bool.and_eq_true] at hp
  obtain ⟨hop, hsame⟩ := hp
  have hmem : record ∈ r.live := mem_live.mpr ⟨by simp [hr], hop⟩
  obtain ⟨c, hc⟩ := VariableStorage.isParallelMoveLocation_iff.mp (h.target record hmem)
  have hsc := (VariableStorage.inSameLocation_iff_cell hc).mp hsame
  obtain rfl := Option.some.inj (hsc.symm.trans hs)
  exact ⟨a, record, b, hr, hlen, hop, hmem, hc⟩

/-- Executing the move of a record assigns its target. -/
theorem Pending.exec_move (h : Pending norm r) {record : ParallelMoveRecord TReg}
    (hr : record ∈ r.live) {x : Assignment (Cell TReg) Word} (hx : record.assignment? = some x)
    (σ : MachineState TReg) :
    (Action.move record.target record.source).exec σ =
      Function.update σ x.target (norm x.target (x.source.eval σ)) := by
  obtain ⟨hxt, hxs⟩ := ParallelMoveRecord.assignment?_eq_some.mp hx
  rw [Action.exec, hxt, h.typed record hr _ hxt, ← hxs, ← VariableStorage.value_eq_carried]

/-- **Following the hole** through the rest of a cycle terminates; the value due at `last`
then completes the cycle. -/
theorem chaseHole_spec (h : Resolving norm r) (idem : ∀ c w, norm c (norm c w) = norm c w)
    {hole last tmp : Cell TReg}
    (hh : Hole norm goal targets (assignments r.live) hole last tmp σ) (htmp : tmp ∉ targets)
    (hframe : ∀ c, c ∉ targets → c ∉ spare → σ c = σ₀ c) {source : VariableStorage TReg}
    (hs : source.cell? = some hole) {fuel : ℕ} (hf : r.live.length < fuel) :
    ∃ actions r',
      chaseHole fuel r (r.findRecordTargetingFreedLocation source) = some (actions, r') ∧
      Resolving norm r' ∧ r'.live.length ≤ r.live.length ∧
      Progress norm goal targets (assignments r'.live)
        (Function.update (exec σ actions) last (norm last (exec σ actions tmp))) ∧
      ∀ c, c ∉ targets → c ∉ spare → exec σ actions c = σ₀ c := by
  induction fuel generalizing r σ hole source with
  | zero => omega
  | succ fuel ih =>
      cases hfind : r.findRecordTargetingFreedLocation source with
      | none =>
          have hend := findRecord_none hs hfind
          exact ⟨[], r, rfl, h, le_refl _, hh.close idem hend, hframe⟩
      | some i =>
          obtain ⟨a, record, b, hr, rfl, hop, hmem, hc⟩ := h.findRecord_some hs hfind
          obtain ⟨x, hx, hxmem⟩ := h.exists_assignment hmem
          obtain ⟨hxt, hxs⟩ := ParallelMoveRecord.assignment?_eq_some.mp hx
          have htarget : x.target = hole := Option.some.inj (hxt.symm.trans hc)
          obtain ⟨next, hnext⟩ : ∃ next, x.Reads next := by
            rcases hh.reads x hxmem with hl | ⟨y, -, hy⟩
            · exact ⟨_, hl⟩
            · exact ⟨_, hy⟩
          have hexec := h.exec_move hmem hx σ
          obtain ⟨hresolving, hperm⟩ := h.resolve hr hop
          have hlen := hperm.length_eq
          rw [List.length_cons] at hlen
          have hh' := hh.assign idem htmp hxmem htarget hnext
          rw [← assignments_remove h.distinct hperm hx, ← hexec] at hh'
          have hframe' : ∀ c, c ∉ targets → c ∉ spare →
              (Action.move record.target record.source).exec σ c = σ₀ c := by
            intro c hct hcs
            have hne : c ≠ x.target := fun he => hct (he ▸ (hh.progress.subset x hxmem).1)
            rw [hexec, Function.update_of_ne hne]
            exact hframe c hct hcs
          have hs' := (ParallelMoveRecord.assignment?_reads hx).mp hnext
          obtain ⟨actions, r', hchase, hresolving', hle, hprogress, hframe''⟩ :=
            ih hresolving hh' hframe' hs' (by omega)
          refine ⟨.move record.target record.source :: actions, r', ?_, hresolving', by omega,
            hprogress, hframe''⟩
          simp only [chaseHole, recordAt_split hr, hchase, Option.bind_eq_bind, Option.bind_some]

variable {tempProvider : ParallelMoveResolver TReg → VariableStorage TReg → TReg}

/-- **One cycle** is resolved through the temporary. -/
theorem Running.resolveCycleImplTemp (h : Running norm goal targets spare σ₀ σ r)
    (hperm : Permutes (assignments r.live)) (hne : r.recordsCount ≠ 0)
    (htemp : ∀ r s, Cell.register (tempProvider r s) ∉ targets)
    (hspare : ∀ r s, Cell.register (tempProvider r s) ∈ spare) {fuel : ℕ}
    (hf : r.live.length < fuel) :
    ∃ actions r', ParallelMoveResolver.resolveCycleImplTemp tempProvider fuel r =
        some (actions, r') ∧
      Running norm goal targets spare σ₀ (exec σ actions) r' ∧
      r'.live.length < r.live.length := by
  have hpos : r.live.length ≠ 0 := h.resolving.count ▸ hne
  cases hfirst : r.getFirstOperationalRecord with
  | none =>
      have hnil : r.live = [] := List.filter_eq_nil_iff.mpr fun x hx => by
        simpa using List.findIdx?_eq_none_iff.mp hfirst x hx
      simp [hnil] at hpos
  | some i =>
      obtain ⟨a, record, b, hr, rfl, hop⟩ := exists_record_of_findIdx? hfirst
      have hmem : record ∈ r.live := mem_live.mpr ⟨by simp [hr], hop⟩
      obtain ⟨x, hx, hxmem⟩ := h.resolving.exists_assignment hmem
      obtain ⟨hxt, hxs⟩ := ParallelMoveRecord.assignment?_eq_some.mp hx
      obtain ⟨y, -, hread⟩ := hperm.reads x hxmem
      have hs := (ParallelMoveRecord.assignment?_reads hx).mp hread
      obtain ⟨hresolving, hlive⟩ := h.resolving.resolve hr hop
      have hlen := hlive.length_eq
      rw [List.length_cons] at hlen
      set tmp := tempProvider r record.source with htmp
      set tempStorage : VariableStorage TReg := .reg record.source.machineType tmp with hstorage
      -- saving the source opens the hole
      have hsave : (Action.move tempStorage record.source).exec σ =
          Function.update σ (.register tmp) (norm x.target (σ y.target)) := by
        have hcell : tempStorage.cell? = some (.register tmp) := rfl
        rw [Action.exec, hcell, h.resolving.typed record hmem _ hxt,
          VariableStorage.value_of_cell hs]
      have hhole := Hole.opened h.idem h.progress hperm hxmem hread (htemp r record.source)
      rw [← assignments_remove h.resolving.distinct hlive hx, ← hsave] at hhole
      have hframe : ∀ c, c ∉ targets → c ∉ spare →
          (Action.move tempStorage record.source).exec σ c = σ₀ c := by
        intro c hct hcs
        have hne' : c ≠ .register tmp := fun he => hcs (he ▸ hspare r record.source)
        rw [hsave, Function.update_of_ne hne']
        exact h.frame c hct hcs
      obtain ⟨actions, r', hchase, hresolving', hle, hprogress, hframe'⟩ :=
        chaseHole_spec hresolving h.idem hhole (htemp r record.source) hframe hs
          (show _ < fuel by omega)
      -- the temporary completes the cycle
      have hrestore : ∀ σ' : MachineState TReg,
          (Action.move record.target tempStorage).exec σ' =
            Function.update σ' x.target (norm x.target (σ' (.register tmp))) := by
        intro σ'
        have hcell : tempStorage.cell? = some (.register tmp) := rfl
        rw [Action.exec, hxt, h.resolving.typed record hmem _ hxt,
          VariableStorage.value_of_cell hcell, hstorage]
        rfl
      refine ⟨.move tempStorage record.source ::
        (actions ++ [.move record.target tempStorage]), r', ?_, ?_, by omega⟩
      · simp only [ParallelMoveResolver.resolveCycleImplTemp, hfirst, recordAt_split hr, hchase,
          Option.bind_eq_bind, Option.bind_some, ← htmp, ← hstorage]
      · rw [exec_cons, exec_append, exec_cons, exec_nil, hrestore]
        refine ⟨h.idem, hresolving', hprogress, ?_⟩
        intro c hct hcs
        have hne' : c ≠ x.target := fun he => hct (he ▸ h.progress.subset x hxmem)
        rw [Function.update_of_ne hne']
        exact hframe' c hct hcs

/-- **The cycle phase** resolves everything that is left. -/
theorem Running.resolveCycleTemp
    (isImmediateEncodableInOneInstruction : MachineType → Word → Bool)
    (h : Running norm goal targets spare σ₀ σ r)
    (hperm : Permutes (assignments r.live))
    (htemp : ∀ r s, Cell.register (tempProvider r s) ∉ targets)
    (hspare : ∀ r s, Cell.register (tempProvider r s) ∈ spare) {fuel : ℕ}
    (hf : r.live.length < fuel) :
    ∃ actions r', ParallelMoveResolver.resolveCycleTemp isImmediateEncodableInOneInstruction
        tempProvider fuel r = some (actions, r') ∧
      Running norm goal targets spare σ₀ (exec σ actions) r' ∧ r'.recordsCount = 0 := by
  induction fuel generalizing r σ with
  | zero => omega
  | succ fuel ih =>
      by_cases hne : r.recordsCount = 0
      · exact ⟨[], r, by simp [ParallelMoveResolver.resolveCycleTemp, hne], h, hne⟩
      · obtain ⟨cycle, r₁, hcycle, h₁, hlt⟩ :=
          h.resolveCycleImplTemp hperm hne htemp hspare hf
        obtain ⟨moves, r₂, hmoves, -, h₂, hle, hperm'⟩ := h₁.moveAllWithoutConflict
          isImmediateEncodableInOneInstruction (show _ < fuel + 1 by omega)
        obtain ⟨rest, r₃, hrest, h₃, hzero⟩ := ih h₂ hperm' (by omega)
        refine ⟨cycle ++ moves ++ rest, r₃, ?_, by rwa [exec_append, exec_append], hzero⟩
        simp only [ParallelMoveResolver.resolveCycleTemp, hne, ne_eq, not_false_eq_true, if_true,
          hcycle, hmoves, hrest, Option.bind_eq_bind, Option.bind_some]

end Cycle

/-- **Correctness of the resolution through a temporary.** For any copy operations with
pairwise different targets and any temporaries that are not targets, `resolveTemp`
terminates with no record pending, and executing the emitted moves in order leaves every
target with the value its source held at first, and every cell that is neither a target nor
a temporary as it was. -/
theorem resolveTemp_correct
    (isImmediateEncodableInOneInstruction : MachineType → Word → Bool)
    (tempProvider : ParallelMoveResolver TReg → VariableStorage TReg → TReg)
    {cap : ℕ} {moves : List (VariableStorage TReg × VariableStorage TReg)}
    (hmoves : MoveList cap moves)
    (htemp : ∀ r s, ∀ m ∈ moves, m.1.location ≠ .register (tempProvider r s))
    (σ : MachineState TReg) {fuel : ℕ} (hfuel : moves.length < fuel) :
    ∃ actions r',
      resolveTemp isImmediateEncodableInOneInstruction tempProvider fuel
        ((init cap).pushAll moves) = some (actions, r') ∧
      r'.recordsCount = 0 ∧
      (∀ m ∈ moves, ∀ c, m.1.cell? = some c →
        m.2.machineType.carried (exec σ actions c) = m.2.value σ) ∧
      ∀ c, (∀ m ∈ moves, m.1.cell? ≠ some c) →
        (∀ r s, c ≠ .register (tempProvider r s)) → exec σ actions c = σ c := by
  set spare : Set (Cell TReg) := {c | ∃ r s, c = .register (tempProvider r s)} with hspare
  have htargets : ∀ r s, Cell.register (tempProvider r s) ∉ targetCells moves := by
    rintro r s ⟨⟨⟨mt, loc⟩, source⟩, hm, hc⟩
    refine htemp r s _ hm ?_
    cases loc <;> simp_all [VariableStorage.cell?, StorageLocation.cell?]
  obtain ⟨linear, r₁, hlinear, -, h₁, hlt, hperm⟩ :=
    hmoves.resolveLinear σ isImmediateEncodableInOneInstruction spare hfuel
  obtain ⟨cycles, r₂, hcycles, h₂, hzero⟩ := h₁.resolveCycleTemp
    isImmediateEncodableInOneInstruction hperm htargets (fun r s => ⟨r, s, rfl⟩) hlt
  have hnil : r₂.live = [] :=
    List.length_eq_zero_iff.mp (h₂.resolving.count.symm.trans hzero)
  have hdone := h₂.progress
  rw [hnil, assignments_nil] at hdone
  refine ⟨linear ++ cycles, r₂, ?_, hzero, ?_, ?_⟩
  · simp only [resolveTemp, hlinear, hcycles, Option.bind_eq_bind, Option.bind_some]
  · intro m hm c hc
    have hfinal := hdone.finished ⟨m, hm, hc⟩
    rwa [hmoves.moveNorm_eq hm hc, hmoves.moveGoal_eq hm hc, ← exec_append] at hfinal
  · intro c hct hcs
    rw [exec_append]
    refine h₂.frame c ?_ ?_
    · rintro ⟨m, hm, hc⟩
      exact hct m hm hc
    · rintro ⟨r, s, hc⟩
      exact hcs r s hc

/-- The exchange of two registers among other moves, through register 7. -/
theorem resolveTemp_correct_exchangeMoves :
    ∃ actions r',
      resolveTemp (fun _ _ => true) (fun _ _ => 7) 8 ((init 7).pushAll exchangeMoves) =
        some (actions, r') ∧
      r'.recordsCount = 0 ∧
      (∀ m ∈ exchangeMoves, ∀ c, m.1.cell? = some c →
        m.2.machineType.carried (exec exchangeState actions c) = m.2.value exchangeState) ∧
      ∀ c, (∀ m ∈ exchangeMoves, m.1.cell? ≠ some c) →
        (∀ (_ : ParallelMoveResolver (Fin 8)) (_ : VariableStorage (Fin 8)), c ≠ .register 7) →
        exec exchangeState actions c = exchangeState c :=
  resolveTemp_correct (fun _ _ => true) (fun _ _ => 7) exchangeMoves_moveList
    (fun _ _ => by decide) exchangeState (by decide)

end WasmCompiler
