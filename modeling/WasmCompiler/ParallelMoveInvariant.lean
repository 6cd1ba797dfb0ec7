import WasmCompiler.ParallelAssignment
import WasmCompiler.ParallelMoveCounts
import Mathlib.Data.List.Pairwise

/-!
# The Invariant of the Parallel Move Resolver

Between two emitted moves the resolver is in a state described by `Resolving`: its live
records have different targets, its usage counts are those of the live sources, and the
record counter is right. `assignments` reads the live records as the pending assignments of
a parallel assignment, so that the theory of `ParallelAssignment` says what the emitted
moves achieve.

## Main results

* `Resolving.resolve`: resolving one record keeps the invariant and removes that record.
* `Resolving.replaceSource`: so does letting a pending record read a register that now
  holds its source.
* `initial_running`: the invariant holds when the resolution starts.
-/

namespace WasmCompiler

open ParallelMoveResolver ParallelAssignment

variable {TReg : Type}

/-! ### Live records as assignments -/

/-- What a storage reads, as the source of an assignment. -/
def VariableStorage.toSource (s : VariableStorage TReg) : Source (Cell TReg) Word :=
  match s.cell? with
  | some c => .loc c
  | Option.none => .const (s.value fun _ => 0)

/-- A storage with a cell reads that cell. -/
theorem VariableStorage.toSource_eq_loc {s : VariableStorage TReg} {c : Cell TReg} :
    s.toSource = .loc c ↔ s.cell? = some c := by
  unfold toSource
  cases s.cell? <;> simp

/-- The value of a storage is its source's value at the storage's type. -/
theorem VariableStorage.value_eq_carried (s : VariableStorage TReg) (σ : MachineState TReg) :
    s.value σ = s.machineType.carried (s.toSource.eval σ) := by
  cases hc : s.cell? with
  | some c =>
      rw [VariableStorage.toSource_eq_loc.mpr hc, Source.eval, s.value_of_cell hc]
  | none =>
      have hs : s.toSource = .const (s.value fun _ => 0) := by simp [toSource, hc]
      rw [hs, Source.eval, s.value_of_no_cell hc σ fun _ => 0]
      obtain ⟨mt, loc⟩ := s
      cases loc <;> simp [VariableStorage.value]
      simp [MachineType.carried]

/-- The assignment a record asks for. -/
def ParallelMoveRecord.assignment? (record : ParallelMoveRecord TReg) :
    Option (Assignment (Cell TReg) Word) :=
  record.target.cell?.map fun c => ⟨c, record.source.toSource⟩

/-- The assignments a list of records asks for. -/
def assignments (l : List (ParallelMoveRecord TReg)) : Set (Assignment (Cell TReg) Word) :=
  {a | ∃ record ∈ l, record.assignment? = some a}

/-- A record's assignment has the record's target and source. -/
theorem ParallelMoveRecord.assignment?_eq_some {record : ParallelMoveRecord TReg}
    {a : Assignment (Cell TReg) Word} :
    record.assignment? = some a ↔
      record.target.cell? = some a.target ∧ record.source.toSource = a.source := by
  obtain ⟨t, s⟩ := a
  simp [assignment?, Option.map_eq_some_iff]

/-- A record's assignment reads the cell of the record's source. -/
theorem ParallelMoveRecord.assignment?_reads {record : ParallelMoveRecord TReg}
    {a : Assignment (Cell TReg) Word} (h : record.assignment? = some a) {c : Cell TReg} :
    a.Reads c ↔ record.source.cell? = some c := by
  rw [Assignment.Reads, ← (assignment?_eq_some.mp h).2, VariableStorage.toSource_eq_loc]

/-- Finitely many records ask for finitely many assignments. -/
theorem assignments_finite (l : List (ParallelMoveRecord TReg)) : (assignments l).Finite := by
  have hsub : assignments l ⊆ {a | a ∈ l.filterMap ParallelMoveRecord.assignment?} := by
    rintro a ⟨record, hr, ha⟩
    exact List.mem_filterMap.mpr ⟨record, hr, ha⟩
  exact (List.finite_toSet _).subset hsub

/-- No record, no assignment. -/
@[simp] theorem assignments_nil : assignments ([] : List (ParallelMoveRecord TReg)) = ∅ := by
  ext a
  simp [assignments]

/-- Records with different targets. -/
def DistinctTargets (l : List (ParallelMoveRecord TReg)) : Prop :=
  l.Pairwise fun a b => a.target.cell? ≠ b.target.cell?

/-- Whether the targets are different depends on the targets only. -/
theorem DistinctTargets.of_map_eq {l l' : List (ParallelMoveRecord TReg)}
    (h : DistinctTargets l) (hm : l'.map (fun x => x.target) = l.map fun x => x.target) :
    DistinctTargets l' := by
  have hl : ((l.map fun x => x.target).map fun t => t.cell?).Nodup := by
    rw [List.map_map]
    exact List.pairwise_map.mpr h
  rw [← hm, List.map_map] at hl
  exact List.pairwise_map.mp hl

/-- Records with different targets that ask for assignments to one cell are equal. -/
theorem DistinctTargets.eq {l : List (ParallelMoveRecord TReg)} (h : DistinctTargets l)
    {x y : ParallelMoveRecord TReg} (hx : x ∈ l) (hy : y ∈ l)
    (he : x.target.cell? = y.target.cell?) : x = y := by
  by_contra hne
  have hsymm : Std.Symm fun a b : ParallelMoveRecord TReg =>
      a.target.cell? ≠ b.target.cell? := ⟨fun _ _ hab => hab.symm⟩
  exact List.Pairwise.forall h hx hy hne he

/-- The assignments of records with different targets have different targets. -/
theorem DistinctTargets.assignments_inj {l : List (ParallelMoveRecord TReg)}
    (h : DistinctTargets l) :
    ∀ a ∈ assignments l, ∀ b ∈ assignments l, a.target = b.target → a = b := by
  rintro a ⟨x, hx, hxa⟩ b ⟨y, hy, hyb⟩ hab
  have hxt := (ParallelMoveRecord.assignment?_eq_some.mp hxa).1
  have hyt := (ParallelMoveRecord.assignment?_eq_some.mp hyb).1
  obtain rfl := h.eq hx hy (by rw [hxt, hyt, hab])
  exact Option.some.inj (hxa.symm.trans hyb)

/-- Removing a record removes its assignment. -/
theorem assignments_remove {l l' : List (ParallelMoveRecord TReg)}
    {record : ParallelMoveRecord TReg} (h : DistinctTargets l) (hp : l.Perm (record :: l'))
    {x : Assignment (Cell TReg) Word} (hx : record.assignment? = some x) :
    assignments l' = assignments l \ {x} := by
  have hxt := (ParallelMoveRecord.assignment?_eq_some.mp hx).1
  have hd : DistinctTargets (record :: l') := (hp.pairwise_iff fun hab => Ne.symm hab).mp h
  have hne := (List.pairwise_cons.mp hd).1
  ext y
  constructor
  · rintro ⟨z, hz, hzy⟩
    refine ⟨⟨z, hp.mem_iff.mpr (List.mem_cons_of_mem _ hz), hzy⟩, ?_⟩
    rintro rfl
    exact hne z hz (by rw [hxt, (ParallelMoveRecord.assignment?_eq_some.mp hzy).1])
  · rintro ⟨⟨z, hz, hzy⟩, hyx⟩
    rcases List.mem_cons.mp (hp.mem_iff.mp hz) with rfl | hz'
    · exact absurd (Option.some.inj (hzy.symm.trans hx)) hyx
    · exact ⟨z, hz', hzy⟩

/-! ### The invariant -/

namespace ParallelMoveResolver

/-- The pending operational records. -/
def live (r : ParallelMoveResolver TReg) : List (ParallelMoveRecord TReg) :=
  r.records.filter fun record => record.isOperationalRecord

/-- The default record is not operational. -/
@[simp] theorem isOperationalRecord_default :
    ({} : ParallelMoveRecord TReg).isOperationalRecord = false := rfl

/-- The live records, seen from one of them. -/
theorem live_split {r : ParallelMoveResolver TReg} {a b : List (ParallelMoveRecord TReg)}
    {record : ParallelMoveRecord TReg} (h : r.records = a ++ record :: b) :
    r.live = (a.filter fun x => x.isOperationalRecord) ++
      ((if record.isOperationalRecord then [record] else []) ++
        b.filter fun x => x.isOperationalRecord) := by
  rw [live, h, List.filter_append, List.filter_cons]
  cases record.isOperationalRecord <;> simp

/-- The record in a slot given by a split. -/
theorem recordAt_split {r : ParallelMoveResolver TReg} {a b : List (ParallelMoveRecord TReg)}
    {record : ParallelMoveRecord TReg} (h : r.records = a ++ record :: b) :
    r.recordAt a.length = record := by
  simp [recordAt, h]

end ParallelMoveResolver

/-- The cells the live records still have to read. -/
def liveSources (l : List (ParallelMoveRecord TReg)) : List (Cell TReg) :=
  l.filterMap fun record => record.source.cell?

/-- The cells read by one more record. -/
theorem liveSources_cons (record : ParallelMoveRecord TReg)
    (l : List (ParallelMoveRecord TReg)) :
    liveSources (record :: l) = record.source.cell?.toList ++ liveSources l := by
  cases h : record.source.cell? <;> simp [liveSources, h]

/-- Records in another order read the same cells. -/
theorem liveSources_perm {l l' : List (ParallelMoveRecord TReg)} (h : l.Perm l') :
    (liveSources l).Perm (liveSources l') := h.filterMap _

/-- What the pending records satisfy between two emitted operations, whatever the usage
counts are. -/
structure Pending (norm : Cell TReg → Word → Word) (r : ParallelMoveResolver TReg) : Prop where
  /-- The record counter is right. -/
  count : r.recordsCount = r.live.length
  /-- No record is an extend record. -/
  normal : ∀ record ∈ r.records, record.targetType = .normal
  /-- Every target is a register or memory. -/
  target : ∀ record ∈ r.live, record.target.isParallelMoveLocation = true
  /-- Every source is a constant, a register or memory. -/
  source : ∀ record ∈ r.live, record.source.IsSource
  /-- No record is a self move. -/
  noSelf : ∀ record ∈ r.live, record.source.cell? ≠ record.target.cell?
  /-- The records have different targets. -/
  distinct : DistinctTargets r.live
  /-- A target keeps what its source's type carries. -/
  typed : ∀ record ∈ r.live, ∀ c, record.target.cell? = some c →
    norm c = record.source.machineType.carried

/-- The invariant between two emitted moves. -/
structure Resolving [DecidableEq TReg] (norm : Cell TReg → Word → Word)
    (r : ParallelMoveResolver TReg) : Prop extends Pending norm r where
  /-- The usage maps count the live sources. -/
  counts : Counts r (liveSources r.live)

namespace Pending

variable {norm : Cell TReg → Word → Word} {r r' : ParallelMoveResolver TReg}

/-- A live record asks for an assignment. -/
theorem exists_assignment (h : Pending norm r) {record : ParallelMoveRecord TReg}
    (hr : record ∈ r.live) : ∃ x, record.assignment? = some x ∧ x ∈ assignments r.live := by
  obtain ⟨c, hc⟩ := VariableStorage.isParallelMoveLocation_iff.mp (h.target record hr)
  have hx : record.assignment? = some ⟨c, record.source.toSource⟩ := by
    rw [ParallelMoveRecord.assignment?, hc, Option.map_some]
  exact ⟨_, hx, record, hr, hx⟩

/-- A cell is counted as read exactly when a pending assignment reads it. -/
theorem mem_liveSources (h : Pending norm r) {c : Cell TReg} :
    c ∈ liveSources r.live ↔ ∃ a ∈ assignments r.live, a.Reads c := by
  rw [liveSources, List.mem_filterMap]
  constructor
  · rintro ⟨record, hr, hc⟩
    obtain ⟨x, hx, hmem⟩ := h.exists_assignment hr
    exact ⟨x, hmem, (ParallelMoveRecord.assignment?_reads hx).mpr hc⟩
  · rintro ⟨a, ⟨record, hr, ha⟩, hac⟩
    exact ⟨record, hr, (ParallelMoveRecord.assignment?_reads ha).mp hac⟩

/-- The invariant looks at the records and their number only. -/
theorem of_records_eq (h : Pending norm r) (hr : r'.records = r.records)
    (hn : r'.recordsCount = r.recordsCount) : Pending norm r' := by
  have hlive : r'.live = r.live := by rw [live, hr, live]
  exact ⟨by rw [hn, hlive]; exact h.count, by rw [hr]; exact h.normal,
    by rw [hlive]; exact h.target, by rw [hlive]; exact h.source,
    by rw [hlive]; exact h.noSelf, by rw [hlive]; exact h.distinct,
    by rw [hlive]; exact h.typed⟩

/-- **Erasing** a live record keeps the invariant of the others. -/
theorem erase (h : Pending norm r) {a b : List (ParallelMoveRecord TReg)}
    {record : ParallelMoveRecord TReg} (hr : r.records = a ++ record :: b)
    (hop : record.isOperationalRecord = true) :
    Pending norm (r.eraseRecord a.length) ∧
      r.live.Perm (record :: (r.eraseRecord a.length).live) := by
  have hrecords : (r.eraseRecord a.length).records = a ++ {} :: b := by
    simp only [eraseRecord, hr, set_split]
  have hperm : r.live.Perm (record :: (r.eraseRecord a.length).live) := by
    rw [live_split hr, live_split hrecords, hop]
    simp
  have hsub : ∀ x ∈ (r.eraseRecord a.length).live, x ∈ r.live := fun x hx =>
    hperm.mem_iff.mpr (List.mem_cons_of_mem _ hx)
  refine ⟨⟨?_, ?_, fun x hx => h.target x (hsub x hx), fun x hx => h.source x (hsub x hx),
    fun x hx => h.noSelf x (hsub x hx), ?_, fun x hx => h.typed x (hsub x hx)⟩, hperm⟩
  · have hlen := hperm.length_eq
    have hcount := h.count
    simp only [eraseRecord, List.length_cons] at hlen ⊢
    omega
  · rw [hrecords]
    intro x hx
    have hnormal := h.normal x
    rw [hr] at hnormal
    simp only [List.mem_append, List.mem_cons] at hx hnormal
    rcases hx with hx | rfl | hx
    · exact hnormal (Or.inl hx)
    · rfl
    · exact hnormal (Or.inr (Or.inr hx))
  · have hd : DistinctTargets (record :: (r.eraseRecord a.length).live) :=
      (hperm.pairwise_iff fun hab => Ne.symm hab).mp h.distinct
    exact (List.pairwise_cons.mp hd).2

/-- Without extend records, no placeholder is erased. -/
theorem eraseRecordWithExtendPlaceholder_eq [DecidableEq TReg] (h : Pending norm r)
    {a b : List (ParallelMoveRecord TReg)} {record : ParallelMoveRecord TReg}
    (hr : r.records = a ++ record :: b) :
    r.eraseRecordWithExtendPlaceholder a.length = r.eraseRecord a.length := by
  have hn := h.normal record (by simp [hr])
  simp [eraseRecordWithExtendPlaceholder, recordAt_split hr, hn]

end Pending

/-! ### Resolving one record -/

section Resolve

variable [DecidableEq TReg] {norm goal : Cell TReg → Word → Word}
  {r : ParallelMoveResolver TReg}

/-- **Resolving one record.** Unmarking the source of a live record and erasing the record
keeps the invariant. -/
theorem Resolving.resolve (h : Resolving norm r) {a b : List (ParallelMoveRecord TReg)}
    {record : ParallelMoveRecord TReg} (hr : r.records = a ++ record :: b)
    (hop : record.isOperationalRecord = true) :
    Resolving norm
        ((r.unmarkSourceAsUsed record.source).eraseRecordWithExtendPlaceholder a.length) ∧
      r.live.Perm (record ::
        ((r.unmarkSourceAsUsed record.source).eraseRecordWithExtendPlaceholder a.length).live) := by
  have hsource := h.source record (by rw [live_split hr, hop]; simp)
  have hpending : Pending norm (r.unmarkSourceAsUsed record.source) :=
    h.toPending.of_records_eq (by simp) (by simp)
  have hr' : (r.unmarkSourceAsUsed record.source).records = a ++ record :: b := by simpa using hr
  rw [hpending.eraseRecordWithExtendPlaceholder_eq hr']
  obtain ⟨herased, hperm⟩ := hpending.erase hr' hop
  have hlive : (r.unmarkSourceAsUsed record.source).live = r.live := by simp [live]
  rw [hlive] at hperm
  refine ⟨⟨herased, ?_⟩, hperm⟩
  have hcounts := h.counts.perm (liveSources_perm hperm)
  rw [liveSources_cons] at hcounts
  exact (hcounts.unmark hsource).of_maps_eq rfl rfl

/-! ### Redirecting pending sources -/

/-- **Redirecting one record.** If the register `reg` holds what `record.source` provides and
is nobody's target any more, letting a pending record with that source read the register
keeps the invariant and the progress. -/
theorem Resolving.replaceSource {targets : Set (Cell TReg)} {goal : Cell TReg → Word}
    {σ : MachineState TReg} (h : Resolving norm r)
    (hp : Progress norm goal targets (assignments r.live) σ)
    {record : ParallelMoveRecord TReg} {reg : TReg}
    (hheld : record.source.machineType.carried (σ (.register reg)) = record.source.value σ)
    (hfree : ∀ x ∈ r.live, x.target.cell? ≠ some (.register reg)) (index : ℕ) :
    let r' := r.replaceSource record reg index
    Resolving norm r' ∧ Progress norm goal targets (assignments r'.live) σ ∧
      r'.live.map (fun x => x.target) = r.live.map fun x => x.target := by
  unfold ParallelMoveResolver.replaceSource
  dsimp only
  split
  · rename_i hcond
    rw [Bool.and_eq_true, Bool.and_eq_true, beq_iff_eq] at hcond
    obtain ⟨hop, hsame, htype⟩ := hcond
    -- the slot exists, since an empty one is not operational
    obtain ⟨a, x, b, hr, rfl⟩ : ∃ a x b, r.records = a ++ x :: b ∧ a.length = index := by
      have hlt : index < r.records.length := by
        by_contra hge
        have hd : r.recordAt index = {} := by
          simp [recordAt, List.getElem?_eq_none (Nat.le_of_not_lt hge)]
        rw [hd] at hop
        exact absurd hop (by simp)
      exact ⟨r.records.take index, r.records[index], r.records.drop (index + 1), by simp,
        by simp; omega⟩
    rw [recordAt_split hr] at hop hsame htype ⊢
    set x' : ParallelMoveRecord TReg :=
      { x with source := .reg record.source.machineType reg } with hx'
    set r' : ParallelMoveResolver TReg :=
      { r.unmarkSourceAsUsed x.source with
        records := (r.unmarkSourceAsUsed x.source).records.set a.length x' } with hrdef
    have hr' : r'.records = a ++ x' :: b := by simp [hrdef, hr]
    have hop' : x'.isOperationalRecord = true := hop
    -- the live records before and after
    set l := a.filter (fun y => y.isOperationalRecord) with hl
    set m := b.filter (fun y => y.isOperationalRecord) with hm
    have hlive : r.live = l ++ x :: m := by rw [live_split hr, hop]; rfl
    have hlive' : r'.live = l ++ x' :: m := by rw [live_split hr', hop']; rfl
    have hlive'' : (r'.incrementRegisterSource reg).live = l ++ x' :: m := hlive'
    have hmap : (l ++ x' :: m).map (fun y => y.target) = (l ++ x :: m).map fun y => y.target := by
      simp [hx']
    have hmem : ∀ y ∈ l ++ x' :: m, y = x' ∨ y ∈ r.live := by
      intro y hy
      rw [hlive]
      simp only [List.mem_append, List.mem_cons] at hy ⊢
      tauto
    have hxmem : x ∈ r.live := by rw [hlive]; simp
    have hdistinct : DistinctTargets (l ++ x' :: m) := by
      have hd := h.distinct
      rw [hlive] at hd
      exact hd.of_map_eq hmap
    have hpending : Pending norm (r'.incrementRegisterSource reg) := by
      refine ⟨?_, ?_, ?_, ?_, ?_, ?_, ?_⟩
      · have hcount := h.count
        rw [hlive] at hcount
        rw [hlive'']
        simpa [hrdef, incrementRegisterSource] using hcount
      · intro y hy
        have hn := h.normal
        rw [hr] at hn
        have hy' : y ∈ a ++ x' :: b := hr' ▸ hy
        simp only [List.mem_append, List.mem_cons] at hy' hn
        rcases hy' with hy' | rfl | hy'
        · exact hn y (Or.inl hy')
        · exact hn x (Or.inr (Or.inl rfl))
        · exact hn y (Or.inr (Or.inr hy'))
      · rw [hlive'']
        intro y hy
        rcases hmem y hy with rfl | hy'
        · exact h.target x hxmem
        · exact h.target y hy'
      · rw [hlive'']
        intro y hy
        rcases hmem y hy with rfl | hy'
        · exact Or.inr rfl
        · exact h.source y hy'
      · rw [hlive'']
        intro y hy
        rcases hmem y hy with rfl | hy'
        · exact fun he => hfree x hxmem he.symm
        · exact h.noSelf y hy'
      · rw [hlive'']
        exact hdistinct
      · rw [hlive'']
        intro y hy c hc
        rcases hmem y hy with rfl | hy'
        · rw [h.typed x hxmem c hc, htype]
          rfl
        · exact h.typed y hy' c hc
    refine ⟨⟨hpending, ?_⟩, ?_, ?_⟩
    · have hcounts := h.counts
      rw [hlive] at hcounts
      have hperm := hcounts.perm (liveSources_perm List.perm_middle)
      rw [liveSources_cons] at hperm
      have hunmark : Counts r' (liveSources (l ++ m)) :=
        (hperm.unmark (h.source x hxmem)).of_maps_eq rfl rfl
      refine (hunmark.increment_register reg).perm ?_
      rw [hlive'']
      refine List.Perm.trans ?_ (liveSources_perm List.perm_middle).symm
      rw [liveSources_cons]
      rfl
    · rw [hlive'']
      refine hp.redirect ?_ ?_ (hdistinct.assignments_inj)
      · rintro y ⟨z, hz, hzy⟩
        rcases hmem z hz with rfl | hz'
        · obtain ⟨w, hw, hwmem⟩ := h.exists_assignment hxmem
          have hwt := ParallelMoveRecord.assignment?_eq_some.mp hw
          have hyt := ParallelMoveRecord.assignment?_eq_some.mp hzy
          have htarget : w.target = y.target := Option.some.inj (hwt.1.symm.trans hyt.1)
          refine ⟨w, hwmem, htarget, ?_⟩
          have hysource : y.source = .loc (.register reg) := hyt.2.symm
          rw [h.typed x hxmem _ hwt.1, hysource, Source.eval, htype, hheld, ← hwt.2, ← htype,
            ← VariableStorage.value_eq_carried]
          exact (VariableStorage.value_eq_of_inSameLocation hsame htype σ).symm
        · exact ⟨y, ⟨z, hz', hzy⟩, rfl, rfl⟩
      · rintro y ⟨z, hz, hzy⟩
        rw [hlive] at hz
        simp only [List.mem_append, List.mem_cons] at hz
        have hin : z = x ∨ z ∈ l ++ x' :: m := by
          simp only [List.mem_append, List.mem_cons]
          tauto
        rcases hin with rfl | hz'
        · obtain ⟨c, hc⟩ := VariableStorage.isParallelMoveLocation_iff.mp (h.target z hxmem)
          have hyt := ParallelMoveRecord.assignment?_eq_some.mp hzy
          refine ⟨⟨c, .loc (.register reg)⟩, ⟨x', by simp, ?_⟩, ?_⟩
          · exact ParallelMoveRecord.assignment?_eq_some.mpr ⟨hc, rfl⟩
          · exact Option.some.inj (hc.symm.trans hyt.1)
        · exact ⟨y, ⟨z, hz', hzy⟩, rfl⟩
    · rw [hlive'', hlive, hmap]
  · exact ⟨h, hp, rfl⟩

end Resolve

end WasmCompiler
