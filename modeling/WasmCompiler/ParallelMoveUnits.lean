import WasmCompiler.ParallelMoveLinear
import WasmCompiler.ParallelMoveSteps

/-!
# The Units of the Parallel Move Resolver

An extend record copies the low half of a value and is followed by a placeholder for the high
half, which is marked, unmarked and erased together with it. A *unit* is an operational record
with its placeholder, if it has one; `Paired` says that the slots of the resolver hold whole
units and empty slots, in any order.

## Main results

* `Bookkept.resolveRecord`, `Bookkept.markAsSwapped`: resolving a record removes its unit and
  the unit's reads, marking it as swapped removes the unit and its targets from the counts.
* `Bookkept.tryMove`: a linear move keeps the counts those of the pending reads.
-/

namespace WasmCompiler

open ParallelMoveResolver

variable {TReg : Type}

/-! ### Units -/

/-- The record is in use, be it operational or a placeholder. -/
def ParallelMoveRecord.isPending (record : ParallelMoveRecord TReg) : Bool :=
  match record.target.location with
  | .invalid => false
  | _ => true

/-- An operational record is in use and not a placeholder. -/
theorem ParallelMoveRecord.isOperationalRecord_eq (record : ParallelMoveRecord TReg) :
    record.isOperationalRecord = (record.isPending && !(record.targetType == .extendPlaceholder)) :=
  rfl

/-- An empty slot is not in use. -/
@[simp] theorem isPending_empty : (emptyRecord : ParallelMoveRecord TReg).isPending = false := rfl

/-- An operational record and what follows it as its placeholder. -/
structure IsUnit (x : ParallelMoveRecord TReg) (placeholder : List (ParallelMoveRecord TReg)) :
    Prop where
  /-- The record is in use. -/
  pending : x.isPending = true
  /-- A normal record has no placeholder, an extend record has one. -/
  kinds : (x.targetType = .normal ∧ placeholder = []) ∨
    (x.targetType = .extend ∧ ∃ y, placeholder = [y] ∧ y.isPending = true ∧
      y.targetType = .extendPlaceholder)

/-- Slots that hold whole units and empty slots. -/
inductive Paired : List (ParallelMoveRecord TReg) → Prop where
  | nil : Paired []
  | empty {l : List (ParallelMoveRecord TReg)} (rest : Paired l) : Paired ({} :: l)
  | unit {x : ParallelMoveRecord TReg} {placeholder l : List (ParallelMoveRecord TReg)}
      (unit : IsUnit x placeholder) (rest : Paired l) : Paired (x :: (placeholder ++ l))

/-- The placeholder of a record, from the slots that follow it. -/
def placeholders (x : ParallelMoveRecord TReg) (l : List (ParallelMoveRecord TReg)) :
    List (ParallelMoveRecord TReg) :=
  if x.targetType = .extend then l.take 1 else []

/-- The units in a list of slots. -/
def units : List (ParallelMoveRecord TReg) →
    List (ParallelMoveRecord TReg × List (ParallelMoveRecord TReg))
  | [] => []
  | x :: l => if x.isOperationalRecord then (x, placeholders x l) :: units l else units l

namespace IsUnit

variable {x : ParallelMoveRecord TReg} {placeholder : List (ParallelMoveRecord TReg)}

/-- A unit is operational. -/
theorem isOperationalRecord (h : IsUnit x placeholder) : x.isOperationalRecord = true := by
  have hpending := h.pending
  rw [ParallelMoveRecord.isOperationalRecord_eq]
  rcases h.kinds with ⟨ht, -⟩ | ⟨ht, -⟩
  · simp [hpending, ht]
  · simp [hpending, ht]

/-- Its placeholder is not. -/
theorem not_isOperationalRecord (h : IsUnit x placeholder) {y : ParallelMoveRecord TReg}
    (hy : y ∈ placeholder) : y.isOperationalRecord = false := by
  rcases h.kinds with ⟨-, rfl⟩ | ⟨-, z, rfl, -, ht⟩
  · simp at hy
  · obtain rfl := List.mem_singleton.mp hy
    simp [ParallelMoveRecord.isOperationalRecord_eq, ht]

/-- All its records are in use. -/
theorem isPending (h : IsUnit x placeholder) {y : ParallelMoveRecord TReg}
    (hy : y ∈ x :: placeholder) : y.isPending = true := by
  rcases List.mem_cons.mp hy with rfl | hy
  · exact h.pending
  · rcases h.kinds with ⟨-, rfl⟩ | ⟨-, z, rfl, hz, -⟩
    · simp at hy
    · obtain rfl := List.mem_singleton.mp hy
      exact hz

/-- The placeholder is what follows the record. -/
theorem placeholders_append (h : IsUnit x placeholder) (l : List (ParallelMoveRecord TReg)) :
    placeholders x (placeholder ++ l) = placeholder := by
  rcases h.kinds with ⟨ht, rfl⟩ | ⟨ht, y, rfl, -, -⟩
  · simp [placeholders, ht]
  · simp [placeholders, ht]

end IsUnit

/-- An empty slot holds no unit. -/
@[simp] theorem units_empty (l : List (ParallelMoveRecord TReg)) : units ({} :: l) = units l := by
  simp [units]

/-- A unit followed by others. -/
theorem units_unit {x : ParallelMoveRecord TReg} {placeholder : List (ParallelMoveRecord TReg)}
    (h : IsUnit x placeholder) (l : List (ParallelMoveRecord TReg)) :
    units (x :: (placeholder ++ l)) = (x, placeholder) :: units l := by
  have hrest : units (placeholder ++ l) = units l := by
    rcases h.kinds with ⟨-, rfl⟩ | ⟨-, y, rfl, -, -⟩
    · rfl
    · have hy := h.not_isOperationalRecord List.mem_cons_self
      simp [units, hy]
  rw [units, if_pos h.isOperationalRecord, h.placeholders_append, hrest]

namespace Paired

variable {a b l : List (ParallelMoveRecord TReg)}

/-- Whole units in a row. -/
theorem append (ha : Paired a) (hb : Paired b) : Paired (a ++ b) := by
  induction ha with
  | nil => exact hb
  | empty _ ih => exact .empty ih
  | unit hunit _ ih =>
      rw [List.cons_append, List.append_assoc]
      exact .unit hunit ih

/-- Empty slots in front. -/
theorem replicate_append (hb : Paired b) (n : ℕ) :
    Paired (List.replicate n emptyRecord ++ b) := by
  induction n with
  | zero => exact hb
  | succ n ih => exact .empty ih

/-- Their units are those of both lists. -/
theorem units_append (ha : Paired a) : units (a ++ b) = units a ++ units b := by
  induction ha with
  | nil => rfl
  | empty _ ih => simpa using ih
  | unit hunit _ ih =>
      rw [List.cons_append, List.append_assoc, units_unit hunit, units_unit hunit, ih,
        List.cons_append]

/-- The records in use are those of the units. -/
theorem filter_isPending (h : Paired l) :
    l.filter (fun x => x.isPending) = (units l).flatMap fun u => u.1 :: u.2 := by
  induction h with
  | nil => rfl
  | empty _ ih => rwa [List.filter_cons_of_neg (by simp), units_empty]
  | @unit x placeholder l hunit _ ih =>
      have hall : (x :: placeholder).filter (fun x => x.isPending) = x :: placeholder :=
        List.filter_eq_self.mpr fun y hy => hunit.isPending hy
      rw [units_unit hunit, List.flatMap_cons, ← ih, ← List.cons_append, List.filter_append, hall]

/-- The units are units. -/
theorem isUnit (h : Paired l) {u : ParallelMoveRecord TReg × List (ParallelMoveRecord TReg)}
    (hu : u ∈ units l) : IsUnit u.1 u.2 := by
  induction h with
  | nil => simp [units] at hu
  | empty _ ih => exact ih (by simpa using hu)
  | unit hunit _ ih =>
      rw [units_unit hunit] at hu
      rcases List.mem_cons.mp hu with rfl | hu
      · exact hunit
      · exact ih hu

/-- **The slots around an operational record**: it is followed by its placeholder, if it has
one, and whole units stand before and after. -/
theorem split (h : Paired l) {x : ParallelMoveRecord TReg} (hl : l = a ++ x :: b)
    (hx : x.isOperationalRecord = true) :
    Paired a ∧ ∃ placeholder b', b = placeholder ++ b' ∧ IsUnit x placeholder ∧ Paired b' := by
  induction h generalizing a with
  | nil => simp at hl
  | empty hrest ih =>
      cases a with
      | nil =>
          obtain ⟨rfl, -⟩ := List.cons.inj hl
          simp at hx
      | cons y a =>
          obtain ⟨hy, hl⟩ := List.cons.inj hl
          obtain ⟨ha, hb⟩ := ih hl
          exact ⟨hy ▸ .empty ha, hb⟩
  | @unit y placeholder l hunit hrest ih =>
      cases a with
      | nil =>
          obtain ⟨rfl, rfl⟩ := List.cons.inj hl
          exact ⟨.nil, placeholder, l, rfl, hunit, hrest⟩
      | cons z a =>
          rw [List.cons_append, List.cons.injEq] at hl
          obtain ⟨rfl, hl⟩ := hl
          rcases hunit.kinds with ⟨-, rfl⟩ | ⟨-, p, rfl, -, -⟩
          · obtain ⟨ha, hb⟩ := ih hl
            exact ⟨.unit hunit ha, hb⟩
          · rw [List.singleton_append] at hl
            cases a with
            | nil =>
                rw [List.nil_append, List.cons.injEq] at hl
                obtain ⟨rfl, -⟩ := hl
                rw [hunit.not_isOperationalRecord List.mem_cons_self] at hx
                exact absurd hx (by simp)
            | cons p' a =>
                rw [List.cons_append, List.cons.injEq] at hl
                obtain ⟨rfl, hl⟩ := hl
                obtain ⟨ha, hb⟩ := ih hl
                exact ⟨.unit hunit ha, hb⟩

end Paired

/-! ### Bookkeeping -/

namespace ParallelMoveResolver

/-- The records in use. -/
def pending (r : ParallelMoveResolver TReg) : List (ParallelMoveRecord TReg) :=
  r.records.filter fun record => record.isPending

/-- What they read. -/
def pendingReads (r : ParallelMoveResolver TReg) : List (Cell TReg) := liveSources r.pending

/-- What they write. -/
def pendingTargets (r : ParallelMoveResolver TReg) : List (Cell TReg) :=
  r.pending.filterMap fun record => record.target.cell?

end ParallelMoveResolver

/-- The slots hold whole units, the counter is right, and the maps count `cells`. -/
structure Bookkept [DecidableEq TReg] (r : ParallelMoveResolver TReg)
    (cells : List (Cell TReg)) : Prop where
  /-- The slots hold whole units. -/
  paired : Paired r.records
  /-- Every source is a constant, a register or memory. -/
  source : ∀ record ∈ r.pending, record.source.IsSource
  /-- Every target is a register or memory. -/
  target : ∀ record ∈ r.pending, record.target.isParallelMoveLocation = true
  /-- The record counter is right. -/
  count : r.recordsCount = r.pending.length
  /-- The maps count the cells. -/
  counts : Counts r cells

/-! ### Erasing a unit -/

section Erase

variable [DecidableEq TReg] {r : ParallelMoveResolver TReg} {cells cells' : List (Cell TReg)}
  {a b placeholder : List (ParallelMoveRecord TReg)} {x : ParallelMoveRecord TReg}

/-- Unmark one storage of every record of a unit and erase them. -/
def eraseUnit (f : ParallelMoveRecord TReg → VariableStorage TReg) (r : ParallelMoveResolver TReg)
    (a u b : List (ParallelMoveRecord TReg)) : ParallelMoveResolver TReg :=
  { (u.map f).foldl unmarkSourceAsUsed r with
    records := a ++ (List.replicate u.length emptyRecord ++ b)
    recordsCount := r.recordsCount - u.length }

/-- Erasing the record of a unit with its placeholder. -/
theorem resolveRecord_eq (hr : r.records = a ++ x :: (placeholder ++ b))
    (hunit : IsUnit x placeholder) :
    resolveRecord r a.length = eraseUnit (fun y => y.source) r a (x :: placeholder) b := by
  have hr' : (r.unmarkSourceAsUsed x.source).records = a ++ x :: (placeholder ++ b) := by
    simpa using hr
  rw [resolveRecord, recordAt_split hr, eraseRecordWithExtendPlaceholder, recordAt_split hr']
  rcases hunit.kinds with ⟨ht, rfl⟩ | ⟨ht, y, rfl, -, -⟩
  · simp [ht, eraseRecord, eraseUnit, hr]
  · have hy : (r.unmarkSourceAsUsed x.source).recordAt (a.length + 1) = y := by
      simp [recordAt, hr]
    rw [if_pos ht, hy]
    simp [eraseRecord, eraseUnit, hr, Nat.sub_sub]

/-- Marking a unit as swapped. -/
theorem markAsSwapped_eq (hr : r.records = a ++ x :: (placeholder ++ b))
    (hunit : IsUnit x placeholder) :
    r.markAsSwapped a.length = eraseUnit (fun y => y.target) r a (x :: placeholder) b := by
  rw [markAsSwapped, recordAt_split hr]
  rcases hunit.kinds with ⟨ht, rfl⟩ | ⟨ht, y, rfl, -, -⟩
  · simp [ht, eraseRecord, eraseUnit, hr]
  · have hy : r.recordAt (a.length + 1) = y := by simp [recordAt, hr]
    rw [if_pos ht, hy]
    simp [eraseRecord, eraseUnit, hr, Nat.sub_sub]

/-- Unmarking several counted storages. -/
theorem Counts.foldl_unmark {l : List (VariableStorage TReg)}
    (h : Counts r (l.filterMap VariableStorage.cell? ++ cells)) (hl : ∀ s ∈ l, s.IsSource) :
    Counts (l.foldl unmarkSourceAsUsed r) cells := by
  induction l generalizing r with
  | nil => exact h
  | cons s l ih =>
      have hsplit : (s :: l).filterMap VariableStorage.cell? ++ cells =
          s.cell?.toList ++ (l.filterMap VariableStorage.cell? ++ cells) := by
        cases hs : s.cell? <;> simp [hs]
      rw [hsplit] at h
      exact ih (h.unmark (hl s List.mem_cons_self)) fun s' hs' => hl s' (List.mem_cons_of_mem _ hs')

omit [DecidableEq TReg] in
/-- The records in use around a unit. -/
theorem pending_split (hr : r.records = a ++ x :: (placeholder ++ b))
    (hunit : IsUnit x placeholder) :
    r.pending = a.filter (fun y => y.isPending) ++
      ((x :: placeholder) ++ b.filter fun y => y.isPending) := by
  have hall : (x :: placeholder).filter (fun y => y.isPending) = x :: placeholder :=
    List.filter_eq_self.mpr fun y hy => hunit.isPending hy
  rw [pending, hr, ← List.cons_append, List.filter_append, List.filter_append, hall]

/-- The records in use after a unit has been erased. -/
theorem eraseUnit_pending (f : ParallelMoveRecord TReg → VariableStorage TReg)
    (r : ParallelMoveResolver TReg) (a u b : List (ParallelMoveRecord TReg)) :
    (eraseUnit f r a u b).pending =
      a.filter (fun y => y.isPending) ++ b.filter fun y => y.isPending := by
  have hempty : (List.replicate u.length (emptyRecord : ParallelMoveRecord TReg)).filter
      (fun y => y.isPending) = [] :=
    List.filter_eq_nil_iff.mpr fun y hy => by simp [List.eq_of_mem_replicate hy]
  rw [pending, eraseUnit, List.filter_append, List.filter_append, hempty, List.nil_append]

/-- Erasing a unit removes its records. -/
theorem eraseUnit_pending_perm (f : ParallelMoveRecord TReg → VariableStorage TReg)
    (hr : r.records = a ++ x :: (placeholder ++ b)) (hunit : IsUnit x placeholder) :
    r.pending.Perm ((x :: placeholder) ++ (eraseUnit f r a (x :: placeholder) b).pending) := by
  rw [pending_split hr hunit, eraseUnit_pending, ← List.append_assoc, ← List.append_assoc]
  exact List.perm_append_comm.append_right _

/-- It removes one unit. -/
theorem eraseUnit_units_perm (f : ParallelMoveRecord TReg → VariableStorage TReg)
    (hr : r.records = a ++ x :: (placeholder ++ b)) (hunit : IsUnit x placeholder)
    (ha : Paired a) :
    (units r.records).Perm
      ((x, placeholder) :: units (eraseUnit f r a (x :: placeholder) b).records) := by
  have hempty : units (List.replicate (x :: placeholder).length emptyRecord ++ b) = units b := by
    generalize (x :: placeholder).length = n
    induction n with
    | zero => rfl
    | succ n ih => simpa [List.replicate_succ] using ih
  rw [hr, ha.units_append, units_unit hunit, eraseUnit, ha.units_append, hempty]
  exact List.perm_middle

/-- **Erasing a unit** of which the unmarked storages are counted. -/
theorem Bookkept.eraseUnit (h : Bookkept r cells) (hr : r.records = a ++ x :: (placeholder ++ b))
    (hunit : IsUnit x placeholder) (ha : Paired a) (hb : Paired b)
    {f : ParallelMoveRecord TReg → VariableStorage TReg}
    (hf : ∀ y ∈ x :: placeholder, (f y).IsSource)
    (hcells : cells.Perm (((x :: placeholder).map f).filterMap VariableStorage.cell? ++ cells')) :
    Bookkept (WasmCompiler.eraseUnit f r a (x :: placeholder) b) cells' := by
  have hperm := eraseUnit_pending_perm f hr hunit
  have hsub : ∀ y ∈ (WasmCompiler.eraseUnit f r a (x :: placeholder) b).pending, y ∈ r.pending :=
    fun y hy => hperm.mem_iff.mpr (List.mem_append_right _ hy)
  refine ⟨ha.append (hb.replicate_append _), fun y hy => h.source y (hsub y hy),
    fun y hy => h.target y (hsub y hy), ?_, ?_⟩
  · have hlen := hperm.length_eq
    have hcount := h.count
    rw [List.length_append] at hlen
    simp only [WasmCompiler.eraseUnit] at hlen ⊢
    omega
  · have hsources : ∀ s ∈ (x :: placeholder).map f, s.IsSource := by
      intro s hs
      obtain ⟨y, hy, rfl⟩ := List.mem_map.mp hs
      exact hf y hy
    exact ((h.counts.perm hcells).foldl_unmark hsources).of_maps_eq rfl rfl

omit [DecidableEq TReg] in
/-- What several records and others read. -/
theorem liveSources_append (u l : List (ParallelMoveRecord TReg)) :
    liveSources (u ++ l) =
      (u.map fun y => y.source).filterMap VariableStorage.cell? ++ liveSources l := by
  rw [liveSources, List.filterMap_append, List.filterMap_map]
  rfl

/-- A record whose slot is given. -/
theorem Bookkept.split (h : Bookkept r cells) {c : List (ParallelMoveRecord TReg)}
    (hr : r.records = a ++ x :: c) (hop : x.isOperationalRecord = true) :
    Paired a ∧ ∃ placeholder b, r.records = a ++ x :: (placeholder ++ b) ∧
      IsUnit x placeholder ∧ Paired b := by
  obtain ⟨ha, placeholder, b, rfl, hunit, hb⟩ := h.paired.split hr hop
  exact ⟨ha, placeholder, b, hr, hunit, hb⟩

/-- The slots around an operational record: a slot that is not there is not operational. -/
theorem Bookkept.slot (h : Bookkept r cells) {i : ℕ}
    (hop : (r.recordAt i).isOperationalRecord = true) :
    ∃ a x placeholder b, r.records = a ++ x :: (placeholder ++ b) ∧ a.length = i ∧
      IsUnit x placeholder ∧ Paired a ∧ Paired b := by
  have hlt : i < r.records.length := by
    by_contra hge
    have hd : r.recordAt i = {} := by
      simp [recordAt, List.getElem?_eq_none (Nat.le_of_not_lt hge)]
    rw [hd] at hop
    exact absurd hop (by simp)
  have hr : r.records = r.records.take i ++ r.records[i] :: r.records.drop (i + 1) := by simp
  have hlen : (r.records.take i).length = i := by simp; omega
  have hx : r.recordAt i = r.records[i] := by simp [recordAt, hlt]
  obtain ⟨ha, placeholder, b, hr, hunit, hb⟩ := h.split hr (hx ▸ hop)
  exact ⟨_, _, placeholder, b, hr, hlen, hunit, ha, hb⟩

omit [DecidableEq TReg] in
/-- The records of a unit are in use. -/
theorem mem_pending_of_split (hr : r.records = a ++ x :: (placeholder ++ b))
    (hunit : IsUnit x placeholder) {y : ParallelMoveRecord TReg} (hy : y ∈ x :: placeholder) :
    y ∈ r.pending := by
  rw [pending_split hr hunit]
  exact List.mem_append_right _ (List.mem_append_left _ hy)

/-- **Resolving a record** with its placeholder keeps the maps those of the pending reads. -/
theorem Bookkept.resolveRecord (h : Bookkept r r.pendingReads)
    (hr : r.records = a ++ x :: (placeholder ++ b)) (hunit : IsUnit x placeholder)
    (ha : Paired a) (hb : Paired b) :
    Bookkept (WasmCompiler.resolveRecord r a.length)
      (WasmCompiler.resolveRecord r a.length).pendingReads := by
  rw [resolveRecord_eq hr hunit]
  refine h.eraseUnit hr hunit ha hb
    (fun y hy => h.source y (mem_pending_of_split hr hunit hy)) ?_
  rw [pendingReads, pendingReads, ← liveSources_append]
  exact liveSources_perm (eraseUnit_pending_perm _ hr hunit)

/-- What several records and others write. -/
theorem pendingTargets_perm (hr : r.records = a ++ x :: (placeholder ++ b))
    (hunit : IsUnit x placeholder) (f : ParallelMoveRecord TReg → VariableStorage TReg) :
    r.pendingTargets.Perm
      (((x :: placeholder).map fun y => y.target).filterMap VariableStorage.cell? ++
        (WasmCompiler.eraseUnit f r a (x :: placeholder) b).pendingTargets) := by
  have hperm := (eraseUnit_pending_perm f hr hunit).filterMap fun y => y.target.cell?
  rw [List.filterMap_append] at hperm
  rw [List.filterMap_map]
  exact hperm

/-- **Marking a record as swapped** keeps the maps those of the pending targets. -/
theorem Bookkept.markAsSwapped (h : Bookkept r r.pendingTargets)
    (hr : r.records = a ++ x :: (placeholder ++ b)) (hunit : IsUnit x placeholder)
    (ha : Paired a) (hb : Paired b) :
    Bookkept (r.markAsSwapped a.length) (r.markAsSwapped a.length).pendingTargets := by
  rw [markAsSwapped_eq hr hunit]
  exact h.eraseUnit hr hunit ha hb
    (fun y hy => Or.inr (h.target y (mem_pending_of_split hr hunit hy)))
    (pendingTargets_perm hr hunit _)

end Erase

/-! ### Redirecting sources -/

section Redirect

/-- A unit is left alone, or its operational record has been made to read `cell`. -/
def Redirected (cell : Cell TReg)
    (u u' : ParallelMoveRecord TReg × List (ParallelMoveRecord TReg)) : Prop :=
  u'.1.target = u.1.target ∧ u'.2 = u.2 ∧
    (u'.1.source = u.1.source ∨ u'.1.source.cell? = some cell)

/-- Nothing happens to the units. -/
theorem redirected_refl (cell : Cell TReg)
    (l : List (ParallelMoveRecord TReg × List (ParallelMoveRecord TReg))) :
    List.Forall₂ (Redirected cell) l l :=
  List.forall₂_same.mpr fun _ _ => ⟨rfl, rfl, Or.inl rfl⟩

/-- Redirecting twice. -/
theorem Redirected.trans {cell : Cell TReg}
    {u u' u'' : ParallelMoveRecord TReg × List (ParallelMoveRecord TReg)}
    (h : Redirected cell u u') (h' : Redirected cell u' u'') : Redirected cell u u'' := by
  obtain ⟨ht, hp, hs⟩ := h
  obtain ⟨ht', hp', hs'⟩ := h'
  refine ⟨ht'.trans ht, hp'.trans hp, ?_⟩
  rcases hs' with hs' | hs'
  · rwa [hs']
  · exact Or.inr hs'

/-- Redirecting all units twice. -/
theorem redirected_trans {cell : Cell TReg}
    {l l' l'' : List (ParallelMoveRecord TReg × List (ParallelMoveRecord TReg))}
    (h : List.Forall₂ (Redirected cell) l l') (h' : List.Forall₂ (Redirected cell) l' l'') :
    List.Forall₂ (Redirected cell) l l'' := by
  induction h generalizing l'' with
  | nil => exact h'
  | cons hu _ ih =>
      cases h' with
      | cons hu' hrest => exact .cons (hu.trans hu') (ih hrest)

variable [DecidableEq TReg] {r : ParallelMoveResolver TReg}

/-- **Redirecting one record** keeps the maps those of the pending reads. -/
theorem Bookkept.replaceSource (h : Bookkept r r.pendingReads)
    (record : ParallelMoveRecord TReg) (reg : TReg) (index : ℕ) :
    Bookkept (r.replaceSource record reg index) (r.replaceSource record reg index).pendingReads ∧
      List.Forall₂ (Redirected (.register reg)) (units r.records)
        (units (r.replaceSource record reg index).records) := by
  unfold ParallelMoveResolver.replaceSource
  dsimp only
  split
  · case _ hcond =>
    rw [Bool.and_eq_true] at hcond
    have hop := hcond.1
    obtain ⟨a, x, placeholder, b, hr, rfl, hunit, ha, hb⟩ := h.slot hop
    rw [recordAt_split hr]
    set x' : ParallelMoveRecord TReg :=
      { x with source := .reg record.source.machineType reg } with hx'
    set r' : ParallelMoveResolver TReg :=
      { r.unmarkSourceAsUsed x.source with
        records := (r.unmarkSourceAsUsed x.source).records.set a.length x' } with hrdef
    have hr' : r'.records = a ++ x' :: (placeholder ++ b) := by simp [hrdef, hr]
    have hunit' : IsUnit x' placeholder := ⟨hunit.pending, hunit.kinds⟩
    have hp := pending_split hr hunit
    have hp' : (r'.incrementRegisterSource reg).pending = _ := pending_split hr' hunit'
    have hmem : ∀ y ∈ (r'.incrementRegisterSource reg).pending, y = x' ∨ y ∈ r.pending := by
      intro y hy
      rw [hp'] at hy
      rw [hp]
      simp only [List.mem_append, List.mem_cons] at hy ⊢
      tauto
    have hxmem : x ∈ r.pending := mem_pending_of_split hr hunit List.mem_cons_self
    refine ⟨⟨?_, ?_, ?_, ?_, ?_⟩, ?_⟩
    · change Paired r'.records
      rw [hr']
      exact ha.append (.unit hunit' hb)
    · intro y hy
      rcases hmem y hy with rfl | hy
      · exact Or.inr rfl
      · exact h.source y hy
    · intro y hy
      rcases hmem y hy with rfl | hy
      · exact h.target x hxmem
      · exact h.target y hy
    · have hcount := h.count
      rw [hp] at hcount
      rw [hp']
      simpa [hrdef, incrementRegisterSource] using hcount
    · have hcounts := h.counts
      rw [pendingReads, hp] at hcounts
      rw [pendingReads, hp']
      have hperm := hcounts.perm (liveSources_perm List.perm_middle)
      rw [liveSources_cons] at hperm
      have hunmark : Counts r' _ :=
        (hperm.unmark (h.source x hxmem)).of_maps_eq rfl rfl
      refine (hunmark.increment_register reg).perm ?_
      exact List.Perm.trans (by rw [liveSources_cons]; rfl)
        (liveSources_perm List.perm_middle).symm
    · have hunits : units (r'.incrementRegisterSource reg).records =
          units a ++ (x', placeholder) :: units b := by
        change units r'.records = _
        rw [hr', ha.units_append, units_unit hunit']
      rw [hunits, hr, ha.units_append, units_unit hunit]
      exact List.rel_append (redirected_refl _ _)
        (.cons ⟨rfl, rfl, Or.inr rfl⟩ (redirected_refl _ _))
  · exact ⟨h, redirected_refl _ _⟩

/-- Redirecting slot after slot. -/
theorem Bookkept.foldl_replaceSource (h : Bookkept r r.pendingReads)
    (record : ParallelMoveRecord TReg) (reg : TReg) (indices : List ℕ) :
    Bookkept (indices.foldl (ParallelMoveResolver.replaceSource record reg) r)
        (indices.foldl (ParallelMoveResolver.replaceSource record reg) r).pendingReads ∧
      List.Forall₂ (Redirected (.register reg)) (units r.records)
        (units (indices.foldl (ParallelMoveResolver.replaceSource record reg) r).records) := by
  induction indices generalizing r with
  | nil => exact ⟨h, redirected_refl _ _⟩
  | cons i indices ih =>
      obtain ⟨h', hunits⟩ := h.replaceSource record reg i
      obtain ⟨h'', hunits'⟩ := ih h'
      exact ⟨h'', redirected_trans hunits hunits'⟩

variable {isImmediateEncodableInOneInstruction : MachineType → Word → Bool}

/-- **Storage replacement** keeps the maps those of the pending reads, and makes records read
the target of the resolved record only. -/
theorem Bookkept.storageReplacement (h : Bookkept r r.pendingReads)
    {record : ParallelMoveRecord TReg} {c : Cell TReg} (hc : record.target.cell? = some c) :
    Bookkept (r.storageReplacement isImmediateEncodableInOneInstruction record)
        (r.storageReplacement isImmediateEncodableInOneInstruction record).pendingReads ∧
      List.Forall₂ (Redirected c) (units r.records)
        (units (r.storageReplacement isImmediateEncodableInOneInstruction record).records) := by
  unfold ParallelMoveResolver.storageReplacement
  split
  · case _ reg hreg =>
    obtain rfl : .register reg = c :=
      Option.some.inj ((Counts.cell?_of_register hreg).symm.trans hc)
    split
    · exact h.foldl_replaceSource _ _ _
    · exact h.foldl_replaceSource _ _ _
    · split
      · exact h.foldl_replaceSource _ _ _
      · exact ⟨h, redirected_refl _ _⟩
  · exact ⟨h, redirected_refl _ _⟩

/-- What a linear move does: it resolves a unit of which no record in use reads the target, and
redirects others to the target. -/
theorem Bookkept.tryMove (h : Bookkept r r.pendingReads) {action : Action TReg}
    {r' : ParallelMoveResolver TReg}
    (ht : r.tryMove isImmediateEncodableInOneInstruction = some (action, r')) :
    ∃ x placeholder c l, action = .move x.target x.source ∧ x.target.cell? = some c ∧
      c ∉ r.pendingReads ∧ Bookkept r' r'.pendingReads ∧
      (units r.records).Perm ((x, placeholder) :: l) ∧
      List.Forall₂ (Redirected c) l (units r'.records) := by
  unfold ParallelMoveResolver.tryMove at ht
  split at ht
  · case _ i hi =>
    obtain ⟨a, x, d, hr, rfl, hfound⟩ := exists_record_of_findIdx? hi
    rw [Bool.and_eq_true, Bool.not_eq_true'] at hfound
    obtain ⟨hop, hunused⟩ := hfound
    rw [recordAt_split hr] at ht
    obtain ⟨rfl, rfl⟩ := Prod.mk.injEq .. ▸ Option.some.inj ht
    obtain ⟨ha, placeholder, b, hr, hunit, hb⟩ := h.split hr hop
    have hxmem := mem_pending_of_split hr hunit List.mem_cons_self
    obtain ⟨c, hc⟩ := VariableStorage.isParallelMoveLocation_iff.mp (h.target x hxmem)
    have hunread : c ∉ r.pendingReads := by
      intro hmem
      rw [(h.counts.targetIsUsedAsSource_iff hc).mpr hmem] at hunused
      exact absurd hunused (by simp)
    have hresolved := h.resolveRecord hr hunit ha hb
    have hperm := eraseUnit_units_perm (fun y => y.source) hr hunit ha
    rw [← resolveRecord_eq hr hunit] at hperm
    rw [WasmCompiler.resolveRecord, recordAt_split hr] at hresolved hperm
    obtain ⟨h', hunits⟩ := hresolved.storageReplacement hc
    exact ⟨x, placeholder, c, _, rfl, hc, hunread, h', hperm, hunits⟩
  · exact absurd ht (by simp)

end Redirect

end WasmCompiler
