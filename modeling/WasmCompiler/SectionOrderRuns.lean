import WasmCompiler.SectionOrder

/-!
# Runs of the Section Loop

What holds behind a number of sections: the actions that were run and the sections that are still
expected are the whole order, and what the order still accepts is what is expected. Each turn of
the loop keeps this, so it holds behind the last section, where the remaining actions are run and
the trailing sections are written.

## Main results

* `parseSections_spec`: the loop ends, behind all sections or with an error.
* `startCompilation_order`: which orders of the sections are accepted, and what the ledger of an
  accepted module holds.
-/

namespace WasmCompiler

/-! ### The invariant of the loop -/

/-- The actions of a ledger. -/
def actionsOf (events : List LoopEvent) : List SectionType :=
  events.filterMap fun
    | .action sectionType => some sectionType
    | _ => none

/-- The sections of a ledger. -/
def parsedOf (events : List LoopEvent) : List SectionType :=
  events.filterMap fun
    | .section_ sectionType => some sectionType
    | _ => none

/-- The trailing sections of a ledger. -/
def trailersOf (events : List LoopEvent) : List Trailer :=
  events.filterMap fun
    | .trailer trailer => some trailer
    | _ => none

/-- The type of a section that is not a custom section. -/
def RawSection.sectionType? (section_ : RawSection) : Option SectionType :=
  if section_.isCustom then none else SectionType.ofByte section_.id

/-- The number with which the order sees a type; the placeholder stands for the name section. -/
def SectionType.orderKey : SectionType → UInt8
  | .custom => 0
  | .type => 1
  | .import_ => 2
  | .function => 3
  | .table => 4
  | .memory => 5
  | .global => 6
  | .export_ => 7
  | .start => 8
  | .element => 9
  | .code => 10
  | .data => 11
  | .dataCount => 12
  | .placeholder => 0

/-- The number of a section is that of its type. -/
theorem SectionType.ofByte_orderKey {id : UInt8} {t : SectionType} (h : ofByte id = some t)
    (hplaceholder : t ≠ .placeholder) : t.orderKey = id := by
  have hall : ∀ n : Fin 256, ∀ t ∈ ofByte (UInt8.ofNat n.val), t ≠ .placeholder →
      t.orderKey = UInt8.ofNat n.val := by
    decide +kernel
  have hid : UInt8.ofNat (⟨id.toNat, id.toNat_lt⟩ : Fin 256).val = id := by simp
  have hkey := hall ⟨id.toNat, id.toNat_lt⟩ t (by rw [hid]; exact h) hplaceholder
  rwa [hid] at hkey

/-- What the order still accepts. -/
def LoopState.remainingKeys {σ : Type} (state : LoopState σ) : List UInt8 :=
  if state.nameSectionHandled then [] else state.expectedSections.map SectionType.orderKey

/-- The state behind a number of sections. -/
structure OrderInvariant {σ : Type} (state : LoopState σ) (done : List RawSection) : Prop where
  actions : actionsOf state.events ++ state.expectedSections = sectionOrder
  expectedSections_ne : state.expectedSections ≠ []
  name : state.nameSectionHandled = true → state.expectedSections = [.placeholder]
  order : ∀ keys, (done.filterMap RawSection.orderKey ++ keys).Sublist (webAssemblyOrder ++ [0]) ↔
    keys.Sublist state.remainingKeys
  parsed : parsedOf state.events = done.filterMap RawSection.sectionType?
  followed : ∀ t ∈ parsedOf state.events, [.section_ t, .action t] <:+: state.events
  trailers : trailersOf state.events = if state.nameSectionHandled then [.functionNames] else []
  functions : state.counts.numNonImportedFunctions = declaredCount 3 done
  bodies : state.counts.numFunctionBodiesProduced = declaredCount 10 done
  agree : .code ∉ state.expectedSections → declaredCount 3 done = declaredCount 10 done

/-- The first of a list of keys. -/
theorem cons_sublist_append_cons_iff {α : Type} {key : α} {keys front back : List α}
    (hfront : key ∉ front) :
    (key :: keys).Sublist (front ++ key :: back) ↔ keys.Sublist back := by
  induction front with
  | nil => exact List.cons_sublist_cons
  | cons first front ih =>
      have hne : key ≠ first := fun h => hfront (h ▸ List.mem_cons_self)
      rw [List.cons_append, List.sublist_cons_iff, ih fun h => hfront (List.mem_cons_of_mem _ h)]
      constructor
      · rintro (h | ⟨r, heq, -⟩)
        · exact h
        · exact absurd (List.cons.inj heq).1 hne
      · exact .inl

/-- The count of another section. -/
theorem declaredCount_snoc_of_ne {id : UInt8} {section_ : RawSection} (hne : section_.id ≠ id)
    (done : List RawSection) : declaredCount id (done ++ [section_]) = declaredCount id done := by
  rw [declaredCount, List.find?_append, List.find?_singleton, if_neg (by simpa using hne),
    Option.or_none, declaredCount]

/-- The count of a section that is not there yet. -/
theorem declaredCount_of_notMem {id : UInt8} {done : List RawSection}
    (h : ∀ section_ ∈ done, section_.id ≠ id) : declaredCount id done = 0 := by
  rw [declaredCount, List.find?_eq_none.mpr fun section_ hmem => by simpa using h section_ hmem]
  rfl

/-- The count of a section that was not there. -/
theorem declaredCount_snoc_self {done : List RawSection} {section_ : RawSection}
    (h : ∀ section' ∈ done, section'.id ≠ section_.id) :
    declaredCount section_.id (done ++ [section_]) = leadingCount section_.content := by
  rw [declaredCount, List.find?_append,
    List.find?_eq_none.mpr fun section' hmem => by simpa using h section' hmem,
    List.find?_singleton, if_pos (by simp)]
  rfl

/-- The place of a type in the order. -/
def sectionRank (sectionType : SectionType) : ℕ := sectionOrder.idxOf sectionType

/-- The order is one. -/
theorem sectionOrder_pairwise : sectionOrder.Pairwise fun a b => sectionRank a < sectionRank b := by
  decide

/-- The ledger with more events. -/
@[simp] theorem actionsOf_append (events events' : List LoopEvent) :
    actionsOf (events ++ events') = actionsOf events ++ actionsOf events' :=
  List.filterMap_append

/-- The ledger with more events. -/
@[simp] theorem parsedOf_append (events events' : List LoopEvent) :
    parsedOf (events ++ events') = parsedOf events ++ parsedOf events' :=
  List.filterMap_append

/-- The ledger with more events. -/
@[simp] theorem trailersOf_append (events events' : List LoopEvent) :
    trailersOf (events ++ events') = trailersOf events ++ trailersOf events' :=
  List.filterMap_append

/-- The actions of a ledger of actions. -/
@[simp] theorem actionsOf_map_action (done : List SectionType) :
    actionsOf (done.map .action) = done := by
  induction done with
  | nil => rfl
  | cons first done ih => exact congrArg (first :: ·) ih

/-- A ledger of actions has no sections. -/
@[simp] theorem parsedOf_map_action (done : List SectionType) :
    parsedOf (done.map .action) = [] := by
  induction done with
  | nil => rfl
  | cons first done ih => exact ih

/-- A ledger of actions has no trailing sections. -/
@[simp] theorem trailersOf_map_action (done : List SectionType) :
    trailersOf (done.map .action) = [] := by
  induction done with
  | nil => rfl
  | cons first done ih => exact ih

/-- A ledger of trailing sections has no actions. -/
@[simp] theorem actionsOf_map_trailer (trailers : List Trailer) :
    actionsOf (trailers.map .trailer) = [] := by
  induction trailers with
  | nil => rfl
  | cons first trailers ih => exact ih

/-- A ledger of trailing sections has no sections. -/
@[simp] theorem parsedOf_map_trailer (trailers : List Trailer) :
    parsedOf (trailers.map .trailer) = [] := by
  induction trailers with
  | nil => rfl
  | cons first trailers ih => exact ih

/-- The trailing sections of a ledger of trailing sections. -/
@[simp] theorem trailersOf_map_trailer (trailers : List Trailer) :
    trailersOf (trailers.map .trailer) = trailers := by
  induction trailers with
  | nil => rfl
  | cons first trailers ih => exact congrArg (first :: ·) ih

namespace OrderInvariant

variable {σ : Type} {state state' : LoopState σ} {done : List RawSection}

/-- Sections whose action was run come before those that are expected. -/
theorem rank_lt (h : OrderInvariant state done) {t t' : SectionType}
    (ht : t ∈ actionsOf state.events) (ht' : t' ∈ state.expectedSections) :
    sectionRank t < sectionRank t' := by
  have hpairwise := sectionOrder_pairwise
  rw [← h.actions] at hpairwise
  exact (List.pairwise_append.mp hpairwise).2.2 t ht t' ht'

/-- The expected sections are in order. -/
theorem expectedSections_pairwise (h : OrderInvariant state done) :
    state.expectedSections.Pairwise fun a b => sectionRank a < sectionRank b := by
  have hpairwise := sectionOrder_pairwise
  rw [← h.actions] at hpairwise
  exact (List.pairwise_append.mp hpairwise).2.1

/-- A section that is not expected was passed. -/
theorem mem_actionsOf (h : OrderInvariant state done) {t : SectionType} (ht : t ∈ sectionOrder)
    (hexpected : t ∉ state.expectedSections) : t ∈ actionsOf state.events := by
  rw [← h.actions] at ht
  exact (List.mem_append.mp ht).resolve_right hexpected

/-- A section that is expected was not there. -/
theorem id_ne (h : OrderInvariant state done) {t : SectionType} (ht : t ∈ state.expectedSections)
    {id : UInt8} (hid : SectionType.ofByte id = some t) (hcustom : id ≠ 0) :
    ∀ section_ ∈ done, section_.id ≠ id := by
  rintro section_ hmem rfl
  have hparsed : t ∈ parsedOf state.events := by
    rw [h.parsed]
    refine List.mem_filterMap.mpr ⟨section_, hmem, ?_⟩
    rw [RawSection.sectionType?, if_neg (by simpa [RawSection.isCustom] using hcustom), hid]
  have haction : t ∈ actionsOf state.events :=
    List.mem_filterMap.mpr ⟨.action t, (h.followed t hparsed).subset (by simp), rfl⟩
  exact absurd (h.rank_lt haction ht) (Nat.lt_irrefl _)

/-- The state in front of the first section. -/
theorem initial (compiler : σ) : OrderInvariant ({ compiler } : LoopState σ) [] where
  actions := rfl
  expectedSections_ne := List.cons_ne_nil _ _
  name := nofun
  order _ := Iff.rfl
  parsed := rfl
  followed := nofun
  trailers := rfl
  functions := show ({} : ModuleCounts).numNonImportedFunctions = declaredCount 3 [] by decide
  bodies := rfl
  agree h := absurd (show .code ∈ sectionOrder by decide) h

/-- The counts behind a section that is not a custom section. -/
theorem counts_snoc (h : OrderInvariant state done) {skipped rest : List SectionType}
    {t : SectionType} (hexpected : state.expectedSections = skipped ++ t :: rest)
    {section_ : RawSection} (hid : SectionType.ofByte section_.id = some t)
    (hcustom : section_.id ≠ 0) (hplaceholder : t ≠ .placeholder)
    {counts : ModuleCounts} (hparsed : ParsedCounts t section_.content state.counts counts)
    (hcode : .code ∈ skipped →
      ¬state.counts.numFunctionBodiesProduced < state.counts.numNonImportedFunctions) :
    counts.numNonImportedFunctions = declaredCount 3 (done ++ [section_]) ∧
      counts.numFunctionBodiesProduced = declaredCount 10 (done ++ [section_]) ∧
      (.code ∉ rest →
        declaredCount 3 (done ++ [section_]) = declaredCount 10 (done ++ [section_])) := by
  have ht : t ∈ state.expectedSections := by simp [hexpected]
  have hkey := SectionType.ofByte_orderKey hid hplaceholder
  have hnew := h.id_ne ht hid hcustom
  have hpairwise := h.expectedSections_pairwise
  rw [hexpected] at hpairwise
  have hbefore : ∀ t' ∈ skipped, sectionRank t' < sectionRank t := fun t' hmem =>
    (List.pairwise_append.mp hpairwise).2.2 t' hmem t List.mem_cons_self
  have habsent : ∀ t' id, t' ∈ state.expectedSections → SectionType.ofByte id = some t' →
      id ≠ 0 → declaredCount id done = 0 := fun t' id ht' hid' hne =>
    declaredCount_of_notMem (h.id_ne ht' hid' hne)
  have hexpects : ∀ t', t' ∈ sectionOrder → sectionRank t ≤ sectionRank t' →
      t' ∈ state.expectedSections := by
    intro t' horder hrank
    by_contra hnot
    have := h.rank_lt (h.mem_actionsOf horder hnot) ht
    omega
  by_cases hfunction : t = .function
  · subst hfunction
    have hid3 : section_.id = 3 := hkey.symm
    have hbodies : declaredCount 10 (done ++ [section_]) = 0 := by
      rw [declaredCount_snoc_of_ne (by rw [hid3]; decide)]
      exact habsent .code 10 (hexpects _ (by decide) (by decide)) rfl (by decide)
    refine ⟨?_, ?_, fun hrest => ?_⟩
    · rw [hparsed.functions, if_pos rfl, ← hid3, declaredCount_snoc_self hnew]
    · rw [hparsed.bodies, if_neg (by decide), h.bodies, hbodies]
      exact habsent .code 10 (hexpects _ (by decide) (by decide)) rfl (by decide)
    · have hmem := hexpects .code (by decide) (by decide)
      rw [hexpected] at hmem
      rcases List.mem_append.mp hmem with hmem | hmem
      · exact absurd (hbefore _ hmem) (by decide)
      · exact absurd ((List.mem_cons.mp hmem).resolve_left (by decide)) hrest
  · have hid3 : section_.id ≠ 3 := by
      intro h3
      rw [h3] at hid
      exact hfunction (Option.some.inj hid).symm
    have hfunctions : counts.numNonImportedFunctions = declaredCount 3 (done ++ [section_]) := by
      rw [hparsed.functions, if_neg hfunction, declaredCount_snoc_of_ne hid3]
      split
      · next himport =>
          subst himport
          exact (habsent .function 3 (hexpects _ (by decide) (by decide)) rfl (by decide)).symm
      · exact h.functions
    by_cases hcodeType : t = .code
    · subst hcodeType
      have hid10 : section_.id = 10 := hkey.symm
      have hleading : declaredCount 10 (done ++ [section_]) = leadingCount section_.content := by
        rw [← hid10, declaredCount_snoc_self hnew]
      refine ⟨hfunctions, ?_, fun _ => ?_⟩
      · rw [hparsed.bodies, if_pos rfl, h.bodies, hleading,
          habsent .code 10 ht rfl (by decide), UInt32.zero_add]
      · rw [hleading, hparsed.agree rfl, declaredCount_snoc_of_ne hid3, h.functions]
    · have hid10 : section_.id ≠ 10 := by
        intro h10
        rw [h10] at hid
        exact hcodeType (Option.some.inj hid).symm
      refine ⟨hfunctions, ?_, fun hrest => ?_⟩
      · rw [hparsed.bodies, if_neg hcodeType, h.bodies, declaredCount_snoc_of_ne hid10]
      · rw [declaredCount_snoc_of_ne hid3, declaredCount_snoc_of_ne hid10]
        by_cases hmem : .code ∈ state.expectedSections
        · have hskipped : .code ∈ skipped := by
            rw [hexpected] at hmem
            rcases List.mem_append.mp hmem with hmem | hmem
            · exact hmem
            · rcases List.mem_cons.mp hmem with hmem | hmem
              · exact absurd hmem.symm hcodeType
              · exact absurd hmem hrest
          have hle := hcode hskipped
          have hzero := habsent .code 10 hmem rfl (by decide)
          rw [h.bodies, hzero, h.functions] at hle
          rw [hzero]
          exact UInt32.le_zero_iff.mp (UInt32.not_lt.mp hle)
        · exact h.agree hmem

/-- Going to a section that is expected and no placeholder: the name section was not there. -/
theorem nameSectionHandled_eq_false (h : OrderInvariant state done) {t : SectionType}
    (ht : t ∈ state.expectedSections) (hplaceholder : t ≠ .placeholder) :
    state.nameSectionHandled = false := by
  by_contra hname
  rw [h.name (Bool.eq_true_of_not_eq_false hname)] at ht
  exact hplaceholder (List.mem_singleton.mp ht)

/-- Behind a section that is not a custom section. -/
theorem snoc_ordered (h : OrderInvariant state done) {skipped rest : List SectionType}
    {t : SectionType} (hexpected : state.expectedSections = skipped ++ t :: rest)
    (hskipped : t ∉ skipped) {section_ : RawSection}
    (hid : SectionType.ofByte section_.id = some t) (hcustom : section_.id ≠ 0)
    (hplaceholder : t ≠ .placeholder) {moved parsed acted : LoopState σ}
    (hmoved : SectionParsers.Acted skipped state moved) (hkeeps : KeepsLoop moved parsed)
    (hcounts : ParsedCounts t section_.content moved.counts parsed.counts)
    (hacted : SectionParsers.Acted [t] (parsed.log (.section_ t)) acted) :
    OrderInvariant { acted with expectedSections := rest } (done ++ [section_]) := by
  have ht : t ∈ state.expectedSections := by simp [hexpected]
  have hname := h.nameSectionHandled_eq_false ht hplaceholder
  have hnameActed : acted.nameSectionHandled = false := by
    rw [hacted.nameSectionHandled_eq, ← hname, ← hmoved.nameSectionHandled_eq,
      ← hkeeps.nameSectionHandled_eq]
    rfl
  have hevents : acted.events =
      state.events ++ skipped.map .action ++ [.section_ t, .action t] := by
    rw [hacted.events_eq]
    simp [LoopState.log, hkeeps.events_eq, hmoved.events_eq]
  have hisCustom : section_.isCustom = false := by
    simpa [RawSection.isCustom] using hcustom
  have hrest : rest ≠ [] := by
    rintro rfl
    have hlast := congrArg List.getLast? h.actions
    rw [hexpected, ← List.append_assoc, List.getLast?_concat] at hlast
    exact hplaceholder (Option.some.inj hlast)
  have hkey : section_.orderKey = some t.orderKey := by
    rw [RawSection.orderKey, hisCustom, SectionType.ofByte_orderKey hid hplaceholder]
    rfl
  have hcounts' : ParsedCounts t section_.content state.counts acted.counts := by
    refine ⟨?_, ?_, ?_⟩
    · rw [hacted.functions_eq, ← hmoved.functions_eq]
      exact hcounts.functions
    · rw [hacted.bodies_eq, ← hmoved.bodies_eq]
      exact hcounts.bodies
    · rw [← hmoved.functions_eq]
      exact hcounts.agree
  obtain ⟨hfunctions, hbodies, hagree⟩ :=
    h.counts_snoc hexpected hid hcustom hplaceholder hcounts' hmoved.code
  refine ⟨?_, hrest, ?_, fun keys => ?_, ?_, ?_, ?_, hfunctions, hbodies, hagree⟩
  · rw [← h.actions, hexpected, hevents]
    simp [actionsOf]
  · intro hhandled
    exact absurd (hhandled.symm.trans hnameActed) (by decide)
  · have hremaining : state.remainingKeys =
        skipped.map SectionType.orderKey ++ t.orderKey :: rest.map SectionType.orderKey := by
      rw [LoopState.remainingKeys, hname, hexpected]
      simp
    have hnotMem : t.orderKey ∉ skipped.map SectionType.orderKey := by
      have hnodup : (sectionOrder.map SectionType.orderKey).Nodup := by decide
      rw [← h.actions, hexpected, List.map_append, List.map_append, List.map_cons] at hnodup
      intro hmem
      exact (List.nodup_append.mp (List.nodup_append.mp hnodup).2.1).2.2 _ hmem _
        List.mem_cons_self rfl
    rw [List.filterMap_append, List.append_assoc, h.order, hremaining]
    simp only [List.filterMap_cons, hkey, List.filterMap_nil, List.singleton_append]
    rw [cons_sublist_append_cons_iff hnotMem, LoopState.remainingKeys, hnameActed]
    rfl
  · rw [hevents, List.filterMap_append, ← h.parsed]
    simp [parsedOf, RawSection.sectionType?, hisCustom, hid]
  · intro t' ht'
    dsimp only at ht' ⊢
    rw [hevents] at ht' ⊢
    by_cases hold : t' ∈ parsedOf state.events
    · exact (h.followed t' hold).trans
        ((List.prefix_append _ _).trans (List.prefix_append _ _)).isInfix
    · rw [parsedOf_append, parsedOf_append, parsedOf_map_action, List.append_nil] at ht'
      obtain rfl : t' = t := List.mem_singleton.mp ((List.mem_append.mp ht').resolve_left hold)
      exact (List.suffix_append _ _).isInfix
  · rw [hevents, hnameActed]
    have htrailers := h.trailers
    rw [hname] at htrailers
    simpa [trailersOf] using htrailers

/-- The placeholder is expected to the end. -/
theorem expected_split (h : OrderInvariant state done) {skipped rest : List SectionType}
    (hexpected : state.expectedSections = skipped ++ .placeholder :: rest) : rest = [] := by
  have hpairwise := h.expectedSections_pairwise
  rw [hexpected] at hpairwise
  cases rest with
  | nil => rfl
  | cons t rest =>
      have hlt := (List.pairwise_cons.mp (List.pairwise_append.mp hpairwise).2.1).1 t
        List.mem_cons_self
      have hmem : t ∈ sectionOrder := by
        rw [← h.actions, hexpected]
        simp
      have hall : ∀ t ∈ sectionOrder, ¬sectionRank .placeholder < sectionRank t := by decide
      exact absurd hlt (hall t hmem)

/-- The actions of the sections that do not follow any more. -/
theorem placeholder (h : OrderInvariant state done) (start : LoopState σ)
    {skipped rest : List SectionType}
    (hexpected : state.expectedSections = skipped ++ .placeholder :: rest)
    (hevents : start.events = state.events) (hcounts : start.counts = state.counts)
    (hmoved : SectionParsers.Acted skipped start state') :
    actionsOf state'.events ++ [.placeholder] = sectionOrder ∧
      parsedOf state'.events = done.filterMap RawSection.sectionType? ∧
      (∀ t ∈ parsedOf state'.events, [.section_ t, .action t] <:+: state'.events) ∧
      trailersOf state'.events = trailersOf state.events ∧
      state'.counts.numNonImportedFunctions = declaredCount 3 done ∧
      state'.counts.numFunctionBodiesProduced = declaredCount 10 done ∧
      declaredCount 3 done = declaredCount 10 done := by
  obtain rfl := h.expected_split hexpected
  have hactions := h.actions
  rw [hexpected] at hactions
  have hfunctions := hmoved.functions_eq
  have hbodies := hmoved.bodies_eq
  have hle := hmoved.code
  rw [hcounts] at hfunctions hbodies hle
  rw [hmoved.events_eq, hevents]
  simp only [actionsOf_append, actionsOf_map_action, parsedOf_append, parsedOf_map_action,
    trailersOf_append, trailersOf_map_action, List.append_nil]
  refine ⟨(List.append_assoc _ _ _).trans hactions, h.parsed, fun t ht => ?_, trivial,
    hfunctions.trans h.functions, hbodies.trans h.bodies, ?_⟩
  · exact (h.followed t ht).trans (List.prefix_append _ _).isInfix
  · by_cases hcode : .code ∈ state.expectedSections
    · have hskipped : .code ∈ skipped := by
        rw [hexpected] at hcode
        simpa using hcode
      have hzero : declaredCount 10 done = 0 :=
        declaredCount_of_notMem (h.id_ne hcode rfl (by decide))
      have hnot := hle hskipped
      rw [h.bodies, hzero, h.functions] at hnot
      rw [hzero]
      exact UInt32.le_zero_iff.mp (UInt32.not_lt.mp hnot)
    · exact h.agree hcode

/-- Behind the name section. -/
theorem snoc_name (h : OrderInvariant state done) (hname : state.nameSectionHandled = false)
    {skipped rest : List SectionType}
    (hexpected : state.expectedSections = skipped ++ .placeholder :: rest) {section_ : RawSection}
    (hcustom : section_.isCustom = true) (hisName : section_.isName = true)
    {moved last : LoopState σ}
    (hmoved : SectionParsers.Acted skipped { state with nameSectionHandled := true } moved)
    (hlastExpected : last.expectedSections = .placeholder :: rest)
    (hlastName : last.nameSectionHandled = moved.nameSectionHandled)
    (hlastCounts : last.counts = moved.counts)
    (hlastEvents : last.events = moved.events ++ [.trailer .functionNames]) :
    OrderInvariant last (done ++ [section_]) := by
  have hid : section_.id = 0 := by simpa [RawSection.isCustom] using hcustom
  have hkey : section_.orderKey = some 0 := by
    rw [RawSection.orderKey, hcustom, hisName]
    rfl
  obtain rfl := h.expected_split hexpected
  rw [show moved.nameSectionHandled = true from hmoved.nameSectionHandled_eq] at hlastName
  obtain ⟨hactions, hparsed, hfollowed, htrailers, hfunctions, hbodies, hagree⟩ :=
    h.placeholder { state with nameSectionHandled := true } hexpected rfl rfl hmoved
  have hother : ∀ id : UInt8, id ≠ 0 →
      declaredCount id (done ++ [section_]) = declaredCount id done := fun id hne =>
    declaredCount_snoc_of_ne (by rw [hid]; exact hne.symm) done
  have hremaining : state.remainingKeys = skipped.map SectionType.orderKey ++ [0] := by
    rw [LoopState.remainingKeys, hname, hexpected]
    simp [SectionType.orderKey]
  have hnotMem : (0 : UInt8) ∉ skipped.map SectionType.orderKey := by
    have hnodup : (sectionOrder.map SectionType.orderKey).Nodup := by decide
    rw [← h.actions, hexpected, List.map_append, List.map_append, List.map_cons] at hnodup
    intro hmem
    exact (List.nodup_append.mp (List.nodup_append.mp hnodup).2.1).2.2 _ hmem _
      List.mem_cons_self rfl
  refine ⟨?_, ?_, fun _ => hlastExpected, fun keys => ?_, ?_, fun t ht => ?_, ?_, ?_, ?_, ?_⟩
  · rw [hlastEvents, hlastExpected]
    simpa [actionsOf] using hactions
  · rw [hlastExpected]
    exact List.cons_ne_nil _ _
  · rw [List.filterMap_append, List.append_assoc, h.order, hremaining]
    simp only [List.filterMap_cons, hkey, List.filterMap_nil, List.singleton_append]
    rw [cons_sublist_append_cons_iff hnotMem, LoopState.remainingKeys, hlastName]
    rfl
  · rw [List.filterMap_append, ← hparsed, hlastEvents]
    simp [RawSection.sectionType?, hcustom, parsedOf]
  · rw [hlastEvents] at ht ⊢
    rw [parsedOf_append] at ht
    have hmem := (List.mem_append.mp ht).resolve_right (by simp [parsedOf])
    exact (hfollowed t hmem).trans (List.prefix_append _ _).isInfix
  · have hold := h.trailers
    rw [hname, if_neg (by decide)] at hold
    rw [hlastName, hlastEvents, trailersOf_append, htrailers, hold]
    rfl
  · rw [hlastCounts]
    exact hfunctions.trans (hother 3 (by decide)).symm
  · rw [hlastCounts]
    exact hbodies.trans (hother 10 (by decide)).symm
  · intro _
    rw [hother 3 (by decide), hother 10 (by decide), hagree]

/-- Behind another custom section. -/
theorem snoc_custom (h : OrderInvariant state done) {section_ : RawSection}
    (hcustom : section_.isCustom = true) (hisName : section_.isName = false) :
    OrderInvariant state (done ++ [section_]) := by
  have hid : section_.id = 0 := by simpa [RawSection.isCustom] using hcustom
  have hkey : section_.orderKey = none := by
    rw [RawSection.orderKey, hcustom, hisName]
    rfl
  have hother : ∀ id : UInt8, id ≠ 0 →
      declaredCount id (done ++ [section_]) = declaredCount id done := fun id hne =>
    declaredCount_snoc_of_ne (by rw [hid]; exact hne.symm) done
  refine ⟨h.actions, h.expectedSections_ne, h.name, fun keys => ?_, ?_, h.followed, h.trailers,
    ?_, ?_, ?_⟩
  · rw [List.filterMap_append, List.filterMap_cons, hkey]
    simpa using h.order keys
  · rw [h.parsed, List.filterMap_append]
    simp [RawSection.sectionType?, hcustom]
  · rw [h.functions, hother 3 (by decide)]
  · rw [h.bodies, hother 10 (by decide)]
  · rw [hother 3 (by decide), hother 10 (by decide)]
    exact h.agree

/-- The cursors are of no matter. -/
theorem withCursors (h : OrderInvariant state done) (cursors : List ℕ) :
    OrderInvariant { state with cursors } done :=
  ⟨h.actions, h.expectedSections_ne, h.name, h.order, h.parsed, h.followed, h.trailers,
    h.functions, h.bodies, h.agree⟩

/-- What the order still accepts is expected. -/
theorem mem_expectedSections (h : OrderInvariant state done) {section_ : RawSection} {key : UInt8}
    (hkey : section_.orderKey = some key)
    (haccepted : ((done ++ [section_]).filterMap RawSection.orderKey).Sublist
      (webAssemblyOrder ++ [0])) :
    state.nameSectionHandled = false ∧
      ∃ t ∈ state.expectedSections, t ∈ sectionOrder ∧ t.orderKey = key := by
  rw [List.filterMap_append, h.order] at haccepted
  simp only [List.filterMap_cons, hkey, List.filterMap_nil, List.singleton_sublist] at haccepted
  rw [LoopState.remainingKeys] at haccepted
  split at haccepted
  · cases haccepted
  · next hname =>
      obtain ⟨t, ht, rfl⟩ := List.mem_map.mp haccepted
      refine ⟨Bool.eq_false_of_not_eq_true hname, t, ht, ?_, rfl⟩
      rw [← h.actions]
      exact List.mem_append_right _ ht

end OrderInvariant

/-! ### The loop -/

/-- The number of the custom sections. -/
theorem SectionType.ofByte_eq_custom_iff (id : UInt8) : ofByte id = some .custom ↔ id = 0 := by
  have hall : ∀ n : Fin 256, ofByte (UInt8.ofNat n.val) = some .custom ↔ n.val = 0 := by
    decide +kernel
  have hid : UInt8.ofNat (⟨id.toNat, id.toNat_lt⟩ : Fin 256).val = id := by simp
  have hiff := hall ⟨id.toNat, id.toNat_lt⟩
  rw [hid] at hiff
  rw [hiff]
  exact UInt8.toNat_inj (b := 0)

namespace SectionParsers

variable {σ : Type} {parsers : SectionParsers σ} {state state' : LoopState σ}
  {reader reader' : BytecodeReader} {e : LoopError} {done : List RawSection}

/-- A section that is not a custom section. -/
theorem parseOrderedSection_ok (h : OrderInvariant state done) {section_ : RawSection}
    (hcustom : section_.id ≠ 0)
    (hparse : parseOrderedSection parsers state section_ = .ok (state', reader')) :
    OrderInvariant state' (done ++ [section_]) ∧
      reader'.bytecode = section_.content.bytecode ∧ state'.cursors = state.cursors := by
  obtain ⟨moved, hmove, hparse⟩ := exists_of_bind_ok hparse
  obtain ⟨⟨parsed, reader₁⟩, hbody, hparse⟩ := exists_of_bind_ok hparse
  obtain ⟨skipped, t, rest, hexpected, htarget, hskipped, hmovedExpected, hmoved⟩ :=
    moveToTargetSection_ok hmove
  obtain ⟨hkeeps, hbytes, t', ht', -, hplaceholder, hcounts⟩ := parse_ok hbody
  obtain rfl := Option.some.inj (htarget.symm.trans ht')
  simp only [htarget] at hparse
  obtain ⟨acted, haction, hparse⟩ := exists_of_bind_ok hparse
  obtain ⟨hacted, hactedExpected⟩ := postSectionAction_ok haction
  obtain ⟨rfl, rfl⟩ := Prod.mk.inj (Except.ok.inj hparse)
  have hrest : acted.expectedSections.tail = rest := by
    rw [hactedExpected, show (LoopState.log parsed _).expectedSections = parsed.expectedSections
      from rfl, hkeeps.expectedSections_eq, hmovedExpected]
    rfl
  rw [hrest]
  exact ⟨h.snoc_ordered hexpected hskipped htarget hcustom hplaceholder hmoved hkeeps hcounts
    hacted, hbytes, hacted.cursors_eq.trans (hkeeps.cursors_eq.trans hmoved.cursors_eq)⟩

/-- A section that is refused because of the order. -/
theorem parseOrderedSection_error (h : OrderInvariant state done) {section_ : RawSection}
    (hcustom : section_.id ≠ 0)
    (hparse : parseOrderedSection parsers state section_ = .error e) (he : e.IsOrderError) :
    ¬((done ++ [section_]).filterMap RawSection.orderKey).Sublist (webAssemblyOrder ++ [0]) := by
  intro haccepted
  have hkey : section_.orderKey = some section_.id := by
    rw [RawSection.orderKey, if_neg (by simpa [RawSection.isCustom] using hcustom)]
  obtain ⟨-, t, ht, horder, hid⟩ := h.mem_expectedSections hkey haccepted
  have hall : ∀ t ∈ sectionOrder, t.orderKey ≠ 0 → SectionType.ofByte t.orderKey = some t ∧
      t ≠ .custom ∧ t ≠ .placeholder := by decide +kernel
  obtain ⟨htarget, hnotCustom, hplaceholder⟩ := hall t horder (by rwa [hid])
  rw [hid] at htarget
  rcases error_of_bind hparse with hmove | ⟨moved, -, hparse⟩
  · exact moveToTargetSection_error hmove he t htarget ht
  · rcases error_of_bind hparse with hbody | ⟨⟨parsed, reader₁⟩, -, hparse⟩
    · rw [htarget] at hbody
      exact parse_error hnotCustom hplaceholder hbody he
    · simp only [htarget] at hparse
      rcases error_of_bind hparse with haction | ⟨acted, -, hparse⟩
      · exact postSectionAction_error haction he
      · cases hparse

/-- The name of a custom section stays in the bytecode. -/
theorem readSectionName_ok {content : BytecodeReader} {sectionName : List UInt8}
    (h : readSectionName content = .ok (sectionName, reader')) :
    reader'.bytecode = content.bytecode := by
  obtain ⟨⟨length, reader₁⟩, hlength, h⟩ := exists_of_bind_ok h
  obtain ⟨reader₂, hstep, h⟩ := exists_of_bind_ok h
  obtain ⟨-, h⟩ := of_ite_throw_eq_ok h
  obtain ⟨-, rfl⟩ := Prod.mk.inj (Except.ok.inj h)
  exact (BytecodeReader.bytecode_of_step (ofBytecode_eq_ok hstep)).trans
    (BytecodeReader.bytecode_of_readUInt32 (ofBytecode_eq_ok hlength)).1

/-- The name of a custom section is no matter of the order. -/
theorem readSectionName_error {content : BytecodeReader}
    (h : readSectionName content = .error e) : ¬e.IsOrderError := by
  rcases error_of_bind h with h | ⟨⟨length, reader₁⟩, -, h⟩
  · exact not_isOrderError_of_ofBytecode h
  · rcases error_of_bind h with h | ⟨reader₂, -, h⟩
    · exact not_isOrderError_of_ofBytecode h
    · split at h
      · obtain rfl := Except.error.inj h
        decide
      · cases h

/-- A custom section. -/
theorem parseCustomSection_ok (h : OrderInvariant state done) {section_ : RawSection}
    (hcustom : section_.id = 0)
    (hparse : parseCustomSection parsers state section_ = .ok (state', reader')) :
    OrderInvariant state' (done ++ [section_]) ∧
      reader'.bytecode = section_.content.bytecode ∧ state'.cursors = state.cursors := by
  have hisCustom : section_.isCustom = true := by simpa [RawSection.isCustom] using hcustom
  obtain ⟨⟨sectionName, reader₁⟩, hreadName, hparse⟩ := exists_of_bind_ok hparse
  obtain ⟨⟨state₂, reader₂⟩, hbody, hparse⟩ := exists_of_bind_ok hparse
  obtain ⟨reader₃, hjump, hparse⟩ := exists_of_bind_ok hparse
  obtain ⟨rfl, rfl⟩ := Prod.mk.inj (Except.ok.inj hparse)
  have hbytes := readSectionName_ok hreadName
  have hbytes₃ := (BytecodeReader.bytecode_of_jumpTo (ofBytecode_eq_ok hjump)).1
  have hisName : section_.isName = (sectionName == nameSectionName) := by
    rw [RawSection.isName, hisCustom, hreadName, Bool.true_and]
  dsimp only at hbody
  split at hbody
  · next hname =>
      obtain ⟨hhandled, hbody⟩ := of_ite_throw_eq_ok hbody
      obtain ⟨moved, hmove, hbody⟩ := exists_of_bind_ok hbody
      obtain ⟨⟨state₄, reader₄⟩, hrun, hbody⟩ := exists_of_bind_ok hbody
      obtain ⟨rfl, rfl⟩ := Prod.mk.inj (Except.ok.inj hbody)
      obtain ⟨⟨compiler, rfl⟩, hbytes₄⟩ := run_ok hrun
      obtain ⟨skipped, t, rest, hexpected, htarget, -, hmovedExpected, hmoved⟩ :=
        moveToTargetSection_ok hmove
      obtain rfl := Option.some.inj htarget
      refine ⟨h.snoc_name (Bool.eq_false_of_not_eq_true hhandled) hexpected hisCustom
        (by simp [hisName, hname]) hmoved hmovedExpected rfl rfl rfl, ?_, hmoved.cursors_eq⟩
      exact hbytes₃.trans (hbytes₄.trans hbytes)
  · next hname =>
      obtain ⟨rfl, rfl⟩ := Prod.mk.inj (Except.ok.inj hbody)
      exact ⟨h.snoc_custom hisCustom (by simp [hisName, hname]), hbytes₃.trans hbytes, rfl⟩

/-- A name section that is refused because of the order. -/
theorem parseCustomSection_error (h : OrderInvariant state done) {section_ : RawSection}
    (hcustom : section_.id = 0)
    (hparse : parseCustomSection parsers state section_ = .error e) (he : e.IsOrderError) :
    ¬((done ++ [section_]).filterMap RawSection.orderKey).Sublist (webAssemblyOrder ++ [0]) := by
  intro haccepted
  have hisCustom : section_.isCustom = true := by simpa [RawSection.isCustom] using hcustom
  rcases error_of_bind hparse with hread | ⟨⟨sectionName, reader₁⟩, hreadName, hparse⟩
  · exact readSectionName_error hread he
  have hisName : section_.isName = (sectionName == nameSectionName) := by
    rw [RawSection.isName, hisCustom, hreadName, Bool.true_and]
  rcases error_of_bind hparse with hbody | ⟨⟨state₂, reader₂⟩, -, hparse⟩
  · dsimp only at hbody
    split at hbody
    · next hname =>
        have hkey : section_.orderKey = some 0 := by
          rw [RawSection.orderKey, hisCustom, hisName, hname]
          rfl
        obtain ⟨hhandled, t, ht, horder, hzero⟩ := h.mem_expectedSections hkey haccepted
        have hall : ∀ t ∈ sectionOrder, t.orderKey = 0 → t = .placeholder := by decide
        obtain rfl := hall t horder hzero
        rw [if_neg (by simp [hhandled])] at hbody
        rcases error_of_bind hbody with hmove | ⟨moved, -, hbody⟩
        · exact moveToTargetSection_error hmove he _ rfl ht
        · rcases error_of_bind hbody with hrun | ⟨⟨state₃, reader₃⟩, -, hbody⟩
          · exact run_error hrun he
          · cases hbody
    · cases hbody
  · rcases error_of_bind hparse with hjump | ⟨reader₃, -, hparse⟩
    · exact not_isOrderError_of_ofBytecode hjump he
    · cases hparse

/-- One turn of the loop: the cursor stands at the declared end of the section. -/
theorem parseSection_ok (h : OrderInvariant state done)
    (hparse : parseSection parsers state reader = .ok (state', reader')) :
    ∃ section_, readSectionHeader reader = .ok section_ ∧
      section_.content.jumpTo section_.sectionEnd = .ok reader' ∧
      reader'.remaining.length < reader.remaining.length ∧
      state'.cursors = state.cursors ++ [section_.sectionEnd] ∧
      OrderInvariant state' (done ++ [section_]) := by
  obtain ⟨section_, hheader, hparse⟩ := exists_of_bind_ok hparse
  obtain ⟨⟨state₁, reader₁⟩, hbody, hparse⟩ := exists_of_bind_ok hparse
  obtain ⟨hend, hparse⟩ := of_ite_throw_eq_ok hparse
  obtain ⟨rfl, rfl⟩ := Prod.mk.inj (Except.ok.inj hparse)
  have hsection : OrderInvariant state₁ (done ++ [section_]) ∧
      reader₁.bytecode = section_.content.bytecode ∧ state₁.cursors = state.cursors := by
    split at hbody
    · next hcustom =>
        exact parseCustomSection_ok h ((SectionType.ofByte_eq_custom_iff _).mp hcustom) hbody
    · next hcustom =>
        exact parseOrderedSection_ok h (mt (SectionType.ofByte_eq_custom_iff _).mpr hcustom) hbody
  obtain ⟨hbytes, hlt, hle⟩ := readSectionHeader_spec hheader
  have hptr := not_not.mp hend
  refine ⟨section_, hheader, ?_, ?_, by rw [hsection.2.2, hptr], hsection.1.withCursors _⟩
  · rw [← hptr]
    exact BytecodeReader.jumpTo_ptr hsection.2.1
  · have hlength := reader.ptr_add_length
    have hlength₁ := reader₁.ptr_add_length
    rw [hsection.2.1, hbytes] at hlength₁
    omega

/-- A turn of the loop that is refused because of the order. -/
theorem parseSection_error (h : OrderInvariant state done)
    (hparse : parseSection parsers state reader = .error e) (he : e.IsOrderError) :
    ∃ section_ next, readSectionHeader reader = .ok section_ ∧
      section_.content.jumpTo section_.sectionEnd = .ok next ∧
      ¬((done ++ [section_]).filterMap RawSection.orderKey).Sublist
        (webAssemblyOrder ++ [0]) := by
  rcases error_of_bind hparse with hheader | ⟨section_, hheader, hparse⟩
  · exact absurd he (readSectionHeader_error hheader)
  · obtain ⟨next, hnext⟩ := readSectionHeader_jumpTo hheader
    refine ⟨section_, next, hheader, hnext, ?_⟩
    rcases error_of_bind hparse with hbody | ⟨⟨state₁, reader₁⟩, -, hparse⟩
    · split at hbody
      · next hcustom =>
          exact parseCustomSection_error h ((SectionType.ofByte_eq_custom_iff _).mp hcustom) hbody
            he
      · next hcustom =>
          exact parseOrderedSection_error h (mt (SectionType.ofByte_eq_custom_iff _).mpr hcustom)
            hbody he
    · dsimp only at hparse
      split at hparse
      · obtain rfl := Except.error.inj hparse
        exact absurd he (by decide)
      · cases hparse

/-- **The loop**: it ends, either behind all sections, or with an error; with an order error only
at a section that the order does not accept. -/
theorem parseSections_spec (parsers : SectionParsers σ) (h : OrderInvariant state done) {fuel : ℕ}
    (hfuel : reader.remaining.length ≤ fuel) :
    (∃ state' sections last, parseSections parsers fuel state reader = some (.ok state') ∧
        SectionsFrom reader sections last ∧ last.remaining = [] ∧
        state'.cursors = state.cursors ++ sections.map (·.sectionEnd) ∧
        OrderInvariant state' (done ++ sections)) ∨
      ∃ e, parseSections parsers fuel state reader = some (.error e) ∧
        (e.IsOrderError → ∃ sections last, SectionsFrom reader sections last ∧
          ¬((done ++ sections).filterMap RawSection.orderKey).Sublist
            (webAssemblyOrder ++ [0])) := by
  induction fuel generalizing state reader done with
  | zero =>
      have hempty : reader.remaining = [] := List.length_eq_zero_iff.mp (Nat.le_zero.mp hfuel)
      refine .inl ⟨state, [], reader, ?_, .nil reader, hempty, (List.append_nil _).symm,
        by rwa [List.append_nil]⟩
      rw [parseSections, if_pos (by simp [BytecodeReader.hasNextByte, hempty])]
  | succ fuel ih =>
      rw [parseSections]
      split
      · next hnext =>
          have hempty : reader.remaining = [] := by
            simpa [BytecodeReader.hasNextByte] using hnext
          exact .inl ⟨state, [], reader, rfl, .nil reader, hempty, (List.append_nil _).symm,
            by rwa [List.append_nil]⟩
      · cases hsection : parseSection parsers state reader with
        | error e =>
            refine .inr ⟨e, rfl, fun he => ?_⟩
            obtain ⟨section_, next, hheader, hjump, hrefused⟩ := parseSection_error h hsection he
            exact ⟨[section_], next, .cons hheader hjump (.nil next), hrefused⟩
        | ok result =>
            obtain ⟨state₁, reader₁⟩ := result
            obtain ⟨section_, hheader, hjump, hlt, hcursors, hinvariant⟩ :=
              parseSection_ok h hsection
            have hfuel' : reader₁.remaining.length ≤ fuel := by omega
            dsimp only
            rcases ih hinvariant hfuel' with ⟨state', sections, last, hloop, hsections, hlast,
              hcursors', hinvariant'⟩ | ⟨e, hloop, hrefused⟩
            · rw [List.append_assoc] at hinvariant'
              rw [hcursors, List.append_assoc] at hcursors'
              exact .inl ⟨state', section_ :: sections, last, hloop,
                .cons hheader hjump hsections, hlast, hcursors', hinvariant'⟩
            · refine .inr ⟨e, hloop, fun he => ?_⟩
              obtain ⟨sections, last, hsections, hnot⟩ := hrefused he
              rw [List.append_assoc] at hnot
              exact ⟨section_ :: sections, last, .cons hheader hjump hsections, hnot⟩

/-- Writing trailing sections. -/
theorem serializeAll_ok {trailers : List Trailer}
    (h : serializeAll parsers trailers state = .ok state') :
    state'.events = state.events ++ trailers.map .trailer ∧ state'.cursors = state.cursors := by
  induction trailers generalizing state with
  | nil =>
      obtain rfl := Except.ok.inj h
      exact ⟨(List.append_nil _).symm, rfl⟩
  | cons first trailers ih =>
      obtain ⟨state₁, hupdate, h⟩ := exists_of_bind_ok h
      obtain ⟨compiler, rfl⟩ := update_ok hupdate
      obtain ⟨hevents, hcursors⟩ := ih h
      exact ⟨by simpa [LoopState.log] using hevents, hcursors⟩

/-- An error of a writer of a trailing section is no order error. -/
theorem serializeAll_error {trailers : List Trailer}
    (h : serializeAll parsers trailers state = .error e) : ¬e.IsOrderError := by
  induction trailers generalizing state with
  | nil => cases h
  | cons first trailers ih =>
      rcases error_of_bind h with h | ⟨state₁, -, h⟩
      · exact update_error h
      · exact ih h

/-- The placeholder is always expected. -/
theorem placeholder_mem_expectedSections (h : OrderInvariant state done) :
    .placeholder ∈ state.expectedSections := by
  have hlast := congrArg List.getLast? h.actions
  obtain ⟨front, last, hsplit⟩ : ∃ front last, state.expectedSections = front ++ [last] := by
    rcases List.eq_nil_or_concat state.expectedSections with hnil | ⟨front, last, hconcat⟩
    · exact absurd hnil h.expectedSections_ne
    · exact ⟨front, last, by rw [hconcat, List.concat_eq_append]⟩
  rw [hsplit, ← List.append_assoc, List.getLast?_concat] at hlast
  rw [hsplit, Option.some.inj hlast]
  simp

/-- What the ledger of an accepted module holds: every action once and in order, the action of
each section directly behind it, and every trailing section once. -/
structure CompleteLedger (state : LoopState σ) (sections : List RawSection) : Prop where
  actions : actionsOf state.events = sectionOrder.dropLast
  parsed : parsedOf state.events = sections.filterMap RawSection.sectionType?
  followed : ∀ t ∈ parsedOf state.events, [.section_ t, .action t] <:+: state.events
  trailers : trailersOf state.events = .functionNames :: trailers
  cursors : state.cursors = sections.map (·.sectionEnd)
  counts : declaredCount 3 sections = declaredCount 10 sections

/-- The end of a compilation. -/
theorem finish_ok (h : OrderInvariant state done)
    (hcursors : state.cursors = done.map (·.sectionEnd))
    (hfinish : finish parsers state = .ok state') :
    CompleteLedger state' done := by
  obtain ⟨moved, hmove, hfinish⟩ := exists_of_bind_ok hfinish
  obtain ⟨skipped, t, rest, hexpected, htarget, -, -, hmoved⟩ := moveToTargetSection_ok hmove
  obtain rfl := Option.some.inj htarget
  obtain ⟨hactions, hparsed, hfollowed, htrailers, -, -, hagree⟩ :=
    h.placeholder state hexpected rfl rfl hmoved
  obtain ⟨hevents, hcursors'⟩ := serializeAll_ok hfinish
  have hdrop : actionsOf moved.events = sectionOrder.dropLast := by
    rw [← hactions, List.dropLast_concat]
  refine ⟨?_, ?_, fun t ht => ?_, ?_, ?_, hagree⟩
  · rw [hevents, actionsOf_append, actionsOf_map_trailer, List.append_nil, hdrop]
  · rw [hevents, parsedOf_append, parsedOf_map_trailer, List.append_nil, hparsed]
  · rw [hevents] at ht ⊢
    rw [parsedOf_append, parsedOf_map_trailer, List.append_nil] at ht
    exact (hfollowed t ht).trans (List.prefix_append _ _).isInfix
  · rw [hevents, trailersOf_append, trailersOf_map_trailer, htrailers, h.trailers,
      hmoved.nameSectionHandled_eq]
    cases state.nameSectionHandled <;> rfl
  · rw [hcursors', hmoved.cursors_eq, hcursors]

/-- **The section loop**: it ends for every bytecode. A module that is accepted has its sections
in the order of the specification, the name section behind them; its ledger is complete, and the
parser of each section ends where the section ends. A module that is refused with an order error
starts with sections that are in another order, so that its sections as a whole are. -/
theorem startCompilation_order (parsers : SectionParsers σ) (compiler : σ)
    (reader : BytecodeReader) :
    (∃ state sections last, startCompilation parsers compiler reader = some (.ok state) ∧
        SectionsFrom reader sections last ∧ last.remaining = [] ∧
        InWebAssemblyOrder sections ∧ NameSectionLast sections ∧
        CompleteLedger state sections) ∨
      ∃ e, startCompilation parsers compiler reader = some (.error e) ∧
        (e.IsOrderError → (∃ sections last, SectionsFrom reader sections last ∧
            ¬(InWebAssemblyOrder sections ∧ NameSectionLast sections)) ∧
          ∀ sections last, SectionsFrom reader sections last → last.remaining = [] →
            ¬(InWebAssemblyOrder sections ∧ NameSectionLast sections)) := by
  rw [startCompilation]
  rcases parseSections_spec parsers (OrderInvariant.initial compiler)
    (Nat.le_refl reader.remaining.length) with ⟨state, sections, last, hloop, hsections, hlast,
      hcursors, hinvariant⟩ | ⟨e, hloop, hrefused⟩
  · rw [List.nil_append] at hinvariant
    rw [List.nil_append] at hcursors
    rw [hloop]
    cases hfinish : finish parsers state with
    | ok state' =>
        refine .inl ⟨state', sections, last, congrArg some hfinish, hsections, hlast, ?_⟩
        have horder := (hinvariant.order []).mpr (List.nil_sublist _)
        rw [List.append_nil, orderKeys_sublist_iff] at horder
        exact ⟨horder.1, horder.2, finish_ok hinvariant hcursors hfinish⟩
    | error e =>
        refine .inr ⟨e, congrArg some hfinish, fun he => ?_⟩
        rcases error_of_bind hfinish with hmove | ⟨moved, -, hserialize⟩
        · exact absurd (placeholder_mem_expectedSections hinvariant)
            (moveToTargetSection_error hmove he _ rfl)
        · exact absurd he (serializeAll_error hserialize)
  · rw [hloop]
    refine .inr ⟨e, rfl, fun he => ?_⟩
    obtain ⟨sections, last, hsections, hnot⟩ := hrefused he
    rw [List.nil_append, orderKeys_sublist_iff] at hnot
    refine ⟨⟨sections, last, hsections, hnot⟩, fun sections' last' hsections' hlast' horder => ?_⟩
    exact hnot (inOrder_of_first (hsections.prefix_of_complete hsections' hlast') horder)

/-- Parsers that do nothing but take the first byte of each section. -/
def trivialParsers : SectionParsers Unit where
  plain _ _ _ reader := .ok ((), reader.ptr + 1)
  imports _ reader := .ok (0, (), reader.ptr + 1)
  functionType _ reader := .ok ((), reader.ptr)
  codePreamble _ _ := .ok ()
  functionBody _ _ reader := .ok ((), reader.ptr)
  dataSegment _ reader := .ok ((), reader.ptr)
  functionNames _ _ reader := .ok ((), reader.ptr)
  initializePositions _ _ := .ok ()
  writeNumDataSegments _ _ := .ok ()
  serialize _ _ _ := .ok ()

/-- A module with an empty name section in front of an empty type section. -/
def nameFirstModule : BytecodeReader := ⟨[], [0, 5, 4, 0x6E, 0x61, 0x6D, 0x65, 1, 1, 0]⟩

/-- The two sections of the module. -/
def nameFirstSections : List RawSection :=
  [⟨0, ⟨[0, 5], [4, 0x6E, 0x61, 0x6D, 0x65, 1, 1, 0]⟩, 7⟩,
    ⟨1, ⟨[0, 5, 4, 0x6E, 0x61, 0x6D, 0x65, 1, 1], [0]⟩, 10⟩]

/-- Custom sections cannot be anywhere: the name section in front of another one is refused. -/
theorem nameFirstModule_refused :
    SectionsFrom nameFirstModule nameFirstSections ⟨nameFirstModule.remaining, []⟩ ∧
      InWebAssemblyOrder nameFirstSections ∧
      startCompilation trivialParsers () nameFirstModule =
        some (.error .duplicateSectionOrSectionsInWrongOrder) := by
  refine ⟨?_, by decide, by rfl⟩
  exact .cons (by rfl) (by rfl) (.cons (by rfl) (by rfl) (.nil _))

end SectionParsers

end WasmCompiler
