import WasmCompiler.BinaryRoundTrip
import WasmCompiler.ExportSection

/-!
# Looking up Exported Functions

The section with the exported functions has the functions that are exported by name, and behind
them those that can only be reached by an exported table; these have an empty name. The search
goes back over the section and compares the names, so it finds a function of the table for the
empty name, and the function of another name that is the same up to a zero.

## Main results

* `exportedFunctions_of_serialize`: what the section holds.
* `findsRecord_or_notFound`: what the search finds.
* `exportLookup_iff`: for which names the search and the duplicate check are right.
-/

namespace WasmCompiler

section

variable {target : JitTarget} {backend : EntryPoints target} {info : SerializedModule}
  {state state' : FunctionExports}

/-! ### The section -/

/-- What is written for a function: a wrapper that was emitted for it, and its signature. -/
structure EntryOf (backend : EntryPoints target) (info : SerializedModule) (fncIndex : UInt32)
    (f : ExportedFunction) : Prop where
  wrapper : ∃ output, backend.emitFunctionEntryPoint output fncIndex = .ok f.wrapper
  signature : (info.getFncSigIndex fncIndex >>= info.signature) = .ok f.signature

/-- An element of the table whose function has no wrapper yet. -/
def TableElement.NeedsWrapper (element : TableElement) : Prop :=
  element.exportWrapperOffset = unknownValue ∧ element.fncIndex ≠ unknownValue

/-- **One function**: its record, and where it is noted in the table. -/
theorem produceWrapper_ok {exportName : List UInt8} {fncIndex : UInt32} {isDirectExport : Bool}
    (h : produceWrapper backend info exportName fncIndex isDirectExport state = .ok state') :
    ∃ f functionEntryPointOffset, f.exportName = exportName ∧
      f.fncIndex = (if isDirectExport then fncIndex else unknownValue) ∧
      EntryOf backend info fncIndex f ∧ functionEntryPointOffset ≠ unknownValue ∧
      state'.exportedFunctions = state.exportedFunctions ++ [f] ∧
      state'.tableElements =
        if info.hasTable && info.tableIsExported then
          state.tableElements.map fun element =>
            if element.fncIndex = fncIndex then
              { element with exportWrapperOffset := functionEntryPointOffset }
            else element
        else state.tableElements := by
  obtain ⟨⟨wrapper, output1⟩, hwrapper, h⟩ := exists_of_bind_ok h
  obtain ⟨wrapper', hemit, hwrapper⟩ := exists_of_bind_ok hwrapper
  obtain ⟨output2, -, hpair⟩ := exists_of_bind_ok hwrapper
  obtain ⟨rfl, rfl⟩ := Prod.mk.inj (Except.ok.inj hpair)
  obtain ⟨sigIndex, hsigIndex, h⟩ := exists_of_bind_ok h
  obtain ⟨isBuiltin, -, h⟩ := exists_of_bind_ok h
  obtain ⟨-, h⟩ := of_ite_throw_eq_ok h
  obtain ⟨signature, hsignature, h⟩ := exists_of_bind_ok h
  obtain ⟨output3, -, h⟩ := exists_of_bind_ok h
  obtain ⟨output4, hname, h⟩ := exists_of_bind_ok h
  obtain rfl := Except.ok.inj h
  refine ⟨_, UInt32.ofNat output3.length, rfl, rfl, ⟨⟨_, hemit⟩, ?_⟩, ?_, rfl, rfl⟩
  · rw [hsigIndex]
    exact hsignature
  · obtain ⟨output5, hstring, hindex⟩ := exists_of_bind_ok hname
    have hlength := length_of_writeString hstring
    have hlength' := length_of_write32 hindex
    have hbound := memWriterAppend_length hindex
    intro heq
    have htoNat := congrArg UInt32.toNat heq
    rw [UInt32.toNat_ofNat', unknownValue] at htoNat
    simp only [UInt32.reduceToNat, uint32Max] at htoNat hbound
    omega

/-- The elements that need a wrapper after a function has one. -/
theorem exists_needsWrapper_map {elements : List TableElement} {fncIndex offset : UInt32}
    (hoffset : offset ≠ unknownValue) (p : UInt32 → Prop) :
    (∃ element ∈ elements.map fun element =>
        if element.fncIndex = fncIndex then { element with exportWrapperOffset := offset }
        else element, element.NeedsWrapper ∧ p element.fncIndex) ↔
      ∃ element ∈ elements, element.NeedsWrapper ∧ element.fncIndex ≠ fncIndex ∧
        p element.fncIndex := by
  simp only [List.mem_map]
  constructor
  · rintro ⟨-, ⟨element, hmem, rfl⟩, hneeds, hp⟩
    split at hneeds
    · exact absurd hneeds.1 hoffset
    · case _ hne =>
        rw [if_neg hne] at hp
        exact ⟨element, hmem, hneeds, hne, hp⟩
  · rintro ⟨element, hmem, hneeds, hne, hp⟩
    exact ⟨element, ⟨element, hmem, if_neg hne⟩, hneeds, hp⟩

/-- What is written for an export. -/
def RecordOf (backend : EntryPoints target) (info : SerializedModule) (moduleExport : ModuleExport)
    (f : ExportedFunction) : Prop :=
  f.exportName = moduleExport.exportName ∧ f.fncIndex = moduleExport.index ∧
    EntryOf backend info moduleExport.index f

/-- **The functions that are exported by name** are written in their order; then the elements of
an exported table need a wrapper whose functions were not among them. -/
theorem exportFunctions_ok {exports : List ModuleExport} (p : UInt32 → Prop)
    (h : exportFunctions backend info exports state = .ok state') :
    (∃ direct, state'.exportedFunctions = state.exportedFunctions ++ direct ∧
      List.Forall₂ (RecordOf backend info)
        (exports.filter fun moduleExport => moduleExport.exportType = .func) direct) ∧
      ((info.hasTable && info.tableIsExported) = true →
        ((∃ element ∈ state'.tableElements, element.NeedsWrapper ∧ p element.fncIndex) ↔
          ∃ element ∈ state.tableElements, element.NeedsWrapper ∧
            (∀ moduleExport ∈ exports, moduleExport.exportType = .func →
              moduleExport.index ≠ element.fncIndex) ∧ p element.fncIndex)) := by
  induction exports generalizing state with
  | nil =>
      obtain rfl := Except.ok.inj h
      exact ⟨⟨[], (List.append_nil _).symm, .nil⟩, fun _ => by simp⟩
  | cons moduleExport rest ih =>
      obtain ⟨state1, hfirst, hrest⟩ := exists_of_bind_ok h
      obtain ⟨⟨direct, hdirect, hrecords⟩, hneeds⟩ := ih hrest
      split at hfirst
      · case _ hfunc =>
          obtain ⟨f, offset, hname, hindex, hentry, hoffset, hexported, htable⟩ :=
            produceWrapper_ok hfirst
          refine ⟨⟨f :: direct, ?_, ?_⟩, fun hexport => ?_⟩
          · rw [hdirect, hexported, List.append_assoc, List.singleton_append]
          · rw [List.filter_cons_of_pos (by simpa using hfunc)]
            exact .cons ⟨hname, hindex, hentry⟩ hrecords
          · rw [hneeds hexport, htable, if_pos hexport, exists_needsWrapper_map hoffset fun i =>
              (∀ moduleExport ∈ rest, moduleExport.exportType = .func →
                moduleExport.index ≠ i) ∧ p i]
            simp only [List.forall_mem_cons, hfunc, forall_const, ne_eq, eq_comm, and_assoc]
      · case _ hfunc =>
          obtain rfl := Except.ok.inj hfirst
          refine ⟨⟨direct, hdirect, ?_⟩, fun hexport => ?_⟩
          · rwa [List.filter_cons_of_neg (by simpa using hfunc)]
          · rw [hneeds hexport]
            simp only [List.forall_mem_cons, hfunc, false_implies, true_and]

/-- A function that is only in the table. -/
def IsTableEntry (f : ExportedFunction) : Prop := f.exportName = [] ∧ f.fncIndex = unknownValue

/-- **The functions of the table** are written without a name; there are none if and only if no
element needs a wrapper. -/
theorem exportTableFunctions_ok {remaining : ℕ}
    (hlength : state.tableElements.length = info.tableElements.length)
    (h : exportTableFunctions backend info remaining state = .ok state') :
    ∃ entries, state'.exportedFunctions = state.exportedFunctions ++ entries ∧
      (∀ f ∈ entries, IsTableEntry f) ∧
      (entries = [] ↔ ∀ i element, info.tableElements.length ≤ i + remaining →
        state.tableElements[i]? = some element → ¬element.NeedsWrapper) := by
  induction remaining generalizing state with
  | zero =>
      obtain rfl := Except.ok.inj h
      refine ⟨[], (List.append_nil _).symm, by simp, iff_of_true rfl fun i element hi hget => ?_⟩
      rw [List.getElem?_eq_none (by omega)] at hget
      cases hget
  | succ remaining ih =>
      obtain ⟨state1, hfirst, hrest⟩ := exists_of_bind_ok h
      split at hfirst
      · cases hfirst
      · case _ element helement =>
          split at hfirst
          · case _ hno =>
              obtain rfl := Except.ok.inj hfirst
              obtain ⟨entries, hentries, htable, hiff⟩ := ih hlength hrest
              refine ⟨entries, hentries, htable, hiff.trans ⟨fun hnone i element' hi hget => ?_,
                fun hnone i element' hi hget => hnone i element' (by omega) hget⟩⟩
              rcases Nat.lt_or_ge (i + remaining) info.tableElements.length with hlt | hge
              · have hi' : i = info.tableElements.length - (remaining + 1) := by omega
                rw [hi', helement] at hget
                obtain rfl := Option.some.inj hget
                rintro ⟨hoffset, hindex⟩
                rcases hno with hset | hunknown
                · exact hset hoffset
                · exact hindex hunknown
              · exact hnone i element' hge hget
          · case _ hneeds =>
              obtain ⟨f, offset, hname, hindex, -, -, hexported, htable1⟩ := produceWrapper_ok hfirst
              have hlength1 : state1.tableElements.length = info.tableElements.length := by
                rw [htable1]
                split
                · rwa [List.length_map]
                · exact hlength
              obtain ⟨entries, hentries, htable, -⟩ := ih hlength1 hrest
              refine ⟨f :: entries, ?_, ?_, ?_⟩
              · rw [hentries, hexported, List.append_assoc, List.singleton_append]
              · intro g hg
                rcases List.mem_cons.mp hg with rfl | hg
                · exact ⟨hname, hindex⟩
                · exact htable g hg
              · refine iff_of_false nofun fun hnone => ?_
                rw [not_or, not_not] at hneeds
                exact hnone _ element (by omega) helement hneeds

/-- The table has functions that are exported by no name. -/
def SerializedModule.HasTableEntries (info : SerializedModule) : Prop :=
  (info.hasTable && info.tableIsExported) = true ∧ ∃ element ∈ info.tableElements,
    element.NeedsWrapper ∧ ∀ moduleExport ∈ info.exports, moduleExport.exportType = .func →
      moduleExport.index ≠ element.fncIndex

/-- **The section with the exported functions.** -/
theorem exportedFunctions_of_serialize {sectionStart : List UInt8}
    {functionExports : FunctionExports}
    (h : serializeExportedFunctionBinarySection backend info sectionStart = .ok functionExports) :
    ∃ direct entries, functionExports.exportedFunctions = direct ++ entries ∧
      List.Forall₂ (RecordOf backend info)
        (info.exports.filter fun moduleExport => moduleExport.exportType = .func) direct ∧
      (∀ f ∈ entries, IsTableEntry f) ∧ (entries = [] ↔ ¬info.HasTableEntries) := by
  obtain ⟨state1, hdirect, h⟩ := exists_of_bind_ok h
  obtain ⟨state2, htable, h⟩ := exists_of_bind_ok h
  obtain ⟨counted, -, h⟩ := exists_of_bind_ok h
  obtain ⟨body, -, h⟩ := exists_of_bind_ok h
  obtain rfl := Except.ok.inj h
  have hstart : ExportsWritten target info sectionStart ⟨sectionStart, info.tableElements, []⟩ :=
    ⟨rfl, by simp, rfl⟩
  obtain ⟨⟨direct, hexported, hrecords⟩, hneeds⟩ := exportFunctions_ok (fun _ => True) hdirect
  replace hexported : state1.exportedFunctions = direct := hexported
  split at htable
  · case _ hexport =>
      obtain ⟨entries, hentries, hnames, hiff⟩ :=
        exportTableFunctions_ok (hstart.exportFunctions hdirect).length_eq htable
      refine ⟨direct, entries, by rw [hentries, hexported], hrecords, hnames, hiff.trans ?_⟩
      have hneeds' := hneeds hexport
      simp only [and_true] at hneeds'
      rw [SerializedModule.HasTableEntries, ← hneeds']
      constructor
      · rintro hnone ⟨-, element, hmem, helement⟩
        obtain ⟨i, hi⟩ := List.getElem?_of_mem hmem
        exact hnone i element (Nat.le_add_left _ _) hi helement
      · intro hnone i element _ hget helement
        exact hnone ⟨hexport, element, List.mem_of_getElem? hget, helement⟩
  · case _ hexport =>
      obtain rfl := Except.ok.inj htable
      exact ⟨direct, [], by rw [hexported, List.append_nil], hrecords, by simp,
        iff_of_true rfl fun hentries => hexport hentries.1⟩

/-! ### The search -/

/-- The search for a name ends at the record with a number: it gives the signature, and the place
where the wrapper starts. -/
def FindsRecord (target : JitTarget) (binaryModule : BinaryModule) (sectionStart : List UInt8)
    (records : List ExportedFunction) (name : List UInt8) (k : ℕ) : Prop :=
  ∃ f fncPtr offset, records[k]? = some f ∧
    (records.take k).foldlM (writeExportedFunction target) sectionStart = .ok fncPtr ∧
    binaryModule.findExportedFunctionByName name = .ok offset ∧
    binaryModule.functionInfo offset = .ok (f.signature, fncPtr) ∧
    fncPtr ++ f.wrapper <+: binaryModule.moduleBinary

/-- The place where a wrapper starts determines the record. -/
theorem FindsRecord.unique {binaryModule : BinaryModule} {sectionStart name : List UInt8}
    {records : List ExportedFunction} {k k' : ℕ}
    (h : FindsRecord target binaryModule sectionStart records name k)
    (h' : FindsRecord target binaryModule sectionStart records name k') : k = k' := by
  have hlt : ∀ {k k' : ℕ} {fncPtr fncPtr' : List UInt8}, k < k' → k' ≤ records.length →
      (records.take k).foldlM (writeExportedFunction target) sectionStart = .ok fncPtr →
      (records.take k').foldlM (writeExportedFunction target) sectionStart = .ok fncPtr' →
      fncPtr.length < fncPtr'.length := by
    intro k k' fncPtr fncPtr' hlt hle hfirst hsecond
    have hsplit : records.take k' = records.take k ++ (records.take k').drop k := by
      conv_lhs => rw [← List.take_append_drop k (records.take k'), List.take_take,
        Nat.min_eq_left hlt.le]
    rw [hsplit, List.foldlM_append, hfirst] at hsecond
    have hlength := length_le_of_foldlM (fun _ _ _ => length_of_writeExportedFunction) hsecond
    rw [List.length_drop, List.length_take] at hlength
    omega
  obtain ⟨f, fncPtr, offset, hget, hfold, hfound, hinfo, -⟩ := h
  obtain ⟨f', fncPtr', offset', hget', hfold', hfound', hinfo', -⟩ := h'
  obtain rfl := Except.ok.inj (hfound.symm.trans hfound')
  obtain rfl := (Prod.mk.inj (Except.ok.inj (hinfo.symm.trans hinfo'))).2
  have hk := (List.getElem?_eq_some_iff.mp hget).1
  have hk' := (List.getElem?_eq_some_iff.mp hget').1
  rcases Nat.lt_trichotomy k k' with hless | heq | hless
  · exact absurd (hlt hless hk'.le hfold hfold') (Nat.lt_irrefl _)
  · exact heq
  · exact absurd (hlt hless hk.le hfold' hfold) (Nat.lt_irrefl _)

end

section

variable {options : CompilerOptions} {backend : EntryPoints options.target}
  {info : SerializedModule} {layout : BinaryLayout}

/-- **What the search finds**: nothing if no name matches, and otherwise the last record whose
name does. -/
theorem findsRecord_or_notFound (haccepted : serializeModule options backend info = .ok layout)
    (name : List UInt8) :
    match layout.functionExports.exportedFunctions.reverse.find?
        fun f => nameMatches name f.exportName with
    | none => (layout.binaryModule options info).findExportedFunctionByName name =
        .error .functionNotFound
    | some f => ∃ k, layout.functionExports.exportedFunctions[k]? = some f ∧
        FindsRecord options.target (layout.binaryModule options info) layout.exportedGlobals
          layout.functionExports.exportedFunctions name k := by
  have hs := serializeModule_ok haccepted
  obtain ⟨-, -, exportsBody, hew, hec, hen⟩ :=
    serializeExportedFunctionBinarySection_spec hs.exportedFunctions
  obtain ⟨-, hdvd, -⟩ := serializeExportedFunctionBinarySection_ok hs.exportedFunctions
  rw [hs.output_eq] at hec
  obtain ⟨hstatus, -, -⟩ := hs.prefixes
  obtain ⟨-, hlength⟩ := prefix_of_serializeModuleMetadata hs.metadata
  have hbody : exportsBody <+: layout.binary := (prefix_of_readNextValue32 hec).trans
    ((List.take_prefix _ _).trans ((List.prefix_append _ _).trans hstatus))
  have hsearch := searchFunction_of_written (layout.binaryModule options info)
    hdvd hew hec hen hbody hlength name
  split
  · case _ hnone =>
      rw [hnone] at hsearch
      exact hsearch
  · case _ f hsome =>
      rw [hsome] at hsearch
      obtain ⟨front, back, before, offset, hsplit, hfront, hfound, hinfo, hwrapper⟩ := hsearch
      have hget : layout.functionExports.exportedFunctions[front.length]? = some f := by
        rw [hsplit, List.getElem?_append_right (Nat.le_refl _), Nat.sub_self]
        rfl
      refine ⟨front.length, hget, f, before, offset, hget, ?_, hfound, hinfo, hwrapper⟩
      rw [hsplit, List.take_left]
      exact hfront

/-- A record for every element on the left. -/
theorem exists_of_forall₂_left {α β : Type} {R : α → β → Prop} {as : List α} {bs : List β}
    (h : List.Forall₂ R as bs) {a : α} (ha : a ∈ as) : ∃ b ∈ bs, R a b := by
  induction h with
  | nil => cases ha
  | cons hab _ ih =>
      rcases List.mem_cons.mp ha with rfl | ha
      · exact ⟨_, List.mem_cons_self, hab⟩
      · obtain ⟨b, hb, hab'⟩ := ih ha
        exact ⟨b, List.mem_cons_of_mem _ hb, hab'⟩

/-- An element on the left for every record. -/
theorem exists_of_forall₂_right {α β : Type} {R : α → β → Prop} {as : List α} {bs : List β}
    (h : List.Forall₂ R as bs) {b : β} (hb : b ∈ bs) : ∃ a ∈ as, R a b :=
  exists_of_forall₂_left h.flip hb

/-! ### Which names are looked up right -/

/-- The search for a name is right: a function that is exported under the name is found, by its
own record, and if there is none, nothing is found. -/
structure LookupRight (options : CompilerOptions) (backend : EntryPoints options.target)
    (info : SerializedModule) (layout : BinaryLayout) (binaryModule : BinaryModule)
    (name : List UInt8) : Prop where
  found : ∀ moduleExport ∈ info.exports, moduleExport.exportType = .func →
    moduleExport.exportName = name →
    ∃ k f, layout.functionExports.exportedFunctions[k]? = some f ∧
      RecordOf backend info moduleExport f ∧
      FindsRecord options.target binaryModule layout.exportedGlobals
        layout.functionExports.exportedFunctions name k
  notFound : (∀ moduleExport ∈ info.exports, moduleExport.exportType = .func →
    moduleExport.exportName ≠ name) →
    binaryModule.findExportedFunctionByName name = .error .functionNotFound

/-- The names that are looked up right: no function is exported under a name that is confused with
it, and the empty name is not that of functions of the table. -/
def LookupMeets (info : SerializedModule) (name : List UInt8) : Prop :=
  (∀ moduleExport ∈ info.exports, moduleExport.exportType = .func →
    ¬Confused moduleExport.exportName name) ∧ (name = [] → ¬info.HasTableEntries)

/-- Two exports that are accepted and whose names match are the same one. -/
theorem AcceptedExports.eq_of_nameMatches {context : ExportContext} {exports : List ModuleExport}
    (h : AcceptedExports context exports) {moduleExport moduleExport' : ModuleExport}
    (hmem : moduleExport ∈ exports) (hmem' : moduleExport' ∈ exports)
    (hmatches : nameMatches moduleExport.exportName moduleExport'.exportName = true) :
    moduleExport = moduleExport' := by
  by_contra hne
  have hsymm : Std.Symm fun iterated moduleExport : ModuleExport =>
      nameMatches moduleExport.exportName iterated.exportName = false := by
    constructor
    intro iterated moduleExport hfalse
    rw [Bool.eq_false_iff] at hfalse ⊢
    exact fun htrue => hfalse ((nameMatches_iff _ _).mpr
      (((nameMatches_iff _ _).mp htrue).imp Eq.symm Eq.symm))
  have hfalse := h.names.forall hmem' hmem (Ne.symm hne)
  rw [hmatches] at hfalse
  cases hfalse

/-- The largest number is no index of a function. -/
theorem AcceptedExports.index_ne {context : ExportContext} {exports : List ModuleExport}
    (h : AcceptedExports context exports) {moduleExport : ModuleExport}
    (hmem : moduleExport ∈ exports) (hfunc : moduleExport.exportType = .func) :
    moduleExport.index ≠ unknownValue := by
  intro heq
  have hlt := UInt32.lt_iff_toNat_lt.mp (h.functions moduleExport hmem hfunc)
  have hmax := context.numTotalFunctions.toNat_lt
  rw [heq, unknownValue] at hlt
  simp only [UInt32.reduceToNat] at hlt
  omega

/-- **The search for a name** is right if and only if the name is not confused with that of an
exported function, nor with that of the functions of the table. -/
theorem lookupRight_iff {context : ExportContext} (hexports : AcceptedExports context info.exports)
    (haccepted : serializeModule options backend info = .ok layout) (name : List UInt8) :
    LookupRight options backend info layout (layout.binaryModule options info) name ↔
      LookupMeets info name := by
  have hs := serializeModule_ok haccepted
  obtain ⟨direct, entries, hrecords, hdirect, htable, hentries⟩ :=
    exportedFunctions_of_serialize hs.exportedFunctions
  have hsearch := findsRecord_or_notFound haccepted name
  have hrecord : ∀ moduleExport ∈ info.exports, moduleExport.exportType = .func →
      ∃ f ∈ layout.functionExports.exportedFunctions, RecordOf backend info moduleExport f := by
    intro moduleExport hmem hfunc
    obtain ⟨f, hf, hof⟩ := exists_of_forall₂_left hdirect
      (List.mem_filter.mpr ⟨hmem, decide_eq_true hfunc⟩)
    exact ⟨f, by rw [hrecords]; exact List.mem_append_left _ hf, hof⟩
  -- what a record that matches leads to
  have hfound : ∀ f ∈ layout.functionExports.exportedFunctions,
      nameMatches name f.exportName = true →
      ∃ k g, layout.functionExports.exportedFunctions.reverse.find?
          (fun f => nameMatches name f.exportName) = some g ∧
        layout.functionExports.exportedFunctions[k]? = some g ∧
        FindsRecord options.target (layout.binaryModule options info) layout.exportedGlobals
          layout.functionExports.exportedFunctions name k := by
    intro f hf hmatches
    split at hsearch
    · case _ hnone =>
        rw [List.find?_eq_none] at hnone
        exact absurd hmatches (hnone f (List.mem_reverse.mpr hf))
    · case _ g hsome =>
        obtain ⟨k, hget, hfinds⟩ := hsearch
        exact ⟨k, g, hsome, hget, hfinds⟩
  constructor
  · intro hright
    have hexported : ∀ f ∈ layout.functionExports.exportedFunctions,
        nameMatches name f.exportName = true → ∃ moduleExport ∈ info.exports,
          moduleExport.exportType = .func ∧ moduleExport.exportName = name := by
      intro f hf hmatches
      by_contra hnone
      have herror := hright.notFound fun moduleExport hmem hfunc heq =>
        hnone ⟨moduleExport, hmem, hfunc, heq⟩
      obtain ⟨k, g, -, -, _, _, offset, -, -, hok, -⟩ := hfound f hf hmatches
      rw [herror] at hok
      cases hok
    refine ⟨fun moduleExport hmem hfunc hconfused => ?_, fun hempty hhas => ?_⟩
    · obtain ⟨f, hf, hname, -⟩ := hrecord moduleExport hmem hfunc
      obtain ⟨moduleExport', hmem', -, rfl⟩ := hexported f hf
        ((nameMatches_iff_eq_or_confused _ _).mpr (.inr (hname ▸ hconfused)))
      obtain rfl := hexports.eq_of_nameMatches hmem' hmem
        ((nameMatches_iff_eq_or_confused _ _).mpr (.inr hconfused))
      exact hconfused.1 rfl
    · subst hempty
      obtain ⟨front, last, rfl⟩ := (List.eq_nil_or_concat' entries).resolve_left
        fun hnil => (hentries.mp hnil) hhas
      obtain ⟨hlast, hindex⟩ := htable last (by simp)
      have hmem : last ∈ layout.functionExports.exportedFunctions := by rw [hrecords]; simp
      have hmatches : nameMatches [] last.exportName = true := by rw [hlast]; rfl
      obtain ⟨moduleExport, hexport, hfunc, hname⟩ := hexported last hmem hmatches
      obtain ⟨k, g, hsome, hget, hfinds⟩ := hfound last hmem hmatches
      obtain rfl : last = g := by
        rw [hrecords, ← List.append_assoc, List.reverse_append, List.reverse_singleton,
          List.singleton_append, List.find?_cons] at hsome
        simp only [hmatches] at hsome
        exact Option.some.inj hsome
      obtain ⟨k', f, hget', ⟨-, hfncIndex, -⟩, hfinds'⟩ :=
        hright.found moduleExport hexport hfunc hname
      obtain rfl := hfinds.unique hfinds'
      obtain rfl := Option.some.inj (hget.symm.trans hget')
      exact hexports.index_ne hexport hfunc (hfncIndex.symm.trans hindex)
  · rintro ⟨hconfused, hempty⟩
    have hexported : ∀ f ∈ layout.functionExports.exportedFunctions,
        nameMatches name f.exportName = true → ∃ moduleExport ∈ info.exports,
          moduleExport.exportType = .func ∧ moduleExport.exportName = name ∧
            RecordOf backend info moduleExport f := by
      intro f hf hmatches
      rw [nameMatches_iff_eq_or_confused] at hmatches
      rw [hrecords] at hf
      rcases List.mem_append.mp hf with hf | hf
      · obtain ⟨moduleExport, hmem, hof⟩ := exists_of_forall₂_right hdirect hf
        obtain ⟨hmem, hfunc⟩ := List.mem_filter.mp hmem
        refine ⟨moduleExport, hmem, of_decide_eq_true hfunc, ?_, hof⟩
        rcases hmatches with heq | hconf
        · exact hof.1.symm.trans heq
        · exact absurd (hof.1 ▸ hconf) (hconfused moduleExport hmem (of_decide_eq_true hfunc))
      · have hname : name = [] := by
          rcases hmatches with heq | hconf
          · rw [← heq, (htable f hf).1]
          · rw [← List.length_eq_zero_iff, ← hconf.2.1, (htable f hf).1]
            rfl
        rw [hentries.mpr (hempty hname)] at hf
        exact absurd hf List.not_mem_nil
    refine ⟨fun moduleExport hmem hfunc hname => ?_, fun hnone => ?_⟩
    · obtain ⟨f, hf, hof⟩ := hrecord moduleExport hmem hfunc
      obtain ⟨k, g, hsome, hget, hfinds⟩ := hfound f hf
        ((nameMatches_iff_eq_or_confused _ _).mpr (.inl (hof.1.trans hname)))
      have hmatches : nameMatches name g.exportName = true :=
        List.find?_some (p := fun f : ExportedFunction => nameMatches name f.exportName) hsome
      obtain ⟨moduleExport', hmem', -, hname', hof'⟩ :=
        hexported g (List.mem_of_getElem? hget) hmatches
      obtain rfl := hexports.eq_of_nameMatches hmem' hmem
        ((nameMatches_iff_eq_or_confused _ _).mpr (.inl (hname.trans hname'.symm)))
      exact ⟨k, g, hget, hof', hfinds⟩
    · split at hsearch
      · exact hsearch
      · case _ g hsome =>
          obtain ⟨moduleExport, hmem, hfunc, hname, -⟩ := hexported g
            (List.mem_reverse.mp (List.mem_of_find?_eq_some hsome))
            (List.find?_some (p := fun f : ExportedFunction => nameMatches name f.exportName) hsome)
          exact absurd hname (hnone moduleExport hmem hfunc)

/-- The exports of a module whose bytecode is accepted: there is no export section, or it is
parsed. -/
def SerializedModule.ExportsParsed (info : SerializedModule) : Prop :=
  info.exports = [] ∨ ∃ context size reader parsed reader',
    parseExportSection context size reader = .ok (parsed, reader') ∧ info.exports = parsed.exports

/-- The exports are accepted. -/
theorem SerializedModule.ExportsParsed.accepted (h : info.ExportsParsed) :
    ∃ context, AcceptedExports context info.exports := by
  rcases h with hnil | ⟨context, size, reader, parsed, reader', hparse, hexports⟩
  · rw [hnil]
    exact ⟨⟨0, 0, false, false⟩, fun _ hmem => absurd hmem List.not_mem_nil, .nil⟩
  · rw [hexports]
    exact ⟨context, acceptedExports_of_parseExportSection hparse⟩

/-- The duplicate check for a name is right: it finds the exports of this name. -/
def DuplicateCheckRight (exports : List ModuleExport) (exportName : List UInt8) : Prop :=
  isDuplicateExport exports exportName = true ↔
    ∃ iterated ∈ exports, iterated.exportName = exportName

instance (exports : List ModuleExport) (exportName : List UInt8) :
    Decidable (DuplicateCheckRight exports exportName) :=
  inferInstanceAs (Decidable (_ ↔ _))

/-- The duplicate check is right if and only if there is an export of this name, or none whose
name is confused with it. -/
theorem duplicateCheckRight_iff (exports : List ModuleExport) (exportName : List UInt8) :
    DuplicateCheckRight exports exportName ↔
      (∃ iterated ∈ exports, iterated.exportName = exportName) ∨
        ∀ iterated ∈ exports, ¬Confused iterated.exportName exportName := by
  have hmatches : isDuplicateExport exports exportName = true ↔ ∃ iterated ∈ exports,
      iterated.exportName = exportName ∨ Confused iterated.exportName exportName := by
    rw [isDuplicateExport_iff]
    exact exists_congr fun iterated => and_congr_right fun _ =>
      nameMatches_iff_eq_or_confused _ _
  rw [DuplicateCheckRight, hmatches]
  constructor
  · intro hright
    rw [or_iff_not_imp_right]
    intro hconfused
    push Not at hconfused
    obtain ⟨iterated, hmem, hconf⟩ := hconfused
    exact hright.mp ⟨iterated, hmem, .inr hconf⟩
  · rintro (⟨iterated, hmem, hname⟩ | hnone)
    · exact iff_of_true ⟨iterated, hmem, .inl hname⟩ ⟨iterated, hmem, hname⟩
    · refine exists_congr fun iterated => and_congr_right fun hmem => ?_
      exact or_iff_left (hnone iterated hmem)

/-- The binary module that the runtime reads is the one that was written. -/
theorem binaryModule_of_init (haccepted : serializeModule options backend info = .ok layout)
    {address : ℕ} {binaryModule : BinaryModule}
    (hinit : BinaryModule.init options.target address layout.binary = .ok binaryModule) :
    binaryModule = layout.binaryModule options info := by
  obtain ⟨_, haddress, _⟩ := exists_of_bind_ok hinit
  have hwritten := init_serializeModule haccepted haddress
  exact Except.ok.inj (hinit.symm.trans hwritten)

/-- **Looking up exports.** For every module that is accepted, the search for a name is right if
and only if the name is not confused with that of an exported function, and is not the empty name
of the functions of the table; the duplicate check is right if and only if there is an export of
the name, or none whose name is confused with it. -/
theorem exportLookup_iff (hparsed : info.ExportsParsed)
    (haccepted : serializeModule options backend info = .ok layout)
    {address : ℕ} {binaryModule : BinaryModule}
    (hinit : BinaryModule.init options.target address layout.binary = .ok binaryModule) :
    (∀ name, LookupRight options backend info layout binaryModule name ↔
      LookupMeets info name) ∧
    ∀ exports exportName, DuplicateCheckRight exports exportName ↔
      (∃ iterated ∈ exports, iterated.exportName = exportName) ∨
        ∀ iterated ∈ exports, ¬Confused iterated.exportName exportName := by
  obtain ⟨context, hexports⟩ := hparsed.accepted
  obtain rfl := binaryModule_of_init haccepted hinit
  exact ⟨lookupRight_iff hexports haccepted, duplicateCheckRight_iff⟩

end

/-- The export section of the small module: a function and a global. -/
def smallExportSection : BytecodeReader := ⟨[], [2, 1, 0x66, 0, 0, 1, 0x67, 3, 0]⟩

/-- The small module has the exports of its section. -/
theorem smallModule_exportsParsed : smallModule.ExportsParsed := by
  refine .inr ⟨⟨1, 1, true, true⟩, 0, smallExportSection, ⟨smallModule.exports, false, false⟩,
    ⟨smallExportSection.remaining, []⟩, ?_, rfl⟩
  decide +kernel

/-- The exports of the small module are looked up right. -/
theorem exportLookup_iff_smallModule :
    ∃ layout binaryModule, serializeModule tracingOptions returningBackend smallModule = .ok layout ∧
      BinaryModule.init .x86_64 0 layout.binary = .ok binaryModule ∧
      (∀ name, LookupRight tracingOptions returningBackend smallModule layout binaryModule name ↔
        LookupMeets smallModule name) ∧
      ∀ exports exportName, DuplicateCheckRight exports exportName ↔
        (∃ iterated ∈ exports, iterated.exportName = exportName) ∨
          ∀ iterated ∈ exports, ¬Confused iterated.exportName exportName := by
  have haccepted :
      (serializeModule tracingOptions returningBackend smallModule).toOption.isSome = true := by
    decide +kernel
  cases hlayout : serializeModule tracingOptions returningBackend smallModule with
  | error e => simp [hlayout, Except.toOption] at haccepted
  | ok layout =>
      have haddress : tracingOptions.target.checkAlignment 0 = .ok () := rfl
      have hinit := init_serializeModule hlayout haddress
      exact ⟨layout, _, rfl, hinit, exportLookup_iff smallModule_exportsParsed hlayout hinit⟩

/-- A module whose function is exported under a name with a zero. -/
def zeroNameModule : SerializedModule :=
  { smallModule with exports := [⟨[0x61, 0, 0x62], .func, 0⟩] }

/-- The function is found under another name, and this name is taken for a duplicate. -/
theorem zeroName_confused :
    ∃ layout, zeroNameModule.ExportsParsed ∧
      serializeModule tracingOptions returningBackend zeroNameModule = .ok layout ∧
      ¬LookupRight tracingOptions returningBackend zeroNameModule layout
        (layout.binaryModule tracingOptions zeroNameModule) [0x61, 0, 0x63] ∧
      ¬DuplicateCheckRight zeroNameModule.exports [0x61, 0, 0x63] := by
  have hconfused : Confused [0x61, 0, 0x62] [0x61, 0, 0x63] := by decide
  have hparsed : zeroNameModule.ExportsParsed := by
    refine .inr ⟨⟨1, 1, true, true⟩, 0, ⟨[], [1, 3, 0x61, 0, 0x62, 0, 0]⟩,
      ⟨zeroNameModule.exports, false, false⟩, ⟨[1, 3, 0x61, 0, 0x62, 0, 0], []⟩, ?_, rfl⟩
    decide +kernel
  have haccepted :
      (serializeModule tracingOptions returningBackend zeroNameModule).toOption.isSome = true := by
    decide +kernel
  obtain ⟨context, hexports⟩ := hparsed.accepted
  cases hlayout : serializeModule tracingOptions returningBackend zeroNameModule with
  | error e => simp [hlayout, Except.toOption] at haccepted
  | ok layout =>
      refine ⟨layout, hparsed, rfl, ?_, by decide⟩
      rw [lookupRight_iff hexports hlayout]
      rintro ⟨hnone, -⟩
      exact hnone _ List.mem_cons_self rfl hconfused

end WasmCompiler
