import WasmCompiler.BinaryRoundTrip

/-!
# The Readers of a Binary

What the functions of the runtime give for a binary that was written: each loop is a fold over
the records of the module, from the last to the first, and each search gives what the module
has.

## Main results

* `readers_exact`: the loops over the dynamic imports and the mutable globals, and the search for
  the name of a function.
* `findFunctionByExportedTableIndex_eq`: the function of a table element.
-/

namespace WasmCompiler

/-! ### Loops as folds -/

/-- The search for the name of a function looks at one name after the other. -/
theorem findName_eq {fncIndex : UInt32} {n : ℕ} {cursor cursor' : List UInt8}
    {functionNames : List FunctionName}
    (h : readBackward readFunctionName n cursor = .ok (functionNames, cursor')) :
    BinaryModule.findFunctionName.findName fncIndex n cursor =
      .ok ((functionNames.find? (·.functionIndex = fncIndex)).map (·.name)) := by
  induction n generalizing cursor functionNames with
  | zero =>
      obtain ⟨rfl, -⟩ := Prod.mk.inj (Except.ok.inj h)
      rfl
  | succ n ih =>
      obtain ⟨⟨functionName, cursor1⟩, hfirst, h⟩ := exists_of_bind_ok h
      obtain ⟨⟨rest, cursor2⟩, hrest, h⟩ := exists_of_bind_ok h
      obtain ⟨rfl, rfl⟩ := Prod.mk.inj (Except.ok.inj h)
      simp only [BinaryModule.findFunctionName.findName, hfirst, bind, Except.bind]
      by_cases hindex : functionName.functionIndex = fncIndex
      · simp [hindex]
      · rw [if_neg hindex, ih hrest, List.find?_cons_of_neg (by simpa using hindex)]

/-- An element of an array is where its index says. -/
theorem take_drop_flatMap {Rec : Type} {bytesOf : Rec → List UInt8} {width : ℕ}
    (hwidth : ∀ record, (bytesOf record).length = width) (after : List UInt8) :
    ∀ (records : List Rec) (i : ℕ) (record : Rec), records[i]? = some record →
      ((records.flatMap bytesOf ++ after).drop (width * i)).take width = bytesOf record
  | [], i, record, h => by simp at h
  | first :: records, 0, record, h => by
      obtain rfl : first = record := by simpa using h
      rw [Nat.mul_zero, List.drop_zero, List.flatMap_cons, List.append_assoc, ← hwidth first,
        List.take_left]
  | first :: records, i + 1, record, h => by
      have hrest := take_drop_flatMap hwidth after records i record (by simpa using h)
      have hdrop : width * (i + 1) = (bytesOf first).length + width * i := by
        rw [hwidth, Nat.mul_add, Nat.mul_one, Nat.add_comm]
      rw [List.flatMap_cons, List.append_assoc, hdrop, List.drop_length_add_append]
      exact hrest

/-! ### What the runtime does with a binary -/

/-- **The readers of a binary**: the dynamic imports are linked from the last to the first; the
iteration over the mutable globals gives the callback their cells in the link data, if the offsets
fit; and the name of a function is the last one there is for it, if all names are in one
subsection. -/
theorem readers_exact {options : CompilerOptions} {backend : EntryPoints options.target}
    {info : SerializedModule} {layout : BinaryLayout}
    (haccepted : serializeModule options backend info = .ok layout) :
    (∀ {State : Type} (link : State → DynamicImport → Except BinaryError State) (state : State),
      (layout.binaryModule options info).linkDynamicImports link state =
        info.dynamicImports.reverse.foldlM link state) ∧
    (OffsetsFit info.linkData.nonImportGlobals →
      ∀ {State : Type} (linkData : ℕ → UInt8) (callback : State → MachineType → List UInt8 → State)
        (state : State),
      (layout.binaryModule options info).iterateMutableGlobals linkData callback state =
        .ok (info.mutableGlobals.reverse.foldl (fun state g =>
          callback state g.type ((List.range g.type.getSize).map fun i =>
            linkData (g.linkDataOffset.toNat + i))) state)) ∧
    (info.NamesInLastSubSection options → ∀ fncIndex,
      (layout.binaryModule options info).findFunctionName fncIndex =
        .ok (((info.functionNames options).flatten.reverse.find?
          (·.functionIndex = fncIndex)).map (·.name))) := by
  have hs := serializeModule_ok haccepted
  refine ⟨fun link state => ?_, fun hfits _ linkData callback state => ?_, fun hlast fncIndex => ?_⟩
  · exact (serializeDynamicFunctionImportBinarySection_spec hs.dynamicImports).2.iterateSection_eq
      link state
  · have hglobals := (serializeMutableGlobals_spec hs.mutableGlobals).2
    have hsection : (layout.binaryModule options info).mutableGlobalsSectionEnd =
        contentEnd layout.mutableGlobals := rfl
    rw [(mutableGlobals_read_eq_iff info).mpr hfits] at hglobals
    rw [BinaryModule.iterateMutableGlobals, hsection, hglobals.iterateSection_eq,
      ← List.map_reverse]
    generalize info.mutableGlobals.reverse = globals
    induction globals generalizing state with
    | nil => rfl
    | cons g globals ih =>
        simp only [List.map_cons, List.foldlM_cons, List.foldl_cons, bind, Except.bind]
        exact ih _
  · obtain ⟨-, names, hnum, hvisits, hlength⟩ := serializeFunctionNames_spec hs.functionNames
    have hsection : (layout.binaryModule options info).functionNameSectionEnd =
        contentEnd layout.functionNames := rfl
    rw [← (numFunctionNames_eq_iff hlength).mpr hlast] at hvisits
    simp only [BinaryModule.findFunctionName, hsection, hnum, bind, Except.bind]
    exact findName_eq hvisits.walk

/-- The binary of the module exists, with its table. -/
theorem smallModule_accepted :
    ∃ layout element, serializeModule tracingOptions returningBackend smallModule = .ok layout ∧
      layout.functionExports.tableElements[(0 : UInt32).toNat]? = some element := by
  have haccepted : ((serializeModule tracingOptions returningBackend smallModule).toOption.bind
      fun layout => layout.functionExports.tableElements[(0 : UInt32).toNat]?).isSome = true := by
    decide +kernel
  cases hlayout : serializeModule tracingOptions returningBackend smallModule with
  | error e => simp [hlayout, Except.toOption] at haccepted
  | ok layout =>
      rw [hlayout] at haccepted
      obtain ⟨element, helement⟩ := Option.isSome_iff_exists.mp haccepted
      exact ⟨layout, element, rfl, helement⟩

/-- The name of the function of the module is found. -/
theorem readers_exact_smallModule : ∃ layout,
    serializeModule tracingOptions returningBackend smallModule = .ok layout ∧
      (layout.binaryModule tracingOptions smallModule).findFunctionName 0 =
        .ok (some [0x66]) := by
  obtain ⟨layout, -, hlayout, -⟩ := smallModule_accepted
  obtain ⟨-, -, hnames⟩ := readers_exact hlayout
  exact ⟨layout, hlayout, hnames (by decide) 0⟩

/-- **The function of a table element** is the one the frontend has noted, if there is one. -/
theorem findFunctionByExportedTableIndex_eq {options : CompilerOptions}
    {backend : EntryPoints options.target} {info : SerializedModule} {layout : BinaryLayout}
    (haccepted : serializeModule options backend info = .ok layout) {tableIndex : UInt32}
    {element : TableElement}
    (helement : layout.functionExports.tableElements[tableIndex.toNat]? = some element) :
    (layout.binaryModule options info).findFunctionByExportedTableIndex tableIndex =
      if element.exportWrapperOffset ≠ unknownValue then
        .ok (UInt32.ofNat layout.binary.length - element.exportWrapperOffset)
      else .error .functionNotFound := by
  have hs := serializeModule_ok haccepted
  obtain ⟨-, -, bytes, hbytes⟩ := hs.prefixes
  obtain ⟨-, hbound⟩ := prefix_of_serializeModuleMetadata hs.metadata
  obtain ⟨-, -, hsize⟩ := serializeExportedFunctionBinarySection_ok hs.exportedFunctions
  obtain ⟨hindex, hget⟩ := List.getElem?_eq_some_iff.mp helement
  have hwidth : ∀ element : TableElement, element.entryBytes.length = 4 :=
    fun _ => length_bytesLE _ _
  have hlt : tableIndex < UInt32.ofNat info.tableElements.length := by
    have hlength := congrArg List.length hbytes
    simp only [List.length_append, length_flatMap_of_eq hwidth] at hlength
    rw [UInt32.lt_iff_toNat_lt, toNat_ofNat_of_le (by omega)]
    omega
  have hread : (layout.binaryModule options info).readFromPtr32 layout.table
      (4 * tableIndex.toNat) = element.exportWrapperOffset := by
    have hlt' : element.exportWrapperOffset.toNat < 256 ^ 4 := element.exportWrapperOffset.toNat_lt
    have hbinary : (layout.binaryModule options info).moduleBinary = layout.table ++
        (layout.functionExports.tableElements.flatMap TableElement.entryBytes ++ bytes) := by
      rw [← List.append_assoc]
      exact hbytes.symm
    rw [BinaryModule.readFromPtr32, hbinary, List.drop_length_add_append,
      take_drop_flatMap hwidth _ _ _ _ helement, TableElement.entryBytes,
      ofBytesLE_bytesLE hlt', UInt32.ofNat_toNat]
  have htable : (layout.binaryModule options info).tableEntryFunctionsStart = layout.table := rfl
  simp only [BinaryModule.findFunctionByExportedTableIndex, htable, hread]
  exact if_pos hlt

/-- The element of the table of the module has no wrapper. -/
theorem findFunctionByExportedTableIndex_smallModule : ∃ layout, ∃ element : TableElement,
    serializeModule tracingOptions returningBackend smallModule = .ok layout ∧
      (layout.binaryModule tracingOptions smallModule).findFunctionByExportedTableIndex 0 =
        if element.exportWrapperOffset ≠ unknownValue then
          .ok (UInt32.ofNat layout.binary.length - element.exportWrapperOffset)
        else .error .functionNotFound := by
  obtain ⟨layout, element, hlayout, helement⟩ := smallModule_accepted
  exact ⟨layout, element, hlayout, findFunctionByExportedTableIndex_eq hlayout helement⟩

end WasmCompiler
