import WasmCompiler.BinarySections

/-!
# The Binary Layout Round Trip

What the frontend writes behind the code is what `BinaryModule::init` and the functions of the
runtime find: the boundaries of all sections and the numbers of the metadata, and in every
section the records in the opposite order, from its end exactly to its start. There are three
exceptions. The number of data segments may be one of a data count section without a data
section, the number of function names is the one of the last subsection that has any, and the
offset of a mutable global is cut to 16 bits.

## Main results

* `init_serializeModule`: `BinaryModule::init` finds what was written.
* `roundTrips_iff`: when every reader visits exactly the records that were written.
-/

namespace WasmCompiler

/-! ### What is to be found -/

/-- Where the landing pad is, counted from the start of the binary: a landing pad that was not
emitted is in front of it. -/
def SerializedModule.landingPadAddress (info : SerializedModule) (options : CompilerOptions) :
    Option ℤ :=
  if options.linearMemoryBoundsChecks then none
  else some (if info.landingPad = unknownValue then -1 else info.landingPad.toNat)

/-- What `BinaryModule::init` has to find in a binary. -/
def BinaryLayout.binaryModule (options : CompilerOptions) (info : SerializedModule)
    (layout : BinaryLayout) : BinaryModule where
  moduleBinary := layout.binary
  moduleBinaryLength := UInt32.ofNat (layout.binary.length - 4)
  stacktraceEntryCount := options.stacktraceRecordCount
  debugMode := options.debugMode
  landingPadAddress := info.landingPadAddress options
  linkDataLength := info.linkData.linkDataLength
  tableEntryFunctionsStart := layout.table
  tableSize := UInt32.ofNat info.tableElements.length
  tableStart := layout.linkStatus
  linkStatusStart := layout.exportedFunctions
  exportedFunctionsEnd := contentEnd layout.exportedFunctions
  exportedGlobalsEnd := contentEnd layout.exportedGlobals
  initialMemorySize := info.initialMemorySize
  dynamicallyImportedFunctionsSectionEnd := contentEnd layout.dynamicImports
  mutableGlobalsSectionEnd := contentEnd layout.mutableGlobals
  startFunctionBinaryOffset :=
    if info.startFunctionIndex.isSome then
      UInt32.ofNat (layout.binary.length - (contentEnd layout.startFunction).length)
    else 0xFFFFFFFF
  functionNameSectionEnd := contentEnd layout.functionNames
  numDataSegments := info.dataModule.numDataSegments
  dataSegmentsEnd := contentEnd layout.dataSection

/-- The sections of a layout, each written behind the one in front of it. -/
structure BinaryLayout.Serialized (options : CompilerOptions)
    (backend : EntryPoints options.target) (info : SerializedModule) (layout : BinaryLayout) :
    Prop where
  dataSection : parseDataSection info.dataModule info.functionBodies = .ok layout.dataSection
  functionNames : serializeFunctionNames options info.nameSection layout.dataSection =
    .ok layout.functionNames
  startFunction : serializeStartFunctionSection backend info layout.functionNames =
    .ok layout.startFunction
  mutableGlobals : serializeMutableGlobals info layout.startFunction = .ok layout.mutableGlobals
  dynamicImports : serializeDynamicFunctionImportBinarySection info layout.mutableGlobals =
    .ok layout.dynamicImports
  memory : serializeMemoryBinarySection info layout.dynamicImports = .ok layout.memory
  exportedGlobals : serializeExportedGlobalsBinarySection info layout.memory =
    .ok layout.exportedGlobals
  exportedFunctions : serializeExportedFunctionBinarySection backend info layout.exportedGlobals =
    .ok layout.functionExports
  output_eq : layout.functionExports.output = layout.exportedFunctions
  linkStatus : serializeLinkStatusSection info layout.exportedFunctions = .ok layout.linkStatus
  table : serializeTableBinarySection info layout.linkStatus
    layout.functionExports.tableElements = .ok layout.table
  tableEntryFunctions : serializeTableEntryFunctionWrapperSection layout.table
    layout.functionExports.tableElements = .ok layout.tableEntryFunctions
  metadata : serializeModuleMetadataBinarySection options info layout.tableEntryFunctions =
    .ok layout.binary

/-- The sections are written one behind the other. -/
theorem serializeModule_ok {options : CompilerOptions} {backend : EntryPoints options.target}
    {info : SerializedModule} {layout : BinaryLayout}
    (h : serializeModule options backend info = .ok layout) :
    layout.Serialized options backend info := by
  obtain ⟨dataSection, hdata, h⟩ := exists_of_bind_ok h
  obtain ⟨functionNames, hnames, h⟩ := exists_of_bind_ok h
  obtain ⟨startFunction, hstart, h⟩ := exists_of_bind_ok h
  obtain ⟨mutableGlobals, hglobals, h⟩ := exists_of_bind_ok h
  obtain ⟨dynamicImports, himports, h⟩ := exists_of_bind_ok h
  obtain ⟨memory, hmemory, h⟩ := exists_of_bind_ok h
  obtain ⟨exportedGlobals, hexportedGlobals, h⟩ := exists_of_bind_ok h
  obtain ⟨functionExports, hexports, h⟩ := exists_of_bind_ok h
  obtain ⟨linkStatus, hstatus, h⟩ := exists_of_bind_ok h
  obtain ⟨table, htable, h⟩ := exists_of_bind_ok h
  obtain ⟨tableEntryFunctions, hentries, h⟩ := exists_of_bind_ok h
  obtain ⟨binary, hmetadata, h⟩ := exists_of_bind_ok h
  obtain rfl := Except.ok.inj h
  exact ⟨hdata, hnames, hstart, hglobals, himports, hmemory, hexportedGlobals, hexports, rfl,
    hstatus, htable, hentries, hmetadata⟩

/-! ### Metadata -/

/-- The number of stacktrace records and the debug mode are found. -/
theorem stacktraceEntry_spec (options : CompilerOptions) :
    options.stacktraceEntry &&& 0x7FFFFFFF = options.stacktraceRecordCount ∧
      decide (options.stacktraceEntry &&& 0x80000000 ≠ 0) = options.debugMode := by
  have hle := UInt32.le_iff_toNat_le.mp options.count_le
  simp only [UInt32.reduceToNat] at hle
  have hlow : options.stacktraceRecordCount &&& 0x7FFFFFFF = options.stacktraceRecordCount := by
    refine UInt32.toNat_inj.mp ?_
    rw [UInt32.toNat_and]
    exact (Nat.and_two_pow_sub_one_eq_mod _ 31).trans (Nat.mod_eq_of_lt (by omega))
  have hdistrib : ∀ a b c : UInt32, (a ||| b) &&& c = (a &&& c) ||| (b &&& c) := by
    intro a b c
    exact congrArg UInt32.ofBitVec BitVec.and_or_distrib_right
  have hnone : options.stacktraceRecordCount &&& 0x80000000 = 0 := by
    rw [← hlow, UInt32.and_assoc]
    exact UInt32.and_zero
  have hflag : (0x80000000 : UInt32) &&& 0x7FFFFFFF = 0 := by decide
  simp only [CompilerOptions.stacktraceEntry, hlow, hdistrib, hnone]
  cases options.debugMode with
  | true => simp [hflag]
  | false => simp

/-- The landing pad is found behind the length of the link data. -/
theorem landingPad_spec (options : CompilerOptions) (info : SerializedModule) {size : ℕ}
    (hsize : size + 4 ≤ uint32Max) (hle : info.functionBodies.length ≤ size) :
    (let offset : UInt32 := if options.linearMemoryBoundsChecks then 0xFFFFFFFF
        else UInt32.ofNat size - info.landingPad
      if offset ≠ 0xFFFFFFFF then some ((size : ℤ) - offset.toNat) else none) =
      info.landingPadAddress options := by
  simp only [SerializedModule.landingPadAddress]
  simp only [uint32Max] at hsize
  have hnat : (UInt32.ofNat size).toNat = size := toNat_ofNat_of_le (by simp [uint32Max]; omega)
  cases options.linearMemoryBoundsChecks with
  | true => simp
  | false =>
      simp only [Bool.false_eq_true, if_false]
      rcases info.landingPad_le with hunknown | hknown
      · have hoffset : (UInt32.ofNat size - info.landingPad).toNat = size + 1 := by
          rw [hunknown, UInt32.toNat_sub, hnat]
          simp only [unknownValue, UInt32.reduceToNat]
          omega
        have hne : UInt32.ofNat size - info.landingPad ≠ 0xFFFFFFFF := by
          intro heq
          rw [heq] at hoffset
          simp only [UInt32.reduceToNat] at hoffset
          omega
        rw [if_pos hne, if_pos hunknown, hoffset]
        exact congrArg some (by omega)
      · have hlt := info.landingPad.toNat_lt
        have hoffset : (UInt32.ofNat size - info.landingPad).toNat =
            size - info.landingPad.toNat := by
          rw [UInt32.toNat_sub, hnat]
          omega
        have hne : UInt32.ofNat size - info.landingPad ≠ 0xFFFFFFFF := by
          intro heq
          rw [heq] at hoffset
          simp only [UInt32.reduceToNat] at hoffset
          omega
        have hknown' : info.landingPad ≠ unknownValue := by
          intro heq
          rw [heq] at hknown
          simp only [unknownValue, UInt32.reduceToNat] at hknown
          omega
        rw [if_pos hne, if_neg hknown', hoffset]
        exact congrArg some (by omega)

/-- The metadata are appended. -/
theorem prefix_of_serializeModuleMetadata {options : CompilerOptions}
    {info : SerializedModule} {output binary : List UInt8}
    (h : serializeModuleMetadataBinarySection options info output = .ok binary) :
    output <+: binary ∧ binary.length ≤ uint32Max := by
  obtain ⟨s4, h4, h⟩ := exists_of_bind_ok h
  obtain ⟨s3, h3, h⟩ := exists_of_bind_ok h
  obtain ⟨s2, h2, h⟩ := exists_of_bind_ok h
  obtain ⟨s1, h1, h0⟩ := exists_of_bind_ok h
  have hwrite : ∀ {output output' : List UInt8} {source : UInt32},
      memWriterWrite32 output source = .ok output' → output <+: output' :=
    fun h => memWriterWrite32_ok h ▸ List.prefix_append _ _
  exact ⟨(((hwrite h4).trans (hwrite h3)).trans (hwrite h2)).trans ((hwrite h1).trans (hwrite h0)),
    memWriterAppend_length h0⟩

/-- **The metadata** are found. -/
theorem serializeModuleMetadataBinarySection_spec {options : CompilerOptions}
    {info : SerializedModule} {output binary : List UInt8}
    (hle : info.functionBodies.length ≤ output.length)
    (h : serializeModuleMetadataBinarySection options info output = .ok binary) :
    ∃ s1 s2 s3 s4 offset, readNextValue32 binary = .ok (UInt32.ofNat (binary.length - 4), s1) ∧
      readNextValue32 s1 = .ok (versionNumber, s2) ∧
      readNextValue32 s2 = .ok (options.stacktraceEntry, s3) ∧
      readNextValue32 s3 = .ok (offset, s4) ∧
      (if offset ≠ 0xFFFFFFFF then some ((s4.length : ℤ) - offset.toNat) else none) =
        info.landingPadAddress options ∧
      readNextValue32 s4 = .ok (info.linkData.linkDataLength, output) := by
  obtain ⟨s4, h4, h⟩ := exists_of_bind_ok h
  obtain ⟨s3, h3, h⟩ := exists_of_bind_ok h
  obtain ⟨s2, h2, h⟩ := exists_of_bind_ok h
  obtain ⟨s1, h1, h0⟩ := exists_of_bind_ok h
  have hbound := memWriterAppend_length h0
  have l0 := length_of_write32 h0
  have l1 := length_of_write32 h1
  have l2 := length_of_write32 h2
  have l3 := length_of_write32 h3
  have l4 := length_of_write32 h4
  refine ⟨s1, s2, s3, s4, _, ?_, readNextValue32_write h1, readNextValue32_write h2,
    readNextValue32_write h3, landingPad_spec options info (by omega) (by omega),
    readNextValue32_write h4⟩
  rw [readNextValue32_write h0, l0, Nat.add_sub_cancel]

/-! ### Finding the sections -/

section

variable {options : CompilerOptions} {backend : EntryPoints options.target}
  {info : SerializedModule} {layout : BinaryLayout}

/-- The exported globals that are looked up are well formed. -/
theorem exportedGlobals_wellFormed {exports : List ModuleExport} {globals : List ExportedGlobal}
    (h : exportedGlobals info exports = .ok globals) : ∀ g ∈ globals, g.WellFormed := by
  induction exports generalizing globals with
  | nil =>
      obtain rfl := Except.ok.inj h
      simp
  | cons moduleExport rest ih =>
      simp only [exportedGlobals] at h
      split at h
      · obtain ⟨globalDef, -, h⟩ := exists_of_bind_ok h
        cases hrest : exportedGlobals info rest with
        | error e => simp [hrest, Except.map] at h
        | ok others =>
            simp only [hrest, Except.map] at h
            obtain rfl := Except.ok.inj h
            intro g hg
            rcases List.mem_cons.mp hg with rfl | hg
            · exact globalDef.exported_wellFormed _
            · exact ih hrest g hg
      · exact ih h

/-- An exported global takes at least four bytes. -/
theorem length_of_writeExportedGlobal {output output' : List UInt8} {g : ExportedGlobal}
    (h : writeExportedGlobal output g = .ok output') : output.length + 4 ≤ output'.length := by
  rw [writeExportedGlobal_eq] at h
  obtain ⟨output1, hinfo, hname⟩ := exists_of_bind_ok h
  have happends : Appends (writeGlobalInfo · g) :=
    (Appends.append _).bind ((Appends.append _).bind ((Appends.append _).bind (.append _)))
  obtain ⟨bytes, rfl, -⟩ := happends _ _ hinfo
  have := length_of_writeString hname
  simp only [List.length_append] at this
  omega

/-- A dynamically linked import takes at least four bytes. -/
theorem length_of_writeDynamicImport {output output' : List UInt8} {d : DynamicImport}
    (h : writeDynamicImport output d = .ok output') : output.length + 4 ≤ output'.length := by
  obtain ⟨output1, hoffset, h⟩ := exists_of_bind_ok h
  obtain ⟨output2, hsignature, h⟩ := exists_of_bind_ok h
  obtain ⟨output3, hsymbol, hmodule⟩ := exists_of_bind_ok h
  have h1 := length_of_write32 hoffset
  have h2 := length_of_writeString hsignature
  have h3 := length_of_writeString hsymbol
  have h4 := length_of_writeString hmodule
  omega

/-- The exported globals are looked up and written. -/
theorem serializeExportedGlobalsBinarySection_spec {output output' : List UInt8}
    (h : serializeExportedGlobalsBinarySection info output = .ok output') :
    ∃ globals, exportedGlobals info info.exports = .ok globals ∧
      FoundSection output output' ∧
      VisitsSection readExportedGlobal (contentEnd output') output globals.reverse ∧
      ∃ body, globals.foldlM writeExportedGlobal output = .ok body ∧
        readNextValue32 (contentEnd output') = .ok (UInt32.ofNat globals.length, body) ∧
        (UInt32.ofNat globals.length).toNat = globals.length := by
  obtain ⟨globals, hglobals, hsection⟩ := exists_of_bind_ok h
  have hwf := exportedGlobals_wellFormed hglobals
  have hspec := writeSection_spec (fun g hg => readsBack_exportedGlobal (hwf g hg))
    appends_exportedGlobal (fun _ _ _ => length_of_writeExportedGlobal) hsection
  rw [List.map_id] at hspec
  exact ⟨globals, hglobals, hspec⟩

/-- The dynamically linked imports are written. -/
theorem serializeDynamicFunctionImportBinarySection_spec {output output' : List UInt8}
    (h : serializeDynamicFunctionImportBinarySection info output = .ok output') :
    FoundSection output output' ∧
      VisitsSection readDynamicImport (contentEnd output') output info.dynamicImports.reverse := by
  obtain ⟨hfound, hvisits, -⟩ := writeSection_spec
    (fun d _ => readsBack_dynamicImport d) appends_dynamicImport
    (fun _ _ _ => length_of_writeDynamicImport) h
  rw [List.map_id] at hvisits
  exact ⟨hfound, hvisits⟩

/-- The exported functions are written. -/
theorem serializeExportedFunctionBinarySection_spec {output : List UInt8}
    {functionExports : FunctionExports}
    (h : serializeExportedFunctionBinarySection backend info output = .ok functionExports) :
    FoundSection output functionExports.output ∧
      VisitsSection readExportedFunction (contentEnd functionExports.output) output
        functionExports.exportedFunctions.reverse ∧
      ∃ body, functionExports.exportedFunctions.foldlM
          (writeExportedFunction options.target) output = .ok body ∧
        readNextValue32 (contentEnd functionExports.output) =
          .ok (UInt32.ofNat functionExports.exportedFunctions.length, body) ∧
        (UInt32.ofNat functionExports.exportedFunctions.length).toNat =
          functionExports.exportedFunctions.length := by
  obtain ⟨hsection, hdvd, -⟩ := serializeExportedFunctionBinarySection_ok h
  have hspec := writeSection_spec (fun f hf => readsBack_exportedFunction (hdvd f hf))
    (appends_exportedFunction options.target) (fun _ _ _ => length_of_writeExportedFunction)
    hsection
  rw [List.map_id] at hspec
  exact hspec

/-- **`BinaryModule::init` finds what was written**, if the binary is where it may be. -/
theorem init_serializeModule (h : serializeModule options backend info = .ok layout)
    {address : ℕ} (haddress : options.target.checkAlignment address = .ok ()) :
    BinaryModule.init options.target address layout.binary =
      .ok (layout.binaryModule options info) := by
  have hs := serializeModule_ok h
  obtain ⟨hdata, -, d0, e0⟩ := parseDataSection_spec hs.dataSection
  obtain ⟨⟨⟨n1, hnames⟩, d1, e1⟩, -⟩ := serializeFunctionNames_spec hs.functionNames
  obtain ⟨n2, hstart, ⟨d2, e2⟩, hpos, -⟩ := serializeStartFunctionSection_spec hs.startFunction
  obtain ⟨⟨⟨n3, hglobals⟩, d3, e3⟩, -⟩ := serializeMutableGlobals_spec hs.mutableGlobals
  obtain ⟨⟨⟨n4, himports⟩, d4, e4⟩, -⟩ :=
    serializeDynamicFunctionImportBinarySection_spec hs.dynamicImports
  have hmemory := readNextValue32_write hs.memory
  have e5 := memWriterWrite32_ok hs.memory
  obtain ⟨globals, -, ⟨⟨n6, hexportedGlobals⟩, d6, e6⟩, -⟩ :=
    serializeExportedGlobalsBinarySection_spec hs.exportedGlobals
  obtain ⟨⟨⟨n7, hexports⟩, d7, e7⟩, -⟩ :=
    serializeExportedFunctionBinarySection_spec hs.exportedFunctions
  rw [hs.output_eq] at hexports e7
  obtain ⟨-, -, helements⟩ := serializeExportedFunctionBinarySection_ok hs.exportedFunctions
  obtain ⟨padded, hstatus, hstatus1, hstatus2, d8, e8⟩ :=
    serializeLinkStatusSection_spec hs.linkStatus
  obtain ⟨e9, htable, htable'⟩ := serializeTableBinarySection_spec hs.table
  obtain ⟨e10, hentries, hentries'⟩ :=
    serializeTableEntryFunctionWrapperSection_spec hs.tableEntryFunctions
  have hle : info.functionBodies.length ≤ layout.tableEntryFunctions.length := by
    rw [e10, e9, e8, e7, e6, e5, e4, e3, e2, e1, e0]
    simp only [List.length_append]
    omega
  obtain ⟨s1, s2, s3, s4, offset, h1, h2, h3, h4, hlanding, h5⟩ :=
    serializeModuleMetadataBinarySection_spec hle hs.metadata
  obtain ⟨hcount, hdebug⟩ := stacktraceEntry_spec options
  have hoffset : (if n2 > 0 then
      UInt32.ofNat (layout.binary.length - (contentEnd layout.startFunction).length)
      else 0xFFFFFFFF) = (layout.binaryModule options info).startFunctionBinaryOffset := by
    simp only [BinaryLayout.binaryModule, hpos]
  simp only [BinaryModule.init, haddress, h1, h2, h3, h4, h5, hentries, hentries', htable, htable',
    hstatus, hstatus1, hstatus2, hexports, hexportedGlobals, hmemory, himports, hglobals, hstart,
    hnames, hdata, bind, Except.bind, ne_eq, not_true_eq_false, if_false, hoffset]
  simp only [ne_eq] at hlanding hdebug
  rw [hlanding, hcount, hdebug, helements]
  rfl

/-- The parts of the binary that are read forwards, and where the exports are in it. -/
theorem BinaryLayout.Serialized.prefixes (hs : layout.Serialized options backend info) :
    layout.exportedFunctions ++ info.linkStatus <+: layout.binary ∧
      layout.linkStatus ++
        layout.functionExports.tableElements.flatMap info.tableEntryBytes <+: layout.binary ∧
      layout.table ++
        layout.functionExports.tableElements.flatMap TableElement.entryBytes <+: layout.binary := by
  obtain ⟨hmetadata, -⟩ := prefix_of_serializeModuleMetadata hs.metadata
  obtain ⟨-, -, -, -, d8, e8⟩ := serializeLinkStatusSection_spec hs.linkStatus
  obtain ⟨e9, -⟩ := serializeTableBinarySection_spec hs.table
  obtain ⟨e10, -⟩ := serializeTableEntryFunctionWrapperSection_spec hs.tableEntryFunctions
  have hentries : layout.table ++
      layout.functionExports.tableElements.flatMap TableElement.entryBytes <+:
        layout.tableEntryFunctions := e10 ▸ List.prefix_append _ _
  have htable : layout.linkStatus ++
      layout.functionExports.tableElements.flatMap info.tableEntryBytes <+: layout.table :=
    e9 ▸ List.prefix_append _ _
  have hstatus : layout.exportedFunctions ++ info.linkStatus <+: layout.linkStatus :=
    e8 ▸ List.prefix_append _ _
  have hentries' := hentries.trans hmetadata
  have htable' := htable.trans ((List.prefix_append _ _).trans hentries')
  exact ⟨hstatus.trans ((List.prefix_append _ _).trans htable'), htable', hentries'⟩

/-- The number in front of the cursor is behind the new one. -/
theorem prefix_of_readNextValue32 {cursor cursor' : List UInt8} {n : UInt32}
    (h : readNextValue32 cursor = .ok (n, cursor')) : cursor' <+: cursor := by
  simp only [readNextValue32, pSubI, takeBack] at h
  split at h
  · case _ hsome =>
      split at hsome
      · obtain rfl := Option.some.inj hsome
        obtain ⟨-, rfl⟩ := Prod.mk.inj (Except.ok.inj h)
        exact List.take_prefix _ _
      · simp at hsome
  · simp [Except.map] at h

/-! ### Searching for exports -/

/-- A cursor of the binary is found again by its distance from the end. -/
theorem cursorOfOffset_offsetOfCursor {binaryModule : BinaryModule} {cursor : List UInt8}
    (hcursor : cursor <+: binaryModule.moduleBinary)
    (hlength : binaryModule.moduleBinary.length ≤ uint32Max) :
    binaryModule.cursorOfOffset (binaryModule.offsetOfCursor cursor) = .ok cursor := by
  obtain ⟨bytes, hbytes⟩ := hcursor
  rw [BinaryModule.cursorOfOffset, BinaryModule.offsetOfCursor, ← hbytes]
  rw [← hbytes, List.length_append] at hlength
  refine skipBack_append ?_
  rw [List.length_append, toNat_ofNat_of_le (by omega)]
  omega

/-- A record is written behind the ones in front of it. -/
theorem foldlM_split {Rec : Type} {write : List UInt8 → Rec → Except BinaryError (List UInt8)}
    (happends : ∀ record, Appends (write · record)) {front back : List Rec} {record : Rec}
    {output before output' : List UInt8}
    (h : (front ++ record :: back).foldlM write output = .ok output')
    (hfront : front.foldlM write output = .ok before) :
    ∃ output1, write before record = .ok output1 ∧ output1 <+: output' := by
  rw [List.foldlM_append, hfront] at h
  have hrest : (record :: back).foldlM write before = .ok output' := h
  rw [List.foldlM_cons] at hrest
  obtain ⟨output1, hrecord, hback⟩ := exists_of_bind_ok hrest
  obtain ⟨bytes, rfl, -⟩ := Appends.foldlM happends _ _ _ hback
  exact ⟨output1, hrecord, List.prefix_append _ _⟩

/-- What a search for an exported function has to give: the function that was written last
among those with the name, with its signature and its wrapper. -/
def BinaryModule.FindsFunction (binaryModule : BinaryModule)
    (exportedFunctions : List ExportedFunction) (name : List UInt8) : Prop :=
  match exportedFunctions.reverse.find? fun f => nameMatches name f.exportName with
  | none => binaryModule.findExportedFunctionByName name = .error .functionNotFound
  | some f => ∃ offset fncPtr, binaryModule.findExportedFunctionByName name = .ok offset ∧
      binaryModule.functionInfo offset = .ok (f.signature, fncPtr) ∧
      fncPtr ++ f.wrapper <+: binaryModule.moduleBinary

/-- What a search for an exported global has to give. -/
def BinaryModule.FindsGlobal (binaryModule : BinaryModule) (globals : List ExportedGlobal)
    (name : List UInt8) : Prop :=
  match globals.reverse.find? fun g => nameMatches name g.exportName with
  | none => binaryModule.findExportedGlobalByName name = .error .globalNotFound
  | some g => ∃ offset cursor, binaryModule.findExportedGlobalByName name = .ok offset ∧
      binaryModule.cursorOfOffset offset = .ok cursor ∧
      (readGlobalInfo cursor).map (·.1) = .ok (g.signatureType, g.isMutable, g.payload)

/-- The code of a function is behind its start. -/
theorem prefix_of_writeFunctionInfo {target : JitTarget} {output output' : List UInt8}
    {f : ExportedFunction} (h : writeFunctionInfo target output f = .ok output') :
    output ++ f.wrapper <+: output' := by
  obtain ⟨output1, hblob, hsignature⟩ := exists_of_bind_ok h
  obtain ⟨output2, hcode, hpadding⟩ := exists_of_bind_ok hblob
  obtain rfl := memWriterAppend_ok hcode
  have happends : Appends fun output => memWriterAppend output
      (execPadding target (deltaToNextPow2 (UInt32.ofNat f.wrapper.length) 2)) >>= fun output =>
      memWriterWrite32 output (UInt32.ofNat f.wrapper.length) := (Appends.append _).bind (.write32 _)
  obtain ⟨bytes, rfl, -⟩ := happends _ _ hpadding
  obtain ⟨bytes', rfl, -⟩ := Appends.string _ _ _ hsignature
  rw [List.append_assoc]
  exact List.prefix_append _ _

/-- The search for an exported function: it ends at the last record with the name, behind the
records in front of it. -/
theorem searchFunction_of_written (binaryModule : BinaryModule)
    {exportedFunctions : List ExportedFunction} {output body : List UInt8} {target : JitTarget}
    (hdvd : ∀ f ∈ exportedFunctions, target.instructionSize ∣ f.wrapper.length)
    (hwritten : exportedFunctions.foldlM (writeExportedFunction target) output = .ok body)
    (hcount : readNextValue32 binaryModule.exportedFunctionsEnd =
      .ok (UInt32.ofNat exportedFunctions.length, body))
    (hnat : (UInt32.ofNat exportedFunctions.length).toNat = exportedFunctions.length)
    (hbody : body <+: binaryModule.moduleBinary)
    (hlength : binaryModule.moduleBinary.length ≤ uint32Max) (name : List UInt8) :
    match exportedFunctions.reverse.find? fun f => nameMatches name f.exportName with
    | none => binaryModule.findExportedFunctionByName name = .error .functionNotFound
    | some f => ∃ front back before offset, exportedFunctions = front ++ f :: back ∧
        front.foldlM (writeExportedFunction target) output = .ok before ∧
        binaryModule.findExportedFunctionByName name = .ok offset ∧
        binaryModule.functionInfo offset = .ok (f.signature, before) ∧
        before ++ f.wrapper <+: binaryModule.moduleBinary := by
  have hfind := findBackward_of_searchable
    (fun key : UInt32 × List UInt8 => nameMatches name key.2) BinaryError.functionNotFound
    (fun f hf => searchable_exportedFunction (hdvd f hf)) hwritten
  simp only [BinaryModule.findExportedFunctionByName, hcount, bind, Except.bind, hnat]
  split
  · case _ hnone =>
      rw [hnone] at hfind
      rw [hfind]
      rfl
  · case _ f hsome =>
      rw [hsome] at hfind
      obtain ⟨front, back, before, keyStart, rfl, hfront, hinfo, hfound⟩ := hfind
      obtain ⟨output1, hrecord, hbefore⟩ :=
        foldlM_split (appends_exportedFunction target) hwritten hfront
      have hkey : keyStart <+: output1 := by
        obtain ⟨keyStart', hinfo', hname⟩ := exists_of_bind_ok hrecord
        obtain rfl : keyStart = keyStart' := Except.ok.inj (hinfo.symm.trans hinfo')
        obtain ⟨bytes, rfl, -⟩ := ((Appends.string _).bind (.write32 _)) _ _ hname
        exact List.prefix_append _ _
      have hcursor := hkey.trans (hbefore.trans hbody)
      rw [hfound]
      refine ⟨front, back, before, _, rfl, hfront, rfl, ?_,
        (prefix_of_writeFunctionInfo hinfo).trans hcursor⟩
      have hdvd' := hdvd f (by simp)
      simp only [BinaryModule.functionInfo, cursorOfOffset_offsetOfCursor hcursor hlength, bind,
        Except.bind, readFunctionInfo_write hdvd' hinfo, Except.map]

/-- **The search for an exported function.** -/
theorem findsFunction_of_written {binaryModule : BinaryModule}
    {exportedFunctions : List ExportedFunction} {output body : List UInt8} {target : JitTarget}
    (hdvd : ∀ f ∈ exportedFunctions, target.instructionSize ∣ f.wrapper.length)
    (hwritten : exportedFunctions.foldlM (writeExportedFunction target) output = .ok body)
    (hcount : readNextValue32 binaryModule.exportedFunctionsEnd =
      .ok (UInt32.ofNat exportedFunctions.length, body))
    (hnat : (UInt32.ofNat exportedFunctions.length).toNat = exportedFunctions.length)
    (hbody : body <+: binaryModule.moduleBinary)
    (hlength : binaryModule.moduleBinary.length ≤ uint32Max) (name : List UInt8) :
    binaryModule.FindsFunction exportedFunctions name := by
  have hsearch := searchFunction_of_written binaryModule hdvd hwritten hcount hnat hbody hlength name
  rw [BinaryModule.FindsFunction]
  split
  · case _ hnone =>
      rw [hnone] at hsearch
      exact hsearch
  · case _ f hsome =>
      rw [hsome] at hsearch
      obtain ⟨front, back, before, offset, -, -, hfound, hinfo, hwrapper⟩ := hsearch
      exact ⟨offset, before, hfound, hinfo, hwrapper⟩

/-- **The search for an exported global.** -/
theorem findsGlobal_of_written {binaryModule : BinaryModule} {globals : List ExportedGlobal}
    {output body : List UInt8} (hwf : ∀ g ∈ globals, g.WellFormed)
    (hwritten : globals.foldlM writeExportedGlobal output = .ok body)
    (hcount : readNextValue32 binaryModule.exportedGlobalsEnd =
      .ok (UInt32.ofNat globals.length, body))
    (hnat : (UInt32.ofNat globals.length).toNat = globals.length)
    (hbody : body <+: binaryModule.moduleBinary)
    (hlength : binaryModule.moduleBinary.length ≤ uint32Max) (name : List UInt8) :
    binaryModule.FindsGlobal globals name := by
  have hfind := findBackward_of_searchable (nameMatches name) BinaryError.globalNotFound
    (fun g hg => searchable_exportedGlobal (hwf g hg)) hwritten
  simp only [BinaryModule.FindsGlobal, BinaryModule.findExportedGlobalByName, hcount, bind,
    Except.bind, hnat]
  split
  · case _ hnone =>
      rw [hnone] at hfind
      rw [hfind]
      rfl
  · case _ g hsome =>
      rw [hsome] at hfind
      obtain ⟨front, back, before, keyStart, rfl, hfront, hinfo, hfound⟩ := hfind
      obtain ⟨output1, hrecord, hbefore⟩ := foldlM_split appends_exportedGlobal hwritten hfront
      have hkey : keyStart <+: output1 := by
        rw [writeExportedGlobal_eq] at hrecord
        obtain ⟨keyStart', hinfo', hname⟩ := exists_of_bind_ok hrecord
        obtain rfl : keyStart = keyStart' := Except.ok.inj (hinfo.symm.trans hinfo')
        obtain ⟨bytes, rfl, -⟩ := Appends.string _ _ _ hname
        exact List.prefix_append _ _
      have hcursor := hkey.trans (hbefore.trans hbody)
      rw [hfound]
      refine ⟨_, keyStart, rfl, cursorOfOffset_offsetOfCursor hcursor hlength, ?_⟩
      rw [readGlobalInfo_write (hwf g (by simp)) hinfo]
      rfl

/-! ### The round trip -/

/-- **The round trip of a binary**: `BinaryModule::init` finds the sections and numbers that were
written, and every reader visits the records of its section in the opposite order, from the end
of the section to its start, without reading anything in front of it. -/
structure RoundTrips (options : CompilerOptions) (backend : EntryPoints options.target)
    (info : SerializedModule) (layout : BinaryLayout) : Prop where
  init : ∀ address, options.target.checkAlignment address = .ok () →
    BinaryModule.init options.target address layout.binary =
      .ok (layout.binaryModule options info)
  dataSegments : Visits readDataSegment info.dataModule.numDataSegments.toNat
    (contentEnd layout.dataSection) info.functionBodies
    (info.dataModule.segments.map DataSegment.read).reverse
  functionNames : VisitsSection readFunctionName (contentEnd layout.functionNames)
    layout.dataSection (info.functionNames options).flatten.reverse
  startFunction : match info.startFunctionIndex with
    | none => contentEnd layout.startFunction = layout.functionNames
    | some startFunctionIndex => ∃ wrapper signature,
        backend.emitFunctionEntryPoint layout.functionNames startFunctionIndex = .ok wrapper ∧
        (info.getFncSigIndex startFunctionIndex >>= info.signature) = .ok signature ∧
        Visits readFunctionInfo 1 (contentEnd layout.startFunction) layout.functionNames
          [(signature, wrapper)]
  mutableGlobals : VisitsSection readMutableGlobal (contentEnd layout.mutableGlobals)
    layout.startFunction (info.mutableGlobals.map GlobalDef.written).reverse
  dynamicImports : VisitsSection readDynamicImport (contentEnd layout.dynamicImports)
    layout.mutableGlobals info.dynamicImports.reverse
  exportedGlobals : ∃ globals, exportedGlobals info info.exports = .ok globals ∧
    VisitsSection readExportedGlobal (contentEnd layout.exportedGlobals) layout.memory
      globals.reverse ∧
    ∀ name, (layout.binaryModule options info).FindsGlobal globals name
  exportedFunctions : VisitsSection readExportedFunction (contentEnd layout.exportedFunctions)
    layout.exportedGlobals layout.functionExports.exportedFunctions.reverse
  findsFunction : ∀ name, (layout.binaryModule options info).FindsFunction
    layout.functionExports.exportedFunctions name
  linkStatus : layout.exportedFunctions ++ info.linkStatus <+: layout.binary
  table : layout.linkStatus ++
    layout.functionExports.tableElements.flatMap info.tableEntryBytes <+: layout.binary
  tableEntryFunctions : layout.table ++
    layout.functionExports.tableElements.flatMap TableElement.entryBytes <+: layout.binary

/-- A data count section that counts segments is followed by a data section. The largest number
stands for a number that is not known. -/
def DataModule.HasCountedSegments (module_ : DataModule) : Prop :=
  module_.dataSection = none → ∀ n, module_.dataCount = some n → n = 0 ∨ n = numDataSegmentsUnset

/-- If stacktraces are recorded, all function names of the name section are in its last
subsection with function names. -/
def SerializedModule.NamesInLastSubSection (info : SerializedModule) (options : CompilerOptions) :
    Prop :=
  (info.functionNames options).dropLast.flatten = []

instance (info : SerializedModule) (options : CompilerOptions) :
    Decidable (info.NamesInLastSubSection options) :=
  inferInstanceAs (Decidable (_ = _))

/-- The records on the way through a section are determined. -/
theorem VisitsSection.records_unique {View : Type}
    {read : List UInt8 → Except BinaryError (View × List UInt8)}
    {sectionEnd sectionStart : List UInt8} {records records' : List View}
    (h : VisitsSection read sectionEnd sectionStart records)
    (h' : VisitsSection read sectionEnd sectionStart records') : records = records' := by
  obtain ⟨n, cursor, hnum, hvisits⟩ := h
  obtain ⟨n', cursor', hnum', hvisits'⟩ := h'
  obtain ⟨rfl, rfl⟩ := Prod.mk.inj (Except.ok.inj (hnum.symm.trans hnum'))
  exact hvisits.records_unique hvisits'

/-- The number of data segments is right if counted segments are there. -/
theorem numDataSegments_eq_iff {module_ : DataModule}
    (hlength : module_.segments.length < uint32Max) :
    module_.numDataSegments.toNat = module_.segments.length ↔ module_.HasCountedSegments := by
  simp only [DataModule.HasCountedSegments, DataModule.numDataSegments, DataModule.segments]
    at hlength ⊢
  cases hsection : module_.dataSection with
  | some segments =>
      simp only [hsection, Option.getD_some] at hlength ⊢
      have hnat : (UInt32.ofNat segments.length).toNat = segments.length :=
        toNat_ofNat_of_le (by omega)
      have hne : UInt32.ofNat segments.length ≠ numDataSegmentsUnset := by
        intro heq
        rw [heq] at hnat
        simp only [numDataSegmentsUnset, UInt32.reduceToNat, uint32Max] at hnat hlength
        omega
      simp [hne, hnat]
  | none =>
      simp only [Option.getD_none, List.length_nil, forall_const, DataModule.countedDataSegments]
      rcases Option.eq_none_or_eq_some module_.dataCount with hcount | ⟨n, hcount⟩
      · simp [hcount]
      · simp only [hcount, Option.getD_some, Option.some.injEq, forall_eq']
        split
        · case _ hunset => simp [hunset]
        · case _ hset =>
            simp only [hset, or_false]
            exact ⟨fun hzero => UInt32.toNat_inj.mp hzero, fun hzero => by simp [hzero]⟩

/-- The number of function names is right if they all are in the last subsection. -/
theorem numFunctionNames_eq_iff
    (hlength : (info.functionNames options).flatten.length ≤ uint32Max) :
    (info.numFunctionNames options).toNat = (info.functionNames options).flatten.length ↔
      info.NamesInLastSubSection options := by
  simp only [SerializedModule.numFunctionNames, SerializedModule.NamesInLastSubSection]
  rcases List.eq_nil_or_concat (info.functionNames options) with hnil | ⟨front, last, hconcat⟩
  · simp [hnil]
  · rw [hconcat, List.concat_eq_append] at hlength ⊢
    simp only [List.flatten_append, List.length_append, List.flatten_cons, List.flatten_nil,
      List.append_nil] at hlength ⊢
    simp only [List.getLast?_append, List.getLast?_singleton, Option.some_or, Option.map_some,
      Option.getD_some, List.dropLast_append_of_ne_nil (by simp : [last] ≠ []),
      List.dropLast_singleton, List.append_nil]
    rw [toNat_ofNat_of_le (by omega), ← List.length_eq_zero_iff]
    omega

/-- The lower half of an offset is the offset if it fits. -/
theorem mutableGlobals_read_eq_iff (info : SerializedModule) :
    info.mutableGlobals.map GlobalDef.read = info.mutableGlobals.map GlobalDef.written ↔
      OffsetsFit info.linkData.nonImportGlobals := by
  have hoffset : ∀ g : GlobalDef, g.linkDataOffset.toUInt16.toNat =
      g.linkDataOffset.toNat % 65536 := fun g => UInt32.toNat_toUInt16 _
  have hfits : ∀ g : GlobalDef, g.read = g.written ↔ g.linkDataOffset < 65536 := by
    intro g
    rw [GlobalDef.read, GlobalDef.written, UInt32.lt_iff_toNat_lt, hoffset]
    simp only [MutableGlobal.mk.injEq, true_and, and_true, UInt32.reduceToNat]
    omega
  rw [List.map_inj_left]
  simp only [SerializedModule.mutableGlobals, List.mem_filter, hfits, OffsetsFit, and_imp]

/-- A data segment takes at least four bytes. -/
theorem length_of_parseDataSegment {module_ : DataModule} {output output' : List UInt8}
    {segment : DataSegment} (h : parseDataSegment module_ output segment = .ok output') :
    output.length + 4 ≤ output'.length := by
  obtain ⟨-, -, hwrite⟩ := parseDataSegment_ok h
  obtain ⟨data, rfl, -, -⟩ := writeDataSegment_ok hwrite
  simp only [List.length_append, length_bytesLE]
  omega

/-- There are fewer segments than bytes. -/
theorem parseDataSection_length {module_ : DataModule} {output output' : List UInt8}
    (h : parseDataSection module_ output = .ok output') :
    module_.segments.length < uint32Max := by
  simp only [parseDataSection] at h
  simp only [DataModule.segments]
  split at h
  · case _ segments hsection =>
      rw [hsection]
      split at h
      · simp at h
      · obtain ⟨body, hsegments, hcount⟩ := exists_of_bind_ok h
        rw [parseDataSegments_eq_foldlM] at hsegments
        have hbound := memWriterAppend_length hcount
        have hlength := length_le_of_foldlM (fun _ _ _ => length_of_parseDataSegment) hsegments
        have hcounted := length_of_write32 hcount
        simp only [Option.getD_some]
        omega
  · case _ hsection =>
      rw [hsection]
      decide

/-- **The binary layout round trip**: whatever the frontend serialises is found by the runtime,
section by section and record by record, if and only if a data count section that counts
segments is followed by a data section, all function names are in one subsection, and the
offsets of the mutable globals fit in 16 bits. -/
theorem roundTrips_iff (haccepted : serializeModule options backend info = .ok layout) :
    RoundTrips options backend info layout ↔ info.dataModule.HasCountedSegments ∧
      info.NamesInLastSubSection options ∧ OffsetsFit info.linkData.nonImportGlobals := by
  have hs := serializeModule_ok haccepted
  obtain ⟨-, hdata, d0, e0⟩ := parseDataSection_spec hs.dataSection
  have hsegments := numDataSegments_eq_iff (parseDataSection_length hs.dataSection)
  obtain ⟨-, names, hnumNames, hnames, hnamesLength⟩ := serializeFunctionNames_spec hs.functionNames
  have hnumNames' := numFunctionNames_eq_iff hnamesLength
  obtain ⟨-, hglobals⟩ := serializeMutableGlobals_spec hs.mutableGlobals
  have hglobals' := mutableGlobals_read_eq_iff info
  constructor
  · intro h
    refine ⟨hsegments.mp ?_, hnumNames'.mp ?_, hglobals'.mp ?_⟩
    · have hlength := h.dataSegments.length_eq
      rw [List.length_reverse, List.length_map] at hlength
      exact hlength.symm
    · obtain ⟨n, cursor, hnum, hvisits⟩ := h.functionNames
      obtain ⟨rfl, rfl⟩ := Prod.mk.inj (Except.ok.inj (hnumNames.symm.trans hnum))
      rw [← hvisits.length_eq, List.length_reverse]
    · exact List.reverse_inj.mp (hglobals.records_unique h.mutableGlobals)
  · rintro ⟨hcounted, hlast, hfits⟩
    obtain ⟨n2, -, ⟨d2, e2⟩, -, hstart⟩ := serializeStartFunctionSection_spec hs.startFunction
    obtain ⟨-, himports⟩ := serializeDynamicFunctionImportBinarySection_spec hs.dynamicImports
    obtain ⟨globals, hlookup, -, hexportedGlobals, globalsBody, hgw, hgc, hgn⟩ :=
      serializeExportedGlobalsBinarySection_spec hs.exportedGlobals
    obtain ⟨hfound, hexports, exportsBody, hew, hec, hen⟩ :=
      serializeExportedFunctionBinarySection_spec hs.exportedFunctions
    obtain ⟨-, hdvd, -⟩ := serializeExportedFunctionBinarySection_ok hs.exportedFunctions
    rw [hs.output_eq] at hexports hec
    obtain ⟨hstatus, htable, hentries⟩ := hs.prefixes
    obtain ⟨-, hlength⟩ := prefix_of_serializeModuleMetadata hs.metadata
    have hcontent : ∀ section_ : List UInt8, contentEnd section_ <+: section_ :=
      fun _ => List.take_prefix _ _
    have hfunctions : layout.exportedFunctions <+: layout.binary :=
      (List.prefix_append _ _).trans hstatus
    have hexportsBody : exportsBody <+: layout.binary :=
      (prefix_of_readNextValue32 hec).trans ((hcontent _).trans hfunctions)
    have hglobalsBody : globalsBody <+: layout.binary := by
      obtain ⟨bytes, hbytes⟩ := hfound.extends_
      rw [hs.output_eq] at hbytes
      have hglobals : layout.exportedGlobals <+: layout.exportedFunctions :=
        hbytes ▸ List.prefix_append _ _
      exact (prefix_of_readNextValue32 hgc).trans ((hcontent _).trans (hglobals.trans hfunctions))
    have hwf := exportedGlobals_wellFormed hlookup
    exact {
      init := fun address haddress => init_serializeModule haccepted haddress
      dataSegments := by rwa [hsegments.mpr hcounted]
      functionNames := ⟨_, _, hnumNames, by rwa [hnumNames'.mpr hlast]⟩
      startFunction := hstart
      mutableGlobals := by rwa [← hglobals'.mpr hfits]
      dynamicImports := himports
      exportedGlobals := ⟨globals, hlookup, hexportedGlobals,
        findsGlobal_of_written hwf hgw hgc hgn hglobalsBody hlength⟩
      exportedFunctions := hexports
      findsFunction := findsFunction_of_written hdvd hew hec hen hexportsBody hlength
      linkStatus := hstatus
      table := htable
      tableEntryFunctions := hentries }

end

/-! ### Modules with and without a round trip -/

/-- The configuration of a compiler that records stacktraces. -/
def tracingOptions : CompilerOptions := ⟨.x86_64, true, 10, false, by decide⟩

/-- A backend whose wrappers return at once. -/
def returningBackend : EntryPoints tracingOptions.target :=
  ⟨fun _ _ => .ok [0xC3], fun _ _ _ _ => Nat.one_dvd _⟩

/-- The type of the global. -/
theorem i32_ne_invalid : MachineType.i32 ≠ .invalid := by decide

/-- A module with a data segment, function names, a start function, a mutable global that is
exported, and an exported function that is in the table. -/
def smallModule : SerializedModule where
  functionBodies := [0xC3, 0x90, 0x90, 0x90, 1, 0, 0, 0]
  dataModule := ⟨true, 1, some 1, some [⟨.active, .i32Const 0 true, [1, 2, 3], by decide⟩]⟩
  nameSection := some [.other, .function [⟨0, [0x66]⟩] true]
  imports := ⟨["()"], [], [], [], false, false, true⟩
  linkData := ⟨[], [], [⟨⟨.i32, true, 7, i32_ne_invalid⟩, 0⟩], 4⟩
  functionTypes := [0]
  wasmFncBodyBinaryPositions := [0]
  startFunctionIndex := some 0
  exports := [⟨[0x66], .func, 0⟩, ⟨[0x67], .global, 0⟩]
  hasTable := true
  tableIsExported := true
  tableElements := [⟨0, unknownValue⟩]
  landingPad := unknownValue
  landingPad_le := .inl rfl

/-- The binary of the module is read as it was written. -/
theorem roundTrips_iff_smallModule :
    ∃ layout, serializeModule tracingOptions returningBackend smallModule = .ok layout ∧
      (RoundTrips tracingOptions returningBackend smallModule layout ↔
        smallModule.dataModule.HasCountedSegments ∧
        smallModule.NamesInLastSubSection tracingOptions ∧
        OffsetsFit smallModule.linkData.nonImportGlobals) := by
  have haccepted :
      (serializeModule tracingOptions returningBackend smallModule).toOption.isSome = true := by
    decide +kernel
  cases hlayout : serializeModule tracingOptions returningBackend smallModule with
  | error e => simp [hlayout, Except.toOption] at haccepted
  | ok layout => exact ⟨layout, rfl, roundTrips_iff hlayout⟩

/-- A module that counts a data segment and has none. -/
def uncountedModule : SerializedModule where
  functionBodies := [0xC3, 0x90, 0x90, 0x90, 1, 0, 0, 0]
  dataModule := ⟨false, 0, some 1, none⟩
  nameSection := none
  imports := ⟨[], [], [], [], false, false, true⟩
  linkData := ⟨[], [], [], 0⟩
  functionTypes := []
  wasmFncBodyBinaryPositions := []
  startFunctionIndex := none
  exports := []
  hasTable := false
  tableIsExported := false
  tableElements := []
  landingPad := unknownValue
  landingPad_le := .inl rfl

/-- The module is serialised, and the runtime looks for a data segment in its code. -/
theorem uncountedModule_not_roundTrips :
    ∃ layout, serializeModule tracingOptions returningBackend uncountedModule = .ok layout ∧
      ¬ RoundTrips tracingOptions returningBackend uncountedModule layout := by
  refine ⟨_, rfl, fun h => ?_⟩
  have hlength := h.dataSegments.length_eq
  revert hlength
  decide

end WasmCompiler
