import WasmCompiler.BinaryRecords

/-!
# The Sections of the Binary are Found

Each function of the frontend that writes a section, with what the runtime finds at the end of
what it has written: the size of the section, where its content ends and starts, and the
records on the way back between the two.

## Main results

* `Visits`: the way of a reader through a section.
* `readSectionSize_write`: the size behind a section leads to its start.
* `serializeFunctionNames_spec`, `serializeStartFunctionSection_spec`,
  `serializeMutableGlobals_spec`, `writeSection_spec`,
  `serializeExportedFunctionBinarySection_spec`: the sections of records.
-/

namespace WasmCompiler

/-! ### The way through a section -/

/-- The way of a reader over a number of records: these records in this order, from the end of
their section to its start. Without anything in front of the section it is the same way, so
nothing in front of it is read. -/
structure Visits {View : Type} (read : List UInt8 → Except BinaryError (View × List UInt8))
    (numRecords : ℕ) (sectionEnd sectionStart : List UInt8) (records : List View) : Prop where
  walk : readBackward read numRecords sectionEnd = .ok (records, sectionStart)
  inside : ∃ section_, sectionEnd = sectionStart ++ section_ ∧
    readBackward read numRecords section_ = .ok (records, [])

/-- The section starts with the number of its records, seen from its end. -/
def VisitsSection {View : Type} (read : List UInt8 → Except BinaryError (View × List UInt8))
    (sectionEnd sectionStart : List UInt8) (records : List View) : Prop :=
  ∃ numRecords cursor, readNextValue32 sectionEnd = .ok (numRecords, cursor) ∧
    Visits read numRecords.toNat cursor sectionStart records

/-- The section in front of the number behind it. -/
def contentEnd (section_ : List UInt8) : List UInt8 := section_.take (section_.length - 4)

/-- Behind the content is the number. -/
@[simp] theorem contentEnd_append (content : List UInt8) (n : ℕ) :
    contentEnd (content ++ bytesLE 4 n) = content := by
  simp [contentEnd]

section

variable {View : Type} {read : List UInt8 → Except BinaryError (View × List UInt8)}
  {numRecords : ℕ} {sectionEnd sectionStart : List UInt8} {records : List View}

/-- As many records are visited as are asked for. -/
theorem Visits.length_eq (h : Visits read numRecords sectionEnd sectionStart records) :
    records.length = numRecords :=
  length_of_readBackward h.walk

/-- The records on the way are determined. -/
theorem Visits.records_unique {records' : List View}
    (h : Visits read numRecords sectionEnd sectionStart records)
    (h' : Visits read numRecords sectionEnd sectionStart records') : records = records' :=
  (Prod.mk.inj (Except.ok.inj (h.walk.symm.trans h'.walk))).1

/-- **The loop of a function of the runtime** is a fold over the records on the way. -/
theorem VisitsSection.iterateSection_eq {State : Type}
    (h : VisitsSection read sectionEnd sectionStart records)
    (body : State → View → Except BinaryError State) (state : State) :
    iterateSection read body sectionEnd state = records.foldlM body state := by
  obtain ⟨n, cursor, hnum, hvisits⟩ := h
  simp only [iterateSection, hnum, bind, Except.bind]
  exact foldBackward_eq body hvisits.walk state

/-- **Written records** are visited in the opposite order. -/
theorem visits_of_foldlM {Rec : Type} {write : List UInt8 → Rec → Except BinaryError (List UInt8)}
    {view : Rec → View} {written : List Rec} {output output' : List UInt8}
    (hread : ∀ record ∈ written, ReadsBack write read view record)
    (happends : ∀ record, Appends (write · record))
    (h : written.foldlM write output = .ok output') :
    Visits read written.length output' output (written.map view).reverse := by
  obtain ⟨section_, rfl, hfront⟩ := Appends.foldlM happends written _ _ h
  refine ⟨readBackward_of_readsBack hread h, section_, rfl, ?_⟩
  exact readBackward_of_readsBack hread (hfront [] (Nat.zero_le _))

end

/-! ### Sizes -/

/-- The output does not get longer than the limit. -/
theorem memWriterAppend_length {output bytes output' : List UInt8}
    (h : memWriterAppend output bytes = .ok output') : output'.length ≤ uint32Max := by
  have houtput := memWriterAppend_ok h
  simp only [memWriterAppend] at h
  split at h
  · simp at h
  · rw [houtput, List.length_append]
    omega

/-- A length of a part of an output fits in 32 bits. -/
theorem toNat_ofNat_of_le {n : ℕ} (h : n ≤ uint32Max) : (UInt32.ofNat n).toNat = n := by
  simp only [uint32Max] at h
  rw [UInt32.toNat_ofNat']
  omega

/-- The cursor goes back over what was appended. -/
theorem skipBack_append {before bytes : List UInt8} {n : UInt32} (h : bytes.length = n.toNat) :
    skipBack (before ++ bytes) n = .ok before := by
  simp only [skipBack, pSubI_append h, Except.map]

/-- **The size of a section** leads to its start. -/
theorem readSectionSize_write {sectionStart content output : List UInt8}
    (hcontent : ∃ bytes, content = sectionStart ++ bytes)
    (h : writeSectionSize sectionStart content = .ok output) :
    contentEnd output = content ∧
      readSectionSize output =
        .ok (UInt32.ofNat (content.length - sectionStart.length), content, sectionStart) := by
  obtain ⟨bytes, rfl⟩ := hcontent
  have hbound := memWriterAppend_length h
  obtain rfl := memWriterWrite32_ok h
  refine ⟨contentEnd_append _ _, ?_⟩
  simp only [List.length_append, length_bytesLE] at hbound
  have hsize : bytes.length =
      (UInt32.ofNat ((sectionStart ++ bytes).length - sectionStart.length)).toNat := by
    rw [List.length_append, toNat_ofNat_of_le (by omega)]
    omega
  simp only [readSectionSize, readNextValue32_append, skipBack_append hsize, bind, Except.bind]

/-- The size of a section is appended. -/
theorem writeSectionSize_append {sectionStart content output : List UInt8}
    (h : writeSectionSize sectionStart content = .ok output) :
    ∃ bytes, output = content ++ bytes :=
  ⟨_, memWriterWrite32_ok h⟩

/-! ### Sections of records -/

/-- What is found at the end of a section. -/
structure FoundSection (sectionStart output : List UInt8) : Prop where
  found : ∃ size, readSectionSize output = .ok (size, contentEnd output, sectionStart)
  extends_ : ∃ bytes, output = sectionStart ++ bytes

/-- Records with their number and the size of the section are found. -/
theorem writeCounted_spec {Rec View : Type}
    {write : List UInt8 → Rec → Except BinaryError (List UInt8)}
    {read : List UInt8 → Except BinaryError (View × List UInt8)} {view : Rec → View}
    {records : List Rec} {output body counted output' : List UInt8} {numRecords : UInt32}
    (hread : ∀ record ∈ records, ReadsBack write read view record)
    (happends : ∀ record, Appends (write · record))
    (hrecords : records.foldlM write output = .ok body)
    (hcount : memWriterWrite32 body numRecords = .ok counted)
    (hsize : writeSectionSize output counted = .ok output') :
    FoundSection output output' ∧ readNextValue32 (contentEnd output') = .ok (numRecords, body) ∧
      Visits read records.length body output (records.map view).reverse := by
  obtain ⟨bytes, hbody, -⟩ := Appends.foldlM happends records _ _ hrecords
  have hcounted := memWriterWrite32_ok hcount
  have hcontent : ∃ bytes, counted = output ++ bytes :=
    ⟨_, by rw [hcounted, hbody, List.append_assoc]⟩
  obtain ⟨hend, hread'⟩ := readSectionSize_write hcontent hsize
  obtain ⟨bytes', hbytes'⟩ := hcontent
  refine ⟨⟨⟨_, by rw [hend, hread']⟩, ?_⟩, ?_, visits_of_foldlM hread happends hrecords⟩
  · obtain ⟨bytes'', rfl⟩ := writeSectionSize_append hsize
    exact ⟨bytes' ++ bytes'', by rw [hbytes', List.append_assoc]⟩
  · rw [hend]
    exact readNextValue32_write hcount

/-- As many bytes are appended as there are records, at least. -/
theorem length_le_of_foldlM {Rec : Type}
    {write : List UInt8 → Rec → Except BinaryError (List UInt8)}
    (hlength : ∀ output record output', write output record = .ok output' →
      output.length + 4 ≤ output'.length) {records : List Rec} {output output' : List UInt8}
    (h : records.foldlM write output = .ok output') :
    output.length + 4 * records.length ≤ output'.length := by
  induction records generalizing output with
  | nil =>
      obtain rfl := Except.ok.inj h
      simp
  | cons record records ih =>
      rw [List.foldlM_cons] at h
      obtain ⟨output1, hrecord, hrest⟩ := exists_of_bind_ok h
      have h1 := hlength _ _ _ hrecord
      have h2 := ih hrest
      rw [List.length_cons]
      omega

/-- What is written last is a number. -/
theorem length_of_write32 {output output' : List UInt8} {source : UInt32}
    (h : memWriterWrite32 output source = .ok output') : output'.length = output.length + 4 := by
  rw [memWriterWrite32_ok h, List.length_append, length_bytesLE]

/-- A string takes at least the four bytes of its length. -/
theorem length_of_writeString {output string output' : List UInt8}
    (h : writeString output string = .ok output') : output.length + 4 ≤ output'.length := by
  obtain ⟨output1, hpadded, hsize⟩ := exists_of_bind_ok h
  obtain ⟨padding, rfl, -⟩ := memWriterWritePadded_ok hpadded
  have := length_of_write32 hsize
  simp only [List.length_append] at this
  omega

/-- **A section of records** is found, and its reader visits the records. -/
theorem writeSection_spec {Rec View : Type}
    {write : List UInt8 → Rec → Except BinaryError (List UInt8)}
    {read : List UInt8 → Except BinaryError (View × List UInt8)} {view : Rec → View}
    {records : List Rec} {output output' : List UInt8}
    (hread : ∀ record ∈ records, ReadsBack write read view record)
    (happends : ∀ record, Appends (write · record))
    (hlength : ∀ output record output', write output record = .ok output' →
      output.length + 4 ≤ output'.length)
    (h : writeSection write output records = .ok output') :
    FoundSection output output' ∧
      VisitsSection read (contentEnd output') output (records.map view).reverse ∧
      ∃ body, records.foldlM write output = .ok body ∧
        readNextValue32 (contentEnd output') = .ok (UInt32.ofNat records.length, body) ∧
        (UInt32.ofNat records.length).toNat = records.length := by
  obtain ⟨body, hrecords, h⟩ := exists_of_bind_ok h
  obtain ⟨counted, hcount, hsize⟩ := exists_of_bind_ok h
  obtain ⟨hfound, hnum, hvisits⟩ := writeCounted_spec hread happends hrecords hcount hsize
  have hbound := memWriterAppend_length hcount
  have hrec := length_le_of_foldlM hlength hrecords
  have hcounted := length_of_write32 hcount
  have hnat : (UInt32.ofNat records.length).toNat = records.length :=
    toNat_ofNat_of_le (by omega)
  exact ⟨hfound, ⟨_, _, hnum, by rwa [hnat]⟩, body, hrecords, hnum, hnat⟩

/-! ### Data segments and function names -/

/-- The number of data segments that is written. -/
def DataModule.numDataSegments (module_ : DataModule) : UInt32 :=
  match module_.dataSection with
  | some segments =>
      if UInt32.ofNat segments.length = numDataSegmentsUnset then 0
      else UInt32.ofNat segments.length
  | none =>
      if module_.countedDataSegments = numDataSegmentsUnset then 0
      else module_.countedDataSegments

/-- The segments are appended one after the other. -/
theorem parseDataSegments_eq_foldlM (module_ : DataModule) (segments : List DataSegment)
    (output : List UInt8) : parseDataSegments module_ output segments =
      segments.foldlM (parseDataSegment module_) output := by
  induction segments generalizing output with
  | nil => rfl
  | cons segment segments ih => simp only [parseDataSegments, List.foldlM_cons, ih]

/-- **The data section** is found, and its reader can visit the segments. -/
theorem parseDataSection_spec {module_ : DataModule} {output output' : List UInt8}
    (h : parseDataSection module_ output = .ok output') :
    readNextValue32 output' = .ok (module_.numDataSegments, contentEnd output') ∧
      Visits readDataSegment module_.segments.length (contentEnd output') output
        (module_.segments.map DataSegment.read).reverse ∧
      ∃ bytes, output' = output ++ bytes := by
  obtain ⟨body, hsegments, hcount⟩ : ∃ body,
      parseDataSegments module_ output module_.segments = .ok body ∧
        memWriterWrite32 body module_.numDataSegments = .ok output' := by
    simp only [parseDataSection] at h
    simp only [DataModule.segments, DataModule.numDataSegments]
    split at h
    · case _ segments hsection =>
        rw [hsection]
        split at h
        · simp at h
        · exact exists_of_bind_ok h
    · case _ hsection =>
        rw [hsection]
        exact ⟨output, rfl, h⟩
  rw [parseDataSegments_eq_foldlM] at hsegments
  obtain ⟨bytes, rfl, -⟩ := Appends.foldlM (appends_dataSegment module_) _ _ _ hsegments
  have hend := memWriterWrite32_ok hcount
  have hcontent : contentEnd output' = output ++ bytes := by rw [hend, contentEnd_append]
  rw [hcontent]
  exact ⟨readNextValue32_write hcount, visits_of_foldlM
    (fun segment _ => readsBack_dataSegment module_ segment) (appends_dataSegment module_)
    hsegments, ⟨_, by rw [hend, List.append_assoc]⟩⟩

/-- The names of each subsection with function names. -/
def functionNameLists (subSections : List NameSubSection) : List (List FunctionName) :=
  subSections.filterMap fun subSection =>
    match subSection with
    | .function functionNames _ => some functionNames
    | .other => none

/-- All names are appended, and the number is the one of the last subsection. -/
theorem parseNameSubSections_ok {subSections : List NameSubSection} {output body : List UInt8}
    {n numFunctionNames : UInt32}
    (h : parseNameSubSections output n subSections = .ok (body, numFunctionNames)) :
    (functionNameLists subSections).flatten.foldlM writeFunctionName output = .ok body ∧
      numFunctionNames =
        (((functionNameLists subSections).getLast?).map (UInt32.ofNat ·.length)).getD n := by
  induction subSections generalizing output n with
  | nil =>
      obtain ⟨rfl, rfl⟩ := Prod.mk.inj (Except.ok.inj h)
      exact ⟨rfl, rfl⟩
  | cons subSection rest ih =>
      cases subSection with
      | other => exact ih h
      | function functionNames sizeMatches =>
          obtain ⟨output1, hnames, h⟩ := exists_of_bind_ok h
          split at h
          · obtain ⟨hrest, hnum⟩ := ih h
            have hlists : functionNameLists (.function functionNames sizeMatches :: rest) =
                functionNames :: functionNameLists rest := rfl
            rw [hlists, List.flatten_cons, List.foldlM_append, hnames, hnum]
            refine ⟨hrest, ?_⟩
            cases hlast : (functionNameLists rest).getLast? with
            | none => simp [List.getLast?_cons, hlast]
            | some last => simp [List.getLast?_cons, hlast]
          · simp at h

/-- The function names that are written. -/
def SerializedModule.functionNames (info : SerializedModule) (options : CompilerOptions) :
    List (List FunctionName) :=
  match info.nameSection with
  | some subSections =>
      if options.stacktraceRecordCount > 0 then functionNameLists subSections else []
  | none => []

/-- The number of function names that is written: the one of the last subsection. -/
def SerializedModule.numFunctionNames (info : SerializedModule) (options : CompilerOptions) :
    UInt32 :=
  (((info.functionNames options).getLast?).map (UInt32.ofNat ·.length)).getD 0

/-- A function name takes at least four bytes. -/
theorem length_of_writeFunctionName {output output' : List UInt8} {functionName : FunctionName}
    (h : writeFunctionName output functionName = .ok output') :
    output.length + 4 ≤ output'.length := by
  simp only [writeFunctionName] at h
  split at h
  · simp at h
  · obtain ⟨output1, hname, hindex⟩ := exists_of_bind_ok h
    have h1 := length_of_writeString hname
    have h2 := length_of_write32 hindex
    omega

/-- **The section with the function names** is found, and its reader can visit the names. -/
theorem serializeFunctionNames_spec {options : CompilerOptions} {info : SerializedModule}
    {output output' : List UInt8}
    (h : serializeFunctionNames options info.nameSection output = .ok output') :
    FoundSection output output' ∧ ∃ body,
      readNextValue32 (contentEnd output') = .ok (info.numFunctionNames options, body) ∧
      Visits readFunctionName (info.functionNames options).flatten.length body output
        (info.functionNames options).flatten.reverse ∧
      (info.functionNames options).flatten.length ≤ uint32Max := by
  obtain ⟨body, counted, hnames, hcount, hsize⟩ : ∃ body counted,
      (info.functionNames options).flatten.foldlM writeFunctionName output = .ok body ∧
        memWriterWrite32 body (info.numFunctionNames options) = .ok counted ∧
        writeSectionSize output counted = .ok output' := by
    simp only [serializeFunctionNames] at h
    simp only [SerializedModule.numFunctionNames]
    split at h
    · case _ hnone =>
        have hnames : info.functionNames options = [] := by
          simp only [SerializedModule.functionNames, hnone]
        obtain ⟨counted, hcount, hsize⟩ := exists_of_bind_ok h
        rw [hnames]
        refine ⟨output, counted, rfl, hcount, ?_⟩
        have hlength := length_of_write32 hcount
        rw [writeSectionSize, hlength, Nat.add_sub_cancel_left]
        exact hsize
    · case _ subSections hsome =>
        obtain ⟨⟨body, numFunctionNames⟩, hparse, h⟩ := exists_of_bind_ok h
        obtain ⟨counted, hcount, hsize⟩ := exists_of_bind_ok h
        split at hparse
        · case _ hrecords =>
            have hnames : info.functionNames options = functionNameLists subSections := by
              simp only [SerializedModule.functionNames, hsome, if_pos hrecords]
            obtain ⟨hwritten, rfl⟩ := parseNameSubSections_ok hparse
            rw [hnames]
            exact ⟨body, counted, hwritten, hcount, hsize⟩
        · case _ hrecords =>
            have hnames : info.functionNames options = [] := by
              simp only [SerializedModule.functionNames, hsome, if_neg hrecords]
            obtain ⟨rfl, rfl⟩ := Prod.mk.inj (Except.ok.inj hparse)
            rw [hnames]
            exact ⟨output, counted, rfl, hcount, hsize⟩
  obtain ⟨hfound, hnum, hvisits⟩ := writeCounted_spec
    (fun functionName _ => readsBack_functionName functionName) appends_functionName hnames
    hcount hsize
  have hbound := memWriterAppend_length hcount
  have hlength := length_le_of_foldlM (fun _ _ _ => length_of_writeFunctionName) hnames
  have hcounted := length_of_write32 hcount
  rw [List.map_id] at hvisits
  exact ⟨hfound, body, hnum, hvisits, by omega⟩

/-! ### Start function and globals -/

/-- **The section with the start function** is found, and has its wrapper and its signature. -/
theorem serializeStartFunctionSection_spec {target : JitTarget} {backend : EntryPoints target}
    {info : SerializedModule} {output output' : List UInt8}
    (h : serializeStartFunctionSection backend info output = .ok output') :
    ∃ size, readSectionSize output' = .ok (size, contentEnd output', output) ∧
      (∃ bytes, output' = output ++ bytes) ∧
      (size > 0 ↔ info.startFunctionIndex.isSome) ∧
      match info.startFunctionIndex with
      | none => contentEnd output' = output
      | some startFunctionIndex => ∃ wrapper signature,
          backend.emitFunctionEntryPoint output startFunctionIndex = .ok wrapper ∧
          (info.getFncSigIndex startFunctionIndex >>= info.signature) = .ok signature ∧
          Visits readFunctionInfo 1 (contentEnd output') output [(signature, wrapper)] := by
  obtain ⟨body, hbody, hsize⟩ := exists_of_bind_ok h
  have hbound := memWriterAppend_length hsize
  have hlength := length_of_write32 hsize
  split at hbody
  · case _ startFunctionIndex hsome =>
      obtain ⟨⟨wrapper, output1⟩, hwrapper, hbody⟩ := exists_of_bind_ok hbody
      obtain ⟨wrapper', hemit, hwrapper⟩ := exists_of_bind_ok hwrapper
      obtain ⟨output2, hblob, hpair⟩ := exists_of_bind_ok hwrapper
      obtain ⟨rfl, rfl⟩ := Prod.mk.inj (Except.ok.inj hpair)
      obtain ⟨sigIndex, hsig, hbody⟩ := exists_of_bind_ok hbody
      obtain ⟨signature, hsignature, hstring⟩ := exists_of_bind_ok hbody
      have hinfo : writeFunctionInfo target output ⟨wrapper', signature, [], 0⟩ = .ok body := by
        simp only [writeFunctionInfo, hblob, bind, Except.bind, hstring]
      have happends : Appends (writeFunctionInfo target · ⟨wrapper', signature, [], 0⟩) :=
        (Appends.paddedBinaryBlob target _).bind (.string _)
      obtain ⟨bytes, rfl, hfront⟩ := happends _ _ hinfo
      obtain ⟨hend, hread⟩ := readSectionSize_write ⟨bytes, rfl⟩ hsize
      have hdvd := backend.dvd_length _ _ _ hemit
      obtain ⟨bytes', hbytes'⟩ := writeSectionSize_append hsize
      refine ⟨_, by rw [hend]; exact hread, ⟨bytes ++ bytes', by rw [hbytes', List.append_assoc]⟩,
        ?_, ?_⟩
      · have hstring' := length_of_writeString hstring
        obtain ⟨bytes1, rfl, -⟩ := Appends.paddedBinaryBlob target _ _ _ hblob
        simp only [List.length_append] at hstring' hlength hbound ⊢
        have hpos : UInt32.ofNat (output.length + bytes.length - output.length) > 0 := by
          rw [gt_iff_lt, UInt32.lt_iff_toNat_lt, toNat_ofNat_of_le (by omega)]
          simp only [UInt32.reduceToNat]
          omega
        simpa [hsome] using hpos
      · rw [hend]
        simp only [hsome]
        refine ⟨wrapper', signature, hemit, ?_, ?_, bytes, rfl, ?_⟩
        · simp only [hsig, bind, Except.bind, hsignature]
        · simp only [readBackward, readFunctionInfo_write hdvd hinfo, bind, Except.bind]
        · have hread' := readFunctionInfo_write hdvd (hfront [] (Nat.zero_le _))
          simp only [List.nil_append] at hread'
          simp only [readBackward, hread', bind, Except.bind]
  · case _ hnone =>
      obtain rfl := Except.ok.inj hbody
      obtain ⟨hend, hread⟩ := readSectionSize_write ⟨[], by simp⟩ hsize
      refine ⟨_, by rw [hend]; exact hread, writeSectionSize_append hsize, ?_, ?_⟩
      · rw [Nat.sub_self]
        simp [hnone]
      · simpa [hnone] using hend

/-- The mutable globals are appended one after the other. -/
theorem writeGlobals_eq_foldlM (globalDefs : List GlobalDef) (output : List UInt8) :
    writeGlobals output globalDefs = (globalDefs.filter (·.isMutable)).foldlM writeGlobal output := by
  induction globalDefs generalizing output with
  | nil => rfl
  | cons globalDef globalDefs ih =>
      simp only [writeGlobals]
      cases hmutable : globalDef.isMutable with
      | true =>
          rw [List.filter_cons_of_pos (by simpa using hmutable), List.foldlM_cons]
          simp only [if_true, ih]
      | false =>
          rw [List.filter_cons_of_neg (by simp [hmutable])]
          simp only [Bool.false_eq_true, if_false, bind, Except.bind, ih]

/-- A mutable global takes at least four bytes. -/
theorem length_of_writeGlobal {output output' : List UInt8} {globalDef : GlobalDef}
    (h : writeGlobal output globalDef = .ok output') : output.length + 4 ≤ output'.length := by
  obtain ⟨output1, hvalue, h⟩ := exists_of_bind_ok h
  obtain ⟨output2, hoffset, h⟩ := exists_of_bind_ok h
  obtain ⟨output3, htype, hpadding⟩ := exists_of_bind_ok h
  obtain rfl := memWriterAppend_ok hvalue
  have := length_of_write32 hoffset
  obtain rfl := memWriterAppend_ok htype
  obtain rfl := memWriterAppend_ok hpadding
  simp only [List.length_append] at this ⊢
  omega

/-- The mutable globals of a module. -/
def SerializedModule.mutableGlobals (info : SerializedModule) : List GlobalDef :=
  info.linkData.nonImportGlobals.filter (·.isMutable)

/-- **The section with the mutable globals** is found, and its reader visits them; of the
offsets it reads the lower half. -/
theorem serializeMutableGlobals_spec {info : SerializedModule} {output output' : List UInt8}
    (h : serializeMutableGlobals info output = .ok output') :
    FoundSection output output' ∧ VisitsSection readMutableGlobal (contentEnd output') output
      (info.mutableGlobals.map GlobalDef.read).reverse := by
  obtain ⟨counted, hcounted, hsize⟩ := exists_of_bind_ok h
  obtain ⟨body, hglobals, hcount⟩ := exists_of_bind_ok hcounted
  rw [writeGlobals_eq_foldlM] at hglobals
  have hsection : writeSection writeGlobal output info.mutableGlobals = .ok output' := by
    simp only [writeSection, SerializedModule.mutableGlobals, hglobals, bind, Except.bind, hcount,
      hsize]
  obtain ⟨hfound, hvisits, -⟩ := writeSection_spec
    (fun globalDef _ => readsBack_mutableGlobal globalDef) appends_mutableGlobal
    (fun _ _ _ => length_of_writeGlobal) hsection
  exact ⟨hfound, hvisits⟩

/-! ### Exported functions -/

/-- The state of the section with the exported functions: what is noted as written is written,
and every wrapper ends behind an instruction. -/
structure ExportsWritten (target : JitTarget) (info : SerializedModule) (sectionStart : List UInt8)
    (state : FunctionExports) : Prop where
  written : state.exportedFunctions.foldlM (writeExportedFunction target) sectionStart =
    .ok state.output
  dvd : ∀ f ∈ state.exportedFunctions, target.instructionSize ∣ f.wrapper.length
  length_eq : state.tableElements.length = info.tableElements.length

section

variable {target : JitTarget} {backend : EntryPoints target} {info : SerializedModule}
  {sectionStart : List UInt8} {state state' : FunctionExports}

/-- **One function** is appended. -/
theorem ExportsWritten.produceWrapper (h : ExportsWritten target info sectionStart state)
    {exportName : List UInt8} {fncIndex : UInt32} {isDirectExport : Bool}
    (hproduce : WasmCompiler.produceWrapper backend info exportName fncIndex isDirectExport state =
      .ok state') : ExportsWritten target info sectionStart state' := by
  obtain ⟨⟨wrapper, output1⟩, hwrapper, hproduce⟩ := exists_of_bind_ok hproduce
  obtain ⟨wrapper', hemit, hwrapper⟩ := exists_of_bind_ok hwrapper
  obtain ⟨output2, hblob, hpair⟩ := exists_of_bind_ok hwrapper
  obtain ⟨rfl, rfl⟩ := Prod.mk.inj (Except.ok.inj hpair)
  obtain ⟨sigIndex, -, hproduce⟩ := exists_of_bind_ok hproduce
  obtain ⟨isBuiltin, -, hproduce⟩ := exists_of_bind_ok hproduce
  split at hproduce
  · simp at hproduce
  · obtain ⟨signature, -, hproduce⟩ := exists_of_bind_ok hproduce
    obtain ⟨output3, hsignature, hproduce⟩ := exists_of_bind_ok hproduce
    obtain ⟨output4, hname, hproduce⟩ := exists_of_bind_ok hproduce
    obtain rfl := Except.ok.inj hproduce
    refine ⟨?_, fun f hf => ?_, ?_⟩
    · have hrecord : writeExportedFunction target state.output ⟨wrapper', signature, exportName,
          if isDirectExport then fncIndex else unknownValue⟩ = .ok output4 := by
        simp only [writeExportedFunction, writeFunctionInfo, hblob, bind, Except.bind, hsignature]
        exact hname
      rw [List.foldlM_append, h.written]
      simp only [bind, Except.bind, List.foldlM_cons, List.foldlM_nil, hrecord]
      rfl
    · rcases List.mem_append.mp hf with hf | hf
      · exact h.dvd f hf
      · obtain rfl := List.mem_singleton.mp hf
        exact backend.dvd_length _ _ _ hemit
    · have hlength := h.length_eq
      simp only
      split
      · rwa [List.length_map]
      · exact hlength

/-- The functions that are exported by name are appended. -/
theorem ExportsWritten.exportFunctions {exports : List ModuleExport}
    (h : ExportsWritten target info sectionStart state)
    (hexport : WasmCompiler.exportFunctions backend info exports state = .ok state') :
    ExportsWritten target info sectionStart state' := by
  induction exports generalizing state with
  | nil =>
      obtain rfl := Except.ok.inj hexport
      exact h
  | cons moduleExport rest ih =>
      obtain ⟨state1, hfirst, hrest⟩ := exists_of_bind_ok hexport
      split at hfirst
      · exact ih (h.produceWrapper hfirst) hrest
      · obtain rfl := Except.ok.inj hfirst
        exact ih h hrest

/-- The functions that are reached by the table only are appended. -/
theorem ExportsWritten.exportTableFunctions {remaining : ℕ}
    (h : ExportsWritten target info sectionStart state)
    (hexport : WasmCompiler.exportTableFunctions backend info remaining state = .ok state') :
    ExportsWritten target info sectionStart state' := by
  induction remaining generalizing state with
  | zero =>
      obtain rfl := Except.ok.inj hexport
      exact h
  | succ remaining ih =>
      obtain ⟨state1, hfirst, hrest⟩ := exists_of_bind_ok hexport
      split at hfirst
      · simp at hfirst
      · split at hfirst
        · obtain rfl := Except.ok.inj hfirst
          exact ih h hrest
        · exact ih (h.produceWrapper hfirst) hrest

/-- An exported function takes at least four bytes. -/
theorem length_of_writeExportedFunction {output output' : List UInt8} {f : ExportedFunction}
    (h : writeExportedFunction target output f = .ok output') :
    output.length + 4 ≤ output'.length := by
  obtain ⟨output1, hinfo, hname⟩ := exists_of_bind_ok h
  obtain ⟨output2, hblob, hsignature⟩ := exists_of_bind_ok hinfo
  obtain ⟨output3, hstring, hindex⟩ := exists_of_bind_ok hname
  obtain ⟨bytes, rfl, -⟩ := Appends.paddedBinaryBlob target _ _ _ hblob
  have h1 := length_of_writeString hsignature
  have h2 := length_of_writeString hstring
  have h3 := length_of_write32 hindex
  simp only [List.length_append] at h1
  omega

/-- **The section with the exported functions** is a section of the records that are noted. -/
theorem serializeExportedFunctionBinarySection_ok {functionExports : FunctionExports}
    (h : serializeExportedFunctionBinarySection backend info sectionStart = .ok functionExports) :
    writeSection (writeExportedFunction target) sectionStart functionExports.exportedFunctions =
        .ok functionExports.output ∧
      (∀ f ∈ functionExports.exportedFunctions, target.instructionSize ∣ f.wrapper.length) ∧
      functionExports.tableElements.length = info.tableElements.length := by
  obtain ⟨state1, hdirect, h⟩ := exists_of_bind_ok h
  obtain ⟨state2, htable, h⟩ := exists_of_bind_ok h
  obtain ⟨counted, hcount, h⟩ := exists_of_bind_ok h
  obtain ⟨body, hsize, h⟩ := exists_of_bind_ok h
  obtain rfl := Except.ok.inj h
  have hstart : ExportsWritten target info sectionStart ⟨sectionStart, info.tableElements, []⟩ :=
    ⟨rfl, by simp, rfl⟩
  have hdirect' := hstart.exportFunctions hdirect
  have hexports : ExportsWritten target info sectionStart state2 := by
    split at htable
    · exact hdirect'.exportTableFunctions htable
    · obtain rfl := Except.ok.inj htable
      exact hdirect'
  refine ⟨?_, hexports.dvd, hexports.length_eq⟩
  simp only [writeSection, hexports.written, bind, Except.bind, hcount, hsize]

end

/-! ### Arrays -/

/-- The elements of an array are appended one after the other. -/
theorem foldlM_append_flatMap {Rec : Type} (bytesOf : Rec → List UInt8)
    {write : List UInt8 → Rec → Except BinaryError (List UInt8)}
    {records : List Rec} {output output' : List UInt8}
    (hwrite : ∀ record ∈ records, ∀ output output', write output record = .ok output' →
      output' = output ++ bytesOf record)
    (h : records.foldlM write output = .ok output') :
    output' = output ++ records.flatMap bytesOf := by
  induction records generalizing output with
  | nil =>
      obtain rfl := Except.ok.inj h
      simp
  | cons record records ih =>
      rw [List.foldlM_cons] at h
      obtain ⟨output1, hrecord, hrest⟩ := exists_of_bind_ok h
      obtain rfl := hwrite record (by simp) _ _ hrecord
      rw [ih (fun r hr => hwrite r (List.mem_cons_of_mem _ hr)) hrest, List.flatMap_cons,
        List.append_assoc]

/-- The bytes of an array with elements of one size. -/
theorem length_flatMap_of_eq {Rec : Type} {bytesOf : Rec → List UInt8} {width : ℕ}
    (hwidth : ∀ record, (bytesOf record).length = width) (records : List Rec) :
    (records.flatMap bytesOf).length = width * records.length := by
  induction records with
  | nil => simp
  | cons record records ih =>
      rw [List.flatMap_cons, List.length_append, hwidth, ih, List.length_cons, Nat.mul_add]
      omega

/-- The bytes of a table element. -/
def SerializedModule.tableEntryBytes (info : SerializedModule) (element : TableElement) :
    List UInt8 :=
  match info.tableEntry element with
  | .ok entry => bytesLE 4 entry.1.toNat ++ bytesLE 4 entry.2.toNat
  | .error _ => List.replicate 8 0

/-- A table element takes eight bytes. -/
theorem SerializedModule.length_tableEntryBytes (info : SerializedModule)
    (element : TableElement) : (info.tableEntryBytes element).length = 8 := by
  simp only [SerializedModule.tableEntryBytes]
  split <;> simp

/-- An array with the number of its elements behind it. -/
theorem array_spec (width : ℕ) {before array output : List UInt8} {n : ℕ}
    (hwidth : width * n = array.length) (hpos : 0 < width) (hlt : width < 2 ^ 32)
    (h : memWriterWrite32 (before ++ array) (UInt32.ofNat n) = .ok output) :
    output = before ++ array ++ bytesLE 4 (UInt32.ofNat n).toNat ∧
      readNextValue32 output = .ok (UInt32.ofNat n, before ++ array) ∧
      skipBack (before ++ array) (UInt32.ofNat n * UInt32.ofNat width) = .ok before := by
  have hbound := memWriterAppend_length h
  have houtput := memWriterWrite32_ok h
  refine ⟨houtput, readNextValue32_write h, skipBack_append ?_⟩
  rw [houtput] at hbound
  simp only [List.length_append, uint32Max] at hbound
  have hle : n ≤ width * n := Nat.le_mul_of_pos_left n hpos
  have hn : n % 2 ^ 32 = n := Nat.mod_eq_of_lt (by omega)
  have hw : width % 2 ^ 32 = width := Nat.mod_eq_of_lt hlt
  rw [UInt32.toNat_mul, UInt32.toNat_ofNat', UInt32.toNat_ofNat', hn, hw, Nat.mul_comm, hwidth,
    Nat.mod_eq_of_lt (by omega)]

/-- **The table** is found. -/
theorem serializeTableBinarySection_spec {info : SerializedModule} {output output' : List UInt8}
    {tableElements : List TableElement}
    (h : serializeTableBinarySection info output tableElements = .ok output') :
    output' = output ++ tableElements.flatMap info.tableEntryBytes ++
        bytesLE 4 (UInt32.ofNat tableElements.length).toNat ∧
      readNextValue32 output' = .ok (UInt32.ofNat tableElements.length,
        output ++ tableElements.flatMap info.tableEntryBytes) ∧
      skipBack (output ++ tableElements.flatMap info.tableEntryBytes)
        (UInt32.ofNat tableElements.length * (4 + 4)) = .ok output := by
  obtain ⟨body, helements, hcount⟩ := exists_of_bind_ok h
  have hbody := foldlM_append_flatMap info.tableEntryBytes (fun element _ o o' hw => by
    obtain ⟨entry, hentry, hw⟩ := exists_of_bind_ok hw
    obtain ⟨o1, hfirst, hsecond⟩ := exists_of_bind_ok hw
    obtain rfl := memWriterWrite32_ok hfirst
    rw [memWriterWrite32_ok hsecond, SerializedModule.tableEntryBytes, hentry,
      List.append_assoc]) helements
  subst hbody
  exact array_spec 8 (length_flatMap_of_eq info.length_tableEntryBytes _).symm
    (by decide) (by decide) hcount

/-- The bytes of the entry function of a table element. -/
def TableElement.entryBytes (element : TableElement) : List UInt8 :=
  bytesLE 4 element.exportWrapperOffset.toNat

/-- **The entry functions of the table** are found. -/
theorem serializeTableEntryFunctionWrapperSection_spec {output output' : List UInt8}
    {tableElements : List TableElement}
    (h : serializeTableEntryFunctionWrapperSection output tableElements = .ok output') :
    output' = output ++ tableElements.flatMap TableElement.entryBytes ++
        bytesLE 4 (UInt32.ofNat tableElements.length).toNat ∧
      readNextValue32 output' = .ok (UInt32.ofNat tableElements.length,
        output ++ tableElements.flatMap TableElement.entryBytes) ∧
      skipBack (output ++ tableElements.flatMap TableElement.entryBytes)
        (UInt32.ofNat tableElements.length * 4) = .ok output := by
  obtain ⟨body, helements, hcount⟩ := exists_of_bind_ok h
  have hbody := foldlM_append_flatMap TableElement.entryBytes
    (fun _ _ _ _ hw => memWriterWrite32_ok hw) helements
  subst hbody
  exact array_spec 4
    (length_flatMap_of_eq (fun _ => length_bytesLE _ _) _).symm (by decide) (by decide) hcount

/-- **The link status** is found. -/
theorem serializeLinkStatusSection_spec {info : SerializedModule} {output output' : List UInt8}
    (h : serializeLinkStatusSection info output = .ok output') :
    ∃ padded, readNextValue32 output' =
        .ok (UInt32.ofNat info.linkData.impFuncDefs.length, padded) ∧
      skipBack padded (deltaToNextPow2 (UInt32.ofNat info.linkData.impFuncDefs.length) 2) =
        .ok (output ++ info.linkStatus) ∧
      skipBack (output ++ info.linkStatus) (UInt32.ofNat info.linkData.impFuncDefs.length) =
        .ok output ∧
      ∃ bytes, output' = output ++ info.linkStatus ++ bytes := by
  obtain ⟨output1, hstatus, h⟩ := exists_of_bind_ok h
  obtain ⟨output2, hpadding, hcount⟩ := exists_of_bind_ok h
  have hbound := memWriterAppend_length hstatus
  obtain rfl := memWriterAppend_ok hstatus
  obtain rfl := memWriterAppend_ok hpadding
  have hlength : info.linkStatus.length = info.linkData.impFuncDefs.length := List.length_map _
  simp only [List.length_append] at hbound
  refine ⟨_, readNextValue32_write hcount, skipBack_append (List.length_replicate ..),
    skipBack_append ?_, ?_⟩
  · rw [toNat_ofNat_of_le (by omega), hlength]
  · exact ⟨_, by rw [memWriterWrite32_ok hcount, List.append_assoc (output ++ info.linkStatus)]⟩

end WasmCompiler
