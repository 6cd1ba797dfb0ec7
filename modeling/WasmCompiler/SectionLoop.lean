import WasmCompiler.DataSegments

/-!
# The Section Loop of the Frontend

`Frontend::startCompilation` runs through the sections of a module. The sections that are
defined have to be in a fixed order, may be missing, and each of them is followed by an action
that is performed whether the section is there or not; behind the last section the trailing
sections of the binary are written. Custom sections can be anywhere, the name section behind
all others.

The number of data segments is written by such an action, the segments by the data section,
and the number may come from the data count section.

## Main results

* `startCompilation_dataTrailer`: what a compilation writes for the data segments.
* `dataTrailer_matches_iff`: when the stored number is the number of serialised segments.
-/

namespace WasmCompiler

/-! ### Sections -/

/-- `SectionType`; the placeholder stands behind the last section. -/
inductive SectionType where
  | custom
  | type
  | import_
  | function
  | table
  | memory
  | global
  | export_
  | start
  | element
  | code
  | data
  | dataCount
  | placeholder
  deriving DecidableEq, Repr

/-- The order of the sections. -/
def sectionOrder : List SectionType :=
  [.type, .import_, .function, .table, .memory, .global, .export_, .start, .element, .dataCount,
    .code, .data, .placeholder]

/-- The sections of which the loop needs no more than what they append to the output. -/
inductive PlainSection where
  | type
  | import_
  | table
  | global
  | export_
  | start
  | element
  deriving DecidableEq, Repr

/-- The type of a plain section. -/
def PlainSection.sectionType : PlainSection → SectionType
  | .type => .type
  | .import_ => .import_
  | .table => .table
  | .global => .global
  | .export_ => .export_
  | .start => .start
  | .element => .element

/-- A section as its parser reads it. Where the parser does more than is modelled here, the
section carries what it appends to the output, or the error it throws. -/
inductive Section where
  | custom
  | name (functionNames : Except BinaryError (List UInt8))
  | plain (section_ : PlainSection) (appended : Except BinaryError (List UInt8))
  | function (numNonImportedFunctions : ℕ)
  | memory (memoryInitialSize : Option UInt32)
  | dataCount (numDataSegments : UInt32)
  | code (numNonImportedFunctions : ℕ) (bodies : Except BinaryError (List UInt8))
  | data (segments : List DataSegment)

/-- The errors of the section loop. -/
inductive SectionError where
  | duplicateSectionOrSectionsInWrongOrder
  | multipleNameSectionsEncountered
  | functionAndCodeSectionMismatchOfNumberOfDefinitions
  | missingFunctionBodies
  | parser (error : BinaryError)
  deriving DecidableEq, Repr

/-- What was written for the data segments: the output in front of them, the segments, and
the number behind them. -/
structure DataTrailer where
  before : List UInt8
  segments : List DataSegment
  numDataSegments : UInt32

/-- The state of the section loop. The history of the data segments is not in the source, it
is read by no function here. -/
structure SectionState where
  /-- The sections from `expectedSectionSequenceIndex` on. -/
  expectedSections : List SectionType := sectionOrder
  nameSectionHandled : Bool := false
  numNonImportedFunctions : ℕ := 0
  numFunctionBodiesProduced : ℕ := 0
  hasMemory : Bool := false
  memoryInitialSize : UInt32 := 0
  numDataSegments : UInt32 := numDataSegmentsUnset
  output : List UInt8
  dataTrailer : Option DataTrailer := none

/-- Append what a parser appends. -/
def SectionState.append (state : SectionState) (appended : Except BinaryError (List UInt8)) :
    Except SectionError SectionState :=
  match appended >>= memWriterAppend state.output with
  | .ok output => .ok { state with output }
  | .error e => .error (.parser e)

/-! ### The loop -/

/-- The action behind a section, or where it would be. -/
def postSectionAction (sectionType : SectionType) (state : SectionState) :
    Except SectionError SectionState :=
  match sectionType with
  | .code =>
      if state.numFunctionBodiesProduced < state.numNonImportedFunctions then
        .error .missingFunctionBodies
      else .ok state
  | .data =>
      let numDataSegments :=
        if state.numDataSegments = numDataSegmentsUnset then 0 else state.numDataSegments
      let trailer := state.dataTrailer.getD ⟨state.output, [], 0⟩
      match memWriterWrite32 state.output numDataSegments with
      | .ok output =>
          .ok { state with
            numDataSegments
            output
            dataTrailer := some { trailer with numDataSegments } }
      | .error e => .error (.parser e)
  | _ => .ok state

/-- Go to a section, with the actions of all sections in front of it. -/
def moveToTargetSection (sectionType : SectionType) :
    List SectionType → SectionState → Except SectionError SectionState
  | [], _ => .error .duplicateSectionOrSectionsInWrongOrder
  | expected :: rest, state =>
      if expected = sectionType then .ok { state with expectedSections := expected :: rest }
      else postSectionAction expected state >>= moveToTargetSection sectionType rest

/-- The segments of the data section. -/
def SectionState.parseData (state : SectionState) (segments : List DataSegment) :
    Except SectionError SectionState :=
  let numDataSegments := UInt32.ofNat segments.length
  if state.numDataSegments ≠ numDataSegmentsUnset ∧ state.numDataSegments ≠ numDataSegments then
    .error (.parser .dataCountAndDataSectionHaveInconsistentLengths)
  else
    match parseDataSegments ⟨state.hasMemory, state.memoryInitialSize, none, none⟩ state.output
        segments with
    | .ok output =>
        .ok { state with
          numDataSegments
          output
          dataTrailer := some ⟨state.output, segments, 0⟩ }
    | .error e => .error (.parser e)

/-- The padding of the output to a multiple of four bytes. -/
def alignmentPadding (output : List UInt8) : List UInt8 :=
  List.replicate ((roundUpToPow2 (UInt32.ofNat output.length) 2).toNat - output.length) 0

/-- The type of a section, if the order applies to it. -/
def Section.sectionType? : Section → Option SectionType
  | .custom => none
  | .name _ => none
  | .plain section_ _ => some section_.sectionType
  | .function _ => some .function
  | .memory _ => some .memory
  | .dataCount _ => some .dataCount
  | .code _ _ => some .code
  | .data _ => some .data

/-- The parser of a section. -/
def SectionState.parse (state : SectionState) : Section → Except SectionError SectionState
  | .custom => .ok state
  | .name functionNames =>
      if state.nameSectionHandled then .error .multipleNameSectionsEncountered
      else
        moveToTargetSection .placeholder state.expectedSections
          { state with nameSectionHandled := true } >>= fun state => state.append functionNames
  | .plain _ appended => state.append appended
  | .function numNonImportedFunctions => .ok { state with numNonImportedFunctions }
  | .memory none => state.append (.ok (alignmentPadding state.output))
  | .memory (some memoryInitialSize) =>
      SectionState.append { state with hasMemory := true, memoryInitialSize }
        (.ok (alignmentPadding state.output))
  | .dataCount numDataSegments => .ok { state with numDataSegments }
  | .code numNonImportedFunctions bodies =>
      if numNonImportedFunctions ≠ state.numNonImportedFunctions then
        .error .functionAndCodeSectionMismatchOfNumberOfDefinitions
      else
        SectionState.append { state with numFunctionBodiesProduced := numNonImportedFunctions }
          bodies
  | .data segments => state.parseData segments

/-- One turn of the loop. -/
def parseSection (state : SectionState) (section_ : Section) :
    Except SectionError SectionState :=
  match section_.sectionType? with
  | none => state.parse section_
  | some sectionType =>
      moveToTargetSection sectionType state.expectedSections state >>= fun state =>
      state.parse section_ >>= fun state =>
      postSectionAction sectionType state >>= fun state =>
      .ok { state with expectedSections := state.expectedSections.tail }

/-- The loop over the sections. -/
def parseSections : SectionState → List Section → Except SectionError SectionState
  | state, [] => .ok state
  | state, section_ :: rest =>
      parseSection state section_ >>= fun state => parseSections state rest

/-- The whole compilation: the trap handler is emitted first, the trailing sections last. -/
def startCompilation (trapHandler : List UInt8) (sections : List Section)
    (trailing : Except BinaryError (List UInt8)) : Except SectionError SectionState :=
  parseSections { output := trapHandler } sections >>= fun state =>
  moveToTargetSection .placeholder state.expectedSections state >>= fun state =>
  (if state.nameSectionHandled then .ok state
    else state.append (.ok (bytesLE 4 0 ++ bytesLE 4 4))) >>= fun state =>
  state.append trailing

/-! ### The loop over the data segments at run time -/

/-- The way of the runtime through the data segments, from the cursor backwards. -/
def skipDataSegments : ℕ → List UInt8 → Except BinaryError (List UInt8)
  | 0, dataSegmentsCursor => .ok dataSegmentsCursor
  | numDataSegments + 1, dataSegmentsCursor =>
      readNextValue32 dataSegmentsCursor >>= fun (_, cursor) =>
      readNextValue32 cursor >>= fun (dataSegmentSize, cursor) =>
      pSubI cursor (roundUpToPow2 dataSegmentSize 2).toNat >>= fun (_, cursor) =>
      skipDataSegments numDataSegments cursor

/-- The segments are appended to the output. -/
theorem parseDataSegments_prefix {module_ : DataModule} {segments : List DataSegment}
    {output output' : List UInt8} (h : parseDataSegments module_ output segments = .ok output') :
    ∃ records, output' = output ++ records := by
  induction segments generalizing output with
  | nil => exact ⟨[], by simpa using (Except.ok.inj h).symm⟩
  | cons segment segments ih =>
      obtain ⟨output1, hsegment, hrest⟩ := exists_of_bind_ok h
      obtain ⟨-, -, hwrite⟩ := parseDataSegment_ok hsegment
      obtain ⟨data, rfl, -, -⟩ := writeDataSegment_ok hwrite
      obtain ⟨records, rfl⟩ := ih hrest
      exact ⟨data ++ (bytesLE 4 segment.segmentSize.toNat ++
        (bytesLE 4 segment.offset.toNat ++ records)), by simp only [List.append_assoc]⟩

/-- The runtime goes back over the segments to where they start. -/
theorem skipDataSegments_parse {module_ : DataModule} {segments : List DataSegment}
    {output output' : List UInt8} (h : parseDataSegments module_ output segments = .ok output') :
    skipDataSegments segments.length output' = .ok output := by
  -- the segment written last is the first one on the way back
  induction segments using List.reverseRecOn generalizing output' with
  | nil => exact congrArg Except.ok (Except.ok.inj h).symm
  | append_singleton segments segment ih =>
      rw [parseDataSegments_append] at h
      obtain ⟨output1, hfirst, hlast⟩ := exists_of_bind_ok h
      obtain ⟨output2, hsegment, hnil⟩ := exists_of_bind_ok hlast
      obtain rfl : output2 = output' := Except.ok.inj hnil
      obtain ⟨-, -, hwrite⟩ := parseDataSegment_ok hsegment
      obtain ⟨data, rfl, hlength, -⟩ := writeDataSegment_ok hwrite
      rw [List.length_append, List.length_singleton]
      simp only [skipDataSegments, readNextValue32_append, pSubI_append hlength, bind,
        Except.bind]
      exact ih hfirst

/-! ### What is written for the data segments -/

/-- The output holds the segments behind the part in front of them, and their number. -/
def DataTrailer.IsIn (trailer : DataTrailer) (output : List UInt8) : Prop :=
  ∃ records after, output =
      trailer.before ++ records ++ bytesLE 4 trailer.numDataSegments.toNat ++ after ∧
    skipDataSegments trailer.segments.length (trailer.before ++ records) = .ok trailer.before

/-- The number behind the segments is the number of segments. -/
def DataTrailer.Matches (trailer : DataTrailer) : Prop :=
  trailer.numDataSegments.toNat = trailer.segments.length

/-- If the data count section counts segments, the data section is there. The largest number
stands for a number that is not known. -/
def CountsDataSegments (sections : List Section) : Prop :=
  ∀ n, Section.dataCount n ∈ sections →
    n = 0 ∨ n = numDataSegmentsUnset ∨ ∃ segments, Section.data segments ∈ sections

/-- What the sections say about the number of data segments, in front of the data section. -/
def Counted (done : List Section) (numDataSegments : UInt32) : Prop :=
  ((∀ n, Section.dataCount n ∉ done) ∧ numDataSegments = numDataSegmentsUnset) ∨
    ∀ n, Section.dataCount n ∈ done ↔ n = numDataSegments

/-- What holds while the sections in `done` have been parsed and the ones in `expected` are
still to come: up to the data section nothing is written for the data segments, behind it the
output has the segments and their number. -/
structure LoopInvariant (done : List Section) (expected : List SectionType)
    (state : SectionState) : Prop where
  suffix : expected <:+ sectionOrder
  uncounted : .dataCount ∈ expected →
    (∀ n, Section.dataCount n ∉ done) ∧ state.numDataSegments = numDataSegmentsUnset
  pending : .data ∈ expected → state.dataTrailer = none ∧
    (∀ segments, Section.data segments ∉ done) ∧ Counted done state.numDataSegments
  written : .data ∉ expected → ∃ trailer, state.dataTrailer = some trailer ∧
    trailer.IsIn state.output ∧ (trailer.Matches ↔ CountsDataSegments done)

/-- What is appended later changes nothing. -/
theorem DataTrailer.IsIn.append {trailer : DataTrailer} {output : List UInt8}
    (h : trailer.IsIn output) (bytes : List UInt8) : trailer.IsIn (output ++ bytes) := by
  obtain ⟨records, after, rfl, hskip⟩ := h
  exact ⟨records, after ++ bytes, by simp, hskip⟩

/-- Appending changes the output only. -/
theorem SectionState.append_ok {state state' : SectionState}
    {appended : Except BinaryError (List UInt8)} (h : state.append appended = .ok state') :
    ∃ bytes, state' = { state with output := state.output ++ bytes } := by
  simp only [SectionState.append] at h
  split at h
  · case _ output houtput =>
      obtain ⟨bytes, -, happend⟩ := exists_of_bind_ok houtput
      exact ⟨bytes, by rw [← Except.ok.inj h, memWriterAppend_ok happend]⟩
  · simp at h

/-- Only the action for the data section does more than a check. -/
theorem postSectionAction_eq {t : SectionType} {state state' : SectionState} (ht : t ≠ .data)
    (h : postSectionAction t state = .ok state') : state' = state := by
  cases t with
  | data => exact absurd rfl ht
  | code =>
      simp only [postSectionAction] at h
      split at h
      · simp at h
      · exact (Except.ok.inj h).symm
  | _ => exact (Except.ok.inj h).symm

/-- The action behind a section does not move to another one. -/
theorem postSectionAction_expectedSections {t : SectionType} {state state' : SectionState}
    (h : postSectionAction t state = .ok state') :
    state'.expectedSections = state.expectedSections := by
  by_cases ht : t = .data
  · subst ht
    simp only [postSectionAction] at h
    split at h
    · rw [← Except.ok.inj h]
    · simp at h
  · rw [postSectionAction_eq ht h]

/-- A section that is not the data section has another type. -/
theorem Section.sectionType?_ne_data {section_ : Section} {t : SectionType}
    (hdata : ∀ segments, section_ ≠ .data segments) (ht : section_.sectionType? = some t) :
    t ≠ .data := by
  rintro rfl
  cases section_ with
  | data segments => exact hdata segments rfl
  | plain section_ appended => cases section_ <;> simp [sectionType?, PlainSection.sectionType] at ht
  | _ => simp [sectionType?] at ht

/-- The parser of a section the order applies to does not move to another section. -/
theorem SectionState.parse_expectedSections {state state' : SectionState} {section_ : Section}
    {t : SectionType} (ht : section_.sectionType? = some t)
    (h : state.parse section_ = .ok state') :
    state'.expectedSections = state.expectedSections := by
  cases section_ with
  | custom => simp [Section.sectionType?] at ht
  | name functionNames => simp [Section.sectionType?] at ht
  | plain section_ appended =>
      obtain ⟨bytes, rfl⟩ := append_ok h
      rfl
  | function n =>
      obtain rfl := Except.ok.inj h
      rfl
  | memory memoryInitialSize =>
      cases memoryInitialSize <;>
        · obtain ⟨bytes, rfl⟩ := append_ok h
          rfl
  | dataCount n =>
      obtain rfl := Except.ok.inj h
      rfl
  | code n bodies =>
      simp only [parse] at h
      split at h
      · simp at h
      · obtain ⟨bytes, rfl⟩ := append_ok h
        rfl
  | data segments =>
      simp only [parse, parseData] at h
      split at h
      · simp at h
      · split at h
        · rw [← Except.ok.inj h]
        · simp at h

/-- The parsers of the other sections append to the output, and neither write data segments
nor say how many there are. -/
theorem SectionState.parse_other {state state' : SectionState} {section_ : Section}
    {t : SectionType} (hcount : ∀ n, section_ ≠ .dataCount n)
    (hdata : ∀ segments, section_ ≠ .data segments) (ht : section_.sectionType? = some t)
    (h : state.parse section_ = .ok state') :
    (∃ bytes, state'.output = state.output ++ bytes) ∧
      state'.numDataSegments = state.numDataSegments ∧ state'.dataTrailer = state.dataTrailer := by
  cases section_ with
  | custom => simp [Section.sectionType?] at ht
  | name functionNames => simp [Section.sectionType?] at ht
  | plain section_ appended =>
      obtain ⟨bytes, rfl⟩ := append_ok h
      exact ⟨⟨bytes, rfl⟩, rfl, rfl⟩
  | function n =>
      obtain rfl := Except.ok.inj h
      exact ⟨⟨[], by simp⟩, rfl, rfl⟩
  | memory memoryInitialSize =>
      cases memoryInitialSize <;>
        · obtain ⟨bytes, rfl⟩ := append_ok h
          exact ⟨⟨bytes, rfl⟩, rfl, rfl⟩
  | dataCount n => exact absurd rfl (hcount n)
  | code n bodies =>
      simp only [parse] at h
      split at h
      · simp at h
      · obtain ⟨bytes, rfl⟩ := append_ok h
        exact ⟨⟨bytes, rfl⟩, rfl, rfl⟩
  | data segments => exact absurd rfl (hdata segments)

/-- A section that is not about the data segments leaves what the sections say of them. -/
theorem countsDataSegments_append {done : List Section} {section_ : Section}
    (hcount : ∀ n, section_ ≠ .dataCount n) (hdata : ∀ segments, section_ ≠ .data segments) :
    CountsDataSegments (done ++ [section_]) ↔ CountsDataSegments done := by
  simp only [CountsDataSegments, List.mem_append, List.mem_singleton]
  constructor
  · intro h n hn
    rcases h n (.inl hn) with hzero | hunset | ⟨segments, hmem | heq⟩
    · exact .inl hzero
    · exact .inr (.inl hunset)
    · exact .inr (.inr ⟨segments, hmem⟩)
    · exact absurd heq.symm (hdata segments)
  · rintro h n (hn | heq)
    · rcases h n hn with hzero | hunset | ⟨segments, hmem⟩
      · exact .inl hzero
      · exact .inr (.inl hunset)
      · exact .inr (.inr ⟨segments, .inl hmem⟩)
    · exact absurd heq.symm (hcount n)

namespace LoopInvariant

variable {done : List Section} {expected rest : List SectionType} {state state' : SectionState}

/-- A state that differs in nothing the invariant is about, with more output behind the data
segments. -/
theorem of_append (h : LoopInvariant done expected state) {bytes : List UInt8}
    (houtput : state'.output = state.output ++ bytes)
    (hnum : state'.numDataSegments = state.numDataSegments)
    (htrailer : state'.dataTrailer = state.dataTrailer) :
    LoopInvariant done expected state' where
  suffix := h.suffix
  uncounted hmem := hnum ▸ h.uncounted hmem
  pending hmem := by
    rw [htrailer, hnum]
    exact h.pending hmem
  written hmem := by
    obtain ⟨trailer, heq, hin, hmatches⟩ := h.written hmem
    exact ⟨trailer, htrailer.trans heq, houtput ▸ hin.append bytes, hmatches⟩

/-- A state that differs in nothing the invariant is about. -/
theorem congr (h : LoopInvariant done expected state) (houtput : state'.output = state.output)
    (hnum : state'.numDataSegments = state.numDataSegments)
    (htrailer : state'.dataTrailer = state.dataTrailer) : LoopInvariant done expected state' :=
  h.of_append (houtput.trans (List.append_nil _).symm) hnum htrailer

/-- A section that is not about the data segments. -/
theorem snoc (h : LoopInvariant done expected state) (section_ : Section)
    (hcount : ∀ n, section_ ≠ .dataCount n) (hdata : ∀ segments, section_ ≠ .data segments) :
    LoopInvariant (done ++ [section_]) expected state where
  suffix := h.suffix
  uncounted hmem := by
    obtain ⟨hnone, hunset⟩ := h.uncounted hmem
    refine ⟨fun n hn => ?_, hunset⟩
    rcases List.mem_append.mp hn with hn | hn
    · exact hnone n hn
    · exact hcount n (List.mem_singleton.mp hn).symm
  pending hmem := by
    obtain ⟨htrailer, hnone, hcounted⟩ := h.pending hmem
    have hsame : ∀ n, Section.dataCount n ∈ done ++ [section_] ↔ Section.dataCount n ∈ done :=
      fun n => by simp [(hcount n).symm]
    refine ⟨htrailer, fun segments hs => ?_, ?_⟩
    · rcases List.mem_append.mp hs with hs | hs
      · exact hnone segments hs
      · exact hdata segments (List.mem_singleton.mp hs).symm
    · simpa only [Counted, hsame] using hcounted
  written hmem := by
    obtain ⟨trailer, heq, hin, hmatches⟩ := h.written hmem
    exact ⟨trailer, heq, hin, hmatches.trans (countsDataSegments_append hcount hdata).symm⟩

/-- A section that is not about the data segments is behind. -/
theorem tail {t : SectionType} (h : LoopInvariant done (t :: rest) state)
    (hdata : t ≠ .data) : LoopInvariant done rest state where
  suffix := (List.suffix_cons t rest).trans h.suffix
  uncounted hmem := h.uncounted (List.mem_cons_of_mem t hmem)
  pending hmem := h.pending (List.mem_cons_of_mem t hmem)
  written hmem := h.written (by simp [hmem, Ne.symm hdata])

/-- Behind the data section nothing about the data segments is left to come. -/
theorem data_notMem {t : SectionType} (h : LoopInvariant done (t :: rest) state)
    (ht : t = .data) : SectionType.data ∉ rest ∧ SectionType.dataCount ∉ rest := by
  subst ht
  have hsublist := h.suffix.sublist
  have hnodup : (SectionType.data :: rest).Nodup := hsublist.nodup (by decide)
  refine ⟨(List.nodup_cons.mp hnodup).1, fun hmem => ?_⟩
  -- the data count section is in front of the data section
  have hpair : sectionOrder.Pairwise fun a b => ¬ (a = .data ∧ b = .dataCount) := by decide
  exact (List.pairwise_cons.mp (hpair.sublist hsublist)).1 _ hmem ⟨rfl, rfl⟩

/-- The number of segments is written where the data section would be. -/
theorem skipData (h : LoopInvariant done (.data :: rest) state)
    (hpost : postSectionAction .data state = .ok state') : LoopInvariant done rest state' := by
  obtain ⟨hdata, hcount⟩ := h.data_notMem rfl
  obtain ⟨htrailer, hnone, hcounted⟩ := h.pending List.mem_cons_self
  refine ⟨(List.suffix_cons _ rest).trans h.suffix, fun hmem => absurd hmem hcount,
    fun hmem => absurd hmem hdata, fun _ => ?_⟩
  simp only [postSectionAction, htrailer, Option.getD_none] at hpost
  split at hpost
  · case _ output houtput =>
      obtain rfl := Except.ok.inj hpost
      obtain rfl := memWriterWrite32_ok houtput
      refine ⟨_, rfl, ⟨[], [], by simp, by simp [skipDataSegments]⟩, ?_⟩
      simp only [DataTrailer.Matches, List.length_nil, CountsDataSegments]
      rcases hcounted with ⟨hno, hunset⟩ | hiff
      · simp [hunset, hno]
      · simp only [hiff, forall_eq, hnone, exists_false, or_false]
        split
        · case _ hunset => simp [hunset]
        · case _ hne =>
            simp only [hne, or_false]
            exact ⟨fun hzero => UInt32.toNat_inj.mp hzero, fun hzero => by simp [hzero]⟩
  · simp at hpost

/-- The data section writes the segments and their number. -/
theorem parseData (h : LoopInvariant done (.data :: rest) state) {segments : List DataSegment}
    {parsed : SectionState} (hparse : state.parseData segments = .ok parsed)
    (hpost : postSectionAction .data parsed = .ok state') :
    LoopInvariant (done ++ [.data segments]) rest state' := by
  obtain ⟨hdata, hcount⟩ := h.data_notMem rfl
  refine ⟨(List.suffix_cons _ rest).trans h.suffix, fun hmem => absurd hmem hcount,
    fun hmem => absurd hmem hdata, fun _ => ?_⟩
  simp only [SectionState.parseData] at hparse
  split at hparse
  · simp at hparse
  · split at hparse
    · case _ output hsegments =>
        obtain rfl := Except.ok.inj hparse
        simp only [postSectionAction, Option.getD_some] at hpost
        split at hpost
        · case _ output' hwrite =>
            obtain rfl := Except.ok.inj hpost
            -- the output is too short for the number that stands for an unknown one
            have hlength := parseDataSegments_length hsegments
            have hbound : output.length ≤ uint32Max := by
              simp only [memWriterWrite32, memWriterAppend, length_bytesLE] at hwrite
              split at hwrite
              · simp at hwrite
              · omega
            simp only [uint32Max] at hbound
            have hnum : (UInt32.ofNat segments.length).toNat = segments.length := by
              rw [UInt32.toNat_ofNat']
              omega
            have hne : UInt32.ofNat segments.length ≠ numDataSegmentsUnset := by
              intro heq
              have := congrArg UInt32.toNat heq
              simp only [hnum, numDataSegmentsUnset, UInt32.reduceToNat] at this
              omega
            obtain ⟨records, rfl⟩ := parseDataSegments_prefix hsegments
            refine ⟨_, rfl, ⟨records, [], ?_, skipDataSegments_parse hsegments⟩, ?_⟩
            · simpa using memWriterWrite32_ok hwrite
            · have hall : CountsDataSegments (done ++ [.data segments]) := fun n _ =>
                .inr (.inr ⟨segments, by simp⟩)
              simp only [DataTrailer.Matches, if_neg hne, hnum, hall]
        · simp at hpost
    · simp at hparse

/-- The data count section says how many segments there are. -/
theorem dataCount (h : LoopInvariant done (.dataCount :: rest) state) {numDataSegments : UInt32} :
    LoopInvariant (done ++ [.dataCount numDataSegments]) rest { state with numDataSegments } := by
  obtain ⟨hnone, -⟩ := h.uncounted List.mem_cons_self
  have hnodup : (SectionType.dataCount :: rest).Nodup := h.suffix.sublist.nodup (by decide)
  have hdata : SectionType.data ∈ rest := by
    have hdata' : SectionType.data ∈ SectionType.dataCount :: rest := by
      obtain ⟨front, hfront⟩ := h.suffix
      have hmem : SectionType.data ∈ front ++ SectionType.dataCount :: rest :=
        hfront ▸ (by decide : SectionType.data ∈ sectionOrder)
      rcases List.mem_append.mp hmem with hmem | hmem
      · -- the data count section is in front of the data section
        have hpair : sectionOrder.Pairwise fun a b => ¬ (a = .data ∧ b = .dataCount) := by decide
        rw [← hfront] at hpair
        exact absurd ⟨rfl, rfl⟩ ((List.pairwise_append.mp hpair).2.2 _ hmem _ List.mem_cons_self)
      · exact hmem
    simpa using hdata'
  obtain ⟨htrailer, hnodata, -⟩ := h.pending (List.mem_cons_of_mem _ hdata)
  refine ⟨(List.suffix_cons _ rest).trans h.suffix,
    fun hmem => absurd hmem (List.nodup_cons.mp hnodup).1, fun _ => ⟨htrailer, ?_, .inr ?_⟩,
    fun hmem => absurd hdata hmem⟩
  · simp [hnodata]
  · simp [hnone]

/-- On the way to a section all actions in front of it are performed. -/
theorem moveToTargetSection {t : SectionType} (h : LoopInvariant done expected state)
    (hmove : WasmCompiler.moveToTargetSection t expected state = .ok state') :
    ∃ rest, state'.expectedSections = t :: rest ∧ LoopInvariant done (t :: rest) state' := by
  induction expected generalizing state with
  | nil => simp [WasmCompiler.moveToTargetSection] at hmove
  | cons expected rest ih =>
      simp only [WasmCompiler.moveToTargetSection] at hmove
      split at hmove
      · case _ heq =>
          subst heq
          obtain rfl := Except.ok.inj hmove
          exact ⟨rest, rfl, h.congr rfl rfl rfl⟩
      · obtain ⟨state1, hpost, hrest⟩ := exists_of_bind_ok hmove
        by_cases hdata : expected = .data
        · subst hdata
          exact ih (h.skipData hpost) hrest
        · rw [postSectionAction_eq hdata hpost] at hrest
          exact ih (h.tail hdata) hrest

/-- **One section** keeps the invariant. -/
theorem parseSection (h : LoopInvariant done state.expectedSections state) {section_ : Section}
    (hparse : WasmCompiler.parseSection state section_ = .ok state') :
    LoopInvariant (done ++ [section_]) state'.expectedSections state' := by
  cases htype : section_.sectionType? with
  | none =>
      simp only [WasmCompiler.parseSection, htype] at hparse
      cases section_ with
      | custom =>
          obtain rfl := Except.ok.inj hparse
          exact h.snoc .custom (by simp) (by simp)
      | name functionNames =>
          simp only [SectionState.parse] at hparse
          split at hparse
          · simp at hparse
          · obtain ⟨state1, hmove, happend⟩ := exists_of_bind_ok hparse
            have hstart : LoopInvariant done state.expectedSections
                { state with nameSectionHandled := true } := h.congr rfl rfl rfl
            obtain ⟨rest, hexpected, hmoved⟩ := hstart.moveToTargetSection hmove
            obtain ⟨bytes, rfl⟩ := SectionState.append_ok happend
            rw [← hexpected] at hmoved
            have hnamed : LoopInvariant done state1.expectedSections
                { state1 with output := state1.output ++ bytes } := hmoved.of_append rfl rfl rfl
            exact hnamed.snoc (.name functionNames) (by simp) (by simp)
      | _ => simp [Section.sectionType?] at htype
  | some t =>
      simp only [WasmCompiler.parseSection, htype] at hparse
      obtain ⟨state1, hmove, hparse⟩ := exists_of_bind_ok hparse
      obtain ⟨state2, hparsed, hparse⟩ := exists_of_bind_ok hparse
      obtain ⟨state3, hpost, hparse⟩ := exists_of_bind_ok hparse
      obtain rfl := Except.ok.inj hparse
      obtain ⟨rest, hexpected, hmoved⟩ := h.moveToTargetSection hmove
      have hkept : state3.expectedSections = state1.expectedSections :=
        (postSectionAction_expectedSections hpost).trans
          (SectionState.parse_expectedSections htype hparsed)
      have htail : state3.expectedSections.tail = rest := by rw [hkept, hexpected, List.tail_cons]
      simp only [htail]
      have hfinal : LoopInvariant (done ++ [section_]) rest state3 := by
        cases section_ with
        | data segments =>
            obtain rfl : SectionType.data = t := Option.some.inj htype
            exact hmoved.parseData hparsed hpost
        | dataCount n =>
            obtain rfl : SectionType.dataCount = t := Option.some.inj htype
            obtain rfl := Except.ok.inj hparsed
            rw [postSectionAction_eq (by decide) hpost]
            exact hmoved.dataCount
        | custom => simp [Section.sectionType?] at htype
        | name functionNames => simp [Section.sectionType?] at htype
        | _ =>
            have hother := SectionState.parse_other (by simp) (by simp) htype hparsed
            obtain ⟨⟨bytes, houtput⟩, hnum, htrailer⟩ := hother
            have hdata : t ≠ .data := Section.sectionType?_ne_data (by simp) htype
            rw [postSectionAction_eq hdata hpost]
            exact ((hmoved.of_append houtput hnum htrailer).tail hdata).snoc _ (by simp)
              (by simp)
      exact hfinal.congr rfl rfl rfl

/-- **The loop over the sections** keeps the invariant. -/
theorem parseSections {sections : List Section}
    (h : LoopInvariant done state.expectedSections state)
    (hparse : WasmCompiler.parseSections state sections = .ok state') :
    LoopInvariant (done ++ sections) state'.expectedSections state' := by
  induction sections generalizing done state with
  | nil =>
      obtain rfl := Except.ok.inj hparse
      simpa using h
  | cons section_ rest ih =>
      obtain ⟨state1, hsection, hrest⟩ := exists_of_bind_ok hparse
      have := ih (h.parseSection hsection) hrest
      rwa [List.append_assoc, List.singleton_append] at this

end LoopInvariant

/-! ### The whole compilation -/

/-- **What a compilation writes for the data segments**: the output has the segments and a
number behind them, and the number is right exactly if the data count section may say what it
says. -/
theorem startCompilation_dataTrailer {trapHandler : List UInt8} {sections : List Section}
    {trailing : Except BinaryError (List UInt8)} {state : SectionState}
    (h : startCompilation trapHandler sections trailing = .ok state) :
    ∃ trailer, state.dataTrailer = some trailer ∧ trailer.IsIn state.output ∧
      (trailer.Matches ↔ CountsDataSegments sections) := by
  obtain ⟨state1, hsections, h⟩ := exists_of_bind_ok h
  obtain ⟨state2, hmove, h⟩ := exists_of_bind_ok h
  obtain ⟨state3, hname, h⟩ := exists_of_bind_ok h
  have hstart : LoopInvariant [] sectionOrder { output := trapHandler } :=
    ⟨List.suffix_rfl, fun _ => ⟨by simp, rfl⟩, fun _ => ⟨rfl, by simp, .inl ⟨by simp, rfl⟩⟩,
      fun hmem => absurd (by decide) hmem⟩
  have hloop := hstart.parseSections hsections
  obtain ⟨rest, -, hmoved⟩ := hloop.moveToTargetSection hmove
  obtain ⟨bytes, rfl⟩ : ∃ bytes, state3 = { state2 with output := state2.output ++ bytes } := by
    split at hname
    · exact ⟨[], by simpa using (Except.ok.inj hname).symm⟩
    · exact SectionState.append_ok hname
  obtain ⟨bytes', rfl⟩ := SectionState.append_ok h
  have hdata : SectionType.data ∉ SectionType.placeholder :: rest := by
    have hpair : sectionOrder.Pairwise fun a b => ¬ (a = .placeholder ∧ b = .data) := by decide
    intro hmem
    rcases List.mem_cons.mp hmem with heq | hmem
    · simp at heq
    · exact (List.pairwise_cons.mp (hpair.sublist hmoved.suffix.sublist)).1 _ hmem ⟨rfl, rfl⟩
  obtain ⟨trailer, heq, hin, hmatches⟩ := hmoved.written hdata
  exact ⟨trailer, heq, (hin.append bytes).append bytes', by simpa using hmatches⟩

/-- The stored number is the number of serialised segments, and the loop of the runtime over
so many segments ends where the segments start. -/
def SectionState.DataTrailerMatches (state : SectionState) : Prop :=
  ∃ trailer, state.dataTrailer = some trailer ∧ trailer.Matches ∧
    ∃ records after, state.output =
        trailer.before ++ records ++ bytesLE 4 trailer.numDataSegments.toNat ++ after ∧
      skipDataSegments trailer.numDataSegments.toNat (trailer.before ++ records) =
        .ok trailer.before

/-- **The number of data segments**: in every accepted module the stored number is the number
of serialised segments if and only if a data count section that counts segments is followed by
a data section. -/
theorem dataTrailer_matches_iff {trapHandler : List UInt8} {sections : List Section}
    {trailing : Except BinaryError (List UInt8)} {state : SectionState}
    (haccepted : startCompilation trapHandler sections trailing = .ok state) :
    state.DataTrailerMatches ↔ CountsDataSegments sections := by
  obtain ⟨trailer, htrailer, ⟨records, after, houtput, hskip⟩, hmatches⟩ :=
    startCompilation_dataTrailer haccepted
  rw [← hmatches]
  constructor
  · rintro ⟨trailer', htrailer', hmatches', -⟩
    obtain rfl : trailer' = trailer := Option.some.inj (htrailer'.symm.trans htrailer)
    exact hmatches'
  · intro hcount
    exact ⟨trailer, htrailer, hcount, records, after, houtput, hcount ▸ hskip⟩

/-- A segment of one byte is short enough. -/
theorem oneByte_lt : [(1 : UInt8)].length < 2 ^ 32 := by decide

/-- A module with a data count section and the segment it counts. -/
def countedSections : List Section :=
  [.memory (some 1), .dataCount 1, .data [⟨.active, .i32Const 0 true, [1], oneByte_lt⟩]]

/-- What is compiled from it. -/
def countedState : SectionState where
  expectedSections := [.placeholder]
  hasMemory := true
  memoryInitialSize := 1
  numDataSegments := 1
  output := [1, 0, 0, 0, 1, 0, 0, 0, 0, 0, 0, 0, 1, 0, 0, 0, 0, 0, 0, 0, 4, 0, 0, 0]
  dataTrailer := some ⟨[], [⟨.active, .i32Const 0 true, [1], oneByte_lt⟩], 1⟩

/-- The segment that is counted is there. -/
theorem dataTrailer_matches_iff_countedSections :
    startCompilation [] countedSections (.ok []) = .ok countedState ∧
      (countedState.DataTrailerMatches ↔ CountsDataSegments countedSections) := by
  have haccepted : startCompilation [] countedSections (.ok []) = .ok countedState := rfl
  exact ⟨haccepted, dataTrailer_matches_iff haccepted⟩

/-- A module that counts a data segment and has none. -/
def uncountedSections : List Section := [.dataCount 1]

/-- The module is accepted, and the number it stores is not the number of segments. -/
theorem uncountedSections_not_matches :
    ∃ state, startCompilation [] uncountedSections (.ok []) = .ok state ∧
      ¬ state.DataTrailerMatches := by
  refine ⟨_, rfl, ?_⟩
  rintro ⟨trailer, htrailer, hmatches, -⟩
  obtain rfl := Option.some.inj htrailer
  revert hmatches
  simp only [DataTrailer.Matches]
  decide

end WasmCompiler
