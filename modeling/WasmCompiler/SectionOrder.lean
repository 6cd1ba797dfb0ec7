import WasmCompiler.BytecodeReader
import WasmCompiler.ModuleSerialization
import WasmCompiler.SectionLoop

/-!
# The Order of the Sections

The section loop of `Frontend::startCompilation` over the bytes of a module. It moves two cursors:
that of the bytecode, which has to stand at the declared end behind each section, and that in the
order of the sections, which runs the actions of all sections that are skipped. What the parsers
of the single sections do besides moving the cursor and counting functions and data segments is a
parameter, as are the writers of the trailing sections. The loop keeps a ledger of what it ran.

A custom section with the name `name` moves the cursor of the order behind all sections.

## Main results

* `orderKeys_sublist_iff`: the orders that the loop accepts, in one list.
* `parse_ok`: what the parsers of the sections keep, and what they count.
* `moveToTargetSection_ok`: the actions of the skipped sections are run in order.
-/

namespace WasmCompiler

/-! ### Sections in the bytecode -/

/-- The section type with a number. -/
def SectionType.ofByte (sectionType : UInt8) : Option SectionType :=
  [.custom, .type, .import_, .function, .table, .memory, .global, .export_, .start, .element,
    .code, .data, .dataCount, .placeholder][sectionType.toNat]?

/-- The errors of the section loop; `parser` stands for those that the parsers and writers
throw. -/
inductive LoopError where
  | bytecode (error : ParseError)
  | sectionOfSize0
  | sectionSizeExtendsPastModuleSize
  | duplicateSectionOrSectionsInWrongOrder
  | multipleNameSectionsEncountered
  | invalidSectionType
  | sectionSizeMismatch
  | tooManyImportedFunctions
  | maximumNumberOfFunctionsExceeded
  | functionAndCodeSectionMismatchOfNumberOfDefinitions
  | missingFunctionBodies
  | dataCountAndDataSectionHaveInconsistentLengths
  | parser (errorCode : ℕ)
  deriving DecidableEq, Repr

/-- The errors with which an order of sections is refused. -/
def LoopError.IsOrderError (e : LoopError) : Prop :=
  e = .duplicateSectionOrSectionsInWrongOrder ∨ e = .multipleNameSectionsEncountered ∨
    e = .invalidSectionType

instance (e : LoopError) : Decidable e.IsOrderError :=
  inferInstanceAs (Decidable (_ ∨ _))

/-- Run a function of the reader. -/
def ofBytecode {α : Type} (x : Except ParseError α) : Except LoopError α :=
  match x with
  | .ok a => .ok a
  | .error e => .error (.bytecode e)

/-- A section: its number, and where its content starts and ends. -/
structure RawSection where
  id : UInt8
  content : BytecodeReader
  sectionEnd : ℕ
  deriving DecidableEq, Repr

/-- The head of a section. -/
def readSectionHeader (reader : BytecodeReader) : Except LoopError RawSection :=
  ofBytecode reader.readByte >>= fun (id, reader) =>
  ofBytecode reader.readUInt32 >>= fun (sectionSize, content) =>
  if sectionSize = 0 then .error .sectionOfSize0
  else if content.remaining.length < sectionSize.toNat then
    .error .sectionSizeExtendsPastModuleSize
  else .ok ⟨id, content, content.ptr + sectionSize.toNat⟩

/-- The name of a custom section; it is read without regard to the end of the section. -/
def readSectionName (content : BytecodeReader) :
    Except LoopError (List UInt8 × BytecodeReader) :=
  ofBytecode content.readUInt32 >>= fun (sectionNameLength, reader) =>
  let sectionName := reader.remaining.take sectionNameLength.toNat
  ofBytecode (reader.step sectionNameLength.toNat) >>= fun reader =>
  if !validateUTF8 sectionName then .error (.bytecode .malformedUTF8Sequence)
  else .ok (sectionName, reader)

/-- `name`. -/
def nameSectionName : List UInt8 := [0x6E, 0x61, 0x6D, 0x65]

/-! ### The loop -/

/-- The trailing sections of the binary; that of the function names is written by the name
section if there is one. -/
inductive Trailer where
  | functionNames
  | startFunction
  | wasmGlobals
  | dynamicFunctionImport
  | memory
  | exportedGlobals
  | exportedFunctions
  | linkStatus
  | table
  | tableEntryFunctionWrapper
  | moduleMetadata
  deriving DecidableEq, Repr

/-- What the ledger holds: a section that was parsed, an action, a trailing section. -/
inductive LoopEvent where
  | section_ (sectionType : SectionType)
  | action (sectionType : SectionType)
  | trailer (trailer : Trailer)
  deriving DecidableEq, Repr

/-- The numbers of the module info that the loop reads. -/
structure ModuleCounts where
  numTotalFunctions : UInt32 := 0
  numImportedFunctions : UInt32 := 0
  numFunctionBodiesProduced : UInt32 := 0
  numDataSegments : UInt32 := numDataSegmentsUnset
  deriving DecidableEq, Repr

/-- `numTotalFunctions - numImportedFunctions`. -/
def ModuleCounts.numNonImportedFunctions (counts : ModuleCounts) : UInt32 :=
  counts.numTotalFunctions - counts.numImportedFunctions

/-- The state of the loop. -/
structure LoopState (σ : Type) where
  compiler : σ
  /-- The sections from `expectedSectionSequenceIndex` on. -/
  expectedSections : List SectionType := sectionOrder
  nameSectionHandled : Bool := false
  counts : ModuleCounts := {}
  events : List LoopEvent := []
  /-- Where the parser of each section left the cursor. -/
  cursors : List ℕ := []

/-- Note an event. -/
def LoopState.log {σ : Type} (state : LoopState σ) (event : LoopEvent) : LoopState σ :=
  { state with events := state.events ++ [event] }

/-- What the parsers and writers do to the rest of the compiler. A parser gives the position at
which it leaves the cursor. -/
structure SectionParsers (σ : Type) where
  /-- The type, table, memory, global, export, start and element sections. -/
  plain : SectionType → ModuleCounts → σ → BytecodeReader → Except ℕ (σ × ℕ)
  /-- The import section, with the number of imported functions. -/
  imports : σ → BytecodeReader → Except ℕ (UInt32 × σ × ℕ)
  functionType : σ → BytecodeReader → Except ℕ (σ × ℕ)
  /-- What is written in front of the function bodies. -/
  codePreamble : ModuleCounts → σ → Except ℕ σ
  functionBody : ModuleCounts → σ → BytecodeReader → Except ℕ (σ × ℕ)
  dataSegment : σ → BytecodeReader → Except ℕ (σ × ℕ)
  /-- The subsections of the name section, and what is written behind them. -/
  functionNames : σ → ℕ → BytecodeReader → Except ℕ (σ × ℕ)
  /-- The action of the function section: the array of the positions of the functions. -/
  initializePositions : UInt32 → σ → Except ℕ σ
  /-- The action of the data section: the number of the data segments is written. -/
  writeNumDataSegments : UInt32 → σ → Except ℕ σ
  serialize : Trailer → ModuleCounts → σ → Except ℕ σ

namespace SectionParsers

variable {σ : Type}

/-- Change the rest of the compiler. -/
def update (state : LoopState σ) (x : Except ℕ σ) : Except LoopError (LoopState σ) :=
  match x with
  | .ok compiler => .ok { state with compiler }
  | .error errorCode => .error (.parser errorCode)

/-- Run a parser. -/
def run (state : LoopState σ) (reader : BytecodeReader) (x : Except ℕ (σ × ℕ)) :
    Except LoopError (LoopState σ × BytecodeReader) :=
  match x with
  | .ok (compiler, ptr) =>
      ofBytecode (reader.jumpTo ptr) >>= fun reader => .ok ({ state with compiler }, reader)
  | .error errorCode => .error (.parser errorCode)

/-- `Frontend::postSectionAction`. -/
def postSectionAction (parsers : SectionParsers σ) (sectionType : SectionType)
    (state : LoopState σ) : Except LoopError (LoopState σ) :=
  let state := state.log (.action sectionType)
  match sectionType with
  | .function =>
      update state (parsers.initializePositions state.counts.numTotalFunctions state.compiler)
  | .code =>
      if state.counts.numFunctionBodiesProduced < state.counts.numNonImportedFunctions then
        .error .missingFunctionBodies
      else .ok state
  | .data =>
      let numDataSegments :=
        if state.counts.numDataSegments = numDataSegmentsUnset then 0
        else state.counts.numDataSegments
      update { state with counts := { state.counts with numDataSegments } }
        (parsers.writeNumDataSegments numDataSegments state.compiler)
  | _ => .ok state

/-- `moveToTargetSection`: run the actions of the skipped sections. -/
def moveToTargetSection (parsers : SectionParsers σ) (sectionType : Option SectionType) :
    List SectionType → LoopState σ → Except LoopError (LoopState σ)
  | [], _ => .error .duplicateSectionOrSectionsInWrongOrder
  | expected :: rest, state =>
      if some expected = sectionType then .ok { state with expectedSections := expected :: rest }
      else
        postSectionAction parsers expected state >>= moveToTargetSection parsers sectionType rest

/-- A parser that is run a number of times. -/
def repeatParser (parser : LoopState σ → BytecodeReader →
    Except LoopError (LoopState σ × BytecodeReader)) :
    ℕ → LoopState σ → BytecodeReader → Except LoopError (LoopState σ × BytecodeReader)
  | 0, state, reader => .ok (state, reader)
  | count + 1, state, reader =>
      parser state reader >>= fun (state, reader) => repeatParser parser count state reader

/-- `Frontend::parseImportSection`. -/
def parseImportSection (parsers : SectionParsers σ) (state : LoopState σ)
    (reader : BytecodeReader) : Except LoopError (LoopState σ × BytecodeReader) :=
  match parsers.imports state.compiler reader with
  | .error errorCode => .error (.parser errorCode)
  | .ok (imported, compiler, ptr) =>
      if numImportedFunctions < imported.toNat then .error .tooManyImportedFunctions
      else
        ofBytecode (reader.jumpTo ptr) >>= fun reader =>
        .ok ({ state with
          compiler
          counts := { state.counts with
            numImportedFunctions := imported
            numTotalFunctions := imported } }, reader)

/-- `ImplementationLimits::numNonImportedFunctions`. -/
def maxNonImportedFunctions : ℕ := 2 ^ 20

/-- `Frontend::parseFunctionSection`. -/
def parseFunctionSection (parsers : SectionParsers σ) (state : LoopState σ)
    (reader : BytecodeReader) : Except LoopError (LoopState σ × BytecodeReader) :=
  ofBytecode reader.readUInt32 >>= fun (numNonImportedFunctions, reader) =>
  if maxNonImportedFunctions < numNonImportedFunctions.toNat then
    .error .maximumNumberOfFunctionsExceeded
  else
    repeatParser (fun state reader => run state reader (parsers.functionType state.compiler reader))
      numNonImportedFunctions.toNat
      { state with
        counts := { state.counts with
          numTotalFunctions := state.counts.numImportedFunctions + numNonImportedFunctions } }
      reader

/-- The body of a function. -/
def parseFunctionBody (parsers : SectionParsers σ) (state : LoopState σ)
    (reader : BytecodeReader) : Except LoopError (LoopState σ × BytecodeReader) :=
  run state reader (parsers.functionBody state.counts state.compiler reader) >>=
    fun (state, reader) =>
  .ok ({ state with
    counts := { state.counts with
      numFunctionBodiesProduced := state.counts.numFunctionBodiesProduced + 1 } }, reader)

/-- `Frontend::parseCodeSection`. -/
def parseCodeSection (parsers : SectionParsers σ) (state : LoopState σ)
    (reader : BytecodeReader) : Except LoopError (LoopState σ × BytecodeReader) :=
  update state (parsers.codePreamble state.counts state.compiler) >>= fun state =>
  ofBytecode reader.readUInt32 >>= fun (numNonImportedFunctions, reader) =>
  if numNonImportedFunctions ≠ state.counts.numNonImportedFunctions then
    .error .functionAndCodeSectionMismatchOfNumberOfDefinitions
  else repeatParser (parseFunctionBody parsers) numNonImportedFunctions.toNat state reader

/-- `Frontend::parseDataCountSection`. -/
def parseDataCountSection (state : LoopState σ) (reader : BytecodeReader) :
    Except LoopError (LoopState σ × BytecodeReader) :=
  ofBytecode reader.readUInt32 >>= fun (numDataSegments, reader) =>
  .ok ({ state with counts := { state.counts with numDataSegments } }, reader)

/-- `Frontend::parseDataSection`. -/
def parseDataSection (parsers : SectionParsers σ) (state : LoopState σ)
    (reader : BytecodeReader) : Except LoopError (LoopState σ × BytecodeReader) :=
  ofBytecode reader.readUInt32 >>= fun (numDataSegments, reader) =>
  if state.counts.numDataSegments ≠ numDataSegmentsUnset ∧
      state.counts.numDataSegments ≠ numDataSegments then
    .error .dataCountAndDataSectionHaveInconsistentLengths
  else
    repeatParser (fun state reader => run state reader (parsers.dataSegment state.compiler reader))
      numDataSegments.toNat { state with counts := { state.counts with numDataSegments } } reader

/-- `Frontend::parseCustomSection`: the cursor jumps to the end of the section. The name section
is behind all others. -/
def parseCustomSection (parsers : SectionParsers σ) (state : LoopState σ)
    (section_ : RawSection) : Except LoopError (LoopState σ × BytecodeReader) :=
  readSectionName section_.content >>= fun (sectionName, reader) =>
  (if sectionName = nameSectionName then
    if state.nameSectionHandled then .error .multipleNameSectionsEncountered
    else
      moveToTargetSection parsers (some .placeholder) state.expectedSections
        { state with nameSectionHandled := true } >>= fun state =>
      run state reader (parsers.functionNames state.compiler section_.sectionEnd reader) >>=
        fun (state, reader) =>
      .ok (state.log (.trailer .functionNames), reader)
  else .ok (state, reader)) >>= fun (state, reader) =>
  ofBytecode (reader.jumpTo section_.sectionEnd) >>= fun reader => .ok (state, reader)

/-- The parser of a section that is not a custom section. -/
def parse (parsers : SectionParsers σ) (state : LoopState σ) (reader : BytecodeReader) :
    Option SectionType → Except LoopError (LoopState σ × BytecodeReader)
  | some .import_ => parseImportSection parsers state reader
  | some .function => parseFunctionSection parsers state reader
  | some .code => parseCodeSection parsers state reader
  | some .data => parseDataSection parsers state reader
  | some .dataCount => parseDataCountSection state reader
  | some .custom => .error .invalidSectionType
  | some .placeholder => .error .invalidSectionType
  | some sectionType =>
      run state reader (parsers.plain sectionType state.counts state.compiler reader)
  | none => .error .invalidSectionType

/-- A section that is not a custom section: the actions of those in front of it, the section, and
its action. -/
def parseOrderedSection (parsers : SectionParsers σ) (state : LoopState σ)
    (section_ : RawSection) : Except LoopError (LoopState σ × BytecodeReader) :=
  let sectionType := SectionType.ofByte section_.id
  moveToTargetSection parsers sectionType state.expectedSections state >>= fun state =>
  parse parsers state section_.content sectionType >>= fun (state, reader) =>
  match sectionType with
  | none => .error .invalidSectionType
  | some sectionType =>
      postSectionAction parsers sectionType (state.log (.section_ sectionType)) >>= fun state =>
      .ok ({ state with expectedSections := state.expectedSections.tail }, reader)

/-- One turn of the loop. -/
def parseSection (parsers : SectionParsers σ) (state : LoopState σ) (reader : BytecodeReader) :
    Except LoopError (LoopState σ × BytecodeReader) :=
  readSectionHeader reader >>= fun section_ =>
  (if SectionType.ofByte section_.id = some .custom then
    parseCustomSection parsers state section_
  else parseOrderedSection parsers state section_) >>= fun (state, reader) =>
  if reader.ptr ≠ section_.sectionEnd then .error .sectionSizeMismatch
  else .ok ({ state with cursors := state.cursors ++ [reader.ptr] }, reader)

/-- The loop, as long as there are bytes left; `none` if the fuel does not suffice. -/
def parseSections (parsers : SectionParsers σ) :
    ℕ → LoopState σ → BytecodeReader → Option (Except LoopError (LoopState σ))
  | fuel, state, reader =>
      if !reader.hasNextByte then some (.ok state)
      else
        match fuel with
        | 0 => none
        | fuel + 1 =>
            match parseSection parsers state reader with
            | .error e => some (.error e)
            | .ok (state, reader) => parseSections parsers fuel state reader

/-- Write the trailing sections. -/
def serializeAll (parsers : SectionParsers σ) :
    List Trailer → LoopState σ → Except LoopError (LoopState σ)
  | [], state => .ok state
  | trailer :: rest, state =>
      update (state.log (.trailer trailer))
        (parsers.serialize trailer state.counts state.compiler) >>= serializeAll parsers rest

/-- The trailing sections behind that of the function names. -/
def trailers : List Trailer :=
  [.startFunction, .wasmGlobals, .dynamicFunctionImport, .memory, .exportedGlobals,
    .exportedFunctions, .linkStatus, .table, .tableEntryFunctionWrapper, .moduleMetadata]

/-- Behind the loop: the actions of the sections that did not follow, and the trailing
sections. -/
def finish (parsers : SectionParsers σ) (state : LoopState σ) : Except LoopError (LoopState σ) :=
  moveToTargetSection parsers (some .placeholder) state.expectedSections state >>= fun state =>
  serializeAll parsers (if state.nameSectionHandled then trailers else .functionNames :: trailers)
    state

/-- `Frontend::startCompilation` behind the version. Each section takes a byte of fuel. -/
def startCompilation (parsers : SectionParsers σ) (compiler : σ) (reader : BytecodeReader) :
    Option (Except LoopError (LoopState σ)) :=
  (parseSections parsers reader.remaining.length { compiler } reader).map
    fun result => result >>= finish parsers

end SectionParsers

/-! ### Orders -/

/-- The numbers of the sections in the order of the WebAssembly specification. -/
def webAssemblyOrder : List UInt8 := [1, 2, 3, 4, 5, 6, 7, 8, 9, 12, 10, 11]

/-- A custom section. -/
def RawSection.isCustom (section_ : RawSection) : Bool := section_.id == 0

/-- A custom section with the name `name`. -/
def RawSection.isName (section_ : RawSection) : Bool :=
  section_.isCustom &&
    match readSectionName section_.content with
    | .ok (sectionName, _) => sectionName == nameSectionName
    | .error _ => false

/-- The sections that are not custom sections are in order, and none is there twice. -/
def InWebAssemblyOrder (sections : List RawSection) : Prop :=
  ((sections.map (·.id)).filter (· ≠ 0)).Sublist webAssemblyOrder

instance (sections : List RawSection) : Decidable (InWebAssemblyOrder sections) :=
  inferInstanceAs (Decidable (List.Sublist _ _))

/-- Behind the name section there are only custom sections, and no second name section. -/
def NameSectionLast (sections : List RawSection) : Prop :=
  sections.Pairwise fun section_ later =>
    section_.isName = true → later.isCustom = true ∧ later.isName = false

/-- The sections that stand one behind the other from a cursor on, up to another cursor. -/
inductive SectionsFrom : BytecodeReader → List RawSection → BytecodeReader → Prop
  | nil (reader : BytecodeReader) : SectionsFrom reader [] reader
  | cons {reader next last : BytecodeReader} {section_ : RawSection} {sections : List RawSection} :
      readSectionHeader reader = .ok section_ →
      section_.content.jumpTo section_.sectionEnd = .ok next →
      SectionsFrom next sections last → SectionsFrom reader (section_ :: sections) last

/-- The number with which the content of a section starts. -/
def leadingCount (content : BytecodeReader) : UInt32 :=
  match content.readUInt32 with
  | .ok (count, _) => count
  | .error _ => 0

/-- The number with which the section of an id starts, `0` if there is no such section. -/
def declaredCount (id : UInt8) (sections : List RawSection) : UInt32 :=
  ((sections.find? (·.id == id)).map fun section_ => leadingCount section_.content).getD 0

/-- What stands in front of a number of sections is in front of all sections. -/
theorem SectionsFrom.prefix_of_complete {reader last last' : BytecodeReader}
    {sections sections' : List RawSection} (h : SectionsFrom reader sections last)
    (h' : SectionsFrom reader sections' last') (hlast : last'.remaining = []) :
    sections <+: sections' := by
  induction h generalizing sections' with
  | nil reader => exact List.nil_prefix
  | cons hheader hjump hrest ih =>
      cases h' with
      | nil =>
          have hread : ∀ reader : BytecodeReader, reader.remaining = [] →
              readSectionHeader reader = .error (.bytecode .bytecodeOutOfRange) := by
            rintro ⟨consumed, remaining⟩ rfl
            rfl
          rw [hread _ hlast] at hheader
          cases hheader
      | cons hheader' hjump' hrest' =>
          obtain rfl := Except.ok.inj (hheader.symm.trans hheader')
          obtain rfl := Except.ok.inj (hjump.symm.trans hjump')
          exact (List.prefix_cons_inj _).mpr (ih hrest')

/-- The beginning of an order that is accepted is accepted. -/
theorem inOrder_of_first {sections sections' : List RawSection} (hfirst : sections <+: sections')
    (h : InWebAssemblyOrder sections' ∧ NameSectionLast sections') :
    InWebAssemblyOrder sections ∧ NameSectionLast sections :=
  ⟨((hfirst.sublist.map _).filter _).trans h.1, h.2.sublist hfirst.sublist⟩

/-- What the order sees of a section: its number, for the name section that of the custom
sections, and nothing for the other custom sections. -/
def RawSection.orderKey (section_ : RawSection) : Option UInt8 :=
  if section_.isCustom then if section_.isName then some 0 else none else some section_.id

/-- A list with its end marked: what is left out of the end is nothing behind the mark. -/
theorem sublist_append_singleton_iff {α : Type} [DecidableEq α] {keys order : List α} {mark : α}
    (hmark : mark ∉ order) : keys.Sublist (order ++ [mark]) ↔
      (keys.filter (· ≠ mark)).Sublist order ∧ keys.Pairwise fun key _ => key ≠ mark := by
  constructor
  · intro h
    obtain ⟨front, back, rfl, hfront, hback⟩ := List.sublist_append_iff.mp h
    have hne : ∀ key ∈ front, key ≠ mark := by
      rintro key hkey rfl
      exact hmark (hfront.subset hkey)
    have hkeep : front.filter (· ≠ mark) = front :=
      List.filter_eq_self.mpr fun key hkey => by simpa using hne key hkey
    have hmarks : ∀ key ∈ back, key = mark := fun key hkey => by
      simpa using hback.subset hkey
    have hdrop : back.filter (· ≠ mark) = [] :=
      List.filter_eq_nil_iff.mpr fun key hkey => by simp [hmarks key hkey]
    refine ⟨by rw [List.filter_append, hkeep, hdrop, List.append_nil]; exact hfront, ?_⟩
    refine List.pairwise_append.mpr ⟨List.pairwise_of_forall_mem_list fun key hkey _ _ =>
      hne key hkey, ?_, fun key hkey _ _ => hne key hkey⟩
    rcases List.sublist_singleton.mp hback with rfl | rfl
    · exact List.Pairwise.nil
    · exact List.pairwise_singleton _ _
  · rintro ⟨hfilter, hpairwise⟩
    rcases List.eq_nil_or_concat keys with rfl | ⟨front, last, rfl⟩
    · exact List.nil_sublist _
    · rw [List.concat_eq_append] at hfilter hpairwise ⊢
      have hne : ∀ key ∈ front, key ≠ mark := fun key hkey =>
        (List.pairwise_append.mp hpairwise).2.2 key hkey last (by simp)
      have hkeep : front.filter (· ≠ mark) = front :=
        List.filter_eq_self.mpr fun key hkey => by simpa using hne key hkey
      rw [List.filter_append, hkeep] at hfilter
      by_cases hlast : last = mark
      · subst hlast
        exact ((List.sublist_append_left _ _).trans hfilter).append (List.Sublist.refl _)
      · rw [List.filter_singleton] at hfilter
        simp only [hlast, ne_eq, not_false_eq_true, decide_true] at hfilter
        exact hfilter.trans (List.sublist_append_left _ _)

/-- What the order accepts, in terms of what it sees. -/
theorem orderKeys_sublist_iff (sections : List RawSection) :
    (sections.filterMap RawSection.orderKey).Sublist (webAssemblyOrder ++ [0]) ↔
      InWebAssemblyOrder sections ∧ NameSectionLast sections := by
  have hfilter : (sections.filterMap RawSection.orderKey).filter (· ≠ 0) =
      (sections.map (·.id)).filter (· ≠ 0) := by
    induction sections with
    | nil => rfl
    | cons section_ sections ih =>
        by_cases hcustom : section_.id = 0
        · by_cases hname : section_.isName <;>
            simpa [RawSection.orderKey, RawSection.isCustom, hcustom, hname] using ih
        · simpa [RawSection.orderKey, RawSection.isCustom, hcustom] using ih
  rw [sublist_append_singleton_iff (by decide), hfilter, List.pairwise_filterMap]
  refine and_congr_right fun _ => ?_
  have hpair : ∀ section_ later : RawSection,
      (∀ key, section_.orderKey = some key → ∀ key', later.orderKey = some key' → key ≠ 0) ↔
        (section_.isName = true → later.isCustom = true ∧ later.isName = false) := by
    intro section_ later
    have hcustom : section_.isName = true → section_.isCustom = true := fun h =>
      (Bool.and_eq_true_iff.mp h).1
    have hid : section_.isCustom = false → section_.id ≠ 0 := fun h => by
      simpa [RawSection.isCustom] using h
    rcases hc : section_.isCustom <;> rcases hn : section_.isName <;>
      rcases hc' : later.isCustom <;> rcases hn' : later.isName <;>
        simp_all [RawSection.orderKey]
  exact List.Pairwise.iff hpair

/-! ### The cursor of the bytecode -/

namespace BytecodeReader

variable {reader reader' : BytecodeReader}

/-- A jump stays in the bytecode. -/
theorem bytecode_of_jumpTo {ptr : ℕ} (h : reader.jumpTo ptr = .ok reader') :
    reader'.bytecode = reader.bytecode ∧ reader'.ptr = ptr := by
  obtain ⟨hle, hjump⟩ := of_ite_throw_eq_ok h
  obtain rfl := Except.ok.inj hjump
  refine ⟨List.take_append_drop _ _, ?_⟩
  rw [BytecodeReader.ptr, List.length_take]
  omega

/-- A cursor of the bytecode is reached by a jump. -/
theorem jumpTo_ptr (h : reader'.bytecode = reader.bytecode) :
    reader.jumpTo reader'.ptr = .ok reader' := by
  have hlength : reader'.ptr ≤ reader.bytecode.length := by
    rw [← h, bytecode, List.length_append]
    exact Nat.le_add_right _ _
  rw [jumpTo, if_neg (by omega), ← h, bytecode, BytecodeReader.ptr, List.take_left,
    List.drop_left]

/-- A step stays in the bytecode. -/
theorem bytecode_of_step {count : ℕ} (h : reader.step count = .ok reader') :
    reader'.bytecode = reader.bytecode :=
  (bytecode_of_jumpTo h).1

/-- Reading an integer stays in the bytecode and moves forwards. -/
theorem bytecode_of_readUInt32 {value : UInt32} (h : reader.readUInt32 = .ok (value, reader')) :
    reader'.bytecode = reader.bytecode ∧ reader.ptr ≤ reader'.ptr := by
  obtain ⟨encoding, rest, hremaining, -, rfl⟩ := encoding_of_readUInt32 h
  simp only [bytecode, ptr, hremaining, List.append_assoc, List.length_append, true_and]
  omega

/-- Reading a byte stays in the bytecode and moves forwards. -/
theorem bytecode_of_readByte {byte : UInt8} (h : reader.readByte = .ok (byte, reader')) :
    reader'.bytecode = reader.bytecode ∧ reader.ptr < reader'.ptr := by
  obtain ⟨hremaining, hconsumed⟩ := remaining_of_readByte h
  simp only [bytecode, ptr, hremaining, hconsumed, List.append_assoc, List.length_append,
    List.singleton_append, List.length_singleton, true_and]
  omega

/-- The bytes in front of the cursor and behind it. -/
theorem ptr_add_length (reader : BytecodeReader) :
    reader.ptr + reader.remaining.length = reader.bytecode.length :=
  (List.length_append ..).symm

end BytecodeReader

/-- The error of a sequence is that of one of its parts. -/
theorem error_of_bind {ε α β : Type} {x : Except ε α} {f : α → Except ε β} {e : ε}
    (h : (x >>= f) = .error e) : x = .error e ∨ ∃ a, x = .ok a ∧ f a = .error e := by
  cases x with
  | error e' =>
      obtain rfl := Except.error.inj h
      exact .inl rfl
  | ok a => exact .inr ⟨a, rfl, h⟩

/-- Running a function of the reader. -/
theorem ofBytecode_eq_ok {α : Type} {x : Except ParseError α} {a : α} (h : ofBytecode x = .ok a) :
    x = .ok a := by
  cases x with
  | error e => cases h
  | ok a' =>
      obtain rfl := Except.ok.inj h
      rfl

/-- An error of the reader is no order error. -/
theorem not_isOrderError_of_ofBytecode {α : Type} {x : Except ParseError α} {e : LoopError}
    (h : ofBytecode x = .error e) : ¬e.IsOrderError := by
  cases x with
  | error e' =>
      obtain rfl := Except.error.inj h
      rintro (h | h | h) <;> cases h
  | ok a => cases h

/-- The head of a section is in front of its content. -/
theorem readSectionHeader_spec {reader : BytecodeReader} {section_ : RawSection}
    (h : readSectionHeader reader = .ok section_) :
    section_.content.bytecode = reader.bytecode ∧ reader.ptr < section_.content.ptr ∧
      section_.content.ptr ≤ section_.sectionEnd := by
  obtain ⟨⟨id, reader₁⟩, hbyte, h⟩ := exists_of_bind_ok h
  obtain ⟨⟨sectionSize, content⟩, hsize, h⟩ := exists_of_bind_ok h
  obtain ⟨-, h⟩ := of_ite_throw_eq_ok h
  obtain ⟨-, h⟩ := of_ite_throw_eq_ok h
  obtain rfl := Except.ok.inj h
  obtain ⟨hbytecode, hlt⟩ := BytecodeReader.bytecode_of_readByte (ofBytecode_eq_ok hbyte)
  obtain ⟨hbytecode', hle⟩ := BytecodeReader.bytecode_of_readUInt32 (ofBytecode_eq_ok hsize)
  exact ⟨hbytecode'.trans hbytecode, by dsimp only; omega, Nat.le_add_right _ _⟩

/-- An error at the head of a section is no order error. -/
theorem readSectionHeader_error {reader : BytecodeReader} {e : LoopError}
    (h : readSectionHeader reader = .error e) : ¬e.IsOrderError := by
  rcases error_of_bind h with h | ⟨⟨id, reader₁⟩, -, h⟩
  · exact not_isOrderError_of_ofBytecode h
  · rcases error_of_bind h with h | ⟨⟨sectionSize, content⟩, -, h⟩
    · exact not_isOrderError_of_ofBytecode h
    · dsimp only at h
      split at h
      · obtain rfl := Except.error.inj h
        decide
      · split at h
        · obtain rfl := Except.error.inj h
          decide
        · cases h

/-- The declared end of a section is in the bytecode. -/
theorem readSectionHeader_jumpTo {reader : BytecodeReader} {section_ : RawSection}
    (h : readSectionHeader reader = .ok section_) :
    ∃ next, section_.content.jumpTo section_.sectionEnd = .ok next := by
  obtain ⟨⟨id, reader₁⟩, hbyte, h⟩ := exists_of_bind_ok h
  obtain ⟨⟨sectionSize, content⟩, hsize, h⟩ := exists_of_bind_ok h
  obtain ⟨-, h⟩ := of_ite_throw_eq_ok h
  obtain ⟨hle, h⟩ := of_ite_throw_eq_ok h
  obtain rfl := Except.ok.inj h
  have hlength := content.ptr_add_length
  rw [BytecodeReader.jumpTo, if_neg (by dsimp only; omega)]
  exact ⟨_, rfl⟩

/-! ### What the parsers keep -/

/-- A parser changes nothing that the loop reads but the counts. -/
structure KeepsLoop {σ : Type} (state state' : LoopState σ) : Prop where
  expectedSections_eq : state'.expectedSections = state.expectedSections
  nameSectionHandled_eq : state'.nameSectionHandled = state.nameSectionHandled
  events_eq : state'.events = state.events
  cursors_eq : state'.cursors = state.cursors

namespace KeepsLoop

variable {σ : Type} {state state' state'' : LoopState σ}

/-- Nothing done. -/
theorem refl (state : LoopState σ) : KeepsLoop state state := ⟨rfl, rfl, rfl, rfl⟩

end KeepsLoop

/-- What the parser of a section does to the counts of functions and function bodies. -/
structure ParsedCounts (sectionType : SectionType) (content : BytecodeReader)
    (counts counts' : ModuleCounts) : Prop where
  functions : counts'.numNonImportedFunctions =
    if sectionType = .function then leadingCount content
    else if sectionType = .import_ then 0 else counts.numNonImportedFunctions
  bodies : counts'.numFunctionBodiesProduced =
    if sectionType = .code then counts.numFunctionBodiesProduced + leadingCount content
    else counts.numFunctionBodiesProduced
  agree : sectionType = .code → leadingCount content = counts.numNonImportedFunctions

namespace SectionParsers

variable {σ : Type} {parsers : SectionParsers σ} {state state' : LoopState σ}
  {reader reader' : BytecodeReader} {e : LoopError}

/-- A change of the rest of the compiler. -/
theorem update_ok {x : Except ℕ σ} (h : update state x = .ok state') :
    ∃ compiler, state' = { state with compiler } := by
  cases x with
  | error errorCode => cases h
  | ok compiler => exact ⟨compiler, (Except.ok.inj h).symm⟩

/-- An error of a writer is no order error. -/
theorem update_error {x : Except ℕ σ} (h : update state x = .error e) : ¬e.IsOrderError := by
  cases x with
  | error errorCode =>
      obtain rfl := Except.error.inj h
      rintro (h | h | h) <;> cases h
  | ok compiler => cases h

/-- A parser that was run. -/
theorem run_ok {x : Except ℕ (σ × ℕ)} (h : run state reader x = .ok (state', reader')) :
    (∃ compiler, state' = { state with compiler }) ∧ reader'.bytecode = reader.bytecode := by
  cases x with
  | error errorCode => cases h
  | ok result =>
      obtain ⟨compiler, ptr⟩ := result
      obtain ⟨reader₁, hjump, h⟩ := exists_of_bind_ok h
      obtain ⟨rfl, rfl⟩ := Prod.mk.inj (Except.ok.inj h)
      exact ⟨⟨compiler, rfl⟩, (BytecodeReader.bytecode_of_jumpTo (ofBytecode_eq_ok hjump)).1⟩

/-- An error of a parser is no order error. -/
theorem run_error {x : Except ℕ (σ × ℕ)} (h : run state reader x = .error e) :
    ¬e.IsOrderError := by
  cases x with
  | error errorCode =>
      obtain rfl := Except.error.inj h
      rintro (h | h | h) <;> cases h
  | ok result =>
      obtain ⟨compiler, ptr⟩ := result
      rcases error_of_bind h with h | ⟨reader₁, -, h⟩
      · exact not_isOrderError_of_ofBytecode h
      · cases h

/-- A parser that is run a number of times keeps what it keeps each time. -/
theorem repeatParser_ok {parser : LoopState σ → BytecodeReader →
      Except LoopError (LoopState σ × BytecodeReader)} {R : ℕ → LoopState σ → LoopState σ → Prop}
    (hzero : ∀ state, R 0 state state)
    (hsucc : ∀ count state state' state'' reader reader',
      parser state reader = .ok (state', reader') → R count state' state'' →
        R (count + 1) state state'')
    (hbytecode : ∀ state reader state' reader', parser state reader = .ok (state', reader') →
      reader'.bytecode = reader.bytecode) (count : ℕ)
    (h : repeatParser parser count state reader = .ok (state', reader')) :
    R count state state' ∧ reader'.bytecode = reader.bytecode := by
  induction count generalizing state reader with
  | zero =>
      obtain ⟨rfl, rfl⟩ := Prod.mk.inj (Except.ok.inj h)
      exact ⟨hzero _, rfl⟩
  | succ count ih =>
      obtain ⟨⟨state₁, reader₁⟩, hfirst, hrest⟩ := exists_of_bind_ok h
      obtain ⟨hR, hbytes⟩ := ih hrest
      exact ⟨hsucc _ _ _ _ _ _ hfirst hR, hbytes.trans (hbytecode _ _ _ _ hfirst)⟩

/-- The error of a parser that is run a number of times. -/
theorem repeatParser_error {parser : LoopState σ → BytecodeReader →
      Except LoopError (LoopState σ × BytecodeReader)}
    (herror : ∀ state reader e, parser state reader = .error e → ¬e.IsOrderError) (count : ℕ)
    (h : repeatParser parser count state reader = .error e) : ¬e.IsOrderError := by
  induction count generalizing state reader with
  | zero => cases h
  | succ count ih =>
      rcases error_of_bind h with h | ⟨⟨state₁, reader₁⟩, -, h⟩
      · exact herror _ _ _ h
      · exact ih h

/-- A parser that is run a number of times and only changes the rest of the compiler. -/
theorem repeatParser_run {parser : σ → BytecodeReader → Except ℕ (σ × ℕ)} (count : ℕ)
    (h : repeatParser (fun state reader => run state reader (parser state.compiler reader)) count
      state reader = .ok (state', reader')) :
    (KeepsLoop state state' ∧ state'.counts = state.counts) ∧
      reader'.bytecode = reader.bytecode := by
  refine repeatParser_ok
    (R := fun _ state state' => KeepsLoop state state' ∧ state'.counts = state.counts)
    (fun state => ⟨.refl state, rfl⟩) ?_ (fun _ _ _ _ h => (run_ok h).2) count h
  rintro count state₁ state₂ state₃ reader₁ reader₂ hrun ⟨hkeeps, hcounts⟩
  obtain ⟨⟨compiler, rfl⟩, -⟩ := run_ok hrun
  exact ⟨⟨hkeeps.1, hkeeps.2, hkeeps.3, hkeeps.4⟩, hcounts⟩

/-- The function bodies are counted. -/
theorem repeatParser_functionBody (count : ℕ)
    (h : repeatParser (parseFunctionBody parsers) count state reader = .ok (state', reader')) :
    (KeepsLoop state state' ∧
      state'.counts.numNonImportedFunctions = state.counts.numNonImportedFunctions ∧
      state'.counts.numFunctionBodiesProduced =
        state.counts.numFunctionBodiesProduced + UInt32.ofNat count) ∧
      reader'.bytecode = reader.bytecode := by
  have hbody : ∀ (state₁ : LoopState σ) reader₁ state₂ reader₂,
      parseFunctionBody parsers state₁ reader₁ = .ok (state₂, reader₂) →
        (∃ compiler, state₂ = { state₁ with
          compiler
          counts := { state₁.counts with
            numFunctionBodiesProduced := state₁.counts.numFunctionBodiesProduced + 1 } }) ∧
          reader₂.bytecode = reader₁.bytecode := by
    intro state₁ reader₁ state₂ reader₂ h
    obtain ⟨⟨state₃, reader₃⟩, hrun, h⟩ := exists_of_bind_ok h
    obtain ⟨rfl, rfl⟩ := Prod.mk.inj (Except.ok.inj h)
    obtain ⟨⟨compiler, rfl⟩, hbytes⟩ := run_ok hrun
    exact ⟨⟨compiler, rfl⟩, hbytes⟩
  refine repeatParser_ok
    (R := fun count state state' => KeepsLoop state state' ∧
      state'.counts.numNonImportedFunctions = state.counts.numNonImportedFunctions ∧
      state'.counts.numFunctionBodiesProduced =
        state.counts.numFunctionBodiesProduced + UInt32.ofNat count)
    (fun state => ⟨.refl state, rfl, by simp⟩) ?_ (fun _ _ _ _ h => (hbody _ _ _ _ h).2) count h
  rintro count state₁ state₂ state₃ reader₁ reader₂ hfirst ⟨hkeeps, hfunctions, hbodies⟩
  obtain ⟨⟨compiler, rfl⟩, -⟩ := hbody _ _ _ _ hfirst
  refine ⟨⟨hkeeps.1, hkeeps.2, hkeeps.3, hkeeps.4⟩, hfunctions, hbodies.trans ?_⟩
  have hadd : UInt32.ofNat (count + 1) = 1 + UInt32.ofNat count := by
    rw [UInt32.add_comm, UInt32.ofNat_add]
    rfl
  rw [hadd, ← UInt32.add_assoc]

/-- The parsers of the sections: what they keep, and what they count. -/
theorem parse_ok {sectionType : Option SectionType}
    (h : parse parsers state reader sectionType = .ok (state', reader')) :
    KeepsLoop state state' ∧ reader'.bytecode = reader.bytecode ∧
      ∃ t, sectionType = some t ∧ t ≠ .custom ∧ t ≠ .placeholder ∧
        ParsedCounts t reader state.counts state'.counts := by
  have hplain : ∀ t, t ≠ .function → t ≠ .import_ → t ≠ .code →
      (run state reader (parsers.plain t state.counts state.compiler reader) =
        .ok (state', reader')) → KeepsLoop state state' ∧ reader'.bytecode = reader.bytecode ∧
          ParsedCounts t reader state.counts state'.counts := by
    intro t hfunction himport hcode h
    obtain ⟨⟨compiler, rfl⟩, hbytes⟩ := run_ok h
    exact ⟨⟨rfl, rfl, rfl, rfl⟩, hbytes,
      ⟨by rw [if_neg hfunction, if_neg himport], by rw [if_neg hcode], fun h => absurd h hcode⟩⟩
  have hsome : ∀ t, t ≠ .custom → t ≠ .placeholder → (KeepsLoop state state' ∧
      reader'.bytecode = reader.bytecode ∧ ParsedCounts t reader state.counts state'.counts) →
      KeepsLoop state state' ∧ reader'.bytecode = reader.bytecode ∧
        ∃ t', some t = some t' ∧ t' ≠ .custom ∧ t' ≠ .placeholder ∧
          ParsedCounts t' reader state.counts state'.counts :=
    fun t hcustom hplaceholder h => ⟨h.1, h.2.1, t, rfl, hcustom, hplaceholder, h.2.2⟩
  match sectionType with
  | none => cases h
  | some .custom => cases h
  | some .placeholder => cases h
  | some .type => exact hsome _ nofun nofun (hplain _ nofun nofun nofun h)
  | some .table => exact hsome _ nofun nofun (hplain _ nofun nofun nofun h)
  | some .memory => exact hsome _ nofun nofun (hplain _ nofun nofun nofun h)
  | some .global => exact hsome _ nofun nofun (hplain _ nofun nofun nofun h)
  | some .export_ => exact hsome _ nofun nofun (hplain _ nofun nofun nofun h)
  | some .start => exact hsome _ nofun nofun (hplain _ nofun nofun nofun h)
  | some .element => exact hsome _ nofun nofun (hplain _ nofun nofun nofun h)
  | some .import_ =>
      refine hsome _ nofun nofun ?_
      simp only [parse, parseImportSection] at h
      split at h
      · cases h
      · obtain ⟨-, h⟩ := of_ite_throw_eq_ok h
        obtain ⟨reader₁, hjump, h⟩ := exists_of_bind_ok h
        obtain ⟨rfl, rfl⟩ := Prod.mk.inj (Except.ok.inj h)
        refine ⟨⟨rfl, rfl, rfl, rfl⟩,
          (BytecodeReader.bytecode_of_jumpTo (ofBytecode_eq_ok hjump)).1,
          ⟨?_, rfl, nofun⟩⟩
        simp [ModuleCounts.numNonImportedFunctions]
  | some .function =>
      refine hsome _ nofun nofun ?_
      obtain ⟨⟨count, reader₁⟩, hcount, h⟩ := exists_of_bind_ok h
      obtain ⟨-, h⟩ := of_ite_throw_eq_ok h
      obtain ⟨⟨hkeeps, hcounts⟩, hbytes⟩ := repeatParser_run _ h
      have hcount' := ofBytecode_eq_ok hcount
      refine ⟨⟨hkeeps.1, hkeeps.2, hkeeps.3, hkeeps.4⟩,
        hbytes.trans (BytecodeReader.bytecode_of_readUInt32 hcount').1, ?_, ?_, nofun⟩
      · rw [hcounts, if_pos rfl, leadingCount, hcount']
        exact (congrArg (· - _) (UInt32.add_comm _ _)).trans (UInt32.add_sub_cancel _ _)
      · rw [hcounts]
        rfl
  | some .code =>
      refine hsome _ nofun nofun ?_
      obtain ⟨state₁, hupdate, h⟩ := exists_of_bind_ok h
      obtain ⟨⟨count, reader₁⟩, hcount, h⟩ := exists_of_bind_ok h
      obtain ⟨hagree, h⟩ := of_ite_throw_eq_ok h
      obtain ⟨compiler, rfl⟩ := update_ok hupdate
      obtain ⟨⟨hkeeps, hfunctions, hbodies⟩, hbytes⟩ := repeatParser_functionBody _ h
      have hcount' := ofBytecode_eq_ok hcount
      have hleading : leadingCount reader = count := by rw [leadingCount, hcount']
      refine ⟨⟨hkeeps.1, hkeeps.2, hkeeps.3, hkeeps.4⟩,
        hbytes.trans (BytecodeReader.bytecode_of_readUInt32 hcount').1, hfunctions, ?_, ?_⟩
      · rw [hbodies, hleading, if_pos rfl]
        simp
      · intro _
        rw [hleading]
        exact not_not.mp hagree
  | some .dataCount =>
      refine hsome _ nofun nofun ?_
      obtain ⟨⟨count, reader₁⟩, hcount, h⟩ := exists_of_bind_ok h
      obtain ⟨rfl, rfl⟩ := Prod.mk.inj (Except.ok.inj h)
      exact ⟨⟨rfl, rfl, rfl, rfl⟩,
        (BytecodeReader.bytecode_of_readUInt32 (ofBytecode_eq_ok hcount)).1, rfl, rfl, nofun⟩
  | some .data =>
      refine hsome _ nofun nofun ?_
      obtain ⟨⟨count, reader₁⟩, hcount, h⟩ := exists_of_bind_ok h
      obtain ⟨-, h⟩ := of_ite_throw_eq_ok h
      obtain ⟨⟨hkeeps, hcounts⟩, hbytes⟩ := repeatParser_run _ h
      refine ⟨⟨hkeeps.1, hkeeps.2, hkeeps.3, hkeeps.4⟩,
        hbytes.trans (BytecodeReader.bytecode_of_readUInt32 (ofBytecode_eq_ok hcount)).1, ?_, ?_,
        nofun⟩
      · rw [hcounts]
        rfl
      · rw [hcounts]
        rfl

/-- Only an unknown section is refused with an order error by its parser. -/
theorem parse_error {t : SectionType} (hcustom : t ≠ .custom) (hplaceholder : t ≠ .placeholder)
    (h : parse parsers state reader (some t) = .error e) : ¬e.IsOrderError := by
  match t with
  | .custom => exact absurd rfl hcustom
  | .placeholder => exact absurd rfl hplaceholder
  | .type => exact run_error h
  | .table => exact run_error h
  | .memory => exact run_error h
  | .global => exact run_error h
  | .export_ => exact run_error h
  | .start => exact run_error h
  | .element => exact run_error h
  | .import_ =>
      simp only [parse, parseImportSection] at h
      split at h
      · obtain rfl := Except.error.inj h
        rintro (h | h | h) <;> cases h
      · split at h
        · obtain rfl := Except.error.inj h
          decide
        · rcases error_of_bind h with h | ⟨reader₁, -, h⟩
          · exact not_isOrderError_of_ofBytecode h
          · cases h
  | .function =>
      rcases error_of_bind h with h | ⟨⟨count, reader₁⟩, -, h⟩
      · exact not_isOrderError_of_ofBytecode h
      · dsimp only at h
        split at h
        · obtain rfl := Except.error.inj h
          decide
        · exact repeatParser_error (fun _ _ _ h => run_error h) _ h
  | .code =>
      rcases error_of_bind h with h | ⟨state₁, -, h⟩
      · exact update_error h
      · rcases error_of_bind h with h | ⟨⟨count, reader₁⟩, -, h⟩
        · exact not_isOrderError_of_ofBytecode h
        · dsimp only at h
          split at h
          · obtain rfl := Except.error.inj h
            decide
          · refine repeatParser_error (fun _ _ _ h => ?_) _ h
            rcases error_of_bind h with h | ⟨_, -, h⟩
            · exact run_error h
            · cases h
  | .dataCount =>
      rcases error_of_bind h with h | ⟨⟨count, reader₁⟩, -, h⟩
      · exact not_isOrderError_of_ofBytecode h
      · cases h
  | .data =>
      rcases error_of_bind h with h | ⟨⟨count, reader₁⟩, -, h⟩
      · exact not_isOrderError_of_ofBytecode h
      · dsimp only at h
        split at h
        · obtain rfl := Except.error.inj h
          decide
        · exact repeatParser_error (fun _ _ _ h => run_error h) _ h

/-- An action: it is noted, and leaves the rest of what the loop reads. -/
structure Acted (done : List SectionType) (state state' : LoopState σ) : Prop where
  nameSectionHandled_eq : state'.nameSectionHandled = state.nameSectionHandled
  events_eq : state'.events = state.events ++ done.map .action
  functions_eq : state'.counts.numNonImportedFunctions = state.counts.numNonImportedFunctions
  bodies_eq : state'.counts.numFunctionBodiesProduced = state.counts.numFunctionBodiesProduced
  cursors_eq : state'.cursors = state.cursors
  code : .code ∈ done →
    ¬state.counts.numFunctionBodiesProduced < state.counts.numNonImportedFunctions

/-- The action behind a section. -/
theorem postSectionAction_ok {sectionType : SectionType}
    (h : postSectionAction parsers sectionType state = .ok state') :
    Acted [sectionType] state state' ∧ state'.expectedSections = state.expectedSections := by
  have hother : sectionType ≠ .code → state' = state.log (.action sectionType) →
      Acted [sectionType] state state' ∧ state'.expectedSections = state.expectedSections := by
    rintro hcode rfl
    exact ⟨⟨rfl, rfl, rfl, rfl, rfl, fun h => absurd (List.mem_singleton.mp h).symm hcode⟩, rfl⟩
  match sectionType with
  | .function =>
      obtain ⟨compiler, rfl⟩ := update_ok h
      exact ⟨⟨rfl, rfl, rfl, rfl, rfl, by simp⟩, rfl⟩
  | .code =>
      obtain ⟨hcode, h⟩ := of_ite_throw_eq_ok h
      obtain rfl := Except.ok.inj h
      exact ⟨⟨rfl, rfl, rfl, rfl, rfl, fun _ => hcode⟩, rfl⟩
  | .data =>
      obtain ⟨compiler, rfl⟩ := update_ok h
      exact ⟨⟨rfl, rfl, rfl, rfl, rfl, by simp⟩, rfl⟩
  | .custom => exact hother nofun (Except.ok.inj h).symm
  | .type => exact hother nofun (Except.ok.inj h).symm
  | .import_ => exact hother nofun (Except.ok.inj h).symm
  | .table => exact hother nofun (Except.ok.inj h).symm
  | .memory => exact hother nofun (Except.ok.inj h).symm
  | .global => exact hother nofun (Except.ok.inj h).symm
  | .export_ => exact hother nofun (Except.ok.inj h).symm
  | .start => exact hother nofun (Except.ok.inj h).symm
  | .element => exact hother nofun (Except.ok.inj h).symm
  | .dataCount => exact hother nofun (Except.ok.inj h).symm
  | .placeholder => exact hother nofun (Except.ok.inj h).symm

/-- An error of an action is no order error. -/
theorem postSectionAction_error {sectionType : SectionType}
    (h : postSectionAction parsers sectionType state = .error e) : ¬e.IsOrderError := by
  simp only [postSectionAction] at h
  split at h
  · exact update_error h
  · split at h
    · obtain rfl := Except.error.inj h
      decide
    · cases h
  · exact update_error h
  · cases h

/-- Going to a section: the actions of the skipped ones are run in order. -/
theorem moveToTargetSection_ok {target : Option SectionType} {expected : List SectionType}
    (h : moveToTargetSection parsers target expected state = .ok state') :
    ∃ skipped t rest, expected = skipped ++ t :: rest ∧ target = some t ∧ t ∉ skipped ∧
      state'.expectedSections = t :: rest ∧ Acted skipped state state' := by
  induction expected generalizing state with
  | nil => cases h
  | cons first expected ih =>
      rw [moveToTargetSection] at h
      split at h
      · next htarget =>
          obtain rfl := Except.ok.inj h
          exact ⟨[], first, expected, rfl, htarget.symm, List.not_mem_nil, rfl,
            rfl, (List.append_nil _).symm, rfl, rfl, rfl, nofun⟩
      · next hne =>
          obtain ⟨state₁, haction, h⟩ := exists_of_bind_ok h
          obtain ⟨hacted, -⟩ := postSectionAction_ok haction
          obtain ⟨skipped, t, rest, rfl, rfl, hskipped, hexpected, hacted'⟩ := ih h
          refine ⟨first :: skipped, t, rest, rfl, rfl, ?_, hexpected, ?_⟩
          · rintro (_ | ⟨_, hmem⟩)
            · exact hne rfl
            · exact hskipped hmem
          · refine ⟨hacted'.1.trans hacted.1, ?_, hacted'.3.trans hacted.3,
              hacted'.4.trans hacted.4, hacted'.5.trans hacted.5, ?_⟩
            · rw [hacted'.events_eq, hacted.events_eq]
              simp
            · rintro (_ | ⟨_, hmem⟩)
              · exact hacted.code (List.mem_singleton.mpr rfl)
              · rw [← hacted.bodies_eq, ← hacted.functions_eq]
                exact hacted'.code hmem

/-- The search for a section is refused with an order error if it is not expected any more. -/
theorem moveToTargetSection_error {target : Option SectionType} {expected : List SectionType}
    (h : moveToTargetSection parsers target expected state = .error e) (he : e.IsOrderError) :
    ∀ t, target = some t → t ∉ expected := by
  induction expected generalizing state with
  | nil => exact fun _ _ => List.not_mem_nil
  | cons first expected ih =>
      rw [moveToTargetSection] at h
      split at h
      · cases h
      · next hne =>
          rcases error_of_bind h with h | ⟨state₁, -, h⟩
          · exact absurd he (postSectionAction_error h)
          · rintro t rfl (_ | ⟨_, hmem⟩)
            · exact hne rfl
            · exact ih h t rfl hmem

end SectionParsers

end WasmCompiler
