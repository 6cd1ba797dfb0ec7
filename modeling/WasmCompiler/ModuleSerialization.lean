import WasmCompiler.BackwardRecords
import WasmCompiler.DataSegments
import WasmCompiler.LinkDataLayout

/-!
# The Sections of the Binary

What `Frontend::startCompilation` appends to the output behind the code: the data segments, the
function names, and the sections written by `Frontend::serialize*`. All numbers are written
behind what they count, so that the runtime can read the binary from its end.

A section is a list of records; the writer of a record is a function of its own.
-/

namespace WasmCompiler

/-! ### The module info -/

/-- The machine the compiler is built for. -/
inductive JitTarget where
  | x86_64
  | aarch64
  | tricore
  deriving DecidableEq, Repr

/-- All instructions take a multiple of so many bytes. -/
def JitTarget.instructionSize : JitTarget → ℕ
  | .x86_64 => 1
  | .aarch64 => 4
  | .tricore => 2

/-- The configuration of the compiler. -/
structure CompilerOptions where
  target : JitTarget
  /-- `LINEAR_MEMORY_BOUNDS_CHECKS`. -/
  linearMemoryBoundsChecks : Bool
  stacktraceRecordCount : UInt32
  debugMode : Bool
  count_le : stacktraceRecordCount ≤ 50

/-- The part of the backend that emits the wrappers around functions that are called from
outside: what is appended to an output for a function. -/
structure EntryPoints (target : JitTarget) where
  emitFunctionEntryPoint : List UInt8 → UInt32 → Except BinaryError (List UInt8)
  dvd_length : ∀ output fncIndex code, emitFunctionEntryPoint output fncIndex = .ok code →
    target.instructionSize ∣ code.length

/-- `WasmImportExportType`. -/
inductive WasmImportExportType where
  | func
  | table
  | mem
  | global
  deriving DecidableEq, Repr

/-- One export. -/
structure ModuleExport where
  exportName : List UInt8
  exportType : WasmImportExportType
  index : UInt32
  deriving DecidableEq, Repr

/-- The number that stands for an unknown one. -/
def unknownValue : UInt32 := 0xFFFFFFFF

/-- `ModuleInfo::TableElement`. -/
structure TableElement where
  fncIndex : UInt32 := unknownValue
  exportWrapperOffset : UInt32 := unknownValue
  deriving DecidableEq, Repr

/-- One entry of a subsection with function names. -/
structure FunctionName where
  functionIndex : UInt32
  name : List UInt8
  deriving DecidableEq, Repr

/-- A subsection of the name section; the size that is given for it may be wrong. -/
inductive NameSubSection where
  | function (functionNames : List FunctionName) (sizeMatches : Bool)
  | other
  deriving Repr

/-- What the sections are written from. -/
structure SerializedModule where
  /-- The output in front of the data section. -/
  functionBodies : List UInt8
  dataModule : DataModule
  nameSection : Option (List NameSubSection)
  imports : ImportContext
  linkData : ModuleLinkData
  /-- The types of the functions that are not imported. -/
  functionTypes : List ℕ
  wasmFncBodyBinaryPositions : List UInt32
  startFunctionIndex : Option UInt32
  exports : List ModuleExport
  hasTable : Bool
  tableIsExported : Bool
  tableElements : List TableElement
  /-- `helperFunctionBinaryPositions.landingPad`. -/
  landingPad : UInt32
  landingPad_le : landingPad = unknownValue ∨ landingPad.toNat ≤ functionBodies.length

/-- An entry of an array of the module info. -/
def ofModuleInfo {α : Type} : Option α → Except BinaryError α
  | some a => .ok a
  | none => .error .outOfModuleInfo

/-- The bytes of a string. -/
def stringBytes (s : String) : List UInt8 := s.toList.flatMap String.utf8EncodeChar

/-- `ImplementationLimits::maxStringLength`. -/
def maxStringLength : ℕ := 0x7FFFFFFF

/-- The characters that `strlen_s` counts in a string of the embedder. -/
def cStringBytes (s : String) : List UInt8 :=
  ((stringBytes s).takeWhile (· ≠ 0)).take maxStringLength

namespace SerializedModule

/-- `ModuleInfo::functionIsImported`. -/
def functionIsImported (info : SerializedModule) (fncIndex : UInt32) : Prop :=
  fncIndex.toNat < info.linkData.impFuncDefs.length

instance (info : SerializedModule) (fncIndex : UInt32) :
    Decidable (info.functionIsImported fncIndex) :=
  inferInstanceAs (Decidable (_ < _))

/-- `ModuleInfo::getImpFuncDef`. -/
def getImpFuncDef (info : SerializedModule) (fncIndex : UInt32) : Except BinaryError ImpFuncDef :=
  ofModuleInfo info.linkData.impFuncDefs[fncIndex.toNat]?

/-- `ModuleInfo::getFncSigIndex`. -/
def getFncSigIndex (info : SerializedModule) (fncIndex : UInt32) : Except BinaryError ℕ :=
  if info.functionIsImported fncIndex then (info.getImpFuncDef fncIndex).map (·.sigIndex)
  else ofModuleInfo info.functionTypes[fncIndex.toNat - info.linkData.impFuncDefs.length]?

/-- `ModuleInfo::functionIsBuiltin`. -/
def functionIsBuiltin (info : SerializedModule) (fncIndex : UInt32) : Except BinaryError Bool :=
  if info.functionIsImported fncIndex then
    (info.getImpFuncDef fncIndex).map (·.builtinFunction.isSome)
  else .ok false

/-- `ModuleInfo::functionIsLinked`. -/
def functionIsLinked (info : SerializedModule) (fncIndex : UInt32) : Except BinaryError Bool :=
  if info.functionIsImported fncIndex then (info.getImpFuncDef fncIndex).map (·.linked)
  else .ok (fncIndex.toNat < info.linkData.impFuncDefs.length + info.functionTypes.length)

/-- `ModuleInfo::getGlobalDef`: the imported globals come first. -/
def getGlobalDef (info : SerializedModule) (globalIdx : UInt32) : Except BinaryError GlobalDef :=
  match (info.linkData.importGlobals ++ info.linkData.nonImportGlobals)[globalIdx.toNat]? with
  | some globalDef => .ok globalDef
  | none => .error .globalOutOfRange

/-- The characters of a signature. -/
def signature (info : SerializedModule) (sigIndex : ℕ) : Except BinaryError (List UInt8) :=
  (ofModuleInfo info.imports.types[sigIndex]?).map stringBytes

end SerializedModule

/-! ### Padded parts -/

/-- The difference to the next multiple of a power of two. -/
def deltaToNextPow2 (value pow2 : UInt32) : UInt32 := roundUpToPow2 value pow2 - value

/-- `Backend::execPadding`: instructions that do nothing. -/
def execPadding (target : JitTarget) (paddingSize : UInt32) : List UInt8 :=
  match target with
  | .x86_64 => List.replicate paddingSize.toNat 0x90
  | .aarch64 => []
  | .tricore => if paddingSize = 2 then [0, 0] else []

/-- `writePaddedBinaryBlob`: code, its padding, and its size. -/
def writePaddedBinaryBlob (target : JitTarget) (output code : List UInt8) :
    Except BinaryError (List UInt8) :=
  let wrapperSize := UInt32.ofNat code.length
  memWriterAppend output code >>= fun output =>
  memWriterAppend output (execPadding target (deltaToNextPow2 wrapperSize 2)) >>= fun output =>
  memWriterWrite32 output wrapperSize

/-- Padded characters with their number behind them. -/
def writeString (output string : List UInt8) : Except BinaryError (List UInt8) :=
  memWriterWritePadded output string >>= fun output =>
  memWriterWrite32 output (UInt32.ofNat string.length)

/-- The size of a section that starts behind an output. -/
def writeSectionSize (sectionStart output : List UInt8) : Except BinaryError (List UInt8) :=
  memWriterWrite32 output (UInt32.ofNat (output.length - sectionStart.length))

/-- A section of records with their number and the size of the section behind them. -/
def writeSection {Rec : Type} (write : List UInt8 → Rec → Except BinaryError (List UInt8))
    (output : List UInt8) (records : List Rec) : Except BinaryError (List UInt8) :=
  records.foldlM write output >>= fun body =>
  memWriterWrite32 body (UInt32.ofNat records.length) >>= fun body =>
  writeSectionSize output body

/-! ### Function names -/

/-- What is known in the middle of a code point. -/
structure UTF8State where
  pendingContinuations : ℕ := 0
  totalBytes : ℕ := 0
  codepoint : ℕ := 0

/-- The number of leading ones of a byte. -/
def leadingOnes (byte : UInt8) : ℕ :=
  if byte < 0x80 then 0 else if byte < 0xC0 then 1 else if byte < 0xE0 then 2
  else if byte < 0xF0 then 3 else if byte < 0xF8 then 4 else 5

/-- Whether a code point may be written with a number of bytes. -/
def validCodepoint (totalBytes codepoint : ℕ) : Bool :=
  let bounds : ℕ × ℕ :=
    match totalBytes with
    | 1 => (0x00, 0x7F)
    | 2 => (0x80, 0x7FFF)
    | 3 => (0x800, 0xFFFF)
    | _ => (0x10000, 0x10FFFF)
  bounds.1 ≤ codepoint ∧ codepoint ≤ bounds.2 ∧ ¬ (0xD800 ≤ codepoint ∧ codepoint ≤ 0xDFFF)

/-- One byte of a string. -/
def UTF8State.next (state : UTF8State) (byte : UInt8) : Option UTF8State :=
  let ones := leadingOnes byte
  if state.pendingContinuations = 0 ∧ ones = 0 then some {}
  else if state.pendingContinuations = 0 ∧ (ones = 1 ∨ ones > 4) then none
  else if state.pendingContinuations ≠ 0 ∧ ones ≠ 1 then none
  else
    let started :=
      if state.pendingContinuations = 0 then
        { pendingContinuations := ones, totalBytes := ones, codepoint := 0 }
      else state
    let pendingContinuations := started.pendingContinuations - 1
    let bits := byte.toNat % 2 ^ (7 - ones)
    let codepoint := started.codepoint + bits * 2 ^ (6 * pendingContinuations)
    if pendingContinuations = 0 ∧ !validCodepoint started.totalBytes codepoint then none
    else some { started with pendingContinuations, codepoint }

/-- `internal_validateUTF8`. -/
def validateUTF8 (string : List UInt8) : Bool :=
  match string.foldlM UTF8State.next {} with
  | some state => state.pendingContinuations == 0
  | none => false

/-- Append the name of a function. -/
def writeFunctionName (output : List UInt8) (functionName : FunctionName) :
    Except BinaryError (List UInt8) :=
  if !validateUTF8 functionName.name then .error .malformedUTF8Sequence
  else
    writeString output functionName.name >>= fun output =>
    memWriterWrite32 output functionName.functionIndex

/-- The subsections of the name section. The number of names is the one of the last subsection
with function names. -/
def parseNameSubSections :
    List UInt8 → UInt32 → List NameSubSection → Except BinaryError (List UInt8 × UInt32)
  | output, numFunctionNames, [] => .ok (output, numFunctionNames)
  | output, _, .function functionNames sizeMatches :: rest =>
      functionNames.foldlM writeFunctionName output >>= fun output =>
      if sizeMatches then
        parseNameSubSections output (UInt32.ofNat functionNames.length) rest
      else .error .subsectionSizeMismatch
  | output, numFunctionNames, .other :: rest =>
      parseNameSubSections output numFunctionNames rest

/-- The section with the function names: `parseCustomSection` for the name section, or what is
written for a module without one. -/
def serializeFunctionNames (options : CompilerOptions)
    (nameSection : Option (List NameSubSection)) (output : List UInt8) :
    Except BinaryError (List UInt8) :=
  match nameSection with
  | none => memWriterWrite32 output 0 >>= fun output => memWriterWrite32 output 4
  | some subSections =>
      (if options.stacktraceRecordCount > 0 then parseNameSubSections output 0 subSections
        else .ok (output, 0)) >>= fun (body, numFunctionNames) =>
      memWriterWrite32 body numFunctionNames >>= fun body =>
      writeSectionSize output body

/-! ### Start function and globals -/

/-- Append the wrapper of a function. -/
def writeEntryPoint {target : JitTarget} (backend : EntryPoints target) (output : List UInt8)
    (fncIndex : UInt32) : Except BinaryError (List UInt8 × List UInt8) :=
  backend.emitFunctionEntryPoint output fncIndex >>= fun wrapper =>
  writePaddedBinaryBlob target output wrapper >>= fun output => .ok (wrapper, output)

/-- `serializeStartFunctionSection`. -/
def serializeStartFunctionSection {target : JitTarget} (backend : EntryPoints target)
    (info : SerializedModule) (output : List UInt8) : Except BinaryError (List UInt8) :=
  (match info.startFunctionIndex with
    | some startFunctionIndex =>
        writeEntryPoint backend output startFunctionIndex >>= fun (_, body) =>
        info.getFncSigIndex startFunctionIndex >>= fun sigIndex =>
        info.signature sigIndex >>= fun signature =>
        writeString body signature
    | none => .ok output) >>= fun body =>
  writeSectionSize output body

/-- `serializeWasmGlobalsBinarySection` with the size of the section. -/
def serializeMutableGlobals (info : SerializedModule) (output : List UInt8) :
    Except BinaryError (List UInt8) :=
  serializeWasmGlobalsBinarySection output info.linkData.nonImportGlobals >>= fun body =>
  writeSectionSize output body

/-! ### Dynamic imports and the memory -/

/-- What is written for a dynamically linked import. -/
structure DynamicImport where
  linkDataOffset : UInt32
  signature : List UInt8
  symbol : List UInt8
  moduleName : List UInt8
  deriving DecidableEq, Repr

/-- Append a dynamically linked import. -/
def writeDynamicImport (output : List UInt8) (dynamicImport : DynamicImport) :
    Except BinaryError (List UInt8) :=
  memWriterWrite32 output dynamicImport.linkDataOffset >>= fun output =>
  writeString output dynamicImport.signature >>= fun output =>
  writeString output dynamicImport.symbol >>= fun output =>
  writeString output dynamicImport.moduleName

/-- The dynamically linked imports in module order. -/
def SerializedModule.dynamicImports (info : SerializedModule) : List DynamicImport :=
  info.linkData.impFuncDefs.filterMap fun impFuncDef =>
    if impFuncDef.isDynamic info.imports then
      (info.imports.getImportSymbol impFuncDef.symbolIndex).map fun nativeSymbol =>
        { linkDataOffset := impFuncDef.linkDataOffset
          signature := cStringBytes nativeSymbol.signature
          symbol := cStringBytes nativeSymbol.symbol
          moduleName := cStringBytes nativeSymbol.moduleName }
    else none

/-- `serializeDynamicFunctionImportBinarySection`. -/
def serializeDynamicFunctionImportBinarySection (info : SerializedModule) (output : List UInt8) :
    Except BinaryError (List UInt8) :=
  writeSection writeDynamicImport output info.dynamicImports

/-- What is written for the initial size of the memory. -/
def SerializedModule.initialMemorySize (info : SerializedModule) : UInt32 :=
  if info.dataModule.hasMemory then info.dataModule.memoryInitialSize else unknownValue

/-- `serializeMemoryBinarySection`. -/
def serializeMemoryBinarySection (info : SerializedModule) (output : List UInt8) :
    Except BinaryError (List UInt8) :=
  memWriterWrite32 output info.initialMemorySize

/-! ### Exported globals -/

/-- The character of a machine type in a signature. -/
def signatureTypeCode : MachineType → UInt8
  | .i32 => 0x69
  | .i64 => 0x49
  | .f32 => 0x66
  | .f64 => 0x46
  | .invalid => 0

/-- What is written for an exported global: the payload is the offset of its cell, or its
value. -/
structure ExportedGlobal where
  payload : List UInt8
  isMutable : Bool
  signatureType : UInt8
  exportName : List UInt8
  deriving DecidableEq, Repr

/-- Append an exported global. -/
def writeExportedGlobal (output : List UInt8) (exportedGlobal : ExportedGlobal) :
    Except BinaryError (List UInt8) :=
  memWriterAppend output exportedGlobal.payload >>= fun output =>
  memWriterAppend output [if exportedGlobal.isMutable then 1 else 0] >>= fun output =>
  memWriterAppend output [exportedGlobal.signatureType] >>= fun output =>
  memWriterAppend output [0, 0] >>= fun output =>
  writeString output exportedGlobal.exportName

/-- The exported global with a definition and a name. -/
def GlobalDef.exported (globalDef : GlobalDef) (exportName : List UInt8) : ExportedGlobal where
  payload := if globalDef.isMutable then bytesLE 4 globalDef.linkDataOffset.toNat
    else globalDef.initialBytes
  isMutable := globalDef.isMutable
  signatureType := signatureTypeCode globalDef.type
  exportName := exportName

/-- The exported globals, as far as they are looked up. -/
def exportedGlobals (info : SerializedModule) :
    List ModuleExport → Except BinaryError (List ExportedGlobal)
  | [] => .ok []
  | moduleExport :: rest =>
      if moduleExport.exportType = .global then
        info.getGlobalDef moduleExport.index >>= fun globalDef =>
        (exportedGlobals info rest).map (globalDef.exported moduleExport.exportName :: ·)
      else exportedGlobals info rest

/-- `serializeExportedGlobalsBinarySection`. -/
def serializeExportedGlobalsBinarySection (info : SerializedModule) (output : List UInt8) :
    Except BinaryError (List UInt8) :=
  exportedGlobals info info.exports >>= writeSection writeExportedGlobal output

/-! ### Exported functions -/

/-- What is written for an exported function. -/
structure ExportedFunction where
  wrapper : List UInt8
  signature : List UInt8
  exportName : List UInt8
  fncIndex : UInt32
  deriving DecidableEq, Repr

/-- The part of an exported function behind its wrapper and its signature. -/
def writeExportName (output exportName : List UInt8) (fncIndex : UInt32) :
    Except BinaryError (List UInt8) :=
  writeString output exportName >>= fun output => memWriterWrite32 output fncIndex

/-- The state of `serializeExportedFunctionBinarySection`. The source keeps the number of the
functions that are written. -/
structure FunctionExports where
  output : List UInt8
  tableElements : List TableElement
  exportedFunctions : List ExportedFunction := []

/-- Append a function with its wrapper, and note where its entry point is for the elements of an
exported table. -/
def produceWrapper {target : JitTarget} (backend : EntryPoints target) (info : SerializedModule)
    (exportName : List UInt8) (fncIndex : UInt32) (isDirectExport : Bool)
    (state : FunctionExports) : Except BinaryError FunctionExports :=
  writeEntryPoint backend state.output fncIndex >>= fun (wrapper, output) =>
  info.getFncSigIndex fncIndex >>= fun sigIndex =>
  info.functionIsBuiltin fncIndex >>= fun isBuiltin =>
  if isBuiltin then .error .cannotExportBuiltinFunction
  else
    info.signature sigIndex >>= fun signature =>
    writeString output signature >>= fun output =>
    let functionEntryPointOffset := UInt32.ofNat output.length
    let exportedIndex := if isDirectExport then fncIndex else unknownValue
    writeExportName output exportName exportedIndex >>= fun output =>
    .ok {
      output
      tableElements :=
        if info.hasTable && info.tableIsExported then
          state.tableElements.map fun element =>
            if element.fncIndex = fncIndex then
              { element with exportWrapperOffset := functionEntryPointOffset }
            else element
        else state.tableElements
      exportedFunctions :=
        state.exportedFunctions ++ [⟨wrapper, signature, exportName, exportedIndex⟩] }

/-- The functions that are exported by name. -/
def exportFunctions {target : JitTarget} (backend : EntryPoints target)
    (info : SerializedModule) :
    List ModuleExport → FunctionExports → Except BinaryError FunctionExports
  | [], state => .ok state
  | moduleExport :: rest, state =>
      (if moduleExport.exportType = .func then
        produceWrapper backend info moduleExport.exportName moduleExport.index true state
      else .ok state) >>= exportFunctions backend info rest

/-- The functions that can be reached by the elements of an exported table only. -/
def exportTableFunctions {target : JitTarget} (backend : EntryPoints target)
    (info : SerializedModule) : ℕ → FunctionExports → Except BinaryError FunctionExports
  | 0, state => .ok state
  | remaining + 1, state =>
      let i := info.tableElements.length - (remaining + 1)
      (match state.tableElements[i]? with
        | none => .error .outOfModuleInfo
        | some element =>
            if element.exportWrapperOffset ≠ unknownValue ∨ element.fncIndex = unknownValue then
              .ok state
            else produceWrapper backend info [] element.fncIndex false state) >>=
        exportTableFunctions backend info remaining

/-- `serializeExportedFunctionBinarySection`. -/
def serializeExportedFunctionBinarySection {target : JitTarget} (backend : EntryPoints target)
    (info : SerializedModule) (output : List UInt8) : Except BinaryError FunctionExports :=
  exportFunctions backend info info.exports ⟨output, info.tableElements, []⟩ >>= fun state =>
  (if info.hasTable && info.tableIsExported then
    exportTableFunctions backend info info.tableElements.length state
  else .ok state) >>= fun state =>
  memWriterWrite32 state.output (UInt32.ofNat state.exportedFunctions.length) >>= fun body =>
  writeSectionSize output body >>= fun body =>
  .ok { state with output := body }

/-! ### Link status, table and metadata -/

/-- The status bytes of the imported functions. -/
def SerializedModule.linkStatus (info : SerializedModule) : List UInt8 :=
  info.linkData.impFuncDefs.map fun impFuncDef => if impFuncDef.linked then 1 else 0

/-- `serializeLinkStatusSection`. -/
def serializeLinkStatusSection (info : SerializedModule) (output : List UInt8) :
    Except BinaryError (List UInt8) :=
  let numImportedFunctions := UInt32.ofNat info.linkData.impFuncDefs.length
  memWriterAppend output info.linkStatus >>= fun output =>
  memWriterAppend output
    (List.replicate (deltaToNextPow2 numImportedFunctions 2).toNat 0) >>= fun output =>
  memWriterWrite32 output numImportedFunctions

/-- The two numbers of a table element: where the function body is, and its type. -/
def SerializedModule.tableEntry (info : SerializedModule) (element : TableElement) :
    Except BinaryError (UInt32 × UInt32) :=
  if element.fncIndex = unknownValue then .ok (unknownValue, unknownValue)
  else
    info.getFncSigIndex element.fncIndex >>= fun sigIndex =>
    info.functionIsLinked element.fncIndex >>= fun linked =>
    (if linked then ofModuleInfo info.wasmFncBodyBinaryPositions[element.fncIndex.toNat]?
      else .ok 0) >>= fun functionBinaryOffset =>
    .ok (functionBinaryOffset, UInt32.ofNat sigIndex)

/-- Append an element of the table. -/
def writeTableElement (info : SerializedModule) (output : List UInt8) (element : TableElement) :
    Except BinaryError (List UInt8) :=
  info.tableEntry element >>= fun entry =>
  memWriterWrite32 output entry.1 >>= fun output =>
  memWriterWrite32 output entry.2

/-- `serializeTableBinarySection`. -/
def serializeTableBinarySection (info : SerializedModule) (output : List UInt8)
    (tableElements : List TableElement) : Except BinaryError (List UInt8) :=
  tableElements.foldlM (writeTableElement info) output >>= fun output =>
  memWriterWrite32 output (UInt32.ofNat tableElements.length)

/-- `serializeTableEntryFunctionWrapperSection`. -/
def serializeTableEntryFunctionWrapperSection (output : List UInt8)
    (tableElements : List TableElement) : Except BinaryError (List UInt8) :=
  tableElements.foldlM (fun output element => memWriterWrite32 output element.exportWrapperOffset)
    output >>= fun output =>
  memWriterWrite32 output (UInt32.ofNat tableElements.length)

/-- `BinaryModule::versionNumber`. -/
def versionNumber : UInt32 := 3

/-- The entry with the number of stacktrace records and the debug mode. -/
def CompilerOptions.stacktraceEntry (options : CompilerOptions) : UInt32 :=
  (options.stacktraceRecordCount &&& 0x7FFFFFFF) ||| (if options.debugMode then 0x80000000 else 0)

/-- `serializeModuleMetadataBinarySection`. -/
def serializeModuleMetadataBinarySection (options : CompilerOptions) (info : SerializedModule)
    (output : List UInt8) : Except BinaryError (List UInt8) :=
  memWriterWrite32 output info.linkData.linkDataLength >>= fun output =>
  memWriterWrite32 output
    (if options.linearMemoryBoundsChecks then 0xFFFFFFFF
      else UInt32.ofNat output.length - info.landingPad) >>= fun output =>
  memWriterWrite32 output options.stacktraceEntry >>= fun output =>
  memWriterWrite32 output versionNumber >>= fun output =>
  memWriterWrite32 output (UInt32.ofNat output.length)

/-! ### The whole binary -/

/-- The output behind each of the sections. The source keeps the last one only. -/
structure BinaryLayout where
  dataSection : List UInt8
  functionNames : List UInt8
  startFunction : List UInt8
  mutableGlobals : List UInt8
  dynamicImports : List UInt8
  memory : List UInt8
  exportedGlobals : List UInt8
  exportedFunctions : List UInt8
  linkStatus : List UInt8
  table : List UInt8
  tableEntryFunctions : List UInt8
  binary : List UInt8
  /-- What was written for the exported functions. -/
  functionExports : FunctionExports

/-- The end of `startCompilation`: the sections behind the function bodies. -/
def serializeModule (options : CompilerOptions) (backend : EntryPoints options.target)
    (info : SerializedModule) : Except BinaryError BinaryLayout :=
  parseDataSection info.dataModule info.functionBodies >>= fun dataSection =>
  serializeFunctionNames options info.nameSection dataSection >>= fun functionNames =>
  serializeStartFunctionSection backend info functionNames >>= fun startFunction =>
  serializeMutableGlobals info startFunction >>= fun mutableGlobals =>
  serializeDynamicFunctionImportBinarySection info mutableGlobals >>= fun dynamicImports =>
  serializeMemoryBinarySection info dynamicImports >>= fun memory =>
  serializeExportedGlobalsBinarySection info memory >>= fun exportedGlobals =>
  serializeExportedFunctionBinarySection backend info exportedGlobals >>= fun functionExports =>
  serializeLinkStatusSection info functionExports.output >>= fun linkStatus =>
  serializeTableBinarySection info linkStatus functionExports.tableElements >>= fun table =>
  serializeTableEntryFunctionWrapperSection table
    functionExports.tableElements >>= fun tableEntryFunctions =>
  serializeModuleMetadataBinarySection options info tableEntryFunctions >>= fun binary =>
  .ok {
    dataSection, functionNames, startFunction, mutableGlobals, dynamicImports,
    memory, exportedGlobals, exportedFunctions := functionExports.output, linkStatus, table,
    tableEntryFunctions, binary, functionExports }

end WasmCompiler
