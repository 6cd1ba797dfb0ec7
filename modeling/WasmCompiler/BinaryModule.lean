import WasmCompiler.ModuleSerialization

/-!
# Reading the Binary

`BinaryModule::init` finds the sections of a binary from its end, and the functions of the
runtime go back over the records of a section: the linker of the dynamic imports, the
initialisation of the mutable globals and the linear memory, the search for exported functions
and globals, the iteration over the mutable globals and the printing of a stacktrace.

A cursor is the part of the binary in front of it.
-/

namespace WasmCompiler

/-! ### Finding the sections -/

/-- What `BinaryModule::init` keeps. The landing pad is counted from the start of the binary. -/
structure BinaryModule where
  moduleBinary : List UInt8
  moduleBinaryLength : UInt32
  stacktraceEntryCount : UInt32
  debugMode : Bool
  landingPadAddress : Option ℤ
  linkDataLength : UInt32
  tableEntryFunctionsStart : List UInt8
  tableSize : UInt32
  tableStart : List UInt8
  linkStatusStart : List UInt8
  exportedFunctionsEnd : List UInt8
  exportedGlobalsEnd : List UInt8
  initialMemorySize : UInt32
  dynamicallyImportedFunctionsSectionEnd : List UInt8
  mutableGlobalsSectionEnd : List UInt8
  startFunctionBinaryOffset : UInt32
  functionNameSectionEnd : List UInt8
  numDataSegments : UInt32
  dataSegmentsEnd : List UInt8
  deriving DecidableEq

/-- The cursor moves back over a number of bytes. -/
def skipBack (cursor : List UInt8) (bytes : UInt32) : Except BinaryError (List UInt8) :=
  (pSubI cursor bytes.toNat).map (·.2)

/-- Where the binary has to be in memory. -/
def JitTarget.checkAlignment (target : JitTarget) (address : ℕ) : Except BinaryError Unit :=
  match target with
  | .x86_64 => if address % 16 ≠ 0 then .error .moduleMemoryNot16ByteAligned else .ok ()
  | _ => if address % 8 ≠ 0 then .error .moduleMemoryNot8ByteAligned else .ok ()

/-- A section with its size behind it: where its content ends, and where it starts. -/
def readSectionSize (stepPtr : List UInt8) :
    Except BinaryError (UInt32 × List UInt8 × List UInt8) :=
  readNextValue32 stepPtr >>= fun (sectionSize, sectionEnd) =>
  skipBack sectionEnd sectionSize >>= fun sectionStart => .ok (sectionSize, sectionEnd, sectionStart)

/-- `BinaryModule::init`. -/
def BinaryModule.init (target : JitTarget) (address : ℕ) (moduleBinary : List UInt8) :
    Except BinaryError BinaryModule :=
  target.checkAlignment address >>= fun _ =>
  readNextValue32 moduleBinary >>= fun (moduleBinaryLength, stepPtr) =>
  readNextValue32 stepPtr >>= fun (version, stepPtr) =>
  if version ≠ versionNumber then .error .binaryModuleVersionNotSupported
  else
    readNextValue32 stepPtr >>= fun (stacktraceEntry, stepPtr) =>
    readNextValue32 stepPtr >>= fun (landingPadOffset, stepPtr) =>
    let landingPadAddress : Option ℤ :=
      if landingPadOffset ≠ 0xFFFFFFFF then some (stepPtr.length - landingPadOffset.toNat)
      else none
    readNextValue32 stepPtr >>= fun (linkDataLength, stepPtr) =>
    readNextValue32 stepPtr >>= fun (numTableFunctionEntries, stepPtr) =>
    skipBack stepPtr (numTableFunctionEntries * 4) >>= fun tableEntryFunctionsStart =>
    readNextValue32 tableEntryFunctionsStart >>= fun (numTableEntries, stepPtr) =>
    skipBack stepPtr (numTableEntries * (4 + 4)) >>= fun tableStart =>
    readNextValue32 tableStart >>= fun (numLinkStatusEntries, stepPtr) =>
    skipBack stepPtr (deltaToNextPow2 numLinkStatusEntries 2) >>= fun stepPtr =>
    skipBack stepPtr numLinkStatusEntries >>= fun linkStatusStart =>
    readSectionSize linkStatusStart >>= fun (_, exportedFunctionsEnd, stepPtr) =>
    readSectionSize stepPtr >>= fun (_, exportedGlobalsEnd, stepPtr) =>
    readNextValue32 stepPtr >>= fun (initialMemorySize, stepPtr) =>
    readSectionSize stepPtr >>= fun (_, dynamicallyImportedFunctionsSectionEnd, stepPtr) =>
    readSectionSize stepPtr >>= fun (_, mutableGlobalsSectionEnd, stepPtr) =>
    readSectionSize stepPtr >>= fun (startFunctionSectionSize, startFunctionEnd, stepPtr) =>
    let startFunctionBinaryOffset :=
      if startFunctionSectionSize > 0 then
        UInt32.ofNat (moduleBinary.length - startFunctionEnd.length)
      else 0xFFFFFFFF
    readSectionSize stepPtr >>= fun (_, functionNameSectionEnd, stepPtr) =>
    readNextValue32 stepPtr >>= fun (numDataSegments, dataSegmentsEnd) =>
    .ok {
      moduleBinary, moduleBinaryLength
      stacktraceEntryCount := stacktraceEntry &&& 0x7FFFFFFF
      debugMode := stacktraceEntry &&& 0x80000000 ≠ 0
      landingPadAddress, linkDataLength, tableEntryFunctionsStart, tableSize := numTableEntries
      tableStart, linkStatusStart, exportedFunctionsEnd, exportedGlobalsEnd, initialMemorySize
      dynamicallyImportedFunctionsSectionEnd, mutableGlobalsSectionEnd
      startFunctionBinaryOffset, functionNameSectionEnd, numDataSegments, dataSegmentsEnd }

/-! ### Records -/

/-- The characters in front of a number that counts them. -/
def readString (cursor : List UInt8) : Except BinaryError (List UInt8 × List UInt8) :=
  readNextValue32 cursor >>= fun (length, cursor) =>
  (pSubI cursor (roundUpToPow2 length 2).toNat).map fun (string, cursor) =>
    (string.take length.toNat, cursor)

/-- The loop over the records of a section that starts with their number. -/
def iterateSection {State View : Type}
    (read : List UInt8 → Except BinaryError (View × List UInt8))
    (body : State → View → Except BinaryError State) (sectionEnd : List UInt8) (state : State) :
    Except BinaryError State :=
  readNextValue32 sectionEnd >>= fun (numRecords, cursor) =>
  foldBackward read body numRecords.toNat cursor state

/-- A function name, in `printStacktrace`. -/
def readFunctionName (cursor : List UInt8) : Except BinaryError (FunctionName × List UInt8) :=
  readNextValue32 cursor >>= fun (functionIndex, cursor) =>
  (readString cursor).map fun (name, cursor) => (⟨functionIndex, name⟩, cursor)

/-- A dynamically linked import, in `initializeModule`. -/
def readDynamicImport (cursor : List UInt8) : Except BinaryError (DynamicImport × List UInt8) :=
  readString cursor >>= fun (moduleName, cursor) =>
  readString cursor >>= fun (symbol, cursor) =>
  readString cursor >>= fun (signature, cursor) =>
  (readNextValue32 cursor).map fun (linkDataOffset, cursor) =>
    (⟨linkDataOffset, signature, symbol, moduleName⟩, cursor)

/-- What the binary says about a mutable global. -/
structure MutableGlobal where
  type : MachineType
  linkDataOffset : ℕ
  initialValue : List UInt8
  deriving DecidableEq, Repr

/-- A mutable global, in `initializeModule` and in `iterateMutableGlobals`: the offset goes to a
16-bit variable. -/
def readMutableGlobal (cursor : List UInt8) : Except BinaryError (MutableGlobal × List UInt8) :=
  pSubI cursor 3 >>= fun (_, cursor) =>
  pSubI cursor 1 >>= fun (code, cursor) =>
  readNextValue32 cursor >>= fun (offset, cursor) =>
  let type := machineTypeOfCode (UInt8.ofNat (ofBytesLE code))
  (pSubI cursor type.getSize).map fun (initialValue, cursor) =>
    (⟨type, offset.toUInt16.toNat, initialValue⟩, cursor)

/-- A data segment, in `initializeModule`: where it starts, its size and its bytes. -/
def readDataSegment (cursor : List UInt8) :
    Except BinaryError ((UInt32 × UInt32 × List UInt8) × List UInt8) :=
  readNextValue32 cursor >>= fun (dataSegmentStart, cursor) =>
  readNextValue32 cursor >>= fun (dataSegmentSize, cursor) =>
  (pSubI cursor (roundUpToPow2 dataSegmentSize 2).toNat).map fun (data, cursor) =>
    ((dataSegmentStart, dataSegmentSize, data.take dataSegmentSize.toNat), cursor)

/-- `strncmp` gives zero: the characters agree up to the length or up to a zero in both. -/
def strncmpEqual : ℕ → List UInt8 → List UInt8 → Bool
  | n + 1, a :: as, b :: bs => a == b && (a == 0 || strncmpEqual n as bs)
  | _, _, _ => true

/-- The comparison of a name with the name of an export. -/
def nameMatches (name exportName : List UInt8) : Bool :=
  exportName.length == name.length && strncmpEqual name.length name exportName

/-- The name of an exported function, in `findExportedFunctionByName`. -/
def readExportName (cursor : List UInt8) :
    Except BinaryError ((UInt32 × List UInt8) × List UInt8) :=
  readNextValue32 cursor >>= fun (fncIndex, cursor) =>
  (readString cursor).map fun (exportName, cursor) => ((fncIndex, exportName), cursor)

/-- The signature and the wrapper of a function (`FunctionInfo`), and where the wrapper
starts. -/
def readFunctionInfo (cursor : List UInt8) :
    Except BinaryError ((List UInt8 × List UInt8) × List UInt8) :=
  readString cursor >>= fun (signature, cursor) =>
  (readString cursor).map fun (wrapper, cursor) => ((signature, wrapper), cursor)

/-- An exported function. -/
def readExportedFunction (cursor : List UInt8) :
    Except BinaryError (ExportedFunction × List UInt8) :=
  readExportName cursor >>= fun ((fncIndex, exportName), cursor) =>
  (readFunctionInfo cursor).map fun ((signature, wrapper), cursor) =>
    (⟨wrapper, signature, exportName, fncIndex⟩, cursor)

/-- The part of an exported global in front of its name. -/
def readGlobalInfo (cursor : List UInt8) :
    Except BinaryError ((UInt8 × Bool × List UInt8) × List UInt8) :=
  pSubI cursor 2 >>= fun (_, cursor) =>
  pSubI cursor 1 >>= fun (code, cursor) =>
  pSubI cursor 1 >>= fun (flag, cursor) =>
  let signatureType := UInt8.ofNat (ofBytesLE code)
  let isMutable : Bool := ofBytesLE flag ≠ 0
  let width := if isMutable then 4
    else if signatureType = signatureTypeCode .i32 ∨ signatureType = signatureTypeCode .f32 then 4
    else 8
  (pSubI cursor width).map fun (payload, cursor) => ((signatureType, isMutable, payload), cursor)

/-- An exported global. -/
def readExportedGlobal (cursor : List UInt8) :
    Except BinaryError (ExportedGlobal × List UInt8) :=
  readString cursor >>= fun (exportName, cursor) =>
  (readGlobalInfo cursor).map fun ((signatureType, isMutable, payload), cursor) =>
    (⟨payload, isMutable, signatureType, exportName⟩, cursor)

/-! ### The functions of the runtime -/

namespace BinaryModule

variable (binaryModule : BinaryModule)

/-- The distance of a cursor from the end of the binary. -/
def offsetOfCursor (cursor : List UInt8) : UInt32 :=
  UInt32.ofNat (binaryModule.moduleBinary.length - cursor.length)

/-- The cursor at a distance from the end of the binary. -/
def cursorOfOffset (binaryOffset : UInt32) : Except BinaryError (List UInt8) :=
  skipBack binaryModule.moduleBinary binaryOffset

/-- `Runtime::findExportedFunctionByName`. -/
def findExportedFunctionByName (name : List UInt8) : Except BinaryError UInt32 :=
  readNextValue32 binaryModule.exportedFunctionsEnd >>= fun (numExportedFunctions, cursor) =>
  (findBackward readExportName (fun cursor => (readFunctionInfo cursor).map (·.2))
    (fun key => nameMatches name key.2) .functionNotFound numExportedFunctions.toNat cursor).map
    binaryModule.offsetOfCursor

/-- `Runtime::findExportedGlobalByName`. -/
def findExportedGlobalByName (name : List UInt8) : Except BinaryError UInt32 :=
  readNextValue32 binaryModule.exportedGlobalsEnd >>= fun (numExportedGlobals, cursor) =>
  (findBackward readString (fun cursor => (readGlobalInfo cursor).map (·.2)) (nameMatches name)
    .globalNotFound numExportedGlobals.toNat cursor).map binaryModule.offsetOfCursor

/-- The 32-bit number at a place of the binary. -/
def readFromPtr32 (start : List UInt8) (offset : ℕ) : UInt32 :=
  UInt32.ofNat (ofBytesLE ((binaryModule.moduleBinary.drop (start.length + offset)).take 4))

/-- `Runtime::findFunctionByExportedTableIndex`. -/
def findFunctionByExportedTableIndex (tableIndex : UInt32) : Except BinaryError UInt32 :=
  if tableIndex < binaryModule.tableSize then
    let functionOffsetToStart :=
      binaryModule.readFromPtr32 binaryModule.tableEntryFunctionsStart (4 * tableIndex.toNat)
    if functionOffsetToStart ≠ 0xFFFFFFFF then
      .ok (UInt32.ofNat binaryModule.moduleBinary.length - functionOffsetToStart)
    else .error .functionNotFound
  else .error .functionNotFound

/-- `FunctionInfo::FunctionInfo`: the signature, and where the code is. -/
def functionInfo (binaryOffset : UInt32) : Except BinaryError (List UInt8 × List UInt8) :=
  binaryModule.cursorOfOffset binaryOffset >>= fun cursor =>
  (readFunctionInfo cursor).map fun ((signature, _), fncPtr) => (signature, fncPtr)

/-- The loop of `Runtime::initializeModule` over the dynamic imports; `link` is
`linkDynamicImportFromSymbolList` on both lists of symbols. -/
def linkDynamicImports {State : Type} (link : State → DynamicImport → Except BinaryError State)
    (state : State) : Except BinaryError State :=
  iterateSection readDynamicImport link binaryModule.dynamicallyImportedFunctionsSectionEnd state

/-- `Runtime::iterateMutableGlobals`: the callback gets the type and the bytes in the link
data. -/
def iterateMutableGlobals {State : Type} (linkData : ℕ → UInt8)
    (callback : State → MachineType → List UInt8 → State) (state : State) :
    Except BinaryError State :=
  iterateSection readMutableGlobal
    (fun state mutableGlobal => .ok (callback state mutableGlobal.type
      ((List.range mutableGlobal.type.getSize).map fun i =>
        linkData (mutableGlobal.linkDataOffset + i))))
    binaryModule.mutableGlobalsSectionEnd state

/-- The search of `Runtime::printStacktrace` for the name of a function. -/
def findFunctionName (fncIndex : UInt32) : Except BinaryError (Option (List UInt8)) :=
  readNextValue32 binaryModule.functionNameSectionEnd >>= fun (numFunctionNames, cursor) =>
  findName numFunctionNames.toNat cursor
where
  /-- The loop over the names. -/
  findName : ℕ → List UInt8 → Except BinaryError (Option (List UInt8))
    | 0, _ => .ok none
    | remaining + 1, cursor =>
        readFunctionName cursor >>= fun (functionName, cursor) =>
        if functionName.functionIndex = fncIndex then .ok (some functionName.name)
        else findName remaining cursor

end BinaryModule

end WasmCompiler
