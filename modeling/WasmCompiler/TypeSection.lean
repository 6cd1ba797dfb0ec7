import WasmCompiler.BinaryModule
import WasmCompiler.BytecodeReader
import WasmCompiler.ValidationStack

/-!
# The Type Section

The signatures of a module lie one behind the other in an array of characters, such as
`(iI)f`. A signature that is the same as an earlier one is replaced by a reference to that
one, and behind the last one stand the five signatures of the blocks without parameters.
`Frontend::parseTypeSection` writes the array, `reduceTypeIndex` follows a reference, and the
functions of `ModuleInfo` iterate over the parameters and the results of a signature in both
directions.

## Main definitions

* `TypeSection.parse`, `reduceTypeIndex`, `iterateParamsForSignature`,
  `iterateResultsForSignature`: the functions.
* `TypeSection.ofDeclared`: what the array holds for declared signatures.
* `EncodesTypeSection`: the bytecode that declares them.
-/

namespace WasmCompiler

/-! ### Characters -/

/-- `SignatureType`. -/
def SignatureType.paramStart : UInt8 := 0x28
def SignatureType.paramEnd : UInt8 := 0x29
def SignatureType.forward : UInt8 := 0x3E

/-- The byte of a type in the bytecode. -/
def WasmType.byte : WasmType → UInt8
  | .i32 => 0x7F
  | .i64 => 0x7E
  | .f32 => 0x7D
  | .f64 => 0x7C

/-- The machine type of a type. -/
def WasmType.machineType : WasmType → MachineType
  | .i32 => .i32
  | .i64 => .i64
  | .f32 => .f32
  | .f64 => .f64

/-- The character of a type. -/
def WasmType.character (type : WasmType) : UInt8 := signatureTypeCode type.machineType

/-- `WasmTypeUtil::validateWasmType` without `TVOID`. -/
def validateWasmType (type : UInt8) : Except ParseError Bool :=
  if type = 0x6F ∨ type = 0x70 ∨ type = 0x7B then .error .referenceTypeFeatureNotImplemented
  else .ok (0x7C ≤ type ∧ type ≤ 0x7F)

/-- `WasmTypeUtil::toSignatureType`. -/
def toSignatureType (type : UInt8) : UInt8 :=
  match 0x7F - type.toNat with
  | 0 => 0x69
  | 1 => 0x49
  | 2 => 0x66
  | _ => 0x46

/-- `MachineTypeUtil::fromSignatureType`; for other characters it is unreachable. -/
def fromSignatureType (signatureType : UInt8) : Option MachineType :=
  if signatureType = 0x69 then some .i32
  else if signatureType = 0x49 then some .i64
  else if signatureType = 0x66 then some .f32
  else if signatureType = 0x46 then some .f64
  else none

/-! ### Parsing -/

/-- The part of the module info with the types. The offsets are one more than the types: where
each one starts and where the last one ends. -/
structure TypeSection where
  numTypes : ℕ := 0
  typeOffsets : List ℕ := []
  types : List UInt8 := []
  deriving DecidableEq, Repr

namespace TypeSection

/-- Write behind the types; they start at `position` in the internal memory. -/
def write (position : ℕ) (types bytes : List UInt8) : Except ParseError (List UInt8) :=
  if uint32Max < position + types.length + bytes.length then
    .error (.binary .maximumNumberOfBytesWritten)
  else .ok (types ++ bytes)

/-- Read types and write their characters. -/
def readValueTypes (position : ℕ) (invalid : ParseError) :
    ℕ → List UInt8 → BytecodeReader → Except ParseError (List UInt8 × BytecodeReader)
  | 0, types, reader => .ok (types, reader)
  | count + 1, types, reader =>
      reader.readByte >>= fun (type, reader) =>
      validateWasmType type >>= fun valid =>
      if !valid then .error invalid
      else
        write position types [toSignatureType type] >>= fun types =>
        readValueTypes position invalid count types reader

/-- The characters of an entry that is complete. -/
def signatureBytes (s : TypeSection) (i : ℕ) : List UInt8 :=
  (s.types.drop (s.typeOffsets.getD i 0)).take
    (s.typeOffsets.getD (i + 1) 0 - s.typeOffsets.getD i 0)

/-- The first of the first `i` signatures that is the same as the current one. -/
def findMatching (s : TypeSection) (i : ℕ) (currentSignature : List UInt8) : Option ℕ :=
  (List.range i).find? fun j =>
    (s.typeOffsets.getD (j + 1) 0 - s.typeOffsets.getD j 0 == currentSignature.length) &&
      strncmpEqual currentSignature.length currentSignature (s.signatureBytes j)

/-- One entry of the section, number `i`: the signature is written, and replaced if it matches an
earlier one. -/
def parseSignature (position i : ℕ) (s : TypeSection) (reader : BytecodeReader) :
    Except ParseError (TypeSection × BytecodeReader) :=
  reader.readByte >>= fun (typeType, reader) =>
  if typeType ≠ 0x60 then .error .malformedSection1WrongType
  else
    let start := s.types.length
    let typeOffsets := s.typeOffsets ++ [start]
    write position s.types [SignatureType.paramStart] >>= fun types =>
    reader.readUInt32 >>= fun (numParams, reader) =>
    if 1 <<< 7 < numParams.toNat then .error .tooManyParams
    else
      readValueTypes position .invalidFunctionParameterType numParams.toNat types reader >>=
        fun (types, reader) =>
      write position types [SignatureType.paramEnd] >>= fun types =>
      reader.readUInt32 >>= fun (numResults, reader) =>
      if 1 <<< 7 < numResults.toNat then .error .tooManyResults
      else
        readValueTypes position .invalidFunctionReturnType numResults.toNat types reader >>=
          fun (types, reader) =>
        let written : TypeSection := { s with typeOffsets, types }
        match written.findMatching i (types.drop start) with
        | some j =>
            (write position (types.take start) (SignatureType.forward :: bytesLE 4 j)).map
              fun types => ({ s with typeOffsets, types }, reader)
        | none => .ok (written, reader)

/-- The entries of the section from number `i` on. -/
def parseSignatures (position : ℕ) :
    ℕ → ℕ → TypeSection → BytecodeReader → Except ParseError (TypeSection × BytecodeReader)
  | 0, _, s, reader => .ok (s, reader)
  | count + 1, i, s, reader =>
      parseSignature position i s reader >>= fun (s, reader) =>
      parseSignatures position count (i + 1) s reader

/-- The signatures of the blocks without parameters, in the order in which they are written. -/
def blockSignatures : List (List UInt8) := [[], [0x69], [0x49], [0x66], [0x46]]

/-- Write a signature of a block. -/
def writeBlockSignature (position : ℕ) (s : TypeSection) (results : List UInt8) :
    Except ParseError TypeSection :=
  (write position s.types ([SignatureType.paramStart, SignatureType.paramEnd] ++ results)).map
    fun types => { s with typeOffsets := s.typeOffsets ++ [s.types.length], types }

/-- `Frontend::parseTypeSection`; the internal memory holds the types from `position` on. -/
def parse (position : ℕ) (reader : BytecodeReader) :
    Except ParseError (TypeSection × BytecodeReader) :=
  reader.readUInt32 >>= fun (numTypes, reader) =>
  if 1 <<< 20 < numTypes.toNat then .error .tooManyTypes
  else
    parseSignatures position numTypes.toNat 0 ⟨numTypes.toNat, [], []⟩ reader >>=
      fun (s, reader) =>
    (blockSignatures.foldlM (writeBlockSignature position) s).map fun s =>
      ({ s with typeOffsets := s.typeOffsets ++ [s.types.length] }, reader)

/-! ### Reading -/

/-- `Frontend::reduceTypeIndex`. -/
def reduceTypeIndex (s : TypeSection) (typeIndex : ℕ) : Except ParseError ℕ :=
  if s.numTypes ≤ typeIndex then .error .functionTypeOutOfBounds
  else
    let signatureStart := s.typeOffsets.getD typeIndex 0
    if s.types[signatureStart]? = some SignatureType.forward then
      .ok (ofBytesLE ((s.types.drop (signatureStart + 1)).take 4))
    else .ok typeIndex

/-- Go back from an offset over characters, as long as it is not below `typeOffset`, up to one
that ends the search; `visit` says what is done with the others. The functions assert that the
search ends so. -/
def scanBackward (types : List UInt8) (typeOffset : ℕ) (stop : UInt8)
    (visit : UInt8 → Option (List MachineType)) : ℕ → Option (List MachineType × ℕ)
  | 0 => none
  | stepOffset + 1 =>
      if stepOffset + 1 < typeOffset then none
      else
        types[stepOffset]? >>= fun signatureType =>
        if signatureType = stop then some ([], stepOffset)
        else
          visit signatureType >>= fun visited =>
          (scanBackward types typeOffset stop visit stepOffset).map fun (rest, last) =>
            (visited ++ rest, last)

/-- Go on over at most as many characters, up to one that ends the search. -/
def scanForward (types : List UInt8) (stop : UInt8) (visit : UInt8 → Option (List MachineType)) :
    ℕ → ℕ → Option (List MachineType × ℕ)
  | 0, _ => none
  | count + 1, stepOffset =>
      types[stepOffset]? >>= fun signatureType =>
      if signatureType = stop then some ([], stepOffset)
      else
        visit signatureType >>= fun visited =>
        (scanForward types stop visit count (stepOffset + 1)).map fun (rest, last) =>
          (visited ++ rest, last)

/-- A character that is passed over. -/
def skip (_ : UInt8) : Option (List MachineType) := some []

/-- A character whose type is handed to the callback. -/
def callback (signatureType : UInt8) : Option (List MachineType) :=
  (fromSignatureType signatureType).map fun type => [type]

/-- `iterateParamsForSignature`: the types in the order in which the callback gets them. It
asserts that the entry starts with the parameters and that they end inside it. -/
def iterateParamsForSignature (s : TypeSection) (sigIndex : ℕ) (reverse : Bool) :
    Option (List MachineType) :=
  let typeOffset := s.typeOffsets.getD sigIndex 0
  let nextTypeOffset := s.typeOffsets.getD (sigIndex + 1) 0
  if reverse then
    scanBackward s.types typeOffset SignatureType.paramEnd skip nextTypeOffset >>=
      fun (_, stepOffset) =>
    scanBackward s.types typeOffset SignatureType.paramStart callback stepOffset >>=
      fun (visited, stepOffset) =>
    if typeOffset ≤ stepOffset then some visited else none
  else if s.types[typeOffset]? = some SignatureType.paramStart then
    scanForward s.types SignatureType.paramEnd callback (nextTypeOffset - typeOffset)
      (typeOffset + 1) >>= fun (visited, stepOffset) =>
    if stepOffset < nextTypeOffset then some visited else none
  else none

/-- `iterateResultsForSignature`. -/
def iterateResultsForSignature (s : TypeSection) (sigIndex : ℕ) (reverse : Bool) :
    Option (List MachineType) :=
  let typeOffset := s.typeOffsets.getD sigIndex 0
  let nextTypeOffset := s.typeOffsets.getD (sigIndex + 1) 0
  if reverse then
    (scanBackward s.types typeOffset SignatureType.paramEnd callback nextTypeOffset).map (·.1)
  else if s.types[typeOffset]? = some SignatureType.paramStart then
    scanForward s.types SignatureType.paramEnd skip (nextTypeOffset - typeOffset)
      (typeOffset + 1) >>= fun (_, stepOffset) =>
    ((s.types.drop (stepOffset + 1)).take (nextTypeOffset - (stepOffset + 1))).mapM
      fromSignatureType
  else none

end TypeSection

/-! ### The entries -/

/-- The characters of a signature. -/
def FuncType.characters (type : FuncType) : List UInt8 :=
  SignatureType.paramStart :: (type.params.map WasmType.character ++
    SignatureType.paramEnd :: type.results.map WasmType.character)

/-- The characters of an entry. -/
def TypeEntry.characters : TypeEntry → List UInt8
  | .signature type => type.characters
  | .forward typeIndex => SignatureType.forward :: bytesLE 4 typeIndex

/-- The entry for one more signature: it refers to the first entry that is the same. -/
def canonicalEntry (entries : List TypeEntry) (type : FuncType) : TypeEntry :=
  match (List.range entries.length).find? fun j => entries[j]? = some (.signature type) with
  | some j => .forward j
  | none => .signature type

/-- The entries for declared signatures. -/
def canonicalEntries (declared : List FuncType) : List TypeEntry :=
  declared.foldl (fun entries type => entries ++ [canonicalEntry entries type]) []

/-- The signatures of the blocks without parameters. -/
def blockTypes : List FuncType := [⟨[], []⟩, ⟨[], [.i32]⟩, ⟨[], [.i64]⟩, ⟨[], [.f32]⟩, ⟨[], [.f64]⟩]

/-- The characters of all entries. -/
def entryCharacters (entries : List TypeEntry) : List UInt8 := entries.flatMap TypeEntry.characters

/-- Where the entries start. -/
def entryOffsets (entries : List TypeEntry) : List ℕ :=
  (List.range entries.length).map fun k => (entryCharacters (entries.take k)).length

/-- The section with some entries, before the last offset is written. -/
def TypeSection.ofEntries (numTypes : ℕ) (entries : List TypeEntry) : TypeSection :=
  ⟨numTypes, entryOffsets entries, entryCharacters entries⟩

/-- The section for declared signatures. -/
def TypeSection.ofDeclared (declared : List FuncType) : TypeSection :=
  let entries := canonicalEntries declared ++ blockTypes.map TypeEntry.signature
  ⟨declared.length, entryOffsets entries ++ [(entryCharacters entries).length],
    entryCharacters entries⟩

/-! ### The bytecode -/

/-- A vector of types. -/
def EncodesTypes (bytes : List UInt8) (types : List WasmType) : Prop :=
  ∃ count, LEB128 false 32 count types.length ∧ bytes = count ++ types.map WasmType.byte

/-- A function type. -/
def EncodesSignature (bytes : List UInt8) (type : FuncType) : Prop :=
  ∃ params results, EncodesTypes params type.params ∧ EncodesTypes results type.results ∧
    bytes = 0x60 :: (params ++ results)

/-- Function types one behind the other. -/
inductive EncodesSignatures : List UInt8 → List FuncType → Prop
  | nil : EncodesSignatures [] []
  | cons {bytes rest : List UInt8} {type : FuncType} {types : List FuncType}
      (hfirst : EncodesSignature bytes type) (hrest : EncodesSignatures rest types) :
      EncodesSignatures (bytes ++ rest) (type :: types)

/-- The content of a type section. -/
def EncodesTypeSection (bytes : List UInt8) (declared : List FuncType) : Prop :=
  ∃ count rest, LEB128 false 32 count declared.length ∧ EncodesSignatures rest declared ∧
    bytes = count ++ rest

end WasmCompiler
