import WasmCompiler.CompilerMemory
import WasmCompiler.ExportSection
import WasmCompiler.LinkDataLayout
import WasmCompiler.BinaryReaders

/-!
# The Memory of the Import Section

`Frontend::parseImportSection` reserves room for as many imported globals as the section declares
imports, and writes the definitions of the imported functions behind that. The size of the room
is a product of 32 bits, computed before any entry is read. The parser keeps a ledger of its
writes, each with the region that was reserved for it.

## Main results

* `parseImportSection_writesInside_iff`: all writes stay in their regions if and only if the
  wrapped product covers the globals that are stored.
-/

namespace WasmCompiler

/-! ### The internal memory -/

/-- A region of the host: where it lies and how long it is. -/
structure HostRegion where
  address : ℕ
  length : ℕ
  deriving DecidableEq, Repr

/-- `ReallocFnc`: the region after a request for a minimum length, unless it is refused. -/
structure HostAllocator where
  request : HostRegion → ℕ → Option HostRegion
  le_length : ∀ region size region', request region size = some region' → size ≤ region'.length

/-- A `MemWriter` without the bytes: its length and its region. -/
structure InternalMemory where
  size : ℕ
  region : HostRegion
  deriving DecidableEq, Repr

/-- `std::align` for an object without size: the next aligned address, if it is in the space. -/
def stdAlign (alignment ptr space : ℕ) : Option ℕ :=
  let padding := (alignment - ptr % alignment) % alignment
  if space < padding then none else some (ptr + padding)

namespace InternalMemory

/-- `ExtendableMemory::resize`. -/
def extend (host : HostAllocator) (memory : InternalMemory) (size : ℕ) :
    Except CompileError InternalMemory :=
  if size ≤ memory.region.length then .ok memory
  else
    match host.request memory.region size with
    | none => .error .couldNotExtendMemory
    | some region => .ok { memory with region }

/-- `MemWriter::resize`. -/
def resize (host : HostAllocator) (memory : InternalMemory) (size : ℕ) :
    Except CompileError InternalMemory :=
  extend host { memory with size } size

/-- `MemWriter::step`. -/
def step (host : HostAllocator) (memory : InternalMemory) (bytes : ℕ) :
    Except CompileError InternalMemory :=
  if uint32Max < memory.size + bytes then .error .maximumNumberOfBytesWritten
  else memory.resize host (memory.size + bytes)

/-- The aligned end of the memory, relative to its start. -/
def alignedEnd (memory : InternalMemory) (bytes : ℕ) : Option ℕ :=
  (stdAlign bytes (memory.region.address + memory.size)
    (memory.region.length - memory.size)).map (· - memory.region.address)

/-- `MemWriter::alignTop`. Without space the region is enlarged first. If there is none even
then, the difference between the null pointer and the start of the region exceeds 32 bits. -/
def alignTop (host : HostAllocator) (memory : InternalMemory) (bytes : ℕ) :
    Except CompileError InternalMemory :=
  (if (memory.alignedEnd bytes).isSome then .ok memory
    else memory.extend host ((memory.region.length + bytes) % 2 ^ 32)) >>= fun memory =>
  match memory.alignedEnd bytes with
  | none => .error .maximumNumberOfBytesWritten
  | some newLength =>
      if uint32Max < newLength then .error .maximumNumberOfBytesWritten
      else memory.resize host newLength

/-- A step moves the end of the memory by its bytes. -/
theorem size_of_step {host : HostAllocator} {memory memory' : InternalMemory} {bytes : ℕ}
    (h : memory.step host bytes = .ok memory') : memory'.size = memory.size + bytes := by
  obtain ⟨-, hresize⟩ := of_ite_throw_eq_ok h
  rw [resize, extend] at hresize
  split at hresize
  · obtain rfl := Except.ok.inj hresize
    rfl
  · split at hresize
    · cases hresize
    · obtain rfl := Except.ok.inj hresize
      rfl

end InternalMemory

/-! ### The entries -/

/-- `NativeSymbol::ImportFnVersion`. -/
inductive ImportFnVersion where
  | v1
  | v2
  deriving DecidableEq, Repr

/-- A native function with the version of its interface. -/
structure VersionedSymbol extends NativeSymbol where
  importVersion : ImportFnVersion := .v1
  deriving DecidableEq, Repr

/-- What the import section depends on: for each type the first one with its signature, the
signatures, the symbols of the embedder, and the configuration. -/
structure ImportSectionContext where
  typeIndices : List ℕ
  signatures : List (List UInt8)
  symbolList : List VersionedSymbol
  defaultImportSymbols : List VersionedSymbol
  globalSymbols : List GlobalSymbol
  allowUnknownImports : Bool
  builtinFunctionsEnabled : Bool
  has64BitPointers : Bool

/-- The errors of the import section. -/
inductive ImportSectionError where
  | bytecode (error : ParseError)
  | memory (error : CompileError)
  | entry (error : ImportError)
  | moduleNameTooLong
  | importNameTooLong
  | unknownImportType
  deriving DecidableEq, Repr

/-- `BuiltinFunction::UNDEFINED`. -/
def undefinedBuiltinFunction : ℕ := builtinFunctionNames.length

/-- An entry that was accepted: an imported function, with the linkage of its symbol if it has
one, or an imported global with its value. -/
inductive AcceptedImport where
  | func (symbolIndex sigIndex builtinFunction : ℕ) (linked : Bool)
      (importFnVersion : ImportFnVersion) (linkage : Option Linkage)
  | global (globalType : MachineType) (initialValue : Word)
  deriving DecidableEq, Repr

/-- Run a function of the reader. -/
def ofReader {α : Type} (x : Except ParseError α) : Except ImportSectionError α :=
  match x with
  | .ok a => .ok a
  | .error e => .error (.bytecode e)

/-- `Frontend::reduceTypeIndex`. -/
def ImportSectionContext.reduceTypeIndex (ctx : ImportSectionContext) (typeIndex : ℕ) :
    Except ParseError ℕ :=
  match ctx.typeIndices[typeIndex]? with
  | none => .error .functionTypeOutOfBounds
  | some index => .ok index

/-- A name of the import section: its length, and its bytes. -/
def readImportName (tooLong : ImportSectionError) (reader : BytecodeReader) :
    Except ImportSectionError (List UInt8 × BytecodeReader) :=
  ofReader reader.readUInt32 >>= fun (length, reader) =>
  if maxStringLength < length.toNat then .error tooLong
  else
    let name := reader.remaining.take length.toNat
    ofReader (reader.step length.toNat) >>= fun reader =>
    if !validateUTF8 name then .error (.bytecode .malformedUTF8Sequence)
    else .ok (name, reader)

/-- The number of the builtin function with a name and a signature. -/
def findBuiltin (ctx : ImportSectionContext) (moduleName fieldName signature : List UInt8) :
    Option ℕ :=
  if ctx.builtinFunctionsEnabled ∧ nameMatches (stringBytes "builtin") moduleName then
    builtinFunctionNames.findIdx? fun builtin =>
      nameMatches (stringBytes builtin.1) fieldName &&
        nameMatches (stringBytes builtin.2) signature
  else none

/-- `resolveImportFromSymbolList`: the first symbol with the names and the signature. -/
def resolveFromSymbolList (symbols : List VersionedSymbol) (symbolBaseIndex : ℕ)
    (moduleName fieldName signature : List UInt8) (importSignatureIndex : ℕ) :
    Option AcceptedImport :=
  let i := symbols.findIdx fun symbol => nameMatches (cStringBytes symbol.moduleName) moduleName &&
    nameMatches (cStringBytes symbol.symbol) fieldName &&
      nameMatches (cStringBytes symbol.signature) signature
  (symbols[i]?).map fun symbol =>
    .func (symbolBaseIndex + i) importSignatureIndex undefinedBuiltinFunction true
      symbol.importVersion (some symbol.linkage)

/-- An imported function: a builtin one, one of the embedder's symbols, one of the default
symbols, or an unknown one. -/
def readImportedFunction (ctx : ImportSectionContext) (moduleName fieldName : List UInt8)
    (reader : BytecodeReader) : Except ImportSectionError (AcceptedImport × BytecodeReader) :=
  ofReader reader.readUInt32 >>= fun (typeIndex, reader) =>
  ofReader (ctx.reduceTypeIndex typeIndex.toNat) >>= fun importSignatureIndex =>
  match ctx.signatures[importSignatureIndex]? with
  | none => .error (.entry .functionTypeIndexOutOfBounds)
  | some signature =>
      match findBuiltin ctx moduleName fieldName signature with
      | some builtinFunction =>
          .ok (.func 0 importSignatureIndex builtinFunction true .v1 none, reader)
      | none =>
          match resolveFromSymbolList ctx.symbolList 0 moduleName fieldName signature
              importSignatureIndex with
          | some import_ => .ok (import_, reader)
          | none =>
              match resolveFromSymbolList ctx.defaultImportSymbols ctx.symbolList.length
                  moduleName fieldName signature importSignatureIndex with
              | some import_ => .ok (import_, reader)
              | none =>
                  if ctx.allowUnknownImports then
                    .ok (.func 0 importSignatureIndex undefinedBuiltinFunction false .v1 none,
                      reader)
                  else .error (.entry .importedSymbolCouldNotBeFound)

/-- The types that a global may have. -/
def globalTypeOfByte (globalType : UInt8) : Except ImportSectionError MachineType :=
  if globalType = 0x7F then .ok .i32
  else if globalType = 0x7E then .ok .i64
  else if globalType = 0x7D then .ok .f32
  else if globalType = 0x7C then .ok .f64
  else if globalType = 0x6F ∨ globalType = 0x70 ∨ globalType = 0x7B then
    .error (.bytecode .referenceTypeFeatureNotImplemented)
  else .error (.entry .invalidGlobalType)

/-- An imported global: it is immutable, and the embedder gives its value. -/
def readImportedGlobal (ctx : ImportSectionContext) (moduleName fieldName : List UInt8)
    (reader : BytecodeReader) : Except ImportSectionError (AcceptedImport × BytecodeReader) :=
  ofReader reader.readByte >>= fun (globalTypeByte, reader) =>
  ofReader reader.readByte >>= fun (mutabilityByte, reader) =>
  if 1 < mutabilityByte then .error (.bytecode .validationFailed)
  else
    globalTypeOfByte globalTypeByte >>= fun globalType =>
    if mutabilityByte = 1 then .error (.entry .mutableImportedGlobalsNotSupported)
    else
      match ctx.globalSymbols.find? fun symbol =>
          nameMatches (cStringBytes symbol.moduleName) moduleName &&
            nameMatches (cStringBytes symbol.fieldName) fieldName &&
              symbol.type == globalType with
      | none => .error (.entry .importedSymbolCouldNotBeFound)
      | some symbol =>
          .ok (.global globalType symbol.value, reader)

/-- One entry, as far as it reads and looks up. -/
def readImport (ctx : ImportSectionContext) (reader : BytecodeReader) :
    Except ImportSectionError (AcceptedImport × BytecodeReader) :=
  readImportName .moduleNameTooLong reader >>= fun (moduleName, reader) =>
  readImportName .importNameTooLong reader >>= fun (fieldName, reader) =>
  ofReader reader.readByte >>= fun (importType, reader) =>
  match WasmImportExportType.ofByte importType with
  | some .func => readImportedFunction ctx moduleName fieldName reader
  | some .table => .error (.entry .importedTableNotSupported)
  | some .mem => .error (.entry .importedMemoryNotSupported)
  | some .global => readImportedGlobal ctx moduleName fieldName reader
  | none => .error .unknownImportType

/-! ### The writes -/

/-- A write to the memory, and the region that is reserved for it. -/
structure ReservedWrite where
  regionStart : ℕ
  regionEnd : ℕ
  write : RangeWrite UInt8
  deriving Repr

/-- The write stays in its region. -/
def ReservedWrite.Inside (w : ReservedWrite) : Prop :=
  w.regionStart ≤ w.write.start ∧ w.write.start + w.write.bytes.length ≤ w.regionEnd

instance (w : ReservedWrite) : Decidable w.Inside :=
  inferInstanceAs (Decidable (_ ∧ _))

/-- `sizeof(ModuleInfo::GlobalDef)`: the register, the offset in the link data, the value in
eight bytes, two flags and the type, padded to the alignment of the value. -/
def sizeofGlobalDef : UInt32 := 24

/-- `alignof(ModuleInfo::GlobalDef)`. -/
def alignofGlobalDef : ℕ := 8

/-- `sizeof(ModuleInfo::ImpFuncDef)`. -/
def sizeofImpFuncDef : ℕ := 16

/-- The module info and the memory while the import section is parsed. `reservedGlobals` and
`writes` are the ledger. -/
structure ImportParser where
  memory : InternalMemory
  importGlobals : ℕ := 0
  fncDefs : Option ℕ := none
  numImportedFunctions : ℕ := 0
  numTotalFunctions : ℕ := 0
  numImportedGlobals : ℕ := 0
  linkDataLength : UInt32 := 0
  reservedGlobals : ℕ := 0
  writes : List ReservedWrite := []
  deriving Repr

namespace ImportParser

/-- Run a function of the memory. -/
def onMemory (f : InternalMemory → Except CompileError InternalMemory) :
    EStateM ImportSectionError ImportParser Unit := fun state =>
  match f state.memory with
  | .ok memory => .ok () { state with memory }
  | .error e => .error (.memory e) state

/-- Run a function without effects. -/
def ofExcept {α : Type} (x : Except ImportSectionError α) :
    EStateM ImportSectionError ImportParser α := fun state =>
  match x with
  | .ok a => .ok a state
  | .error e => .error e state

/-- The bytes of an `ImpFuncDef`; the last one is padding. -/
def impFuncDefBytes (symbolIndex linkDataOffset sigIndex builtinFunction : ℕ) (linked : Bool)
    (importFnVersion : ImportFnVersion) : List UInt8 :=
  bytesLE 4 symbolIndex ++ bytesLE 4 linkDataOffset ++ bytesLE 4 sigIndex ++
    [UInt8.ofNat builtinFunction, if linked then 1 else 0,
      if importFnVersion = .v1 then 0 else 1, 0]

/-- `memory_.write<ModuleInfo::ImpFuncDef>`: the end is moved first. -/
def writeImpFuncDef (host : HostAllocator) (impFuncDef : List UInt8) :
    EStateM ImportSectionError ImportParser Unit := do
  onMemory (·.step host sizeofImpFuncDef)
  modify fun state =>
    { state with
      numImportedFunctions := state.numImportedFunctions + 1
      writes := state.writes ++ [⟨state.fncDefs.getD 0, state.memory.size,
        ⟨state.memory.size - sizeofImpFuncDef, impFuncDef⟩⟩] }

/-- The bytes of a `MachineType`. -/
def machineTypeByte : MachineType → UInt8
  | .invalid => 0
  | .i32 => 1
  | .i64 => 2
  | .f32 => 3
  | .f64 => 4

/-- The members of a `GlobalDef` that are assigned, in order: `isMutable`, `type`, `isImported`,
`linkDataOffset` and `initialValue`. -/
def globalDefMembers (globalType : MachineType) (initialValue : Word) :
    List (RangeWrite UInt8) :=
  [⟨16, [0]⟩, ⟨18, [machineTypeByte globalType]⟩, ⟨17, [1]⟩, ⟨4, [0, 0, 0, 0]⟩,
    ⟨8, bytesLE globalType.getSize initialValue.toNat⟩]

/-- Assign the members of `importGlobals[numImportedGlobals]`. -/
def writeGlobalDef (globalType : MachineType) (initialValue : Word) :
    EStateM ImportSectionError ImportParser Unit :=
  modify fun state =>
    let globalDef := state.importGlobals + sizeofGlobalDef.toNat * state.numImportedGlobals
    { state with
      numImportedGlobals := state.numImportedGlobals + 1
      writes := state.writes ++ (globalDefMembers globalType initialValue).map fun member =>
        ⟨state.importGlobals, state.importGlobals + state.reservedGlobals,
          { member with start := globalDef + member.start }⟩ }

/-- Store an entry; a dynamically linked function takes a pointer of the link data. -/
def storeImport (host : HostAllocator) (ctx : ImportSectionContext) :
    AcceptedImport → EStateM ImportSectionError ImportParser Unit
  | .func symbolIndex sigIndex builtinFunction linked importFnVersion linkage => do
      let state ← get
      let linkDataOffset := if linkage.isSome then state.linkDataLength.toNat else 0
      writeImpFuncDef host (impFuncDefBytes symbolIndex linkDataOffset sigIndex builtinFunction
        linked importFnVersion)
      if linkage = some .dynamic then
        modify fun state =>
          { state with
            linkDataLength := state.linkDataLength + if ctx.has64BitPointers then 8 else 4 }
  | .global globalType initialValue => writeGlobalDef globalType initialValue

/-- The loop over the entries. -/
def parseImports (host : HostAllocator) (ctx : ImportSectionContext) :
    ℕ → BytecodeReader → EStateM ImportSectionError ImportParser BytecodeReader
  | 0, reader => pure reader
  | numImports + 1, reader => do
      let (import_, reader) ← ofExcept (readImport ctx reader)
      storeImport host ctx import_
      parseImports host ctx numImports reader

/-- Reserve room for the globals. The size is a product of 32 bits. -/
def reserveImportGlobals (host : HostAllocator) (numImports : UInt32) :
    EStateM ImportSectionError ImportParser Unit := do
  onMemory (·.alignTop host alignofGlobalDef)
  modify fun state => { state with importGlobals := state.memory.size }
  onMemory (·.step host (numImports * sizeofGlobalDef).toNat)
  modify fun state =>
    { state with
      reservedGlobals := (numImports * sizeofGlobalDef).toNat
      fncDefs := some (state.fncDefs.getD state.memory.size) }

/-- The check of the number of functions behind the last entry. -/
def checkNumImportedFunctions (reader : BytecodeReader) :
    EStateM ImportSectionError ImportParser BytecodeReader := do
  modify fun state => { state with numTotalFunctions := state.numImportedFunctions }
  if WasmCompiler.numImportedFunctions < (← get).numImportedFunctions then
    throw (.entry .tooManyImportedFunctions)
  return reader

/-- `Frontend::parseImportSection`. -/
def parseImportSection (host : HostAllocator) (ctx : ImportSectionContext)
    (reader : BytecodeReader) : EStateM ImportSectionError ImportParser BytecodeReader := do
  modify fun state => { state with numImportedFunctions := 0 }
  let (numImports, reader) ← ofExcept (ofReader reader.readUInt32)
  reserveImportGlobals host numImports
  let reader ← parseImports host ctx numImports.toNat reader
  checkNumImportedFunctions reader

/-! ### What the ledger holds -/

/-- The global imports in front of the first entry that is refused, or for whose definition the
host gives no memory. -/
def resolvedGlobals (host : HostAllocator) (ctx : ImportSectionContext) :
    ℕ → BytecodeReader → InternalMemory → ℕ
  | 0, _, _ => 0
  | numImports + 1, reader, memory =>
      match readImport ctx reader with
      | .error _ => 0
      | .ok (.func .., reader) =>
          match memory.step host sizeofImpFuncDef with
          | .error _ => 0
          | .ok memory => resolvedGlobals host ctx numImports reader memory
      | .ok (.global .., reader) => resolvedGlobals host ctx numImports reader memory + 1

/-- The size of the room, computed with 32 bits from the number of the imports that the section
declares, covers its global imports. -/
def ReservationCovers (host : HostAllocator) (ctx : ImportSectionContext)
    (memory : InternalMemory) (reader : BytecodeReader) : Prop :=
  ∀ numImports entries, reader.readUInt32 = .ok (numImports, entries) →
    ∀ aligned reserved, memory.alignTop host alignofGlobalDef = .ok aligned →
      aligned.step host (24 * numImports.toNat % 2 ^ 32) = .ok reserved →
        24 * resolvedGlobals host ctx numImports.toNat entries reserved ≤
          24 * numImports.toNat % 2 ^ 32

variable (host : HostAllocator) (ctx : ImportSectionContext) {state : ImportParser}

/-- The members of the `k`-th global are inside if and only if its definition is. -/
theorem globalDefMembers_inside_iff {start reserved : ℕ} (hdvd : 8 ∣ reserved) (k : ℕ)
    (globalType : MachineType) (initialValue : Word) :
    (∀ w ∈ (globalDefMembers globalType initialValue).map fun member =>
        (⟨start, start + reserved,
          { member with start := start + sizeofGlobalDef.toNat * k + member.start }⟩ :
            ReservedWrite), w.Inside) ↔ 24 * (k + 1) ≤ reserved := by
  have hsize : sizeofGlobalDef.toNat = 24 := rfl
  have hvalue : globalType.getSize ≤ 8 := by
    cases globalType <;> decide
  simp only [globalDefMembers, List.map_cons, List.map_nil, List.forall_mem_cons,
    ReservedWrite.Inside, List.length_cons, List.length_nil, length_bytesLE, hsize]
  constructor
  · rintro ⟨-, ⟨-, htype⟩, -⟩
    omega
  · intro h
    refine ⟨?_, ?_, ?_, ?_, ?_, by simp⟩ <;> omega

/-- A definition has the size of its type. -/
theorem length_impFuncDefBytes (symbolIndex linkDataOffset sigIndex builtinFunction : ℕ)
    (linked : Bool) (importFnVersion : ImportFnVersion) :
    (impFuncDefBytes symbolIndex linkDataOffset sigIndex builtinFunction linked
      importFnVersion).length = sizeofImpFuncDef := by
  simp [impFuncDefBytes, sizeofImpFuncDef]

/-- Storing a function moves the end of the memory, or throws. -/
theorem writeImpFuncDef_eq (impFuncDef : List UInt8)
    (state : ImportParser) :
    writeImpFuncDef host impFuncDef state =
      match state.memory.step host sizeofImpFuncDef with
      | .error e => .error (.memory e) state
      | .ok memory => .ok () { state with
          memory
          numImportedFunctions := state.numImportedFunctions + 1
          writes := state.writes ++ [⟨state.fncDefs.getD 0, memory.size,
            ⟨memory.size - sizeofImpFuncDef, impFuncDef⟩⟩] } := by
  simp only [writeImpFuncDef, onMemory, bind, EStateM.bind, modify, modifyGet,
    MonadStateOf.modifyGet, EStateM.modifyGet]
  cases state.memory.step host sizeofImpFuncDef <;> rfl

/-- A function is stored behind those in front of it. -/
theorem storeImport_func (symbolIndex sigIndex builtinFunction : ℕ) (linked : Bool)
    (importFnVersion : ImportFnVersion) (linkage : Option Linkage) (state : ImportParser) :
    (∃ e, state.memory.step host sizeofImpFuncDef = .error e ∧
      storeImport host ctx (.func symbolIndex sigIndex builtinFunction linked importFnVersion
        linkage) state = .error (.memory e) state) ∨
    ∃ memory linkDataLength impFuncDef, state.memory.step host sizeofImpFuncDef = .ok memory ∧
      impFuncDef.length = sizeofImpFuncDef ∧
      storeImport host ctx (.func symbolIndex sigIndex builtinFunction linked importFnVersion
        linkage) state = .ok () { state with
          memory
          linkDataLength
          numImportedFunctions := state.numImportedFunctions + 1
          writes := state.writes ++ [⟨state.fncDefs.getD 0, memory.size,
            ⟨memory.size - sizeofImpFuncDef, impFuncDef⟩⟩] } := by
  simp only [storeImport, bind, EStateM.bind, get, getThe, MonadStateOf.get, EStateM.get,
    writeImpFuncDef_eq]
  cases hstep : state.memory.step host sizeofImpFuncDef with
  | error e => exact .inl ⟨e, rfl, rfl⟩
  | ok memory =>
      refine .inr ?_
      by_cases hlinkage : linkage = some .dynamic
      · exact ⟨memory, state.linkDataLength + if ctx.has64BitPointers then 8 else 4, _, rfl,
          length_impFuncDefBytes _ _ _ _ _ _, by dsimp only; rw [if_pos hlinkage]; rfl⟩
      · exact ⟨memory, state.linkDataLength, _, rfl, length_impFuncDefBytes _ _ _ _ _ _,
          by dsimp only; rw [if_neg hlinkage]; rfl⟩

/-- **The ledger of the loop**: the functions are always inside, the globals if and only if the
room covers them. -/
theorem parseImports_writes (state : ImportParser) (hdvd : 8 ∣ state.reservedGlobals) {fncDefs : ℕ}
    (hfncDefs : state.fncDefs = some fncDefs) (hle : fncDefs ≤ state.memory.size)
    (numImports : ℕ) (reader : BytecodeReader) :
    ∃ writes, (finalState (parseImports host ctx numImports reader) state).writes =
        state.writes ++ writes ∧
      ((∀ w ∈ writes, w.Inside) ↔ resolvedGlobals host ctx numImports reader state.memory = 0 ∨
        24 * (state.numImportedGlobals +
          resolvedGlobals host ctx numImports reader state.memory) ≤ state.reservedGlobals) := by
  induction numImports generalizing state reader with
  | zero =>
      exact ⟨[], by simp [parseImports, finalState, pure, EStateM.pure],
        by simp [resolvedGlobals]⟩
  | succ numImports ih =>
      rw [parseImports, resolvedGlobals, finalState_bind]
      simp only [ofExcept]
      cases hread : readImport ctx reader with
      | error e => exact ⟨[], by simp, by simp⟩
      | ok accepted =>
          obtain ⟨import_, reader'⟩ := accepted
          dsimp only
          rw [finalState_bind]
          cases import_ with
          | func symbolIndex sigIndex builtinFunction linked importFnVersion linkage =>
              obtain ⟨e, hstep, hstore⟩ | ⟨memory, linkDataLength, impFuncDef, hstep, hlength,
                hstore⟩ := storeImport_func host ctx symbolIndex sigIndex
                  builtinFunction linked importFnVersion linkage state
              · rw [hstore, hstep]
                exact ⟨[], by simp, by simp⟩
              · rw [hstore, hstep]
                have hsize := InternalMemory.size_of_step hstep
                obtain ⟨writes, hwrites, hiff⟩ := ih { state with
                    memory
                    linkDataLength
                    numImportedFunctions := state.numImportedFunctions + 1
                    writes := state.writes ++ [⟨state.fncDefs.getD 0, memory.size,
                      ⟨memory.size - sizeofImpFuncDef, impFuncDef⟩⟩] } hdvd hfncDefs
                  (by dsimp only; omega) reader'
                refine ⟨_ ++ writes, hwrites.trans (List.append_assoc _ _ _), ?_⟩
                rw [List.forall_mem_append, List.forall_mem_singleton, hiff]
                refine and_iff_right ⟨?_, ?_⟩
                · rw [hfncDefs]
                  dsimp only [Option.getD_some]
                  omega
                · dsimp only
                  omega
          | global globalType initialValue =>
              obtain ⟨writes, hwrites, hiff⟩ := ih { state with
                  numImportedGlobals := state.numImportedGlobals + 1
                  writes := state.writes ++ (globalDefMembers globalType initialValue).map
                    fun member => ⟨state.importGlobals,
                      state.importGlobals + state.reservedGlobals,
                      { member with start := state.importGlobals +
                        sizeofGlobalDef.toNat * state.numImportedGlobals + member.start }⟩ }
                hdvd hfncDefs hle reader'
              refine ⟨_ ++ writes, hwrites.trans (List.append_assoc _ _ _), ?_⟩
              rw [List.forall_mem_append, globalDefMembers_inside_iff hdvd, hiff]
              dsimp only
              omega

/-- The size of the room. -/
theorem toNat_mul_sizeofGlobalDef (numImports : UInt32) :
    (numImports * sizeofGlobalDef).toNat = 24 * numImports.toNat % 2 ^ 32 := by
  rw [UInt32.toNat_mul, Nat.mul_comm]
  rfl

/-- Reserving room: the end is aligned and moved, or there is an error. -/
theorem reserveImportGlobals_eq (state : ImportParser) (numImports : UInt32)
    (hfncDefs : state.fncDefs = none) :
    (∃ e state', reserveImportGlobals host numImports state = .error e state' ∧
        state'.writes = state.writes ∧
        ∀ aligned reserved, state.memory.alignTop host alignofGlobalDef = .ok aligned →
          aligned.step host (24 * numImports.toNat % 2 ^ 32) ≠ .ok reserved) ∨
      ∃ aligned reserved, state.memory.alignTop host alignofGlobalDef = .ok aligned ∧
        aligned.step host (24 * numImports.toNat % 2 ^ 32) = .ok reserved ∧
        reserveImportGlobals host numImports state = .ok () { state with
          memory := reserved
          importGlobals := aligned.size
          reservedGlobals := 24 * numImports.toNat % 2 ^ 32
          fncDefs := some reserved.size } := by
  simp only [reserveImportGlobals, onMemory, bind, EStateM.bind, modify, modifyGet,
    MonadStateOf.modifyGet, EStateM.modifyGet, toNat_mul_sizeofGlobalDef]
  cases halign : state.memory.alignTop host alignofGlobalDef with
  | error e => exact .inl ⟨_, _, rfl, rfl, by rintro _ _ ⟨⟩⟩
  | ok aligned =>
      dsimp only
      cases hstep : aligned.step host (24 * numImports.toNat % 2 ^ 32) with
      | error e =>
          refine .inl ⟨_, _, rfl, rfl, ?_⟩
          rintro _ _ ⟨⟩
          rw [hstep]
          rintro ⟨⟩
      | ok reserved =>
          refine .inr ⟨aligned, reserved, rfl, hstep, ?_⟩
          dsimp only
          rw [hfncDefs]
          rfl

/-- The check behind the last entry writes nothing. -/
theorem checkNumImportedFunctions_writes (reader : BytecodeReader) (state : ImportParser) :
    (finalState (checkNumImportedFunctions reader) state).writes = state.writes := by
  rw [checkNumImportedFunctions, finalState_bind]
  simp only [modify, modifyGet, MonadStateOf.modifyGet, EStateM.modifyGet]
  rw [finalState_bind]
  simp only [get, getThe, MonadStateOf.get, EStateM.get]
  split <;> rfl

/-- What follows a computation and writes nothing leaves the ledger. -/
theorem finalState_bind_writes {α β : Type} {x : EStateM ImportSectionError ImportParser α}
    {f : α → EStateM ImportSectionError ImportParser β}
    (hf : ∀ a s, (finalState (f a) s).writes = s.writes) :
    (finalState (x >>= f) state).writes = (finalState x state).writes := by
  rw [finalState_bind, finalState]
  cases x state with
  | ok a s => exact hf a s
  | error e s => rfl

/-- The size of the room is a multiple of the alignment. -/
theorem dvd_reservation (numImports : ℕ) : 8 ∣ 24 * numImports % 2 ^ 32 := by
  omega

/-- **The memory of the import section**: all writes stay in the regions reserved for them if and
only if the size of the room, which may be wrapped, covers the globals that are stored. -/
theorem parseImportSection_writesInside_iff (host : HostAllocator) (ctx : ImportSectionContext)
    (memory : InternalMemory) (reader : BytecodeReader) :
    (∀ w ∈ (finalState (parseImportSection host ctx reader) { memory }).writes, w.Inside) ↔
      ReservationCovers host ctx memory reader := by
  rw [parseImportSection, finalState_bind]
  simp only [modify, modifyGet, MonadStateOf.modifyGet, EStateM.modifyGet]
  rw [finalState_bind]
  simp only [ofExcept, ofReader]
  cases hcount : reader.readUInt32 with
  | error e =>
      refine iff_of_true (by simp) ?_
      rintro _ _ h
      rw [hcount] at h
      cases h
  | ok counted =>
      obtain ⟨numImports, entries⟩ := counted
      dsimp only
      rw [finalState_bind]
      obtain ⟨e, state', hreserve, hwrites, hrefused⟩ | ⟨aligned, reserved, halign, hstep,
        hreserve⟩ := reserveImportGlobals_eq host { memory, numImportedFunctions := 0 } numImports rfl
      · rw [hreserve]
        refine iff_of_true (by simp [hwrites]) ?_
        intro numImports' entries' hcount' aligned reserved halign hstep
        obtain ⟨rfl, rfl⟩ := Prod.mk.inj (Except.ok.inj (hcount.symm.trans hcount'))
        exact absurd hstep (hrefused aligned reserved halign)
      · rw [hreserve]
        dsimp only
        obtain ⟨writes, hwrites, hiff⟩ := parseImports_writes host ctx
          { memory := reserved
            importGlobals := aligned.size
            reservedGlobals := 24 * numImports.toNat % 2 ^ 32
            fncDefs := some reserved.size }
          (dvd_reservation _) rfl (Nat.le_refl _) numImports.toNat entries
        rw [finalState_bind_writes (checkNumImportedFunctions_writes), hwrites]
        simp only [List.nil_append]
        rw [hiff]
        constructor
        · intro h numImports' entries' hcount' aligned' reserved' halign' hstep'
          obtain ⟨rfl, rfl⟩ := Prod.mk.inj (Except.ok.inj (hcount.symm.trans hcount'))
          obtain rfl := Except.ok.inj (halign.symm.trans halign')
          obtain rfl := Except.ok.inj (hstep.symm.trans hstep')
          dsimp only at h
          omega
        · intro h
          have hcovers := h numImports entries hcount aligned reserved halign hstep
          dsimp only
          omega

/-- A host that gives what is asked for. -/
def generousHost : HostAllocator where
  request region size := some { region with length := size }
  le_length _ size _ h := by
    obtain rfl := Option.some.inj h
    exact Nat.le_refl size

/-- An embedder with one global `m.g`. -/
def oneGlobalContext : ImportSectionContext where
  typeIndices := []
  signatures := []
  symbolList := []
  defaultImportSymbols := []
  globalSymbols := [⟨"m", "g", .i32, 0⟩]
  allowUnknownImports := false
  builtinFunctionsEnabled := true
  has64BitPointers := true

/-- A section that declares 178956971 imports, the first one being the global `m.g`. -/
def wrappingImportSection : BytecodeReader :=
  ⟨[], [0xAB, 0xD5, 0xAA, 0x55, 1, 0x6D, 1, 0x67, 3, 0x7F, 0]⟩

/-- The product for 178956971 imports is 8, and the first global is written beyond that. -/
theorem wrappingImportSection_writes_outside :
    ¬∀ w ∈ (finalState (parseImportSection generousHost oneGlobalContext wrappingImportSection)
      { memory := ⟨0, ⟨0x1000, 0⟩⟩ }).writes, w.Inside := by
  decide +kernel

end ImportParser

end WasmCompiler
