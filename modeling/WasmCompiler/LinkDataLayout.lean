import WasmCompiler.GlobalInitialization

/-!
# The Layout of the Link Data

The import section takes a pointer in the link data for every import that is linked
dynamically (`Frontend::parseImportSection`), the global section takes a cell for every mutable
global (`Frontend::parseGlobalSection`). The length of the link data is written to the binary,
and the runtime reserves so many bytes.

## Main results

* `parseImportSection_spec`: the pointers follow each other from the start of the link data.
* `parseLinkData_disjointRanges`: pointers and cells are aligned, inside and disjoint.
-/

namespace WasmCompiler

/-! ### Imports -/

/-- `NativeSymbol::Linkage`. -/
inductive Linkage where
  | static
  | dynamic
  deriving DecidableEq, Repr

/-- A native function that may be imported. -/
structure NativeSymbol where
  linkage : Linkage
  moduleName : String
  symbol : String
  signature : String
  deriving DecidableEq, Repr

/-- A global of the embedder that may be imported. -/
structure GlobalSymbol where
  moduleName : String
  fieldName : String
  type : MachineType
  value : Word
  deriving DecidableEq, Repr

/-- What is imported. -/
inductive ImportDesc where
  | func (importSignatureIndex : ℕ)
  | table
  | mem
  | global (globalType : MachineType) (isMutable : Bool)
  deriving DecidableEq, Repr

/-- One entry of the import section. -/
structure ImportEntry where
  moduleName : String
  fieldName : String
  desc : ImportDesc
  deriving DecidableEq, Repr

/-- The errors of the import section and the global section. -/
inductive ImportError where
  | functionTypeIndexOutOfBounds
  | importedTableNotSupported
  | importedMemoryNotSupported
  | invalidGlobalType
  | mutableImportedGlobalsNotSupported
  | importedSymbolCouldNotBeFound
  | tooManyImportedFunctions
  | globalSection (error : BinaryError)
  deriving DecidableEq, Repr

/-- What the import section depends on: the signatures of the types, the symbols of the
embedder, the configuration, and whether pointers have eight bytes. -/
structure ImportContext where
  types : List String
  symbolList : List NativeSymbol
  defaultImportSymbols : List NativeSymbol
  globalSymbols : List GlobalSymbol
  allowUnknownImports : Bool
  builtinFunctionsEnabled : Bool
  has64BitPointers : Bool

/-- `sizeof(void (*)(void))`. -/
def ImportContext.pointerSize (ctx : ImportContext) : ℕ := if ctx.has64BitPointers then 8 else 4

/-- `ModuleInfo::getImportSymbol`. -/
def ImportContext.getImportSymbol (ctx : ImportContext) (index : ℕ) : Option NativeSymbol :=
  if index < ctx.symbolList.length then ctx.symbolList[index]?
  else ctx.defaultImportSymbols[index - ctx.symbolList.length]?

/-- The names and signatures of the builtin functions. -/
def builtinFunctionNames : List (String × String) :=
  [("trap", "()"), ("getLengthOfLinkedMemory", "()i"), ("getU8FromLinkedMemory", "(i)i"),
    ("getI8FromLinkedMemory", "(i)i"), ("getU16FromLinkedMemory", "(i)i"),
    ("getI16FromLinkedMemory", "(i)i"), ("getU32FromLinkedMemory", "(i)i"),
    ("getI32FromLinkedMemory", "(i)i"), ("getU64FromLinkedMemory", "(i)I"),
    ("getI64FromLinkedMemory", "(i)I"), ("getF32FromLinkedMemory", "(i)f"),
    ("getF64FromLinkedMemory", "(i)F"), ("copyFromLinkedMemory", "(iii)"),
    ("isFunctionLinked", "(i)i"), ("tracePoint", "(i)")]

/-- An imported function; a builtin function has its number. -/
structure ImpFuncDef where
  symbolIndex : ℕ := 0
  linkDataOffset : UInt32 := 0
  sigIndex : ℕ
  linked : Bool
  builtinFunction : Option ℕ := none
  deriving DecidableEq, Repr

/-- What the import section leaves: the imported functions and globals, and the length of the
link data. -/
structure ImportState where
  impFuncDefs : List ImpFuncDef := []
  importGlobals : List GlobalDef := []
  linkDataLength : UInt32 := 0

/-- `resolveImportFromSymbolList`: the first symbol with the names and the signature gives the
definition; a dynamically linked one takes a pointer. -/
def resolveImportFromSymbolList (ctx : ImportContext) (state : ImportState)
    (symbols : List NativeSymbol) (symbolBaseIndex : ℕ) (entry : ImportEntry)
    (signature : String) (importSignatureIndex : ℕ) : Option ImportState :=
  match symbols.findIdx? fun symbol => symbol.moduleName == entry.moduleName &&
      symbol.symbol == entry.fieldName && symbol.signature == signature with
  | none => none
  | some i =>
      let impFuncDef : ImpFuncDef :=
        { symbolIndex := symbolBaseIndex + i
          linkDataOffset := state.linkDataLength
          sigIndex := importSignatureIndex
          linked := true }
      some { state with
        impFuncDefs := state.impFuncDefs ++ [impFuncDef]
        linkDataLength :=
          if (symbols[i]?).map (·.linkage) = some .dynamic then
            state.linkDataLength + UInt32.ofNat ctx.pointerSize
          else state.linkDataLength }

/-- The number of the builtin function with a name and a signature. -/
def findBuiltinFunction (ctx : ImportContext) (entry : ImportEntry) (signature : String) :
    Option ℕ :=
  if ctx.builtinFunctionsEnabled ∧ entry.moduleName = "builtin" then
    builtinFunctionNames.findIdx? fun builtin =>
      builtin.1 == entry.fieldName && builtin.2 == signature
  else none

/-- An imported function: a builtin one, one of the embedder's symbols, one of the default
symbols, or an unknown one. -/
def parseImportedFunction (ctx : ImportContext) (state : ImportState) (entry : ImportEntry)
    (importSignatureIndex : ℕ) : Except ImportError ImportState :=
  match ctx.types[importSignatureIndex]? with
  | none => .error .functionTypeIndexOutOfBounds
  | some signature =>
      match findBuiltinFunction ctx entry signature with
      | some builtinFunction =>
          .ok { state with
            impFuncDefs := state.impFuncDefs ++
              [{ sigIndex := importSignatureIndex, linked := true, builtinFunction }] }
      | none =>
          match resolveImportFromSymbolList ctx state ctx.symbolList 0 entry signature
              importSignatureIndex with
          | some state => .ok state
          | none =>
              match resolveImportFromSymbolList ctx state ctx.defaultImportSymbols
                  ctx.symbolList.length entry signature importSignatureIndex with
              | some state => .ok state
              | none =>
                  if ctx.allowUnknownImports then
                    .ok { state with
                      impFuncDefs := state.impFuncDefs ++
                        [{ sigIndex := importSignatureIndex, linked := false }] }
                  else .error .importedSymbolCouldNotBeFound

/-- An imported global: it is immutable, and its value is known. -/
def parseImportedGlobal (ctx : ImportContext) (state : ImportState) (entry : ImportEntry)
    (globalType : MachineType) (isMutable : Bool) : Except ImportError ImportState :=
  if htype : globalType = .invalid then .error .invalidGlobalType
  else if isMutable then .error .mutableImportedGlobalsNotSupported
  else
    match ctx.globalSymbols.find? fun symbol => symbol.moduleName == entry.moduleName &&
        symbol.fieldName == entry.fieldName && symbol.type == globalType with
    | none => .error .importedSymbolCouldNotBeFound
    | some symbol =>
        .ok { state with
          importGlobals := state.importGlobals ++
            [{ type := globalType, isMutable, initialValue := symbol.value,
               type_valid := htype, linkDataOffset := 0 }] }

/-- One entry of the import section. -/
def parseImport (ctx : ImportContext) (state : ImportState) (entry : ImportEntry) :
    Except ImportError ImportState :=
  match entry.desc with
  | .func importSignatureIndex => parseImportedFunction ctx state entry importSignatureIndex
  | .table => .error .importedTableNotSupported
  | .mem => .error .importedMemoryNotSupported
  | .global globalType isMutable => parseImportedGlobal ctx state entry globalType isMutable

/-- The entries of the import section in order. -/
def parseImports (ctx : ImportContext) :
    ImportState → List ImportEntry → Except ImportError ImportState
  | state, [] => .ok state
  | state, entry :: rest =>
      parseImport ctx state entry >>= fun state => parseImports ctx state rest

/-- `parseImportSection`. The number of functions is checked at the end. -/
def parseImportSection (ctx : ImportContext) (imports : List ImportEntry) :
    Except ImportError ImportState :=
  parseImports ctx {} imports >>= fun state =>
    if state.impFuncDefs.length > numImportedFunctions then .error .tooManyImportedFunctions
    else .ok state

/-! ### The link data of a module -/

/-- The sections of a module that take link data. -/
structure LinkDataModule where
  imports : Option (List ImportEntry)
  globals : Option (List GlobalDecl)

/-- The functions and globals of a module with their places in the link data, and the length
that is written to the binary. -/
structure ModuleLinkData where
  impFuncDefs : List ImpFuncDef
  importGlobals : List GlobalDef
  nonImportGlobals : List GlobalDef
  linkDataLength : UInt32

/-- The import section and the global section, if they are there. -/
def parseLinkData (ctx : ImportContext) (module_ : LinkDataModule) :
    Except ImportError ModuleLinkData :=
  (match module_.imports with
    | some imports => parseImportSection ctx imports
    | none => .ok {}) >>= fun state =>
  match module_.globals with
  | none => .ok ⟨state.impFuncDefs, state.importGlobals, [], state.linkDataLength⟩
  | some decls =>
      match parseGlobalSection state.linkDataLength decls with
      | .ok (nonImportGlobals, linkDataLength) =>
          .ok ⟨state.impFuncDefs, state.importGlobals, nonImportGlobals, linkDataLength⟩
      | .error e => .error (.globalSection e)

/-- A range of bytes of the link data. -/
structure LinkDataRange where
  offset : ℕ
  size : ℕ
  deriving DecidableEq, Repr

/-- The ranges share no byte. -/
def LinkDataRange.Disjoint (a b : LinkDataRange) : Prop :=
  a.offset + a.size ≤ b.offset ∨ b.offset + b.size ≤ a.offset

/-- An import that the runtime links: the functions of the section of the dynamic imports. -/
def ImpFuncDef.isDynamic (ctx : ImportContext) (impFuncDef : ImpFuncDef) : Bool :=
  impFuncDef.builtinFunction.isNone && impFuncDef.linked &&
    (ctx.getImportSymbol impFuncDef.symbolIndex).map (·.linkage) == some .dynamic

/-- The pointer of an import. -/
def ImpFuncDef.pointerRange (ctx : ImportContext) (impFuncDef : ImpFuncDef) : LinkDataRange :=
  ⟨impFuncDef.linkDataOffset.toNat, ctx.pointerSize⟩

/-- The cell of a mutable global. -/
def GlobalDef.cellRange (globalDef : GlobalDef) : LinkDataRange :=
  ⟨globalDef.linkDataOffset.toNat, globalDef.type.getSize⟩

/-- The ranges that are in use: the pointers of the dynamically linked imports and the cells of
the mutable globals. -/
def ModuleLinkData.ranges (ctx : ImportContext) (linkData : ModuleLinkData) :
    List LinkDataRange :=
  (linkData.impFuncDefs.filter (·.isDynamic ctx)).map (·.pointerRange ctx) ++
    ((linkData.importGlobals ++ linkData.nonImportGlobals).filter (·.isMutable)).map
      (·.cellRange)

/-! ### The pointers of the imports -/

/-- The imports that have a pointer. -/
def ImportState.dynamicImports (ctx : ImportContext) (state : ImportState) : List ImpFuncDef :=
  state.impFuncDefs.filter (·.isDynamic ctx)

/-- A pointer has four or eight bytes. -/
theorem ImportContext.pointerSize_eq (ctx : ImportContext) :
    ctx.pointerSize = 4 ∨ ctx.pointerSize = 8 := by
  cases h : ctx.has64BitPointers <;> simp [pointerSize, h]

/-- The pointers follow each other from the start of the link data, and the imported globals
have no cell. -/
structure PlacedImports (ctx : ImportContext) (state : ImportState) : Prop where
  length_eq : state.linkDataLength.toNat = ctx.pointerSize * (state.dynamicImports ctx).length
  within : ∀ d ∈ state.dynamicImports ctx, ctx.pointerSize ∣ d.linkDataOffset.toNat ∧
    d.linkDataOffset.toNat + ctx.pointerSize ≤ state.linkDataLength.toNat
  ordered : (state.dynamicImports ctx).Pairwise fun a b =>
    a.linkDataOffset.toNat + ctx.pointerSize ≤ b.linkDataOffset.toNat
  immutable : ∀ g ∈ state.importGlobals, g.isMutable = false

namespace PlacedImports

variable {ctx : ImportContext} {state state' : ImportState}

/-- An import without a pointer. -/
theorem of_not_dynamic (h : PlacedImports ctx state) {impFuncDef : ImpFuncDef}
    (hdynamic : impFuncDef.isDynamic ctx = false) :
    PlacedImports ctx { state with impFuncDefs := state.impFuncDefs ++ [impFuncDef] } := by
  have hsame : ({ state with impFuncDefs := state.impFuncDefs ++ [impFuncDef] } :
      ImportState).dynamicImports ctx = state.dynamicImports ctx := by
    simp [ImportState.dynamicImports, hdynamic]
  exact ⟨hsame ▸ h.length_eq, hsame ▸ h.within, hsame ▸ h.ordered, h.immutable⟩

/-- An import with a pointer takes the next one. -/
theorem of_dynamic (h : PlacedImports ctx state) {impFuncDef : ImpFuncDef}
    (hdynamic : impFuncDef.isDynamic ctx = true)
    (hoffset : impFuncDef.linkDataOffset = state.linkDataLength)
    (hlimit : state.impFuncDefs.length < numImportedFunctions) :
    PlacedImports ctx { state with
      impFuncDefs := state.impFuncDefs ++ [impFuncDef]
      linkDataLength := state.linkDataLength + UInt32.ofNat ctx.pointerSize } := by
  have hpointer := ctx.pointerSize_eq
  have hlength := h.length_eq
  have hcount : (state.dynamicImports ctx).length ≤ state.impFuncDefs.length :=
    List.length_filter_le _ _
  simp only [numImportedFunctions] at hlimit
  have hnext : (state.linkDataLength + UInt32.ofNat ctx.pointerSize).toNat =
      state.linkDataLength.toNat + ctx.pointerSize := by
    rw [UInt32.toNat_add, UInt32.toNat_ofNat', hlength]
    rcases hpointer with hp | hp <;> rw [hp] <;> omega
  have hsame : ({ state with
      impFuncDefs := state.impFuncDefs ++ [impFuncDef]
      linkDataLength := state.linkDataLength + UInt32.ofNat ctx.pointerSize } :
      ImportState).dynamicImports ctx = state.dynamicImports ctx ++ [impFuncDef] := by
    simp [ImportState.dynamicImports, hdynamic]
  refine ⟨?_, fun d hd => ?_, ?_, h.immutable⟩
  · rw [hsame, hnext, hlength, List.length_append, List.length_singleton, Nat.mul_add,
      Nat.mul_one]
  · rw [hsame] at hd
    simp only [hnext]
    rcases List.mem_append.mp hd with hd | hd
    · obtain ⟨hdvd, hle⟩ := h.within d hd
      exact ⟨hdvd, by omega⟩
    · obtain rfl := List.mem_singleton.mp hd
      rw [hoffset, hlength]
      exact ⟨Nat.dvd_mul_right _ _, Nat.le_refl _⟩
  · rw [hsame]
    refine List.pairwise_append.mpr ⟨h.ordered, List.pairwise_singleton _ _, fun a ha b hb => ?_⟩
    obtain rfl := List.mem_singleton.mp hb
    rw [hoffset]
    exact (h.within a ha).2

/-- A symbol that is found gives an import that has a pointer if the symbol says so. -/
theorem resolveImportFromSymbolList {symbols : List NativeSymbol} {symbolBaseIndex : ℕ}
    {entry : ImportEntry} {signature : String} {importSignatureIndex : ℕ}
    (h : state.impFuncDefs.length ≤ numImportedFunctions → PlacedImports ctx state)
    (hsymbols : ∀ i < symbols.length, ctx.getImportSymbol (symbolBaseIndex + i) = symbols[i]?)
    (hfound : WasmCompiler.resolveImportFromSymbolList ctx state symbols symbolBaseIndex entry
      signature importSignatureIndex = some state') :
    state.impFuncDefs.length ≤ state'.impFuncDefs.length ∧
      (state'.impFuncDefs.length ≤ numImportedFunctions → PlacedImports ctx state') := by
  simp only [WasmCompiler.resolveImportFromSymbolList] at hfound
  split at hfound
  · simp at hfound
  · case _ i hi =>
      obtain rfl := Option.some.inj hfound
      have hlt : i < symbols.length := (List.findIdx?_eq_some_iff_getElem.mp hi).1
      simp only [List.length_append, List.length_singleton]
      refine ⟨by omega, fun hlimit => ?_⟩
      have hplaced := h (by omega)
      cases hlinkage : symbols[i].linkage with
      | dynamic =>
          have hdynamic : (symbols[i]?).map (·.linkage) = some .dynamic := by
            simp [List.getElem?_eq_getElem hlt, hlinkage]
          simp only [hdynamic, if_true]
          exact hplaced.of_dynamic
            (by simp [ImpFuncDef.isDynamic, hsymbols i hlt, hdynamic]) rfl (by omega)
      | static =>
          have hstatic : (symbols[i]?).map (·.linkage) = some .static := by
            simp [List.getElem?_eq_getElem hlt, hlinkage]
          simp only [hstatic, Option.some.injEq, reduceCtorEq, if_false]
          exact hplaced.of_not_dynamic
            (by simp [ImpFuncDef.isDynamic, hsymbols i hlt, hstatic])

/-- **One entry** of the import section keeps the pointers in their places. -/
theorem parseImport {entry : ImportEntry}
    (h : state.impFuncDefs.length ≤ numImportedFunctions → PlacedImports ctx state)
    (hparse : WasmCompiler.parseImport ctx state entry = .ok state') :
    state.impFuncDefs.length ≤ state'.impFuncDefs.length ∧
      (state'.impFuncDefs.length ≤ numImportedFunctions → PlacedImports ctx state') := by
  cases hdesc : entry.desc with
  | table => simp [WasmCompiler.parseImport, hdesc] at hparse
  | mem => simp [WasmCompiler.parseImport, hdesc] at hparse
  | global globalType isMutable =>
      simp only [WasmCompiler.parseImport, hdesc, parseImportedGlobal] at hparse
      split at hparse
      · simp at hparse
      · split at hparse
        · simp at hparse
        · case _ hmutable =>
            split at hparse
            · simp at hparse
            · obtain rfl := Except.ok.inj hparse
              refine ⟨Nat.le_refl _, fun hlimit => ?_⟩
              have hplaced := h hlimit
              refine ⟨hplaced.length_eq, hplaced.within, hplaced.ordered, fun g hg => ?_⟩
              rcases List.mem_append.mp hg with hg | hg
              · exact hplaced.immutable g hg
              · obtain rfl := List.mem_singleton.mp hg
                simpa using hmutable
  | func importSignatureIndex =>
      have hown : ∀ i < ctx.symbolList.length,
          ctx.getImportSymbol (0 + i) = ctx.symbolList[i]? := by
        intro i hi
        simp [ImportContext.getImportSymbol, hi]
      have hdefault : ∀ i < ctx.defaultImportSymbols.length,
          ctx.getImportSymbol (ctx.symbolList.length + i) = ctx.defaultImportSymbols[i]? := by
        intro i _
        simp [ImportContext.getImportSymbol]
      simp only [WasmCompiler.parseImport, hdesc, parseImportedFunction] at hparse
      split at hparse
      · simp at hparse
      · split at hparse
        · obtain rfl := Except.ok.inj hparse
          simp only [List.length_append, List.length_singleton]
          exact ⟨by omega, fun hlimit =>
            (h (by omega)).of_not_dynamic (by simp [ImpFuncDef.isDynamic])⟩
        · split at hparse
          · case _ found hfound =>
              obtain rfl := Except.ok.inj hparse
              exact resolveImportFromSymbolList h hown hfound
          · split at hparse
            · case _ found hfound =>
                obtain rfl := Except.ok.inj hparse
                exact resolveImportFromSymbolList h hdefault hfound
            · split at hparse
              · obtain rfl := Except.ok.inj hparse
                simp only [List.length_append, List.length_singleton]
                exact ⟨by omega, fun hlimit =>
                  (h (by omega)).of_not_dynamic (by simp [ImpFuncDef.isDynamic])⟩
              · simp at hparse

/-- The entries of the import section keep the pointers in their places. -/
theorem parseImports {imports : List ImportEntry}
    (h : state.impFuncDefs.length ≤ numImportedFunctions → PlacedImports ctx state)
    (hparse : WasmCompiler.parseImports ctx state imports = .ok state') :
    state'.impFuncDefs.length ≤ numImportedFunctions → PlacedImports ctx state' := by
  induction imports generalizing state with
  | nil =>
      obtain rfl := Except.ok.inj hparse
      exact h
  | cons entry rest ih =>
      obtain ⟨state1, hentry, hrest⟩ := exists_of_bind_ok hparse
      exact ih (parseImport h hentry).2 hrest

/-- Nothing is imported. -/
theorem empty : PlacedImports ctx {} :=
  ⟨by simp [ImportState.dynamicImports], by simp [ImportState.dynamicImports],
    by simp [ImportState.dynamicImports], by simp⟩

end PlacedImports

/-- **The pointers of the imports** follow each other, and there are not more imports than the
limit. -/
theorem parseImportSection_spec {ctx : ImportContext} {imports : List ImportEntry}
    {state : ImportState} (h : parseImportSection ctx imports = .ok state) :
    PlacedImports ctx state ∧ state.impFuncDefs.length ≤ numImportedFunctions := by
  obtain ⟨state1, hparse, h⟩ := exists_of_bind_ok h
  split at h
  · simp at h
  · case _ hlimit =>
      obtain rfl := Except.ok.inj h
      have hle : state1.impFuncDefs.length ≤ numImportedFunctions := Nat.not_lt.mp hlimit
      exact ⟨PlacedImports.parseImports (fun _ => PlacedImports.empty) hparse hle, hle⟩

/-! ### The ranges of a module -/

/-- The ranges are aligned to their sizes, inside the link data, and disjoint. -/
structure DisjointRanges (linkDataLength : UInt32) (ranges : List LinkDataRange) : Prop where
  aligned : ∀ r ∈ ranges, r.size ∣ r.offset
  within : ∀ r ∈ ranges, r.offset + r.size ≤ linkDataLength.toNat
  disjoint : ranges.Pairwise LinkDataRange.Disjoint

/-- The pointers are in front of everything that is placed behind the imports. -/
theorem PlacedImports.disjointRanges {ctx : ImportContext} {state : ImportState}
    (h : PlacedImports ctx state) {linkDataLength : UInt32}
    (hle : state.linkDataLength.toNat ≤ linkDataLength.toNat) {globalDefs : List GlobalDef}
    (hcells : DisjointCells globalDefs)
    (hwithin : ∀ g ∈ globalDefs, g.isMutable = true →
      state.linkDataLength.toNat ≤ g.linkDataOffset.toNat ∧
        g.linkDataOffset.toNat + g.type.getSize ≤ linkDataLength.toNat) :
    DisjointRanges linkDataLength
      ((state.dynamicImports ctx).map (·.pointerRange ctx) ++
        (globalDefs.filter (·.isMutable)).map (·.cellRange)) where
  aligned r hr := by
    rcases List.mem_append.mp hr with hr | hr
    · obtain ⟨d, hd, rfl⟩ := List.mem_map.mp hr
      exact (h.within d hd).1
    · obtain ⟨g, hg, rfl⟩ := List.mem_map.mp hr
      obtain ⟨hg, hmutable⟩ := List.mem_filter.mp hg
      exact hcells.aligned g hg hmutable
  within r hr := by
    rcases List.mem_append.mp hr with hr | hr
    · obtain ⟨d, hd, rfl⟩ := List.mem_map.mp hr
      exact Nat.le_trans (h.within d hd).2 hle
    · obtain ⟨g, hg, rfl⟩ := List.mem_map.mp hr
      obtain ⟨hg, hmutable⟩ := List.mem_filter.mp hg
      exact (hwithin g hg hmutable).2
  disjoint := by
    refine List.pairwise_append.mpr ⟨?_, ?_, fun r hr r' hr' => ?_⟩
    · exact List.pairwise_map.mpr (h.ordered.imp fun hlt => Or.inl hlt)
    · refine List.pairwise_map.mpr (List.Pairwise.imp_of_mem ?_ (hcells.disjoint.filter _))
      intro a b ha hb hab
      exact hab (List.mem_filter.mp ha).2 (List.mem_filter.mp hb).2
    · obtain ⟨d, hd, rfl⟩ := List.mem_map.mp hr
      obtain ⟨g, hg, rfl⟩ := List.mem_map.mp hr'
      obtain ⟨hg, hmutable⟩ := List.mem_filter.mp hg
      exact Or.inl (Nat.le_trans (h.within d hd).2 (hwithin g hg hmutable).1)

/-- **The layout of the link data**: in every accepted module the pointers of the dynamically
linked imports and the cells of the mutable globals are aligned to their sizes, inside the
link data, and disjoint. -/
theorem parseLinkData_disjointRanges {ctx : ImportContext} {module_ : LinkDataModule}
    {linkData : ModuleLinkData} (haccepted : parseLinkData ctx module_ = .ok linkData) :
    DisjointRanges linkData.linkDataLength (linkData.ranges ctx) := by
  obtain ⟨state, himports, hglobals⟩ := exists_of_bind_ok haccepted
  obtain ⟨hplaced, hlimit⟩ : PlacedImports ctx state ∧
      state.impFuncDefs.length ≤ numImportedFunctions := by
    cases hsection : module_.imports with
    | none =>
        rw [hsection] at himports
        obtain rfl := Except.ok.inj himports
        exact ⟨PlacedImports.empty, by simp⟩
    | some imports =>
        rw [hsection] at himports
        exact parseImportSection_spec himports
  have hnone : state.importGlobals.filter (·.isMutable) = [] :=
    List.filter_eq_nil_iff.mpr fun g hg => by simp [hplaced.immutable g hg]
  split at hglobals
  · obtain rfl := Except.ok.inj hglobals
    have hranges := @PlacedImports.disjointRanges ctx state hplaced state.linkDataLength
      (Nat.le_refl _) [] ⟨by simp, List.Pairwise.nil⟩ (by simp)
    simpa [ModuleLinkData.ranges, hnone, ImportState.dynamicImports] using hranges
  · split at hglobals
    · case _ nonImportGlobals linkDataLength hparse =>
        obtain rfl := Except.ok.inj hglobals
        have hpointer := ctx.pointerSize_eq
        have hcount : (state.dynamicImports ctx).length ≤ state.impFuncDefs.length :=
          List.length_filter_le _ _
        have hlength := hplaced.length_eq
        obtain ⟨hcells, hle, hwithin⟩ := parseGlobalSection_cells
          (by rcases hpointer with hp | hp <;> rw [hp] at hlength <;> omega)
          (by rcases hpointer with hp | hp <;> rw [hp] at hlength <;> omega) hparse
        have hranges := hplaced.disjointRanges hle hcells hwithin
        simpa [ModuleLinkData.ranges, hnone, ImportState.dynamicImports] using hranges
    · simp at hglobals

/-- A module with a dynamic import, a static one and globals of both sizes. -/
def mixedLinkData : LinkDataModule where
  imports := some [⟨"env", "f", .func 0⟩, ⟨"env", "g", .func 0⟩]
  globals := some [mutableI64 1, mutableI32 2]

/-- Pointers of four bytes, and two symbols. -/
def mixedImportContext : ImportContext where
  types := ["()"]
  symbolList := [⟨.static, "env", "f", "()"⟩]
  defaultImportSymbols := [⟨.dynamic, "env", "g", "()"⟩]
  globalSymbols := []
  allowUnknownImports := false
  builtinFunctionsEnabled := true
  has64BitPointers := false

/-- What the module takes. -/
def mixedModuleLinkData : ModuleLinkData where
  impFuncDefs := [{ symbolIndex := 0, sigIndex := 0, linked := true },
    { symbolIndex := 1, sigIndex := 0, linked := true }]
  importGlobals := []
  nonImportGlobals := [⟨mutableI64 1, 8⟩, ⟨mutableI32 2, 4⟩]
  linkDataLength := 16

/-- The pointer, the cell of four bytes and the cell of eight bytes follow each other. -/
theorem parseLinkData_disjointRanges_mixed :
    DisjointRanges mixedModuleLinkData.linkDataLength
      (mixedModuleLinkData.ranges mixedImportContext) := by
  have haccepted : parseLinkData mixedImportContext mixedLinkData = .ok mixedModuleLinkData :=
    rfl
  exact parseLinkData_disjointRanges haccepted

end WasmCompiler
