import WasmCompiler.MachineType
import WasmCompiler.BinaryImage
import Mathlib.Data.List.Pairwise

/-!
# Initialisation of the Mutable Globals

The link-data offsets of the globals (`Frontend::parseGlobalSection`), the section of the
binary with their initial values (`Frontend::serializeWasmGlobalsBinarySection`), and the
loop of `Runtime::initializeModule` that copies the values to the link data.

## Main results

* `parseGlobalSection_spec`: the cells of the mutable globals are aligned and disjoint.
* `initialisesMutableGlobals_iff`: when every cell gets its value and nothing else is written.
-/

namespace WasmCompiler

/-- One entry of the global section: a supported type, whether the global is mutable, and the
value of its constant initialisation expression. -/
structure GlobalDecl where
  type : MachineType
  isMutable : Bool
  initialValue : Word
  type_valid : type ≠ .invalid
  deriving Repr

/-- The definition of a global: the link-data offset is meaningful for mutable ones. -/
structure GlobalDef extends GlobalDecl where
  linkDataOffset : UInt32
  deriving Repr

/-- `ImplementationLimits::numNonImportedGlobals`. -/
def numNonImportedGlobals : ℕ := 65536

/-- `ImplementationLimits::numImportedFunctions`. -/
def numImportedFunctions : ℕ := 65536

namespace GlobalDef

/-- Whether the global has a cell of a size in the link data. -/
def hasCell (globalDef : GlobalDef) (size : ℕ) : Bool :=
  globalDef.isMutable && globalDef.type.getSize == size

/-- The bytes of the initial value. -/
def initialBytes (globalDef : GlobalDef) : List UInt8 :=
  bytesLE globalDef.type.getSize globalDef.initialValue.toNat

/-- What the link data is to hold for the global. -/
def cell (globalDef : GlobalDef) : RangeWrite UInt8 :=
  ⟨globalDef.linkDataOffset.toNat, globalDef.initialBytes⟩

/-- A supported type takes four or eight bytes. -/
theorem size_eq (globalDef : GlobalDef) :
    globalDef.type.getSize = 4 ∨ globalDef.type.getSize = 8 := by
  have hvalid := globalDef.type_valid
  cases h : globalDef.type <;> simp_all [MachineType.getSize]

end GlobalDef

/-! ### Link-data offsets -/

/-- The first loop: all globals get the current end of the link data, and the mutable ones of
four bytes take it. -/
def assignSmallGlobals : UInt32 → List GlobalDecl → List GlobalDef × UInt32
  | linkDataLength, [] => ([], linkDataLength)
  | linkDataLength, decl :: decls =>
      let size := decl.type.getSize
      let rest := assignSmallGlobals
        (if decl.isMutable ∧ size = 4 then linkDataLength + 4 else linkDataLength) decls
      ({ decl with linkDataOffset := linkDataLength } :: rest.1, rest.2)

/-- The second loop: the mutable globals of eight bytes. -/
def assignLargeGlobals : UInt32 → List GlobalDef → List GlobalDef × UInt32
  | linkDataLength, [] => ([], linkDataLength)
  | linkDataLength, globalDef :: globalDefs =>
      let size := globalDef.type.getSize
      if globalDef.isMutable ∧ size = 8 then
        let rest := assignLargeGlobals (linkDataLength + 8) globalDefs
        ({ globalDef with linkDataOffset := linkDataLength } :: rest.1, rest.2)
      else
        let rest := assignLargeGlobals linkDataLength globalDefs
        (globalDef :: rest.1, rest.2)

/-- The definitions of the globals and the length of the link data behind them. -/
def parseGlobalSection (linkDataLength : UInt32) (decls : List GlobalDecl) :
    Except BinaryError (List GlobalDef × UInt32) :=
  if decls.length > numNonImportedGlobals then .error .tooManyGlobals
  else
    let small := assignSmallGlobals linkDataLength decls
    .ok (assignLargeGlobals (roundUpToPow2 small.2 3) small.1)

/-! ### The section of the binary -/

/-- The number of a machine type in the binary. -/
def machineTypeCode : MachineType → UInt8
  | .invalid => 0
  | .i32 => 1
  | .i64 => 2
  | .f32 => 3
  | .f64 => 4

/-- The machine type with a number. -/
def machineTypeOfCode (code : UInt8) : MachineType :=
  if code = 1 then .i32 else if code = 2 then .i64 else if code = 3 then .f32
  else if code = 4 then .f64 else .invalid

/-- The number of a type gives the type back. -/
@[simp] theorem machineTypeOfCode_code (machineType : MachineType) :
    machineTypeOfCode (machineTypeCode machineType) = machineType := by
  cases machineType <;> rfl

/-- Append a mutable global: its value, its offset, its type and three bytes of padding. -/
def writeGlobal (output : List UInt8) (globalDef : GlobalDef) :
    Except BinaryError (List UInt8) :=
  memWriterAppend output globalDef.initialBytes >>= fun output =>
  memWriterWrite32 output globalDef.linkDataOffset >>= fun output =>
  memWriterAppend output [machineTypeCode globalDef.type] >>= fun output =>
  memWriterAppend output [0, 0, 0]

/-- Append the mutable globals in module order. -/
def writeGlobals : List UInt8 → List GlobalDef → Except BinaryError (List UInt8)
  | output, [] => .ok output
  | output, globalDef :: globalDefs =>
      (if globalDef.isMutable then writeGlobal output globalDef else .ok output) >>=
        fun output => writeGlobals output globalDefs

/-- The section with the mutable globals, up to their number. -/
def serializeWasmGlobalsBinarySection (output : List UInt8) (globalDefs : List GlobalDef) :
    Except BinaryError (List UInt8) :=
  writeGlobals output globalDefs >>= fun output =>
    memWriterWrite32 output (UInt32.ofNat (globalDefs.filter (·.isMutable)).length)

/-! ### The runtime -/

/-- Copy the initial values of the mutable globals to the link data, from the cursor
backwards. The offset is read into a 16-bit variable. -/
def initializeGlobals :
    ℕ → List UInt8 → (ℕ → UInt8) → Except BinaryError (ℕ → UInt8)
  | 0, _, linkData => .ok linkData
  | numMutableGlobals + 1, mutableGlobalCursor, linkData =>
      pSubI mutableGlobalCursor 3 >>= fun (_, cursor) =>
      pSubI cursor 1 >>= fun (code, cursor) =>
      readNextValue32 cursor >>= fun (offset, cursor) =>
      let type := machineTypeOfCode (UInt8.ofNat (ofBytesLE code))
      let linkDataOffset := offset.toUInt16
      pSubI cursor type.getSize >>= fun (value, cursor) =>
      initializeGlobals numMutableGlobals cursor
        (RangeWrite.overwrite linkData ⟨linkDataOffset.toNat, value⟩)

/-- The link data after the initialisation with the globals of a binary. -/
def initializeMutableGlobals (binary : List UInt8) (linkData : ℕ → UInt8) :
    Except BinaryError (ℕ → UInt8) :=
  readNextValue32 binary >>= fun (numMutableGlobals, cursor) =>
  initializeGlobals numMutableGlobals.toNat cursor linkData

/-! ### The cells of the globals -/

/-- The cells of a size are between two offsets, aligned to the size, and in module order. -/
structure PlacedCells (size low high : ℕ) (globalDefs : List GlobalDef) : Prop where
  within : ∀ g ∈ globalDefs, g.hasCell size = true →
    low ≤ g.linkDataOffset.toNat ∧ g.linkDataOffset.toNat + size ≤ high ∧
      size ∣ g.linkDataOffset.toNat
  ordered : globalDefs.Pairwise fun a b => a.hasCell size = true → b.hasCell size = true →
    a.linkDataOffset.toNat + size ≤ b.linkDataOffset.toNat

namespace PlacedCells

variable {size low high : ℕ} {globalDefs : List GlobalDef} {g : GlobalDef}

/-- A global without a cell of the size changes nothing. -/
theorem cons_of_not (h : PlacedCells size low high globalDefs) (hg : g.hasCell size = false) :
    PlacedCells size low high (g :: globalDefs) where
  within g' hg' hcell := by
    rcases List.mem_cons.mp hg' with rfl | hmem
    · simp [hg] at hcell
    · exact h.within g' hmem hcell
  ordered := List.pairwise_cons.mpr ⟨fun b _ ha => by simp [hg] at ha, h.ordered⟩

/-- A cell in front of the others. -/
theorem cons (h : PlacedCells size (low + size) high globalDefs)
    (hoffset : g.linkDataOffset.toNat = low) (hdvd : size ∣ low) (hhigh : low + size ≤ high) :
    PlacedCells size low high (g :: globalDefs) where
  within g' hg' hcell := by
    rcases List.mem_cons.mp hg' with rfl | hmem
    · exact ⟨by omega, by omega, hoffset ▸ hdvd⟩
    · obtain ⟨hl, hh, hd⟩ := h.within g' hmem hcell
      exact ⟨by omega, hh, hd⟩
  ordered := List.pairwise_cons.mpr ⟨fun b hb _ hcell => by
    have := (h.within b hb hcell).1
    omega, h.ordered⟩

/-- The bounds may be wider. -/
theorem mono {low' high' : ℕ} (h : PlacedCells size low high globalDefs) (hlow : low' ≤ low)
    (hhigh : high ≤ high') : PlacedCells size low' high' globalDefs where
  within g hg hcell := by
    obtain ⟨hl, hh, hd⟩ := h.within g hg hcell
    exact ⟨by omega, by omega, hd⟩
  ordered := h.ordered

/-- The cells behind the first one start where it ends. -/
theorem tail (h : PlacedCells size low high (g :: globalDefs)) :
    PlacedCells size low high globalDefs ∧
      (g.hasCell size = true →
        PlacedCells size (g.linkDataOffset.toNat + size) high globalDefs) := by
  have hpair := List.pairwise_cons.mp h.ordered
  refine ⟨⟨fun g' hg' => h.within g' (List.mem_cons_of_mem _ hg'), hpair.2⟩, fun hcell =>
    ⟨fun g' hg' hcell' => ?_, hpair.2⟩⟩
  obtain ⟨-, hh, hd⟩ := h.within g' (List.mem_cons_of_mem _ hg') hcell'
  exact ⟨hpair.1 g' hg' hcell hcell', hh, hd⟩

end PlacedCells

/-- The first loop keeps the globals. -/
theorem assignSmallGlobals_length : ∀ (decls : List GlobalDecl) (linkDataLength : UInt32),
    (assignSmallGlobals linkDataLength decls).1.length = decls.length
  | [], _ => rfl
  | _ :: decls, _ => by
      simp only [assignSmallGlobals, List.length_cons, assignSmallGlobals_length decls]

/-- The second loop keeps the globals. -/
theorem assignLargeGlobals_length : ∀ (globalDefs : List GlobalDef) (linkDataLength : UInt32),
    (assignLargeGlobals linkDataLength globalDefs).1.length = globalDefs.length
  | [], _ => rfl
  | _ :: globalDefs, _ => by
      simp only [assignLargeGlobals]
      split <;> simp only [List.length_cons, assignLargeGlobals_length globalDefs]

/-- The first loop places the cells of four bytes. -/
theorem assignSmallGlobals_spec : ∀ (decls : List GlobalDecl) (linkDataLength : UInt32),
    linkDataLength.toNat + 4 * decls.length < 2 ^ 32 → 4 ∣ linkDataLength.toNat →
    PlacedCells 4 linkDataLength.toNat (assignSmallGlobals linkDataLength decls).2.toNat
        (assignSmallGlobals linkDataLength decls).1 ∧
      linkDataLength.toNat ≤ (assignSmallGlobals linkDataLength decls).2.toNat ∧
      (assignSmallGlobals linkDataLength decls).2.toNat ≤
        linkDataLength.toNat + 4 * decls.length
  | [], linkDataLength, _, _ => by
      simp only [assignSmallGlobals]
      exact ⟨⟨by simp, List.Pairwise.nil⟩, Nat.le_refl _, by simp⟩
  | decl :: decls, linkDataLength, hbound, hdvd => by
      simp only [List.length_cons] at hbound
      simp only [assignSmallGlobals, List.length_cons]
      split
      · case _ hsmall =>
          have hnext : (linkDataLength + 4).toNat = linkDataLength.toNat + 4 := by
            rw [UInt32.toNat_add]
            simp only [UInt32.reduceToNat]
            omega
          obtain ⟨hplaced, hle, hhigh⟩ :=
            assignSmallGlobals_spec decls (linkDataLength + 4) (by omega) (by omega)
          rw [hnext] at hplaced hle hhigh
          exact ⟨hplaced.cons rfl hdvd hle, by omega, by omega⟩
      · case _ hnot =>
          obtain ⟨hplaced, hle, hhigh⟩ :=
            assignSmallGlobals_spec decls linkDataLength (by omega) hdvd
          refine ⟨hplaced.cons_of_not ?_, hle, by omega⟩
          simp only [GlobalDef.hasCell]
          grind

/-- The second loop places the cells of eight bytes behind the others. -/
theorem assignLargeGlobals_spec : ∀ (globalDefs : List GlobalDef) (linkDataLength : UInt32),
    linkDataLength.toNat + 8 * globalDefs.length < 2 ^ 32 → 8 ∣ linkDataLength.toNat →
    PlacedCells 8 linkDataLength.toNat (assignLargeGlobals linkDataLength globalDefs).2.toNat
        (assignLargeGlobals linkDataLength globalDefs).1 ∧
      linkDataLength.toNat ≤ (assignLargeGlobals linkDataLength globalDefs).2.toNat ∧
      ∀ low high, PlacedCells 4 low high globalDefs →
        PlacedCells 4 low high (assignLargeGlobals linkDataLength globalDefs).1
  | [], linkDataLength, _, _ => by
      simp only [assignLargeGlobals]
      exact ⟨⟨by simp, List.Pairwise.nil⟩, Nat.le_refl _, fun _ _ h => h⟩
  | globalDef :: globalDefs, linkDataLength, hbound, hdvd => by
      simp only [List.length_cons] at hbound
      simp only [assignLargeGlobals]
      split
      · case _ hlarge =>
          have hnext : (linkDataLength + 8).toNat = linkDataLength.toNat + 8 := by
            rw [UInt32.toNat_add]
            simp only [UInt32.reduceToNat]
            omega
          obtain ⟨hplaced, hle, hsmall⟩ :=
            assignLargeGlobals_spec globalDefs (linkDataLength + 8) (by omega) (by omega)
          rw [hnext] at hplaced hle
          refine ⟨hplaced.cons rfl hdvd hle, by simp only; omega, fun low high h => ?_⟩
          refine (hsmall low high h.tail.1).cons_of_not ?_
          simp [GlobalDef.hasCell, hlarge.2]
      · case _ hnot =>
          obtain ⟨hplaced, hle, hsmall⟩ :=
            assignLargeGlobals_spec globalDefs linkDataLength (by omega) hdvd
          refine ⟨hplaced.cons_of_not ?_, hle, fun low high h => ?_⟩
          · simp only [GlobalDef.hasCell]
            grind
          · cases hcell : globalDef.hasCell 4 with
            | true =>
                obtain ⟨hl, hh, hd⟩ := h.within globalDef (by simp) hcell
                have hrest := hsmall _ high (h.tail.2 hcell)
                exact (hrest.cons rfl hd hh).mono hl (Nat.le_refl _)
            | false => exact (hsmall low high h.tail.1).cons_of_not hcell

/-- The length of the link data in front of the globals: a pointer for each dynamically
linked import. -/
def linkDataLengthOfImports (pointerSize numDynamicImports : ℕ) : UInt32 :=
  UInt32.ofNat (pointerSize * numDynamicImports)

/-- Rounding up to a multiple of eight gives a multiple of eight that is not smaller. -/
theorem roundUpToPow2_eight {value : UInt32} (h : value.toNat + 8 < 2 ^ 32) :
    value.toNat ≤ (roundUpToPow2 value 3).toNat ∧
      (roundUpToPow2 value 3).toNat ≤ value.toNat + 8 ∧ 8 ∣ (roundUpToPow2 value 3).toNat := by
  have hmask : ((1 : UInt32) <<< 3) - 1 = 7 := by decide
  have hlow : ∀ x : UInt32, (x &&& 7).toNat = x.toNat % 8 := by
    intro x
    rw [UInt32.toNat_and]
    exact Nat.and_two_pow_sub_one_eq_mod x.toNat 3
  have hhigh : ∀ x : UInt32, (x &&& ~~~7).toNat = x.toNat - x.toNat % 8 := by
    intro x
    have hsplit := and_not_add_and x 7
    have hpart : (x &&& ~~~7) = x - (x &&& 7) := by grind
    rw [hpart, UInt32.toNat_sub_of_le _ _ (UInt32.le_iff_toNat_le.mpr (by rw [hlow]; omega)),
      hlow]
  have hnext : (value + 8).toNat = value.toNat + 8 := by
    rw [UInt32.toNat_add]
    simp only [UInt32.reduceToNat]
    omega
  simp only [roundUpToPow2, hmask]
  split
  · rw [show (7 : UInt32) + 1 = 8 by decide, hhigh, hnext]
    omega
  · case _ hzero =>
      have hmod : value.toNat % 8 = 0 := by
        rw [← hlow, not_not.mp hzero]
        rfl
      omega

/-- The cells of the mutable globals are aligned, and no two of them overlap. -/
structure DisjointCells (globalDefs : List GlobalDef) : Prop where
  aligned : ∀ g ∈ globalDefs, g.isMutable = true → g.type.getSize ∣ g.linkDataOffset.toNat
  disjoint : globalDefs.Pairwise fun a b => a.isMutable = true → b.isMutable = true →
    a.linkDataOffset.toNat + a.type.getSize ≤ b.linkDataOffset.toNat ∨
      b.linkDataOffset.toNat + b.type.getSize ≤ a.linkDataOffset.toNat

/-- There are not more globals than the limit. -/
theorem parseGlobalSection_length {linkDataLength linkDataLength' : UInt32}
    {decls : List GlobalDecl} {globalDefs : List GlobalDef}
    (h : parseGlobalSection linkDataLength decls = .ok (globalDefs, linkDataLength')) :
    globalDefs.length < 2 ^ 32 := by
  simp only [parseGlobalSection] at h
  split at h
  · simp at h
  · case _ hcount =>
      obtain ⟨rfl, -⟩ := Prod.mk.inj (Except.ok.inj h)
      simp only [numNonImportedGlobals] at hcount
      rw [assignLargeGlobals_length, assignSmallGlobals_length]
      omega

/-- The cells of the mutable globals are aligned, disjoint, and between the start and the end
of what the section takes. -/
theorem parseGlobalSection_cells {start linkDataLength : UInt32} {decls : List GlobalDecl}
    {globalDefs : List GlobalDef} (hstart : start.toNat ≤ 8 * numImportedFunctions)
    (hdvd : 4 ∣ start.toNat)
    (h : parseGlobalSection start decls = .ok (globalDefs, linkDataLength)) :
    DisjointCells globalDefs ∧ start.toNat ≤ linkDataLength.toNat ∧
      ∀ g ∈ globalDefs, g.isMutable = true → start.toNat ≤ g.linkDataOffset.toNat ∧
        g.linkDataOffset.toNat + g.type.getSize ≤ linkDataLength.toNat := by
  simp only [parseGlobalSection] at h
  split at h
  · simp at h
  · case _ hcount =>
      obtain ⟨rfl, rfl⟩ := Prod.mk.inj (Except.ok.inj h)
      simp only [numNonImportedGlobals, numImportedFunctions] at hcount hstart
      have hlength := assignSmallGlobals_length decls start
      obtain ⟨hsmall, hle, hhigh⟩ := assignSmallGlobals_spec decls start (by omega) hdvd
      obtain ⟨hround, hround', height⟩ :=
        @roundUpToPow2_eight (assignSmallGlobals start decls).2 (by omega)
      obtain ⟨hlarge, hend, hkept⟩ := assignLargeGlobals_spec (assignSmallGlobals start decls).1
        (roundUpToPow2 (assignSmallGlobals start decls).2 3) (by omega) height
      have hsmall' := hkept _ _ hsmall
      have hcell : ∀ g : GlobalDef, g.isMutable = true →
          g.hasCell 4 = true ∧ g.type.getSize = 4 ∨ g.hasCell 8 = true ∧ g.type.getSize = 8 := by
        intro g hg
        rcases g.size_eq with heq | heq
        · exact Or.inl ⟨by simp [GlobalDef.hasCell, hg, heq], heq⟩
        · exact Or.inr ⟨by simp [GlobalDef.hasCell, hg, heq], heq⟩
      refine ⟨⟨fun g hg hmutable => ?_, ?_⟩, by omega, fun g hg hmutable => ?_⟩
      · rcases hcell g hmutable with ⟨h4, heq⟩ | ⟨h8, heq⟩
        · exact heq ▸ (hsmall'.within g hg h4).2.2
        · exact heq ▸ (hlarge.within g hg h8).2.2
      · refine (hsmall'.ordered.and hlarge.ordered).imp_of_mem ?_
        rintro a b ha hb ⟨h44, h88⟩ hma hmb
        rcases hcell a hma with ⟨ha4, hea⟩ | ⟨ha8, hea⟩ <;>
          rcases hcell b hmb with ⟨hb4, heb⟩ | ⟨hb8, heb⟩
        · exact Or.inl (hea ▸ h44 ha4 hb4)
        · have h1 := (hsmall'.within a ha ha4).2.1
          have h2 := (hlarge.within b hb hb8).1
          exact Or.inl (by omega)
        · have h1 := (hlarge.within a ha ha8).1
          have h2 := (hsmall'.within b hb hb4).2.1
          exact Or.inr (by omega)
        · exact Or.inl (hea ▸ h88 ha8 hb8)
      · rcases hcell g hmutable with ⟨h4, heq⟩ | ⟨h8, heq⟩
        · obtain ⟨hlow, hin, -⟩ := hsmall'.within g hg h4
          exact ⟨hlow, by omega⟩
        · obtain ⟨hlow, hin, -⟩ := hlarge.within g hg h8
          exact ⟨by omega, by omega⟩

/-- **The cells of the mutable globals** are aligned and disjoint. -/
theorem parseGlobalSection_spec {pointerSize numDynamicImports : ℕ} {decls : List GlobalDecl}
    {globalDefs : List GlobalDef} {linkDataLength : UInt32}
    (hpointer : pointerSize = 4 ∨ pointerSize = 8)
    (himports : numDynamicImports ≤ numImportedFunctions)
    (h : parseGlobalSection (linkDataLengthOfImports pointerSize numDynamicImports) decls =
      .ok (globalDefs, linkDataLength)) :
    DisjointCells globalDefs := by
  have himports' := himports
  simp only [numImportedFunctions] at himports'
  have hstart : (linkDataLengthOfImports pointerSize numDynamicImports).toNat =
      pointerSize * numDynamicImports := by
    rw [linkDataLengthOfImports, UInt32.toNat_ofNat']
    rcases hpointer with rfl | rfl <;> omega
  refine (parseGlobalSection_cells ?_ ?_ h).1
  · rw [hstart]
    rcases hpointer with rfl | rfl <;> omega
  · rw [hstart]
    rcases hpointer with rfl | rfl <;> omega

/-! ### What is written is read back -/

/-- What the runtime writes for a global. -/
def GlobalDef.initialWrite (globalDef : GlobalDef) : RangeWrite UInt8 :=
  ⟨globalDef.linkDataOffset.toUInt16.toNat, globalDef.initialBytes⟩

/-- The runtime reads first the global that was written last. -/
theorem initializeGlobals_write {output output' : List UInt8} {globalDef : GlobalDef}
    (h : writeGlobal output globalDef = .ok output') (numMutableGlobals : ℕ)
    (linkData : ℕ → UInt8) :
    initializeGlobals (numMutableGlobals + 1) output' linkData =
      initializeGlobals numMutableGlobals output
        (RangeWrite.overwrite linkData globalDef.initialWrite) := by
  obtain ⟨output1, hvalue, h⟩ := exists_of_bind_ok h
  obtain ⟨output2, hoffset, h⟩ := exists_of_bind_ok h
  obtain ⟨output3, htype, hpadding⟩ := exists_of_bind_ok h
  obtain rfl := memWriterAppend_ok hvalue
  obtain rfl := memWriterWrite32_ok hoffset
  obtain rfl := memWriterAppend_ok htype
  obtain rfl := memWriterAppend_ok hpadding
  have hcode : machineTypeOfCode (UInt8.ofNat (ofBytesLE [machineTypeCode globalDef.type])) =
      globalDef.type := by
    have hbyte : ofBytesLE [machineTypeCode globalDef.type] =
        (machineTypeCode globalDef.type).toNat := by simp [ofBytesLE]
    rw [hbyte, UInt8.ofNat_toNat, machineTypeOfCode_code]
  have hlength : globalDef.initialBytes.length = globalDef.type.getSize := length_bytesLE _ _
  have hthree : ([0, 0, 0] : List UInt8).length = 3 := rfl
  have hone : [machineTypeCode globalDef.type].length = 1 := rfl
  simp only [initializeGlobals, pSubI_append hthree, pSubI_append hone,
    readNextValue32_append, hcode, pSubI_append hlength, bind, Except.bind]
  rfl

/-- Appending a global at the end of the list. -/
theorem writeGlobals_append (globalDefs rest : List GlobalDef) (output : List UInt8) :
    writeGlobals output (globalDefs ++ rest) =
      writeGlobals output globalDefs >>= fun output => writeGlobals output rest := by
  induction globalDefs generalizing output with
  | nil => rfl
  | cons globalDef globalDefs ih =>
      simp only [List.cons_append, writeGlobals]
      cases (if globalDef.isMutable then writeGlobal output globalDef else .ok output) with
      | error e => rfl
      | ok output1 => exact ih output1

/-- **The runtime copies the values from the last global to the first.** -/
theorem initializeGlobals_writeGlobals {globalDefs : List GlobalDef}
    {output output' : List UInt8} (h : writeGlobals output globalDefs = .ok output')
    (linkData : ℕ → UInt8) :
    initializeGlobals (globalDefs.filter (·.isMutable)).length output' linkData =
      .ok (RangeWrite.overwriteAll linkData
        ((globalDefs.filter (·.isMutable)).map GlobalDef.initialWrite).reverse) := by
  -- the last global of the module is the first one the runtime reads
  induction globalDefs using List.reverseRecOn generalizing output' linkData with
  | nil => rfl
  | append_singleton globalDefs globalDef ih =>
      rw [writeGlobals_append] at h
      obtain ⟨output1, hfirst, hlast⟩ := exists_of_bind_ok h
      obtain ⟨output2, hglobal, hnil⟩ := exists_of_bind_ok hlast
      obtain rfl : output2 = output' := Except.ok.inj hnil
      rw [List.filter_append]
      split at hglobal
      · case _ hmutable =>
          have hlast : [globalDef].filter (·.isMutable) = [globalDef] := by simp [hmutable]
          rw [hlast, List.length_append, List.length_singleton, initializeGlobals_write hglobal,
            ih hfirst]
          simp [RangeWrite.overwriteAll]
      · case _ himmutable =>
          obtain rfl := Except.ok.inj hglobal
          have hlast : [globalDef].filter (·.isMutable) = [] := by simp [himmutable]
          rw [hlast, List.append_nil]
          exact ih hfirst linkData

/-- The initialisation copies the values of all mutable globals, from the last to the
first. -/
theorem initializeMutableGlobals_eq {globalDefs : List GlobalDef} {output binary : List UInt8}
    (h : serializeWasmGlobalsBinarySection output globalDefs = .ok binary)
    (hlength : globalDefs.length < 2 ^ 32) (linkData : ℕ → UInt8) :
    initializeMutableGlobals binary linkData =
      .ok (RangeWrite.overwriteAll linkData
        ((globalDefs.filter (·.isMutable)).map GlobalDef.initialWrite).reverse) := by
  obtain ⟨output1, hglobals, hcount⟩ := exists_of_bind_ok h
  obtain rfl := memWriterWrite32_ok hcount
  have hnum : (UInt32.ofNat (globalDefs.filter (·.isMutable)).length).toNat =
      (globalDefs.filter (·.isMutable)).length := by
    have hle := List.length_filter_le (·.isMutable) globalDefs
    rw [UInt32.toNat_ofNat']
    omega
  rw [initializeMutableGlobals, readNextValue32_append]
  simp only [bind, Except.bind, hnum]
  exact initializeGlobals_writeGlobals hglobals linkData

/-! ### The link data after the initialisation -/

/-- Every mutable global's cell gets the initial value, and no other byte of the link data is
written. -/
def InitialisesCells (globalDefs : List GlobalDef) (linkData linkData' : ℕ → UInt8) : Prop :=
  (∀ g ∈ globalDefs, g.isMutable = true → ∀ a b, g.cell.byteAt a = some b → linkData' a = b) ∧
    ∀ a, (∀ g ∈ globalDefs, g.isMutable = true → g.cell.byteAt a = none) →
      linkData' a = linkData a

/-- The initialisation does what it is for: for whatever is in the binary in front of the
section, and in the link data before, every mutable global's cell gets the initial value and
no other byte of the link data is written. -/
def InitialisesMutableGlobals (globalDefs : List GlobalDef) : Prop :=
  ∀ (before binary : List UInt8) (linkData : ℕ → UInt8),
    serializeWasmGlobalsBinarySection before globalDefs = .ok binary →
    ∃ linkData', initializeMutableGlobals binary linkData = .ok linkData' ∧
      InitialisesCells globalDefs linkData linkData'

/-- Every mutable global has an offset that fits in 16 bits. -/
def OffsetsFit (globalDefs : List GlobalDef) : Prop :=
  ∀ g ∈ globalDefs, g.isMutable = true → g.linkDataOffset < 65536

instance (globalDefs : List GlobalDef) : Decidable (OffsetsFit globalDefs) :=
  inferInstanceAs (Decidable (∀ g ∈ globalDefs, g.isMutable = true → g.linkDataOffset < 65536))

/-- Cells that overlap are the cell of one global. -/
theorem DisjointCells.cell_eq {globalDefs : List GlobalDef} (h : DisjointCells globalDefs)
    {g g' : GlobalDef} (hg : g ∈ globalDefs) (hg' : g' ∈ globalDefs)
    (hmutable : g.isMutable = true) (hmutable' : g'.isMutable = true) {a : ℕ}
    (hcovers : (g.cell.byteAt a).isSome) (hcovers' : (g'.cell.byteAt a).isSome) :
    g.cell.byteAt a = g'.cell.byteAt a := by
  have hlength : ∀ g : GlobalDef, g.cell.bytes.length = g.type.getSize :=
    fun g => length_bytesLE _ _
  rw [RangeWrite.byteAt_isSome_iff, hlength] at hcovers hcovers'
  simp only [GlobalDef.cell] at hcovers hcovers'
  have hsymm : Std.Symm fun a b : GlobalDef => a.isMutable = true → b.isMutable = true →
      a.linkDataOffset.toNat + a.type.getSize ≤ b.linkDataOffset.toNat ∨
        b.linkDataOffset.toNat + b.type.getSize ≤ a.linkDataOffset.toNat :=
    ⟨fun a b hab hb ha => (hab ha hb).symm⟩
  by_contra hne
  have hdiff : g ≠ g' := fun heq => hne (by rw [heq])
  have := h.disjoint.forall hg hg' hdiff hmutable hmutable'
  omega

/-- **Initialisation of the mutable globals**: for every module within the limits, every
mutable global's cell gets its initial value and nothing else is written if and only if all
offsets fit in 16 bits. -/
theorem initialisesMutableGlobals_iff {pointerSize numDynamicImports : ℕ}
    {decls : List GlobalDecl} {globalDefs : List GlobalDef} {linkDataLength : UInt32}
    (hpointer : pointerSize = 4 ∨ pointerSize = 8)
    (himports : numDynamicImports ≤ numImportedFunctions)
    (hparse : parseGlobalSection (linkDataLengthOfImports pointerSize numDynamicImports) decls =
      .ok (globalDefs, linkDataLength))
    (haccepted : ∃ before binary,
      serializeWasmGlobalsBinarySection before globalDefs = .ok binary) :
    InitialisesMutableGlobals globalDefs ↔ OffsetsFit globalDefs := by
  have hcells := parseGlobalSection_spec hpointer himports hparse
  have hcount := parseGlobalSection_length hparse
  have hlength : ∀ g : GlobalDef, g.initialBytes.length = g.type.getSize :=
    fun g => length_bytesLE _ _
  have hoffset : ∀ g : GlobalDef, g.linkDataOffset.toUInt16.toNat =
      g.linkDataOffset.toNat % 65536 := fun g => UInt32.toNat_toUInt16 _
  constructor
  · intro h g hg hmutable
    by_contra hlarge
    have hge := UInt32.le_iff_toNat_le.mp (UInt32.not_lt.mp hlarge)
    simp only [UInt32.reduceToNat] at hge
    have hsize := g.size_eq
    obtain ⟨before, binary, hbinary⟩ := haccepted
    obtain ⟨b, hb⟩ : ∃ b, g.cell.byteAt g.linkDataOffset.toNat = some b := by
      rw [← Option.isSome_iff_exists, RangeWrite.byteAt_isSome_iff]
      simp only [GlobalDef.cell, hlength]
      omega
    -- a content of the link data that differs from the initial value
    obtain ⟨linkData', hresult, hholds, -⟩ := h before binary (fun _ => b + 1) hbinary
    rw [initializeMutableGlobals_eq hbinary hcount] at hresult
    obtain rfl := Except.ok.inj hresult
    have hbyte := hholds g hg hmutable _ b hb
    rw [RangeWrite.overwriteAll_of_none] at hbyte
    · simp at hbyte
    · intro w hw
      rw [List.mem_reverse, List.mem_map] at hw
      obtain ⟨g', hg', rfl⟩ := hw
      obtain ⟨hmem', hmutable'⟩ := List.mem_filter.mp hg'
      have haligned := hcells.aligned g' hmem' hmutable'
      refine RangeWrite.byteAt_of_le ?_
      simp only [GlobalDef.initialWrite, hlength, hoffset]
      rcases g'.size_eq with heq | heq <;> rw [heq] at haligned ⊢ <;> omega
  · intro hfits before binary linkData hbinary
    have hwrite : ∀ g ∈ globalDefs, g.isMutable = true → g.initialWrite = g.cell := by
      intro g hg hmutable
      have hlt := UInt32.lt_iff_toNat_lt.mp (hfits g hg hmutable)
      simp only [UInt32.reduceToNat] at hlt
      simp only [GlobalDef.initialWrite, GlobalDef.cell, hoffset, Nat.mod_eq_of_lt hlt]
    have hmem : ∀ w, w ∈ ((globalDefs.filter (·.isMutable)).map GlobalDef.initialWrite).reverse ↔
        ∃ g ∈ globalDefs, g.isMutable = true ∧ g.cell = w := by
      intro w
      rw [List.mem_reverse, List.mem_map]
      constructor
      · rintro ⟨g, hg, rfl⟩
        obtain ⟨hin, hmutable⟩ := List.mem_filter.mp hg
        exact ⟨g, hin, hmutable, (hwrite g hin hmutable).symm⟩
      · rintro ⟨g, hin, hmutable, rfl⟩
        exact ⟨g, List.mem_filter.mpr ⟨hin, hmutable⟩, hwrite g hin hmutable⟩
    refine ⟨_, initializeMutableGlobals_eq hbinary hcount linkData, ?_, ?_⟩
    · intro g hg hmutable a b hb
      refine RangeWrite.overwriteAll_of_agree ⟨g.cell, (hmem _).mpr ⟨g, hg, hmutable, rfl⟩, hb⟩ ?_
      intro w hw b' hb'
      obtain ⟨g', hg', hmutable', rfl⟩ := (hmem w).mp hw
      have hsame := hcells.cell_eq hg hg' hmutable hmutable' (by rw [hb]; rfl) (by rw [hb']; rfl)
      rw [hb, hb'] at hsame
      exact (Option.some.inj hsame).symm
    · intro a hnone
      refine RangeWrite.overwriteAll_of_none fun w hw => ?_
      obtain ⟨g, hg, hmutable, rfl⟩ := (hmem w).mp hw
      exact hnone g hg hmutable

/-- A mutable global of four bytes with the given value. -/
def mutableI32 (initialValue : Word) : GlobalDecl := ⟨.i32, true, initialValue, by decide⟩

/-- A mutable global of eight bytes with the given value. -/
def mutableI64 (initialValue : Word) : GlobalDecl := ⟨.i64, true, initialValue, by decide⟩

/-- Two globals behind two pointers. -/
theorem initialisesMutableGlobals_iff_twoGlobals :
    InitialisesMutableGlobals
      [⟨mutableI64 7, 24⟩, ⟨mutableI32 5, 16⟩] :=
  (@initialisesMutableGlobals_iff 8 2 [mutableI64 7, mutableI32 5] _ 32 (Or.inr rfl)
    (by decide) rfl ⟨[], _, rfl⟩).mpr (by decide)

/-- With 8192 pointers in front of it, the cell of a global is behind the reach of a 16-bit
offset: the runtime overwrites the first pointer instead. -/
theorem initialisesMutableGlobals_not_behindPointers :
    (∃ linkDataLength, parseGlobalSection (linkDataLengthOfImports 8 8192) [mutableI32 5] =
        .ok ([⟨mutableI32 5, 65536⟩], linkDataLength)) ∧
      ¬ InitialisesMutableGlobals [⟨mutableI32 5, 65536⟩] := by
  refine ⟨⟨_, rfl⟩, fun h => ?_⟩
  obtain ⟨linkData', hresult, hholds, -⟩ := h [] _ (fun _ => 0) rfl
  obtain rfl := Except.ok.inj hresult
  have hbyte := hholds ⟨mutableI32 5, 65536⟩ (by simp) rfl 65536 5 rfl
  revert hbyte
  decide

end WasmCompiler
