import WasmCompiler.BinaryModule
import WasmCompiler.BytecodeReader

/-!
# The Export Section

`Frontend::parseExportSection` keeps the exports in the internal memory, one behind the other, and
compares the name of each one with those in front of it. Names are compared by their lengths and
with `strncmp`, here and in the search of the runtime. A name may have zeros, and `strncmp` stops
at the first one.

## Main results

* `nameMatches_iff_eq_or_confused`: which names are the same for the comparison.
* `isDuplicateExport_iff`: what the duplicate check finds.
* `acceptedExports_of_parseExportSection`: no two exports of a section that is accepted are the
  same for it.
-/

namespace WasmCompiler

/-! ### Names -/

/-- Two different names of one length that are the same up to the first zero. -/
def Confused (name name' : List UInt8) : Prop :=
  name ≠ name' ∧ name.length = name'.length ∧
    name.takeWhile (· ≠ 0) = name'.takeWhile (· ≠ 0)

instance (name name' : List UInt8) : Decidable (Confused name name') :=
  inferInstanceAs (Decidable (_ ∧ _))

/-- What `strncmp` compares. -/
theorem strncmpEqual_iff {name name' : List UInt8} (hlength : name.length = name'.length) :
    strncmpEqual name.length name name' = true ↔
      name.takeWhile (· ≠ 0) = name'.takeWhile (· ≠ 0) := by
  induction name generalizing name' with
  | nil =>
      obtain rfl := List.length_eq_zero_iff.mp hlength.symm
      exact iff_of_true rfl rfl
  | cons byte name ih =>
      cases name' with
      | nil => cases hlength
      | cons byte' name' =>
          simp only [strncmpEqual, List.length_cons, Bool.and_eq_true, Bool.or_eq_true,
            beq_iff_eq, ih (Nat.succ.inj hlength), List.takeWhile_cons]
          by_cases hzero : byte = 0 <;> by_cases hzero' : byte' = 0
          · simp [hzero, hzero']
          · simp [hzero, hzero', Ne.symm hzero']
          · simp [hzero, hzero']
          · simp [hzero, hzero']

/-- The comparison of names. -/
theorem nameMatches_iff (name exportName : List UInt8) :
    nameMatches name exportName = true ↔ exportName.length = name.length ∧
      exportName.takeWhile (· ≠ 0) = name.takeWhile (· ≠ 0) := by
  rw [nameMatches, Bool.and_eq_true, beq_iff_eq]
  refine and_congr_right fun hlength => ?_
  rw [strncmpEqual_iff hlength.symm]
  exact eq_comm

/-- **The comparison of names**: they are the same, or confused. -/
theorem nameMatches_iff_eq_or_confused (name exportName : List UInt8) :
    nameMatches name exportName = true ↔ exportName = name ∨ Confused exportName name := by
  rw [nameMatches_iff]
  constructor
  · intro h
    by_cases heq : exportName = name
    · exact .inl heq
    · exact .inr ⟨heq, h⟩
  · rintro (rfl | ⟨-, h⟩)
    · exact ⟨rfl, rfl⟩
    · exact h

/-! ### Parsing -/

/-- The part of the module info that the exports are checked against. -/
structure ExportContext where
  numTotalFunctions : UInt32
  numGlobals : UInt32
  hasMemory : Bool
  hasTable : Bool
  deriving DecidableEq, Repr

/-- What the export section leaves in the module info. -/
structure ParsedExports where
  exports : List ModuleExport := []
  memoryIsExported : Bool := false
  tableIsExported : Bool := false
  deriving DecidableEq, Repr

/-- The type with a number. -/
def WasmImportExportType.ofByte (exportType : UInt8) : Option WasmImportExportType :=
  if exportType = 0 then some .func
  else if exportType = 1 then some .table
  else if exportType = 2 then some .mem
  else if exportType = 3 then some .global
  else none

/-- Move the end of the internal memory. -/
def stepMemory (size count : ℕ) : Except ParseError ℕ :=
  if uint32Max < size + count then .error (.binary .maximumNumberOfBytesWritten)
  else .ok (size + count)

/-- The check of the index of an export. -/
def checkExportIndex (context : ExportContext) (exportType : WasmImportExportType)
    (index : UInt32) : Except ParseError Unit :=
  match exportType with
  | .func => if context.numTotalFunctions ≤ index then .error .functionOutOfRange else .ok ()
  | .global => if context.numGlobals ≤ index then .error .globalOutOfRange else .ok ()
  | .mem => if !context.hasMemory ∨ index > 0 then .error .memoryOutOfRange else .ok ()
  | .table => if !context.hasTable ∨ index > 0 then .error .tableOutOfRange else .ok ()

/-- The check for duplicate export names: the loop over the exports in front. -/
def isDuplicateExport (exports : List ModuleExport) (exportName : List UInt8) : Bool :=
  exports.any fun iterated => iterated.exportName.length == exportName.length &&
    strncmpEqual exportName.length iterated.exportName exportName

/-- One export; `size` is the size of the internal memory. -/
def parseExport (context : ExportContext) (size : ℕ) (parsed : ParsedExports)
    (reader : BytecodeReader) : Except ParseError (ℕ × ParsedExports × BytecodeReader) :=
  reader.readUInt32 >>= fun (exportNameLength, reader) =>
  if maxStringLength < exportNameLength.toNat then .error .exportNameTooLong
  else
    let exportName := reader.remaining.take exportNameLength.toNat
    reader.step exportNameLength.toNat >>= fun reader =>
    if !validateUTF8 exportName then .error .malformedUTF8Sequence
    else
      stepMemory size 4 >>= fun size =>
      stepMemory size exportNameLength.toNat >>= fun size =>
      reader.readByte >>= fun (exportType, reader) =>
      stepMemory size 1 >>= fun size =>
      match WasmImportExportType.ofByte exportType with
      | none => .error .unknownExportType
      | some exportType =>
          reader.readUInt32 >>= fun (index, reader) =>
          stepMemory size 4 >>= fun size =>
          checkExportIndex context exportType index >>= fun _ =>
          if isDuplicateExport parsed.exports exportName then .error .duplicateExportSymbol
          else
            .ok (size,
              { exports := parsed.exports ++ [⟨exportName, exportType, index⟩]
                memoryIsExported := parsed.memoryIsExported || exportType == .mem
                tableIsExported := parsed.tableIsExported || exportType == .table }, reader)

/-- A number of exports. -/
def parseExports (context : ExportContext) :
    ℕ → ℕ → ParsedExports → BytecodeReader → Except ParseError (ParsedExports × BytecodeReader)
  | 0, _, parsed, reader => .ok (parsed, reader)
  | count + 1, size, parsed, reader =>
      parseExport context size parsed reader >>= fun (size, parsed, reader) =>
      parseExports context count size parsed reader

/-- `Frontend::parseExportSection`. -/
def parseExportSection (context : ExportContext) (size : ℕ) (reader : BytecodeReader) :
    Except ParseError (ParsedExports × BytecodeReader) :=
  reader.readUInt32 >>= fun (numExports, reader) =>
  parseExports context numExports.toNat size {} reader

/-! ### Exports that are accepted -/

/-- **The duplicate check**: it finds the exports whose name matches. -/
theorem isDuplicateExport_iff (exports : List ModuleExport) (exportName : List UInt8) :
    isDuplicateExport exports exportName = true ↔
      ∃ iterated ∈ exports, nameMatches exportName iterated.exportName = true := by
  rw [isDuplicateExport, List.any_eq_true]
  refine exists_congr fun iterated => and_congr_right fun _ => ?_
  rw [nameMatches_iff, Bool.and_eq_true, beq_iff_eq]
  refine and_congr_right fun hlength => ?_
  rw [← hlength, strncmpEqual_iff hlength]

/-- The exports of a section that is accepted: the functions are there, and no two names match. -/
structure AcceptedExports (context : ExportContext) (exports : List ModuleExport) : Prop where
  functions : ∀ moduleExport ∈ exports, moduleExport.exportType = .func →
    moduleExport.index < context.numTotalFunctions
  names : exports.Pairwise fun iterated moduleExport =>
    nameMatches moduleExport.exportName iterated.exportName = false

/-- One export that is accepted. -/
theorem AcceptedExports.parseExport {context : ExportContext} {size size' : ℕ}
    {parsed parsed' : ParsedExports} {reader reader' : BytecodeReader}
    (h : AcceptedExports context parsed.exports)
    (hparse : WasmCompiler.parseExport context size parsed reader = .ok (size', parsed', reader')) :
    AcceptedExports context parsed'.exports := by
  obtain ⟨⟨exportNameLength, reader₁⟩, -, hparse⟩ := exists_of_bind_ok hparse
  obtain ⟨-, hparse⟩ := of_ite_throw_eq_ok hparse
  obtain ⟨reader₂, -, hparse⟩ := exists_of_bind_ok hparse
  obtain ⟨-, hparse⟩ := of_ite_throw_eq_ok hparse
  obtain ⟨size₁, -, hparse⟩ := exists_of_bind_ok hparse
  obtain ⟨size₂, -, hparse⟩ := exists_of_bind_ok hparse
  obtain ⟨⟨exportType, reader₃⟩, -, hparse⟩ := exists_of_bind_ok hparse
  obtain ⟨size₃, -, hparse⟩ := exists_of_bind_ok hparse
  simp only at hparse
  split at hparse
  · cases hparse
  · case _ type htype =>
      obtain ⟨⟨index, reader₄⟩, -, hparse⟩ := exists_of_bind_ok hparse
      obtain ⟨size₄, -, hparse⟩ := exists_of_bind_ok hparse
      obtain ⟨_, hindex, hparse⟩ := exists_of_bind_ok hparse
      obtain ⟨hduplicate, hparse⟩ := of_ite_throw_eq_ok hparse
      cases hparse
      constructor
      · intro moduleExport hmem hfunc
        rcases List.mem_append.mp hmem with hmem | hmem
        · exact h.functions moduleExport hmem hfunc
        · obtain rfl := List.mem_singleton.mp hmem
          obtain rfl : type = .func := hfunc
          obtain ⟨hlt, -⟩ := of_ite_throw_eq_ok hindex
          exact UInt32.not_le.mp hlt
      · rw [List.pairwise_append]
        refine ⟨h.names, List.pairwise_singleton _ _, fun iterated hmem moduleExport hlast => ?_⟩
        obtain rfl := List.mem_singleton.mp hlast
        rw [Bool.eq_false_iff]
        exact fun hmatches => hduplicate ((isDuplicateExport_iff _ _).mpr ⟨iterated, hmem, hmatches⟩)

/-- The exports that are accepted. -/
theorem AcceptedExports.parseExports {context : ExportContext} {count : ℕ} :
    ∀ {size : ℕ} {parsed parsed' : ParsedExports} {reader reader' : BytecodeReader},
      AcceptedExports context parsed.exports →
      WasmCompiler.parseExports context count size parsed reader = .ok (parsed', reader') →
      AcceptedExports context parsed'.exports := by
  induction count with
  | zero =>
      intro size parsed parsed' reader reader' h hparse
      cases hparse
      exact h
  | succ count ih =>
      intro size parsed parsed' reader reader' h hparse
      obtain ⟨⟨size₁, parsed₁, reader₁⟩, hfirst, hrest⟩ := exists_of_bind_ok hparse
      exact ih (h.parseExport hfirst) hrest

/-- **A section that is accepted.** -/
theorem acceptedExports_of_parseExportSection {context : ExportContext} {size : ℕ}
    {parsed : ParsedExports} {reader reader' : BytecodeReader}
    (hparse : parseExportSection context size reader = .ok (parsed, reader')) :
    AcceptedExports context parsed.exports := by
  obtain ⟨⟨numExports, reader₁⟩, -, hexports⟩ := exists_of_bind_ok hparse
  exact AcceptedExports.parseExports ⟨fun _ hmem => absurd hmem List.not_mem_nil, .nil⟩ hexports

end WasmCompiler
