import WasmCompiler.BinaryModule

/-!
# The Records of the Binary are Read Back

Every record of a section is appended to the output, in a way that does not depend on what is
in front of it, and the reader of the runtime gives it back. Two readers do not give back all
they could: the offset of a mutable global is cut to 16 bits.

## Main results

* `readsBack_string`, `readsBack_wrapper`: padded characters and padded code.
* `readsBack_functionName`, `readsBack_dynamicImport`, `readsBack_exportedGlobal`,
  `readsBack_exportedFunction`, `readsBack_mutableGlobal`, `readsBack_dataSegment`: the records.
-/

namespace WasmCompiler

/-! ### Appending -/

/-- What a writer appends does not depend on what is in front of it. -/
def Appends (write : List UInt8 → Except BinaryError (List UInt8)) : Prop :=
  ∀ output output', write output = .ok output' → ∃ bytes, output' = output ++ bytes ∧
    ∀ front, front.length ≤ output.length → write front = .ok (front ++ bytes)

namespace Appends

/-- Bytes are appended. -/
theorem append (bytes : List UInt8) : Appends fun output => memWriterAppend output bytes := by
  intro output output' h
  refine ⟨bytes, memWriterAppend_ok h, fun front hfront => ?_⟩
  simp only [memWriterAppend] at h ⊢
  split at h
  · simp at h
  · rw [if_neg (by omega)]

/-- A number is appended. -/
theorem write32 (source : UInt32) : Appends fun output => memWriterWrite32 output source :=
  append _

/-- One writer after the other. -/
theorem bind {write write' : List UInt8 → Except BinaryError (List UInt8)} (h : Appends write)
    (h' : Appends write') : Appends fun output => write output >>= write' := by
  intro output output' hwrite
  obtain ⟨output1, hfirst, hsecond⟩ := exists_of_bind_ok hwrite
  obtain ⟨bytes, rfl, hfront⟩ := h _ _ hfirst
  obtain ⟨bytes', rfl, hfront'⟩ := h' _ _ hsecond
  refine ⟨bytes ++ bytes', by simp, fun front hle => ?_⟩
  simp only [hfront front hle, Bind.bind, Except.bind]
  rw [hfront' (front ++ bytes) (by simpa using hle), List.append_assoc]

/-- A writer that gives up appends nothing. -/
theorem error (e : BinaryError) : Appends fun _ => .error e := by
  intro output output' h
  simp at h

/-- A writer that does nothing. -/
theorem pure : Appends Except.ok := by
  intro output output' h
  exact ⟨[], by simpa using (Except.ok.inj h).symm, fun front _ => by simp⟩

/-- One of two writers. -/
theorem ite {p : Prop} [Decidable p] {write write' : List UInt8 → Except BinaryError (List UInt8)}
    (h : Appends write) (h' : Appends write') :
    Appends fun output => if p then write output else write' output := by
  split
  · exact h
  · exact h'

/-- Padded data is appended. -/
theorem writePadded (data : List UInt8) : Appends fun output => memWriterWritePadded output data :=
  ite (error _) (append _)

/-- A string is appended. -/
theorem string (string : List UInt8) : Appends fun output => writeString output string :=
  (writePadded string).bind (write32 _)

/-- Records are appended one after the other. -/
theorem foldlM {Rec : Type} {write : List UInt8 → Rec → Except BinaryError (List UInt8)}
    (h : ∀ record, Appends (write · record)) :
    ∀ records : List Rec, Appends fun output => records.foldlM write output
  | [] => pure
  | record :: records => (h record).bind (foldlM h records)

end Appends

/-! ### Padding -/

/-- Rounding up to a multiple of four adds what is missing. -/
theorem roundUpToPow2_two (value : UInt32) :
    (roundUpToPow2 value 2).toNat = (value.toNat + (4 - value.toNat % 4) % 4) % 2 ^ 32 := by
  have hmask : ((1 : UInt32) <<< 2) - 1 = 3 := by decide
  have hlow : ∀ x : UInt32, (x &&& 3).toNat = x.toNat % 4 := by
    intro x
    rw [UInt32.toNat_and]
    exact Nat.and_two_pow_sub_one_eq_mod x.toNat 2
  have hhigh : ∀ x : UInt32, (x &&& ~~~3).toNat = x.toNat - x.toNat % 4 := by
    intro x
    have hsplit := and_not_add_and x 3
    have hpart : (x &&& ~~~3) = x - (x &&& 3) := by grind
    rw [hpart, UInt32.toNat_sub_of_le _ _ (UInt32.le_iff_toNat_le.mpr (by rw [hlow]; omega)),
      hlow]
  have hlt := value.toNat_lt
  simp only [roundUpToPow2, hmask]
  split
  · case _ hne =>
      have hmod : value.toNat % 4 ≠ 0 := by
        rw [← hlow]
        exact fun hzero => hne (UInt32.toNat_inj.mp hzero)
      rw [show (3 : UInt32) + 1 = 4 by decide, hhigh, UInt32.toNat_add]
      simp only [UInt32.reduceToNat]
      omega
  · case _ hzero =>
      have hmod : value.toNat % 4 = 0 := by
        rw [← hlow, not_not.mp hzero]
        rfl
      omega

/-- What is missing to a multiple of four. -/
theorem deltaToNextPow2_two (value : UInt32) :
    (deltaToNextPow2 value 2).toNat = (4 - value.toNat % 4) % 4 := by
  have hlt := value.toNat_lt
  have hround := roundUpToPow2_two value
  rw [deltaToNextPow2, UInt32.toNat_sub, hround]
  omega

/-- There are as many bytes of padding as asked for, if the code ends behind an instruction. -/
theorem length_execPadding {target : JitTarget} {code : List UInt8}
    (hdvd : target.instructionSize ∣ code.length) (hlt : code.length < 2 ^ 32) :
    (execPadding target (deltaToNextPow2 (UInt32.ofNat code.length) 2)).length =
      (4 - code.length % 4) % 4 := by
  have hsize : (UInt32.ofNat code.length).toNat = code.length := by
    rw [UInt32.toNat_ofNat']
    omega
  have hdelta := deltaToNextPow2_two (UInt32.ofNat code.length)
  rw [hsize] at hdelta
  cases target with
  | x86_64 => rw [execPadding, List.length_replicate, hdelta]
  | aarch64 =>
      simp only [JitTarget.instructionSize] at hdvd
      simp only [execPadding, List.length_nil]
      omega
  | tricore =>
      simp only [JitTarget.instructionSize] at hdvd
      simp only [execPadding]
      split
      · case _ htwo =>
          rw [htwo] at hdelta
          simpa using hdelta
      · case _ hother =>
          have hne : (deltaToNextPow2 (UInt32.ofNat code.length) 2).toNat ≠ 2 :=
            fun heq => hother (UInt32.toNat_inj.mp heq)
          simp only [List.length_nil]
          omega

/-! ### Strings and code -/

/-- Padded bytes with their number behind them are read back. -/
theorem readString_append {before data padding : List UInt8}
    (hlt : data.length < 2 ^ 32) (hlength : (data ++ padding).length =
      (roundUpToPow2 (UInt32.ofNat data.length) 2).toNat) :
    readString (before ++ (data ++ padding) ++ bytesLE 4 (UInt32.ofNat data.length).toNat) =
      .ok (data, before) := by
  have hsize : (UInt32.ofNat data.length).toNat = data.length := by
    rw [UInt32.toNat_ofNat']
    omega
  simp only [readString, readNextValue32_append, bind, Except.bind, pSubI_append hlength,
    Except.map]
  rw [hsize, List.take_left]

/-- **A string** is read back. -/
theorem readsBack_string (string : List UInt8) :
    ReadsBack writeString readString id string := by
  intro output output' h
  obtain ⟨output1, hpadded, hsize⟩ := exists_of_bind_ok h
  obtain ⟨padding, rfl, hlength⟩ := memWriterWritePadded_ok hpadded
  obtain rfl := memWriterWrite32_ok hsize
  have hround := (roundUpToPow2 (UInt32.ofNat string.length) 2).toNat_lt
  exact readString_append (by simp at hlength; omega) hlength

/-- **Code** that ends behind an instruction is read back. -/
theorem readString_writePaddedBinaryBlob {target : JitTarget} {output code output' : List UInt8}
    (hdvd : target.instructionSize ∣ code.length)
    (h : writePaddedBinaryBlob target output code = .ok output') :
    readString output' = .ok (code, output) := by
  obtain ⟨output1, hcode, h⟩ := exists_of_bind_ok h
  obtain ⟨output2, hpadding, hsize⟩ := exists_of_bind_ok h
  have hbound : output.length + code.length +
      (execPadding target (deltaToNextPow2 (UInt32.ofNat code.length) 2)).length ≤ uint32Max := by
    obtain rfl := memWriterAppend_ok hcode
    simp only [memWriterAppend, List.length_append] at hpadding
    split at hpadding
    · simp at hpadding
    · omega
  obtain rfl := memWriterAppend_ok hcode
  obtain rfl := memWriterAppend_ok hpadding
  obtain rfl := memWriterWrite32_ok hsize
  simp only [uint32Max] at hbound
  have hlt : code.length < 2 ^ 32 := by omega
  have hpad := length_execPadding hdvd hlt
  rw [List.append_assoc output]
  refine readString_append hlt ?_
  have hcode : (UInt32.ofNat code.length).toNat = code.length := by
    rw [UInt32.toNat_ofNat']
    omega
  rw [roundUpToPow2_two, hcode, List.length_append, hpad]
  omega

/-- Code is appended. -/
theorem Appends.paddedBinaryBlob (target : JitTarget) (code : List UInt8) :
    Appends fun output => writePaddedBinaryBlob target output code :=
  (append code).bind ((append _).bind (write32 _))

/-! ### Records -/

/-- The last number is read first. -/
theorem readNextValue32_write {output output' : List UInt8} {source : UInt32}
    (h : memWriterWrite32 output source = .ok output') :
    readNextValue32 output' = .ok (source, output) := by
  obtain rfl := memWriterWrite32_ok h
  exact readNextValue32_append output source

/-- **A function name** is read back. -/
theorem readsBack_functionName (functionName : FunctionName) :
    ReadsBack writeFunctionName readFunctionName id functionName := by
  intro output output' h
  simp only [writeFunctionName] at h
  split at h
  · simp at h
  · obtain ⟨output1, hname, hindex⟩ := exists_of_bind_ok h
    simp only [readFunctionName, readNextValue32_write hindex, readsBack_string _ _ _ hname, bind,
      Except.bind, Except.map]
    rfl

/-- A function name is appended. -/
theorem appends_functionName (functionName : FunctionName) :
    Appends (writeFunctionName · functionName) :=
  Appends.ite (.error _) ((Appends.string _).bind (.write32 _))

/-- **A dynamically linked import** is read back. -/
theorem readsBack_dynamicImport (dynamicImport : DynamicImport) :
    ReadsBack writeDynamicImport readDynamicImport id dynamicImport := by
  intro output output' h
  obtain ⟨output1, hoffset, h⟩ := exists_of_bind_ok h
  obtain ⟨output2, hsignature, h⟩ := exists_of_bind_ok h
  obtain ⟨output3, hsymbol, hmodule⟩ := exists_of_bind_ok h
  simp only [readDynamicImport, readsBack_string _ _ _ hmodule, readsBack_string _ _ _ hsymbol,
    readsBack_string _ _ _ hsignature, readNextValue32_write hoffset, bind, Except.bind,
    Except.map]
  rfl

/-- A dynamically linked import is appended. -/
theorem appends_dynamicImport (dynamicImport : DynamicImport) :
    Appends (writeDynamicImport · dynamicImport) :=
  (Appends.write32 _).bind ((Appends.string _).bind ((Appends.string _).bind (Appends.string _)))

/-- What a binary says about a mutable global. -/
def GlobalDef.written (globalDef : GlobalDef) : MutableGlobal :=
  ⟨globalDef.type, globalDef.linkDataOffset.toNat, globalDef.initialBytes⟩

/-- What the runtime reads for a mutable global. -/
def GlobalDef.read (globalDef : GlobalDef) : MutableGlobal :=
  ⟨globalDef.type, globalDef.linkDataOffset.toUInt16.toNat, globalDef.initialBytes⟩

/-- **A mutable global** is read back up to the upper half of its offset. -/
theorem readsBack_mutableGlobal (globalDef : GlobalDef) :
    ReadsBack writeGlobal readMutableGlobal GlobalDef.read globalDef := by
  intro output output' h
  obtain ⟨output1, hvalue, h⟩ := exists_of_bind_ok h
  obtain ⟨output2, hoffset, h⟩ := exists_of_bind_ok h
  obtain ⟨output3, htype, hpadding⟩ := exists_of_bind_ok h
  have hread := readNextValue32_write hoffset
  obtain rfl := memWriterAppend_ok hvalue
  obtain rfl := memWriterAppend_ok htype
  obtain rfl := memWriterAppend_ok hpadding
  have hcode : machineTypeOfCode (UInt8.ofNat (ofBytesLE [machineTypeCode globalDef.type])) =
      globalDef.type := by
    have hbyte : ofBytesLE [machineTypeCode globalDef.type] =
        (machineTypeCode globalDef.type).toNat := by simp [ofBytesLE]
    rw [hbyte, UInt8.ofNat_toNat, machineTypeOfCode_code]
  have hlength : globalDef.initialBytes.length = globalDef.type.getSize := length_bytesLE _ _
  have hthree : ([0, 0, 0] : List UInt8).length = 3 := rfl
  have hone : [machineTypeCode globalDef.type].length = 1 := rfl
  simp only [readMutableGlobal, pSubI_append hthree, pSubI_append hone, hread, hcode,
    pSubI_append hlength, bind, Except.bind, Except.map]
  rfl

/-- A mutable global is appended. -/
theorem appends_mutableGlobal (globalDef : GlobalDef) : Appends (writeGlobal · globalDef) :=
  (Appends.append _).bind ((Appends.write32 _).bind ((Appends.append _).bind (Appends.append _)))

/-- What the runtime reads for a data segment. -/
def DataSegment.read (segment : DataSegment) : UInt32 × UInt32 × List UInt8 :=
  (segment.offset, segment.segmentSize, segment.data)

/-- **A data segment** is read back. -/
theorem readsBack_dataSegment (module_ : DataModule) (segment : DataSegment) :
    ReadsBack (parseDataSegment module_) readDataSegment DataSegment.read segment := by
  intro output output' h
  obtain ⟨-, -, hwrite⟩ := parseDataSegment_ok h
  obtain ⟨data, rfl, hlength, htake⟩ := writeDataSegment_ok hwrite
  simp only [readDataSegment, readNextValue32_append, pSubI_append hlength, bind, Except.bind,
    Except.map]
  rw [segment.segmentSize_toNat, htake]
  rfl

/-- A data segment is appended. -/
theorem appends_dataSegment (module_ : DataModule) (segment : DataSegment) :
    Appends (parseDataSegment module_ · segment) := by
  refine Appends.ite (.error _) (Appends.ite (.error _) ?_)
  cases parseOffsetExpression segment.offsetExpression with
  | error e => exact Appends.error e
  | ok offset =>
      refine Appends.ite (.error _) ?_
      exact (Appends.ite (.writePadded _) .pure).bind ((Appends.write32 _).bind (.write32 _))

/-! ### Exports -/

/-- The name of an exported function is read back. -/
theorem readExportName_write {output exportName output' : List UInt8} {fncIndex : UInt32}
    (h : writeExportName output exportName fncIndex = .ok output') :
    readExportName output' = .ok ((fncIndex, exportName), output) := by
  obtain ⟨output1, hname, hindex⟩ := exists_of_bind_ok h
  simp only [readExportName, readNextValue32_write hindex, readsBack_string _ _ _ hname, bind,
    Except.bind, Except.map]
  rfl

/-- The wrapper and the signature of an exported function. -/
def writeFunctionInfo (target : JitTarget) (output : List UInt8)
    (exportedFunction : ExportedFunction) : Except BinaryError (List UInt8) :=
  writePaddedBinaryBlob target output exportedFunction.wrapper >>= fun output =>
  writeString output exportedFunction.signature

/-- An exported function: its wrapper, its signature, its name and its index. -/
def writeExportedFunction (target : JitTarget) (output : List UInt8)
    (exportedFunction : ExportedFunction) : Except BinaryError (List UInt8) :=
  writeFunctionInfo target output exportedFunction >>= fun output =>
  writeExportName output exportedFunction.exportName exportedFunction.fncIndex

/-- The wrapper and the signature of a function are read back. -/
theorem readFunctionInfo_write {target : JitTarget} {output output' : List UInt8}
    {exportedFunction : ExportedFunction}
    (hdvd : target.instructionSize ∣ exportedFunction.wrapper.length)
    (h : writeFunctionInfo target output exportedFunction = .ok output') :
    readFunctionInfo output' =
      .ok ((exportedFunction.signature, exportedFunction.wrapper), output) := by
  obtain ⟨output1, hwrapper, hsignature⟩ := exists_of_bind_ok h
  simp only [readFunctionInfo, readsBack_string _ _ _ hsignature,
    readString_writePaddedBinaryBlob hdvd hwrapper, bind, Except.bind, Except.map]
  rfl

/-- **An exported function** whose wrapper ends behind an instruction is read back. -/
theorem readsBack_exportedFunction {target : JitTarget} {exportedFunction : ExportedFunction}
    (hdvd : target.instructionSize ∣ exportedFunction.wrapper.length) :
    ReadsBack (writeExportedFunction target) readExportedFunction id exportedFunction := by
  intro output output' h
  obtain ⟨output1, hinfo, hname⟩ := exists_of_bind_ok h
  simp only [readExportedFunction, readExportName_write hname,
    readFunctionInfo_write hdvd hinfo, bind, Except.bind, Except.map]
  rfl

/-- An exported function can be searched for by its name. -/
theorem searchable_exportedFunction {target : JitTarget} {exportedFunction : ExportedFunction}
    (hdvd : target.instructionSize ∣ exportedFunction.wrapper.length) :
    Searchable (writeExportedFunction target) readExportName
      (fun cursor => (readFunctionInfo cursor).map (·.2))
      (fun exportedFunction => (exportedFunction.fncIndex, exportedFunction.exportName))
      (writeFunctionInfo target) exportedFunction where
  front output output' h := by
    obtain ⟨output1, hinfo, hname⟩ := exists_of_bind_ok h
    exact ⟨output1, hinfo, readExportName_write hname⟩
  skipped output keyStart h := by
    simp only [readFunctionInfo_write hdvd h, Except.map]

/-- An exported function is appended. -/
theorem appends_exportedFunction (target : JitTarget) (exportedFunction : ExportedFunction) :
    Appends (writeExportedFunction target · exportedFunction) :=
  ((Appends.paddedBinaryBlob target _).bind (.string _)).bind ((Appends.string _).bind
    (.write32 _))

/-- The part of an exported global in front of its name. -/
def writeGlobalInfo (output : List UInt8) (exportedGlobal : ExportedGlobal) :
    Except BinaryError (List UInt8) :=
  memWriterAppend output exportedGlobal.payload >>= fun output =>
  memWriterAppend output [if exportedGlobal.isMutable then 1 else 0] >>= fun output =>
  memWriterAppend output [exportedGlobal.signatureType] >>= fun output =>
  memWriterAppend output [0, 0]

/-- An exported global is what is in front of its name, and its name. -/
theorem writeExportedGlobal_eq (output : List UInt8) (exportedGlobal : ExportedGlobal) :
    writeExportedGlobal output exportedGlobal =
      writeGlobalInfo output exportedGlobal >>= fun output =>
        writeString output exportedGlobal.exportName := by
  simp only [writeExportedGlobal, writeGlobalInfo, bind_assoc]

/-- The payload has as many bytes as the type and the mutability say. -/
def ExportedGlobal.WellFormed (exportedGlobal : ExportedGlobal) : Prop :=
  exportedGlobal.payload.length =
    if exportedGlobal.isMutable then 4
    else if exportedGlobal.signatureType = signatureTypeCode .i32 ∨
      exportedGlobal.signatureType = signatureTypeCode .f32 then 4
    else 8

/-- The character of a type says how many bytes a value takes. -/
theorem getSize_eq_of_signatureTypeCode {type : MachineType} (h : type ≠ .invalid) :
    type.getSize = if signatureTypeCode type = signatureTypeCode .i32 ∨
      signatureTypeCode type = signatureTypeCode .f32 then 4 else 8 := by
  cases type with
  | invalid => exact absurd rfl h
  | _ => decide

/-- The exported globals of a module are well formed. -/
theorem GlobalDef.exported_wellFormed (globalDef : GlobalDef) (exportName : List UInt8) :
    (globalDef.exported exportName).WellFormed := by
  have hsize := getSize_eq_of_signatureTypeCode globalDef.type_valid
  change (if globalDef.isMutable = true then bytesLE 4 globalDef.linkDataOffset.toNat
      else globalDef.initialBytes).length =
    if globalDef.isMutable = true then 4
    else if signatureTypeCode globalDef.type = signatureTypeCode .i32 ∨
      signatureTypeCode globalDef.type = signatureTypeCode .f32 then 4 else 8
  by_cases hmutable : globalDef.isMutable = true
  · rw [if_pos hmutable, if_pos hmutable, length_bytesLE]
  · rw [if_neg hmutable, if_neg hmutable, GlobalDef.initialBytes, length_bytesLE, hsize]

/-- The part of an exported global in front of its name is read back. -/
theorem readGlobalInfo_write {output output' : List UInt8} {exportedGlobal : ExportedGlobal}
    (hwf : exportedGlobal.WellFormed) (h : writeGlobalInfo output exportedGlobal = .ok output') :
    readGlobalInfo output' =
      .ok ((exportedGlobal.signatureType, exportedGlobal.isMutable, exportedGlobal.payload),
        output) := by
  obtain ⟨output1, hpayload, h⟩ := exists_of_bind_ok h
  obtain ⟨output2, hflag, h⟩ := exists_of_bind_ok h
  obtain ⟨output3, htype, hpadding⟩ := exists_of_bind_ok h
  obtain rfl := memWriterAppend_ok hpayload
  obtain rfl := memWriterAppend_ok hflag
  obtain rfl := memWriterAppend_ok htype
  obtain rfl := memWriterAppend_ok hpadding
  have htwo : ([0, 0] : List UInt8).length = 2 := rfl
  have hone : ∀ byte : UInt8, [byte].length = 1 := fun _ => rfl
  have htype : UInt8.ofNat (ofBytesLE [exportedGlobal.signatureType]) =
      exportedGlobal.signatureType := by simp [ofBytesLE]
  have hflag : decide (ofBytesLE [if exportedGlobal.isMutable then (1 : UInt8) else 0] ≠ 0) =
      exportedGlobal.isMutable := by
    cases exportedGlobal.isMutable <;> decide
  simp only [readGlobalInfo, pSubI_append htwo, pSubI_append (hone _), htype, hflag,
    pSubI_append hwf, bind, Except.bind, Except.map]

/-- **An exported global** that is well formed is read back. -/
theorem readsBack_exportedGlobal {exportedGlobal : ExportedGlobal}
    (hwf : exportedGlobal.WellFormed) :
    ReadsBack writeExportedGlobal readExportedGlobal id exportedGlobal := by
  intro output output' h
  rw [writeExportedGlobal_eq] at h
  obtain ⟨output1, hinfo, hname⟩ := exists_of_bind_ok h
  simp only [readExportedGlobal, readsBack_string _ _ _ hname, readGlobalInfo_write hwf hinfo,
    bind, Except.bind, Except.map, id]

/-- An exported global can be searched for by its name. -/
theorem searchable_exportedGlobal {exportedGlobal : ExportedGlobal}
    (hwf : exportedGlobal.WellFormed) :
    Searchable writeExportedGlobal readString (fun cursor => (readGlobalInfo cursor).map (·.2))
      (·.exportName) writeGlobalInfo exportedGlobal where
  front output output' h := by
    rw [writeExportedGlobal_eq] at h
    obtain ⟨output1, hinfo, hname⟩ := exists_of_bind_ok h
    exact ⟨output1, hinfo, readsBack_string _ _ _ hname⟩
  skipped output keyStart h := by
    simp only [readGlobalInfo_write hwf h, Except.map]

/-- An exported global is appended. -/
theorem appends_exportedGlobal (exportedGlobal : ExportedGlobal) :
    Appends (writeExportedGlobal · exportedGlobal) :=
  (Appends.append _).bind ((Appends.append _).bind ((Appends.append _).bind
    ((Appends.append _).bind (.string _))))

end WasmCompiler
