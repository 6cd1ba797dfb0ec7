import WasmCompiler.BytecodeReader
import WasmCompiler.DataSegments
import WasmCompiler.GlobalInitialization
import WasmCompiler.ModuleSerialization

/-!
# Constant Expressions in the Bytecode

The three places where a constant expression is parsed: the offset of a data segment, the
offset of an element segment, and the initial value of a global. A global reads the operand of
`i32.const` as a signed integer, as the binary format has it. The two offsets read it as an
unsigned one.

## Main results

* `readOffset_of_nonneg`: an offset that is not negative is read as a global reads it.
* `constantOffset_iff`: no negative one is.
-/

namespace WasmCompiler

/-! ### Instructions -/

/-- The numbers of the instructions that constant expressions are compared with. -/
def OPCodeByte.end_ : ℕ := 0x0B
def OPCodeByte.globalGet : ℕ := 0x23
def OPCodeByte.i32Const : ℕ := 0x41
def OPCodeByte.i64Const : ℕ := 0x42
def OPCodeByte.f32Const : ℕ := 0x43
def OPCodeByte.f64Const : ℕ := 0x44
def OPCodeByte.scalarExtend : ℕ := 0xFC
def OPCodeByte.vectorExtend : ℕ := 0xFD

/-- `parseOpCode`. -/
def parseOpCode (reader : BytecodeReader) : Except ParseError (ℕ × BytecodeReader) :=
  reader.readByte >>= fun (firstByte, reader) =>
  if firstByte.toNat = OPCodeByte.scalarExtend ∨ firstByte.toNat = OPCodeByte.vectorExtend then
    reader.readLEB128 .uint32 >>= fun (extendOpCode, reader) =>
    if extendOpCode > 0xFF then .error .unknownInstruction
    else if firstByte.toNat = OPCodeByte.vectorExtend then .error .simdFeatureNotImplemented
    else .ok ((OPCodeByte.scalarExtend <<< 8) ||| extendOpCode.toNat, reader)
  else .ok (firstByte.toNat, reader)

/-- The offset in front of a segment: `parseDataSection` and `parseElementSection` parse it
alike. -/
def readOffset (reader : BytecodeReader) : Except ParseError (UInt32 × BytecodeReader) :=
  parseOpCode reader >>= fun (instruction, reader) =>
  if OPCodeByte.i32Const ≤ instruction ∧ instruction ≤ OPCodeByte.f64Const then
    if instruction ≠ OPCodeByte.i32Const then
      .error (.binary .constantExpressionOffsetHasToBeOfTypeI32)
    else
      reader.readUInt32 >>= fun (offset, reader) =>
      parseOpCode reader >>= fun (instruction, reader) =>
      if instruction ≠ OPCodeByte.end_ then .error (.binary .malformedConstantExpressionOffset)
      else .ok (offset, reader)
  else if instruction = OPCodeByte.globalGet then .error (.binary .importedGlobalsNotSupported)
  else .error (.binary .malformedConstantExpressionOffset)

/-! ### Data segments -/

/-- What `parseDataSection` does with a segment whose offset is known: the check of the bounds,
the bytes, their number and the offset. -/
def placeDataSegment (module_ : DataModule) (output : List UInt8) (offset : UInt32)
    (reader : BytecodeReader) : Except ParseError (List UInt8 × BytecodeReader) :=
  reader.readUInt32 >>= fun (segmentSize, reader) =>
  let endOffset := offset.toNat + segmentSize.toNat
  let initialMemSizeBytes := module_.memoryInitialSize.toNat * 65536
  if endOffset > initialMemSizeBytes ∨ offset > 0xFFFFFFFF - segmentSize then
    .error (.binary .dataSegmentOutOfInitialBounds)
  else
    let data := reader.remaining.take segmentSize.toNat
    reader.step segmentSize.toNat >>= fun reader =>
    (((if segmentSize > 0 then memWriterWritePadded output data else .ok output) >>= fun output =>
      memWriterWrite32 output segmentSize >>= fun output =>
      memWriterWrite32 output offset).mapError ParseError.binary).map fun output =>
    (output, reader)

/-- One entry of the data section. -/
def parseDataEntry (module_ : DataModule) (output : List UInt8) (reader : BytecodeReader) :
    Except ParseError (List UInt8 × BytecodeReader) :=
  reader.readUInt32 >>= fun (mode, reader) =>
  if mode ≠ 0 then .error (.binary .passiveModeDataSegmentsNotImplemented)
  else if !module_.hasMemory then .error (.binary .memoryIndexOutOfBounds)
  else
    readOffset reader >>= fun (offset, reader) =>
    placeDataSegment module_ output offset reader

/-! ### Element segments -/

/-- What the element section depends on, with the code that the backend appends to the output
for an imported function. -/
structure ElementModule where
  hasTable : Bool
  tableInitialSize : UInt32
  numTotalFunctions : UInt32
  isLinkedImport : UInt32 → Bool
  emitWasmToNativeAdapter : List UInt8 → UInt32 → Except BinaryError (List UInt8)

/-- What the element section changes: the table, the positions of the functions, and the
output. -/
structure ElementState where
  tableElements : UInt32 → TableElement
  wasmFncBodyBinaryPositions : UInt32 → UInt32
  output : List UInt8

/-- An element of the table is set; a linked import gets a wrapper, if it has none yet. -/
def placeElement (module_ : ElementModule) (state : ElementState) (index : UInt32)
    (elementFunctionIndex : UInt32) : Except ParseError ElementState :=
  let tableElements := fun i =>
    if i = index then { state.tableElements i with fncIndex := elementFunctionIndex }
    else state.tableElements i
  if module_.isLinkedImport elementFunctionIndex ∧
      state.wasmFncBodyBinaryPositions elementFunctionIndex = unknownValue then
    ((module_.emitWasmToNativeAdapter state.output elementFunctionIndex).mapError
      ParseError.binary).map fun output =>
    { tableElements
      wasmFncBodyBinaryPositions := fun i =>
        if i = elementFunctionIndex then UInt32.ofNat state.output.length
        else state.wasmFncBodyBinaryPositions i
      output }
  else .ok { state with tableElements }

/-- The functions of a segment, from an index of the table on. -/
def placeElements (module_ : ElementModule) :
    ℕ → UInt32 → ElementState → BytecodeReader → Except ParseError (ElementState × BytecodeReader)
  | 0, _, state, reader => .ok (state, reader)
  | numElements + 1, index, state, reader =>
      reader.readUInt32 >>= fun (elementFunctionIndex, reader) =>
      if module_.numTotalFunctions ≤ elementFunctionIndex then .error .functionIndexOutOfRange
      else
        placeElement module_ state index elementFunctionIndex >>= fun state =>
        placeElements module_ numElements (index + 1) state reader

/-- What `parseElementSection` does with a segment whose offset is known. -/
def placeElementSegment (module_ : ElementModule) (state : ElementState) (offset : UInt32)
    (reader : BytecodeReader) : Except ParseError (ElementState × BytecodeReader) :=
  reader.readUInt32 >>= fun (numElements, reader) =>
  if offset.toNat + numElements.toNat > module_.tableInitialSize.toNat then
    .error .tableElementIndexOutOfRange
  else placeElements module_ numElements.toNat offset state reader

/-- One entry of the element section. The mode is cast to eight bits. -/
def parseElementEntry (module_ : ElementModule) (state : ElementState)
    (reader : BytecodeReader) : Except ParseError (ElementState × BytecodeReader) :=
  reader.readUInt32 >>= fun (mode, reader) =>
  if mode.toUInt8 ≠ 0 then .error .bulkMemoryOperationsFeatureNotImplemented
  else if !module_.hasTable then .error .tableIndexOutOfBounds
  else
    readOffset reader >>= fun (offset, reader) =>
    placeElementSegment module_ state offset reader

/-! ### Globals -/

/-- The initial value of a global of `parseGlobalSection`, as the bits of the union. -/
def readInitialValue (importGlobals : List GlobalDef) (type : MachineType)
    (reader : BytecodeReader) : Except ParseError (Word × BytecodeReader) :=
  parseOpCode reader >>= fun (instruction, reader) =>
  (if OPCodeByte.i32Const ≤ instruction ∧ instruction ≤ OPCodeByte.f64Const then
    if type = .i32 ∧ instruction = OPCodeByte.i32Const then
      (reader.readLEB128 .int32).map fun (value, reader) =>
        ((BitVec.ofInt 32 value).setWidth 64, reader)
    else if type = .i64 ∧ instruction = OPCodeByte.i64Const then
      (reader.readLEB128 .int64).map fun (value, reader) => (BitVec.ofInt 64 value, reader)
    else if type = .f32 ∧ instruction = OPCodeByte.f32Const then
      (reader.readLE 4).map fun (value, reader) => (BitVec.ofNat 64 value, reader)
    else if type = .f64 ∧ instruction = OPCodeByte.f64Const then
      (reader.readLE 8).map fun (value, reader) => (BitVec.ofNat 64 value, reader)
    else .error .malformedGlobalInitializationExpression
  else if instruction = OPCodeByte.globalGet then
    reader.readUInt32 >>= fun (sourceGlobalIndex, reader) =>
    match importGlobals[sourceGlobalIndex.toNat]? with
    | none => .error .validationFailed
    | some sourceGlobal =>
        if sourceGlobal.isMutable then .error .validationFailed
        else if sourceGlobal.type ≠ type then .error .validationFailed
        else .ok (sourceGlobal.initialValue, reader)
  else .error .malformedGlobalInitializationExpression) >>= fun (value, reader) =>
  parseOpCode reader >>= fun (instruction, reader) =>
  if instruction ≠ OPCodeByte.end_ then .error .malformedGlobalInitializationExpression
  else .ok (value, reader)

/-! ### The operand of `i32.const` -/

/-- The constant expression `i32.const`, by the bytes of its operand. -/
def i32ConstExpression (encoding : List UInt8) : List UInt8 := 0x41 :: (encoding ++ [0x0B])

/-- What an operand of `i32.const` stands for as an address. -/
def i32ConstOffset (value : ℤ) : UInt32 := UInt32.ofNat (value % 2 ^ 32).toNat

variable {encoding rest consumed : List UInt8} {value : ℤ}

/-- An instruction of one byte. -/
theorem parseOpCode_cons {byte : UInt8} (hscalar : byte.toNat ≠ OPCodeByte.scalarExtend)
    (hvector : byte.toNat ≠ OPCodeByte.vectorExtend) (consumed rest : List UInt8) :
    parseOpCode ⟨consumed, byte :: rest⟩ = .ok (byte.toNat, ⟨consumed ++ [byte], rest⟩) := by
  rw [parseOpCode, BytecodeReader.readByte]
  simp only [bind, Except.bind]
  rw [if_neg (by tauto)]

/-- The expression, instruction by instruction. -/
theorem i32ConstExpression_append (encoding rest : List UInt8) :
    i32ConstExpression encoding ++ rest = 0x41 :: (encoding ++ 0x0B :: rest) := by
  simp [i32ConstExpression]

/-- The offset of an expression `i32.const`, from its operand on. -/
theorem readOffset_eq (consumed encoding rest : List UInt8) :
    readOffset ⟨consumed, i32ConstExpression encoding ++ rest⟩ =
      (BytecodeReader.readUInt32 ⟨consumed ++ [0x41], encoding ++ 0x0B :: rest⟩ >>= fun (offset, reader) =>
        parseOpCode reader >>= fun (instruction, reader) =>
        if instruction ≠ OPCodeByte.end_ then .error (.binary .malformedConstantExpressionOffset)
        else .ok (offset, reader)) := by
  rw [i32ConstExpression_append, readOffset, parseOpCode_cons (by decide) (by decide)]
  rfl

/-- What is read if the operand is an unsigned integer. -/
theorem readOffset_of_unsigned (h : LEB128 false 32 encoding value)
    (consumed rest : List UInt8) :
    readOffset ⟨consumed, i32ConstExpression encoding ++ rest⟩ =
      .ok (UInt32.ofNat value.toNat, ⟨consumed ++ i32ConstExpression encoding, rest⟩) := by
  rw [readOffset_eq, BytecodeReader.readUInt32_append h]
  simp only [bind, Except.bind]
  rw [parseOpCode_cons (by decide) (by decide)]
  simp [i32ConstExpression, OPCodeByte.end_]

/-- What is read if the operand encodes a signed integer that is not negative. -/
theorem readOffset_of_nonneg (h : LEB128 true 32 encoding value) (hnonneg : 0 ≤ value)
    (consumed rest : List UInt8) :
    readOffset ⟨consumed, i32ConstExpression encoding ++ rest⟩ =
      .ok (i32ConstOffset value, ⟨consumed ++ i32ConstExpression encoding, rest⟩) := by
  have hfits := h.fits
  simp only [FitsInteger, if_true] at hfits
  rw [readOffset_of_unsigned (h.unsigned_of_nonneg hnonneg), i32ConstOffset,
    Int.emod_eq_of_lt hnonneg (by omega)]

/-- An offset is only read from an operand that encodes an unsigned integer. -/
theorem unsigned_of_readOffset (h : LEB128 true 32 encoding value) {offset : UInt32}
    {reader : BytecodeReader}
    (hread : readOffset ⟨consumed, i32ConstExpression encoding ++ rest⟩ = .ok (offset, reader)) :
    ∃ value' : ℤ, LEB128 false 32 encoding value' ∧ offset = UInt32.ofNat value'.toNat := by
  rw [readOffset_eq] at hread
  obtain ⟨⟨offset', reader₁⟩, hoperand, hread⟩ := exists_of_bind_ok hread
  obtain ⟨⟨instruction, reader₂⟩, -, hread⟩ := exists_of_bind_ok hread
  have hoffset : offset' = offset := by
    dsimp only at hread
    split at hread
    · cases hread
    · cases hread
      rfl
  obtain ⟨encoding', rest', hsplit, hencoding, -⟩ :=
    BytecodeReader.encoding_of_readUInt32 hoperand
  obtain ⟨rfl, -⟩ := h.eq_of_append hencoding hsplit
  exact ⟨offset'.toNat, hencoding, by rw [Int.toNat_natCast, UInt32.ofNat_toNat, hoffset]⟩

/-- A negative operand is never read as what it stands for. -/
theorem readOffset_ne_of_neg (h : LEB128 true 32 encoding value) (hneg : value < 0)
    (reader : BytecodeReader) :
    readOffset ⟨consumed, i32ConstExpression encoding ++ rest⟩ ≠
      .ok (i32ConstOffset value, reader) := by
  intro hread
  obtain ⟨value', hvalue', hoffset⟩ := unsigned_of_readOffset h hread
  have hfits := h.fits
  have hfits' := hvalue'.fits
  simp only [FitsInteger, if_true, Bool.false_eq_true, if_false] at hfits hfits'
  refine h.unsigned_ne hvalue' (by decide) ?_
  have hmod : value % 2 ^ 32 = value + 2 ^ 32 := by omega
  have hnat : (value + 2 ^ 32).toNat = value'.toNat := by
    have heq := congrArg UInt32.toNat hoffset
    rw [i32ConstOffset, hmod, UInt32.toNat_ofNat', UInt32.toNat_ofNat'] at heq
    omega
  omega

/-! ### Offsets and globals -/

/-- What the constant of an expression is used for: as the offset of a data segment and of an
element segment, whatever stands in front of the expression and behind it, and as the value of
a global. -/
structure UsesConstant (encoding : List UInt8) (value : ℤ) : Prop where
  data : ∀ (module_ : DataModule) (output consumed mode rest : List UInt8),
    module_.hasMemory = true → LEB128 false 32 mode 0 →
      parseDataEntry module_ output ⟨consumed, mode ++ (i32ConstExpression encoding ++ rest)⟩ =
        placeDataSegment module_ output (i32ConstOffset value)
          ⟨consumed ++ mode ++ i32ConstExpression encoding, rest⟩
  element : ∀ (module_ : ElementModule) (state : ElementState) (consumed mode rest : List UInt8),
    module_.hasTable = true → LEB128 false 32 mode 0 →
      parseElementEntry module_ state ⟨consumed, mode ++ (i32ConstExpression encoding ++ rest)⟩ =
        placeElementSegment module_ state (i32ConstOffset value)
          ⟨consumed ++ mode ++ i32ConstExpression encoding, rest⟩
  global_ : ∀ (importGlobals : List GlobalDef) (consumed rest : List UInt8),
    readInitialValue importGlobals .i32 ⟨consumed, i32ConstExpression encoding ++ rest⟩ =
      .ok (BitVec.ofNat 64 (i32ConstOffset value).toNat,
        ⟨consumed ++ i32ConstExpression encoding, rest⟩)

/-- A global always gets the constant. -/
theorem readInitialValue_i32Const (h : LEB128 true 32 encoding value)
    (importGlobals : List GlobalDef) (consumed rest : List UInt8) :
    readInitialValue importGlobals .i32 ⟨consumed, i32ConstExpression encoding ++ rest⟩ =
      .ok (BitVec.ofNat 64 (i32ConstOffset value).toNat,
        ⟨consumed ++ i32ConstExpression encoding, rest⟩) := by
  rw [i32ConstExpression_append, readInitialValue, parseOpCode_cons (by decide) (by decide)]
  simp only [bind, Except.bind]
  rw [if_pos (by decide), if_pos (by decide), BytecodeReader.readLEB128_append .int32 h]
  simp only [Except.map]
  rw [parseOpCode_cons (by decide) (by decide)]
  have hword : (BitVec.ofInt 32 value).setWidth 64 =
      BitVec.ofNat 64 (i32ConstOffset value).toNat := by
    apply BitVec.eq_of_toNat_eq
    rw [BitVec.toNat_setWidth, BitVec.toNat_ofInt, BitVec.toNat_ofNat, i32ConstOffset,
      UInt32.toNat_ofNat']
    norm_cast
    omega
  rw [hword]
  simp [i32ConstExpression, OPCodeByte.end_]

/-- A data entry, from the offset on. -/
theorem parseDataEntry_eq {module_ : DataModule} (hmemory : module_.hasMemory = true)
    {mode : List UInt8} (hmode : LEB128 false 32 mode 0) (output consumed rest : List UInt8) :
    parseDataEntry module_ output ⟨consumed, mode ++ rest⟩ =
      (readOffset ⟨consumed ++ mode, rest⟩ >>= fun (offset, reader) =>
        placeDataSegment module_ output offset reader) := by
  rw [parseDataEntry, BytecodeReader.readUInt32_append hmode]
  simp only [bind, Except.bind]
  rw [if_neg (by decide), hmemory]
  rfl

/-- An element entry, from the offset on. -/
theorem parseElementEntry_eq {module_ : ElementModule} (htable : module_.hasTable = true)
    {mode : List UInt8} (hmode : LEB128 false 32 mode 0) (state : ElementState)
    (consumed rest : List UInt8) :
    parseElementEntry module_ state ⟨consumed, mode ++ rest⟩ =
      (readOffset ⟨consumed ++ mode, rest⟩ >>= fun (offset, reader) =>
        placeElementSegment module_ state offset reader) := by
  rw [parseElementEntry, BytecodeReader.readUInt32_append hmode]
  simp only [bind, Except.bind]
  rw [if_neg (by decide), htable]
  rfl

/-- A module with the largest memory. -/
def largestMemory : DataModule := ⟨true, 65536, none, none⟩

/-- In it an empty segment may have any offset, which is written to the binary. -/
theorem placeDataSegment_largestMemory (offset : UInt32) (consumed : List UInt8) :
    placeDataSegment largestMemory [] offset ⟨consumed, [0]⟩ =
      .ok (bytesLE 4 0 ++ bytesLE 4 offset.toNat, ⟨consumed ++ [0], []⟩) := by
  have hsize : LEB128 false 32 [0] 0 := .last (by decide) (by decide)
  have hread : BytecodeReader.readUInt32 ⟨consumed, [0]⟩ = .ok (0, ⟨consumed ++ [0], []⟩) := by
    simpa using BytecodeReader.readUInt32_append hsize consumed []
  have hstep : BytecodeReader.step ⟨consumed ++ [0], []⟩ 0 = .ok ⟨consumed ++ [0], []⟩ := by
    simp [BytecodeReader.step, BytecodeReader.jumpTo, BytecodeReader.ptr, BytecodeReader.bytecode]
  have hoffset := offset.toNat_lt
  have hbounds : ¬ (offset.toNat + (0 : UInt32).toNat >
      largestMemory.memoryInitialSize.toNat * 65536 ∨ offset > 0xFFFFFFFF - 0) := by
    rintro (hlt | hlt)
    · simp only [largestMemory, UInt32.reduceToNat] at hlt
      omega
    · rw [gt_iff_lt, UInt32.lt_iff_toNat_lt] at hlt
      simp only [UInt32.sub_zero, UInt32.reduceToNat] at hlt
      omega
  have hwrite : ∀ (output : List UInt8) (word : UInt32), output.length ≤ 4 →
      memWriterWrite32 output word = .ok (output ++ bytesLE 4 word.toNat) := by
    intro output word hlength
    rw [memWriterWrite32, memWriterAppend, length_bytesLE, uint32Max, if_neg (by omega)]
  rw [placeDataSegment, hread]
  simp only [bind, Except.bind]
  rw [if_neg hbounds]
  simp only [UInt32.reduceToNat]
  rw [hstep]
  dsimp only
  rw [if_neg (by decide)]
  dsimp only
  rw [hwrite [] 0 (by decide)]
  dsimp only
  rw [hwrite _ offset (by simp)]
  rfl

/-- Offsets and globals agree on an operand of `i32.const` if and only if it is not negative. -/
theorem constantOffset_iff (h : LEB128 true 32 encoding value) :
    UsesConstant encoding value ↔ 0 ≤ value := by
  constructor
  · intro huses
    by_contra hneg
    have hmode : LEB128 false 32 [0] 0 := .last (by decide) (by decide)
    have hdata := huses.data largestMemory [] [] [0] [0] rfl hmode
    rw [parseDataEntry_eq rfl hmode, placeDataSegment_largestMemory] at hdata
    obtain ⟨⟨offset, reader⟩, hread, hplace⟩ := exists_of_bind_ok hdata
    obtain ⟨value', hvalue', rfl⟩ := unsigned_of_readOffset h hread
    have hread' := readOffset_of_unsigned hvalue' ([] ++ [0]) [0]
    obtain ⟨-, rfl⟩ := Prod.mk.inj (Except.ok.inj (hread.symm.trans hread'))
    dsimp only at hplace
    rw [placeDataSegment_largestMemory] at hplace
    obtain ⟨hbytes, -⟩ := Prod.mk.inj (Except.ok.inj hplace)
    have hbytes' := congrArg ofBytesLE (List.append_cancel_left hbytes)
    rw [ofBytesLE_bytesLE (UInt32.toNat_lt _), ofBytesLE_bytesLE (UInt32.toNat_lt _)] at hbytes'
    rw [UInt32.toNat_inj.mp hbytes'] at hread
    exact readOffset_ne_of_neg h (by omega) _ hread
  · intro hnonneg
    refine ⟨fun module_ output consumed mode rest hmemory hmode => ?_,
      fun module_ state consumed mode rest htable hmode => ?_, readInitialValue_i32Const h⟩
    · rw [parseDataEntry_eq hmemory hmode, readOffset_of_nonneg h hnonneg]
      rfl
    · rw [parseElementEntry_eq htable hmode, readOffset_of_nonneg h hnonneg]
      rfl

/-- The largest operand of one byte. -/
theorem constantOffset_iff_oneByte :
    LEB128 true 32 [0x3F] 63 ∧ (UsesConstant [0x3F] 63 ↔ (0 : ℤ) ≤ 63) := by
  have h : LEB128 true 32 [0x3F] 63 := .last (by decide) (by decide)
  exact ⟨h, constantOffset_iff h⟩

/-- A memory of one page and a segment with the bytes `abc` at the offset `i32.const -64`, which
lies outside of it: the segment is written to the binary with the offset `64`. A global with
the same expression is `-64`. -/
theorem negativeOffset_accepted :
    LEB128 true 32 [0x40] (-64) ∧ i32ConstOffset (-64) = 0xFFFFFFC0 ∧
      parseDataEntry ⟨true, 1, none, none⟩ []
          ⟨[], [0x00] ++ i32ConstExpression [0x40] ++ [3, 97, 98, 99]⟩ =
        .ok ([97, 98, 99, 0] ++ bytesLE 4 3 ++ bytesLE 4 64,
          ⟨[0x00] ++ i32ConstExpression [0x40] ++ [3, 97, 98, 99], []⟩) ∧
      readInitialValue [] .i32 ⟨[], i32ConstExpression [0x40]⟩ =
        .ok (0xFFFFFFC0, ⟨i32ConstExpression [0x40], []⟩) ∧
      ¬ UsesConstant [0x40] (-64) := by
  have h : LEB128 true 32 [0x40] (-64) := .last (by decide) (by decide)
  refine ⟨h, by decide, by decide +kernel, by decide +kernel, fun huses => ?_⟩
  have hmode : LEB128 false 32 [0] 0 := .last (by decide) (by decide)
  have hdata := huses.data ⟨true, 1, none, none⟩ [] [] [0] [3, 97, 98, 99] rfl hmode
  have hplace : placeDataSegment ⟨true, 1, none, none⟩ [] (i32ConstOffset (-64))
      ⟨[] ++ [0] ++ i32ConstExpression [0x40], [3, 97, 98, 99]⟩ =
        .error (.binary .dataSegmentOutOfInitialBounds) := by decide +kernel
  have hread : (parseDataEntry ⟨true, 1, none, none⟩ []
      ⟨[], [0] ++ (i32ConstExpression [0x40] ++ [3, 97, 98, 99])⟩).toOption.isSome = true := by
    decide +kernel
  rw [hdata, hplace] at hread
  cases hread

end WasmCompiler
