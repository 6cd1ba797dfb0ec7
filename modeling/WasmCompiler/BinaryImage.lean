import WasmCompiler.CompilerFrame
import WasmCompiler.MemoryWrites

/-!
# The Compiled Binary

The compiler appends to its output (`MemWriter`), the runtime reads the finished binary from
its end with `readNextValue`. A cursor is modelled by the part of the binary in front of it.
Reading in front of the start of the binary is undefined in the source and an error here.
-/

namespace WasmCompiler

/-- The errors of the functions that write and read the sections of the binary. -/
inductive BinaryError where
  | passiveModeDataSegmentsNotImplemented
  | memoryIndexOutOfBounds
  | constantExpressionOffsetHasToBeOfTypeI32
  | malformedConstantExpressionOffset
  | importedGlobalsNotSupported
  | dataSegmentOutOfInitialBounds
  | dataCountAndDataSectionHaveInconsistentLengths
  | maximumNumberOfBytesWritten
  | tooManyGlobals
  | linearMemoryAddressOutOfBounds
  | couldNotExtendLinearMemory
  /-- A copy leaves the output, or a cursor the binary. -/
  | outOfImage
  /-- An index leaves an array of the module info. -/
  | outOfModuleInfo
  | globalOutOfRange
  | malformedUTF8Sequence
  | subsectionSizeMismatch
  | cannotExportBuiltinFunction
  | moduleMemoryNot16ByteAligned
  | moduleMemoryNot8ByteAligned
  | binaryModuleVersionNotSupported
  | functionNotFound
  | globalNotFound
  deriving DecidableEq, Repr

/-- `UINT32_MAX`. -/
def uint32Max : ℕ := 0xFFFFFFFF

/-! ### Writing -/

/-- Taking an accepted binding apart. -/
theorem exists_of_bind_ok {ε α β : Type} {x : Except ε α} {f : α → Except ε β} {b : β}
    (h : (x >>= f) = .ok b) : ∃ a, x = .ok a ∧ f a = .ok b := by
  cases x with
  | error e => exact absurd h (by simp [bind, Except.bind])
  | ok a => exact ⟨a, rfl, h⟩

/-- Append bytes to the output; the output has at most `UINT32_MAX` bytes. -/
def memWriterAppend (output bytes : List UInt8) : Except BinaryError (List UInt8) :=
  if uint32Max < output.length + bytes.length then .error .maximumNumberOfBytesWritten
  else .ok (output ++ bytes)

/-- Append a 32-bit number. -/
def memWriterWrite32 (output : List UInt8) (source : UInt32) :
    Except BinaryError (List UInt8) :=
  memWriterAppend output (bytesLE 4 source.toNat)

/-- Append data, with zero bytes behind it up to a multiple of four bytes. -/
def memWriterWritePadded (output data : List UInt8) : Except BinaryError (List UInt8) :=
  let stepWidth := (roundUpToPow2 (UInt32.ofNat data.length) 2).toNat
  if stepWidth < data.length then .error .outOfImage
  else memWriterAppend output (data ++ List.replicate (stepWidth - data.length) 0)

/-- What was appended is behind what was there. -/
theorem memWriterAppend_ok {output bytes output' : List UInt8}
    (h : memWriterAppend output bytes = .ok output') : output' = output ++ bytes := by
  simp only [memWriterAppend] at h
  split at h
  · simp at h
  · exact (Except.ok.inj h).symm

/-- A number is appended as four bytes. -/
theorem memWriterWrite32_ok {output output' : List UInt8} {source : UInt32}
    (h : memWriterWrite32 output source = .ok output') :
    output' = output ++ bytesLE 4 source.toNat :=
  memWriterAppend_ok h

/-- Data is appended in front of its padding. -/
theorem memWriterWritePadded_ok {output data output' : List UInt8}
    (h : memWriterWritePadded output data = .ok output') :
    ∃ padding, output' = output ++ (data ++ padding) ∧
      (data ++ padding).length = (roundUpToPow2 (UInt32.ofNat data.length) 2).toNat := by
  simp only [memWriterWritePadded] at h
  split at h
  · simp at h
  · refine ⟨_, memWriterAppend_ok h, ?_⟩
    simp only [List.length_append, List.length_replicate]
    omega

/-! ### Reading -/

/-- Move the cursor back over a number of bytes. -/
def pSubI (cursor : List UInt8) (bytes : ℕ) :
    Except BinaryError (List UInt8 × List UInt8) :=
  match takeBack bytes cursor with
  | some read => .ok read
  | none => .error .outOfImage

/-- Read the 32-bit number in front of the cursor. -/
def readNextValue32 (cursor : List UInt8) : Except BinaryError (UInt32 × List UInt8) :=
  (pSubI cursor 4).map fun read => (UInt32.ofNat (ofBytesLE read.1), read.2)

/-- The cursor goes back over what was appended. -/
theorem pSubI_append {before bytes : List UInt8} {n : ℕ} (h : bytes.length = n) :
    pSubI (before ++ bytes) n = .ok (bytes, before) := by
  simp [pSubI, takeBack_append_of_length h]

/-- The number that was appended is read back. -/
@[simp] theorem readNextValue32_append (before : List UInt8) (source : UInt32) :
    readNextValue32 (before ++ bytesLE 4 source.toNat) = .ok (source, before) := by
  have hlt : source.toNat < 256 ^ 4 := source.toNat_lt
  simp [readNextValue32, pSubI_append, Except.map, ofBytesLE_bytesLE hlt]

end WasmCompiler
