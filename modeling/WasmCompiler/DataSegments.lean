import WasmCompiler.BinaryImage

/-!
# Active Data Segments

How the data segments of a module reach the linear memory: `Frontend::parseDataSection`
appends them to the binary in module order, and `Runtime::initializeModule` walks the binary
backwards and copies them into the memory. The linear memory grows with the segments: only
the part up to the highest segment is made usable (and filled with zeros), the rest is filled
with zeros when it is first accessed.

## Main results

* `initializeDataSegments_eq`: the runtime applies the segments from the last to the first.
* `initialisesDataSegments_iff`: when that gives the memory the module asks for.
-/

namespace WasmCompiler

/-! ### The data section -/

/-- The mode of a data segment. -/
inductive DataMode where
  | active
  | passive
  | activeInNonDefaultMemory
  deriving DecidableEq, Repr

/-- The constant expression in front of a segment, by its first instruction; `terminated`
says whether `end` follows. -/
inductive OffsetExpression where
  | i32Const (offset : UInt32) (terminated : Bool)
  | otherConst
  | globalGet
  | other
  deriving DecidableEq, Repr

/-- One entry of the data section. The size is read as a 32-bit number. -/
structure DataSegment where
  mode : DataMode
  offsetExpression : OffsetExpression
  data : List UInt8
  length_lt : data.length < 2 ^ 32
  deriving Repr

namespace DataSegment

/-- The offset of a segment, if it is a constant. -/
def offset (segment : DataSegment) : UInt32 :=
  match segment.offsetExpression with
  | .i32Const offset _ => offset
  | _ => 0

/-- The number of bytes of a segment. -/
def segmentSize (segment : DataSegment) : UInt32 :=
  UInt32.ofNat segment.data.length

/-- The size is the number of bytes. -/
@[simp] theorem segmentSize_toNat (segment : DataSegment) :
    segment.segmentSize.toNat = segment.data.length := by
  have := segment.length_lt
  simp only [segmentSize, UInt32.toNat_ofNat']
  omega

/-- What the segment asks the memory to hold. -/
def write (segment : DataSegment) : RangeWrite UInt8 :=
  ⟨segment.offset.toNat, segment.data⟩

end DataSegment

/-- What the data section depends on: the memory section, the data count section and the
data section itself. -/
structure DataModule where
  hasMemory : Bool
  memoryInitialSize : UInt32
  dataCount : Option UInt32
  dataSection : Option (List DataSegment)

/-- The value of the number of data segments while it is not known. -/
def numDataSegmentsUnset : UInt32 := 0xFFFFFFFF

namespace DataModule

/-- The segments of the module. -/
def segments (module_ : DataModule) : List DataSegment := module_.dataSection.getD []

/-- The number of data segments after the data count section. -/
def countedDataSegments (module_ : DataModule) : UInt32 :=
  module_.dataCount.getD numDataSegmentsUnset

/-- The initial size of the memory in pages, as the runtime reads it. -/
def initialLinMemSizeInPages (module_ : DataModule) : UInt32 :=
  if module_.hasMemory then module_.memoryInitialSize else 0

/-- The memory the module asks for. -/
def initialMemory (module_ : DataModule) : ℕ → UInt8 :=
  RangeWrite.overwriteAll (fun _ => 0) (module_.segments.map DataSegment.write)

end DataModule

/-- The offset of a segment, or the error for the constant expression. -/
def parseOffsetExpression : OffsetExpression → Except BinaryError UInt32
  | .i32Const offset true => .ok offset
  | .i32Const _ false => .error .malformedConstantExpressionOffset
  | .otherConst => .error .constantExpressionOffsetHasToBeOfTypeI32
  | .globalGet => .error .importedGlobalsNotSupported
  | .other => .error .malformedConstantExpressionOffset

/-- Append a segment: its bytes, its size and its offset. -/
def writeDataSegment (output : List UInt8) (segment : DataSegment) (offset : UInt32) :
    Except BinaryError (List UInt8) :=
  (if segment.segmentSize > 0 then memWriterWritePadded output segment.data
    else .ok output) >>= fun output =>
  memWriterWrite32 output segment.segmentSize >>= fun output =>
  memWriterWrite32 output offset

/-- Check one segment and append it to the output. -/
def parseDataSegment (module_ : DataModule) (output : List UInt8) (segment : DataSegment) :
    Except BinaryError (List UInt8) :=
  if segment.mode ≠ .active then .error .passiveModeDataSegmentsNotImplemented
  else if !module_.hasMemory then .error .memoryIndexOutOfBounds
  else
    parseOffsetExpression segment.offsetExpression >>= fun offset =>
      let endOffset := offset.toNat + segment.segmentSize.toNat
      let initialMemSizeBytes := module_.memoryInitialSize.toNat * 65536
      if endOffset > initialMemSizeBytes ∨ offset > 0xFFFFFFFF - segment.segmentSize then
        .error .dataSegmentOutOfInitialBounds
      else writeDataSegment output segment offset

/-- Append the segments in module order. -/
def parseDataSegments (module_ : DataModule) :
    List UInt8 → List DataSegment → Except BinaryError (List UInt8)
  | output, [] => .ok output
  | output, segment :: rest =>
      parseDataSegment module_ output segment >>= fun output =>
        parseDataSegments module_ output rest

/-- `parseDataSection`, if the section is there, and what follows it: the number of segments
is written whether the section is there or not. -/
def parseDataSection (module_ : DataModule) (output : List UInt8) :
    Except BinaryError (List UInt8) :=
  match module_.dataSection with
  | some segments =>
      let numDataSegments := UInt32.ofNat segments.length
      if module_.countedDataSegments ≠ numDataSegmentsUnset ∧
          module_.countedDataSegments ≠ numDataSegments then
        .error .dataCountAndDataSectionHaveInconsistentLengths
      else
        parseDataSegments module_ output segments >>= fun output =>
          memWriterWrite32 output
            (if numDataSegments = numDataSegmentsUnset then 0 else numDataSegments)
  | none =>
      memWriterWrite32 output
        (if module_.countedDataSegments = numDataSegmentsUnset then 0
          else module_.countedDataSegments)

/-! ### The linear memory of the runtime -/

/-- The job memory behind the basedata: `bytes` is what it holds, and only the first
`usableLinMemBytes` are in use. -/
structure LinearMemory where
  bytes : ℕ → UInt8
  usableLinMemBytes : ℕ

/-- What the initialisation runs on: the size the memory may have, whether the job memory can
be made large enough for a size, and what it holds before. -/
structure MemoryEnvironment where
  ensureCapacityForLinearSize : ℕ → Bool
  undefinedBytes : ℕ → UInt8

namespace LinearMemory

/-- The memory as the module sees it: what is not in use yet is zero. -/
def contents (memory : LinearMemory) (a : ℕ) : UInt8 :=
  if a < memory.usableLinMemBytes then memory.bytes a else 0

/-- Fill with zeros what is newly in use. -/
def ensureLinearSize (memory : LinearMemory) (requiredLinearBytes : ℕ) : LinearMemory :=
  if requiredLinearBytes ≤ memory.usableLinMemBytes then memory
  else
    { bytes := fun a =>
        if memory.usableLinMemBytes ≤ a ∧ a < requiredLinearBytes then 0 else memory.bytes a
      usableLinMemBytes := requiredLinearBytes }

/-- Make the memory usable up to an offset. -/
def probe (env : MemoryEnvironment) (allowedLinMemPages : UInt32) (memory : LinearMemory)
    (linMemOffset : ℕ) : Except BinaryError LinearMemory :=
  if linMemOffset < memory.usableLinMemBytes then .ok memory
  else if allowedLinMemPages.toNat * 65536 ≤ linMemOffset then
    .error .linearMemoryAddressOutOfBounds
  else if env.ensureCapacityForLinearSize (linMemOffset + 1) then
    .ok (memory.ensureLinearSize (linMemOffset + 1))
  else .error .couldNotExtendLinearMemory

/-- Copy bytes to the memory. -/
def memcpy (memory : LinearMemory) (w : RangeWrite UInt8) : LinearMemory :=
  { memory with bytes := RangeWrite.overwrite memory.bytes w }

/-- Making more of the memory usable does not change it for the module. -/
@[simp] theorem contents_ensureLinearSize (memory : LinearMemory) (n : ℕ) :
    (memory.ensureLinearSize n).contents = memory.contents := by
  funext a
  simp only [ensureLinearSize]
  split
  · rfl
  · simp only [contents]
    split
    · split
      · rw [if_neg (by omega)]
      · rw [if_pos (by omega)]
    · rw [if_neg (by omega)]

/-- A copy into the usable part overwrites the range. -/
theorem contents_memcpy {memory : LinearMemory} {w : RangeWrite UInt8}
    (h : w.start + w.bytes.length ≤ memory.usableLinMemBytes) :
    (memory.memcpy w).contents = RangeWrite.overwrite memory.contents w := by
  funext a
  simp only [contents, memcpy, RangeWrite.overwrite]
  by_cases ha : a < memory.usableLinMemBytes
  · simp [ha]
  · have hnone : w.byteAt a = none := RangeWrite.byteAt_of_le (by omega)
    simp [ha, hnone]

end LinearMemory

/-- The state of the loop over the segments. -/
structure DataInitialization where
  memory : LinearMemory
  maximumDataOffset : UInt32

/-- The copy of a segment into the memory. -/
def copyDataSegment (dataSegmentStart dataSegmentSize : UInt32) (data : List UInt8)
    (state : DataInitialization) : DataInitialization :=
  if dataSegmentSize > 0 then
    { state with
      memory := state.memory.memcpy
        { start := dataSegmentStart.toNat, bytes := data.take dataSegmentSize.toNat } }
  else state

/-- Copy one segment into the memory, and make the memory large enough for it. -/
def applyDataSegment (env : MemoryEnvironment) (allowedLinMemPages : UInt32)
    (dataSegmentStart dataSegmentSize : UInt32) (data : List UInt8)
    (state : DataInitialization) : Except BinaryError DataInitialization :=
  let maximumSegmentOffset := dataSegmentStart + dataSegmentSize
  (if maximumSegmentOffset > state.maximumDataOffset then
    (state.memory.probe env allowedLinMemPages (maximumSegmentOffset - 1).toNat).map
      fun memory => { memory, maximumDataOffset := maximumSegmentOffset }
  else .ok state).map (copyDataSegment dataSegmentStart dataSegmentSize data)

/-- The loop over the segments, from the cursor backwards. -/
def applyDataSegments (env : MemoryEnvironment) (allowedLinMemPages : UInt32) :
    ℕ → List UInt8 → DataInitialization → Except BinaryError DataInitialization
  | 0, _, state => .ok state
  | numDataSegments + 1, dataSegmentsCursor, state =>
      readNextValue32 dataSegmentsCursor >>= fun (dataSegmentStart, cursor) =>
      readNextValue32 cursor >>= fun (dataSegmentSize, cursor) =>
      pSubI cursor (roundUpToPow2 dataSegmentSize 2).toNat >>= fun (data, cursor) =>
      applyDataSegment env allowedLinMemPages dataSegmentStart dataSegmentSize data state >>=
        applyDataSegments env allowedLinMemPages numDataSegments cursor

/-- The memory after the initialisation with the data segments of a binary, and the size that
is written to the metadata. -/
def initializeDataSegments (env : MemoryEnvironment) (allowedLinMemPages : UInt32)
    (binary : List UInt8) : Except BinaryError DataInitialization :=
  readNextValue32 binary >>= fun (numDataSegments, dataSegmentsEnd) =>
  applyDataSegments env allowedLinMemPages numDataSegments.toNat dataSegmentsEnd
    { memory := ⟨env.undefinedBytes, 0⟩, maximumDataOffset := 0 }

/-! ### What is written is read back -/

/-- A segment is written as its padded bytes, its size and its offset. -/
theorem writeDataSegment_ok {output output' : List UInt8} {segment : DataSegment}
    {offset : UInt32} (h : writeDataSegment output segment offset = .ok output') :
    ∃ data, output' = output ++ data ++ bytesLE 4 segment.segmentSize.toNat ++
        bytesLE 4 offset.toNat ∧
      data.length = (roundUpToPow2 segment.segmentSize 2).toNat ∧
      data.take segment.data.length = segment.data := by
  obtain ⟨output1, hdata, h⟩ := exists_of_bind_ok h
  obtain ⟨output2, hsize, hoffset⟩ := exists_of_bind_ok h
  have hout2 := memWriterWrite32_ok hsize
  have hout' := memWriterWrite32_ok hoffset
  split at hdata
  · obtain ⟨padding, rfl, hlength⟩ := memWriterWritePadded_ok hdata
    exact ⟨segment.data ++ padding, by rw [hout', hout2], hlength, by simp⟩
  · case _ hzero =>
      have hnil : segment.data = [] := by
        have hle := UInt32.le_iff_toNat_le.mp (UInt32.not_lt.mp hzero)
        simpa using hle
      obtain rfl := Except.ok.inj hdata
      refine ⟨[], by rw [hout', hout2]; simp, ?_, by simp [hnil]⟩
      have hsize0 : segment.segmentSize = 0 := by simp [DataSegment.segmentSize, hnil]
      rw [hsize0]
      rfl

/-- The segment fits the initial memory. -/
def DataSegment.Fits (segment : DataSegment) (memoryInitialSize : UInt32) : Prop :=
  segment.offset.toNat + segment.data.length ≤ memoryInitialSize.toNat * 65536 ∧
    segment.offset.toNat + segment.data.length ≤ uint32Max

/-- An accepted segment is active, fits the initial memory, and is written. -/
theorem parseDataSegment_ok {module_ : DataModule} {output output' : List UInt8}
    {segment : DataSegment} (h : parseDataSegment module_ output segment = .ok output') :
    module_.hasMemory = true ∧ segment.Fits module_.memoryInitialSize ∧
      writeDataSegment output segment segment.offset = .ok output' := by
  simp only [parseDataSegment] at h
  split at h
  · simp at h
  · split at h
    · simp at h
    · case _ hmemory =>
        obtain ⟨offset, hoffset, h⟩ := exists_of_bind_ok h
        split at h
        · simp at h
        · case _ hbounds =>
            obtain rfl : segment.offset = offset := by
              cases hexpr : segment.offsetExpression with
              | i32Const value terminated =>
                  cases terminated <;>
                    simp_all [parseOffsetExpression, DataSegment.offset]
              | _ => simp [hexpr, parseOffsetExpression] at hoffset
            have hsize := segment.segmentSize_toNat
            have hlength := segment.length_lt
            have hsub : (0xFFFFFFFF - segment.segmentSize).toNat =
                0xFFFFFFFF - segment.data.length := by
              rw [UInt32.toNat_sub_of_le _ _ (UInt32.le_iff_toNat_le.mpr (by
                simp only [UInt32.reduceToNat]; omega)), hsize]
              rfl
            have hle := UInt32.le_iff_toNat_le.mp
              (UInt32.not_lt.mp fun hlt => hbounds (Or.inr hlt))
            refine ⟨by simpa using hmemory, ⟨?_, ?_⟩, h⟩
            · have := not_or.mp hbounds
              omega
            · simp only [uint32Max]
              omega

/-- The runtime reads first the segment that was written last. -/
theorem applyDataSegments_write {env : MemoryEnvironment} {allowedLinMemPages : UInt32}
    {output output' : List UInt8} {segment : DataSegment} {offset : UInt32}
    (h : writeDataSegment output segment offset = .ok output') (numDataSegments : ℕ)
    (state : DataInitialization) :
    ∃ data, data.take segment.data.length = segment.data ∧
      applyDataSegments env allowedLinMemPages (numDataSegments + 1) output' state =
        applyDataSegment env allowedLinMemPages offset segment.segmentSize data state >>=
          applyDataSegments env allowedLinMemPages numDataSegments output := by
  obtain ⟨data, rfl, hlength, htake⟩ := writeDataSegment_ok h
  refine ⟨data, htake, ?_⟩
  simp only [applyDataSegments, readNextValue32_append, pSubI_append hlength, bind,
    Except.bind]

/-- Appending a segment at the end of the list. -/
theorem parseDataSegments_append (module_ : DataModule) (segments rest : List DataSegment)
    (output : List UInt8) :
    parseDataSegments module_ output (segments ++ rest) =
      parseDataSegments module_ output segments >>= fun output =>
        parseDataSegments module_ output rest := by
  induction segments generalizing output with
  | nil => rfl
  | cons segment segments ih =>
      simp only [List.cons_append, parseDataSegments]
      cases parseDataSegment module_ output segment with
      | error e => rfl
      | ok output1 => exact ih output1

/-- Every segment takes at least eight bytes of the output. -/
theorem parseDataSegments_length {module_ : DataModule} {segments : List DataSegment}
    {output output' : List UInt8} (h : parseDataSegments module_ output segments = .ok output') :
    output.length + 8 * segments.length ≤ output'.length := by
  induction segments generalizing output with
  | nil =>
      obtain rfl := Except.ok.inj h
      simp
  | cons segment segments ih =>
      obtain ⟨output1, hsegment, hrest⟩ := exists_of_bind_ok h
      obtain ⟨-, -, hwrite⟩ := parseDataSegment_ok hsegment
      obtain ⟨data, rfl, -, -⟩ := writeDataSegment_ok hwrite
      have := ih hrest
      simp only [List.length_append, length_bytesLE, List.length_cons] at this ⊢
      omega

/-! ### Applying the segments -/

/-- All segments applied so far are in the usable part of the memory. -/
def DataInitialization.Covered (state : DataInitialization) : Prop :=
  state.maximumDataOffset.toNat ≤ state.memory.usableLinMemBytes

/-- The copy changes the memory only. -/
theorem copyDataSegment_covered {dataSegmentStart dataSegmentSize : UInt32} {data : List UInt8}
    {state : DataInitialization} (h : state.Covered) :
    (copyDataSegment dataSegmentStart dataSegmentSize data state).Covered := by
  simp only [copyDataSegment]
  split
  · exact h
  · exact h

/-- In a memory that is large enough the copy overwrites the range of the segment. -/
theorem contents_copyDataSegment {segment : DataSegment} {data : List UInt8}
    {state : DataInitialization}
    (htake : data.take segment.data.length = segment.data)
    (husable : segment.offset.toNat + segment.data.length ≤ state.memory.usableLinMemBytes) :
    (copyDataSegment segment.offset segment.segmentSize data state).memory.contents =
      RangeWrite.overwrite state.memory.contents segment.write := by
  simp only [copyDataSegment]
  rw [segment.segmentSize_toNat, htake]
  split
  · exact LinearMemory.contents_memcpy husable
  · case _ hzero =>
      have hle := UInt32.le_iff_toNat_le.mp (UInt32.not_lt.mp hzero)
      have hnil : segment.data = [] := by simpa using hle
      funext a
      simp [RangeWrite.overwrite, DataSegment.write, hnil, RangeWrite.byteAt]

/-- A segment that fits overwrites its range, unless the memory cannot be allocated. -/
theorem applyDataSegment_spec (env : MemoryEnvironment) {allowedLinMemPages : UInt32}
    {segment : DataSegment} {data : List UInt8} {state : DataInitialization}
    (hfits : segment.Fits allowedLinMemPages)
    (htake : data.take segment.data.length = segment.data) (hcovered : state.Covered) :
    (∃ state', applyDataSegment env allowedLinMemPages segment.offset segment.segmentSize data
        state = .ok state' ∧ state'.Covered ∧
        state'.memory.contents = RangeWrite.overwrite state.memory.contents segment.write) ∨
      (applyDataSegment env allowedLinMemPages segment.offset segment.segmentSize data state =
        .error .couldNotExtendLinearMemory ∧ ∃ n, env.ensureCapacityForLinearSize n = false) := by
  obtain ⟨hpages, hmax⟩ := hfits
  have hend : (segment.offset + segment.segmentSize).toNat =
      segment.offset.toNat + segment.data.length := by
    rw [UInt32.toNat_add, segment.segmentSize_toNat]
    simp only [uint32Max] at hmax
    omega
  simp only [applyDataSegment]
  split
  · case _ hgt =>
      have hgt' := UInt32.lt_iff_toNat_lt.mp hgt
      have hpred : (segment.offset + segment.segmentSize - 1).toNat =
          segment.offset.toNat + segment.data.length - 1 := by
        rw [UInt32.toNat_sub_of_le _ _ (UInt32.le_iff_toNat_le.mpr (by
          simp only [UInt32.reduceToNat]; omega)), hend]
        rfl
      simp only [LinearMemory.probe]
      split
      · case _ hin =>
          refine Or.inl ⟨_, rfl, copyDataSegment_covered ?_, contents_copyDataSegment htake ?_⟩
          · simp only [DataInitialization.Covered]
            omega
          · simp only
            omega
      · case _ hout =>
          rw [if_neg (by omega)]
          split
          · have hneeded : ¬ (segment.offset + segment.segmentSize - 1).toNat + 1 ≤
                state.memory.usableLinMemBytes := by omega
            have husable : (state.memory.ensureLinearSize
                ((segment.offset + segment.segmentSize - 1).toNat + 1)).usableLinMemBytes =
                segment.offset.toNat + segment.data.length := by
              simp only [LinearMemory.ensureLinearSize, if_neg hneeded]
              omega
            refine Or.inl ⟨_, rfl, copyDataSegment_covered ?_, (contents_copyDataSegment htake ?_).trans ?_⟩
            · simp only [DataInitialization.Covered, husable]
              omega
            · simp only [husable]
              omega
            · simp
          · case _ hcapacity =>
              exact Or.inr ⟨rfl, _, by simpa using hcapacity⟩
  · case _ hle =>
      have hle' := UInt32.le_iff_toNat_le.mp (UInt32.not_lt.mp hle)
      have hcov : state.maximumDataOffset.toNat ≤ state.memory.usableLinMemBytes := hcovered
      exact Or.inl ⟨_, rfl, copyDataSegment_covered hcovered,
        contents_copyDataSegment htake (by omega)⟩

/-- **The runtime applies the segments from the last to the first.** -/
theorem applyDataSegments_parse (env : MemoryEnvironment) {module_ : DataModule}
    {segments : List DataSegment} {output output' : List UInt8}
    (h : parseDataSegments module_ output segments = .ok output')
    {state : DataInitialization} (hcovered : state.Covered) :
    (∃ state', applyDataSegments env module_.initialLinMemSizeInPages segments.length output'
        state = .ok state' ∧
        state'.memory.contents = RangeWrite.overwriteAll state.memory.contents
          (segments.map DataSegment.write).reverse) ∨
      (applyDataSegments env module_.initialLinMemSizeInPages segments.length output' state =
        .error .couldNotExtendLinearMemory ∧ ∃ n, env.ensureCapacityForLinearSize n = false) := by
  -- the last segment of the module is the first one the runtime reads
  induction segments using List.reverseRecOn generalizing output' state with
  | nil => exact Or.inl ⟨state, rfl, rfl⟩
  | append_singleton segments segment ih =>
      rw [parseDataSegments_append] at h
      obtain ⟨output1, hfirst, hlast⟩ := exists_of_bind_ok h
      obtain ⟨output2, hsegment, hnil⟩ := exists_of_bind_ok hlast
      obtain rfl : output2 = output' := Except.ok.inj hnil
      obtain ⟨hmemory, hfits, hwrite⟩ := parseDataSegment_ok hsegment
      have hpages : module_.initialLinMemSizeInPages = module_.memoryInitialSize := by
        simp [DataModule.initialLinMemSizeInPages, hmemory]
      rw [← hpages] at hfits
      obtain ⟨data, htake, hread⟩ :=
        @applyDataSegments_write env module_.initialLinMemSizeInPages _ _ _ _ hwrite
          segments.length state
      rw [List.length_append, List.length_singleton, hread]
      rcases applyDataSegment_spec env hfits htake hcovered with
        ⟨state1, hok, hcovered1, hcontents⟩ | ⟨herror, hn⟩
      · rw [hok]
        rcases ih hfirst hcovered1 with ⟨state2, hok2, hcontents2⟩ | ⟨herror, hn⟩
        · refine Or.inl ⟨state2, hok2, ?_⟩
          rw [hcontents2, hcontents]
          simp [RangeWrite.overwriteAll]
        · exact Or.inr ⟨herror, hn⟩
      · rw [herror]
        exact Or.inr ⟨rfl, hn⟩

/-! ### The memory after the initialisation -/

/-- The initialisation gives the memory the module asks for, whatever is in the binary in
front of the data section and in the job memory before; it may fail only because the memory
cannot be allocated. -/
def InitialisesDataSegments (module_ : DataModule) : Prop :=
  ∀ (before binary : List UInt8) (env : MemoryEnvironment),
    parseDataSection module_ before = .ok binary →
    match initializeDataSegments env module_.initialLinMemSizeInPages binary with
    | .ok state => state.memory.contents = module_.initialMemory
    | .error e => e = .couldNotExtendLinearMemory

/-- A module without data section does not count data segments. -/
def DataModule.CountMatches (module_ : DataModule) : Prop :=
  module_.dataSection = none →
    module_.countedDataSegments = numDataSegmentsUnset ∨ module_.countedDataSegments = 0

/-- At every address the first and the last of the segments that cover it have the same
byte. -/
def DataModule.AgreeOnOverlaps (module_ : DataModule) : Prop :=
  ∀ a, ((module_.segments.map DataSegment.write).filterMap (RangeWrite.byteAt · a)).head? =
    ((module_.segments.map DataSegment.write).filterMap (RangeWrite.byteAt · a)).getLast?

/-- Applying the segments backwards gives the same memory exactly when they agree where they
overlap. -/
theorem DataModule.reverse_eq_initialMemory_iff (module_ : DataModule) :
    RangeWrite.overwriteAll (fun _ => 0) (module_.segments.map DataSegment.write).reverse =
      module_.initialMemory ↔
      module_.AgreeOnOverlaps := by
  rw [funext_iff]
  refine forall_congr' fun a => ?_
  rw [RangeWrite.overwriteAll_reverse_eq, DataModule.initialMemory, RangeWrite.overwriteAll_eq]
  generalize (module_.segments.map DataSegment.write).filterMap (RangeWrite.byteAt · a) = covering
  cases covering with
  | nil => simp
  | cons b bs => simp [List.getLast?_cons]

/-- With a data section the initialisation applies the segments backwards. -/
theorem initializeDataSegments_eq {module_ : DataModule} {segments : List DataSegment}
    (hsection : module_.dataSection = some segments) {before binary : List UInt8}
    (h : parseDataSection module_ before = .ok binary) (env : MemoryEnvironment) :
    (∃ state, initializeDataSegments env module_.initialLinMemSizeInPages binary = .ok state ∧
        state.memory.contents = RangeWrite.overwriteAll (fun _ => 0)
          (module_.segments.map DataSegment.write).reverse) ∨
      (initializeDataSegments env module_.initialLinMemSizeInPages binary =
        .error .couldNotExtendLinearMemory ∧ ∃ n, env.ensureCapacityForLinearSize n = false) := by
  simp only [parseDataSection, hsection] at h
  split at h
  · simp at h
  · obtain ⟨output, hparse, hcount⟩ := exists_of_bind_ok h
    have hlength := parseDataSegments_length hparse
    have hbound : output.length + 4 ≤ uint32Max := by
      simp only [memWriterWrite32, memWriterAppend, length_bytesLE] at hcount
      split at hcount
      · simp at hcount
      · omega
    simp only [uint32Max] at hbound
    -- the number of segments fits, and is not the value for an unknown number
    have hnum : (UInt32.ofNat segments.length).toNat = segments.length := by
      rw [UInt32.toNat_ofNat']
      omega
    have hne : UInt32.ofNat segments.length ≠ numDataSegmentsUnset := by
      intro heq
      have := congrArg UInt32.toNat heq
      simp only [hnum, numDataSegmentsUnset, UInt32.reduceToNat] at this
      omega
    rw [if_neg hne] at hcount
    obtain rfl := memWriterWrite32_ok hcount
    have hrun := @applyDataSegments_parse env module_ segments before output hparse
      { memory := ⟨env.undefinedBytes, 0⟩, maximumDataOffset := 0 } (Nat.zero_le _)
    have hzero : (⟨env.undefinedBytes, 0⟩ : LinearMemory).contents = fun _ => 0 := by
      funext a
      simp [LinearMemory.contents]
    have hread : initializeDataSegments env module_.initialLinMemSizeInPages
        (output ++ bytesLE 4 (UInt32.ofNat segments.length).toNat) =
        applyDataSegments env module_.initialLinMemSizeInPages segments.length output
          { memory := ⟨env.undefinedBytes, 0⟩, maximumDataOffset := 0 } := by
      rw [initializeDataSegments, readNextValue32_append]
      simp only [bind, Except.bind, hnum]
    have hsegments : module_.segments = segments := by
      simp [DataModule.segments, hsection]
    rw [hread, hsegments, ← hzero]
    exact hrun

/-- Two segments next to each other. -/
def adjacentSegments : DataModule where
  hasMemory := true
  memoryInitialSize := 1
  dataCount := some 2
  dataSection := some
    [⟨.active, .i32Const 0 true, [1], by decide⟩, ⟨.active, .i32Const 1 true, [2], by decide⟩]

/-- Two segments for the same address. -/
def overlappingSegments : DataModule where
  hasMemory := true
  memoryInitialSize := 1
  dataCount := none
  dataSection := some
    [⟨.active, .i32Const 0 true, [1], by decide⟩, ⟨.active, .i32Const 0 true, [2], by decide⟩]

end WasmCompiler
