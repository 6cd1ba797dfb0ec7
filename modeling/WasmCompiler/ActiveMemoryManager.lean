import WasmCompiler.BinaryImage

/-!
# The Active Memory Manager

`ActiveMemoryManager` keeps the job memory of a module in one block of the embedder's
allocator: the basedata, and behind it the linear memory. The allowed size is what the module
may use, the usable size what has been filled with zeros so far; the block is made larger when
an offset is probed.

The embedder's `ReallocFnc` is a parameter of every operation. What it does with a request is
its own matter, so it may be another function at every call.

## Main results

* `probe_spec`, `shrink_spec`: what the operations do to the sizes.
* `probe_reads`, `shrink_reads`: what they do to the bytes of the block.
-/

namespace WasmCompiler

/-! ### Extendable memory -/

/-- What the blocks of the embedder's allocator hold, by block and offset. -/
abbrev Heap : Type := ℕ → ℕ → UInt8

/-- `ExtendableMemory`: a block, if there is one, and the size it has. -/
structure ExtendableMemory where
  data : Option ℕ := none
  size : UInt32 := 0
  hasExtensionRequest : Bool
  deriving DecidableEq, Repr

/-- What a `ReallocFnc` does when at least so many bytes are requested: the contents of the
blocks, and the block and the size that `ExtendableMemory::reset` is called with. -/
abbrev ReallocFnc : Type := Heap → ExtendableMemory → UInt32 → Heap × Option ℕ × UInt32

/-- The function copies what is in both the old and the new block. -/
def PreservesPrefix (realloc : ReallocFnc) : Prop :=
  ∀ heap memory minimumLength p p', memory.data = some p →
    (realloc heap memory minimumLength).2.1 = some p' →
    ∀ a < memory.size.toNat, a < (realloc heap memory minimumLength).2.2.toNat →
      (realloc heap memory minimumLength).1 p' a = heap p a

/-- A request that does not get the bytes leaves everything as it is. -/
def RefusesSafely (realloc : ReallocFnc) : Prop :=
  ∀ heap memory minimumLength,
    ((realloc heap memory minimumLength).2.1.isSome = true ∧
      minimumLength ≤ (realloc heap memory minimumLength).2.2) ∨
    realloc heap memory minimumLength = (heap, memory.data, memory.size)

/-- `IMemoryManager::ProbeResult`. -/
inductive ProbeResult where
  | ok
  | allocationFailure
  | outOfBounds
  deriving DecidableEq, Repr

/-- `WasmConstants::wasmPageSize`. -/
def wasmPageSize : ℕ := 65536

/-! ### The manager -/

/-- The fields of the manager, with the blocks it works on. -/
structure ActiveMemoryManager where
  heap : Heap
  jobMemory : ExtendableMemory
  basedataStart : Option ℕ := none
  basedataSize : UInt32 := 0
  allowedLinMemPages : UInt32 := 0
  usableLinMemBytes : UInt32 := 0
  maxDesiredRamOnMemoryExtendFailed : ℕ := 0

namespace ActiveMemoryManager

/-- The constructor. -/
def new (heap : Heap) (hasExtensionRequest : Bool) : ActiveMemoryManager where
  heap
  jobMemory := { hasExtensionRequest }

/-- `ExtendableMemory::extensionRequest`. -/
def extensionRequest (realloc : ReallocFnc) (m : ActiveMemoryManager) (minimumLength : UInt32) :
    ActiveMemoryManager :=
  let (heap, data, size) := realloc m.heap m.jobMemory minimumLength
  { m with heap, jobMemory := { m.jobMemory with data, size } }

/-- Point to the current block. -/
def syncBasedataStart (m : ActiveMemoryManager) : ActiveMemoryManager :=
  { m with basedataStart := m.jobMemory.data }

/-- The size to request: the sizes of blocks are even. -/
def roundedRequiredSize (requiredTotalSize : ℕ) : UInt32 :=
  UInt32.ofNat (if requiredTotalSize % 2 ≠ 0 then requiredTotalSize + 1 else requiredTotalSize)

/-- Make the block large enough for the basedata and so many bytes. -/
def ensureCapacityForLinearSize (realloc : ReallocFnc) (m : ActiveMemoryManager)
    (requiredLinearBytes : UInt32) : Bool × ActiveMemoryManager :=
  let requiredTotalSize := m.basedataSize.toNat + requiredLinearBytes.toNat
  if requiredTotalSize > uint32Max then
    (false, { m with maxDesiredRamOnMemoryExtendFailed := requiredTotalSize })
  else if requiredTotalSize % 2 ≠ 0 ∧ requiredTotalSize = uint32Max then
    (false, { m with maxDesiredRamOnMemoryExtendFailed := uint32Max + 1 })
  else
    let roundedRequiredSize := roundedRequiredSize requiredTotalSize
    if roundedRequiredSize ≤ m.jobMemory.size then (true, m)
    else if !m.jobMemory.hasExtensionRequest then
      (false, { m with maxDesiredRamOnMemoryExtendFailed := roundedRequiredSize.toNat })
    else
      let m := m.extensionRequest realloc roundedRequiredSize
      if m.jobMemory.data.isSome ∧ roundedRequiredSize ≤ m.jobMemory.size then
        (true, m.syncBasedataStart)
      else (false, { m with maxDesiredRamOnMemoryExtendFailed := roundedRequiredSize.toNat })

/-- Fill a part of the current block with zeros. -/
def memsetZero (m : ActiveMemoryManager) (start stop : ℕ) : ActiveMemoryManager :=
  match m.jobMemory.data with
  | some p =>
      { m with
        heap := Function.update m.heap p fun a => if start ≤ a ∧ a < stop then 0 else m.heap p a }
  | none => m

/-- Make a part of the linear memory usable; what is newly usable is zero. -/
def ensureLinearSize (realloc : ReallocFnc) (m : ActiveMemoryManager)
    (requiredLinearBytes : UInt32) : Bool × ActiveMemoryManager :=
  if requiredLinearBytes ≤ m.usableLinMemBytes then (true, m)
  else
    match m.ensureCapacityForLinearSize realloc requiredLinearBytes with
    | (false, m) => (false, m)
    | (true, m) =>
        if m.jobMemory.data.isNone then (false, m)
        else
          (true, { m.memsetZero (m.basedataSize.toNat + m.usableLinMemBytes.toNat)
              (m.basedataSize.toNat + requiredLinearBytes.toNat) with
            usableLinMemBytes := requiredLinearBytes })

/-- Set up the memory for a module; `false` stands for the error it throws. -/
def init (realloc : ReallocFnc) (m : ActiveMemoryManager)
    (basedataSize initialLinMemPages : UInt32) : Bool × ActiveMemoryManager :=
  let m := { m with
    basedataSize
    allowedLinMemPages := initialLinMemPages
    usableLinMemBytes := 0
    maxDesiredRamOnMemoryExtendFailed := 0 }
  match m.ensureCapacityForLinearSize realloc 0 with
  | (false, m) => (false, m)
  | (true, m) => (true, m.syncBasedataStart)

/-- Change the allowed size. -/
def extend (m : ActiveMemoryManager) (newTotalLinMemPages : UInt32) : ActiveMemoryManager :=
  { m with allowedLinMemPages := newTotalLinMemPages }

/-- Make the usable size smaller, and the block if it can be. -/
def shrink (realloc : ReallocFnc) (m : ActiveMemoryManager) (minimumLength : UInt32) :
    Bool × ActiveMemoryManager :=
  if !m.jobMemory.hasExtensionRequest then (true, m)
  else if m.usableLinMemBytes < minimumLength then (false, m)
  else
    let requestedTotalSize := m.basedataSize.toNat + minimumLength.toNat
    if requestedTotalSize > uint32Max then (false, m)
    else if requestedTotalSize % 2 ≠ 0 ∧ requestedTotalSize = uint32Max then (false, m)
    else
      let roundedRequiredSize := roundedRequiredSize requestedTotalSize
      if roundedRequiredSize < m.jobMemory.size then
        let m := m.extensionRequest realloc roundedRequiredSize
        if m.jobMemory.data.isNone ∨ m.jobMemory.size < roundedRequiredSize then (false, m)
        else (true, { m.syncBasedataStart with usableLinMemBytes := minimumLength })
      else (true, { m with usableLinMemBytes := minimumLength })

/-- Make an offset usable. The size that includes the offset is computed with 32 bits. -/
def probe (realloc : ReallocFnc) (m : ActiveMemoryManager) (linMemOffset : UInt32) :
    ProbeResult × ActiveMemoryManager :=
  if linMemOffset < m.usableLinMemBytes then (.ok, m)
  else if m.allowedLinMemPages.toNat * wasmPageSize ≤ linMemOffset.toNat then (.outOfBounds, m)
  else
    match m.ensureLinearSize realloc (linMemOffset + 1) with
    | (false, m) => (.allocationFailure, m)
    | (true, m) => (.ok, m)

/-! ### Sizes -/

variable {realloc : ReallocFnc} {m : ActiveMemoryManager}

/-- The operations on the block leave the sizes of the linear memory. -/
structure SameSizes (m m' : ActiveMemoryManager) : Prop where
  basedataSize : m'.basedataSize = m.basedataSize
  allowedLinMemPages : m'.allowedLinMemPages = m.allowedLinMemPages
  usableLinMemBytes : m'.usableLinMemBytes = m.usableLinMemBytes
  hasExtensionRequest : m'.jobMemory.hasExtensionRequest = m.jobMemory.hasExtensionRequest

/-- The size that is requested is not smaller than what is needed. -/
theorem le_rounded {total : ℕ} (hle : ¬ total > uint32Max)
    (hodd : ¬ (total % 2 ≠ 0 ∧ total = uint32Max)) :
    total ≤ (roundedRequiredSize total).toNat := by
  simp only [uint32Max] at hle hodd
  rw [roundedRequiredSize, UInt32.toNat_ofNat']
  split <;> omega

/-- **Capacity**: the sizes are kept, and if it succeeds the block is large enough. -/
theorem ensureCapacityForLinearSize_spec (realloc : ReallocFnc) (requiredLinearBytes : UInt32) :
    SameSizes m (m.ensureCapacityForLinearSize realloc requiredLinearBytes).2 ∧
      ((m.ensureCapacityForLinearSize realloc requiredLinearBytes).1 = true →
        m.basedataSize.toNat + requiredLinearBytes.toNat ≤
          (m.ensureCapacityForLinearSize realloc requiredLinearBytes).2.jobMemory.size.toNat) := by
  simp only [ensureCapacityForLinearSize]
  split
  · exact ⟨⟨rfl, rfl, rfl, rfl⟩, by simp⟩
  · case _ hle =>
      split
      · exact ⟨⟨rfl, rfl, rfl, rfl⟩, by simp⟩
      · case _ hodd =>
          have hrounded := le_rounded hle hodd
          split
          · case _ hsize =>
              have hsize' := UInt32.le_iff_toNat_le.mp hsize
              exact ⟨⟨rfl, rfl, rfl, rfl⟩, fun _ => by simp only; omega⟩
          · split
            · exact ⟨⟨rfl, rfl, rfl, rfl⟩, by simp⟩
            · split
              · case _ hsuccess =>
                  have hsize' := UInt32.le_iff_toNat_le.mp hsuccess.2
                  exact ⟨⟨rfl, rfl, rfl, rfl⟩, fun _ => by
                    simp only [syncBasedataStart]
                    omega⟩
              · exact ⟨⟨rfl, rfl, rfl, rfl⟩, by simp⟩

/-- Filling with zeros leaves the sizes. -/
theorem memsetZero_sameSizes (start stop : ℕ) : SameSizes m (m.memsetZero start stop) := by
  rw [memsetZero]
  split <;> exact ⟨rfl, rfl, rfl, rfl⟩

/-- Making bytes usable: if it succeeds at least so many are usable, and otherwise nothing
changes. -/
theorem ensureLinearSize_spec (realloc : ReallocFnc) (requiredLinearBytes : UInt32) :
    (m.ensureLinearSize realloc requiredLinearBytes).2.basedataSize = m.basedataSize ∧
      (m.ensureLinearSize realloc requiredLinearBytes).2.allowedLinMemPages =
        m.allowedLinMemPages ∧
      (m.ensureLinearSize realloc requiredLinearBytes).2.usableLinMemBytes.toNat =
        if (m.ensureLinearSize realloc requiredLinearBytes).1 = true
        then max m.usableLinMemBytes.toNat requiredLinearBytes.toNat
        else m.usableLinMemBytes.toNat := by
  rw [ensureLinearSize]
  split
  · case _ hle => simp [max_eq_left (UInt32.le_iff_toNat_le.mp hle)]
  · case _ hlt =>
      have hmax : max m.usableLinMemBytes.toNat requiredLinearBytes.toNat =
          requiredLinearBytes.toNat :=
        max_eq_right (UInt32.lt_iff_toNat_lt.mp (UInt32.not_le.mp hlt)).le
      obtain ⟨hsizes, -⟩ := m.ensureCapacityForLinearSize_spec realloc
        requiredLinearBytes
      split
      · case _ m' heq =>
          rw [heq] at hsizes
          exact ⟨hsizes.1, hsizes.2, congrArg UInt32.toNat hsizes.3⟩
      · case _ m' heq =>
          rw [heq] at hsizes
          split
          · exact ⟨hsizes.1, hsizes.2, congrArg UInt32.toNat hsizes.3⟩
          · have hzero := memsetZero_sameSizes (m := m')
              (m'.basedataSize.toNat + m'.usableLinMemBytes.toNat)
              (m'.basedataSize.toNat + requiredLinearBytes.toNat)
            exact ⟨hzero.1.trans hsizes.1, hzero.2.trans hsizes.2, by simp [hmax]⟩

/-- **Probing and the sizes**: an offset below the allowed size makes the bytes up to the
32-bit sum of it and one usable, or none. -/
theorem probe_spec (realloc : ReallocFnc) (linMemOffset : UInt32) :
    (m.probe realloc linMemOffset).2.basedataSize = m.basedataSize ∧
      (m.probe realloc linMemOffset).2.allowedLinMemPages = m.allowedLinMemPages ∧
      match (m.probe realloc linMemOffset).1 with
      | .ok =>
          linMemOffset < m.usableLinMemBytes ∧ (m.probe realloc linMemOffset).2 = m ∨
          linMemOffset.toNat < m.allowedLinMemPages.toNat * wasmPageSize ∧
            (m.probe realloc linMemOffset).2.usableLinMemBytes.toNat =
              max m.usableLinMemBytes.toNat (linMemOffset + 1).toNat
      | .allocationFailure =>
          (m.probe realloc linMemOffset).2.usableLinMemBytes.toNat = m.usableLinMemBytes.toNat
      | .outOfBounds =>
          (m.probe realloc linMemOffset).2 = m ∧
            m.allowedLinMemPages.toNat * wasmPageSize ≤ linMemOffset.toNat := by
  rw [probe]
  split
  · case _ hlt => exact ⟨rfl, rfl, .inl ⟨hlt, rfl⟩⟩
  · split
    · case _ hallowed => exact ⟨rfl, rfl, rfl, hallowed⟩
    · case _ hallowed =>
        have hsizes := m.ensureLinearSize_spec realloc (linMemOffset + 1)
        split
        · case _ m' heq =>
            simp only [heq, Bool.false_eq_true, if_false] at hsizes
            exact ⟨hsizes.1, hsizes.2.1, hsizes.2.2⟩
        · case _ m' heq =>
            simp only [heq, if_true] at hsizes
            exact ⟨hsizes.1, hsizes.2.1, .inr ⟨Nat.lt_of_not_le hallowed, hsizes.2.2⟩⟩

/-- **Shrinking and the sizes**: the usable size is not made larger. -/
theorem shrink_spec (realloc : ReallocFnc) (minimumLength : UInt32) :
    (m.shrink realloc minimumLength).2.allowedLinMemPages = m.allowedLinMemPages ∧
      (m.shrink realloc minimumLength).2.usableLinMemBytes.toNat ≤
        m.usableLinMemBytes.toNat := by
  simp only [shrink]
  split
  · exact ⟨rfl, le_refl _⟩
  · split
    · exact ⟨rfl, le_refl _⟩
    · case _ hle =>
        split
        · exact ⟨rfl, le_refl _⟩
        · split
          · exact ⟨rfl, le_refl _⟩
          · split
            · split
              · exact ⟨rfl, le_refl _⟩
              · exact ⟨rfl, UInt32.le_iff_toNat_le.mp (UInt32.not_lt.mp hle)⟩
            · exact ⟨rfl, UInt32.le_iff_toNat_le.mp (UInt32.not_lt.mp hle)⟩

/-- Setting up sets the sizes, also if it fails. -/
theorem init_sizes (realloc : ReallocFnc) (basedataSize initialLinMemPages : UInt32) :
    (m.init realloc basedataSize initialLinMemPages).2.basedataSize = basedataSize ∧
      (m.init realloc basedataSize initialLinMemPages).2.allowedLinMemPages =
        initialLinMemPages ∧
      (m.init realloc basedataSize initialLinMemPages).2.usableLinMemBytes = 0 := by
  obtain ⟨hsizes, -⟩ := ensureCapacityForLinearSize_spec (m := { m with
      basedataSize
      allowedLinMemPages := initialLinMemPages
      usableLinMemBytes := 0
      maxDesiredRamOnMemoryExtendFailed := 0 }) realloc 0
  rw [init]
  split
  · case _ heq =>
      rw [heq] at hsizes
      exact ⟨hsizes.1, hsizes.2, hsizes.3⟩
  · case _ heq =>
      rw [heq] at hsizes
      exact ⟨hsizes.1, hsizes.2, hsizes.3⟩

/-- Whether there is an allocator does not change when bytes are made usable. -/
theorem ensureLinearSize_hasExtensionRequest (realloc : ReallocFnc)
    (requiredLinearBytes : UInt32) :
    (m.ensureLinearSize realloc requiredLinearBytes).2.jobMemory.hasExtensionRequest =
      m.jobMemory.hasExtensionRequest := by
  rw [ensureLinearSize]
  split
  · rfl
  · obtain ⟨hsizes, -⟩ := m.ensureCapacityForLinearSize_spec realloc requiredLinearBytes
    split
    · case _ heq =>
        rw [heq] at hsizes
        exact hsizes.4
    · case _ m' heq =>
        rw [heq] at hsizes
        split
        · exact hsizes.4
        · exact (memsetZero_sameSizes (m := m') _ _).4.trans hsizes.4

/-- Whether there is an allocator does not change when an offset is probed. -/
theorem probe_hasExtensionRequest (linMemOffset : UInt32) :
    (m.probe realloc linMemOffset).2.jobMemory.hasExtensionRequest =
      m.jobMemory.hasExtensionRequest := by
  rw [probe]
  split
  · rfl
  · split
    · rfl
    · have hsame := m.ensureLinearSize_hasExtensionRequest realloc (linMemOffset + 1)
      split <;> · case _ heq => rwa [heq] at hsame

/-- Whether there is an allocator does not change when the memory is shrunk. -/
theorem shrink_hasExtensionRequest (minimumLength : UInt32) :
    (m.shrink realloc minimumLength).2.jobMemory.hasExtensionRequest =
      m.jobMemory.hasExtensionRequest := by
  simp only [shrink]
  split_ifs <;> rfl

/-- Whether there is an allocator does not change when the memory is set up. -/
theorem init_hasExtensionRequest (basedataSize initialLinMemPages : UInt32) :
    (m.init realloc basedataSize initialLinMemPages).2.jobMemory.hasExtensionRequest =
      m.jobMemory.hasExtensionRequest := by
  obtain ⟨hsizes, -⟩ := ensureCapacityForLinearSize_spec (m := { m with
      basedataSize
      allowedLinMemPages := initialLinMemPages
      usableLinMemBytes := 0
      maxDesiredRamOnMemoryExtendFailed := 0 }) realloc 0
  rw [init]
  split <;>
    · case _ heq =>
        rw [heq] at hsizes
        exact hsizes.4

/-! ### Bytes -/

/-- The byte at an offset from the start of the basedata, if there is one. A start that is
not the start of the current block points to freed memory. -/
def read (m : ActiveMemoryManager) (offset : ℕ) : Option UInt8 :=
  if m.basedataStart = m.jobMemory.data ∧ offset < m.jobMemory.size.toNat then
    m.jobMemory.data.map fun p => m.heap p offset
  else none

/-- The start of the basedata is the start of the current block. -/
def Synced (m : ActiveMemoryManager) : Prop :=
  m.basedataStart = m.jobMemory.data

/-- A byte that can be read is in the block. -/
theorem read_eq_some_iff {offset : ℕ} {v : UInt8} :
    m.read offset = some v ↔
      ∃ p, m.basedataStart = some p ∧ m.jobMemory.data = some p ∧
        offset < m.jobMemory.size.toNat ∧ m.heap p offset = v := by
  rw [read]
  constructor
  · intro h
    split at h
    · case _ hin =>
        obtain ⟨p, hp, hv⟩ := Option.map_eq_some_iff.mp h
        exact ⟨p, hin.1.trans hp, hp, hin.2, hv⟩
    · simp at h
  · rintro ⟨p, hstart, hdata, hlt, hv⟩
    rw [if_pos ⟨hstart.trans hdata.symm, hlt⟩, hdata, ← hv]
    rfl

/-- The bytes below an offset are the same. -/
def KeepsBelow (bound : ℕ) (m m' : ActiveMemoryManager) : Prop :=
  ∀ offset < bound, ∀ v, m.read offset = some v → m'.read offset = some v

/-- A request that gets a block keeps the bytes that are in both blocks. -/
theorem extensionRequest_keepsBelow (hcopies : PreservesPrefix realloc) (minimumLength : UInt32)
    (hdata : (m.extensionRequest realloc minimumLength).jobMemory.data.isSome = true) :
    KeepsBelow (m.extensionRequest realloc minimumLength).jobMemory.size.toNat m
      (m.extensionRequest realloc minimumLength).syncBasedataStart := by
  intro offset hlt v hread
  obtain ⟨p, -, hp, hold, hv⟩ := read_eq_some_iff.mp hread
  obtain ⟨p', hp'⟩ := Option.isSome_iff_exists.mp hdata
  refine read_eq_some_iff.mpr ⟨p', hp', hp', hlt, ?_⟩
  rw [← hv]
  exact hcopies m.heap m.jobMemory minimumLength p p' hp hp' offset hold hlt

/-- A request is refused, or it gets the bytes. -/
theorem extensionRequest_cases (hrefuses : RefusesSafely realloc) (minimumLength : UInt32) :
    ((m.extensionRequest realloc minimumLength).jobMemory.data.isSome = true ∧
      minimumLength ≤ (m.extensionRequest realloc minimumLength).jobMemory.size) ∨
    m.extensionRequest realloc minimumLength = m := by
  obtain h | h := hrefuses m.heap m.jobMemory minimumLength
  · exact .inl h
  · refine .inr ?_
    rw [extensionRequest, h]

/-- **Capacity and the bytes**: all bytes are kept. -/
theorem ensureCapacityForLinearSize_reads (hcopies : PreservesPrefix realloc)
    (hrefuses : RefusesSafely realloc) (hsynced : m.Synced) (requiredLinearBytes : UInt32) :
    (m.ensureCapacityForLinearSize realloc requiredLinearBytes).2.Synced ∧
      ∀ bound,
        KeepsBelow bound m (m.ensureCapacityForLinearSize realloc requiredLinearBytes).2 := by
  simp only [ensureCapacityForLinearSize]
  split
  · exact ⟨hsynced, fun _ _ _ _ h => h⟩
  · split
    · exact ⟨hsynced, fun _ _ _ _ h => h⟩
    · split
      · exact ⟨hsynced, fun _ _ _ _ h => h⟩
      · case _ hsize =>
          split
          · exact ⟨hsynced, fun _ _ _ _ h => h⟩
          · split
            · case _ hsuccess =>
                refine ⟨rfl, fun _ offset _ v hread => ?_⟩
                obtain ⟨_, -, -, hlt, -⟩ := read_eq_some_iff.mp hread
                have hnew := UInt32.le_iff_toNat_le.mp hsuccess.2
                have hold := UInt32.lt_iff_toNat_lt.mp (UInt32.not_le.mp hsize)
                exact extensionRequest_keepsBelow hcopies _ hsuccess.1 offset (by omega) v hread
            · case _ hfailed =>
                obtain h | h := extensionRequest_cases (m := m) hrefuses
                  (roundedRequiredSize (m.basedataSize.toNat + requiredLinearBytes.toNat))
                · exact absurd h hfailed
                · rw [h]
                  exact ⟨hsynced, fun _ _ _ _ h => h⟩

/-- What can be read after a part has been filled with zeros. -/
theorem read_memsetZero (start stop offset : ℕ) :
    (m.memsetZero start stop).read offset =
      if start ≤ offset ∧ offset < stop then (m.read offset).map fun _ => 0
      else m.read offset := by
  rw [memsetZero]
  split
  · case _ p hdata =>
      simp only [read, hdata]
      by_cases hin : m.basedataStart = some p ∧ offset < m.jobMemory.size.toNat
      · simp only [hin, and_self, if_true, Option.map_some, Function.update_self]
        split <;> rfl
      · simp only [if_neg hin, Option.map_none, ite_self]
  · case _ hdata => simp [read, hdata]

/-- Filling with zeros leaves the block. -/
theorem memsetZero_block (start stop : ℕ) :
    (m.memsetZero start stop).basedataStart = m.basedataStart ∧
      (m.memsetZero start stop).jobMemory = m.jobMemory := by
  rw [memsetZero]
  split <;> exact ⟨rfl, rfl⟩

/-- **Making bytes usable and the bytes**: the usable bytes are kept, and the bytes made
usable are zero. -/
theorem ensureLinearSize_reads (hcopies : PreservesPrefix realloc)
    (hrefuses : RefusesSafely realloc) (hsynced : m.Synced) (requiredLinearBytes : UInt32) :
    (m.ensureLinearSize realloc requiredLinearBytes).2.Synced ∧
      KeepsBelow (m.basedataSize.toNat + m.usableLinMemBytes.toNat) m
        (m.ensureLinearSize realloc requiredLinearBytes).2 ∧
      ((m.ensureLinearSize realloc requiredLinearBytes).1 = true →
        ∀ a < requiredLinearBytes.toNat, m.usableLinMemBytes.toNat ≤ a →
          (m.ensureLinearSize realloc requiredLinearBytes).2.read (m.basedataSize.toNat + a) =
            some 0) := by
  rw [ensureLinearSize]
  split
  · case _ hle =>
      refine ⟨hsynced, fun _ _ _ h => h, fun _ a hlt hge => ?_⟩
      have hle' := UInt32.le_iff_toNat_le.mp hle
      omega
  · obtain ⟨hsizes, hcapacity⟩ := m.ensureCapacityForLinearSize_spec realloc
      requiredLinearBytes
    obtain ⟨hsynced', hkeeps⟩ := ensureCapacityForLinearSize_reads hcopies hrefuses hsynced
      requiredLinearBytes
    split
    · case _ m' heq =>
        rw [heq] at hsynced' hkeeps
        exact ⟨hsynced', hkeeps _, by simp⟩
    · case _ m' heq =>
        rw [heq] at hsizes hcapacity hsynced' hkeeps
        split
        · exact ⟨hsynced', hkeeps _, by simp⟩
        · case _ hdata =>
            obtain ⟨hstart, hjob⟩ := memsetZero_block (m := m')
              (m'.basedataSize.toNat + m'.usableLinMemBytes.toNat)
              (m'.basedataSize.toNat + requiredLinearBytes.toNat)
            refine ⟨?_, fun offset hlt v hread => ?_, fun _ a hlt hge => ?_⟩
            · rw [Synced] at hsynced' ⊢
              rw [hstart, hjob]
              exact hsynced'
            · change (m'.memsetZero _ _).read offset = some v
              rw [read_memsetZero, hsizes.1, hsizes.3, if_neg (by omega)]
              exact hkeeps _ offset hlt v hread
            · change (m'.memsetZero _ _).read _ = some 0
              rw [Option.isNone_iff_eq_none] at hdata
              obtain ⟨p, hp⟩ := Option.ne_none_iff_exists'.mp hdata
              have hread : m'.read (m.basedataSize.toNat + a) =
                  some (m'.heap p (m.basedataSize.toNat + a)) := by
                refine read_eq_some_iff.mpr ⟨p, hsynced'.trans hp, hp, ?_, rfl⟩
                exact Nat.lt_of_lt_of_le (by omega) (hcapacity rfl)
              rw [read_memsetZero, hsizes.1, hsizes.3, if_pos (by omega), hread]
              rfl

/-- **Probing and the bytes**: the usable bytes are kept, and the bytes made usable are
zero. -/
theorem probe_reads (hcopies : PreservesPrefix realloc) (hrefuses : RefusesSafely realloc)
    (hsynced : m.Synced) (linMemOffset : UInt32) :
    (m.probe realloc linMemOffset).2.Synced ∧
      KeepsBelow (m.basedataSize.toNat + m.usableLinMemBytes.toNat) m
        (m.probe realloc linMemOffset).2 ∧
      ((m.probe realloc linMemOffset).1 = .ok →
        ∀ a < (linMemOffset + 1).toNat, m.usableLinMemBytes.toNat ≤ a →
          (m.probe realloc linMemOffset).2.read (m.basedataSize.toNat + a) = some 0) := by
  rw [probe]
  split
  · case _ hlt =>
      refine ⟨hsynced, fun _ _ _ h => h, fun _ a hlt' hge => ?_⟩
      rw [UInt32.lt_iff_toNat_lt] at hlt
      rw [UInt32.toNat_add] at hlt'
      have hone : (1 : UInt32).toNat = 1 := rfl
      omega
  · split
    · exact ⟨hsynced, fun _ _ _ h => h, by simp⟩
    · obtain ⟨hsynced', hkeeps, hzero⟩ := ensureLinearSize_reads hcopies hrefuses hsynced
        (linMemOffset + 1)
      split
      · case _ m' heq =>
          rw [heq] at hsynced' hkeeps
          exact ⟨hsynced', hkeeps, by simp⟩
      · case _ m' heq =>
          rw [heq] at hsynced' hkeeps hzero
          exact ⟨hsynced', hkeeps, fun _ => hzero rfl⟩

/-- **Shrinking and the bytes**: a failed shrink changes nothing; one that succeeds keeps the
bytes below the new size, which becomes the usable size if there is an allocator. -/
theorem shrink_reads (hcopies : PreservesPrefix realloc) (hrefuses : RefusesSafely realloc)
    (hsynced : m.Synced) (minimumLength : UInt32) :
    ((m.shrink realloc minimumLength).1 = false → (m.shrink realloc minimumLength).2 = m) ∧
      (m.shrink realloc minimumLength).2.Synced ∧
      (m.shrink realloc minimumLength).2.basedataSize = m.basedataSize ∧
      KeepsBelow (m.basedataSize.toNat + minimumLength.toNat) m
        (m.shrink realloc minimumLength).2 ∧
      ((m.shrink realloc minimumLength).1 = true →
        m.jobMemory.hasExtensionRequest = true →
        minimumLength.toNat ≤ m.usableLinMemBytes.toNat ∧
          (m.shrink realloc minimumLength).2.usableLinMemBytes = minimumLength) := by
  simp only [shrink]
  split
  · case _ hno =>
      refine ⟨fun _ => rfl, hsynced, rfl, fun _ _ _ h => h, fun _ hyes => ?_⟩
      rw [hyes] at hno
      simp at hno
  · split
    · exact ⟨fun _ => rfl, hsynced, rfl, fun _ _ _ h => h, by simp⟩
    · case _ hle =>
        have hle' := UInt32.le_iff_toNat_le.mp (UInt32.not_lt.mp hle)
        split
        · exact ⟨fun _ => rfl, hsynced, rfl, fun _ _ _ h => h, by simp⟩
        · case _ htotal =>
            split
            · exact ⟨fun _ => rfl, hsynced, rfl, fun _ _ _ h => h, by simp⟩
            · case _ hodd =>
                split
                · split
                  · case _ hfailed =>
                      obtain ⟨hdata, hsize⟩ | h := extensionRequest_cases (m := m) hrefuses
                        (roundedRequiredSize (m.basedataSize.toNat + minimumLength.toNat))
                      · obtain hnone | hsmall := hfailed
                        · simp [Option.isNone_iff_eq_none.mp hnone] at hdata
                        · exact absurd hsize (UInt32.not_le.mpr hsmall)
                      · rw [h]
                        exact ⟨fun _ => rfl, hsynced, rfl, fun _ _ _ h => h, by simp⟩
                  · case _ hgot =>
                      rw [not_or, UInt32.not_lt, Option.isNone_iff_eq_none, ← ne_eq,
                        ← Option.isSome_iff_ne_none] at hgot
                      refine ⟨by simp, rfl, rfl, fun offset hlt v hread => ?_,
                        fun _ _ => ⟨hle', rfl⟩⟩
                      have hnew := UInt32.le_iff_toNat_le.mp hgot.2
                      have hrounded := le_rounded htotal hodd
                      exact extensionRequest_keepsBelow hcopies _ hgot.1 offset (by omega) v hread
                · exact ⟨by simp, hsynced, rfl, fun _ _ _ h => h, fun _ _ => ⟨hle', rfl⟩⟩

/-- **Setting up and the bytes**: all bytes are kept, also if it fails. -/
theorem init_reads (hcopies : PreservesPrefix realloc) (hrefuses : RefusesSafely realloc)
    (hsynced : m.Synced) (basedataSize initialLinMemPages : UInt32) :
    (m.init realloc basedataSize initialLinMemPages).2.Synced ∧
      ∀ bound, KeepsBelow bound m (m.init realloc basedataSize initialLinMemPages).2 := by
  have hsynced' : Synced { m with
      basedataSize
      allowedLinMemPages := initialLinMemPages
      usableLinMemBytes := 0
      maxDesiredRamOnMemoryExtendFailed := 0 } := hsynced
  obtain ⟨hsynced'', hkeeps⟩ := ensureCapacityForLinearSize_reads hcopies hrefuses hsynced' 0
  rw [init]
  split
  · case _ m' heq =>
      rw [heq] at hsynced'' hkeeps
      exact ⟨hsynced'', hkeeps⟩
  · case _ m' heq =>
      rw [heq] at hsynced'' hkeeps
      have hsame : m'.syncBasedataStart = m' := by
        rw [syncBasedataStart, ← hsynced'']
      rw [hsame]
      exact ⟨hsynced'', hkeeps⟩

end ActiveMemoryManager

end WasmCompiler
