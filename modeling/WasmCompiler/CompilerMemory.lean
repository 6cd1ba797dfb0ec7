import Mathlib
import WasmCompiler.BinaryImage

/-!
# The Memory of a Compiler Object

A compiler object writes its output, its debug map and its internal data through
`MemWriter`s, each of which owns a region (`ExtendableMemory`, here `WriterMemory`) that a
host function enlarges on request. At the end of a compilation the region of the output is
moved into the binary that is returned. The region stays referred to by the writer it was
moved from, which only loses the host function.

An operation that throws keeps what it has done to the writer so far, as `EStateM` does.

## Main results

* `MemWriter.Advances`: what every operation keeps of a writer.
* `MemWriter.write_cases`: writing at the end.
-/

namespace WasmCompiler

/-! ### Computations that may throw -/

/-- The state a computation ends in, whether it throws or not. -/
def finalState {ε σ α : Type} (x : EStateM ε σ α) (s : σ) : σ :=
  match x s with
  | .ok _ s' => s'
  | .error _ s' => s'

/-- The final state of a sequence: that of the second part, or of the first one if it
throws. -/
theorem finalState_bind {ε σ α β : Type} (x : EStateM ε σ α) (f : α → EStateM ε σ β) (s : σ) :
    finalState (x >>= f) s =
      match x s with
      | .ok a s' => finalState (f a) s'
      | .error _ s' => s' := by
  simp only [finalState, bind, EStateM.bind]
  cases x s <;> rfl

/-- What holds between the states before and after both parts holds for the sequence. -/
theorem finalState_bind_of_trans {ε σ α β : Type} {R : σ → σ → Prop} {x : EStateM ε σ α}
    {f : α → EStateM ε σ β} (htrans : ∀ a b c, R a b → R b c → R a c)
    (hx : ∀ s, R s (finalState x s)) (hf : ∀ a s, R s (finalState (f a) s)) (s : σ) :
    R s (finalState (x >>= f) s) := by
  have hx' := hx s
  rw [finalState] at hx'
  rw [finalState_bind]
  cases h : x s with
  | ok a s' =>
      rw [h] at hx'
      exact htrans _ _ _ hx' (hf a s')
  | error e s' =>
      rw [h] at hx'
      exact hx'

/-- A sequence whose first part succeeds. -/
theorem bind_of_ok {ε σ α β : Type} {x : EStateM ε σ α} {f : α → EStateM ε σ β} {s s' : σ}
    {a : α} (h : x s = .ok a s') : (x >>= f) s = f a s' := by
  simp only [bind, EStateM.bind, h]

/-- A sequence whose first part throws. -/
theorem bind_of_error {ε σ α β : Type} {x : EStateM ε σ α} {f : α → EStateM ε σ β} {s s' : σ}
    {e : ε} (h : x s = .error e s') : (x >>= f) s = .error e s' := by
  simp only [bind, EStateM.bind, h]

/-! ### Extendable memory -/

/-- The errors of a compilation; `other` stands for those that the parsers and the
validation throw. -/
inductive CompileError where
  | couldNotExtendMemory
  | maximumNumberOfBytesWritten
  | emptyInput
  | bytecodeOutOfRange
  | wrongWasmMagicNumber
  | wasmVersionNotSupported
  | branchesCanOnlyTargetOffsetsInTheRange128MB
  | other (errorCode : ℕ)
  deriving DecidableEq, Repr

/-- `ReallocFnc`: the region after a request for a minimum length, or `none` if the request
is refused, which leaves no region. -/
structure WriterReallocFnc where
  request : List UInt8 → ℕ → Option (List UInt8)
  le_length : ∀ data size data', request data size = some data' → size ≤ data'.length

/-- `ExtendableMemory`: a memory region and the host function that enlarges it. -/
structure WriterMemory where
  data : List UInt8 := []
  extensionRequestPtr : Option WriterReallocFnc := none

/-- Enlarge the region if it is shorter than `size`. -/
def WriterMemory.resize (size : ℕ) : EStateM CompileError WriterMemory Unit := do
  let memory ← get
  if size ≤ memory.data.length then
    return ()
  match memory.extensionRequestPtr with
  | none => throw .couldNotExtendMemory
  | some realloc =>
      match realloc.request memory.data size with
      | none =>
          set { memory with data := [] }
          throw .couldNotExtendMemory
      | some data => set { memory with data }

/-- The binary a compilation returns. If it owns its memory, destroying it frees the memory;
otherwise the memory is that of an earlier binary. -/
structure ManagedBinary where
  bytes : List UInt8
  ownsMemory : Bool
  deriving DecidableEq, Repr

/-! ### The memory writer -/

/-- A writer with the length of what it has written. -/
structure MemWriter where
  size : ℕ := 0
  memory : WriterMemory := {}

namespace MemWriter

/-- What has been written. -/
def contents (writer : MemWriter) : List UInt8 := writer.memory.data.take writer.size

/-- Run an operation on the region. -/
def onMemory (x : EStateM CompileError WriterMemory Unit) :
    EStateM CompileError MemWriter Unit := fun writer =>
  match x writer.memory with
  | .ok a memory => .ok a { writer with memory }
  | .error e memory => .error e { writer with memory }

/-- Change bytes of the region. Positions outside of it are not written. -/
def overwrite (data : List UInt8) (position : ℕ) (bytes : List UInt8) : List UInt8 :=
  if position + bytes.length ≤ data.length then
    data.take position ++ (bytes ++ data.drop (position + bytes.length))
  else data

/-- Change the length; the length is changed before the region is enlarged. New bytes are
zero. -/
def resize (size : ℕ) : EStateM CompileError MemWriter Unit := do
  let oldSize := (← get).size
  modify fun writer => { writer with size }
  onMemory (WriterMemory.resize size)
  modify fun writer =>
    { writer with memory :=
      { writer.memory with
        data := overwrite writer.memory.data oldSize (List.replicate (size - oldSize) 0) } }

/-- Add bytes at the end. -/
def step (bytes : ℕ) : EStateM CompileError MemWriter Unit := do
  let newLength := (← get).size + bytes
  if uint32Max < newLength then
    throw .maximumNumberOfBytesWritten
  resize newLength

/-- Change bytes that have been written. -/
def patch (position : ℕ) (bytes : List UInt8) : EStateM CompileError MemWriter Unit :=
  modify fun writer =>
    { writer with memory :=
      { writer.memory with data := overwrite writer.memory.data position bytes } }

/-- Write at the end. -/
def write (source : List UInt8) : EStateM CompileError MemWriter Unit := do
  step source.length
  patch ((← get).size - source.length) source

/-- Enlarge the region by `bytes` behind the end. -/
def reserve (bytes : ℕ) : EStateM CompileError MemWriter Unit := do
  step bytes
  resize ((← get).size - bytes)

/-- Forget what has been written. -/
def flush : EStateM CompileError MemWriter Unit :=
  resize 0

/-- Move what has been written into a binary. The moved-from region keeps its address and
length, only the host function is gone. -/
def toManagedBinary : EStateM CompileError MemWriter ManagedBinary := fun writer =>
  .ok ⟨writer.contents, writer.memory.extensionRequestPtr.isSome⟩
    { writer with memory := { writer.memory with extensionRequestPtr := none } }

/-! ### What the operations keep -/

/-- A writer that has advanced: it is not shorter, and has the same host function. -/
structure Advances (writer writer' : MemWriter) : Prop where
  size_le : writer.size ≤ writer'.size
  request : writer'.memory.extensionRequestPtr = writer.memory.extensionRequestPtr

/-- Nothing done. -/
theorem Advances.refl (writer : MemWriter) : Advances writer writer :=
  ⟨Nat.le_refl _, rfl⟩

/-- One after the other. -/
theorem Advances.trans {writer₁ writer₂ writer₃ : MemWriter} (h : Advances writer₁ writer₂)
    (h' : Advances writer₂ writer₃) : Advances writer₁ writer₃ :=
  ⟨h.size_le.trans h'.size_le, h'.request.trans h.request⟩

/-- Enlarging a region, with its results written out. -/
theorem resize_memory_eq (size : ℕ) (memory : WriterMemory) :
    WriterMemory.resize size memory =
      if size ≤ memory.data.length then .ok () memory
      else match memory.extensionRequestPtr with
        | none => .error .couldNotExtendMemory memory
        | some realloc =>
            match realloc.request memory.data size with
            | none => .error .couldNotExtendMemory { memory with data := [] }
            | some data => .ok () { memory with data } := by
  simp only [WriterMemory.resize, bind, EStateM.bind, get, getThe, MonadStateOf.get, EStateM.get]
  split
  · rfl
  · cases memory.extensionRequestPtr with
    | none => rfl
    | some realloc =>
        dsimp only
        cases realloc.request memory.data size <;> rfl

/-- Enlarging a region keeps its host function; if it succeeds, the region is long enough. -/
theorem resize_memory_cases (size : ℕ) (memory : WriterMemory) :
    (∃ data, WriterMemory.resize size memory = .ok () { memory with data } ∧
        size ≤ data.length) ∨
      ∃ data, WriterMemory.resize size memory = .error .couldNotExtendMemory { memory with data } := by
  obtain ⟨data, request⟩ := memory
  rw [resize_memory_eq]
  by_cases hsize : size ≤ data.length
  · rw [if_pos hsize]
    exact Or.inl ⟨data, rfl, hsize⟩
  · rw [if_neg hsize]
    cases request with
    | none => exact Or.inr ⟨data, rfl⟩
    | some realloc =>
        dsimp only
        cases hrequest : realloc.request data size with
        | none => exact Or.inr ⟨[], rfl⟩
        | some data => exact Or.inl ⟨data, rfl, realloc.le_length _ _ _ hrequest⟩

/-- Changing bytes keeps the length. -/
@[simp] theorem length_overwrite (data : List UInt8) (position : ℕ) (bytes : List UInt8) :
    (overwrite data position bytes).length = data.length := by
  rw [overwrite]
  split
  · simp only [List.length_append, List.length_take, List.length_drop]
    omega
  · rfl

/-- Changing no bytes. -/
@[simp] theorem overwrite_nil (data : List UInt8) (position : ℕ) :
    overwrite data position [] = data := by
  simp [overwrite]

/-- Changing the same bytes again. -/
theorem overwrite_overwrite (data : List UInt8) (position : ℕ) (bytes : List UInt8) :
    overwrite (overwrite data position bytes) position bytes = overwrite data position bytes := by
  by_cases hle : position + bytes.length ≤ data.length
  · have hlength : (data.take position).length = position := by
      rw [List.length_take]
      omega
    rw [overwrite, if_pos (by rwa [length_overwrite]), overwrite, if_pos hle,
      List.take_left' hlength, ← List.append_assoc, ← List.append_assoc,
      List.drop_left' (by rw [List.length_append, hlength])]
  · rw [overwrite, if_neg (by rwa [length_overwrite])]

/-- Changing the length, with its results written out. -/
theorem resize_eq (size : ℕ) (writer : MemWriter) :
    resize size writer =
      match WriterMemory.resize size writer.memory with
      | .ok _ memory =>
          .ok () ⟨size, { memory with
            data := overwrite memory.data writer.size (List.replicate (size - writer.size) 0) }⟩
      | .error e memory => .error e ⟨size, memory⟩ := by
  simp only [resize, bind, EStateM.bind, get, getThe, MonadStateOf.get, EStateM.get, modify,
    modifyGet, MonadStateOf.modifyGet, EStateM.modifyGet, onMemory]
  cases WriterMemory.resize size writer.memory <;> rfl

/-- Changing the length to a smaller one changes nothing else. -/
theorem resize_of_le {size : ℕ} {writer : MemWriter} (hsize : size ≤ writer.size)
    (hle : size ≤ writer.memory.data.length) :
    resize size writer = .ok () ⟨size, writer.memory⟩ := by
  rw [resize_eq, resize_memory_eq, if_pos hle, Nat.sub_eq_zero_of_le hsize]
  simp

/-- Forgetting what has been written changes nothing else. -/
theorem flush_eq (writer : MemWriter) : flush writer = .ok () ⟨0, writer.memory⟩ :=
  resize_of_le (Nat.zero_le _) (Nat.zero_le _)

/-- The length is changed in any case; if that succeeds, the region is long enough. -/
theorem resize_cases (size : ℕ) (writer : MemWriter) :
    ∃ data,
      (resize size writer = .ok () ⟨size, { writer.memory with data }⟩ ∧ size ≤ data.length) ∨
        resize size writer =
          .error .couldNotExtendMemory ⟨size, { writer.memory with data }⟩ := by
  rw [resize_eq]
  rcases resize_memory_cases size writer.memory with ⟨data, hresize, hle⟩ | ⟨data, hresize⟩
  · rw [hresize]
    exact ⟨overwrite data writer.size (List.replicate (size - writer.size) 0),
      Or.inl ⟨rfl, by simpa⟩⟩
  · rw [hresize]
    exact ⟨data, Or.inr rfl⟩

/-- A step either changes the length, or is refused because of the limit of 32 bits. -/
theorem step_eq (bytes : ℕ) (writer : MemWriter) :
    step bytes writer =
      if uint32Max < writer.size + bytes then .error .maximumNumberOfBytesWritten writer
      else resize (writer.size + bytes) writer := by
  simp only [step, bind, EStateM.bind, get, getThe, MonadStateOf.get, EStateM.get]
  split <;> rfl

/-- A step advances the writer; if it succeeds, by the number of bytes. -/
theorem step_cases (bytes : ℕ) (writer : MemWriter) :
    ∃ writer', Advances writer writer' ∧
      ((step bytes writer = .ok () writer' ∧ writer'.size = writer.size + bytes ∧
          writer'.size ≤ writer'.memory.data.length) ∨
        ∃ e, step bytes writer = .error e writer') := by
  rw [step_eq]
  split
  · exact ⟨writer, .refl writer, Or.inr ⟨_, rfl⟩⟩
  · obtain ⟨data, ⟨hresize, hle⟩ | hresize⟩ := resize_cases (writer.size + bytes) writer
    · exact ⟨⟨writer.size + bytes, { writer.memory with data }⟩,
        ⟨Nat.le_add_right _ _, rfl⟩, Or.inl ⟨hresize, rfl, hle⟩⟩
    · exact ⟨⟨writer.size + bytes, { writer.memory with data }⟩,
        ⟨Nat.le_add_right _ _, rfl⟩, Or.inr ⟨_, hresize⟩⟩

/-- Patching changes no length. -/
theorem patch_advances (position : ℕ) (bytes : List UInt8) (writer : MemWriter) :
    ∃ writer', patch position bytes writer = .ok () writer' ∧ Advances writer writer' ∧
      writer'.size = writer.size ∧
      writer'.memory.data.length = writer.memory.data.length :=
  ⟨_, rfl, ⟨Nat.le_refl _, rfl⟩, rfl, length_overwrite _ _ _⟩

/-- Writing advances the writer; if it succeeds, by the number of bytes. -/
theorem write_cases (source : List UInt8) (writer : MemWriter) :
    ∃ writer', Advances writer writer' ∧
      ((write source writer = .ok () writer' ∧ writer'.size = writer.size + source.length ∧
          writer'.size ≤ writer'.memory.data.length) ∨
        ∃ e, write source writer = .error e writer') := by
  obtain ⟨writer₁, hadvances, ⟨hstep, hsize, hle⟩ | ⟨e, hstep⟩⟩ := step_cases source.length writer
  · obtain ⟨writer₂, hpatch, hadvances', hsize', hlength⟩ :=
      patch_advances (writer₁.size - source.length) source writer₁
    refine ⟨writer₂, hadvances.trans hadvances', Or.inl ⟨?_, hsize'.trans hsize, ?_⟩⟩
    · rw [write, bind_of_ok hstep]
      exact hpatch
    · rwa [hsize', hlength]
  · exact ⟨writer₁, hadvances, Or.inr ⟨e, by rw [write, bind_of_error hstep]⟩⟩

/-- Reserving memory for a writer that has written nothing. -/
theorem reserve_eq {bytes : ℕ} (hbytes : bytes ≤ uint32Max) (memory : WriterMemory) :
    reserve bytes ⟨0, memory⟩ =
      match WriterMemory.resize bytes memory with
      | .ok _ memory =>
          .ok () ⟨0, { memory with
            data := overwrite memory.data 0 (List.replicate bytes 0) }⟩
      | .error e memory => .error e ⟨bytes, memory⟩ := by
  have hstep : step bytes ⟨0, memory⟩ =
      match WriterMemory.resize bytes memory with
      | .ok _ memory =>
          .ok () ⟨bytes, { memory with
            data := overwrite memory.data 0 (List.replicate bytes 0) }⟩
      | .error e memory => .error e ⟨bytes, memory⟩ := by
    rw [step_eq, if_neg (by dsimp only; omega), Nat.zero_add, resize_eq]
    rfl
  cases hresize : WriterMemory.resize bytes memory with
  | ok _ memory' =>
      rw [hresize] at hstep
      rw [reserve, bind_of_ok hstep]
      simp only [bind, EStateM.bind, get, getThe, MonadStateOf.get, EStateM.get, Nat.sub_self]
      exact resize_of_le (Nat.zero_le _) (Nat.zero_le _)
  | error e memory' =>
      rw [hresize] at hstep
      rw [reserve, bind_of_error hstep]

end MemWriter

end WasmCompiler
