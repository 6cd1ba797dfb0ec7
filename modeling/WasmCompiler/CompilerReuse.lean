import WasmCompiler.CompilerObject

/-!
# Reuse of a Compiler Object

Which calls of `compile` leave a compiler object such that later calls give what they give on
a new object. A compilation resets the internal memory and the module info at its beginning,
and the output at its end, but the latter only if it succeeds and without getting back the
host function that went to the binary. So only a call that is rejected before it has emitted
anything, for a null pointer or an invalid header, leaves no trace; after any other call the
output is either not empty or cannot grow (`Spent`).

## Main results

* `afterCalls_rejected`: rejected calls change nothing that is not reset.
* `spent_compile`: any other call leaves the output spent, for good.
* `outcome_afterCalls_iff`: when all later compilations are as on a new object.
-/

namespace WasmCompiler

variable {I S V : Type}

/-! ### Advancing the output -/

/-- A compiler object whose output has advanced; the internal memory keeps its host
function. -/
structure CompilerObject.Advances (compiler compiler' : CompilerObject I S V) : Prop where
  output : compiler.output.Advances compiler'.output
  request : compiler'.memory.memory.extensionRequestPtr =
    compiler.memory.memory.extensionRequestPtr

namespace CompilerObject

/-- One after the other. -/
theorem Advances.trans {a b c : CompilerObject I S V} (h : Advances a b) (h' : Advances b c) :
    Advances a c :=
  ⟨h.output.trans h'.output, h'.request.trans h.request⟩

end CompilerObject

/-- A computation that advances the output, whether it throws or not. -/
def Advancing {α : Type} (x : CompileM I S V α) : Prop :=
  ∀ compiler : CompilerObject I S V, compiler.Advances (finalState x compiler)

/-- Sequences. -/
theorem Advancing.bind {α β : Type} {x : CompileM I S V α} {f : α → CompileM I S V β}
    (hx : Advancing x) (hf : ∀ a, Advancing (f a)) : Advancing (x >>= f) :=
  fun compiler => finalState_bind_of_trans (fun _ _ _ h h' => h.trans h') hx hf compiler

/-- Computations that leave the writers alone. -/
theorem Advancing.of_writers {α : Type} {x : CompileM I S V α}
    (h : ∀ compiler, (finalState x compiler).output = compiler.output ∧
      (finalState x compiler).memory = compiler.memory) : Advancing x := by
  intro compiler
  obtain ⟨houtput, hmemory⟩ := h compiler
  exact ⟨houtput ▸ .refl _, by rw [hmemory]⟩

/-- A result. -/
theorem Advancing.pure {α : Type} (a : α) : Advancing (pure a : CompileM I S V α) :=
  .of_writers fun _ => ⟨rfl, rfl⟩

/-- An error. -/
theorem Advancing.throw {α : Type} (e : CompileError) :
    Advancing (throw e : CompileM I S V α) :=
  .of_writers fun _ => ⟨rfl, rfl⟩

/-- Reading the object. -/
theorem Advancing.get : Advancing (get : CompileM I S V (CompilerObject I S V)) :=
  .of_writers fun _ => ⟨rfl, rfl⟩

/-- Alternatives. -/
theorem Advancing.ite {α : Type} {p : Prop} [Decidable p] {x y : CompileM I S V α}
    (hx : Advancing x) (hy : Advancing y) : Advancing (if p then x else y) := by
  split
  · exact hx
  · exact hy

/-- An operation on a writer changes that writer only. -/
theorem finalState_onWriter {α : Type} (w : Writer) (x : EStateM CompileError MemWriter α)
    (compiler : CompilerObject I S V) :
    finalState (onWriter w x) compiler =
      compiler.setWriter w (finalState x (compiler.writer w)) := by
  simp only [finalState, onWriter]
  cases x (compiler.writer w) <;> rfl

/-- An operation on a writer that keeps its host function, and does not shorten the output. -/
theorem Advancing.onWriter {α : Type} {w : Writer} {x : EStateM CompileError MemWriter α}
    (hrequest : ∀ writer, (finalState x writer).memory.extensionRequestPtr =
      writer.memory.extensionRequestPtr)
    (hsize : w = .output → ∀ writer, writer.size ≤ (finalState x writer).size) :
    Advancing (WasmCompiler.onWriter w x : CompileM I S V α) := by
  intro compiler
  rw [finalState_onWriter]
  cases w with
  | memory => exact ⟨.refl _, hrequest _⟩
  | output => exact ⟨⟨hsize rfl _, hrequest _⟩, rfl⟩
  | debugMap => exact ⟨.refl _, rfl⟩

/-- Writing advances a writer. -/
theorem write_finalState (bytes : List UInt8) (writer : MemWriter) :
    writer.Advances (finalState (MemWriter.write bytes) writer) := by
  obtain ⟨writer', hadvances, ⟨hwrite, -⟩ | ⟨e, hwrite⟩⟩ := MemWriter.write_cases bytes writer
  · rwa [finalState, hwrite]
  · rwa [finalState, hwrite]

/-- Writing with any writer. -/
theorem advancing_write (w : Writer) (bytes : List UInt8) :
    Advancing (onWriter w (MemWriter.write bytes) : CompileM I S V Unit) :=
  .onWriter (fun writer => (write_finalState bytes writer).request)
    fun _ writer => (write_finalState bytes writer).size_le

/-- Patching with any writer. -/
theorem advancing_patch (w : Writer) (position : ℕ) (bytes : List UInt8) :
    Advancing (onWriter w (MemWriter.patch position bytes) : CompileM I S V Unit) :=
  .onWriter (fun _ => rfl) fun _ _ => Nat.le_refl _

/-- Resizing the internal memory. -/
theorem advancing_resizeMemory (size : ℕ) :
    Advancing (onWriter .memory (MemWriter.resize size) : CompileM I S V Unit) := by
  refine .onWriter (fun writer => ?_) nofun
  obtain ⟨data, ⟨hresize, -⟩ | hresize⟩ := MemWriter.resize_cases size writer
  · rw [finalState, hresize]
  · rw [finalState, hresize]

/-! ### Advancing steps of the compilation -/

variable (config : CompilerConfiguration)

/-- Jumps. -/
theorem advancing_writeJump (position : ℕ) :
    Advancing (writeJump config position : CompileM I S V Unit) :=
  Advancing.get.bind fun _ => (Advancing.pure _).bind fun _ => advancing_write .output _

/-- Trap positions. -/
theorem advancing_setLastTrapPosition (trapCode : TrapCode) (position : ℕ) :
    Advancing (setLastTrapPosition trapCode position : CompileM I S V Unit) :=
  .of_writers fun _ => ⟨rfl, rfl⟩

/-- Looking up a trap position. -/
theorem advancing_lastTrapPositionInRange (target : JitTarget) (bits : ℕ) (trapCode : TrapCode) :
    Advancing (lastTrapPositionInRange target bits trapCode : CompileM I S V _) :=
  Advancing.get.bind fun _ => .ite (.pure _) (.pure _)

/-- The position at the end of the output. -/
theorem advancing_outputSize : Advancing (outputSize : CompileM I S V ℕ) :=
  Advancing.get.bind fun _ => .pure _

/-- The jump behind the code that loads a trap code. -/
theorem advancing_jumpToTrapHandler (bits jumpBits : ℕ) :
    Advancing (jumpToTrapHandler config bits jumpBits : CompileM I S V _) := by
  refine Advancing.get.bind fun compiler => advancing_outputSize.bind fun here => .ite ?_ ?_
  · exact (advancing_setLastTrapPosition _ _).bind fun _ => advancing_writeJump config _
  · refine (advancing_lastTrapPositionInRange _ _ _).bind fun last => ?_
    cases last with
    | some position => exact advancing_writeJump config position
    | none => exact .throw _

/-- The code for a trap that is not shared. -/
theorem advancing_ownTrap (trapCode : TrapCode) (bits jumpBits : ℕ) :
    Advancing (if trapCode ≠ TrapCode.none then do
        let here ← outputSize
        setLastTrapPosition trapCode here
        writeOutput (config.movTrapReg trapCode)
        jumpToTrapHandler config bits jumpBits
      else jumpToTrapHandler config bits jumpBits : CompileM I S V _) :=
  .ite
    (advancing_outputSize.bind fun _ => (advancing_setLastTrapPosition _ _).bind fun _ =>
      (advancing_write .output _).bind fun _ => advancing_jumpToTrapHandler config _ _)
    (advancing_jumpToTrapHandler config _ _)

/-- A trap that jumps to the last one in its range, if there is one. -/
theorem advancing_sharedTrap (trapCode : TrapCode) (target : JitTarget)
    (trapBits bits jumpBits : ℕ) :
    Advancing (lastTrapPositionInRange target trapBits trapCode >>= fun last =>
      match last with
      | some position => writeJump config position
      | none =>
        if trapCode ≠ TrapCode.none then do
          let here ← outputSize
          setLastTrapPosition trapCode here
          writeOutput (config.movTrapReg trapCode)
          jumpToTrapHandler config bits jumpBits
        else jumpToTrapHandler config bits jumpBits : CompileM I S V _) := by
  refine (advancing_lastTrapPositionInRange _ _ _).bind fun last => ?_
  cases last with
  | some position => exact advancing_writeJump config position
  | none => exact advancing_ownTrap config trapCode bits jumpBits

/-- Traps. -/
theorem advancing_emitTrap (trapCode : TrapCode) (loadTrapCode : Bool) :
    Advancing (emitTrap config trapCode loadTrapCode : CompileM I S V _) := by
  refine Advancing.get.bind fun compiler => ?_
  have hjump : Advancing
      (writeJump config compiler.data.moduleInfo.genericTrapHandler : CompileM I S V Unit) :=
    advancing_writeJump config _
  have hwrite : ∀ (bytes : List UInt8) {x : CompileM I S V Unit}, Advancing x →
      Advancing (writeOutput bytes >>= fun _ => x) :=
    fun bytes _ hx => (advancing_write .output bytes).bind fun _ => hx
  have hload : ∀ p [Decidable p], Advancing (if p then do
        writeOutput (config.movTrapReg trapCode)
        writeJump config compiler.data.moduleInfo.genericTrapHandler
      else writeJump config compiler.data.moduleInfo.genericTrapHandler
      : CompileM I S V Unit) :=
    fun p _ => .ite (hwrite _ hjump) hjump
  dsimp only
  cases htarget : config.target with
  | x86_64 => exact .ite (hwrite _ (hload _)) (hload _)
  | aarch64 =>
      exact .ite (hwrite _ (hload _)) (advancing_sharedTrap config trapCode _ _ _ _)
  | tricore => exact advancing_sharedTrap config trapCode _ _ _ _

/-- Code that is jumped over. -/
theorem advancing_emitSkipped (jump : ℕ → ℕ → List UInt8) {code : CompileM I S V Unit}
    (hcode : Advancing code) : Advancing (emitSkipped jump code) :=
  advancing_outputSize.bind fun _ => (advancing_write .output _).bind fun _ =>
    hcode.bind fun _ => advancing_outputSize.bind fun _ => advancing_patch .output _ _

/-- The jump to the last trap, or around one of its own. -/
theorem advancing_conditionalJump (trapCode : TrapCode) (condition : ℕ) (last : Option ℕ) :
    Advancing (match last with
      | some position =>
          outputSize >>= fun here =>
            writeOutput (config.conditionalJump condition true here position)
      | none =>
          emitSkipped (config.conditionalJump condition false) (emitTrap config trapCode true)
      : CompileM I S V _) := by
  cases last with
  | some position => exact advancing_outputSize.bind fun _ => advancing_write .output _
  | none => exact advancing_emitSkipped _ (advancing_emitTrap config trapCode true)

/-- Conditional traps. -/
theorem advancing_emitConditionalTrap (trapCode : TrapCode) (condition : ℕ) :
    Advancing (emitConditionalTrap config trapCode condition : CompileM I S V _) := by
  have hrest := advancing_conditionalJump (I := I) (S := S) (V := V) config trapCode condition
  rw [emitConditionalTrap]
  cases config.target with
  | x86_64 => exact (Advancing.pure _).bind hrest
  | aarch64 => exact (advancing_lastTrapPositionInRange _ _ _).bind hrest
  | tricore => exact (advancing_lastTrapPositionInRange _ _ _).bind hrest

/-- Unaligned accesses. -/
theorem advancing_emitUnalignedAccess (access : UnalignedAccess) :
    Advancing (emitUnalignedAccess config access : CompileM I S V _) := by
  have hcall : Advancing (do
      let compiler ← get
      let here ← outputSize
      writeOutput (config.fastCall here (compiler.unalignedAccessCodePositions access))
      : CompileM I S V _) :=
    Advancing.get.bind fun _ => advancing_outputSize.bind fun _ => advancing_write .output _
  refine Advancing.get.bind fun compiler => .ite ?_ hcall
  refine (advancing_emitSkipped _ ?_).bind fun _ => hcall
  exact advancing_outputSize.bind fun _ => Advancing.bind (.of_writers fun _ => ⟨rfl, rfl⟩)
    fun _ => advancing_write .output _

/-- Whatever a module makes the frontend do. -/
theorem advancing_run (emission : Emission I S V) : Advancing (emission.run config) := by
  induction emission with
  | done => exact .pure _
  | throw_ error => exact .throw _
  | write w bytes next ih => exact (advancing_write w bytes).bind fun _ => ih
  | patch w position bytes next ih => exact (advancing_patch w position bytes).bind fun _ => ih
  | read w next ih => exact Advancing.get.bind fun compiler => ih _
  | resizeMemory size next ih => exact (advancing_resizeMemory size).bind fun _ => ih
  | update change next ih => exact Advancing.bind (.of_writers fun _ => ⟨rfl, rfl⟩) fun _ => ih
  | inspect next ih => exact Advancing.get.bind fun compiler => ih _
  | trap trapCode loadTrapCode next ih =>
      exact (advancing_emitTrap config trapCode loadTrapCode).bind fun _ => ih
  | conditionalTrap trapCode condition next ih =>
      exact (advancing_emitConditionalTrap config trapCode condition).bind fun _ => ih
  | unalignedAccess access next ih =>
      exact (advancing_emitUnalignedAccess config access).bind fun _ => ih

/-- The trap handler. -/
theorem advancing_emitGenericTrapHandler :
    Advancing (emitGenericTrapHandler config : CompileM I S V Unit) :=
  (advancing_write .output _).bind fun _ => advancing_outputSize.bind fun _ =>
    Advancing.bind (.of_writers fun _ => ⟨rfl, rfl⟩) fun _ =>
      .ite ((advancing_write .output _).bind fun _ => advancing_write .output _)
        (advancing_write .output _)

/-- A blob around code. -/
theorem advancing_writeBlob {code : CompileM I S V Unit} (hcode : Advancing code) :
    Advancing (writeBlob config code) :=
  advancing_outputSize.bind fun _ => hcode.bind fun _ => advancing_outputSize.bind fun _ =>
    (advancing_write .output _).bind fun _ => advancing_write .output _

/-! ### Spent outputs -/

/-- An output that is not empty, or that has lost its host function. -/
def MemWriter.Spent (writer : MemWriter) : Prop :=
  0 < writer.size ∨ writer.memory.extensionRequestPtr = none

/-- It stays so. -/
theorem MemWriter.Spent.advances {writer writer' : MemWriter} (hspent : writer.Spent)
    (hadvances : writer.Advances writer') : writer'.Spent := by
  rcases hspent with hsize | hrequest
  · exact Or.inl (hsize.trans_le hadvances.size_le)
  · exact Or.inr (hadvances.request.trans hrequest)

/-- Writing at least one byte, even if that fails. -/
theorem MemWriter.spent_write {bytes : List UInt8} (hbytes : bytes ≠ [])
    (hle : bytes.length ≤ uint32Max) (writer : MemWriter) :
    (finalState (MemWriter.write bytes) writer).Spent := by
  have hpos : 0 < bytes.length := List.length_pos_iff.mpr hbytes
  have hstep : ∀ e writer', step bytes.length writer = .error e writer' → writer'.Spent := by
    intro e writer' h
    rw [step_eq] at h
    split at h
    · cases h
      exact Or.inl (by omega)
    · obtain ⟨data, ⟨hresize, -⟩ | hresize⟩ := resize_cases (writer.size + bytes.length) writer
      · rw [hresize] at h
        cases h
      · rw [hresize] at h
        cases h
        exact Or.inl (by dsimp only; omega)
  obtain ⟨writer', -, ⟨hwrite, hsize, -⟩ | ⟨e, hwrite⟩⟩ := write_cases bytes writer
  · rw [finalState, hwrite]
    exact Or.inl (by dsimp only; omega)
  · rw [finalState, hwrite]
    obtain ⟨writer₁, -, ⟨hok, -⟩ | ⟨e', herror⟩⟩ := step_cases bytes.length writer
    · rw [write, bind_of_ok hok] at hwrite
      cases hwrite
    · rw [write, bind_of_error herror] at hwrite
      cases hwrite
      exact hstep _ _ herror

/-- What is spent by the first part of a sequence. -/
theorem spent_bind {α β : Type} {x : CompileM I S V α} {f : α → CompileM I S V β}
    {compiler : CompilerObject I S V} (hspent : (finalState x compiler).output.Spent)
    (hf : ∀ a, Advancing (f a)) : (finalState (x >>= f) compiler).output.Spent := by
  rw [finalState] at hspent
  rw [finalState_bind]
  cases hx : x compiler with
  | ok a compiler' =>
      rw [hx] at hspent
      exact hspent.advances (hf a compiler').output
  | error e compiler' =>
      rw [hx] at hspent
      exact hspent

/-- Configurations whose host functions never refuse internal memory, and whose trap handler
has code. -/
structure CompilerConfiguration.Regular (config : CompilerConfiguration) : Prop where
  grants : ∀ data size, config.compilerMemoryRealloc.request data size ≠ none
  adapter : config.nativeTrapAdapter ≠ []
  adapter_le : config.nativeTrapAdapter.length ≤ uint32Max

/-- Emitting the trap handler spends the output. -/
theorem spent_emitGenericTrapHandler (hregular : config.Regular)
    (compiler : CompilerObject I S V) :
    (finalState (emitGenericTrapHandler config) compiler).output.Spent := by
  refine spent_bind ?_ fun _ => advancing_outputSize.bind fun _ =>
    Advancing.bind (.of_writers fun _ => ⟨rfl, rfl⟩) fun _ =>
      .ite ((advancing_write .output _).bind fun _ => advancing_write .output _)
        (advancing_write .output _)
  rw [writeOutput, finalState_onWriter]
  exact MemWriter.spent_write hregular.adapter hregular.adapter_le _

/-! ### The reset -/

section Reset

variable [Inhabited I]

/-- The object with the module info and the internal memory of the next compilation. -/
def CompilerObject.reset (compiler : CompilerObject I S V) (writer : MemWriter) :
    CompilerObject I S V :=
  { compiler with
    memory := writer
    data := { compiler.data with moduleInfo := { fields := default } } }

/-- The bytes that a compilation reserves are not too many for a writer. -/
theorem reserved_le : 0xFF ≤ uint32Max := by
  rw [uint32Max]
  omega

/-- The reset reads nothing of the object but the region of the internal memory. -/
theorem resetCompilation_eq (compiler : CompilerObject I S V) :
    resetCompilation compiler =
      match MemWriter.reserve 0xFF ⟨0, compiler.memory.memory⟩ with
      | .ok _ writer => .ok () (compiler.reset writer)
      | .error e writer => .error e (compiler.reset writer) := by
  have hflush : onWriter .memory MemWriter.flush compiler =
      .ok () { compiler with memory := ⟨0, compiler.memory.memory⟩ } := by
    simp [onWriter, CompilerObject.writer, CompilerObject.setWriter, MemWriter.flush_eq]
  rw [resetCompilation, bind_of_ok hflush]
  simp only [bind, EStateM.bind, modify, modifyGet, MonadStateOf.modifyGet, EStateM.modifyGet,
    onWriter, CompilerObject.writer]
  cases MemWriter.reserve 0xFF ⟨0, compiler.memory.memory⟩ <;> rfl

/-- The reset advances the output by nothing. -/
theorem advancing_resetCompilation : Advancing (resetCompilation : CompileM I S V Unit) := by
  intro compiler
  have hreset : ∀ writer : MemWriter, writer.memory.extensionRequestPtr =
      compiler.memory.memory.extensionRequestPtr → compiler.Advances (compiler.reset writer) :=
    fun writer hrequest => ⟨.refl _, hrequest⟩
  rw [finalState, resetCompilation_eq, MemWriter.reserve_eq reserved_le]
  rcases MemWriter.resize_memory_cases 0xFF compiler.memory.memory with
    ⟨data, hresize, -⟩ | ⟨data, hresize⟩
  · rw [hresize]
    exact hreset ⟨0, _, _⟩ rfl
  · rw [hresize]
    exact hreset ⟨0xFF, _, _⟩ rfl

/-- The reset leaves the output alone. -/
theorem output_resetCompilation {compiler compiler' : CompilerObject I S V}
    (h : resetCompilation compiler = .ok () compiler') : compiler'.output = compiler.output := by
  rw [resetCompilation_eq] at h
  cases hreserve : MemWriter.reserve 0xFF ⟨0, compiler.memory.memory⟩ with
  | ok _ writer =>
      rw [hreserve] at h
      cases h
      rfl
  | error e writer =>
      rw [hreserve] at h
      cases h

/-- Beginning a compilation. -/
theorem advancing_startCompilation (call : CompileCall I S V) :
    Advancing (config.startCompilation call) := by
  refine (advancing_resetCompilation).bind fun _ => ?_
  cases validateHeader call.bytecode with
  | error e => exact .throw e
  | ok _ =>
      exact (advancing_writeBlob config (advancing_emitGenericTrapHandler config)).bind fun _ =>
        advancing_run config call.emission

variable [Inhabited S] [Inhabited V]

/-- A compiler that was constructed is reset in the memory that it requests. -/
theorem resetCompilation_construct (config : CompilerConfiguration) :
    resetCompilation (config.construct : CompilerObject I S V) =
      match config.compilerMemoryRealloc.request [] 0xFF with
      | none => .error .couldNotExtendMemory
          (config.construct.reset ⟨0xFF, [], some config.compilerMemoryRealloc⟩)
      | some data => .ok () (config.construct.reset
          ⟨0, MemWriter.overwrite data 0 (List.replicate 0xFF 0),
            some config.compilerMemoryRealloc⟩) := by
  have hmemory : (config.construct : CompilerObject I S V).memory.memory =
      ⟨[], some config.compilerMemoryRealloc⟩ := rfl
  rw [resetCompilation_eq, MemWriter.reserve_eq reserved_le, hmemory,
    MemWriter.resize_memory_eq, if_neg (by simp)]
  dsimp only
  cases config.compilerMemoryRealloc.request [] 0xFF <;> rfl

/-- Resetting once more what a constructed object has been reset to. -/
theorem reset_construct (config : CompilerConfiguration) :
    resetCompilation (finalState resetCompilation (config.construct : CompilerObject I S V)) =
      resetCompilation config.construct := by
  have hreset := resetCompilation_construct (I := I) (S := S) (V := V) config
  cases hrequest : config.compilerMemoryRealloc.request [] 0xFF with
  | none =>
      rw [hrequest] at hreset
      rw [finalState, hreset]
      dsimp only
      rw [resetCompilation_eq, MemWriter.reserve_eq reserved_le]
      dsimp only [CompilerObject.reset]
      rw [MemWriter.resize_memory_eq, if_neg (by simp)]
      dsimp only
      rw [hrequest]
  | some data =>
      rw [hrequest] at hreset
      rw [finalState, hreset]
      dsimp only
      have hle : 0xFF ≤ data.length := config.compilerMemoryRealloc.le_length _ _ _ hrequest
      rw [resetCompilation_eq, MemWriter.reserve_eq reserved_le]
      dsimp only [CompilerObject.reset]
      rw [MemWriter.resize_memory_eq, if_pos (by rwa [MemWriter.length_overwrite])]
      dsimp only
      rw [MemWriter.overwrite_overwrite]

end Reset

/-! ### Rejected calls -/

section Calls

variable [Inhabited I]

/-- A call that is rejected before the compilation emits anything: a null pointer, a header
that is cut off, a wrong magic number, or an unsupported version. -/
def CompileCall.Rejected (call : CompileCall I S V) : Prop :=
  validateHeader call.bytecode ≠ .ok ()

/-- A rejected call does the reset and nothing else. -/
theorem compile_rejected {call : CompileCall I S V} (hrejected : call.Rejected)
    (compiler : CompilerObject I S V) :
    finalState (config.compile call) compiler = finalState resetCompilation compiler := by
  obtain ⟨e, he⟩ : ∃ e, validateHeader call.bytecode = .error e := by
    cases h : validateHeader call.bytecode with
    | error e => exact ⟨e, rfl⟩
    | ok _ => exact absurd h hrejected
  rw [CompilerConfiguration.compile, finalState_bind, CompilerConfiguration.startCompilation, he,
    finalState]
  cases hreset : (resetCompilation : CompileM I S V Unit) compiler with
  | ok _ compiler' => rw [bind_of_ok hreset]; rfl
  | error e' compiler' => rw [bind_of_error hreset]

/-- A compilation on an object that the reset makes what it makes a constructed one. -/
theorem compile_congr {compiler compiler' : CompilerObject I S V}
    (hreset : resetCompilation compiler = resetCompilation compiler') (call : CompileCall I S V) :
    config.compile call compiler = config.compile call compiler' := by
  simp only [CompilerConfiguration.compile, CompilerConfiguration.startCompilation, bind,
    EStateM.bind, hreset]

/-- The object when the binary has been moved out of it. -/
def CompilerObject.finish (compiler : CompilerObject I S V) : CompilerObject I S V :=
  { compiler with
    output := ⟨0, { compiler.output.memory with extensionRequestPtr := none }⟩ }

/-- The end of a compilation always succeeds. -/
theorem compile_eq (call : CompileCall I S V) (compiler : CompilerObject I S V) :
    config.compile call compiler =
      match config.startCompilation call compiler with
      | .ok _ compiler' =>
          .ok ⟨compiler'.output.contents, compiler'.output.memory.extensionRequestPtr.isSome⟩
            compiler'.finish
      | .error e compiler' => .error e compiler' := by
  rw [CompilerConfiguration.compile]
  cases hstart : config.startCompilation call compiler with
  | ok _ compiler' =>
      rw [bind_of_ok hstart]
      simp only [bind, EStateM.bind, onWriter, CompilerObject.writer, CompilerObject.setWriter,
        MemWriter.toManagedBinary, MemWriter.flush_eq, pure, EStateM.pure]
      rfl
  | error e compiler' => rw [bind_of_error hstart]

/-- What a compilation does to the host function of the internal memory: nothing. -/
theorem request_compile (call : CompileCall I S V) (compiler : CompilerObject I S V) :
    (finalState (config.compile call) compiler).memory.memory.extensionRequestPtr =
      compiler.memory.memory.extensionRequestPtr := by
  have hadvances := advancing_startCompilation config call compiler
  rw [finalState] at hadvances ⊢
  rw [compile_eq]
  cases hstart : config.startCompilation call compiler with
  | ok _ compiler' =>
      rw [hstart] at hadvances
      exact hadvances.request
  | error e compiler' =>
      rw [hstart] at hadvances
      exact hadvances.request

/-- If the beginning of a compilation leaves the output spent, so does the whole. -/
theorem spent_of_startCompilation {call : CompileCall I S V} {compiler : CompilerObject I S V}
    (hspent : (finalState (config.startCompilation call) compiler).output.Spent) :
    (finalState (config.compile call) compiler).output.Spent := by
  rw [finalState] at hspent ⊢
  rw [compile_eq]
  cases hstart : config.startCompilation call compiler with
  | ok _ compiler' => exact Or.inr rfl
  | error e compiler' =>
      rw [hstart] at hspent
      exact hspent

/-- A compilation on an object with a spent output. -/
theorem spent_compile_of_spent {compiler : CompilerObject I S V}
    (hspent : compiler.output.Spent) (call : CompileCall I S V) :
    (finalState (config.compile call) compiler).output.Spent :=
  spent_of_startCompilation config
    (hspent.advances (advancing_startCompilation config call compiler).output)

/-- The reset succeeds if memory is never refused. -/
theorem resetCompilation_regular (hregular : config.Regular) {compiler : CompilerObject I S V}
    (hrequest : compiler.memory.memory.extensionRequestPtr = some config.compilerMemoryRealloc) :
    ∃ compiler' : CompilerObject I S V, resetCompilation compiler = .ok () compiler' := by
  rw [resetCompilation_eq, MemWriter.reserve_eq reserved_le, MemWriter.resize_memory_eq]
  split_ifs with hle
  · exact ⟨_, rfl⟩
  · rw [hrequest]
    dsimp only
    cases hgrant : config.compilerMemoryRealloc.request compiler.memory.memory.data 0xFF with
    | none => exact absurd hgrant (hregular.grants _ _)
    | some data => exact ⟨_, rfl⟩

/-- A call that is not rejected spends the output, however it ends. -/
theorem spent_compile (hregular : config.Regular) {call : CompileCall I S V}
    (haccepted : ¬ call.Rejected) {compiler : CompilerObject I S V}
    (hrequest : compiler.memory.memory.extensionRequestPtr = some config.compilerMemoryRealloc) :
    (finalState (config.compile call) compiler).output.Spent := by
  obtain ⟨compiler', hreset⟩ := resetCompilation_regular config hregular hrequest
  have hvalid : validateHeader call.bytecode = .ok () := not_not.mp haccepted
  refine spent_of_startCompilation config ?_
  rw [CompilerConfiguration.startCompilation, hvalid, finalState, bind_of_ok hreset]
  change (finalState (writeBlob config (emitGenericTrapHandler config) >>= fun _ =>
    call.emission.run config) compiler').output.Spent
  refine spent_bind ?_ fun _ => advancing_run config _
  change (finalState (emitGenericTrapHandler config >>= fun _ => _) compiler').output.Spent
  refine spent_bind (spent_emitGenericTrapHandler config hregular compiler') fun _ => ?_
  exact advancing_outputSize.bind fun _ =>
    (advancing_write .output _).bind fun _ => advancing_write .output _

variable [Inhabited S] [Inhabited V]

/-- After rejected calls the reset makes of the object what it makes of a constructed one. -/
theorem afterCalls_rejected (history : List (CompileCall I S V))
    (hrejected : ∀ call ∈ history, call.Rejected) :
    resetCompilation (config.afterCalls history) = resetCompilation config.construct := by
  have hrun : ∀ compiler : CompilerObject I S V,
      resetCompilation compiler = resetCompilation config.construct →
      resetCompilation (history.foldl
        (fun compiler call => finalState (config.compile call) compiler) compiler) =
        resetCompilation config.construct := by
    induction history with
    | nil => exact fun compiler hreset => hreset
    | cons call history ih =>
        intro compiler hreset
        refine ih (fun c hc => hrejected c (List.mem_cons_of_mem _ hc)) _ ?_
        dsimp only
        rw [compile_rejected config (hrejected call List.mem_cons_self), finalState, hreset]
        exact reset_construct config
  exact hrun _ rfl

/-- No call takes away the host function of the internal memory. -/
theorem request_afterCalls (history : List (CompileCall I S V)) :
    (config.afterCalls history).memory.memory.extensionRequestPtr =
      some config.compilerMemoryRealloc := by
  have hrun : ∀ compiler : CompilerObject I S V, (history.foldl
      (fun compiler call => finalState (config.compile call) compiler)
        compiler).memory.memory.extensionRequestPtr =
      compiler.memory.memory.extensionRequestPtr := by
    induction history with
    | nil => exact fun compiler => rfl
    | cons call history ih =>
        exact fun compiler => (ih _).trans (request_compile config call compiler)
  exact hrun _

/-- A call that is not rejected, whatever follows it, leaves the output spent. -/
theorem spent_afterCalls (hregular : config.Regular) {history : List (CompileCall I S V)}
    (haccepted : ∃ call ∈ history, ¬ call.Rejected) :
    (config.afterCalls history).output.Spent := by
  have hkept : ∀ (calls : List (CompileCall I S V)) (compiler : CompilerObject I S V),
      compiler.output.Spent → (calls.foldl
        (fun compiler call => finalState (config.compile call) compiler) compiler).output.Spent := by
    intro calls
    induction calls with
    | nil => exact fun compiler hspent => hspent
    | cons call calls ih =>
        exact fun compiler hspent => ih _ (spent_compile_of_spent config hspent call)
  have hrun : ∀ compiler : CompilerObject I S V,
      compiler.memory.memory.extensionRequestPtr = some config.compilerMemoryRealloc →
      (history.foldl
        (fun compiler call => finalState (config.compile call) compiler) compiler).output.Spent := by
    induction history with
    | nil => simp at haccepted
    | cons call history ih =>
        intro compiler hrequest
        by_cases hcall : call.Rejected
        · refine ih ?_ _ ((request_compile config call compiler).trans hrequest)
          obtain ⟨other, hmem, hother⟩ := haccepted
          rcases List.mem_cons.mp hmem with rfl | hmem
          · exact absurd hcall hother
          · exact ⟨other, hmem, hother⟩
        · exact hkept history _ (spent_compile config hregular hcall hrequest)
  exact hrun _ rfl

end Calls

/-! ### Outputs of known length -/

/-- A host that appends zeros to a region as far as it is asked to. -/
def appendingRealloc : WriterReallocFnc where
  request data size := some (data ++ List.replicate (size - data.length) 0)
  le_length data size data' h := by
    cases h
    rw [List.length_append, List.length_replicate]
    omega

/-- A computation that makes the output longer by `n` bytes, which lie in its region, and that
succeeds if the host gives the memory for them. -/
structure AppendsOutput {α : Type} (n : ℕ) (x : CompileM I S V α) : Prop where
  advancing : Advancing x
  size : ∀ compiler a compiler', x compiler = .ok a compiler' →
    compiler'.output.size = compiler.output.size + n
  le_length : ∀ compiler a compiler', x compiler = .ok a compiler' →
    (compiler.output.size ≤ compiler.output.memory.data.length ∨ 0 < n) →
      compiler'.output.size ≤ compiler'.output.memory.data.length
  succeeds : ∀ compiler : CompilerObject I S V,
    compiler.output.memory.extensionRequestPtr = some appendingRealloc →
      compiler.output.size + n ≤ uint32Max → ∃ a compiler', x compiler = .ok a compiler'

/-- A sequence that succeeds, taken apart. -/
theorem exists_of_bind_eq_ok {ε σ α β : Type} {x : EStateM ε σ α} {f : α → EStateM ε σ β}
    {s s' : σ} {b : β} (h : (x >>= f) s = .ok b s') :
    ∃ a s₁, x s = .ok a s₁ ∧ f a s₁ = .ok b s' := by
  cases hx : x s with
  | ok a s₁ =>
      rw [bind_of_ok hx] at h
      exact ⟨a, s₁, rfl, h⟩
  | error e s₁ =>
      rw [bind_of_error hx] at h
      cases h

/-- What an advancing computation keeps when it succeeds. -/
theorem Advancing.of_ok {α : Type} {x : CompileM I S V α} (hx : Advancing x)
    {compiler compiler' : CompilerObject I S V} {a : α} (h : x compiler = .ok a compiler') :
    compiler.Advances compiler' := by
  have hadvances := hx compiler
  rwa [finalState, h] at hadvances

/-- Sequences. -/
theorem AppendsOutput.bind {α β : Type} {m n : ℕ} {x : CompileM I S V α}
    {f : α → CompileM I S V β} (hx : AppendsOutput m x) (hf : ∀ a, AppendsOutput n (f a)) :
    AppendsOutput (m + n) (x >>= f) where
  advancing := hx.advancing.bind fun a => (hf a).advancing
  size := by
    intro compiler b compiler₂ h
    obtain ⟨a, compiler₁, h₁, h₂⟩ := exists_of_bind_eq_ok h
    have hsize₁ := hx.size compiler a compiler₁ h₁
    have hsize₂ := (hf a).size compiler₁ b compiler₂ h₂
    omega
  le_length := by
    intro compiler b compiler₂ h hbefore
    obtain ⟨a, compiler₁, h₁, h₂⟩ := exists_of_bind_eq_ok h
    refine (hf a).le_length compiler₁ b compiler₂ h₂ ?_
    rcases Nat.eq_zero_or_pos n with hn | hn
    · exact Or.inl (hx.le_length compiler a compiler₁ h₁ (hbefore.imp_right fun _ => by omega))
    · exact Or.inr hn
  succeeds := by
    intro compiler hrequest hle
    obtain ⟨a, compiler₁, h₁⟩ := hx.succeeds compiler hrequest (by omega)
    have hrequest₁ := (hx.advancing.of_ok h₁).output.request
    have hsize₁ := hx.size compiler a compiler₁ h₁
    rw [bind_of_ok h₁]
    exact (hf a).succeeds compiler₁ (hrequest₁.trans hrequest) (by omega)

/-- Computations that succeed and leave the writers alone. -/
theorem AppendsOutput.of_writers {α : Type} {x : CompileM I S V α}
    (h : ∀ compiler, ∃ a compiler', x compiler = .ok a compiler' ∧
      compiler'.output = compiler.output ∧ compiler'.memory = compiler.memory) :
    AppendsOutput 0 x where
  advancing := .of_writers fun compiler => by
    obtain ⟨a, compiler', hx, hwriters⟩ := h compiler
    rw [finalState, hx]
    exact hwriters
  size := by
    intro compiler a compiler' hx
    obtain ⟨a', compiler'', hx', houtput, -⟩ := h compiler
    rw [hx] at hx'
    cases hx'
    rw [houtput, Nat.add_zero]
  le_length := by
    intro compiler a compiler' hx hbefore
    obtain ⟨a', compiler'', hx', houtput, -⟩ := h compiler
    rw [hx] at hx'
    cases hx'
    rw [houtput]
    exact hbefore.resolve_right (Nat.lt_irrefl 0)
  succeeds := fun compiler _ _ => by
    obtain ⟨a, compiler', hx, -⟩ := h compiler
    exact ⟨a, compiler', hx⟩

/-- The host that appends never refuses a write. -/
theorem MemWriter.write_of_appending {bytes : List UInt8} {writer : MemWriter}
    (hrequest : writer.memory.extensionRequestPtr = some appendingRealloc)
    (hle : writer.size + bytes.length ≤ uint32Max) :
    ∃ writer', write bytes writer = .ok () writer' := by
  have hresize : ∃ memory,
      WriterMemory.resize (writer.size + bytes.length) writer.memory = .ok () memory := by
    rw [resize_memory_eq, hrequest]
    split_ifs
    · exact ⟨_, rfl⟩
    · exact ⟨_, rfl⟩
  obtain ⟨memory, hresize⟩ := hresize
  rw [write, bind, EStateM.instMonad]
  dsimp only [EStateM.bind]
  rw [step_eq, if_neg (by omega), resize_eq, hresize]
  exact ⟨_, rfl⟩

/-- Writing. -/
theorem appends_writeOutput (bytes : List UInt8) :
    AppendsOutput bytes.length (writeOutput bytes : CompileM I S V Unit) := by
  have hok : ∀ (compiler : CompilerObject I S V) a compiler',
      writeOutput bytes compiler = .ok a compiler' →
        compiler'.output.size = compiler.output.size + bytes.length ∧
          compiler'.output.size ≤ compiler'.output.memory.data.length := by
    intro compiler a compiler' h
    simp only [writeOutput, onWriter, CompilerObject.writer, CompilerObject.setWriter] at h
    obtain ⟨writer, -, ⟨hwrite, hsize, hle⟩ | ⟨e, hwrite⟩⟩ :=
      MemWriter.write_cases bytes compiler.output
    · rw [hwrite] at h
      cases h
      exact ⟨hsize, hle⟩
    · rw [hwrite] at h
      cases h
  refine ⟨advancing_write .output bytes, fun compiler a compiler' h => (hok _ _ _ h).1,
    fun compiler a compiler' h _ => (hok _ _ _ h).2, fun compiler hrequest hle => ?_⟩
  obtain ⟨writer, hwrite⟩ := MemWriter.write_of_appending hrequest hle
  exact ⟨(), compiler.setWriter .output writer, by
    simp only [writeOutput, onWriter, CompilerObject.writer, hwrite]⟩

/-- The position at the end of the output. -/
theorem outputSize_eq (compiler : CompilerObject I S V) :
    outputSize compiler = .ok compiler.output.size compiler := rfl

/-- A blob around code of known length. -/
theorem AppendsOutput.writeBlob {n : ℕ} {code : CompileM I S V Unit} (hcode : AppendsOutput n code) :
    AppendsOutput
      (n + ((execPadding config.target (deltaToNextPow2 (UInt32.ofNat n) 2)).length + 4))
      (WasmCompiler.writeBlob config code) := by
  have htail : AppendsOutput
      ((execPadding config.target (deltaToNextPow2 (UInt32.ofNat n) 2)).length + 4)
      (writeOutput (execPadding config.target (deltaToNextPow2 (UInt32.ofNat n) 2)) >>= fun _ =>
        writeOutput (bytesLE 4 (UInt32.ofNat n).toNat) : CompileM I S V Unit) :=
    (appends_writeOutput _).bind fun _ => by
      simpa using appends_writeOutput (bytesLE 4 (UInt32.ofNat n).toNat)
  have hwhole := hcode.bind fun _ => htail
  -- the size that is written is that of the code
  have heq : ∀ compiler, WasmCompiler.writeBlob config code compiler = (code >>= fun _ =>
      writeOutput (execPadding config.target (deltaToNextPow2 (UInt32.ofNat n) 2)) >>= fun _ =>
        writeOutput (bytesLE 4 (UInt32.ofNat n).toNat) : CompileM I S V Unit) compiler := by
    intro compiler
    rw [WasmCompiler.writeBlob, bind_of_ok (outputSize_eq compiler)]
    cases h : code compiler with
    | ok a compiler₁ =>
        rw [bind_of_ok h, bind_of_ok h, bind_of_ok (outputSize_eq compiler₁),
          hcode.size _ _ _ h, Nat.add_sub_cancel_left]
    | error e compiler₁ => rw [bind_of_error h, bind_of_error h]
  rw [show WasmCompiler.writeBlob config code = _ from funext heq]
  exact hwhole

/-! ### Two modules -/

/-- Write a list of words, and then go on. -/
def Emission.writeWords (words : List UInt32) (next : Emission I S V) : Emission I S V :=
  words.foldr (fun word next => .write .output (bytesLE 4 word.toNat) next) next

/-- The binary of a module without sections, up to its length: all sections are empty, and there
is no memory. -/
def emptyModuleWords : List UInt32 :=
  [0, 0, 4, 0, 0, 4, 0, 4, unknownValue, 0, 4, 0, 4, 0, 0, 0, 0, unknownValue, 0, versionNumber]

/-- The module of eight bytes that has no section. -/
def emptyModule : CompileCall I S V where
  bytecode := some (wasmBinaryMagic ++ bytesLE 4 1)
  emission :=
    .writeWords emptyModuleWords (.read .output fun output =>
      .write .output (bytesLE 4 (UInt32.ofNat output.length).toNat) .done)

/-- A module with a type section of size zero: the frontend refuses it when the trap handler
has been emitted. -/
def emptyTypeSection : CompileCall I S V where
  bytecode := some (wasmBinaryMagic ++ bytesLE 4 1 ++ [1, 0])
  emission := .throw_ (.other 0)

/-- The compiler for x86_64 with bounds checks in the code, without debug information. The
pieces of code that the two modules do not contain are left out. -/
def x86Configuration : CompilerConfiguration where
  target := .x86_64
  debugMode := false
  stacktraceRecordCount := 0
  compilerMemoryRealloc := appendingRealloc
  binaryMemoryRealloc := appendingRealloc
  debugMapRealloc := none
  nativeTrapAdapter := [0x48, 0x8B, 0xDF, 0x48, 0x8B, 0xC6]
  stackTraceCollector _ := []
  trapHandler :=
    [0x48, 0x8B, 0x63, 0xD8, 0x4C, 0x8B, 0x2C, 0x24, 0x41, 0x89, 0x45, 0x00, 0xFF, 0x63, 0xE0]
  movTrapReg _ := []
  movTrapPosReg _ := []
  jump _ _ := []
  conditionalJump _ _ _ _ := []
  unalignedAccess _ := []
  fastCall _ _ := []

/-- Its trap handler has code, and it never lacks memory. -/
theorem x86Configuration_regular : x86Configuration.Regular where
  grants _ _ := nofun
  adapter := nofun
  adapter_le := by
    rw [uint32Max]
    decide

/-- Words have four bytes. -/
theorem appends_writeWords {n : ℕ} (words : List UInt32) {next : Emission I S V}
    (hnext : AppendsOutput n (next.run config)) :
    AppendsOutput (4 * words.length + n) ((Emission.writeWords words next).run config) := by
  induction words with
  | nil => simpa [Emission.writeWords] using hnext
  | cons word words ih =>
      have hword : AppendsOutput 4 (writeOutput (bytesLE 4 word.toNat) : CompileM I S V Unit) := by
        simpa using appends_writeOutput (I := I) (S := S) (V := V) (bytesLE 4 word.toNat)
      have hall := hword.bind fun _ => ih
      rwa [← Nat.add_assoc, show 4 + 4 * words.length = 4 * (word :: words).length by
        rw [List.length_cons]; omega] at hall

/-- The binary of the empty module has 112 bytes more than the output had before. -/
theorem appends_emptyModule :
    AppendsOutput 112 (writeBlob x86Configuration (emitGenericTrapHandler x86Configuration) >>=
      fun _ => (emptyModule : CompileCall I S V).emission.run x86Configuration) := by
  have hwrite : ∀ bytes : List UInt8,
      AppendsOutput bytes.length (writeOutput bytes : CompileM I S V _) :=
    appends_writeOutput
  have hhandler : AppendsOutput 21 (emitGenericTrapHandler x86Configuration : CompileM I S V _) := by
    refine (hwrite x86Configuration.nativeTrapAdapter).bind (n := 15) fun _ => ?_
    refine (AppendsOutput.of_writers fun compiler =>
      ⟨_, _, outputSize_eq compiler, rfl, rfl⟩).bind (n := 15) fun _ => ?_
    refine AppendsOutput.bind (n := 15)
      (AppendsOutput.of_writers fun compiler => ⟨_, _, rfl, rfl, rfl⟩) fun _ => ?_
    exact hwrite x86Configuration.trapHandler
  have hlength : ∀ output : List UInt8, AppendsOutput 4
      (writeOutput (bytesLE 4 (UInt32.ofNat output.length).toNat) >>= fun _ => pure ()
        : CompileM I S V Unit) := by
    intro output
    have h := (hwrite (bytesLE 4 (UInt32.ofNat output.length).toNat)).bind
      (n := 0) (f := fun _ => pure ()) fun _ =>
        AppendsOutput.of_writers fun compiler => ⟨_, _, rfl, rfl, rfl⟩
    simpa using h
  have hread : AppendsOutput 4 ((Emission.read .output fun output =>
      .write .output (bytesLE 4 (UInt32.ofNat output.length).toNat) .done
      : Emission I S V).run x86Configuration) := by
    refine AppendsOutput.bind (m := 0) (n := 4)
      (AppendsOutput.of_writers fun compiler => ⟨_, _, rfl, rfl, rfl⟩) fun compiler => ?_
    exact hlength (compiler.writer .output).contents
  have hemission : AppendsOutput 84
      ((emptyModule : CompileCall I S V).emission.run x86Configuration) :=
    appends_writeWords x86Configuration emptyModuleWords hread
  exact (hhandler.writeBlob x86Configuration).bind (n := 84) fun _ => hemission

variable [Inhabited I]

/-- What the empty module does once the object is reset. -/
theorem startCompilation_emptyModule {compiler compiler' : CompilerObject I S V}
    (hreset : resetCompilation compiler = .ok () compiler') :
    x86Configuration.startCompilation emptyModule compiler =
      (writeBlob x86Configuration (emitGenericTrapHandler x86Configuration) >>=
        fun _ => (emptyModule : CompileCall I S V).emission.run x86Configuration) compiler' := by
  rw [CompilerConfiguration.startCompilation, bind_of_ok hreset]
  rfl

/-- The outcome of the empty module on an object that can be reset: if it is a binary, that has
112 bytes more than the output had. -/
theorem outcome_emptyModule {compiler : CompilerObject I S V} {bytes debugMap : List UInt8}
    {ownsMemory : Bool} (hreset : ∃ compiler' : CompilerObject I S V,
      resetCompilation compiler = .ok () compiler')
    (houtcome : x86Configuration.outcome compiler emptyModule =
      ⟨.inr ⟨bytes, ownsMemory⟩, debugMap⟩) :
    bytes.length = compiler.output.size + 112 ∧
      ownsMemory = compiler.output.memory.extensionRequestPtr.isSome := by
  obtain ⟨compiler₁, hreset⟩ := hreset
  have hsame : compiler₁.output = compiler.output := output_resetCompilation hreset
  rw [CompilerConfiguration.outcome, compile_eq, startCompilation_emptyModule hreset] at houtcome
  cases hrun : (writeBlob x86Configuration (emitGenericTrapHandler x86Configuration) >>=
    fun _ => (emptyModule : CompileCall I S V).emission.run x86Configuration) compiler₁ with
  | error e compiler₂ =>
      rw [hrun] at houtcome
      cases houtcome
  | ok _ compiler₂ =>
      rw [hrun] at houtcome
      simp only [CompileOutcome.mk.injEq, Sum.inr.injEq, ManagedBinary.mk.injEq] at houtcome
      obtain ⟨⟨rfl, rfl⟩, -⟩ := houtcome
      have hlength : compiler₂.output.contents.length = compiler₂.output.size :=
        List.length_take_of_le
          (appends_emptyModule.le_length _ _ _ hrun (Or.inr (by decide)))
      rw [hlength, appends_emptyModule.size _ _ _ hrun, hsame,
        (appends_emptyModule.advancing.of_ok hrun).output.request, hsame]
      exact ⟨rfl, rfl⟩

variable [Inhabited S] [Inhabited V]

/-- On a constructed object it is a binary. -/
theorem outcome_construct_emptyModule : ∃ bytes debugMap,
    x86Configuration.outcome x86Configuration.construct (emptyModule : CompileCall I S V) =
      ⟨.inr ⟨bytes, true⟩, debugMap⟩ := by
  obtain ⟨compiler₁, hreset⟩ : ∃ compiler' : CompilerObject I S V,
      resetCompilation x86Configuration.construct = .ok () compiler' :=
    resetCompilation_regular x86Configuration x86Configuration_regular rfl
  have hsame := output_resetCompilation hreset
  have hrequest : compiler₁.output.memory.extensionRequestPtr = some appendingRealloc := by
    rw [hsame]
    rfl
  have hzero : compiler₁.output.size = 0 := by
    rw [hsame]
    rfl
  obtain ⟨a, compiler₂, hrun⟩ := appends_emptyModule.succeeds compiler₁ hrequest (by
    rw [hzero, uint32Max]
    omega)
  rw [CompilerConfiguration.outcome, compile_eq, startCompilation_emptyModule hreset, hrun]
  refine ⟨compiler₂.output.contents, compiler₂.finish.debugMap.contents, ?_⟩
  dsimp only
  rw [(appends_emptyModule.advancing.of_ok hrun).output.request, hrequest]
  rfl

/-! ### Reuse -/

/-- All later compilations of whatever module, in whatever configuration, are as on a new
object, if and only if every earlier call was rejected before anything was emitted. -/
theorem outcome_afterCalls_iff (history : List (CompileCall I S V)) :
    (∀ (config : CompilerConfiguration) (call : CompileCall I S V),
      config.outcome (config.afterCalls history) call = config.outcome config.construct call) ↔
      ∀ call ∈ history, call.Rejected := by
  constructor
  · intro hsame
    by_contra hrejected
    simp only [not_forall, exists_prop] at hrejected
    have hspent : (x86Configuration.afterCalls history).output.Spent :=
      spent_afterCalls x86Configuration x86Configuration_regular hrejected
    obtain ⟨bytes, debugMap, hfresh⟩ := outcome_construct_emptyModule (I := I) (S := S) (V := V)
    have hlength := outcome_emptyModule
      (resetCompilation_regular x86Configuration x86Configuration_regular rfl) hfresh
    have hreused := (hsame x86Configuration emptyModule).trans hfresh
    have hlength' := outcome_emptyModule
      (resetCompilation_regular x86Configuration x86Configuration_regular
        (request_afterCalls x86Configuration history)) hreused
    rcases hspent with hsize | hnone
    · have hzero : (x86Configuration.construct : CompilerObject I S V).output.size = 0 := rfl
      omega
    · rw [hnone] at hlength'
      exact absurd hlength'.2 (by decide)
  · intro hrejected config call
    rw [CompilerConfiguration.outcome, CompilerConfiguration.outcome,
      compile_congr config (afterCalls_rejected config history hrejected)]

/-- After a module with an empty type section has been refused, the empty module gives a
longer binary. -/
theorem outcome_after_emptyTypeSection :
    ∃ reused fresh,
      (x86Configuration.outcome
        (x86Configuration.afterCalls [(emptyTypeSection : CompileCall Unit Unit Unit)])
        emptyModule).result = .inr reused ∧
      (x86Configuration.outcome
        (x86Configuration.construct : CompilerObject Unit Unit Unit)
        emptyModule).result = .inr fresh ∧
      reused.bytes ≠ fresh.bytes := by
  have hbinaries : ((match (x86Configuration.outcome
      (x86Configuration.afterCalls [(emptyTypeSection : CompileCall Unit Unit Unit)])
        emptyModule).result, (x86Configuration.outcome
      (x86Configuration.construct : CompilerObject Unit Unit Unit) emptyModule).result with
      | .inr reused, .inr fresh => reused.bytes != fresh.bytes
      | _, _ => false) = true) := by
    decide +kernel
  split at hbinaries
  next reused fresh hreused hfresh => exact ⟨reused, fresh, hreused, hfresh, bne_iff_ne.mp hbinaries⟩
  next => cases hbinaries

end WasmCompiler
