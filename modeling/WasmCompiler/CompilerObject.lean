import WasmCompiler.CompilerMemory
import WasmCompiler.ModuleSerialization

/-!
# A Compiler Object and its Compilations

`Compiler::compile` can be called many times on one object. This module has the state that
lies in the object between two calls: the writers, the module info, the two stacks, the flag
of `Common`, and what the assembler and the backend remember of the output, the positions of
trap code (`LastTrapPositionMap`) and of shared routines
(`UnalignedAccessCodePositions`). A compilation first resets some of it, reads the header of
the bytecode, writes the trap handler, and then does what the module makes it do.

What a module makes the frontend do is any sequence of accesses to that state (`Emission`):
the frontend, the code generation and the serialisation have no other state. The type of the
module info and those of the stacks are left open.
-/

namespace WasmCompiler

/-! ### The state of the object -/

/-- `TrapCode`. -/
inductive TrapCode where
  | none
  | unreachable
  | builtinTrap
  | linMemOutOfBoundsAccess
  | linMemCouldNotExtend
  | indirectCallOutOfBounds
  | indirectCallWrongSig
  | linkedMemoryMux
  | linkedMemoryOutOfBounds
  | divZero
  | divOverflow
  | truncOverflow
  | runtimeInterruptRequested
  | stackFenceBreached
  | calledFunctionNotLinked
  deriving DecidableEq, Repr

/-- The routines for unaligned accesses that later code of a TriCore binary shares. -/
inductive UnalignedAccess where
  | load2s
  | load2u
  | load4
  | load8
  | store2
  | store4
  | store8
  deriving DecidableEq, Repr

/-- The module info: the two fields that the emission of traps reads, and all others. -/
structure CompiledModuleInfo (I : Type) where
  genericTrapHandler : ℕ := 0xFFFFFFFF
  bytecodePosOfLastParsedInstruction : ℕ := 0
  fields : I

/-- The data structures of the compilation: the module info, the compiler stack, the
validation stack, and `hasPendingSideEffectInstructions_` of `Common`. -/
structure CompilationData (I S V : Type) where
  moduleInfo : CompiledModuleInfo I
  stack : S
  validationStack : V
  hasPendingSideEffectInstructions : Bool := false

/-- A compiler object between and during compilations. -/
structure CompilerObject (I S V : Type) where
  data : CompilationData I S V
  memory : MemWriter
  output : MemWriter
  debugMap : MemWriter
  /-- `lastTrapPosition_` of the assembler; zero is no position. -/
  lastTrapPosition : TrapCode → ℕ := fun _ => 0
  /-- `unalignedAccessCodePositions_` of the backend. -/
  unalignedAccessCodePositions : UnalignedAccess → ℕ := fun _ => uint32Max

/-- The writers of the object. -/
inductive Writer where
  | memory
  | output
  | debugMap
  deriving DecidableEq, Repr

/-- What the object is constructed with, and the machine code of the pieces that are put
together here. Jumps are given by where they are and where they go to. -/
structure CompilerConfiguration where
  target : JitTarget
  debugMode : Bool
  stacktraceRecordCount : ℕ
  compilerMemoryRealloc : WriterReallocFnc
  binaryMemoryRealloc : WriterReallocFnc
  debugMapRealloc : Option WriterReallocFnc
  nativeTrapAdapter : List UInt8
  stackTraceCollector : ℕ → List UInt8
  trapHandler : List UInt8
  movTrapReg : TrapCode → List UInt8
  movTrapPosReg : ℕ → List UInt8
  jump : ℕ → ℕ → List UInt8
  /-- A jump under the condition of that number, or under its negation. -/
  conditionalJump : ℕ → Bool → ℕ → ℕ → List UInt8
  unalignedAccess : UnalignedAccess → List UInt8
  fastCall : ℕ → ℕ → List UInt8

section

variable {I S V : Type}

/-- Computations on the object. -/
abbrev CompileM (I S V : Type) : Type → Type :=
  EStateM CompileError (CompilerObject I S V)

/-- A writer of the object. -/
def CompilerObject.writer (compiler : CompilerObject I S V) : Writer → MemWriter
  | .memory => compiler.memory
  | .output => compiler.output
  | .debugMap => compiler.debugMap

/-- The object with another writer. -/
def CompilerObject.setWriter (compiler : CompilerObject I S V) (w : Writer)
    (writer : MemWriter) : CompilerObject I S V :=
  match w with
  | .memory => { compiler with memory := writer }
  | .output => { compiler with output := writer }
  | .debugMap => { compiler with debugMap := writer }

/-- Run an operation on a writer. -/
def onWriter {α : Type} (w : Writer) (x : EStateM CompileError MemWriter α) :
    CompileM I S V α := fun compiler =>
  match x (compiler.writer w) with
  | .ok a writer => .ok a (compiler.setWriter w writer)
  | .error e writer => .error e (compiler.setWriter w writer)

/-- Write at the end of the output. -/
def writeOutput (bytes : List UInt8) : CompileM I S V Unit :=
  onWriter .output (MemWriter.write bytes)

/-- The position at the end of the output. -/
def outputSize : CompileM I S V ℕ := do
  return (← get).output.size

/-! ### Traps -/

/-- Whether a number is in the range of signed integers of that many bits. -/
def inRange (bits : ℕ) (x : ℤ) : Bool :=
  -2 ^ (bits - 1) ≤ x ∧ x < 2 ^ (bits - 1)

/-- The distance that a range check of the target is about. -/
def JitTarget.distance (target : JitTarget) (currentPosition position : ℕ) : ℤ :=
  match target with
  | .tricore => (position : ℤ) - currentPosition
  | _ => (currentPosition : ℤ) - position

/-- `LastTrapPositionMap::get`: a position that a jump of that width reaches. -/
def lastTrapPositionInRange (target : JitTarget) (bits : ℕ) (trapCode : TrapCode) :
    CompileM I S V (Option ℕ) := do
  let compiler ← get
  let position := compiler.lastTrapPosition trapCode
  if position ≠ 0 ∧ inRange bits (target.distance compiler.output.size position) then
    return some position
  return none

/-- `LastTrapPositionMap::set`. -/
def setLastTrapPosition (trapCode : TrapCode) (position : ℕ) : CompileM I S V Unit :=
  modify fun compiler =>
    { compiler with
      lastTrapPosition := fun code =>
        if code = trapCode then position else compiler.lastTrapPosition code }

/-- Jump to a position. -/
def writeJump (config : CompilerConfiguration) (position : ℕ) : CompileM I S V Unit := do
  let here ← outputSize
  writeOutput (config.jump here position)

/-- Jump to the trap handler, or to code that was emitted for another trap. -/
def jumpToTrapHandler (config : CompilerConfiguration) (bits jumpBits : ℕ) :
    CompileM I S V Unit := do
  let handler := (← get).data.moduleInfo.genericTrapHandler
  let here ← outputSize
  if inRange bits (config.target.distance here handler) then
    setLastTrapPosition .none here
    writeJump config handler
  else
    match ← lastTrapPositionInRange config.target jumpBits .none with
    | some position => writeJump config position
    | none => throw .branchesCanOnlyTargetOffsetsInTheRange128MB

/-- `Assembler::TRAP`: where the assembler has emitted the same trap within reach, it jumps
there. On x86_64 it never does, on AArch64 not in debug mode. -/
def emitTrap (config : CompilerConfiguration) (trapCode : TrapCode) (loadTrapCode : Bool) :
    CompileM I S V Unit := do
  let moduleInfo := (← get).data.moduleInfo
  match config.target with
  | .x86_64 =>
      if config.debugMode then
        writeOutput (config.movTrapPosReg moduleInfo.bytecodePosOfLastParsedInstruction)
      if loadTrapCode then
        writeOutput (config.movTrapReg trapCode)
      writeJump config moduleInfo.genericTrapHandler
  | .aarch64 =>
      if config.debugMode then
        writeOutput (config.movTrapPosReg moduleInfo.bytecodePosOfLastParsedInstruction)
        if trapCode ≠ .none then
          writeOutput (config.movTrapReg trapCode)
        writeJump config moduleInfo.genericTrapHandler
      else
        match ← lastTrapPositionInRange config.target 21 trapCode with
        | some position => writeJump config position
        | none =>
            if trapCode ≠ .none then
              setLastTrapPosition trapCode (← outputSize)
              writeOutput (config.movTrapReg trapCode)
            jumpToTrapHandler config 28 21
  | .tricore =>
      match ← lastTrapPositionInRange config.target 25 trapCode with
      | some position => writeJump config position
      | none =>
          if trapCode ≠ .none then
            setLastTrapPosition trapCode (← outputSize)
            writeOutput (config.movTrapReg trapCode)
          jumpToTrapHandler config 25 25

/-- Emit a piece of code between a jump over it and its end. -/
def emitSkipped (jump : ℕ → ℕ → List UInt8) (code : CompileM I S V Unit) :
    CompileM I S V Unit := do
  let start ← outputSize
  writeOutput (jump start start)
  code
  onWriter .output (MemWriter.patch start (jump start (← outputSize)))

/-- `Assembler::cTRAP`: a conditional jump to code of the same trap within reach, or a trap
that is jumped over. -/
def emitConditionalTrap (config : CompilerConfiguration) (trapCode : TrapCode)
    (condition : ℕ) : CompileM I S V Unit := do
  let last ←
    match config.target with
    | .x86_64 => pure none
    | .aarch64 => lastTrapPositionInRange config.target 21 trapCode
    | .tricore => lastTrapPositionInRange config.target 16 trapCode
  match last with
  | some position => writeOutput (config.conditionalJump condition true (← outputSize) position)
  | none =>
      emitSkipped (config.conditionalJump condition false) (emitTrap config trapCode true)

/-- The shared part of an unaligned access on TriCore: the first one emits the routine that
all of them call. -/
def emitUnalignedAccess (config : CompilerConfiguration) (access : UnalignedAccess) :
    CompileM I S V Unit := do
  if (← get).unalignedAccessCodePositions access = uint32Max then
    emitSkipped config.jump do
      let here ← outputSize
      modify fun compiler =>
        { compiler with
          unalignedAccessCodePositions := fun other =>
            if other = access then here else compiler.unalignedAccessCodePositions other }
      writeOutput (config.unalignedAccess access)
  let position := (← get).unalignedAccessCodePositions access
  writeOutput (config.fastCall (← outputSize) position)

/-! ### What a module makes the compiler do -/

/-- What the frontend does behind the trap handler. It may read what is written and what the
data structures hold, change both, emit traps and unaligned accesses, and throw. -/
inductive Emission (I S V : Type) where
  | done
  | throw_ (error : CompileError)
  | write (writer : Writer) (bytes : List UInt8) (next : Emission I S V)
  | patch (writer : Writer) (position : ℕ) (bytes : List UInt8) (next : Emission I S V)
  | read (writer : Writer) (next : List UInt8 → Emission I S V)
  /-- Only the internal memory is ever made shorter. -/
  | resizeMemory (size : ℕ) (next : Emission I S V)
  | update (change : CompilationData I S V → CompilationData I S V) (next : Emission I S V)
  | inspect (next : CompilationData I S V → Emission I S V)
  | trap (trapCode : TrapCode) (loadTrapCode : Bool) (next : Emission I S V)
  | conditionalTrap (trapCode : TrapCode) (condition : ℕ) (next : Emission I S V)
  | unalignedAccess (access : UnalignedAccess) (next : Emission I S V)

/-- Do it. -/
def Emission.run (config : CompilerConfiguration) : Emission I S V → CompileM I S V Unit
  | done => return ()
  | throw_ error => throw error
  | write w bytes next => do
      onWriter w (MemWriter.write bytes)
      run config next
  | patch w position bytes next => do
      onWriter w (MemWriter.patch position bytes)
      run config next
  | read w next => do
      let compiler ← get
      run config (next (compiler.writer w).contents)
  | resizeMemory size next => do
      onWriter .memory (MemWriter.resize size)
      run config next
  | update change next => do
      modify fun compiler => { compiler with data := change compiler.data }
      run config next
  | inspect next => do
      let compiler ← get
      run config (next compiler.data)
  | trap trapCode loadTrapCode next => do
      emitTrap config trapCode loadTrapCode
      run config next
  | conditionalTrap trapCode condition next => do
      emitConditionalTrap config trapCode condition
      run config next
  | unalignedAccess access next => do
      emitUnalignedAccess config access
      run config next

/-! ### A compilation -/

/-- A call of `Compiler::compile`: the bytecode, which may be a null pointer, and what it makes
the frontend do if its header is valid. -/
structure CompileCall (I S V : Type) where
  bytecode : Option (List UInt8)
  emission : Emission I S V

/-- The magic number. -/
def wasmBinaryMagic : List UInt8 := [0x00, 0x61, 0x73, 0x6D]

/-- `Frontend::validateMagicNumber`; the bytes that follow are left. -/
def validateMagicNumber : List UInt8 → List UInt8 → Except CompileError (List UInt8)
  | [], bytecode => .ok bytecode
  | _ :: _, [] => .error .bytecodeOutOfRange
  | expected :: magic, byte :: bytecode =>
      if expected ≠ byte then .error .wrongWasmMagicNumber
      else validateMagicNumber magic bytecode

/-- `Frontend::validateVersion`. -/
def validateVersion (bytecode : List UInt8) : Except CompileError Unit :=
  if bytecode.length < 4 then .error .bytecodeOutOfRange
  else if ofBytesLE (bytecode.take 4) ≠ 1 then .error .wasmVersionNotSupported
  else .ok ()

/-- What `startCompilation` checks before it writes anything. -/
def validateHeader : Option (List UInt8) → Except CompileError Unit
  | none => .error .emptyInput
  | some bytecode => validateMagicNumber wasmBinaryMagic bytecode >>= validateVersion

/-- `Common::emitGenericTrapHandler`. It asserts that the output is empty; the assertion has
no effect in a release build. -/
def emitGenericTrapHandler (config : CompilerConfiguration) : CompileM I S V Unit := do
  writeOutput config.nativeTrapAdapter
  let here ← outputSize
  modify fun compiler =>
    { compiler with
      data := { compiler.data with
        moduleInfo := { compiler.data.moduleInfo with genericTrapHandler := here } } }
  if 0 < config.stacktraceRecordCount then
    writeOutput (config.stackTraceCollector config.stacktraceRecordCount)
  writeOutput config.trapHandler

/-- `Frontend::writePaddedBinaryBlob`. -/
def writeBlob (config : CompilerConfiguration) (code : CompileM I S V Unit) :
    CompileM I S V Unit := do
  let wrapperStart ← outputSize
  code
  let wrapperSize := UInt32.ofNat ((← outputSize) - wrapperStart)
  writeOutput (execPadding config.target (deltaToNextPow2 wrapperSize 2))
  writeOutput (bytesLE 4 wrapperSize.toNat)

variable [Inhabited I] [Inhabited S] [Inhabited V]

/-- A constructed object; `enableDebugMode` gives the debug map its memory. -/
def CompilerConfiguration.construct (config : CompilerConfiguration) : CompilerObject I S V where
  data := { moduleInfo := { fields := default }, stack := default, validationStack := default }
  memory := { memory := { extensionRequestPtr := some config.compilerMemoryRealloc } }
  output := { memory := { extensionRequestPtr := some config.binaryMemoryRealloc } }
  debugMap := { memory := { extensionRequestPtr := config.debugMapRealloc } }

/-- The resets at the beginning of `Frontend::startCompilation`. -/
def resetCompilation : CompileM I S V Unit := do
  onWriter .memory MemWriter.flush
  modify fun compiler =>
    { compiler with data := { compiler.data with moduleInfo := { fields := default } } }
  onWriter .memory (MemWriter.reserve 0xFF)

/-- `Frontend::startCompilation`. -/
def CompilerConfiguration.startCompilation (config : CompilerConfiguration)
    (call : CompileCall I S V) : CompileM I S V Unit := do
  resetCompilation
  match validateHeader call.bytecode with
  | .error e => throw e
  | .ok _ =>
      writeBlob config (emitGenericTrapHandler config)
      call.emission.run config

/-- `Compiler::compile`. The output is flushed on success only. -/
def CompilerConfiguration.compile (config : CompilerConfiguration) (call : CompileCall I S V) :
    CompileM I S V ManagedBinary := do
  config.startCompilation call
  let outputBinary ← onWriter .output MemWriter.toManagedBinary
  onWriter .output MemWriter.flush
  return outputBinary

/-- What a compilation gives: an error or a binary, and the debug map that can be
retrieved. -/
structure CompileOutcome where
  result : CompileError ⊕ ManagedBinary
  debugMap : List UInt8
  deriving DecidableEq, Repr

/-- The outcome of a call. -/
def CompilerConfiguration.outcome (config : CompilerConfiguration)
    (compiler : CompilerObject I S V) (call : CompileCall I S V) : CompileOutcome :=
  match config.compile call compiler with
  | .ok binary compiler' => ⟨.inr binary, compiler'.debugMap.contents⟩
  | .error e compiler' => ⟨.inl e, compiler'.debugMap.contents⟩

/-- The object after a sequence of calls, each of which may have failed. -/
def CompilerConfiguration.afterCalls (config : CompilerConfiguration)
    (history : List (CompileCall I S V)) : CompilerObject I S V :=
  history.foldl (fun compiler call => finalState (config.compile call) compiler)
    config.construct

end

end WasmCompiler
