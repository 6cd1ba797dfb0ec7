import WasmCompiler.TriCoreSelectInstr

/-!
# Code of a Selected Instruction on TriCore

`selectInstr` first moves operands from memory to registers, selects an instruction of the family,
moves the operands that the instruction needs in registers, provides a register for the result and
emits the instruction. A move goes to the register of the target hint, if the other operand is not
in it.

## Main results

* `Lifting.Reads.liftArg`: an operand that is moved keeps its value, and so does the other one.
* `prelift_args`, `liftFor_spec`: where operands are moved before and behind the selection.
* `situation_passed`: the selection sees operands as the callers pass them.
-/

namespace WasmCompiler

namespace TriCore

open ByteMemory Machine

/-! ### Requests -/

/-- A target hint whose register suits: its storage, whether it is a scratch register that can be
written, and whether the element for a word in its register is one. -/
structure TargetHint where
  reg : REG
  machineType : MachineType
  writable : Bool
  resultWritable : Bool
  deriving DecidableEq, Repr

/-- The storage of a hint. -/
def TargetHint.storage (h : TargetHint) : VariableStorage REG := ⟨h.machineType, .register h.reg⟩

/-- An operand: its storage, and whether it is a scratch register that can be written. -/
structure SelectionOperand where
  storage : VariableStorage REG
  writable : Bool
  deriving DecidableEq, Repr

/-- A register that the allocator provides, and the spills for it. -/
structure RegCandidate where
  spills : List AllocStep
  reg : REG
  deriving DecidableEq, Repr

/-- The arguments of `selectInstr` and the state that it depends on: the operands, the second one at
`true`, a hint that suits, whether `D15` is available, and what the allocator provides beside
registers in use, for an operand or for the result. -/
structure SelectionRequest where
  family : InstrFamily
  args : Bool → SelectionOperand
  hint : Option TargetHint
  isD15Available : Bool
  candidate : Option Bool → List REG → RegCandidate

/-- The operands while they are moved, whether one was moved along with the other one, and what was
emitted. -/
structure Lifting where
  args : Bool → SelectionOperand
  lifted : Bool → Bool
  steps : List AllocStep

/-- The registers of an operand. -/
def maskOf (storage : VariableStorage REG) : List REG :=
  match storage.location with
  | .register reg => [reg]
  | _ => []

/-- An operand is in memory, `inMemory`. -/
def inMemory (storage : VariableStorage REG) : Bool :=
  match storage.location with
  | .linkData _ | .stackMemory _ => true
  | _ => false

/-- A word in a register. -/
def wordReg (reg : REG) : VariableStorage REG := ⟨.i32, .register reg⟩

/-- `reqScratchRegProt` with a target: the register of the target if no operand is in it, or else a
candidate. -/
def reqTargetOrCandidate (target : Option (REG × Bool)) (protRegs : List REG)
    (candidate : List REG → RegCandidate) : REG × Bool × List AllocStep :=
  match target with
  | some (reg, writable) =>
      if reg ∈ protRegs then ((candidate protRegs).reg, true, (candidate protRegs).spills)
      else (reg, writable, [])
  | none => ((candidate protRegs).reg, true, (candidate protRegs).spills)

namespace SelectionRequest

variable (r : SelectionRequest)

/-- `argsAreEqual`. -/
def argsAreEqual : Bool := (r.args false).storage.inSameLocation (r.args true).storage

/-- The target of a move. -/
def liftTarget (liftToD15 : Bool) : Option (REG × Bool) :=
  if liftToD15 || (r.hint.isNone && r.isD15Available) then some (.D 15, true)
  else r.hint.map fun h => (h.reg, h.resultWritable)

/-- `liftArgLambda`. -/
def liftArg (idx coLift liftToD15 : Bool) (l : Lifting) : Lifting :=
  if r.argsAreEqual && l.lifted (!idx) && coLift then
    { l with args := Function.update l.args idx (l.args (!idx)) }
  else
    let (reg, writable, spills) := reqTargetOrCandidate (r.liftTarget liftToD15)
      (maskOf (l.args (!idx)).storage) (r.candidate (some idx))
    let both := r.argsAreEqual && !l.lifted (!idx) && coLift
    { args := fun k => if k == idx || both then ⟨wordReg reg, writable⟩ else l.args k
      lifted := fun k => l.lifted k || (both && k != idx)
      steps := l.steps ++ (spills ++ [.lift reg (l.args idx).storage]) }

/-- The moves of operands from memory. -/
def prelift : Lifting :=
  let l : Lifting := ⟨r.args, fun _ => false, []⟩
  let l := if inMemory (l.args false).storage then r.liftArg false true false l else l
  if !l.lifted true && inMemory (l.args true).storage then r.liftArg true true false l else l

/-- What the costs depend on, for operands. -/
def situation (args : Bool → SelectionOperand) : Situation where
  kind0 := operandKind (args false).storage
  kind1 := operandKind (args true).storage
  isArgsSame := (args false).storage.inSameLocation (args true).storage
  isDst0 := match r.hint with
    | some h => h.storage == (args false).storage
    | none => (args false).writable
  isDst1 := match r.hint with
    | some h => h.storage == (args true).storage
    | none => (args true).writable
  liftedIsDst := match r.hint with
    | some h => h.writable
    | none => true
  hintNotD15 := match r.hint with
    | some h => h.reg != .D 15
    | none => false
  isD15Available := r.isD15Available

/-- The moves for an instruction. -/
def liftFor (i : AbstrInstr) (c : OperandMovement) (l : Lifting) : Lifting :=
  let l := if c.movArg0 then
      r.liftArg false c.movArg1 (i.arg0Type c.reversed == .d15) l
    else l
  if c.movArg1 && !l.lifted true then r.liftArg true false (i.arg1Type c.reversed == .d15) l else l

/-- The storage for the result, with the spills for it. -/
def destFor (i : AbstrInstr) (args : Bool → SelectionOperand) :
    VariableStorage REG × List AllocStep :=
  match r.hint with
  | some h => (wordReg h.reg, [])
  | none =>
      if (args false).writable then ((args false).storage, [])
      else if (args true).writable then ((args true).storage, [])
      else
        let (reg, _, spills) := reqTargetOrCandidate
          (if i.destType == .d15 then some (.D 15, true) else none)
          (maskOf (args false).storage ++ maskOf (args true).storage) (r.candidate none)
        (wordReg reg, spills)

end SelectionRequest

/-! ### Instructions -/

/-- The register that a storage has. -/
def locationReg (storage : VariableStorage REG) : REG :=
  match storage.location with
  | .register reg => reg
  | _ => .D 0

/-- The constant that a storage has. -/
def locationConst (storage : VariableStorage REG) : BitVec 32 :=
  match storage.location with
  | .constant value => value.setWidth 32
  | _ => 0

/-- The fields of an instruction. -/
structure InstrFields where
  a : REG
  b : REG
  c : REG
  const4 : BitVec 4
  const8 : BitVec 8
  const9 : BitVec 9
  const16 : BitVec 16
  deriving DecidableEq, Repr

namespace InstrFields

/-- No field is set. -/
def zero : InstrFields := ⟨.D 0, .D 0, .D 0, 0, 0, 0, 0⟩

/-- `setOperand`. -/
def setOperand (fields : InstrFields) (storage : VariableStorage REG) : ArgType → InstrFields
  | .none | .d15 => fields
  | .dataReg32_a => { fields with a := locationReg storage }
  | .dataReg32_b => { fields with b := locationReg storage }
  | .dataReg32_c => { fields with c := locationReg storage }
  | .const4sx_32 => { fields with const4 := (locationConst storage).setWidth 4 }
  | .const8zx_32 => { fields with const8 := (locationConst storage).setWidth 8 }
  | .const9sx_32 | .const9zx_32 => { fields with const9 := (locationConst storage).setWidth 9 }
  | .const16sx_32 => { fields with const16 := (locationConst storage).setWidth 16 }

/-- What an instruction reads as a source of a type. -/
def read (fields : InstrFields) (m : Machine) : ArgType → BitVec 32
  | .none => 0
  | .d15 => m.regs (.D 15)
  | .dataReg32_a => m.regs fields.a
  | .dataReg32_b => m.regs fields.b
  | .dataReg32_c => m.regs fields.c
  | .const4sx_32 => fields.const4.signExtend 32
  | .const8zx_32 => fields.const8.setWidth 32
  | .const9sx_32 => fields.const9.signExtend 32
  | .const9zx_32 => fields.const9.setWidth 32
  | .const16sx_32 => fields.const16.signExtend 32

/-- The register that an instruction writes. -/
def destReg (fields : InstrFields) : ArgType → REG
  | .dataReg32_a => fields.a
  | .dataReg32_b => fields.b
  | .dataReg32_c => fields.c
  | _ => .D 15

end InstrFields

/-- `emitAbstrInstr`. -/
def emitAbstrInstr (i : AbstrInstr) (dest src0 src1 : VariableStorage REG) : InstrFields :=
  let fields := InstrFields.zero.setOperand dest i.destType
  let fields := if i.src0_dst_same then fields else fields.setOperand src0 i.src0Type
  fields.setOperand src1 i.src1Type

/-- The execution of an instruction. -/
def AbstrInstr.exec (i : AbstrInstr) (fields : InstrFields) (m : Machine) : Machine :=
  m.setReg (fields.destReg i.destType)
    (i.mnemonic.eval (fields.read m i.src0Type) (fields.read m i.src1Type))

/-- The code of a selection: the moves and spills, and behind them the instruction, with the
storage of the result. -/
structure SelectedCode where
  instr : AbstrInstr
  reversed : Bool
  steps : List AllocStep
  dest : VariableStorage REG
  src0 : VariableStorage REG
  src1 : VariableStorage REG
  deriving DecidableEq, Repr

/-- The fields of the instruction. -/
def SelectedCode.fields (code : SelectedCode) : InstrFields :=
  emitAbstrInstr code.instr code.dest code.src0 code.src1

/-- `selectInstr`. -/
def SelectionRequest.selectInstr (r : SelectionRequest) : Option SelectedCode :=
  match chooseInstr (r.situation r.prelift.args) r.family.instructions with
  | (none, _) => none
  | (some i, c) =>
      let l := r.liftFor i c r.prelift
      let (dest, spills) := r.destFor i l.args
      some
        { instr := i
          reversed := c.reversed
          steps := l.steps ++ spills
          dest := dest
          src0 := (l.args c.reversed).storage
          src1 := (l.args (!c.reversed)).storage }

/-! ### Moves keep the operands -/

/-- What the allocator provides beside the registers `protRegs`: another data register, behind
spills of others to slots that are not at the operands. -/
structure RegCandidate.Provides (candidate : RegCandidate) (jobMemory frameTop : BitVec 32)
    (protRegs : List REG) (args : Bool → SelectionOperand) : Prop where
  isDATA : candidate.reg.isDATA = true
  notProtected : candidate.reg ∉ protRegs
  valid : ∀ step ∈ candidate.spills, step.Valid
  spills : ∀ step ∈ candidate.spills, ∃ source newOffset, step = .spill source newOffset ∧
    (∀ reg ∈ protRegs, ¬ StorageReg source reg) ∧
    ∀ k x, StorageByte jobMemory frameTop (args k).storage x →
      ¬ StorageByte jobMemory frameTop step.target x

/-- A storage that has registers in use and bytes of operands only. -/
def InUse (jobMemory frameTop : BitVec 32) (protRegs : List REG) (args : Bool → SelectionOperand)
    (t : VariableStorage REG) : Prop :=
  (∀ reg, StorageReg t reg → reg ∈ protRegs) ∧
    ∀ x, StorageByte jobMemory frameTop t x → ∃ k, StorageByte jobMemory frameTop (args k).storage x

/-- What is in use is not spilled. -/
theorem RegCandidate.Provides.avoidsAll {candidate : RegCandidate} {jobMemory frameTop : BitVec 32}
    {protRegs : List REG} {args : Bool → SelectionOperand}
    (h : candidate.Provides jobMemory frameTop protRegs args) {t : VariableStorage REG}
    (ht : InUse jobMemory frameTop protRegs args t) :
    AvoidsAll jobMemory frameTop candidate.spills t ∧ relocateAll candidate.spills t = t := by
  have hvalid := h.valid
  have hspills := h.spills
  clear h
  generalize candidate.spills = spills at *
  induction spills with
  | nil => exact ⟨trivial, rfl⟩
  | cons step steps ih =>
      obtain ⟨source, newOffset, rfl, hprot, hbytes⟩ := hspills step List.mem_cons_self
      obtain ⟨havoids, hsame⟩ := ih (fun a ha => hvalid a (List.mem_cons_of_mem _ ha))
        fun a ha => hspills a (List.mem_cons_of_mem _ ha)
      have hne : t ≠ source := by
        rintro rfl
        obtain ⟨reg, hreg⟩ := (hvalid _ List.mem_cons_self).2
        have hstorage : StorageReg t reg := by
          rw [StorageReg, hreg]
          exact .inl rfl
        exact hprot reg (ht.1 reg hstorage) hstorage
      have hstep : (AllocStep.spill source newOffset).relocate t = t := if_neg hne
      refine ⟨⟨⟨fun r _ htarget => htarget, fun x hx => ?_⟩, by rwa [hstep]⟩, ?_⟩
      · obtain ⟨k, hk⟩ := ht.2 x hx
        exact hbytes k x hk
      · rw [relocateAll, List.foldl_cons, hstep]
        exact hsame

/-- A word in a register has no other registers and no bytes. -/
theorem inUse_wordReg {jobMemory frameTop : BitVec 32} {protRegs : List REG}
    {args : Bool → SelectionOperand} {reg : REG} (h : reg ∈ protRegs) :
    InUse jobMemory frameTop protRegs args (wordReg reg) := by
  refine ⟨fun r hr => ?_, fun x ⟨a, ha, _⟩ => ?_⟩
  · rcases hr with rfl | ⟨h64, -⟩
    · exact h
    · cases h64
  · cases ha

/-- An operand that is no pair. -/
theorem inUse_arg {jobMemory frameTop : BitVec 32} {protRegs : List REG}
    {args : Bool → SelectionOperand} {k : Bool} (h64 : (args k).storage.machineType.is64 = false)
    (hmask : ∀ reg ∈ maskOf (args k).storage, reg ∈ protRegs) :
    InUse jobMemory frameTop protRegs args (args k).storage := by
  refine ⟨fun reg hreg => ?_, fun x hx => ⟨k, hx⟩⟩
  rw [StorageReg] at hreg
  rw [maskOf] at hmask
  split at hreg
  · case _ reg' heq =>
      rw [heq] at hmask
      rcases hreg with rfl | ⟨hpair, -⟩
      · exact hmask reg List.mem_cons_self
      · rw [h64] at hpair
        cases hpair
  · exact hreg.elim

/-- An operand of an operation on words. -/
def WordStorage (s : VariableStorage REG) : Prop := ValidStorage s ∧ s.machineType = .i32

/-- A word in a data register. -/
theorem wordStorage_wordReg {reg : REG} (h : reg.isDATA = true) : WordStorage (wordReg reg) :=
  ⟨⟨nofun, h, nofun⟩, rfl⟩

/-- The operands of a request are words, a missing one apart, and registers are provided. -/
structure SelectionRequest.Typed (r : SelectionRequest) (jobMemory frameTop : BitVec 32) :
    Prop where
  arg : ∀ k, WordStorage (r.args k).storage ∨ (k = true ∧ (r.args k).storage = ⟨.invalid, .invalid⟩)
  hint : ∀ h, r.hint = some h → h.reg.isDATA = true
  candidate : ∀ k protRegs, protRegs.length ≤ 2 →
    (r.candidate k protRegs).Provides jobMemory frameTop protRegs r.args

/-- While operands are moved, each is where it was or a word in a register, and has its value. -/
structure Lifting.Reads (l : Lifting) (r : SelectionRequest) (jobMemory frameTop : BitVec 32) :
    Prop where
  args : ∀ k, l.args k = r.args k ∨
    ∃ reg writable, l.args k = ⟨wordReg reg, writable⟩ ∧ reg.isDATA = true
  lifted : ∀ k, l.lifted k = true →
    ∃ reg writable, l.args k = ⟨wordReg reg, writable⟩ ∧ reg.isDATA = true
  steps : ∀ step ∈ l.steps, step.Valid
  run : ∀ {stackFence : BitVec 16} {s s' : FrameState} {code : List WindowInstr} {m m' : Machine},
    emitSteps stackFence s l.steps = some (code, s') → m.Frame s.ctx jobMemory frameTop →
    runWindow code m = .ok m' → m'.Frame s'.ctx jobMemory frameTop ∧
      ∀ k, WordStorage (r.args k).storage →
        operandValue jobMemory frameTop m' (l.args k).storage =
          operandValue jobMemory frameTop m (r.args k).storage

section Lifting

variable {r : SelectionRequest} {jobMemory frameTop : BitVec 32} {l : Lifting}

/-- The operands are no pairs. -/
theorem Lifting.Reads.is64_eq (h : l.Reads r jobMemory frameTop) (hr : r.Typed jobMemory frameTop)
    (k : Bool) : (l.args k).storage.machineType.is64 = false := by
  rcases h.args k with heq | ⟨reg, writable, heq, -⟩
  · rw [heq]
    rcases hr.arg k with harg | ⟨-, harg⟩
    · rw [harg.2]
      rfl
    · rw [harg]
      rfl
  · rw [heq]
    rfl

/-- An operand of a move in progress is in use. -/
theorem Lifting.Reads.inUse (h : l.Reads r jobMemory frameTop) (hr : r.Typed jobMemory frameTop)
    {k : Bool} {protRegs : List REG} (hmask : ∀ reg ∈ maskOf (l.args k).storage, reg ∈ protRegs) :
    InUse jobMemory frameTop protRegs r.args (l.args k).storage := by
  have h64 := h.is64_eq hr k
  rcases h.args k with heq | ⟨reg, writable, heq, -⟩
  · rw [heq] at h64 hmask ⊢
    exact inUse_arg h64 hmask
  · rw [heq] at hmask ⊢
    exact inUse_wordReg (hmask reg List.mem_cons_self)

/-- What a request with a target provides. -/
theorem reqTargetOrCandidate_spec (candidate : List REG → RegCandidate)
    {target : Option (REG × Bool)} {protRegs : List REG} {args : Bool → SelectionOperand}
    (hcandidate : (candidate protRegs).Provides jobMemory frameTop protRegs args)
    (htarget : ∀ reg w, target = some (reg, w) → reg.isDATA = true) :
    (⟨(reqTargetOrCandidate target protRegs candidate).2.2,
      (reqTargetOrCandidate target protRegs candidate).1⟩ : RegCandidate).Provides
        jobMemory frameTop protRegs args := by
  cases target with
  | none => exact hcandidate
  | some t =>
      obtain ⟨reg, w⟩ := t
      by_cases hmem : reg ∈ protRegs
      · rw [reqTargetOrCandidate, if_pos hmem]
        exact hcandidate
      · rw [reqTargetOrCandidate, if_neg hmem]
        exact ⟨htarget reg w rfl, hmem, by simp, by simp⟩

/-- **A move behind others** leaves its operand in its register, and keeps the other one. -/
theorem Lifting.Reads.run_lift (h : l.Reads r jobMemory frameTop)
    (hr : r.Typed jobMemory frameTop) {idx : Bool} {c : RegCandidate}
    (hcandidate : c.Provides jobMemory frameTop (maskOf (l.args (!idx)).storage) r.args)
    (hword : WordStorage (l.args idx).storage) (hidx : maskOf (l.args idx).storage = [])
    (hsteps : ∀ step ∈ c.spills ++ [.lift c.reg (l.args idx).storage], step.Valid)
    {stackFence : BitVec 16} {s s' : FrameState} {code : List WindowInstr} {m m' : Machine}
    (hcode : emitSteps stackFence s (l.steps ++ (c.spills ++
      [.lift c.reg (l.args idx).storage])) = some (code, s'))
    (hm : m.Frame s.ctx jobMemory frameTop) (hrun : runWindow code m = .ok m') :
    m'.Frame s'.ctx jobMemory frameTop ∧
      (WordStorage (r.args idx).storage →
        operandValue jobMemory frameTop m' (wordReg c.reg) =
          operandValue jobMemory frameTop m (r.args idx).storage) ∧
      (WordStorage (r.args (!idx)).storage →
        operandValue jobMemory frameTop m' (l.args (!idx)).storage =
          operandValue jobMemory frameTop m (r.args (!idx)).storage) := by
  rw [emitSteps_append] at hcode
  obtain ⟨⟨first, mid⟩, hfirst, hcode⟩ := Option.bind_eq_some_iff.mp hcode
  obtain ⟨⟨rest, last⟩, hrest, hcode⟩ := Option.map_eq_some_iff.mp hcode
  obtain ⟨rfl, rfl⟩ := Prod.mk.inj hcode
  rw [runWindow_append] at hrun
  cases hrun1 : runWindow first m with
  | error e =>
      rw [hrun1] at hrun
      cases hrun
  | ok m1 =>
      rw [hrun1] at hrun
      obtain ⟨hframe, hvalues⟩ := h.run hfirst hm hrun1
      obtain ⟨havoids, hsame⟩ := hcandidate.avoidsAll
        (h.inUse hr (k := idx) (by rw [hidx]; exact fun _ hreg => absurd hreg List.not_mem_nil))
      obtain ⟨havoids', hsame'⟩ := hcandidate.avoidsAll (h.inUse hr (k := !idx) fun _ => id)
      have hmoved := runWindow_spills_lift hsteps hrest hframe hword.1 havoids hsame hrun
      rw [hword.2] at hmoved
      rcases runWindow_emitSteps hsteps hrest hframe with htrap | ⟨m2, hrun2, hdone⟩
      · cases hrun.symm.trans htrap
      · obtain rfl : m' = m2 := Except.ok.inj (hrun.symm.trans hrun2)
        refine ⟨hdone.frame, fun hvalid => ?_, fun hvalid => ?_⟩
        · rw [← hvalues idx hvalid, operandValue, wordReg, hmoved, operandValue]
        · have hother : ValidStorage (l.args (!idx)).storage := by
            rcases h.args (!idx) with heq | ⟨reg, writable, heq, hdata⟩
            · rw [heq]
              exact hvalid.1
            · rw [heq]
              exact (wordStorage_wordReg hdata).1
          have hkept := hdone.values _ hother (avoidsAll_append.mpr ⟨havoids', by
            rw [hsame']
            refine ⟨⟨fun reg hreg htarget => ?_, fun x _ hbyte => ?_⟩, trivial⟩
            · have hmem := (h.inUse hr (k := !idx) fun _ => id).1 reg hreg
              rcases htarget with rfl | ⟨h64, -⟩
              · exact hcandidate.notProtected hmem
              · change (l.args idx).storage.machineType.is64 = true at h64
                rw [hword.2] at h64
                cases h64
            · obtain ⟨a, ha, -⟩ := hbyte
              cases ha⟩)
          rw [relocateAll_append, hsame'] at hkept
          rw [← hvalues _ hvalid, operandValue, operandValue, ← hkept]
          rfl

/-- Operands in the same place have the same value. -/
theorem operandValue_of_inSameLocation {s t : VariableStorage REG} (hs : WordStorage s)
    (ht : WordStorage t) (h : s.inSameLocation t = true) (m : Machine) :
    operandValue jobMemory frameTop m s = operandValue jobMemory frameTop m t := by
  obtain ⟨machineType, location⟩ := s
  obtain ⟨machineType', location'⟩ := t
  obtain ⟨-, rfl⟩ := hs
  obtain ⟨-, rfl⟩ := ht
  rw [VariableStorage.inSameLocation] at h
  dsimp only at h
  split at h
  · rw [operandValue, operandValue, storageValue, storageValue]
    exact congrArg _ (beq_iff_eq.mp h)
  · rw [beq_iff_eq.mp h]
  · rw [beq_iff_eq.mp h]
  · rw [beq_iff_eq.mp h]
  · cases h

/-- Operands that are equal are both words, with one value. -/
theorem SelectionRequest.Typed.equal (hr : r.Typed jobMemory frameTop)
    (h : r.argsAreEqual = true) (k : Bool) (hword : WordStorage (r.args k).storage) :
    WordStorage (r.args (!k)).storage ∧ ∀ m,
      operandValue jobMemory frameTop m (r.args (!k)).storage =
        operandValue jobMemory frameTop m (r.args k).storage := by
  rw [SelectionRequest.argsAreEqual] at h
  have hsecond : WordStorage (r.args true).storage := by
    rcases hr.arg true with harg | ⟨-, harg⟩
    · exact harg
    · rw [harg, VariableStorage.inSameLocation] at h
      split at h <;> simp_all
  have hfirst : WordStorage (r.args false).storage := (hr.arg false).resolve_right (by simp)
  have hvalue : ∀ m, operandValue jobMemory frameTop m (r.args false).storage =
      operandValue jobMemory frameTop m (r.args true).storage :=
    operandValue_of_inSameLocation hfirst hsecond h
  cases k with
  | false => exact ⟨hsecond, fun m => (hvalue m).symm⟩
  | true => exact ⟨hfirst, hvalue⟩

/-- An operand has at most one register. -/
theorem length_maskOf (s : VariableStorage REG) : (maskOf s).length ≤ 1 := by
  rw [maskOf]
  split <;> simp

/-- The register of a target is a data register. -/
theorem SelectionRequest.Typed.liftTarget (hr : r.Typed jobMemory frameTop) (liftToD15 : Bool)
    (reg : REG) (writable : Bool) (h : r.liftTarget liftToD15 = some (reg, writable)) :
    reg.isDATA = true := by
  rw [SelectionRequest.liftTarget] at h
  split at h
  · obtain ⟨rfl, -⟩ := Prod.mk.inj (Option.some.inj h)
    rfl
  · obtain ⟨hint, hhint, heq⟩ := Option.map_eq_some_iff.mp h
    obtain ⟨rfl, -⟩ := Prod.mk.inj heq
    exact hr.hint hint hhint

/-- **Moving an operand** keeps the values of the operands. -/
theorem Lifting.Reads.liftArg (h : l.Reads r jobMemory frameTop) (hr : r.Typed jobMemory frameTop)
    {idx : Bool} (coLift liftToD15 : Bool) (hword : WordStorage (l.args idx).storage)
    (hidx : maskOf (l.args idx).storage = []) :
    (r.liftArg idx coLift liftToD15 l).Reads r jobMemory frameTop := by
  rw [SelectionRequest.liftArg]
  split
  · case _ hboth =>
      simp only [Bool.and_eq_true] at hboth
      obtain ⟨⟨hequal, hlifted⟩, -⟩ := hboth
      have hother := h.lifted _ hlifted
      refine ⟨fun k => ?_, fun k hk => ?_, h.steps, fun hcode hm hrun => ?_⟩ <;> dsimp only
      · by_cases hk : k = idx
        · subst hk
          rw [Function.update_self]
          exact .inr hother
        · rw [Function.update_of_ne hk]
          exact h.args k
      · by_cases hk' : k = idx
        · subst hk'
          rw [Function.update_self]
          exact hother
        · rw [Function.update_of_ne hk']
          exact h.lifted k hk
      · obtain ⟨hframe, hvalues⟩ := h.run hcode hm hrun
        refine ⟨hframe, fun k hk => ?_⟩
        by_cases hk' : k = idx
        · subst hk'
          obtain ⟨hwordOther, hvalue⟩ := hr.equal hequal k hk
          rw [Function.update_self, hvalues _ hwordOther, hvalue]
        · rw [Function.update_of_ne hk']
          exact hvalues k hk
  · have hcandidate := reqTargetOrCandidate_spec (r.candidate (some idx))
      (hr.candidate _ _ ((length_maskOf (l.args (!idx)).storage).trans (by decide)))
      (hr.liftTarget liftToD15)
    dsimp only
    generalize reqTargetOrCandidate (r.liftTarget liftToD15) (maskOf (l.args (!idx)).storage)
      (r.candidate (some idx)) = provided at hcandidate ⊢
    obtain ⟨reg, writable, spills⟩ := provided
    dsimp only at hcandidate ⊢
    have hlift : ∀ step ∈ spills ++ [.lift reg (l.args idx).storage], step.Valid := by
      intro step hstep
      rcases List.mem_append.mp hstep with hstep | hstep
      · exact hcandidate.valid step hstep
      · obtain rfl := List.mem_singleton.mp hstep
        refine ⟨hword.1, ?_⟩
        rw [hword.2]
        exact (wordStorage_wordReg hcandidate.isDATA).1
    refine ⟨fun k => ?_, fun k hk => ?_, fun step hstep => ?_, fun hcode hm hrun => ?_⟩ <;>
      dsimp only at *
    · split
      · exact .inr ⟨reg, writable, rfl, hcandidate.isDATA⟩
      · exact h.args k
    · split
      · exact ⟨reg, writable, rfl, hcandidate.isDATA⟩
      · case _ hnot =>
          simp only [Bool.or_eq_true, not_or, Bool.not_eq_true] at hnot
          rw [hnot.2, Bool.false_and, Bool.or_false] at hk
          exact h.lifted k hk
    · exact (List.mem_append.mp hstep).elim (h.steps step) (hlift step)
    · obtain ⟨hframe, hlifted, hother⟩ :=
        h.run_lift hr (c := ⟨spills, reg⟩) hcandidate hword hidx hlift hcode hm hrun
      refine ⟨hframe, fun k hk => ?_⟩
      by_cases hidxk : k = idx
      · subst hidxk
        rw [if_pos (by simp)]
        exact hlifted hk
      · obtain rfl : k = !idx := by
          cases k <;> cases idx <;> simp_all
        split
        · case _ hboth =>
            have hequal : r.argsAreEqual = true := by
              simp only [beq_iff_eq, hidxk, Bool.or_eq_true, Bool.and_eq_true, false_or] at hboth
              exact hboth.1.1
            obtain ⟨hwordIdx, hvalue⟩ := hr.equal hequal _ hk
            rw [Bool.not_not] at hwordIdx hvalue
            exact (hlifted hwordIdx).trans (hvalue _)
        · exact hother hk

end Lifting

/-! ### Where operands are moved -/

section Placement

variable {r : SelectionRequest} {jobMemory frameTop : BitVec 32} {l : Lifting} {i : AbstrInstr}
  {c : OperandMovement}

/-- A move of one operand that was not moved along with the other one. -/
theorem liftArg_args (r : SelectionRequest) {l : Lifting} {n : Bool} (coLift liftToD15 : Bool)
    (h : l.lifted (!n) = false) :
    (r.liftArg n coLift liftToD15 l).args = fun k =>
      if k == n || (r.argsAreEqual && coLift) then
        ⟨wordReg (reqTargetOrCandidate (r.liftTarget liftToD15) (maskOf (l.args (!n)).storage)
            (r.candidate (some n))).1,
          (reqTargetOrCandidate (r.liftTarget liftToD15) (maskOf (l.args (!n)).storage)
            (r.candidate (some n))).2.1⟩
      else l.args k := by
  rw [SelectionRequest.liftArg, h, Bool.and_false, Bool.false_and, if_neg Bool.false_ne_true]
  simp

/-- What was moved along with another operand. -/
theorem liftArg_lifted (r : SelectionRequest) {l : Lifting} {n : Bool} (coLift liftToD15 : Bool)
    (h : l.lifted (!n) = false) (k : Bool) :
    (r.liftArg n coLift liftToD15 l).lifted k =
      (l.lifted k || (r.argsAreEqual && coLift && k != n)) := by
  rw [SelectionRequest.liftArg, h, Bool.and_false, Bool.false_and, if_neg Bool.false_ne_true]
  simp

/-- A candidate can be written. -/
theorem reqTargetOrCandidate_writable {target : Option (REG × Bool)} {protRegs : List REG}
    {candidate : List REG → RegCandidate} (h : ∀ reg w, target = some (reg, w) → w = true) :
    (reqTargetOrCandidate target protRegs candidate).2.1 = true := by
  cases target with
  | none => rfl
  | some t =>
      obtain ⟨reg, w⟩ := t
      by_cases hmem : reg ∈ protRegs
      · rw [reqTargetOrCandidate, if_pos hmem]
      · rw [reqTargetOrCandidate, if_neg hmem]
        exact h reg w rfl

/-- A target that is not in use is provided. -/
theorem reqTargetOrCandidate_target {reg : REG} {w : Bool} {protRegs : List REG}
    (candidate : List REG → RegCandidate) (h : reg ∉ protRegs) :
    reqTargetOrCandidate (some (reg, w)) protRegs candidate = (reg, w, []) := by
  rw [reqTargetOrCandidate, if_neg h]

/-- Only one operand in memory is not equal to the other one. -/
theorem argsAreEqual_eq_false
    (h : inMemory (r.args false).storage ≠ inMemory (r.args true).storage) :
    r.argsAreEqual = false := by
  rw [SelectionRequest.argsAreEqual, VariableStorage.inSameLocation]
  rw [inMemory, inMemory] at h
  split <;> simp_all

/-- The target of a move can be written if there is no hint. -/
theorem liftTarget_writable (h : r.hint = none) {liftToD15 : Bool} (reg : REG) (w : Bool)
    (htarget : r.liftTarget liftToD15 = some (reg, w)) : w = true := by
  rw [SelectionRequest.liftTarget, h] at htarget
  split at htarget
  · exact (Prod.mk.inj (Option.some.inj htarget)).2.symm
  · cases htarget

/-- **Where an operand is moved**: to the target, if the other operand is not in it. -/
theorem liftArg_self (hr : r.Typed jobMemory frameTop) {n : Bool} (coLift liftToD15 : Bool)
    (h : l.lifted (!n) = false) :
    ∃ reg w, (r.liftArg n coLift liftToD15 l).args n = ⟨wordReg reg, w⟩ ∧
      (r.hint = none → w = true) ∧ reg ∉ maskOf (l.args (!n)).storage ∧
      ∀ reg' w', r.liftTarget liftToD15 = some (reg', w') →
        reg' ∉ maskOf (l.args (!n)).storage → reg = reg' := by
  have hcandidate := reqTargetOrCandidate_spec (r.candidate (some n))
    (hr.candidate _ _ ((length_maskOf (l.args (!n)).storage).trans (by decide)))
    (hr.liftTarget liftToD15)
  refine ⟨(reqTargetOrCandidate (r.liftTarget liftToD15) (maskOf (l.args (!n)).storage)
    (r.candidate (some n))).1, (reqTargetOrCandidate (r.liftTarget liftToD15)
    (maskOf (l.args (!n)).storage) (r.candidate (some n))).2.1, ?_, fun hhint => ?_,
    hcandidate.notProtected, fun reg' w' htarget hreg' => ?_⟩
  · rw [liftArg_args r coLift liftToD15 h]
    dsimp only
    rw [if_pos (by simp)]
  · exact reqTargetOrCandidate_writable (liftTarget_writable hhint)
  · rw [htarget, reqTargetOrCandidate_target _ hreg']

/-- The other operand stays where it is, or is moved along. -/
theorem liftArg_other (r : SelectionRequest) {n : Bool} (coLift liftToD15 : Bool)
    (h : l.lifted (!n) = false) :
    (r.liftArg n coLift liftToD15 l).args (!n) =
      if r.argsAreEqual && coLift then (r.liftArg n coLift liftToD15 l).args n
      else l.args (!n) := by
  rw [liftArg_args r coLift liftToD15 h]
  cases hboth : r.argsAreEqual && coLift with
  | true => simp
  | false => cases n <;> rfl

/-- **What is moved before the selection**: the operands in memory. -/
theorem prelift_args (hr : r.Typed jobMemory frameTop) (k : Bool) :
    (inMemory (r.args k).storage = false → r.prelift.args k = r.args k) ∧
      (inMemory (r.args k).storage = true → ∃ reg w, r.prelift.args k = ⟨wordReg reg, w⟩ ∧
        (r.hint = none → w = true) ∧
        (inMemory (r.args (!k)).storage = false → ∀ reg' w', r.liftTarget false = some (reg', w') →
          reg' ∉ maskOf (r.args (!k)).storage → reg = reg')) ∧
      (r.prelift.lifted k = true → inMemory (r.args false).storage = true ∧
        inMemory (r.args true).storage = true) := by
  cases h0 : inMemory (r.args false).storage with
  | false =>
      cases h1 : inMemory (r.args true).storage with
      | false =>
          have heq : r.prelift = ⟨r.args, fun _ => false, []⟩ := by
            simp [SelectionRequest.prelift, h0, h1]
          rw [heq]
          cases k <;> simp_all
      | true =>
          have heq : r.prelift = r.liftArg true true false ⟨r.args, fun _ => false, []⟩ := by
            simp [SelectionRequest.prelift, h0, h1]
          have hne : r.argsAreEqual = false := argsAreEqual_eq_false (by rw [h0, h1]; exact nofun)
          obtain ⟨reg, w, hself, hw, -, htarget⟩ :=
            liftArg_self (l := ⟨r.args, fun _ => false, []⟩) (n := true) hr true false rfl
          have hother := liftArg_other (l := ⟨r.args, fun _ => false, []⟩) r (n := true) true
            false rfl
          have hlifted := liftArg_lifted r (l := ⟨r.args, fun _ => false, []⟩) (n := true) true
            false rfl k
          rw [hne] at hother hlifted
          rw [heq]
          refine ⟨fun hk => ?_, fun hk => ?_, fun hk => ?_⟩
          · cases k with
            | false => exact hother
            | true => rw [h1] at hk; cases hk
          · cases k with
            | false => rw [h0] at hk; cases hk
            | true => exact ⟨reg, w, hself, hw, fun _ => htarget⟩
          · rw [hlifted] at hk
            cases hk
  | true =>
      obtain ⟨reg, w, hself, hw, -, htarget⟩ :=
        liftArg_self (l := ⟨r.args, fun _ => false, []⟩) (n := false) hr true false rfl
      have hother := liftArg_other (l := ⟨r.args, fun _ => false, []⟩) r (n := false) true
        false rfl
      have hlifted := liftArg_lifted r (l := ⟨r.args, fun _ => false, []⟩) (n := false) true
        false rfl
      have heq : r.prelift =
          if !(r.liftArg false true false ⟨r.args, fun _ => false, []⟩).lifted true && inMemory
            ((r.liftArg false true false ⟨r.args, fun _ => false, []⟩).args true).storage then
            r.liftArg true true false (r.liftArg false true false ⟨r.args, fun _ => false, []⟩)
          else r.liftArg false true false ⟨r.args, fun _ => false, []⟩ := by
        simp [SelectionRequest.prelift, h0]
      generalize r.liftArg false true false ⟨r.args, fun _ => false, []⟩ = l1 at *
      have hlifted0 : l1.lifted false = false := by
        rw [hlifted]
        simp
      cases h1 : inMemory (r.args true).storage with
      | false =>
          have hne : r.argsAreEqual = false := argsAreEqual_eq_false (by rw [h0, h1]; exact nofun)
          rw [hne, Bool.false_and, if_neg Bool.false_ne_true] at hother
          change l1.args true = r.args true at hother
          rw [hother, h1, Bool.and_false, if_neg Bool.false_ne_true] at heq
          rw [heq]
          refine ⟨fun hk => ?_, fun hk => ?_, fun hk => ?_⟩
          · cases k with
            | false => rw [h0] at hk; cases hk
            | true => exact hother
          · cases k with
            | false => exact ⟨reg, w, hself, hw, fun _ => htarget⟩
            | true => rw [h1] at hk; cases hk
          · rw [hlifted, hne] at hk
            cases hk
      | true =>
          have hmem : ∀ k, inMemory (r.args k).storage = true := by
            intro k
            cases k with
            | false => exact h0
            | true => exact h1
          refine ⟨fun hk => ?_, fun _ => ?_, fun _ => ⟨rfl, rfl⟩⟩
          · rw [hmem k] at hk
            cases hk
          · have hboth : ∃ reg w, r.prelift.args k = ⟨wordReg reg, w⟩ ∧
                (r.hint = none → w = true) := by
              cases hequal : r.argsAreEqual with
              | true =>
                  rw [hequal] at hother hlifted
                  have hlifted1 : l1.lifted true = true := by rw [hlifted]; rfl
                  rw [hlifted1, Bool.not_true, Bool.false_and, if_neg Bool.false_ne_true] at heq
                  rw [heq]
                  cases k with
                  | false => exact ⟨reg, w, hself, hw⟩
                  | true => exact ⟨reg, w, hother.trans hself, hw⟩
              | false =>
                  rw [hequal, Bool.false_and, if_neg Bool.false_ne_true] at hother
                  change l1.args true = r.args true at hother
                  have hlifted1 : l1.lifted true = false := by rw [hlifted, hequal]; rfl
                  rw [hlifted1, hother, h1, Bool.not_false, Bool.true_and, if_pos rfl] at heq
                  rw [heq]
                  cases k with
                  | false =>
                      have hkept := liftArg_other r (n := true) true false hlifted0
                      rw [hequal, Bool.false_and, if_neg Bool.false_ne_true] at hkept
                      exact ⟨reg, w, hkept.trans hself, hw⟩
                  | true =>
                      obtain ⟨reg', w', hself', hw', -⟩ := liftArg_self hr (n := true) true false
                        hlifted0
                      exact ⟨reg', w', hself', hw'⟩
            obtain ⟨reg', w', hreg', hw'⟩ := hboth
            refine ⟨reg', w', hreg', hw', fun hk => ?_⟩
            rw [hmem] at hk
            cases hk

/-- What is emitted before the selection keeps the operands. -/
theorem reads_prelift (hr : r.Typed jobMemory frameTop) :
    r.prelift.Reads r jobMemory frameTop := by
  have hstart : (⟨r.args, fun _ => false, []⟩ : Lifting).Reads r jobMemory frameTop := by
    refine ⟨fun _ => .inl rfl, nofun, by simp, fun hcode hm hrun => ?_⟩
    obtain ⟨rfl, rfl⟩ := Prod.mk.inj (Option.some.inj hcode)
    obtain rfl := Except.ok.inj hrun
    exact ⟨hm, fun _ _ => rfl⟩
  have hmove : ∀ (idx : Bool) (l : Lifting), l.Reads r jobMemory frameTop →
      inMemory (l.args idx).storage = true →
      (r.liftArg idx true false l).Reads r jobMemory frameTop := by
    intro idx l hl hmem
    have hmask : maskOf (l.args idx).storage = [] := by
      rw [maskOf]
      rw [inMemory] at hmem
      split <;> simp_all
    refine hl.liftArg hr true false ?_ hmask
    rcases hl.args idx with heq | ⟨reg, w, heq, -⟩
    · rw [heq] at hmem ⊢
      rcases hr.arg idx with harg | ⟨-, harg⟩
      · exact harg
      · rw [harg] at hmem
        cases hmem
    · rw [heq] at hmem
      cases hmem
  rw [SelectionRequest.prelift]
  dsimp only
  split
  · case _ h0 =>
      split
      · case _ h1 => exact hmove true _ (hmove false _ hstart h0) (Bool.and_eq_true_iff.mp h1).2
      · exact hmove false _ hstart h0
  · split
    · case _ h1 => exact hmove true _ hstart (Bool.and_eq_true_iff.mp h1).2
    · exact hstart

end Placement

/-! ### Where constants are moved -/

/-- A constant word. -/
def constWord (v : Word) : VariableStorage REG := ⟨.i32, .constant v⟩

/-- An operand is moved to a register: to the target of a move, if the operand `other` is not in
it, and not to a register of that operand. -/
structure MovedBeside (r : SelectionRequest) (liftToD15 : Bool) (arg other : SelectionOperand) :
    Prop where
  wordReg : ∃ reg, arg.storage = wordReg reg
  writable : r.hint = none → arg.writable = true
  apart : ∀ reg, arg.storage = TriCore.wordReg reg → reg ∉ maskOf other.storage
  target : ∀ reg w, r.liftTarget liftToD15 = some (reg, w) → reg ∉ maskOf other.storage →
    arg.storage = TriCore.wordReg reg

section Constants

variable {r : SelectionRequest} {jobMemory frameTop : BitVec 32} {l : Lifting} {i : AbstrInstr}
  {c : OperandMovement}

/-- A register names its storage. -/
theorem wordReg_inj {reg reg' : REG} (h : wordReg reg = wordReg reg') : reg = reg' := by
  injection h with _ hlocation
  injection hlocation

/-- Moving an operand. -/
theorem movedBeside_liftArg (hr : r.Typed jobMemory frameTop) {n : Bool}
    (coLift liftToD15 : Bool) (h : l.lifted (!n) = false) :
    MovedBeside r liftToD15 ((r.liftArg n coLift liftToD15 l).args n) (l.args (!n)) := by
  obtain ⟨reg, w, hself, hw, hnot, htarget⟩ := liftArg_self hr coLift liftToD15 h
  rw [hself]
  refine ⟨⟨reg, rfl⟩, hw, fun reg' heq => ?_, fun reg' w' htarget' hnot' => ?_⟩
  · rw [← wordReg_inj heq]
    exact hnot
  · rw [htarget reg' w' htarget' hnot']

/-- **The moves for an instruction**: constants are moved, the first one before the second one. -/
theorem liftFor_spec (hr : r.Typed jobMemory frameTop) (hl : l.Reads r jobMemory frameTop)
    (hfree : c.movArg0 = true ∨ c.movArg1 = true → ∀ k, l.lifted k = false)
    (h0 : c.movArg0 = true → ∃ v, (l.args false).storage = constWord v)
    (h1 : c.movArg1 = true → ∃ v, (l.args true).storage = constWord v) :
    (r.liftFor i c l).Reads r jobMemory frameTop ∧
      (c.movArg0 = false → (r.liftFor i c l).args false = l.args false) ∧
      (c.movArg1 = false → (r.liftFor i c l).args true = l.args true) ∧
      (c.movArg0 = true → MovedBeside r (i.arg0Type c.reversed == .d15)
        ((r.liftFor i c l).args false) (l.args true)) ∧
      (c.movArg1 = true →
        c.movArg0 = true ∧ (r.liftFor i c l).args true = (r.liftFor i c l).args false ∨
        MovedBeside r (i.arg1Type c.reversed == .d15) ((r.liftFor i c l).args true)
          ((r.liftFor i c l).args false)) := by
  have hconst : ∀ {k : Bool} {l : Lifting}, (∃ v, (l.args k).storage = constWord v) →
      WordStorage (l.args k).storage ∧ maskOf (l.args k).storage = [] := by
    rintro k l ⟨v, hv⟩
    rw [hv]
    exact ⟨⟨⟨nofun, trivial⟩, rfl⟩, rfl⟩
  rw [SelectionRequest.liftFor]
  cases hmov0 : c.movArg0 with
  | false =>
      cases hmov1 : c.movArg1 with
      | false => exact ⟨hl, fun _ => rfl, fun _ => rfl, nofun, nofun⟩
      | true =>
          have hfree1 := hfree (.inr hmov1) true
          have hlifted := hfree (.inr hmov1) false
          obtain ⟨hword, hmask⟩ := hconst (h1 hmov1)
          rw [if_neg Bool.false_ne_true, hfree1, Bool.not_false, Bool.and_true, if_pos rfl]
          have hother := liftArg_other r (n := true) false (i.arg1Type c.reversed == .d15) hlifted
          rw [Bool.and_false, if_neg Bool.false_ne_true] at hother
          change (r.liftArg true false _ l).args false = l.args false at hother
          refine ⟨hl.liftArg hr _ _ hword hmask, fun _ => hother, nofun, nofun, fun _ => .inr ?_⟩
          rw [hother]
          exact movedBeside_liftArg hr (n := true) _ _ hlifted
  | true =>
      have hfree0 := hfree (.inl hmov0) true
      have hlifted := hfree (.inl hmov0) false
      obtain ⟨hword0, hmask0⟩ := hconst (h0 hmov0)
      rw [if_pos rfl]
      have hmoved0 := movedBeside_liftArg hr (n := false) c.movArg1
        (i.arg0Type c.reversed == .d15) hfree0
      have hother0 := liftArg_other r (n := false) c.movArg1 (i.arg0Type c.reversed == .d15)
        hfree0
      have hlifted0 := liftArg_lifted r (n := false) c.movArg1
        (i.arg0Type c.reversed == .d15) hfree0
      have hreads0 := hl.liftArg hr c.movArg1 (i.arg0Type c.reversed == .d15) hword0 hmask0
      generalize r.liftArg false c.movArg1 (i.arg0Type c.reversed == .d15) l = l1 at *
      change l1.args true = _ at hother0
      cases hmov1 : c.movArg1 with
      | false =>
          rw [hmov1, Bool.and_false, if_neg Bool.false_ne_true] at hother0
          rw [Bool.false_and, if_neg Bool.false_ne_true]
          exact ⟨hreads0, nofun, fun _ => hother0, fun _ => hmoved0, nofun⟩
      | true =>
          rw [hmov1, Bool.and_true] at hother0
          simp only [hmov1, Bool.and_true] at hlifted0
          cases hequal : r.argsAreEqual with
          | true =>
              rw [hequal, if_pos rfl] at hother0
              rw [hlifted0, hequal, if_neg (by simp)]
              exact ⟨hreads0, nofun, nofun, fun _ => hmoved0, fun _ => .inl ⟨rfl, hother0⟩⟩
          | false =>
              rw [hequal, if_neg Bool.false_ne_true] at hother0
              change l1.args true = l.args true at hother0
              rw [hlifted0, hequal, hfree0]
              simp only [Bool.false_and, Bool.or_self, Bool.not_false, Bool.and_self, if_true]
              have hlifted1 : l1.lifted false = false := by rw [hlifted0, hlifted, hequal]; rfl
              have hv : ∃ v, (l1.args true).storage = constWord v := by
                rw [hother0]
                exact h1 hmov1
              obtain ⟨hword1, hmask1⟩ := hconst hv
              have hother := liftArg_other r (n := true) false (i.arg1Type c.reversed == .d15)
                hlifted1
              rw [Bool.and_false, if_neg Bool.false_ne_true] at hother
              change (r.liftArg true false _ l1).args false = l1.args false at hother
              refine ⟨hreads0.liftArg hr _ _ hword1 hmask1, nofun, nofun, fun _ => ?_,
                fun _ => .inr ?_⟩
              · rw [hother]
                exact hmoved0
              · rw [hother]
                exact movedBeside_liftArg hr (n := true) _ _ hlifted1

end Constants

/-! ### What the callers pass -/

/-- A constant is a signed immediate of 4, 9 or 16 bits, or an unsigned one of 8 or 9 bits, exactly
if it has no cost. -/
theorem movCost_immediate (v : BitVec 32) :
    ((constRange v).movCost .const4sx_32 = 0 ↔ -8 ≤ v.toInt ∧ v.toInt ≤ 7) ∧
      ((constRange v).movCost .const8zx_32 = 0 ↔ v.toNat ≤ 255) ∧
      ((constRange v).movCost .const9sx_32 = 0 ↔ -256 ≤ v.toInt ∧ v.toInt ≤ 255) ∧
      ((constRange v).movCost .const9zx_32 = 0 ↔ v.toNat ≤ 511) ∧
      ((constRange v).movCost .const16sx_32 = 0 ↔ -32768 ≤ v.toInt ∧ v.toInt ≤ 32767) := by
  have hint : v.toInt = v.toNat ∧ v.toNat < 2 ^ 31 ∨
      v.toInt = v.toNat - 2 ^ 32 ∧ 2 ^ 31 ≤ v.toNat := by
    rw [BitVec.toInt_eq_toNat_cond]
    split <;> omega
  have hlt := v.isLt
  rw [constRange]
  split_ifs <;> simp [ConstRange.movCost, ConstRange.cost, invalidMovCost] <;> omega

/-- The operands as the callers pass them. Operands in registers are on the compiler stack or
locals, the count of a shift apart, so that their registers are in use; `D15` is not available then
if it is one of them. -/
structure SelectionRequest.WellFormed (r : SelectionRequest) (jobMemory frameTop : BitVec 32) : Prop
    extends r.Typed jobMemory frameTop where
  unop : (r.args true).storage = ⟨.invalid, .invalid⟩ → r.family = .clz ∨ r.family = .popcnt
  writable : ∀ k, (r.args k).writable = true → ∃ reg, (r.args k).storage = wordReg reg
  held : r.family ≠ .sh → r.family ≠ .sha → ∀ k reg, (r.args k).storage = wordReg reg →
    (r.args k).writable = false ∧ (∀ h, r.hint = some h → h.writable = true → h.reg ≠ reg) ∧
      (r.isD15Available = true → reg ≠ .D 15)
  hintD15 : ∀ h, r.hint = some h → r.isD15Available = true → h.reg = .D 15 → h.writable = true
  add : r.family = .add → ∀ k v, (r.args k).storage = constWord v →
    (-32768 ≤ (v.setWidth 32).toInt ∧ (v.setWidth 32).toInt ≤ 32767) ∨
      ∃ w, (r.args (!k)).storage = constWord w
  sub : r.family = .sub → (∀ v, (r.args true).storage ≠ constWord v) ∧
    ∀ v, (r.args false).storage = constWord v →
      ¬ (-256 ≤ (v.setWidth 32).toInt ∧ (v.setWidth 32).toInt ≤ 255)
  shConst : r.family = .shConst ∨ r.family = .shaConst →
    ∃ v, (r.args true).storage = constWord v ∧ -31 ≤ (v.setWidth 32).toInt ∧
      (v.setWidth 32).toInt ≤ 31
  sh : r.family = .sh ∨ r.family = .sha → ∃ reg, (r.args true).storage = wordReg reg

section Passed

variable {r : SelectionRequest} {jobMemory frameTop : BitVec 32}

/-- The kind of a word in a register. -/
theorem operandKind_wordReg {reg : REG} (h : reg.isDATA = true) :
    operandKind (wordReg reg) = .d15 ∨ operandKind (wordReg reg) = .data := by
  rw [operandKind, wordReg]
  dsimp only
  split
  · exact .inl rfl
  · exact .inr rfl

/-- A word is a constant, in a register or in memory. -/
theorem WordStorage.cases {s : VariableStorage REG} (h : WordStorage s) :
    (∃ v, s = constWord v) ∨ (∃ reg, s = wordReg reg ∧ reg.isDATA = true) ∨ inMemory s = true := by
  obtain ⟨machineType, location⟩ := s
  obtain ⟨⟨-, hlocation⟩, rfl⟩ := h
  cases location with
  | constant v => exact .inl ⟨v, rfl⟩
  | register reg => exact .inr (.inl ⟨reg, rfl, hlocation.1⟩)
  | linkData p => exact .inr (.inr rfl)
  | stackMemory p => exact .inr (.inr rfl)
  | invalid => exact absurd hlocation id

/-- **The operands at the selection**: constants as they are, and registers. -/
theorem prelift_cases (hr : r.Typed jobMemory frameTop) {k : Bool}
    (hword : WordStorage (r.args k).storage) :
    (∃ v, (r.args k).storage = constWord v ∧ r.prelift.args k = r.args k) ∨
      ∃ reg, (r.prelift.args k).storage = wordReg reg ∧ reg.isDATA = true := by
  obtain ⟨hsame, hmoved, -⟩ := prelift_args hr k
  rcases hword.cases with ⟨v, hv⟩ | ⟨reg, hreg, hdata⟩ | hmem
  · exact .inl ⟨v, hv, hsame (by rw [hv]; rfl)⟩
  · refine .inr ⟨reg, ?_, hdata⟩
    rw [hsame (by rw [hreg]; rfl), hreg]
  · obtain ⟨reg, w, heq, -⟩ := hmoved hmem
    refine .inr ⟨reg, by rw [heq], ?_⟩
    rcases (reads_prelift hr).args k with hargs | ⟨reg', w', hargs, hdata⟩
    · rw [← hargs, heq] at hmem
      cases hmem
    · rw [heq] at hargs
      obtain rfl := wordReg_inj (SelectionOperand.mk.inj hargs).1
      exact hdata

/-- The kind of a constant. -/
theorem operandKind_constWord (v : Word) :
    operandKind (constWord v) = .const (constRange (v.setWidth 32)) := rfl

/-- The kinds of the operands at the selection. -/
theorem prelift_kind (hr : r.Typed jobMemory frameTop) {k : Bool}
    (hword : WordStorage (r.args k).storage) :
    operandKind (r.prelift.args k).storage ≠ .other ∧
      ∀ range, operandKind (r.prelift.args k).storage = .const range →
        ∃ v, (r.args k).storage = constWord v ∧ r.prelift.args k = r.args k ∧
          range = constRange (v.setWidth 32) := by
  rcases prelift_cases hr hword with ⟨v, hv, hsame⟩ | ⟨reg, hreg, hdata⟩
  · rw [hsame, hv, operandKind_constWord]
    refine ⟨nofun, fun range hrange => ⟨v, rfl, rfl, ?_⟩⟩
    injection hrange with hrange
    exact hrange.symm
  · rw [hreg]
    rcases operandKind_wordReg hdata with hkind | hkind <;> rw [hkind] <;> exact ⟨nofun, nofun⟩

/-- Another operand than a missing one. -/
theorem SelectionRequest.WellFormed.word (hr : r.WellFormed jobMemory frameTop) {k : Bool}
    (h : k = true → r.family ≠ .clz ∧ r.family ≠ .popcnt) : WordStorage (r.args k).storage := by
  rcases hr.arg k with hword | ⟨rfl, hnone⟩
  · exact hword
  · rcases hr.unop hnone with hf | hf
    · exact absurd hf (h rfl).1
    · exact absurd hf (h rfl).2

/-- Words in the same place are of the same kind. -/
theorem operandKind_of_inSameLocation {s t : VariableStorage REG} (hs : s.machineType = .i32)
    (h : s.inSameLocation t = true) : operandKind s = operandKind t := by
  obtain ⟨machineType, location⟩ := s
  obtain ⟨machineType', location'⟩ := t
  obtain rfl : machineType = .i32 := hs
  rw [VariableStorage.inSameLocation] at h
  dsimp only at h
  split at h
  · case _ a b =>
      have hcarried := congrArg (BitVec.setWidth 32) (beq_iff_eq.mp h)
      have hword : ∀ w : Word, (MachineType.i32.carried w).setWidth 32 = w.setWidth 32 := by
        intro w
        rw [MachineType.carried, BitVec.setWidth_setWidth_of_le _ (by decide)]
        exact BitVec.setWidth_setWidth_of_le _ (by decide)
      rw [hword, hword] at hcarried
      rw [operandKind, operandKind]
      dsimp only
      rw [hcarried]
  · rw [beq_iff_eq.mp h]
    rfl
  · rfl
  · rfl
  · cases h

/-- **The operands at the selection are as the callers pass them.** -/
theorem situation_passed (hr : r.WellFormed jobMemory frameTop) :
    (r.situation r.prelift.args).Passed r.family := by
  have htyped := hr.toTyped
  have hword0 : WordStorage (r.args false).storage := hr.word nofun
  obtain ⟨hother0, hkind0⟩ := prelift_kind htyped hword0
  have hadd : r.family = .add → ∀ k, ∀ range,
      operandKind (r.prelift.args k).storage = .const range →
      InstrFamily.add.takes range = true ∨
        ∃ range', operandKind (r.prelift.args (!k)).storage = .const range' := by
    intro hf k range hrange
    obtain ⟨v, hv, -, rfl⟩ := (prelift_kind htyped (hr.word (k := k) (by simp [hf]))).2 range hrange
    rcases hr.add hf k v hv with hsmall | ⟨w, hw⟩
    · left
      have hzero := ((movCost_immediate (v.setWidth 32)).2.2.2.2).mpr hsmall
      simp [InstrFamily.takes, InstrFamily.instructions, I_ADDI_Dc_Da_const16sx, hzero]
    · right
      refine ⟨constRange (w.setWidth 32), ?_⟩
      rw [(prelift_args htyped (!k)).1 (by rw [hw]; rfl), hw]
      rfl
  refine ⟨hother0, fun h h' => (prelift_kind htyped (hr.word fun _ => ⟨h, h'⟩)).1, fun hsame => ?_,
    fun hf range hrange => by rw [hf]; exact hadd hf false range hrange,
    fun hf range hrange => by rw [hf]; exact hadd hf true range hrange, fun hf range hrange => ?_,
    fun hf range hrange => ?_, fun hf => ?_, fun hf range hrange => ?_⟩
  · refine operandKind_of_inSameLocation ?_ hsame
    rcases prelift_cases htyped hword0 with ⟨v, hv, heq⟩ | ⟨reg, hreg, -⟩
    · rw [heq, hv]
      rfl
    · rw [hreg]
      rfl
  · obtain ⟨v, hv, -, rfl⟩ := hkind0 range hrange
    exact fun hzero => (hr.sub hf).2 v hv ((movCost_immediate _).2.2.1.mp hzero)
  · obtain ⟨v, hv, -⟩ := (prelift_kind htyped (hr.word (by simp [hf]))).2 range hrange
    exact (hr.sub hf).1 v hv
  · obtain ⟨v, hv, hlow, hhigh⟩ := hr.shConst hf
    refine ⟨constRange (v.setWidth 32), ?_, (movCost_immediate _).2.2.1.mpr ⟨by omega, by omega⟩⟩
    change operandKind (r.prelift.args true).storage = _
    rw [(prelift_args htyped true).1 (by rw [hv]; rfl), hv]
    rfl
  · obtain ⟨reg, hreg⟩ := hr.sh hf
    have hword : WordStorage (r.args true).storage :=
      hr.word fun _ => by rcases hf with hf | hf <;> simp [hf]
    obtain ⟨v, hv, -⟩ := (prelift_kind htyped hword).2 range hrange
    rw [hreg] at hv
    injection hv with _ hlocation
    injection hlocation

end Passed

end TriCore

end WasmCompiler
