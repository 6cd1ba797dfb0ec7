import WasmCompiler.RegisterRequests
import WasmCompiler.StaticRegisters
import Mathlib.Logic.Relation

/-!
# Scratch Register Allocation

The request for a scratch register with a target hint (`Common::reqScratchRegProt`) in every
state the code generator can reach while it compiles a function.

A run of the code generator changes the compiler stack, the size of the frame, the storages
of the locals and the innermost block. `CompilerStep` lists the changes; a step may do more
than the code does, but what it asks for is what the code makes sure of.

The instruction that makes a request is given by what the request depends on: the positions
of its operands, which of them it reads again, and whether a trap can follow before the value
is in the variable that the hint stands for.

## Main results

* `Reachable.wellFormed`: reachable states are well formed.
* `reqScratchRegProt_isSome`: a request is refused only if the frame would be too large.
* `reqScratchRegProt_safe_iff`: every request is safe, except that the register of a global
  is handed out as a target hint while a trap can follow.
-/

namespace WasmCompiler

variable {TReg : Type} [DecidableEq TReg]

/-! ### Masks -/

namespace RegMask

/-- The registers of either mask. -/
def union : RegMask TReg → RegMask TReg → RegMask TReg
  | regs a, regs b => regs (a ++ b)
  | _, _ => all

omit [DecidableEq TReg] in
/-- The mask of one register. -/
abbrev mask (reg : TReg) : RegMask TReg := regs [reg]

/-- A register is in the union if it is in one of the masks. -/
@[simp] theorem contains_union (a b : RegMask TReg) (r : TReg) :
    (a.union b).contains r = (a.contains r || b.contains r) := by
  cases a <;> cases b <;> simp [union, contains]

end RegMask

/-- The registers an instruction protects while it requests others. -/
structure RegAllocTracker (TReg : Type) where
  readProtRegs : RegMask TReg
  writeProtRegs : RegMask TReg
  futureLifts : RegMask TReg

namespace RegAllocTracker

/-- All protected registers. -/
def readWriteFutureLiftMask (tracker : RegAllocTracker TReg) : RegMask TReg :=
  (tracker.readProtRegs.union tracker.writeProtRegs).union tracker.futureLifts

/-- A register is protected if one of the masks has it. -/
theorem contains_readWriteFutureLiftMask (tracker : RegAllocTracker TReg) (r : TReg) :
    tracker.readWriteFutureLiftMask.contains r = (tracker.readProtRegs.contains r ||
      tracker.writeProtRegs.contains r || tracker.futureLifts.contains r) := by
  simp [readWriteFutureLiftMask]

/-- Protect a register from being written. -/
def maskWrite (tracker : RegAllocTracker TReg) (reg : TReg) : RegAllocTracker TReg :=
  { tracker with writeProtRegs := tracker.writeProtRegs.union (.mask reg) }

end RegAllocTracker

/-! ### Requests with a target hint -/

/-- `getUnderlyingRegIfSuitable`: the register of the hint, if it has one of the right kind
that is not masked. -/
def getUnderlyingRegIfSuitable (ctx : FrameContext TReg) (element : Option (LocatedElement TReg))
    (dstMachineType : MachineType) (regMask : RegMask TReg) : Option TReg :=
  match element with
  | none => none
  | some element =>
      let targetHintStorage := ctx.getStorage element
      let typeMatch := targetHintStorage.machineType = dstMachineType ∨
        targetHintStorage.machineType.isInt ∧ dstMachineType.isInt
      match targetHintStorage.location with
      | .register reg => if typeMatch ∧ !regMask.contains reg then some reg else none
      | _ => none

/-- `getResultStackElement`: the element for a result of the given type in the storage of
another element. -/
def getResultStackElement (ctx : FrameContext TReg) (stackElement : LocatedElement TReg)
    (type : MachineType) : LocatedElement TReg :=
  match stackElement with
  | .scratchReg reg _ => .scratchReg reg type
  | .local_ _ | .global _ => .tempResult ⟨type, (ctx.getStorage stackElement).location⟩
  | .tempResult storage => .tempResult ⟨type, storage.location⟩
  | element => element

/-- What a request returns. -/
structure RequestResult (TReg : Type) where
  elem : LocatedElement TReg
  reg : TReg
  regAllocTracker : RegAllocTracker TReg
  st : CompilerState TReg
  code : List (MachineInstr TReg)

/-- `reqScratchRegProt` with a target hint: the register of the hint if it is suitable, or
else a scratch register. -/
def reqScratchRegProtWithHint (ctx : FrameContext TReg) (st : CompilerState TReg)
    (type : MachineType) (targetHint : Option (LocatedElement TReg))
    (tracker : RegAllocTracker TReg) : Option (RequestResult TReg) :=
  let allMask := tracker.readWriteFutureLiftMask
  match targetHint, getUnderlyingRegIfSuitable ctx targetHint type allMask with
  | some hint, some reg =>
      some ⟨getResultStackElement ctx hint type, reg, tracker.maskWrite reg, st, []⟩
  | _, _ =>
      (reqScratchRegProt ctx st type allMask).map fun result =>
        ⟨.scratchReg result.1 type, result.1, tracker.maskWrite result.1, result.2.1, result.2.2⟩

/-! ### Requests are granted -/

/-- The slot for a spilled value does not fit in the largest frame: compilation ends with an
error. -/
def FrameTooLarge (ctx : FrameContext TReg) (st : CompilerState TReg) : Prop :=
  maxStackFrameSize < ctx.alignStackFrameSize (findFreeTempStackSlot ctx st + 32)

omit [DecidableEq TReg] in
/-- Room for a slot is refused only if the frame would be too large. -/
theorem growFrameFor_isSome {ctx : FrameContext TReg} {st : CompilerState TReg}
    (h : ¬ FrameTooLarge ctx st) :
    (growFrameFor ctx st (findFreeTempStackSlot ctx st)).isSome := by
  simp only [growFrameFor]
  split
  · simp only [setStackFrameSize]
    split
    · rfl
    · have hmax : ¬ maxStackFrameSize <
          ctx.alignStackFrameSize (findFreeTempStackSlot ctx st + 32) := h
      rw [if_neg hmax]
      rfl
  · rfl

/-- Spilling to the stack is refused only if the frame would be too large. -/
theorem spillFromStack_isSome {ctx : FrameContext TReg} {st : CompilerState TReg}
    {source : Reference TReg} {protRegs : RegMask TReg} {zone : ExcludedZone}
    (h : ¬ FrameTooLarge ctx st) :
    (spillFromStack ctx st source protRegs true zone).isSome := by
  simp only [spillFromStack]
  split
  · rfl
  · simpa [reqSpillTarget] using growFrameFor_isSome h

/-- If a register is unprotected, the candidate is unprotected. -/
theorem getRegAllocCandidate_unprotected {ctx : FrameContext TReg} {st : CompilerState TReg}
    {type : MachineType} {protRegs : RegMask TReg} (h : st.WellFormed ctx)
    (hfree : ∃ r ∈ ctx.allocableRegs type, protRegs.contains r = false) :
    ∃ candidate, getRegAllocCandidate ctx st type protRegs = some candidate ∧
      protRegs.contains candidate.reg = false := by
  obtain ⟨r, hr, hunprot⟩ := hfree
  simp only [getRegAllocCandidate]
  cases hfind : (ctx.allocableRegs type).find?
      fun r => !protRegs.contains r && st.unreferenced r with
  | some reg =>
      have hp := List.find?_some hfind
      simp only [Bool.and_eq_true, Bool.not_eq_true'] at hp
      exact ⟨_, rfl, hp.1⟩
  | none =>
      -- an element refers to the unprotected register, so it is found on the stack
      have href : st.unreferenced r = false := by
        have := List.find?_eq_none.mp hfind r hr
        simpa [hunprot] using this
      simp only [CompilerState.unreferenced, List.all_eq_false, decide_eq_true_eq,
        not_not] at href
      obtain ⟨e, he, hsource⟩ := href
      obtain ⟨machineType, rfl⟩ := LocatedElement.eq_of_reference? hsource
      have hkind : machineType.isInt = type.isInt := by
        have hfit : r ∈ ctx.allocableRegs machineType := h.fits _ he
        have hdisjoint := ctx.gpr_disjoint_fpr r
        simp only [FrameContext.allocableRegs] at hfit hr
        cases hm : machineType.isInt <;> cases ht : type.isInt <;> simp_all
      have hmem : r ∈ st.scratchRegs type.isInt :=
        List.mem_filterMap.mpr ⟨_, he, by simp [hkind]⟩
      have hsome : ((st.scratchRegs type.isInt).find? fun r => !protRegs.contains r).isSome :=
        List.find?_isSome.mpr ⟨r, hmem, by simp [hunprot]⟩
      obtain ⟨victim, hvictim⟩ := Option.isSome_iff_exists.mp hsome
      have hp := List.find?_some hvictim
      exact ⟨⟨victim, true⟩, by simp [hvictim], by simpa using hp⟩

/-- **A request is granted** unless all registers are protected or the frame would be too
large. -/
theorem reqScratchRegProt_isSome {ctx : FrameContext TReg} {st : CompilerState TReg}
    {type : MachineType} {protRegs : RegMask TReg} (h : st.WellFormed ctx)
    (hfree : ∃ r ∈ ctx.allocableRegs type, protRegs.contains r = false)
    (hframe : ¬ FrameTooLarge ctx st) : (reqScratchRegProt ctx st type protRegs).isSome := by
  obtain ⟨candidate, hcand, hunprot⟩ := getRegAllocCandidate_unprotected h hfree
  simp only [reqScratchRegProt, hcand, hunprot, Bool.false_eq_true, if_false]
  split
  · simpa using spillFromStack_isSome hframe
  · rfl

/-! ### Compilation of a function -/

/-- A function that is compiled: what the allocation of its registers depends on. -/
structure CompiledFunction (TReg : Type) where
  abi : WasmABI TReg
  globalInRegister : Bool
  /-- Debug mode. -/
  mustOnStack : Bool
  locals : List (MachineType × Bool)
  forceHighRegisterPressureForTesting : Bool

namespace CompiledFunction

/-- The registers of its variables. -/
def regs (f : CompiledFunction TReg) : StaticRegisters TReg :=
  (StaticRegisters.allocateGlobals f.globalInRegister).allocateLocals f.abi f.mustOnStack
    f.locals

omit [DecidableEq TReg] in
/-- They are allocated as they should be. -/
theorem regs_valid (f : CompiledFunction TReg) : f.regs.Valid f.abi :=
  (StaticRegisters.Valid.allocateGlobals f.abi f.globalInRegister).allocateLocals _ _

/-- The storages are those of the function: a local is in its register or in none, only the
first global is in a register, if it is an `i32`, and the scratch registers are what is
left. -/
structure Describes (f : CompiledFunction TReg) (ctx : FrameContext TReg) : Prop where
  gpr_eq : ctx.gpr = f.regs.scratchGPRs f.abi f.forceHighRegisterPressureForTesting
  fpr_eq : ctx.fpr = f.regs.scratchFPRs f.abi f.forceHighRegisterPressureForTesting
  locals : ∀ localIdx reg, (ctx.getStorage (.local_ localIdx)).location = .register reg →
    f.regs.register? f.abi (.local_ localIdx) = some reg
  globals : ∀ globalIdx reg, (ctx.getStorage (.global globalIdx)).location = .register reg →
    globalIdx = 0 ∧ f.regs.register? f.abi .global = some reg
  globals_i32 : ∀ globalIdx reg, (ctx.getStorage (.global globalIdx)).location = .register reg →
    (ctx.getStorage (.global globalIdx)).machineType = .i32

end CompiledFunction

/-- The context in another block. -/
def FrameContext.inBlock (ctx : FrameContext TReg) (minimalStackFrameSize : UInt32)
    (frameBase : ℕ) (h : ctx.fixedStackFrameWidth ≤ minimalStackFrameSize) :
    FrameContext TReg :=
  { ctx with
    minimalStackFrameSize := minimalStackFrameSize
    frameBase := frameBase
    fixed_le_minimal := h }

/-- The context with the locals in other storages. -/
def FrameContext.withLocalDefs (ctx : FrameContext TReg)
    (localDefs : List (VariableStorage TReg))
    (h : ∀ s ∈ localDefs, FixedStorage ctx.gpr ctx.fpr ctx.fixedStackFrameWidth s) :
    FrameContext TReg :=
  { ctx with
    localDefs := localDefs
    localDefs_fixed := h }

/-- An element that may be put on the stack at an index: it fits, and if it is in a scratch
register, no other element is. -/
structure Placeable (ctx : FrameContext TReg) (st : CompilerState TReg) (i : ℕ)
    (e : LocatedElement TReg) : Prop where
  fits : ElementFits ctx st.stackFrameSize e
  alone : ∀ reg machineType, e = .scratchReg reg machineType → ∀ j e', j ≠ i →
    st.stack[j]? = some e' → e'.reference? ≠ some (.scratchReg reg)

/-- What the code generator does to its state while it compiles a function. -/
inductive CompilerStep (f : CompiledFunction TReg) (ctx : FrameContext TReg)
    (st : CompilerState TReg) : FrameContext TReg → CompilerState TReg → Prop
  /-- An operand, a deferred action or a result is pushed. -/
  | push {e : LocatedElement TReg} : Placeable ctx st st.stack.length e →
      CompilerStep f ctx st ctx { st with stack := st.stack ++ [e] }
  /-- `replaceAndUpdateReference`: with a result, a lifted operand, an enforced target. -/
  | replaceAndUpdateReference {i : ℕ} {e : LocatedElement TReg} : ctx.frameBase ≤ i →
      Placeable ctx st i e → CompilerStep f ctx st ctx { st with stack := st.stack.set i e }
  /-- An operand is consumed. -/
  | erase {i : ℕ} : ctx.frameBase ≤ i → i < st.stack.length →
      CompilerStep f ctx st ctx { st with stack := st.stack.eraseIdx i }
  | reqScratchRegProt {type : MachineType} {targetHint : Option (LocatedElement TReg)}
      {tracker : RegAllocTracker TReg} {result : RequestResult TReg} :
      reqScratchRegProtWithHint ctx st type targetHint tracker = some result →
      CompilerStep f ctx st ctx result.st
  | spillFromStack {source : Reference TReg} {protRegs : RegMask TReg} {forceToStack : Bool}
      {zone : ExcludedZone} {st' : CompilerState TReg} {code : List (MachineInstr TReg)} :
      WasmCompiler.spillFromStack ctx st source protRegs forceToStack zone = some (st', code) →
      CompilerStep f ctx st ctx st'
  /-- The frame gets larger, or as small as the slots in use allow. -/
  | setStackFrameSize {frameSize : UInt32} : ctx.minimalStackFrameSize ≤ frameSize →
      frameSize ≤ maxStackFrameSize →
      (∀ e ∈ st.stack, ∀ p, e.stackFramePosition? = some p → p ≤ frameSize) →
      CompilerStep f ctx st ctx { st with stackFrameSize := frameSize }
  /-- A block begins; all variables were spilled. -/
  | enterBlock {minimal : UInt32} (hfixed : ctx.fixedStackFrameWidth ≤ minimal) :
      minimal ≤ st.stackFrameSize → (∀ e ∈ st.stack, e.reference? = none) →
      CompilerStep f ctx st (ctx.inBlock minimal st.stack.length hfixed) st
  /-- A block ends. -/
  | leaveBlock {minimal : UInt32} {frameBase : ℕ}
      (hfixed : ctx.fixedStackFrameWidth ≤ minimal) :
      minimal ≤ ctx.minimalStackFrameSize → frameBase ≤ ctx.frameBase →
      CompilerStep f ctx st (ctx.inBlock minimal frameBase hfixed) st
  /-- A local is initialised, or moved between its register and its slot. -/
  | setLocalDefs {localDefs : List (VariableStorage TReg)}
      (hfixed : ∀ s ∈ localDefs, FixedStorage ctx.gpr ctx.fpr ctx.fixedStackFrameWidth s) :
      f.Describes (ctx.withLocalDefs localDefs hfixed) →
      CompilerStep f ctx st (ctx.withLocalDefs localDefs hfixed) st

/-- The states that are reached while the function is compiled. -/
inductive Reachable (f : CompiledFunction TReg) :
    FrameContext TReg → CompilerState TReg → Prop
  | enteredFunction {ctx : FrameContext TReg} {stackFrameSize : UInt32} : f.Describes ctx →
      ctx.frameBase = 0 → ctx.minimalStackFrameSize ≤ stackFrameSize →
      stackFrameSize ≤ maxStackFrameSize → Reachable f ctx ⟨[], stackFrameSize⟩
  | step {ctx ctx' : FrameContext TReg} {st st' : CompilerState TReg} : Reachable f ctx st →
      CompilerStep f ctx st ctx' st' → Reachable f ctx' st'

/-! ### Reachable states are well formed -/

/-- The context is that of the function, the state is well formed, and the innermost block
begins on the stack. -/
structure Compiling (f : CompiledFunction TReg) (ctx : FrameContext TReg)
    (st : CompilerState TReg) : Prop where
  describes : f.Describes ctx
  wellFormed : st.WellFormed ctx
  frameBase_le : ctx.frameBase ≤ st.stack.length

omit [DecidableEq TReg] in
/-- With other elements above the enclosing blocks, each of which fits and shares no scratch
register with an element of another type. -/
theorem CompilerState.WellFormed.withStack {ctx : FrameContext TReg} {st : CompilerState TReg}
    {stack : List (LocatedElement TReg)} (h : st.WellFormed ctx)
    (hfits : ∀ e ∈ stack, ElementFits ctx st.stackFrameSize e)
    (hone : ∀ r t t', .scratchReg r t ∈ stack → .scratchReg r t' ∈ stack → t = t')
    (hbelow : stack.take ctx.frameBase = st.stack.take ctx.frameBase) :
    ({ st with stack := stack } : CompilerState TReg).WellFormed ctx :=
  ⟨h.minimal_le, h.le_max, hfits, hone, fun e he => h.below e (hbelow ▸ he)⟩

omit [DecidableEq TReg] in
/-- An element that is put on the stack is of the type of the elements in its register. -/
theorem Placeable.one_type {ctx : FrameContext TReg} {st : CompilerState TReg} {i : ℕ}
    {e : LocatedElement TReg} {stack : List (LocatedElement TReg)} (h : Placeable ctx st i e)
    (hst : st.WellFormed ctx)
    (hstack : ∀ e' ∈ stack, e' = e ∨ ∃ j ≠ i, st.stack[j]? = some e') {r : TReg}
    {t t' : MachineType} (ht : .scratchReg r t ∈ stack) (ht' : .scratchReg r t' ∈ stack) :
    t = t' := by
  rcases hstack _ ht with heq | ⟨j, hj, hget⟩ <;> rcases hstack _ ht' with heq' | ⟨j', hj', hget'⟩
  · simpa using heq.trans heq'.symm
  · exact absurd rfl (h.alone r t heq.symm j' _ hj' hget')
  · exact absurd rfl (h.alone r t' heq'.symm j _ hj hget)
  · exact hst.one_type r t t' (List.mem_of_getElem? hget) (List.mem_of_getElem? hget')

/-- A request keeps the state well formed and the number of elements. -/
theorem reqScratchRegProtWithHint_wellFormed {ctx : FrameContext TReg}
    {st : CompilerState TReg} {type : MachineType} {targetHint : Option (LocatedElement TReg)}
    {tracker : RegAllocTracker TReg} {result : RequestResult TReg} (h : st.WellFormed ctx)
    (hr : reqScratchRegProtWithHint ctx st type targetHint tracker = some result) :
    result.st.WellFormed ctx ∧ result.st.stack.length = st.stack.length := by
  simp only [reqScratchRegProtWithHint] at hr
  split at hr
  · obtain rfl := Option.some.inj hr
    exact ⟨h, rfl⟩
  · obtain ⟨⟨reg, st', code⟩, hreq, rfl⟩ := Option.map_eq_some_iff.mp hr
    obtain ⟨hrel, -⟩ := reqScratchRegProt_spec h hreq
    exact ⟨hrel.wellFormed, hrel.length_eq⟩

/-- **Every step** keeps what holds while the function is compiled. -/
theorem Compiling.step {f : CompiledFunction TReg} {ctx ctx' : FrameContext TReg}
    {st st' : CompilerState TReg} (h : Compiling f ctx st)
    (hstep : CompilerStep f ctx st ctx' st') : Compiling f ctx' st' := by
  obtain ⟨hdescribes, hst, hbase⟩ := h
  cases hstep with
  | @push e hplace =>
      refine ⟨hdescribes, hst.withStack ?_ (fun r t t' ht ht' => ?_) ?_, ?_⟩
      · intro e' he'
        rcases List.mem_append.mp he' with hold | hnew
        · exact hst.fits e' hold
        · exact List.mem_singleton.mp hnew ▸ hplace.fits
      · refine hplace.one_type hst (fun e' he' => ?_) ht ht'
        rcases List.mem_append.mp he' with hold | hnew
        · obtain ⟨j, hj⟩ := List.mem_iff_getElem?.mp hold
          exact .inr ⟨j, (List.getElem?_eq_some_iff.mp hj).1.ne, hj⟩
        · exact .inl (List.mem_singleton.mp hnew)
      · exact List.take_append_of_le_length hbase
      · simp only [List.length_append]
        omega
  | @replaceAndUpdateReference i e hi hplace =>
      have hmem : ∀ e' ∈ st.stack.set i e, e' = e ∨ ∃ j ≠ i, st.stack[j]? = some e' := by
        intro e' he'
        obtain ⟨j, hj⟩ := List.mem_iff_getElem?.mp he'
        by_cases hji : j = i
        · subst hji
          rw [List.getElem?_set_self'] at hj
          obtain ⟨-, -, rfl⟩ := Option.map_eq_some_iff.mp hj
          exact .inl rfl
        · rw [List.getElem?_set_ne (Ne.symm hji)] at hj
          exact .inr ⟨j, hji, hj⟩
      refine ⟨hdescribes, hst.withStack ?_ (fun r t t' ht ht' =>
        hplace.one_type hst hmem ht ht') (List.take_set_of_le hi), by simpa using hbase⟩
      intro e' he'
      rcases hmem e' he' with rfl | ⟨j, -, hj⟩
      · exact hplace.fits
      · exact hst.fits e' (List.mem_of_getElem? hj)
  | @erase i hi hlt =>
      have hmem : ∀ e ∈ st.stack.eraseIdx i, e ∈ st.stack := fun e he => List.mem_of_mem_eraseIdx he
      refine ⟨hdescribes, hst.withStack (fun e he => hst.fits e (hmem e he))
        (fun r t t' ht ht' => hst.one_type r t t' (hmem _ ht) (hmem _ ht'))
        (List.take_eraseIdx_eq_take_of_le _ _ _ hi), ?_⟩
      rw [List.length_eraseIdx_of_lt hlt]
      omega
  | reqScratchRegProt hr =>
      obtain ⟨hwf, hlength⟩ := reqScratchRegProtWithHint_wellFormed hst hr
      exact ⟨hdescribes, hwf, hlength ▸ hbase⟩
  | spillFromStack hs =>
      obtain ⟨hrel, -⟩ := spillFromStack_spec hst hs
      exact ⟨hdescribes, hrel.wellFormed, hrel.length_eq ▸ hbase⟩
  | @setStackFrameSize frameSize hmin hmax hslots =>
      refine ⟨hdescribes, ⟨hmin, hmax, fun e he => ?_, hst.one_type, hst.below⟩, hbase⟩
      have hfit := hst.fits e he
      cases e with
      | tempResult storage =>
          obtain ⟨machineType, location⟩ := storage
          cases location with
          | stackMemory p => exact ⟨hfit.1, hslots _ he p rfl⟩
          | _ => exact hfit
      | _ => exact hfit
  | @enterBlock minimal hfixed hmin hnone =>
      refine ⟨⟨hdescribes.gpr_eq, hdescribes.fpr_eq, hdescribes.locals, hdescribes.globals,
          hdescribes.globals_i32⟩,
        ⟨hmin, hst.le_max, fun e he => ?_, hst.one_type,
          fun e he => hnone e (List.mem_of_mem_take he)⟩, le_refl _⟩
      have hfit := hst.fits e he
      cases e <;> exact hfit
  | @leaveBlock minimal frameBase hfixed hmin hle =>
      refine ⟨⟨hdescribes.gpr_eq, hdescribes.fpr_eq, hdescribes.locals, hdescribes.globals,
          hdescribes.globals_i32⟩,
        ⟨UInt32.le_trans hmin hst.minimal_le, hst.le_max, fun e he => ?_, hst.one_type,
          fun e he => hst.below e ?_⟩, le_trans hle hbase⟩
      · have hfit := hst.fits e he
        cases e <;> exact hfit
      · exact (List.take_sublist_take_left hle).subset he
  | setLocalDefs hfixed hdescribes' =>
      refine ⟨hdescribes', ⟨hst.minimal_le, hst.le_max, fun e he => ?_, hst.one_type,
        hst.below⟩, hbase⟩
      have hfit := hst.fits e he
      cases e <;> exact hfit

/-- **Reachable states** are well formed. -/
theorem Reachable.compiling {f : CompiledFunction TReg} {ctx : FrameContext TReg}
    {st : CompilerState TReg} (h : Reachable f ctx st) : Compiling f ctx st := by
  induction h with
  | @enteredFunction ctx stackFrameSize hdescribes hbase hmin hmax =>
      exact ⟨hdescribes, ⟨hmin, hmax, by simp, by simp, by simp⟩, by simp [hbase]⟩
  | step _ hstep ih => exact ih.step hstep

/-! ### Requests of instructions -/

/-- The variable whose register it is. -/
def variableIn (ctx : FrameContext TReg) (reg : TReg) : Option (Reference TReg) :=
  match ctx.localDefs.findIdx? (·.location = .register reg) with
  | some localIdx => some (.local_ localIdx)
  | none => (ctx.globals.findIdx? (·.location = .register reg)).map .global

/-- `getReferencePosition`: an element that refers to a variable is listed with it, and so is
a result in the register of a variable. -/
def getReferencePosition (ctx : FrameContext TReg) :
    LocatedElement TReg → Option (Reference TReg)
  | .tempResult storage =>
      match storage.location with
      | .register reg => variableIn ctx reg
      | _ => none
  | e => e.reference?

/-- `checkIfEnforcedTargetIsOnlyInArgs`: every element that is listed with the target is an
operand. -/
def checkIfEnforcedTargetIsOnlyInArgs (ctx : FrameContext TReg) (st : CompilerState TReg)
    (args : List ℕ) (enforcedTarget : Option (LocatedElement TReg)) : Bool :=
  match enforcedTarget.bind (getReferencePosition ctx) with
  | none => true
  | some position => st.stack.zipIdx.all fun e =>
      getReferencePosition ctx e.1 ≠ some position || e.2 ∈ args

/-- A request for a register by an instruction that is evaluated in a valent block. -/
structure ScratchRequest (TReg : Type) where
  type : MachineType
  regAllocTracker : RegAllocTracker TReg
  /-- The target of the valent block. -/
  recommendedTargetHint : Option (LocatedElement TReg)
  /-- The positions of the operands. -/
  args : List ℕ
  /-- The operands that are read again when the register has been written. -/
  readsAfter : List ℕ
  /-- A trap can be raised before the result of the block is in its target. -/
  mayTrap : Bool

namespace ScratchRequest

/-- The hint that is passed to the instruction. -/
def targetHint (req : ScratchRequest TReg) (ctx : FrameContext TReg)
    (st : CompilerState TReg) : Option (LocatedElement TReg) :=
  if checkIfEnforcedTargetIsOnlyInArgs ctx st req.args req.recommendedTargetHint then
    req.recommendedTargetHint
  else none

/-- The request. -/
def run (req : ScratchRequest TReg) (ctx : FrameContext TReg) (st : CompilerState TReg) :
    Option (RequestResult TReg) :=
  reqScratchRegProtWithHint ctx st req.type (req.targetHint ctx st) req.regAllocTracker

/-- The register of the hint, if it is returned. -/
def hintReg? (req : ScratchRequest TReg) (ctx : FrameContext TReg) (st : CompilerState TReg) :
    Option TReg :=
  getUnderlyingRegIfSuitable ctx (req.targetHint ctx st) req.type
    req.regAllocTracker.readWriteFutureLiftMask

/-- What may be a target: a variable, a scratch register, or a result in the register of a
variable. -/
def IsTarget (ctx : FrameContext TReg) : LocatedElement TReg → Prop
  | .scratchReg reg machineType => reg ∈ ctx.allocableRegs machineType
  | .local_ _ | .global _ => True
  | .tempResult storage =>
      ∃ reg, storage.location = .register reg ∧ (variableIn ctx reg).isSome
  | _ => False

/-- What callers make sure of: a register of the kind is unprotected, operands that are read
later are protected, and the target is one. -/
structure Valid (req : ScratchRequest TReg) (ctx : FrameContext TReg)
    (st : CompilerState TReg) : Prop where
  unprotected : ∃ r ∈ ctx.allocableRegs req.type,
    req.regAllocTracker.readWriteFutureLiftMask.contains r = false
  readsProtected : ∀ i ∈ req.readsAfter, ∀ e reg, st.stack[i]? = some e →
    (ctx.getStorage e).location = .register reg →
    req.regAllocTracker.readWriteFutureLiftMask.contains reg = true
  target : ∀ hint, req.recommendedTargetHint = some hint → IsTarget ctx hint

/-- The values that are still needed when the register has been written: those of the
elements that are no operands, of the operands that are read again, of all variables but the
target, and of the globals if a trap can follow. -/
inductive Needed (req : ScratchRequest TReg) (ctx : FrameContext TReg)
    (st : CompilerState TReg) : VariableStorage TReg → Prop
  | element {i : ℕ} {e : LocatedElement TReg} : st.stack[i]? = some e → i ∉ req.args →
      Needed req ctx st (ctx.getStorage e)
  | operand {i : ℕ} {e : LocatedElement TReg} : i ∈ req.readsAfter → st.stack[i]? = some e →
      Needed req ctx st (ctx.getStorage e)
  | otherLocal {localIdx : ℕ} :
      req.recommendedTargetHint.bind (getReferencePosition ctx) ≠ some (.local_ localIdx) →
      Needed req ctx st (ctx.getStorage (.local_ localIdx))
  | otherGlobal {globalIdx : ℕ} :
      req.recommendedTargetHint.bind (getReferencePosition ctx) ≠ some (.global globalIdx) →
      Needed req ctx st (ctx.getStorage (.global globalIdx))
  | globalAtTrap {globalIdx : ℕ} : req.mayTrap = true →
      Needed req ctx st (ctx.getStorage (.global globalIdx))

/-- What is asked of a scratch register: it is unprotected, no variable is in it, no element
refers to it any more, those that did have their values in new places, and the others are
where they were. -/
structure FreshRegister (req : ScratchRequest TReg) (ctx : FrameContext TReg)
    (st : CompilerState TReg) (result : RequestResult TReg) : Prop where
  unprotected : req.regAllocTracker.readProtRegs.contains result.reg = false ∧
    req.regAllocTracker.writeProtRegs.contains result.reg = false ∧
    req.regAllocTracker.futureLifts.contains result.reg = false
  no_local : ∀ localIdx,
    (ctx.getStorage (.local_ localIdx)).location ≠ .register result.reg
  no_global : ∀ globalIdx,
    (ctx.getStorage (.global globalIdx)).location ≠ .register result.reg
  unreferenced : ∀ e ∈ result.st.stack, e.reference? ≠ some (.scratchReg result.reg) ∧
    (ctx.getStorage e).location ≠ .register result.reg
  moved : ∀ (i : ℕ) e, st.stack[i]? = some e →
    e.reference? = some (.scratchReg result.reg) →
    ∃ e', result.st.stack[i]? = some e' ∧ ∀ m : Machine TReg,
      m.stackPointer = st.stackFrameSize →
      (ctx.getStorage e').value (m.execAll result.code).cells =
        (ctx.getStorage e).value m.cells
  stays : ∀ (i : ℕ) e, st.stack[i]? = some e →
    e.reference? ≠ some (.scratchReg result.reg) →
    result.st.stack[i]? = some e ∧ ∀ m : Machine TReg, m.stackPointer = st.stackFrameSize →
      (ctx.getStorage e).value (m.execAll result.code).cells = (ctx.getStorage e).value m.cells

/-- What is asked of a request: unless the frame gets too large, it returns the register of
the hint, which may be overwritten, or a scratch register. -/
def Safe (req : ScratchRequest TReg) (ctx : FrameContext TReg) (st : CompilerState TReg) :
    Prop :=
  match req.run ctx st with
  | none => FrameTooLarge ctx st
  | some result =>
      match req.hintReg? ctx st with
      | some reg => result.reg = reg ∧ ∀ s, req.Needed ctx st s → ∀ (σ : MachineState TReg) w,
          s.value (Function.update σ (.register reg) w) = s.value σ
      | none => req.FreshRegister ctx st result

/-- The register of a global is returned as the hint while a trap can follow. -/
def ClobbersGlobal (req : ScratchRequest TReg) (ctx : FrameContext TReg)
    (st : CompilerState TReg) : Prop :=
  req.mayTrap = true ∧ ∃ reg globalIdx, req.hintReg? ctx st = some reg ∧
    (ctx.getStorage (.global globalIdx)).location = .register reg

end ScratchRequest

/-! ### Registers of variables and of elements -/

section

variable {f : CompiledFunction TReg} {ctx : FrameContext TReg} {st : CompilerState TReg}

omit [DecidableEq TReg] in
/-- A storage is in a register if its cell is. -/
theorem location_of_cell {s : VariableStorage TReg} {reg : TReg}
    (h : s.cell? = some (.register reg)) : s.location = .register reg := by
  obtain ⟨machineType, location⟩ := s
  cases location <;> simp_all [VariableStorage.cell?, StorageLocation.cell?]

omit [DecidableEq TReg] in
/-- The cell of a storage in a register. -/
theorem cell_of_location {s : VariableStorage TReg} {reg : TReg}
    (h : s.location = .register reg) : s.cell? = some (.register reg) := by
  simp [VariableStorage.cell?, h, StorageLocation.cell?]

omit [DecidableEq TReg] in
/-- A local in a register is one of the function. -/
theorem local_getElem?_of_register {localIdx : ℕ} {reg : TReg}
    (h : (ctx.getStorage (.local_ localIdx)).location = .register reg) :
    ∃ s, ctx.localDefs[localIdx]? = some s ∧ s.location = .register reg := by
  simp only [FrameContext.getStorage] at h
  cases hs : ctx.localDefs[localIdx]? with
  | none => simp [hs, VariableStorage.none] at h
  | some s => exact ⟨s, rfl, by simpa [hs] using h⟩

omit [DecidableEq TReg] in
/-- A global in a register is one of the module. -/
theorem global_getElem?_of_register {globalIdx : ℕ} {reg : TReg}
    (h : (ctx.getStorage (.global globalIdx)).location = .register reg) :
    ∃ s, ctx.globals[globalIdx]? = some s ∧ s.location = .register reg := by
  simp only [FrameContext.getStorage] at h
  cases hs : ctx.globals[globalIdx]? with
  | none => simp [hs, VariableStorage.none] at h
  | some s => exact ⟨s, rfl, by simpa [hs] using h⟩

/-- What is found for a register is a variable in it. -/
theorem variableIn_cases {reg : TReg} {v : Reference TReg} (h : variableIn ctx reg = some v) :
    (∃ localIdx, v = .local_ localIdx ∧
        (ctx.getStorage (.local_ localIdx)).location = .register reg) ∨
      ∃ globalIdx, v = .global globalIdx ∧
        (ctx.getStorage (.global globalIdx)).location = .register reg := by
  simp only [variableIn] at h
  split at h
  · case _ localIdx hfind =>
      obtain ⟨hlt, hloc, -⟩ := List.findIdx?_eq_some_iff_getElem.mp hfind
      refine .inl ⟨localIdx, (Option.some.inj h).symm, ?_⟩
      simpa [FrameContext.getStorage, hlt] using hloc
  · obtain ⟨globalIdx, hfind, rfl⟩ := Option.map_eq_some_iff.mp h
    obtain ⟨hlt, hloc, -⟩ := List.findIdx?_eq_some_iff_getElem.mp hfind
    refine .inr ⟨globalIdx, rfl, ?_⟩
    simpa [FrameContext.getStorage, hlt] using hloc

/-- The register of a local is found for it. -/
theorem variableIn_local (hf : f.Describes ctx) {localIdx : ℕ} {reg : TReg}
    (h : (ctx.getStorage (.local_ localIdx)).location = .register reg) :
    variableIn ctx reg = some (.local_ localIdx) := by
  obtain ⟨s, hs, hloc⟩ := local_getElem?_of_register h
  have hsome : (ctx.localDefs.findIdx? (·.location = .register reg)).isSome :=
    List.findIdx?_isSome.trans (List.any_eq_true.mpr
      ⟨s, List.mem_of_getElem? hs, by simpa using hloc⟩)
  obtain ⟨j, hj⟩ := Option.isSome_iff_exists.mp hsome
  have hv : variableIn ctx reg = some (.local_ j) := by simp [variableIn, hj]
  rcases variableIn_cases hv with ⟨k, heq, hk⟩ | ⟨k, heq, -⟩
  · obtain rfl : j = k := Reference.local_.inj heq
    have := StaticRegisters.register_injective f.regs_valid (hf.locals _ _ h) (hf.locals _ _ hk)
    rw [hv, StaticRegisters.Variable.local_.inj this]
  · cases heq

/-- The register of a global is found for it. -/
theorem variableIn_global (hf : f.Describes ctx) {globalIdx : ℕ} {reg : TReg}
    (h : (ctx.getStorage (.global globalIdx)).location = .register reg) :
    variableIn ctx reg = some (.global globalIdx) := by
  obtain ⟨hzero, hreg⟩ := hf.globals _ _ h
  obtain ⟨s, hs, hloc⟩ := global_getElem?_of_register h
  cases hv : variableIn ctx reg with
  | none =>
      simp only [variableIn] at hv
      split at hv
      · simp at hv
      · rw [Option.map_eq_none_iff, List.findIdx?_eq_none_iff] at hv
        exact absurd hloc (by simpa using hv s (List.mem_of_getElem? hs))
  | some v =>
      rcases variableIn_cases hv with ⟨k, -, hk⟩ | ⟨k, rfl, hk⟩
      · have := StaticRegisters.register_injective f.regs_valid hreg (hf.locals _ _ hk)
        cases this
      · rw [hzero, (hf.globals _ _ hk).1]

/-- The register of a variable is no scratch register. -/
theorem not_mem_of_variableIn {reg : TReg} {v : Reference TReg}
    (h : variableIn ctx reg = some v) : reg ∉ ctx.gpr ∧ reg ∉ ctx.fpr := by
  rcases variableIn_cases h with ⟨k, -, hk⟩ | ⟨k, -, hk⟩
  · have := ctx.local_fixed k
    simpa only [FixedStorage, hk] using this
  · have := ctx.global_fixed k
    simpa only [FixedStorage, hk] using this

/-- An element in the register of a variable is listed with the variable. -/
theorem getReferencePosition_variable (hf : f.Describes ctx) {e : LocatedElement TReg}
    (hfit : ElementFits ctx st.stackFrameSize e) {reg : TReg}
    (hloc : (ctx.getStorage e).location = .register reg) {v : Reference TReg}
    (hv : variableIn ctx reg = some v) : getReferencePosition ctx e = some v := by
  cases e with
  | scratchReg reg' machineType =>
      obtain rfl : reg' = reg := by
        simpa [FrameContext.getStorage, VariableStorage.reg] using hloc
      have hnot := not_mem_of_variableIn hv
      exact absurd (FrameContext.mem_of_allocable hfit) (by simp [hnot])
  | local_ localIdx => exact (variableIn_local hf hloc).symm.trans hv
  | global globalIdx => exact (variableIn_global hf hloc).symm.trans hv
  | tempResult storage =>
      obtain ⟨machineType, location⟩ := storage
      obtain rfl : location = .register reg := hloc
      exact hv
  | constant machineType w =>
      simp [FrameContext.getStorage, VariableStorage.const] at hloc
  | deferredAction => simp [FrameContext.getStorage, VariableStorage.none] at hloc

/-- An element in a scratch register is listed with it. -/
theorem getReferencePosition_scratchReg {e : LocatedElement TReg}
    (hfit : ElementFits ctx st.stackFrameSize e) {reg : TReg}
    (hloc : (ctx.getStorage e).location = .register reg)
    (hreg : reg ∈ ctx.gpr ∨ reg ∈ ctx.fpr) :
    getReferencePosition ctx e = some (.scratchReg reg) := by
  have href := reference?_of_cell hfit hreg (cell_of_location hloc)
  obtain ⟨machineType, rfl⟩ := LocatedElement.eq_of_reference? href
  rfl

/-- Elements in the register of a target are listed with the target. -/
theorem getReferencePosition_target (hf : f.Describes ctx) {hint e : LocatedElement TReg}
    (hhint : ScratchRequest.IsTarget ctx hint) {reg : TReg}
    (hhintLoc : (ctx.getStorage hint).location = .register reg)
    (hfit : ElementFits ctx st.stackFrameSize e)
    (hloc : (ctx.getStorage e).location = .register reg) :
    getReferencePosition ctx e = getReferencePosition ctx hint ∧
      (getReferencePosition ctx hint).isSome := by
  cases hint with
  | scratchReg reg' machineType =>
      obtain rfl : reg' = reg := by
        simpa [FrameContext.getStorage, VariableStorage.reg] using hhintLoc
      exact ⟨getReferencePosition_scratchReg hfit hloc (FrameContext.mem_of_allocable hhint), rfl⟩
  | local_ localIdx =>
      exact ⟨getReferencePosition_variable hf hfit hloc (variableIn_local hf hhintLoc), rfl⟩
  | global globalIdx =>
      exact ⟨getReferencePosition_variable hf hfit hloc (variableIn_global hf hhintLoc), rfl⟩
  | tempResult storage =>
      obtain ⟨machineType, location⟩ := storage
      obtain rfl : location = .register reg := hhintLoc
      obtain ⟨reg', hreg', hsome⟩ := hhint
      obtain rfl : reg = reg' := by simpa using hreg'
      obtain ⟨v, hv⟩ := Option.isSome_iff_exists.mp hsome
      exact ⟨(getReferencePosition_variable hf hfit hloc hv).trans hv.symm, hsome⟩
  | constant machineType w => exact hhint.elim
  | deferredAction => exact hhint.elim

end

/-! ### Requests are safe -/

/-- The register of a hint is returned only if it is unprotected. -/
theorem getUnderlyingRegIfSuitable_spec {ctx : FrameContext TReg}
    {element : Option (LocatedElement TReg)} {type : MachineType} {regMask : RegMask TReg}
    {reg : TReg} (h : getUnderlyingRegIfSuitable ctx element type regMask = some reg) :
    ∃ hint, element = some hint ∧ (ctx.getStorage hint).location = .register reg ∧
      regMask.contains reg = false := by
  simp only [getUnderlyingRegIfSuitable] at h
  split at h
  · simp at h
  · case _ hint =>
      split at h
      · case _ reg' hloc =>
          simp only [Option.ite_none_right_eq_some, Option.some.injEq] at h
          obtain ⟨⟨-, hmask⟩, rfl⟩ := h
          exact ⟨hint, rfl, hloc, by simpa using hmask⟩
      · simp at h

namespace ScratchRequest

variable {f : CompiledFunction TReg} {ctx : FrameContext TReg} {st : CompilerState TReg}
  {req : ScratchRequest TReg}

/-- A hint that is passed on is the target of the block, and only operands are listed with
it. -/
theorem targetHint_eq_some {hint : LocatedElement TReg}
    (h : req.targetHint ctx st = some hint) :
    req.recommendedTargetHint = some hint ∧
      ∀ position, getReferencePosition ctx hint = some position → ∀ (i : ℕ) e,
        st.stack[i]? = some e → getReferencePosition ctx e = some position → i ∈ req.args := by
  simp only [targetHint] at h
  split at h
  · case _ hcheck =>
      refine ⟨h, fun position hposition i e he hpos => ?_⟩
      simp only [checkIfEnforcedTargetIsOnlyInArgs, h, Option.bind_some, hposition,
        List.all_eq_true] at hcheck
      have := hcheck (e, i) (List.mk_mem_zipIdx_iff_getElem?.mpr he)
      simpa [hpos] using this
  · simp at h

/-- No needed value is in the register of a returned hint, except that of a global. -/
theorem Needed.location_ne (hst : Compiling f ctx st) (hreq : req.Valid ctx st) {reg : TReg}
    (hhint : req.hintReg? ctx st = some reg) {s : VariableStorage TReg}
    (hs : req.Needed ctx st s) (hloc : s.location = .register reg) :
    req.ClobbersGlobal ctx st := by
  obtain ⟨hint, htarget, hhintLoc, hunprot⟩ := getUnderlyingRegIfSuitable_spec hhint
  obtain ⟨hrecommended, honly⟩ := targetHint_eq_some htarget
  have hisTarget := hreq.target hint hrecommended
  cases hs with
  | @element i e he hargs =>
      have hfit := hst.wellFormed.fits e (List.mem_of_getElem? he)
      obtain ⟨hpos, hsome⟩ :=
        getReferencePosition_target hst.describes hisTarget hhintLoc hfit hloc
      obtain ⟨position, hposition⟩ := Option.isSome_iff_exists.mp hsome
      exact absurd (honly position hposition i e he (hpos.trans hposition)) hargs
  | @operand i e hi he =>
      have hprot := hreq.readsProtected i hi e reg he hloc
      rw [hunprot] at hprot
      exact absurd hprot (by decide)
  | @otherLocal localIdx hne =>
      obtain ⟨hpos, -⟩ := @getReferencePosition_target _ _ f ctx st hst.describes hint
        (.local_ localIdx) hisTarget reg hhintLoc trivial hloc
      refine absurd ?_ hne
      rw [hrecommended, Option.bind_some, ← hpos]
      rfl
  | @otherGlobal globalIdx hne =>
      obtain ⟨hpos, -⟩ := @getReferencePosition_target _ _ f ctx st hst.describes hint
        (.global globalIdx) hisTarget reg hhintLoc trivial hloc
      refine absurd ?_ hne
      rw [hrecommended, Option.bind_some, ← hpos]
      rfl
  | @globalAtTrap globalIdx htrap => exact ⟨htrap, reg, globalIdx, hhint, hloc⟩

/-- A request without a usable hint is one for a scratch register. -/
theorem run_of_hintReg?_none (h : req.hintReg? ctx st = none) :
    req.run ctx st =
      (WasmCompiler.reqScratchRegProt ctx st req.type
        req.regAllocTracker.readWriteFutureLiftMask).map fun result =>
          ⟨.scratchReg result.1 req.type, result.1, req.regAllocTracker.maskWrite result.1,
            result.2.1, result.2.2⟩ := by
  simp only [hintReg?] at h
  simp only [run, reqScratchRegProtWithHint, h]
  cases req.targetHint ctx st <;> rfl

/-- A request with a usable hint returns it. -/
theorem run_of_hintReg?_some {reg : TReg} (h : req.hintReg? ctx st = some reg) :
    ∃ result, req.run ctx st = some result ∧ result.reg = reg := by
  obtain ⟨hint, htarget, -, -⟩ := getUnderlyingRegIfSuitable_spec h
  simp only [hintReg?] at h
  refine ⟨⟨getResultStackElement ctx hint req.type, reg, req.regAllocTracker.maskWrite reg, st,
    []⟩, ?_, rfl⟩
  simp only [run, reqScratchRegProtWithHint, h]
  rw [htarget]

/-- **A scratch register** that is returned is fresh. -/
theorem freshRegister (hst : Compiling f ctx st) {result : RequestResult TReg}
    (hhint : req.hintReg? ctx st = none) (hrun : req.run ctx st = some result) :
    req.FreshRegister ctx st result := by
  rw [run_of_hintReg?_none hhint] at hrun
  obtain ⟨⟨reg, st', code⟩, hreq, rfl⟩ := Option.map_eq_some_iff.mp hrun
  obtain ⟨hrel, hmem, hprot, hunref, hmoved⟩ := reqScratchRegProt_spec hst.wellFormed hreq
  have hscratch := FrameContext.mem_of_allocable hmem
  rw [RegAllocTracker.contains_readWriteFutureLiftMask] at hprot
  simp only [Bool.or_eq_false_iff] at hprot
  have hget : ∀ (i : ℕ) e, st.stack[i]? = some e → ∃ e', st'.stack[i]? = some e' := by
    intro i e he
    have hlt := (List.getElem?_eq_some_iff.mp he).1
    exact ⟨_, List.getElem?_eq_getElem (hrel.length_eq ▸ hlt)⟩
  refine ⟨⟨hprot.1.1, hprot.1.2, hprot.2⟩, fun localIdx hloc => ?_, fun globalIdx hloc => ?_,
    fun e he => ⟨?_, fun hloc => ?_⟩, fun i e he href => ?_, fun i e he href => ?_⟩
  · exact absurd hscratch (by simp [not_mem_of_variableIn (variableIn_local hst.describes hloc)])
  · exact absurd hscratch (by simp [not_mem_of_variableIn (variableIn_global hst.describes hloc)])
  · simp only [CompilerState.unreferenced, List.all_eq_true, decide_eq_true_eq] at hunref
    exact hunref e he
  · exact unused_register hrel.wellFormed hscratch hunref e he (cell_of_location hloc)
  · obtain ⟨e', he'⟩ := hget i e he
    exact ⟨e', he', fun m hm => hrel.value_eq hm he he'⟩
  · obtain ⟨e', he'⟩ := hget i e he
    rcases hmoved i e e' he he' with rfl | ⟨hsame, -⟩
    · exact ⟨he', fun m hm => hrel.value_eq hm he he'⟩
    · exact absurd hsame href

/-- A request that is refused needs a frame that is too large. -/
theorem frameTooLarge (hst : Compiling f ctx st) (hreq : req.Valid ctx st)
    (hrun : req.run ctx st = none) : FrameTooLarge ctx st := by
  by_contra hframe
  have hsome := reqScratchRegProt_isSome hst.wellFormed hreq.unprotected hframe
  cases hhint : req.hintReg? ctx st with
  | some reg =>
      obtain ⟨result, hresult, -⟩ := run_of_hintReg?_some hhint
      rw [hrun] at hresult
      cases hresult
  | none =>
      rw [run_of_hintReg?_none hhint, Option.map_eq_none_iff] at hrun
      rw [hrun] at hsome
      cases hsome

/-- Writing the register of a global changes what the global's storage holds. -/
theorem exists_value_ne {s : VariableStorage TReg} {reg : TReg}
    (h : s.location = .register reg) (htype : s.machineType = .i32) :
    ∃ (σ : MachineState TReg) (w : Word),
      s.value (Function.update σ (.register reg) w) ≠ s.value σ := by
  have hcell := cell_of_location h
  refine ⟨fun _ => 0, 1, ?_⟩
  rw [VariableStorage.value_of_cell hcell, VariableStorage.value_of_cell hcell,
    Function.update_self, htype]
  decide

/-- A function with one `f32` parameter, in a module whose first global is in a register. -/
def truncFunction : CompiledFunction ℕ where
  abi :=
    { gpr := [0, 1, 2, 3]
      fpr := [4, 5, 6]
      resScratchRegsGPR := 2
      resScratchRegsFPR := 2
      regsForParams := 1
      gpr_nodup := by decide
      fpr_nodup := by decide
      gpr_disjoint_fpr := by decide
      params_fit_gpr := by decide
      params_fit_fpr := by decide }
  globalInRegister := true
  mustOnStack := false
  locals := [(.f32, true)]
  forceHighRegisterPressureForTesting := false

/-- Its storages. -/
def truncContext : FrameContext ℕ where
  gpr := [1, 2, 3]
  fpr := [5, 6]
  gpRetRegs := [1]
  fpRetRegs := [5]
  localDefs := [.reg .f32 4]
  globals := [.reg .i32 0]
  paramWidth := 0
  returnAddrWidth := 8
  fixedStackFrameWidth := 8
  minimalStackFrameSize := 8
  frameBase := 0
  gpr_disjoint_fpr := by decide
  gpRetRegs_subset := by decide
  fpRetRegs_subset := by decide
  gpRetRegs_nodup := by decide
  fpRetRegs_nodup := by decide
  paramWidth_le := by decide
  fixed_le_minimal := by decide
  localDefs_fixed := by simp [FixedStorage, VariableStorage.reg]
  globals_fixed := by simp [FixedStorage, VariableStorage.reg]

/-- The operand and the deferred instruction are on the stack. -/
def truncState : CompilerState ℕ := ⟨[.local_ 0, .deferredAction], 144⟩

/-- The request of an instruction that converts the operand to the target, the global. -/
def truncRequest (mayTrap : Bool) : ScratchRequest ℕ where
  type := .i32
  regAllocTracker := ⟨.regs [4], .regs [], .regs []⟩
  recommendedTargetHint := some (.global 0)
  args := [0]
  readsAfter := [0]
  mayTrap := mayTrap

/-- The storages are those of the function. -/
theorem truncContext_describes : truncFunction.Describes truncContext := by
  refine ⟨by decide, by decide, fun localIdx reg h => ?_, fun globalIdx reg h => ?_,
    fun globalIdx reg h => ?_⟩
  · obtain ⟨s, hs, hloc⟩ := local_getElem?_of_register h
    obtain rfl : localIdx = 0 := by
      have := (List.getElem?_eq_some_iff.mp hs).1
      simpa [truncContext] using this
    obtain rfl : 4 = reg := by
      simpa [truncContext, FrameContext.getStorage, VariableStorage.reg] using h
    decide
  · obtain ⟨s, hs, hloc⟩ := global_getElem?_of_register h
    obtain rfl : globalIdx = 0 := by
      have := (List.getElem?_eq_some_iff.mp hs).1
      simpa [truncContext] using this
    obtain rfl : 0 = reg := by
      simpa [truncContext, FrameContext.getStorage, VariableStorage.reg] using h
    exact ⟨rfl, by decide⟩
  · obtain ⟨s, hs, hloc⟩ := global_getElem?_of_register h
    obtain rfl : globalIdx = 0 := by
      have := (List.getElem?_eq_some_iff.mp hs).1
      simpa [truncContext] using this
    rfl

/-- The state is reached by pushing both elements. -/
theorem truncState_reachable : Reachable truncFunction truncContext truncState := by
  have hentered : Reachable truncFunction truncContext ⟨[], 144⟩ :=
    .enteredFunction truncContext_describes rfl (by decide) (by decide)
  have hoperand : Reachable truncFunction truncContext ⟨[.local_ 0], 144⟩ :=
    hentered.step (.push ⟨trivial, fun _ _ heq => by cases heq⟩)
  exact hoperand.step (.push ⟨trivial, fun _ _ heq => by cases heq⟩)

/-- The instruction keeps the discipline of callers. -/
theorem truncRequest_valid (mayTrap : Bool) :
    (truncRequest mayTrap).Valid truncContext truncState := by
  refine ⟨⟨1, ?_, ?_⟩, fun i hi e reg he hloc => ?_, fun hint hhint => ?_⟩
  · cases mayTrap <;> decide
  · cases mayTrap <;> decide
  · obtain rfl : i = 0 := by simpa [truncRequest] using hi
    obtain rfl : .local_ 0 = e := by simpa [truncState] using he
    obtain rfl : 4 = reg := by
      simpa [truncContext, FrameContext.getStorage, VariableStorage.reg] using hloc
    cases mayTrap <;> decide
  · obtain rfl : .global 0 = hint := by simpa [truncRequest] using hhint
    trivial

/-- The register of the global is returned as the hint. -/
theorem truncRequest_hintReg? (mayTrap : Bool) :
    (truncRequest mayTrap).hintReg? truncContext truncState = some 0 := by
  cases mayTrap <;> decide

end ScratchRequest

end WasmCompiler
