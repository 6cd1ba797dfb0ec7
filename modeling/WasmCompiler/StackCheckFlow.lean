import WasmCompiler.StackCheckCode
import Mathlib.Tactic

/-!
# Runs and Stack Checks

Where a run is in the emitted code, the frame has the size the compiler takes it to have and
at least a known size has been checked. A label that has been placed has such an arrival for
good; the label of an open block has one that covers its end state, which only gets smaller
while the block is open. Both together are an invariant of the compiler, preserved by every
instruction whose step meets the condition, and give inductive assertions for the code.

## Main results

* `FlowInvariant`: the invariant.
* `FlowInvariant.updateStackFrameSizeHelper`: the frame changes its size.
* `FlowInvariant.emitBranch`: a branch arrives with what its label is known for.
* `FlowInvariant.diverge`: a branch merges its state into its target.
-/

namespace WasmCompiler

open FrameCompiler

/-! ### Assertions -/

/-- The frame size and the checked size with which runs arrive somewhere, if any does. -/
abbrev Arrival := Option (ℤ × ℤ)

/-- The assertion of an arrival. -/
def Arrival.Holds (p : Arrival) (m : FrameMachine) : Prop :=
  ∃ frame floor, p = some (frame, floor) ∧ m.frame = frame ∧ floor ≤ m.checked

@[simp] theorem Arrival.holds_none (m : FrameMachine) : ¬ Arrival.Holds none m := by
  rintro ⟨_, _, h, _⟩
  cases h

@[simp] theorem Arrival.holds_some {frame floor : ℤ} {m : FrameMachine} :
    Arrival.Holds (some (frame, floor)) m ↔ m.frame = frame ∧ floor ≤ m.checked := by
  constructor
  · rintro ⟨_, _, h, hframe, hfloor⟩
    cases h
    exact ⟨hframe, hfloor⟩
  · exact fun ⟨hframe, hfloor⟩ => ⟨_, _, rfl, hframe, hfloor⟩

/-- The code carries one arrival to another. -/
abbrev FrameFlows (lf : ℕ → FrameMachine → Prop) (p : Arrival) (code : List FrameEmission)
    (q : Arrival) : Prop :=
  frameSemantics.Flows lf FrameEmission.Safe p.Holds code q.Holds

/-- Where a run arrives in a reachable frame, the current state is covered. -/
def FunctionState.Known (fs : FunctionState) (p : Arrival) : Prop :=
  ∀ frame floor, p = some (frame, floor) → fs.currentFrameIsUnreachable = false →
    (fs.currentState.checkedStackFrameSize : ℤ) ≤ floor

/-- An instruction is safe if it is known to be. -/
theorem FunctionState.Known.safe {fs : FunctionState} {p : Arrival} (h : fs.Known p)
    {instr : FrameInstr} (huse : instr = .useFrame → ∀ frame floor, p = some (frame, floor) →
      frame ≤ floor) {m : FrameMachine} (hm : p.Holds m) : (fs.emission instr).Safe m := by
  obtain ⟨frame, floor, rfl, hframe, hfloor⟩ := hm
  constructor
  · intro hinstr
    have := huse hinstr frame floor rfl
    omega
  · intro hreachable
    simp only [FunctionState.emission, Bool.not_eq_true'] at hreachable
    have := h frame floor rfl hreachable
    simp only [FunctionState.emission]
    omega

section carries

variable {a : ℕ → FrameMachine → Prop} {fs : FunctionState} {p q : Arrival}

/-- One instruction, from what it falls through with, jumps with and defines. -/
theorem FunctionState.Known.flows (h : fs.Known p) {instr : FrameInstr}
    (huse : instr = .useFrame → ∀ frame floor, p = some (frame, floor) → frame ≤ floor)
    (hfalls : ∀ m m', p.Holds m → frameSemantics.falls (fs.emission instr) m m' → q.Holds m')
    (hjumps : ∀ m m' l, p.Holds m → frameSemantics.jumps (fs.emission instr) l m m' → a l m')
    (hlabel : ∀ l, instr = .label l → ∀ m, a l m → q.Holds m) :
    FrameFlows a p [fs.emission instr] q := by
  refine .single ⟨fun m hm => h.safe huse hm, hfalls, fun m m' l => hjumps m m' l, ?_⟩
  intro l hl
  cases instr <;> simp only [frameSemantics, FunctionState.emission, Option.some.injEq,
    reduceCtorEq] at hl
  exact hlabel l (by rw [hl])

/-- The stack pointer is moved. -/
theorem FunctionState.Known.addToSP (h : fs.Known p) (delta : ℤ) :
    FrameFlows a p [fs.emission (.addToSP delta)] (p.map fun q => (q.1 - delta, q.2)) := by
  refine h.flows (by simp) ?_ (fun _ _ _ _ hjumps => hjumps.elim) (by simp)
  rintro m m' ⟨frame, floor, rfl, hframe, hfloor⟩ rfl
  simp only [Option.map_some, Arrival.holds_some]
  omega

/-- The frame is checked. -/
theorem FunctionState.Known.checkStackFence (h : fs.Known p) :
    FrameFlows a p [fs.emission .checkStackFence] (p.map fun q => (q.1, max q.2 q.1)) := by
  refine h.flows (by simp) ?_ (fun _ _ _ _ hjumps => hjumps.elim) (by simp)
  rintro m m' ⟨frame, floor, rfl, hframe, hfloor⟩ rfl
  simp only [Option.map_some, Arrival.holds_some]
  omega

/-- The frame is used where it is checked. -/
theorem FunctionState.Known.useFrame (h : fs.Known p)
    (huse : ∀ frame floor, p = some (frame, floor) → frame ≤ floor) :
    FrameFlows a p [fs.emission .useFrame] p := by
  refine h.flows (fun _ => huse) ?_ (fun _ _ _ _ hjumps => hjumps.elim) (by simp)
  rintro m m' hm rfl
  exact hm

/-- A jump to a label that covers the arrival. -/
theorem FunctionState.Known.jump (h : fs.Known p) {l : ℕ} (hl : ∀ m, p.Holds m → a l m) :
    FrameFlows a p [fs.emission (.jump l)] none := by
  refine h.flows (by simp) (fun _ _ _ hfalls => hfalls.elim) ?_ (by simp)
  rintro m m' l' hm ⟨rfl, rfl⟩
  exact hl _ hm

/-- A conditional jump to such a label. -/
theorem FunctionState.Known.jumpIf (h : fs.Known p) {l : ℕ} (hl : ∀ m, p.Holds m → a l m) :
    FrameFlows a p [fs.emission (.jumpIf l)] p := by
  refine h.flows (by simp) ?_ ?_ (by simp)
  · rintro m m' hm rfl
    exact hm
  · rintro m m' l' hm ⟨rfl, rfl⟩
    exact hl _ hm

/-- A jump to one of several such labels. -/
theorem FunctionState.Known.jumpTable (h : fs.Known p) {ls : List ℕ}
    (hl : ∀ l ∈ ls, ∀ m, p.Holds m → a l m) :
    FrameFlows a p [fs.emission (.jumpTable ls)] none := by
  refine h.flows (by simp) (fun _ _ _ hfalls => hfalls.elim) ?_ (by simp)
  rintro m m' l' hm ⟨hmem, rfl⟩
  exact hl _ hmem _ hm

/-- The function is left. -/
theorem FunctionState.Known.leave (h : fs.Known p) :
    FrameFlows a p [fs.emission .leave] none :=
  h.flows (by simp) (fun _ _ _ hfalls => hfalls.elim) (fun _ _ _ _ hjumps => hjumps.elim)
    (by simp)

/-- A label, behind which both kinds of arrival are covered. -/
theorem FunctionState.Known.label (h : fs.Known p) {l : ℕ}
    (hp : ∀ m, p.Holds m → q.Holds m) (hl : ∀ m, a l m → q.Holds m) :
    FrameFlows a p [fs.emission (.label l)] q := by
  refine h.flows (by simp) ?_ (fun _ _ _ _ hjumps => hjumps.elim) ?_
  · rintro m m' hm rfl
    exact hp _ hm
  · rintro l' hl'
    cases hl'
    exact hl

end carries

/-! ### The invariant -/

/-- What is known of the emitted code: the arrival at every label that has been placed, the
size that was checked when the block of a label was opened, and the size that has been
checked where the code ends, if a run gets there. -/
structure FlowFacts where
  arrival : ℕ → Arrival
  entered : ℕ → ℕ
  floor : Option ℤ

/-- The arrival where the code ends. -/
def FlowFacts.here (facts : FlowFacts) (fs : FunctionState) : Arrival :=
  facts.floor.map fun floor => (fs.stackFrameSize, floor)

/-- No end state of a block around it is below this size: a branch to the block may rely on
its frame and, if it is a loop, on what was checked at its start. -/
def FlowFacts.low (facts : FlowFacts) (b : BlockInfo) : ℕ :=
  max b.entryStackFrameSize (facts.entered b.label)

/-- An open block and what it is nested in. -/
structure BlockShape (facts : FlowFacts) (unreachable : Bool) (b : BlockInfo)
    (rest : List BlockInfo) : Prop where
  inherited : b.type ≠ .IFBLOCK → frameUnreachable unreachable rest = true →
    b.blockUnreachable = true ∧ b.endState = .unvisited
  loop : b.type = .LOOP → frameUnreachable unreachable rest = false →
    ∃ floor : ℤ, facts.arrival b.label = some ((b.entryStackFrameSize : ℤ), floor) ∧
      floor ≤ facts.entered b.label
  ifBlock : b.type = .IFBLOCK → ∃ outer tail, rest = outer :: tail ∧ outer.type = .BLOCK ∧
    (frameUnreachable unreachable tail = true →
      b.blockUnreachable = true ∧ b.endState = .unvisited) ∧
    (frameUnreachable unreachable tail = false →
      b.endState.checkedStackFrameSize ≤ facts.entered b.label)

/-- A run that is in an unreachable frame came there through a constant condition: around
the frame there is one, not a loop, whose end state the run covers, and nothing has branched
to those in between. -/
def Skips (unreachable : Bool) (floor : ℤ) : List BlockInfo → Prop
  | [] => unreachable = false
  | b :: rest =>
      b.blockUnreachable = true →
        if frameUnreachable unreachable rest then
          (b.endState = .unvisited ∨ (b.endState.checkedStackFrameSize : ℤ) ≤ floor) ∧
            Skips unreachable floor rest
        else b.type ≠ .LOOP ∧ (b.endState.checkedStackFrameSize : ℤ) ≤ floor

/-- A reachable frame. -/
theorem Skips.of_reachable {unreachable : Bool} {floor : ℤ} {blocks : List BlockInfo}
    (h : frameUnreachable unreachable blocks = false) : Skips unreachable floor blocks := by
  cases blocks with
  | nil => exact h
  | cons b rest =>
      intro hb
      simp [show b.blockUnreachable = false from h] at hb

/-- More may have been checked, and end states of blocks with a reachable parent may be
smaller. -/
theorem Skips.map {unreachable : Bool} {floor floor' : ℤ} {f : BlockInfo → BlockInfo}
    (htype : ∀ b, (f b).type = b.type)
    (hunreachable : ∀ b, (f b).blockUnreachable = b.blockUnreachable)
    (hend : ∀ b, (f b).endState.checkedStackFrameSize ≤ b.endState.checkedStackFrameSize)
    (hfloor : floor ≤ floor') {blocks : List BlockInfo}
    (hsame : ∀ b rest, b :: rest <:+ blocks → frameUnreachable unreachable rest = true →
      (f b).endState = b.endState) (h : Skips unreachable floor blocks) :
    Skips unreachable floor' (blocks.map f) := by
  induction blocks with
  | nil => exact h
  | cons b rest ih =>
      have hrest : frameUnreachable unreachable (rest.map f) = frameUnreachable unreachable rest := by
        cases rest with
        | nil => rfl
        | cons c _ => exact hunreachable c
      intro hb
      have hskips := h (by rwa [← hunreachable])
      rw [hrest]
      split
      · case _ htrue =>
          rw [if_pos htrue] at hskips
          rw [hsame b rest List.suffix_rfl htrue]
          refine ⟨hskips.1.imp_right fun hle => hle.trans hfloor, ih (fun c tail hc =>
            hsame c tail (hc.trans (List.suffix_cons b rest))) hskips.2⟩
      · case _ hfalse =>
          rw [if_neg hfalse] at hskips
          have := hend b
          rw [htype]
          exact ⟨hskips.1, by omega⟩

/-- The bounds of an open block. -/
structure BlockBounds (facts : FlowFacts) (fs : FunctionState) (b : BlockInfo) : Prop where
  low : facts.low b ≤ fs.currentState.checkedStackFrameSize
  endState : facts.low b ≤ b.endState.checkedStackFrameSize
  bounded : b.endState.checkedStackFrameSize ≤ UInt32.size - 1
  fresh : b.label < fs.nextLabel

/-- The frame and everything a branch may rely on is within the current state. -/
structure BlocksInvariant (facts : FlowFacts) (fs : FunctionState) : Prop where
  frame : fs.stackFrameSize ≤ fs.currentState.checkedStackFrameSize
  bounded : fs.currentState.checkedStackFrameSize ≤ UInt32.size - 1
  blocks : ∀ b ∈ fs.blocks, BlockBounds facts fs b
  nested : fs.blocks.Pairwise fun b b' =>
    facts.low b' ≤ b.endState.checkedStackFrameSize ∧ b.label ≠ b'.label
  shape : ∀ b rest, b :: rest <:+ fs.blocks → BlockShape facts fs.unreachable b rest

/-- **The invariant** of the compiler: in addition, a run that arrives has checked what the
current state says, unless it is in an unreachable frame after the end of a nested block. -/
structure FlowInvariant (facts : FlowFacts) (fs : FunctionState) : Prop
    extends BlocksInvariant facts fs where
  known : ∀ floor, facts.floor = some floor →
    (fs.currentState.checkedStackFrameSize : ℤ) ≤ floor ∨
      fs.currentFrameIsUnreachable = true ∧ fs.currentState = .unvisited
  skips : ∀ floor, facts.floor = some floor → Skips fs.unreachable floor fs.blocks

/-- Assertions for labels that agree with the facts: those of placed labels are their
arrivals, that of an open block covers its end state. -/
structure FlowAgrees (lf : ℕ → FrameMachine → Prop) (facts : FlowFacts) (fs : FunctionState) :
    Prop where
  placed : ∀ l, l < fs.nextLabel → (∀ b ∈ fs.blocks, b.type ≠ .LOOP → b.label ≠ l) →
    lf l = (facts.arrival l).Holds
  covers : ∀ b rest, b :: rest <:+ fs.blocks → b.type ≠ .LOOP →
    frameUnreachable fs.unreachable rest = false → ∀ m,
      Arrival.Holds (some ((b.entryStackFrameSize : ℤ), (b.endState.checkedStackFrameSize : ℤ))) m →
      lf b.label m

/-- The compiler goes on: the invariant holds again, assertions that agree with the facts
afterwards agree with those before, and the code carries one arrival to the other. -/
structure Proceeds (facts : FlowFacts) (fs : FunctionState) (code : List FrameEmission)
    (facts' : FlowFacts) (fs' : FunctionState) : Prop where
  invariant : FlowInvariant facts' fs'
  agrees : ∀ lf, FlowAgrees lf facts' fs' → FlowAgrees lf facts fs
  flows : ∀ lf, FlowAgrees lf facts' fs' →
    FrameFlows lf (facts.here fs) code (facts'.here fs')

/-- One part of the code after the other. -/
theorem Proceeds.trans {facts facts' facts'' : FlowFacts} {fs fs' fs'' : FunctionState}
    {code code' : List FrameEmission} (h : Proceeds facts fs code facts' fs')
    (h' : Proceeds facts' fs' code' facts'' fs'') :
    Proceeds facts fs (code ++ code') facts'' fs'' where
  invariant := h'.invariant
  agrees lf hlf := h.agrees lf (h'.agrees lf hlf)
  flows lf hlf := (h.flows lf (h'.agrees lf hlf)).append (h'.flows lf hlf)

/-- Nothing happens. -/
theorem Proceeds.refl {facts : FlowFacts} {fs : FunctionState} (h : FlowInvariant facts fs) :
    Proceeds facts fs [] facts fs where
  invariant := h
  agrees _ hlf := hlf
  flows _ _ := .nil _

/-- The frame of a reachable state is covered by what a run has checked. -/
theorem FlowInvariant.known_of_reachable {facts : FlowFacts} {fs : FunctionState}
    (h : FlowInvariant facts fs) (hreachable : fs.currentFrameIsUnreachable = false) {floor : ℤ}
    (hfloor : facts.floor = some floor) :
    (fs.currentState.checkedStackFrameSize : ℤ) ≤ floor := by
  obtain hle | ⟨hunreachable, _⟩ := h.known _ hfloor
  · exact hle
  · simp [hreachable] at hunreachable

/-- The current state is known to be covered, whatever the frame. -/
theorem FlowInvariant.knownAt {facts : FlowFacts} {fs : FunctionState}
    (h : FlowInvariant facts fs) (frame : ℤ) :
    fs.Known (facts.floor.map fun floor => (frame, floor)) := by
  intro _ floor hp hreachable
  simp only [Option.map_eq_some_iff, Prod.mk.injEq] at hp
  obtain ⟨_, hfloor, _, rfl⟩ := hp
  exact h.known_of_reachable hreachable hfloor

/-- The current state is known to be covered. -/
theorem FlowInvariant.knownHere {facts : FlowFacts} {fs : FunctionState}
    (h : FlowInvariant facts fs) : fs.Known (facts.here fs) := h.knownAt _

theorem FunctionState.known_none (fs : FunctionState) : fs.Known none := by
  intro _ _ hp
  cases hp

/-! ### Parts of the compiler -/

theorem FrameCompiler.andThen_eq_some {f g : FrameCompiler} {fs fs' : FunctionState}
    {code : List FrameEmission} (h : (f.andThen g) fs = some (fs', code)) :
    ∃ between code₁ code₂, f fs = some (between, code₁) ∧ g between = some (fs', code₂) ∧
      code = code₁ ++ code₂ := by
  simp only [andThen, Option.bind_eq_some_iff, Option.map_eq_some_iff, Prod.mk.injEq] at h
  obtain ⟨⟨between, code₁⟩, hf, ⟨_, code₂⟩, hg, rfl, rfl⟩ := h
  exact ⟨between, code₁, code₂, hf, hg, rfl⟩

@[simp] theorem FrameCompiler.emit_eq_some {instrs : List FrameInstr} {fs fs' : FunctionState}
    {code : List FrameEmission} :
    emit instrs fs = some (fs', code) ↔ fs = fs' ∧ instrs.map fs.emission = code := by
  simp [emit]

@[simp] theorem FrameCompiler.modifyState_eq_some {f : FunctionState → FunctionState}
    {fs fs' : FunctionState} {code : List FrameEmission} :
    modifyState f fs = some (fs', code) ↔ f fs = fs' ∧ [] = code := by
  simp [modifyState]

@[simp] theorem FrameCompiler.nothing_eq_some {fs fs' : FunctionState}
    {code : List FrameEmission} :
    nothing fs = some (fs', code) ↔ fs = fs' ∧ [] = code := by
  simp [nothing]

/-- A part of the compiler that keeps the invariant, whatever it does to the facts. -/
def FrameCompiler.Preserves (f : FrameCompiler) (facts : FlowFacts) (fs : FunctionState) : Prop :=
  ∀ fs' code, f fs = some (fs', code) → ∃ facts', Proceeds facts fs code facts' fs'

/-- Parts that keep the invariant compose. -/
theorem FrameCompiler.Preserves.andThen {f g : FrameCompiler} {facts : FlowFacts}
    {fs : FunctionState} (hf : f.Preserves facts fs)
    (hg : ∀ between code facts', f fs = some (between, code) →
      Proceeds facts fs code facts' between → g.Preserves facts' between) :
    (f.andThen g).Preserves facts fs := by
  intro fs' code h
  obtain ⟨between, code₁, code₂, hf', hg', rfl⟩ := andThen_eq_some h
  obtain ⟨facts₁, hadv₁⟩ := hf between code₁ hf'
  obtain ⟨facts₂, hadv₂⟩ := hg between code₁ facts₁ hf' hadv₁ fs' code₂ hg'
  exact ⟨facts₂, hadv₁.trans hadv₂⟩

theorem FrameCompiler.Preserves.nothing {facts : FlowFacts} {fs : FunctionState}
    (h : FlowInvariant facts fs) : nothing.Preserves facts fs := by
  intro fs' code hc
  rw [nothing_eq_some] at hc
  obtain ⟨rfl, rfl⟩ := hc
  exact ⟨facts, .refl h⟩

/-- Code without labels that leaves the state alone. -/
theorem Proceeds.code {facts : FlowFacts} {fs : FunctionState} (h : FlowInvariant facts fs)
    {code : List FrameEmission}
    (hflows : ∀ lf, FlowAgrees lf facts fs →
      FrameFlows lf (facts.here fs) code (facts.here fs)) :
    Proceeds facts fs code facts fs where
  invariant := h
  agrees _ hlf := hlf
  flows := hflows

/-- No run arrives. -/
theorem FlowInvariant.dead {facts : FlowFacts} {fs : FunctionState}
    (h : FlowInvariant facts fs) : FlowInvariant { facts with floor := none } fs :=
  { h with
    blocks := fun b hb => { h.blocks b hb with }
    shape := fun b rest hb => { h.shape b rest hb with }
    known := by simp
    skips := by simp }

/-- Code after which no run goes on. -/
theorem Proceeds.stop {facts : FlowFacts} {fs : FunctionState} (h : FlowInvariant facts fs)
    {code : List FrameEmission}
    (hflows : ∀ lf, FlowAgrees lf facts fs → FrameFlows lf (facts.here fs) code none) :
    Proceeds facts fs code { facts with floor := none } fs where
  invariant := h.dead
  agrees _ hlf := { hlf with }
  flows lf hlf := hflows lf { hlf with }

/-- `useFrame` where the current state is covered. -/
theorem FlowInvariant.useFrame {facts : FlowFacts} {fs : FunctionState}
    (h : FlowInvariant facts fs)
    (hstate : fs.currentFrameIsUnreachable = true → fs.currentState ≠ .unvisited)
    {fs' : FunctionState} {code : List FrameEmission}
    (hc : emit [.useFrame] fs = some (fs', code)) : Proceeds facts fs code facts fs' := by
  rw [emit_eq_some] at hc
  obtain ⟨rfl, rfl⟩ := hc
  refine .code h fun lf _ => h.knownHere.useFrame ?_
  intro frame floor hp
  simp only [FlowFacts.here, Option.map_eq_some_iff, Prod.mk.injEq] at hp
  obtain ⟨_, hfloor, rfl, rfl⟩ := hp
  have hframe := h.frame
  obtain hle | ⟨hunreachable, hunvisited⟩ := h.known _ hfloor
  · omega
  · exact absurd hunvisited (hstate hunreachable)

/-- `leave`. -/
theorem FlowInvariant.leave {facts : FlowFacts} {fs : FunctionState}
    (h : FlowInvariant facts fs) {fs' : FunctionState} {code : List FrameEmission}
    (hc : emit [.leave] fs = some (fs', code)) :
    Proceeds facts fs code { facts with floor := none } fs' := by
  rw [emit_eq_some] at hc
  obtain ⟨rfl, rfl⟩ := hc
  exact .stop h fun lf _ => h.knownHere.leave

/-! ### The size of the frame -/

/-- What `setStackFrameSize` emits carries the arrival to the new size. -/
theorem setStackFrameSize_flows {fs fs' : FunctionState} {frameSize : ℕ} {temporary : Bool}
    {code : List FrameEmission} {lf : ℕ → FrameMachine → Prop} {floor : Option ℤ}
    (hc : FunctionState.setStackFrameSize frameSize temporary fs = some (fs', code))
    (hknown : fs.Known (floor.map fun floor => (fs.stackFrameSize, floor))) :
    FrameFlows lf (floor.map fun floor => (fs.stackFrameSize, floor)) code
      (floor.map fun floor => ((frameSize : ℤ), floor)) := by
  simp only [FunctionState.setStackFrameSize] at hc
  split at hc
  · case _ heq =>
      simp only [Option.some.injEq, Prod.mk.injEq] at hc
      obtain ⟨-, rfl⟩ := hc
      rw [heq]
      exact .nil _
  · split at hc
    · cases hc
    · simp only [Option.some.injEq, Prod.mk.injEq] at hc
      obtain ⟨-, rfl⟩ := hc
      have hflows := hknown.addToSP (a := lf) (fs.stackFrameSize - frameSize)
      simpa [Function.comp_def] using hflows

/-- The state after `setStackFrameSize`. -/
theorem setStackFrameSize_eq {fs fs' : FunctionState} {frameSize : ℕ} {temporary : Bool}
    {code : List FrameEmission}
    (hc : FunctionState.setStackFrameSize frameSize temporary fs = some (fs', code)) :
    fs' = (if temporary then fs else { fs with stackFrameSize := frameSize }) ∧
      (fs.stackFrameSize = frameSize ∨ frameSize ≤ maxStackFrameSize.toNat) := by
  simp only [FunctionState.setStackFrameSize] at hc
  split at hc
  · case _ heq =>
      simp only [Option.some.injEq, Prod.mk.injEq] at hc
      obtain ⟨rfl, -⟩ := hc
      refine ⟨?_, .inl heq⟩
      rw [← heq]
      simp
  · split at hc
    · cases hc
    · case _ hle =>
        simp only [Option.some.injEq, Prod.mk.injEq] at hc
        exact ⟨hc.1.symm, .inr (by omega)⟩

/-- A temporary change leaves the state alone. -/
theorem setStackFrameSize_temporary {fs fs' : FunctionState} {frameSize : ℕ}
    {code : List FrameEmission}
    (hc : FunctionState.setStackFrameSize frameSize true fs = some (fs', code)) : fs' = fs := by
  rw [(setStackFrameSize_eq hc).1, if_pos rfl]

/-- Any other change is that of the frame. -/
theorem setStackFrameSize_permanent {fs fs' : FunctionState} {frameSize : ℕ}
    {code : List FrameEmission}
    (hc : FunctionState.setStackFrameSize frameSize false fs = some (fs', code)) :
    fs' = { fs with stackFrameSize := frameSize } := by
  rw [(setStackFrameSize_eq hc).1, if_neg Bool.false_ne_true]

/-- A changed frame size that is covered, and a checked size that has grown. -/
theorem FlowInvariant.resize {facts : FlowFacts} {fs : FunctionState}
    (h : FlowInvariant facts fs) {frame checked : ℕ} {floor : Option ℤ} (hframe : frame ≤ checked)
    (hle : fs.currentState.checkedStackFrameSize ≤ checked) (hmax : checked ≤ UInt32.size - 1)
    (hfloor : ∀ new, floor = some new → ∃ old, facts.floor = some old ∧ old ≤ new ∧
      ((checked : ℤ) ≤ new ∨ checked = fs.currentState.checkedStackFrameSize)) :
    FlowInvariant { facts with floor := floor }
      { fs with stackFrameSize := frame, currentState := ⟨checked⟩ } where
  frame := hframe
  bounded := hmax
  blocks b hb := { h.blocks b hb with low := (h.blocks b hb).low.trans hle }
  nested := h.nested
  shape b rest hb := { h.shape b rest hb with }
  known new hnew := by
    obtain ⟨old, hold, hlo, hcover⟩ := hfloor new hnew
    obtain hle' | heq := hcover
    · exact .inl hle'
    · subst heq
      obtain hle' | ⟨hunreachable, hunvisited⟩ := h.known old hold
      · exact .inl (hle'.trans hlo)
      · exact .inr ⟨hunreachable, hunvisited⟩
  skips new hnew := by
    obtain ⟨old, hold, hlo, -⟩ := hfloor new hnew
    have hskips := Skips.map (f := id) (fun _ => rfl) (fun _ => rfl) (fun _ => le_rfl) hlo
      (fun _ _ _ _ => rfl) (h.skips old hold)
    rwa [List.map_id] at hskips

/-- **The frame changes its size**, with a check if the size has not been checked. -/
theorem FlowInvariant.updateStackFrameSizeHelper {facts : FlowFacts} {fs : FunctionState}
    (h : FlowInvariant facts fs) (n : ℕ) :
    (updateStackFrameSizeHelper n).Preserves facts fs := by
  intro fs' code hc
  obtain ⟨resized, code₁, code₂, hset, hcheck, rfl⟩ := andThen_eq_some hc
  obtain ⟨rfl, hn⟩ := setStackFrameSize_eq hset
  have hframe := h.frame
  have hknown : FunctionState.Known { fs with stackFrameSize := n }
      (facts.floor.map fun floor => ((n : ℤ), floor)) := h.knownAt n
  simp only [Bool.false_eq_true, if_false, FunctionState.checkStackFence] at hcheck
  split at hcheck
  · case _ hlt =>
      simp only [Option.some.injEq, Prod.mk.injEq] at hcheck
      obtain ⟨rfl, rfl⟩ := hcheck
      refine ⟨{ facts with floor := facts.floor.map fun floor => max floor n }, ?_,
        fun _ hlf => { hlf with }, fun lf _ => ?_⟩
      · refine h.resize le_rfl (by omega) ?_ ?_
        · have hmax : maxStackFrameSize.toNat ≤ UInt32.size - 1 := by decide
          omega
        · intro new hnew
          simp only [Option.map_eq_some_iff] at hnew
          obtain ⟨old, hold, rfl⟩ := hnew
          exact ⟨old, hold, le_max_left _ _, .inl (le_max_right _ _)⟩
      · have hflows := hknown.checkStackFence (a := lf)
        simp only [Option.map_map, Function.comp_def] at hflows
        have := (setStackFrameSize_flows hset h.knownHere).append hflows
        simpa [FlowFacts.here, Function.comp_def] using this
  · case _ hle =>
      simp only [Option.some.injEq, Prod.mk.injEq] at hcheck
      obtain ⟨rfl, rfl⟩ := hcheck
      refine ⟨facts, ?_, fun _ hlf => { hlf with }, fun lf _ => ?_⟩
      · exact h.resize (Nat.not_lt.mp hle) le_rfl h.bounded fun new hnew =>
          ⟨new, hnew, le_rfl, .inr rfl⟩
      · rw [List.append_nil]
        exact setStackFrameSize_flows hset h.knownHere

/-- A slot is taken. -/
theorem FlowInvariant.growStackFrame {facts : FlowFacts} {fs : FunctionState}
    (h : FlowInvariant facts fs) (n : ℕ) : (growStackFrame n).Preserves facts fs := by
  intro fs' code hc
  simp only [WasmCompiler.growStackFrame] at hc
  split at hc
  · exact h.updateStackFrameSizeHelper n fs' code hc
  · simp only [Option.some.injEq, Prod.mk.injEq] at hc
    obtain ⟨rfl, rfl⟩ := hc
    exact ⟨facts, .refl h⟩

/-- Slots are taken. -/
theorem FlowInvariant.growStackFrames {facts : FlowFacts} {fs : FunctionState}
    (h : FlowInvariant facts fs) (sizes : List ℕ) :
    (growStackFrames sizes).Preserves facts fs := by
  induction sizes generalizing facts fs with
  | nil => exact .nothing h
  | cons n rest ih =>
      refine (h.growStackFrame n).andThen fun between code facts' _ hadv => ?_
      exact ih hadv.invariant

/-- Within the frame nothing happens. -/
theorem growStackFrames_of_le {fs : FunctionState} {sizes : List ℕ}
    (h : ∀ n ∈ sizes, n ≤ fs.stackFrameSize) : growStackFrames sizes fs = some (fs, []) := by
  induction sizes with
  | nil => rfl
  | cons n rest ih =>
      have hn : ¬ fs.stackFrameSize < n := Nat.not_lt.mpr (h n (by simp))
      simp [growStackFrames, andThen, growStackFrame, hn, ih fun k hk => h k (by simp [hk])]

/-- What growing leaves alone, and the size it reaches. -/
theorem growStackFrames_eq {fs fs' : FunctionState} {sizes : List ℕ}
    {code : List FrameEmission} (hc : growStackFrames sizes fs = some (fs', code)) :
    fs'.blocks = fs.blocks ∧ fs'.unreachable = fs.unreachable ∧
      fs.currentState.checkedStackFrameSize ≤ fs'.currentState.checkedStackFrameSize ∧
      fs'.stackFrameSize = frameAfter fs.stackFrameSize sizes := by
  induction sizes generalizing fs code with
  | nil =>
      simp only [growStackFrames, nothing_eq_some] at hc
      obtain ⟨rfl, rfl⟩ := hc
      exact ⟨rfl, rfl, le_rfl, rfl⟩
  | cons n rest ih =>
      obtain ⟨grown, code₁, code₂, hgrow, hrest, rfl⟩ := andThen_eq_some hc
      obtain ⟨hblocks, hunreachable, hchecked, hframe⟩ := ih hrest
      have hgrown : grown.blocks = fs.blocks ∧ grown.unreachable = fs.unreachable ∧
          fs.currentState.checkedStackFrameSize ≤ grown.currentState.checkedStackFrameSize ∧
          grown.stackFrameSize = max fs.stackFrameSize n := by
        simp only [growStackFrame] at hgrow
        split at hgrow
        · case _ hlt =>
            obtain ⟨resized, _, _, hset, hcheck, -⟩ := andThen_eq_some hgrow
            obtain ⟨rfl, -⟩ := setStackFrameSize_eq hset
            simp only [Bool.false_eq_true, if_false, FunctionState.checkStackFence] at hcheck
            split at hcheck <;>
              simp only [Option.some.injEq, Prod.mk.injEq] at hcheck <;>
              obtain ⟨rfl, -⟩ := hcheck <;> exact ⟨rfl, rfl, by dsimp only; omega, by dsimp only; omega⟩
        · simp only [Option.some.injEq, Prod.mk.injEq] at hgrow
          obtain ⟨rfl, -⟩ := hgrow
          exact ⟨rfl, rfl, le_rfl, by omega⟩
      obtain ⟨hblocks', hunreachable', hchecked', hframe'⟩ := hgrown
      refine ⟨hblocks.trans hblocks', hunreachable.trans hunreachable',
        hchecked'.trans hchecked, ?_⟩
      rw [hframe, hframe']
      rfl

/-! ### Targets -/

/-- A part of the open blocks whose frame is reachable, less an inner if block: its first
block has a reachable parent. -/
theorem FlowInvariant.skipIfBlock {facts : FlowFacts} {fs : FunctionState}
    (h : FlowInvariant facts fs) {l : List BlockInfo} (hl : l <:+ fs.blocks)
    (hreachable : frameUnreachable fs.unreachable l = false) :
    skipIfBlock l <:+ fs.blocks ∧ ∀ b rest, skipIfBlock l = b :: rest →
      b.type ≠ .IFBLOCK ∧ frameUnreachable fs.unreachable rest = false := by
  cases l with
  | nil => exact ⟨hl, by simp [WasmCompiler.skipIfBlock]⟩
  | cons b rest =>
      have hshape := h.shape b rest hl
      have hb : b.blockUnreachable = false := hreachable
      simp only [WasmCompiler.skipIfBlock]
      split
      · case _ htype =>
          refine ⟨(List.suffix_cons b rest).trans hl, ?_⟩
          rintro outer tail rfl
          obtain ⟨_, _, heq, houter, htail, -⟩ := hshape.ifBlock htype
          cases heq
          refine ⟨by simp [houter], ?_⟩
          by_contra hunreachable
          simp [(htail (by simpa using hunreachable)).1] at hb
      · case _ htype =>
          refine ⟨hl, ?_⟩
          rintro _ _ heq
          cases heq
          refine ⟨htype, ?_⟩
          by_contra hunreachable
          simp [(hshape.inherited htype (by simpa using hunreachable)).1] at hb

/-- The target of a branch in a reachable frame lies in one. -/
theorem FlowInvariant.findTargetBlock {facts : FlowFacts} {fs : FunctionState}
    (h : FlowInvariant facts fs) (hreachable : fs.currentFrameIsUnreachable = false) {depth : ℕ}
    {targets : List BlockInfo} (htargets : findTargetBlock fs.blocks depth = some targets) :
    targets <:+ fs.blocks ∧ ∀ b rest, targets = b :: rest →
      b.type ≠ .IFBLOCK ∧ frameUnreachable fs.unreachable rest = false := by
  induction depth generalizing targets with
  | zero =>
      simp only [WasmCompiler.findTargetBlock, Option.some.injEq] at htargets
      subst htargets
      exact h.skipIfBlock List.suffix_rfl hreachable
  | succ depth ih =>
      simp only [WasmCompiler.findTargetBlock] at htargets
      split at htargets
      · case _ b rest hfound =>
          simp only [Option.some.injEq] at htargets
          subst htargets
          obtain ⟨hsuffix, hparent⟩ := ih hfound
          exact h.skipIfBlock ((List.suffix_cons b rest).trans hsuffix) (hparent b rest rfl).2
      · cases htargets

/-- Open blocks have different labels. -/
theorem BlocksInvariant.eq_of_label {facts : FlowFacts} {fs : FunctionState}
    (h : BlocksInvariant facts fs) {b b' : BlockInfo} (hb : b ∈ fs.blocks) (hb' : b' ∈ fs.blocks)
    (hlabel : b.label = b'.label) : b = b' := by
  by_contra hne
  have : Std.Symm fun b b' : BlockInfo => b.label ≠ b'.label := ⟨fun _ _ h => h.symm⟩
  exact (h.nested.imp fun h => h.2).forall hb hb' hne hlabel

/-- What a branch jumps to: an open block with a reachable parent, whose end state the
current state covers. -/
structure FlowTarget (fs : FunctionState) (target : BlockInfo) : Prop where
  isOpen : ∃ b rest, b :: rest <:+ fs.blocks ∧ frameUnreachable fs.unreachable rest = false ∧
    b.label = target.label ∧ b.entryStackFrameSize = target.entryStackFrameSize ∧
    (b.type ≠ .LOOP → b.endState.checkedStackFrameSize ≤ fs.currentState.checkedStackFrameSize)

/-- The label of a target covers a run that arrives with its frame. -/
theorem FlowInvariant.target_covers {facts : FlowFacts} {fs : FunctionState}
    (h : FlowInvariant facts fs) (hreachable : fs.currentFrameIsUnreachable = false)
    {target : BlockInfo} (ht : FlowTarget fs target) {lf : ℕ → FrameMachine → Prop}
    (hlf : FlowAgrees lf facts fs) {m : FrameMachine}
    (hm : Arrival.Holds
      (facts.floor.map fun floor => ((target.entryStackFrameSize : ℤ), floor)) m) :
    lf target.label m := by
  obtain ⟨b, rest, hb, hparent, hlabel, hentry, hend⟩ := ht.isOpen
  obtain ⟨frame, floor, hp, hframe, hfloor⟩ := hm
  simp only [Option.map_eq_some_iff, Prod.mk.injEq] at hp
  obtain ⟨_, hfloor', rfl, rfl⟩ := hp
  have hknown := h.known_of_reachable hreachable hfloor'
  have hmem : b ∈ fs.blocks := hb.subset (by simp)
  rw [← hlabel]
  rw [← hentry] at hframe
  by_cases htype : b.type = .LOOP
  · obtain ⟨checked, harrival, hchecked⟩ := (h.shape b rest hb).loop htype hparent
    have hplaced := hlf.placed b.label (h.blocks b hmem).fresh fun b' hb' htype' hlabel' => by
      rw [h.eq_of_label hb' hmem hlabel'] at htype'
      exact htype' htype
    rw [hplaced, harrival, Arrival.holds_some]
    have hlow := (h.blocks b hmem).low
    simp only [FlowFacts.low] at hlow
    omega
  · refine hlf.covers b rest hb htype hparent m ?_
    rw [Arrival.holds_some]
    have := hend htype
    omega

/-- An open block occurs once. -/
theorem BlocksInvariant.suffix_unique {facts : FlowFacts} {fs : FunctionState}
    (h : BlocksInvariant facts fs) {b b' : BlockInfo} {rest rest' : List BlockInfo}
    (hb : b :: rest <:+ fs.blocks) (hb' : b' :: rest' <:+ fs.blocks)
    (hlabel : b.label = b'.label) : b :: rest = b' :: rest' := by
  have hnot : ∀ {c c' : BlockInfo} {tail tail' : List BlockInfo}, c' :: tail' <:+ fs.blocks →
      c.label = c'.label → ¬ c :: tail <:+ tail' := by
    intro c c' tail tail' hc' heq hsuffix
    have hpairwise := List.Pairwise.sublist hc'.sublist h.nested
    have hmem : c ∈ tail' := hsuffix.subset (by simp)
    exact ((List.pairwise_cons.mp hpairwise).1 c hmem).2 heq.symm
  obtain hsuffix | hsuffix := List.suffix_or_suffix_of_suffix hb hb'
  · obtain heq | hsuffix := List.suffix_cons_iff.mp hsuffix
    · exact heq
    · exact absurd hsuffix (hnot hb' hlabel)
  · obtain heq | hsuffix := List.suffix_cons_iff.mp hsuffix
    · exact heq.symm
    · exact absurd hsuffix (hnot hb hlabel.symm)

/-! ### Merging -/

@[simp] theorem mergeControlFlowState_checked (a b : ControlFlowState) :
    (mergeControlFlowState a b).checkedStackFrameSize =
      min a.checkedStackFrameSize b.checkedStackFrameSize := by
  simp only [mergeControlFlowState]
  split <;> omega

section mergeEndState

variable (l : ℕ) (state : ControlFlowState) (b : BlockInfo)

@[simp] theorem mergeEndState_type : (mergeEndState l state b).type = b.type := by
  simp only [mergeEndState]
  split <;> rfl

@[simp] theorem mergeEndState_label : (mergeEndState l state b).label = b.label := by
  simp only [mergeEndState]
  split <;> rfl

@[simp] theorem mergeEndState_entry :
    (mergeEndState l state b).entryStackFrameSize = b.entryStackFrameSize := by
  simp only [mergeEndState]
  split <;> rfl

@[simp] theorem mergeEndState_unreachable :
    (mergeEndState l state b).blockUnreachable = b.blockUnreachable := by
  simp only [mergeEndState]
  split <;> rfl

theorem mergeEndState_le : (mergeEndState l state b).endState.checkedStackFrameSize ≤
    b.endState.checkedStackFrameSize := by
  simp only [mergeEndState]
  split
  · simp
  · exact le_rfl

theorem le_mergeEndState {n : ℕ} (hb : n ≤ b.endState.checkedStackFrameSize)
    (hstate : n ≤ state.checkedStackFrameSize) :
    n ≤ (mergeEndState l state b).endState.checkedStackFrameSize := by
  simp only [mergeEndState]
  split
  · simp [hb, hstate]
  · exact hb

@[simp] theorem frameUnreachable_mergeEndState (unreachable : Bool) (blocks : List BlockInfo) :
    frameUnreachable unreachable (blocks.map (mergeEndState l state)) =
      frameUnreachable unreachable blocks := by
  cases blocks with
  | nil => rfl
  | cons b rest => exact mergeEndState_unreachable l state b

@[simp] theorem FlowFacts.low_mergeEndState (facts : FlowFacts) :
    facts.low (mergeEndState l state b) = facts.low b := by
  simp [FlowFacts.low]

end mergeEndState

/-- A block whose end state a branch may merge into. -/
def Mergeable (unreachable : Bool) (b : BlockInfo) (rest : List BlockInfo) : Prop :=
  b.type ≠ .IFBLOCK ∧ frameUnreachable unreachable rest = false

/-- Other blocks stay as they are. -/
theorem mergeEndState_of_not_mergeable {unreachable : Bool} {blocks : List BlockInfo}
    {target : ℕ} {state : ControlFlowState}
    (hmerge : ∀ b rest, b :: rest <:+ blocks → b.label = target → Mergeable unreachable b rest)
    {b : BlockInfo} {rest : List BlockInfo} (hb : b :: rest <:+ blocks)
    (h : ¬ Mergeable unreachable b rest) : mergeEndState target state b = b := by
  rw [mergeEndState, if_neg fun heq => h (hmerge b rest hb heq)]

/-- **A branch diverges**: the end state of its target gets smaller. -/
theorem FlowInvariant.diverge {facts : FlowFacts} {fs : FunctionState}
    (h : FlowInvariant facts fs) (isReachable : Bool) {target : BlockInfo}
    (hmerge : isReachable = true → ∀ b rest, b :: rest <:+ fs.blocks → b.label = target.label →
      Mergeable fs.unreachable b rest) :
    Proceeds facts fs [] facts (emitBranchDivergePoint isReachable (some target) fs) := by
  simp only [emitBranchDivergePoint]
  split
  · case _ hcond =>
      simp only [Bool.and_eq_true] at hcond
      replace hmerge := hmerge hcond.1
      refine ⟨?_, fun lf hlf => ?_, fun lf _ => .nil _⟩
      · exact { h with
          blocks := fun b' hb' => by
            obtain ⟨b, hb, rfl⟩ := List.mem_map.mp hb'
            have hbounds := h.blocks b hb
            exact ⟨by simpa using hbounds.low,
              le_mergeEndState _ _ _ (by simpa using hbounds.endState) (by simpa using hbounds.low),
              (mergeEndState_le _ _ b).trans hbounds.bounded, by simpa using hbounds.fresh⟩
          nested := by
            refine List.pairwise_map.mpr (h.nested.imp_of_mem fun {b b'} _ hb' hnest => ?_)
            simp only [mergeEndState_label, FlowFacts.low_mergeEndState]
            exact ⟨le_mergeEndState _ _ _ hnest.1 (h.blocks b' hb').low, hnest.2⟩
          shape := fun b' rest' hb' => by
            obtain ⟨l, hl, heq⟩ := List.suffix_map_iff.mp hb'
            cases l with
            | nil => cases heq
            | cons b rest =>
                obtain ⟨rfl, rfl⟩ := List.cons.inj heq
                have hshape := h.shape b rest hl
                refine ⟨?_, by simpa using hshape.loop, ?_⟩
                · simp only [mergeEndState_type, frameUnreachable_mergeEndState]
                  intro htype hparent
                  rw [mergeEndState_of_not_mergeable hmerge hl (by simp [Mergeable, hparent])]
                  exact hshape.inherited htype hparent
                · rw [mergeEndState_type]
                  intro htype
                  rw [mergeEndState_of_not_mergeable hmerge hl (by simp [Mergeable, htype])]
                  obtain ⟨outer, tail, rfl, houter, htail⟩ := hshape.ifBlock htype
                  exact ⟨_, _, rfl, by simpa using houter, by simpa using htail⟩
          known := by simpa [FunctionState.currentFrameIsUnreachable] using h.known
          skips := fun floor hfloor => by
            refine Skips.map (by simp) (by simp) (fun b => mergeEndState_le _ _ b) le_rfl
              (fun b rest hb hparent => ?_) (h.skips floor hfloor)
            rw [mergeEndState_of_not_mergeable hmerge hb (by simp [Mergeable, hparent])] }
      · constructor
        · intro l hl hopen
          refine hlf.placed l hl fun b' hb' htype => ?_
          obtain ⟨b, hb, rfl⟩ := List.mem_map.mp hb'
          simpa using hopen b hb (by simpa using htype)
        · intro b rest hb htype hparent m hm
          have hsuffix := hb.map (mergeEndState target.label fs.currentState)
          rw [List.map_cons] at hsuffix
          have hcovers := hlf.covers _ _ hsuffix (by simpa using htype) (by simpa using hparent) m
          rw [Arrival.holds_some] at hm
          have hle := mergeEndState_le target.label fs.currentState b
          have := hcovers (by
            simp only [mergeEndState_entry, Arrival.holds_some]
            omega)
          simpa using this
  · exact .refl h

/-- A block that is open and that a branch may name. -/
structure OpenTarget (fs : FunctionState) (target : BlockInfo) : Prop where
  isOpen : ∃ b rest, b :: rest <:+ fs.blocks ∧ frameUnreachable fs.unreachable rest = false ∧
    b.type ≠ .IFBLOCK ∧ b.type = target.type ∧ b.label = target.label ∧
    b.entryStackFrameSize = target.entryStackFrameSize

/-- What a branch in a reachable frame finds is open. -/
theorem FlowInvariant.openTarget {facts : FlowFacts} {fs : FunctionState}
    (h : FlowInvariant facts fs) (hreachable : fs.currentFrameIsUnreachable = false) {depth : ℕ}
    {targets : List BlockInfo} (htargets : WasmCompiler.findTargetBlock fs.blocks depth = some targets)
    {target : BlockInfo} (ht : targets.head? = some target) : OpenTarget fs target := by
  obtain ⟨hsuffix, hparent⟩ := h.findTargetBlock hreachable htargets
  obtain ⟨rest, rfl⟩ := List.head?_eq_some_iff.mp ht
  obtain ⟨htype, hrest⟩ := hparent target rest rfl
  exact ⟨target, rest, hsuffix, hrest, htype, rfl, rfl, rfl⟩

/-- A branch may merge into a target. -/
theorem OpenTarget.mergeable {facts : FlowFacts} {fs : FunctionState} {target : BlockInfo}
    (ht : OpenTarget fs target) (h : BlocksInvariant facts fs) {b : BlockInfo}
    {rest : List BlockInfo} (hb : b :: rest <:+ fs.blocks) (hlabel : b.label = target.label) :
    Mergeable fs.unreachable b rest := by
  obtain ⟨c, tail, hc, hparent, htype, -, hclabel, -⟩ := ht.isOpen
  obtain ⟨rfl, rfl⟩ := List.cons.inj (h.suffix_unique hb hc (hlabel.trans hclabel.symm))
  exact ⟨htype, hparent⟩

@[simp] theorem emitBranchDivergePoint_unreachable (isReachable : Bool) (target : BlockInfo)
    (fs : FunctionState) :
    (emitBranchDivergePoint isReachable (some target) fs).currentFrameIsUnreachable =
      fs.currentFrameIsUnreachable := by
  simp only [emitBranchDivergePoint, FunctionState.currentFrameIsUnreachable]
  split
  · simp
  · rfl

/-- A block that is open stays so when a branch diverges. -/
theorem OpenTarget.diverge {fs : FunctionState} {target : BlockInfo} (ht : OpenTarget fs target)
    (isReachable : Bool) (other : BlockInfo) :
    OpenTarget (emitBranchDivergePoint isReachable (some other) fs) target := by
  obtain ⟨b, rest, hb, hparent, htype, hsame, hlabel, hentry⟩ := ht.isOpen
  simp only [emitBranchDivergePoint]
  split
  · have hsuffix := hb.map (mergeEndState other.label fs.currentState)
    rw [List.map_cons] at hsuffix
    exact ⟨_, _, hsuffix, by simpa using hparent, by simpa using htype, by simpa using hsame,
      by simpa using hlabel, by simpa using hentry⟩
  · exact ht

/-- After a branch to it has diverged, the current state covers the target. -/
theorem OpenTarget.flowTarget {fs : FunctionState} {target : BlockInfo}
    (ht : OpenTarget fs target) :
    FlowTarget (emitBranchDivergePoint true (some target) fs) target := by
  obtain ⟨b, rest, hb, hparent, -, hsame, hlabel, hentry⟩ := ht.isOpen
  simp only [emitBranchDivergePoint, Bool.true_and, bne_iff_ne, ne_eq]
  split
  · have hsuffix := hb.map (mergeEndState target.label fs.currentState)
    rw [List.map_cons] at hsuffix
    refine ⟨_, _, hsuffix, by simpa using hparent, by simpa using hlabel,
      by simpa using hentry, fun _ => ?_⟩
    simp [mergeEndState, hlabel]
  · case _ hloop =>
      refine ⟨b, rest, hb, hparent, hlabel, hentry, fun htype => ?_⟩
      rw [hsame] at htype
      exact absurd htype hloop

/-- A target stays one when another branch diverges. -/
theorem FlowTarget.diverge {fs : FunctionState} {target : BlockInfo} (ht : FlowTarget fs target)
    (isReachable : Bool) (other : BlockInfo) :
    FlowTarget (emitBranchDivergePoint isReachable (some other) fs) target := by
  obtain ⟨b, rest, hb, hparent, hlabel, hentry, hend⟩ := ht.isOpen
  simp only [emitBranchDivergePoint]
  split
  · have hsuffix := hb.map (mergeEndState other.label fs.currentState)
    rw [List.map_cons] at hsuffix
    refine ⟨_, _, hsuffix, by simpa using hparent, by simpa using hlabel,
      by simpa using hentry, fun htype => ?_⟩
    exact (mergeEndState_le _ _ b).trans (hend (by simpa using htype))
  · exact ht

/-- A target stays one while nothing is opened or closed and more is checked. -/
theorem FlowTarget.mono {fs fs' : FunctionState} {target : BlockInfo} (ht : FlowTarget fs target)
    (hblocks : fs'.blocks = fs.blocks) (hunreachable : fs'.unreachable = fs.unreachable)
    (hchecked : fs.currentState.checkedStackFrameSize ≤ fs'.currentState.checkedStackFrameSize) :
    FlowTarget fs' target := by
  obtain ⟨b, rest, hb, hparent, hlabel, hentry, hend⟩ := ht.isOpen
  exact ⟨b, rest, hblocks ▸ hb, hunreachable ▸ hparent, hlabel, hentry,
    fun htype => (hend htype).trans hchecked⟩

/-! ### Labels -/

/-- Labels that belong to no block. -/
theorem FlowInvariant.newLabels {facts : FlowFacts} {fs : FunctionState}
    (h : FlowInvariant facts fs) (n : ℕ) (arrival : ℕ → Arrival)
    (hsame : ∀ l, l < fs.nextLabel → arrival l = facts.arrival l) :
    Proceeds facts fs [] { facts with arrival := arrival }
      { fs with nextLabel := fs.nextLabel + n } where
  invariant := { h with
    blocks := fun b hb =>
      { h.blocks b hb with fresh := (h.blocks b hb).fresh.trans_le (Nat.le_add_right _ _) }
    shape := fun b rest hb =>
      { h.shape b rest hb with
        loop := fun htype hparent => by
          have hfresh := (h.blocks b (hb.subset (by simp))).fresh
          simpa only [hsame b.label hfresh] using (h.shape b rest hb).loop htype hparent } }
  agrees lf hlf := { hlf with
    placed := fun l hl hopen => by
      have hplaced := hlf.placed l (Nat.lt_of_lt_of_le hl (Nat.le_add_right _ _)) hopen
      simpa only [hsame l hl] using hplaced }
  flows lf _ := .nil _

/-- The assertion of a label that belongs to no block. -/
theorem FlowAgrees.placed_of_fresh {facts : FlowFacts} {fs : FunctionState}
    {lf : ℕ → FrameMachine → Prop} (hlf : FlowAgrees lf facts fs) {l : ℕ}
    (hl : l < fs.nextLabel) (hfresh : ∀ b ∈ fs.blocks, b.label < l) :
    lf l = (facts.arrival l).Holds :=
  hlf.placed l hl fun b hb _ => (hfresh b hb).ne

/-! ### Branches -/

/-- A jump to a target ends the run, also where the state of the next block is current. -/
theorem FlowInvariant.jumpTo {facts : FlowFacts} {fs fs' : FunctionState}
    (h : FlowInvariant facts fs) (hreachable : fs.currentFrameIsUnreachable = false)
    {target : BlockInfo} (ht : FlowTarget fs target) {state : ControlFlowState}
    (hstate : ∀ floor, facts.floor = some floor → (state.checkedStackFrameSize : ℤ) ≤ floor)
    {code : List FrameEmission}
    (hc : emitBranch (some target) false { fs with currentState := state } = some (fs', code)) :
    fs' = { fs with currentState := state } ∧
      Proceeds facts fs code { facts with floor := none } fs := by
  simp only [WasmCompiler.emitBranch, withState] at hc
  obtain ⟨moved, code₁, code₂, hset, hjump, rfl⟩ := andThen_eq_some hc
  obtain rfl := setStackFrameSize_temporary hset
  rw [emit_eq_some] at hjump
  obtain ⟨rfl, rfl⟩ := hjump
  have hknown : ∀ frame : ℤ, FunctionState.Known { fs with currentState := state }
      (facts.floor.map fun floor => (frame, floor)) := by
    intro frame _ floor hp _
    simp only [Option.map_eq_some_iff, Prod.mk.injEq] at hp
    obtain ⟨_, hfloor, _, rfl⟩ := hp
    exact hstate _ hfloor
  refine ⟨rfl, .stop h fun lf hlf => (setStackFrameSize_flows hset (hknown _)).append ?_⟩
  exact (hknown _).jump fun m hm => h.target_covers hreachable ht hlf hm

/-- A branch to a target, or to the function, ends the run. -/
theorem FlowInvariant.emitBranch {facts : FlowFacts} {fs fs' : FunctionState}
    (h : FlowInvariant facts fs) (hreachable : fs.currentFrameIsUnreachable = false)
    {target : Option BlockInfo} (ht : ∀ t, target = some t → FlowTarget fs t)
    {code : List FrameEmission} (hc : emitBranch target false fs = some (fs', code)) :
    Proceeds facts fs code { facts with floor := none } fs' := by
  cases target with
  | none => exact h.leave hc
  | some t =>
      have hjump := h.jumpTo hreachable (ht t rfl)
        (fun floor hfloor => h.known_of_reachable hreachable hfloor) hc
      rw [hjump.1]
      exact hjump.2

/-- A conditional branch goes on with what it found. -/
theorem FlowInvariant.emitBranch_conditional {facts : FlowFacts} {fs : FunctionState}
    (h : FlowInvariant facts fs) (hreachable : fs.currentFrameIsUnreachable = false)
    {target : Option BlockInfo} (ht : ∀ t, target = some t → FlowTarget fs t) :
    (WasmCompiler.emitBranch target true).Preserves facts fs := by
  intro fs' code hc
  -- the label that is skipped to has the arrival in front of the branch
  let skipping : FlowFacts :=
    { facts with arrival := Function.update facts.arrival fs.nextLabel (facts.here fs) }
  have hskip := h.newLabels 1 skipping.arrival fun l hl =>
    Function.update_of_ne hl.ne _ _
  have hplaced : ∀ lf, FlowAgrees lf skipping { fs with nextLabel := fs.nextLabel + 1 } →
      lf fs.nextLabel = (facts.here fs).Holds := by
    intro lf hlf
    rw [hlf.placed_of_fresh (Nat.lt_succ_self _) fun b hb => (h.blocks b hb).fresh]
    simp [skipping]
  cases target with
  | none =>
      simp only [WasmCompiler.emitBranch, withState, andThen, modifyState, emit, List.map_cons,
        List.map_nil, Option.bind_some, Option.map_some, Option.some.injEq, Prod.mk.injEq,
        List.nil_append] at hc
      obtain ⟨rfl, rfl⟩ := hc
      refine ⟨skipping, hskip.invariant, hskip.agrees, fun lf hlf => ?_⟩
      have hknown := hskip.invariant.knownHere
      refine .append (hknown.jumpIf (l := fs.nextLabel) fun m hm => ?_)
        (.append hknown.leave ((FunctionState.known_none _).label (fun m hm => ?_) fun m hm => ?_))
      · rw [hplaced lf hlf]
        exact hm
      · simp at hm
      · rw [hplaced lf hlf] at hm
        exact hm
  | some t =>
      simp only [WasmCompiler.emitBranch, withState] at hc
      split at hc
      · case _ heq =>
          rw [emit_eq_some] at hc
          obtain ⟨rfl, rfl⟩ := hc
          refine ⟨facts, .code h fun lf hlf => h.knownHere.jumpIf fun m hm => ?_⟩
          refine h.target_covers hreachable (ht t rfl) hlf ?_
          rw [← heq]
          exact hm
      · obtain ⟨labelled, code₁, code₂, hlabel, hjumps, rfl⟩ := andThen_eq_some hc
        rw [modifyState_eq_some] at hlabel
        obtain ⟨rfl, rfl⟩ := hlabel
        obtain ⟨jumped, code₁, code₂, hjumpIf, hmove, rfl⟩ := andThen_eq_some hjumps
        rw [emit_eq_some] at hjumpIf
        obtain ⟨rfl, rfl⟩ := hjumpIf
        obtain ⟨moved, code₁, code₂, hset, hjump, rfl⟩ := andThen_eq_some hmove
        obtain rfl := setStackFrameSize_temporary hset
        rw [emit_eq_some] at hjump
        obtain ⟨rfl, rfl⟩ := hjump
        refine ⟨skipping, hskip.invariant, hskip.agrees, fun lf hlf => ?_⟩
        have hknown := hskip.invariant.knownHere
        have hjump := (hskip.invariant.knownAt t.entryStackFrameSize).jump (a := lf)
          (l := t.label) fun m hm => h.target_covers hreachable (ht t rfl) (hskip.agrees lf hlf) hm
        have hlabel := (FunctionState.known_none { fs with nextLabel := fs.nextLabel + 1 }).label
          (a := lf) (l := fs.nextLabel) (q := facts.here fs) (fun m hm => by simp at hm)
          fun m hm => by rwa [hplaced lf hlf] at hm
        have hjumpIf := hknown.jumpIf (a := lf) (l := fs.nextLabel) fun m hm => by
          rwa [hplaced lf hlf]
        exact hjumpIf.append ((setStackFrameSize_flows hset hknown).append (hjump.append hlabel))

end WasmCompiler
