import WasmCompiler.FrontendValidation

/-!
# Typing the Opcode Loop

What the validation stack of the opcode loop means for the typing rules. `Frame.StandsFor`
gives the operand stacks a frame stands for: exactly its number elements, on top of anything
if the frame is formally unreachable. An instruction the loop accepts has a type between the
stacks before and after it, if a `br_table` has targets of one type.

## Main results

* `visit_spec`: what visiting expected types means for the stacks a frame stands for.
* `validateTypes_spec`, `popResults_spec`: validating types takes them from the stack.
* `processPlain_spec`: an accepted instruction has a type between the stacks before and
  after it.
-/

namespace WasmCompiler

open ValidationStack FrontendState Frontend

/-! ### The stacks a frame stands for -/

/-- The operand stacks that number elements stand for; in unreachable code there may be
anything below them. -/
inductive StandsFor (formallyUnreachable : Bool) : List ValidateType → List WasmType → Prop where
  | base {ts : List WasmType} (h : formallyUnreachable = true ∨ ts = []) :
      StandsFor formallyUnreachable [] ts
  | cons {v : ValidateType} {t : WasmType} {vs : List ValidateType} {ts : List WasmType}
      (hv : v.numberMatch t = true) (h : StandsFor formallyUnreachable vs ts) :
      StandsFor formallyUnreachable (v :: vs) (t :: ts)

/-- The operand stacks a frame stands for. -/
def Frame.StandsFor (f : Frame) (ts : List WasmType) : Prop :=
  WasmCompiler.StandsFor f.formallyUnreachable f.operands ts

/-- Every operand list stands for some stack. -/
theorem StandsFor.exists (u : Bool) (vs : List ValidateType) : ∃ ts, StandsFor u vs ts := by
  induction vs with
  | nil => exact ⟨[], .base (Or.inr rfl)⟩
  | cons v vs ih =>
      obtain ⟨ts, hts⟩ := ih
      cases v with
      | any => exact ⟨.i32 :: ts, .cons rfl hts⟩
      | number t => exact ⟨t :: ts, .cons (by simp [ValidateType.numberMatch]) hts⟩

/-- Number elements of known types stand for these types on top. -/
theorem StandsFor.numbers {u : Bool} {types : List WasmType} {vs : List ValidateType}
    {ts : List WasmType} (h : StandsFor u (types.map .number ++ vs) ts) :
    ∃ ts', ts = types ++ ts' ∧ StandsFor u vs ts' := by
  induction types generalizing ts with
  | nil => exact ⟨ts, rfl, h⟩
  | cons type types ih =>
      cases h with
      | @cons _ t _ ts' hv h =>
          obtain ⟨ts'', rfl, h'⟩ := ih h
          have ht : type = t := by simpa [ValidateType.numberMatch] using hv
          exact ⟨ts'', by rw [ht]; rfl, h'⟩

/-- Visiting expected types: whatever the elements below stand for, the elements visited
stand for the expected types on top of it. -/
theorem visit_spec {u : Bool} {types : List WasmType} {vs visited below : List ValidateType}
    (h : visit u types vs = .ok (visited, below)) :
    visited = types.map .number ∧
      ∀ ts, StandsFor u below ts → StandsFor u vs (types ++ ts) := by
  induction types generalizing vs visited below with
  | nil =>
      cases h
      exact ⟨rfl, fun ts hts => hts⟩
  | cons type types ih =>
      cases vs with
      | nil =>
          rw [visit] at h
          split at h
          · rename_i hu
            obtain ⟨⟨visited', below'⟩, hrest, heq⟩ := bind_eq_ok.mp h
            cases heq
            obtain ⟨rfl, -⟩ := ih hrest
            exact ⟨rfl, fun ts _ => .base (Or.inl hu)⟩
          · exact nomatch h
      | cons v vs =>
          rw [visit] at h
          split at h
          · rename_i hv
            obtain ⟨⟨visited', below'⟩, hrest, heq⟩ := bind_eq_ok.mp h
            cases heq
            obtain ⟨rfl, hstands⟩ := ih hrest
            exact ⟨rfl, fun ts hts => .cons hv (hstands ts hts)⟩
          · exact nomatch h

/-! ### Pops and pushes -/

/-- Two frames with the same structural element and reachability. -/
structure Frame.Same (f f' : Frame) : Prop where
  kind : f'.kind = f.kind
  sigIndex : f'.sigIndex = f.sigIndex
  formallyUnreachable : f'.formallyUnreachable = f.formallyUnreachable

/-- Going from `s` to `s'` takes operands of the types `a`, top first. -/
def Pops (s s' : ValidationStack) (a : List WasmType) : Prop :=
  ∃ f f' fs, s = f :: fs ∧ s' = f' :: fs ∧ f.Same f' ∧
    ∀ ts, f'.StandsFor ts → f.StandsFor (a ++ ts)

/-- Going from `s` to `s'` leaves results of the types `b`, top first. -/
def Pushes (s s' : ValidationStack) (b : List WasmType) : Prop :=
  ∃ f f' fs, s = f :: fs ∧ s' = f' :: fs ∧ f.Same f' ∧
    ∀ ts, f'.StandsFor ts → ∃ ts', ts = b ++ ts' ∧ f.StandsFor ts'

/-- Operands taken one after the other. -/
theorem Pops.trans {s s' s'' : ValidationStack} {a a' : List WasmType} (h : Pops s s' a)
    (h' : Pops s' s'' a') : Pops s s'' (a ++ a') := by
  obtain ⟨f, f', fs, rfl, rfl, hsame, hf⟩ := h
  obtain ⟨g, g', gs, hg, rfl, hsame', hg'⟩ := h'
  obtain ⟨rfl, rfl⟩ := List.cons.inj hg
  refine ⟨f, g', fs, rfl, rfl, ⟨hsame'.kind.trans hsame.kind, hsame'.sigIndex.trans hsame.sigIndex,
    hsame'.formallyUnreachable.trans hsame.formallyUnreachable⟩, fun ts hts => ?_⟩
  rw [List.append_assoc]
  exact hf _ (hg' ts hts)

/-- Popping a number element of the expected type. -/
theorem validateLastNumberType_pop {t : WasmType} {s s' : ValidationStack}
    (h : validateLastNumberType t true s = .ok s') : Pops s s' [t] := by
  cases s with
  | nil => exact nomatch h
  | cons f fs =>
      rw [validateLastNumberType] at h
      split at h
      · rename_i hops
        split at h
        · rename_i hu
          cases h
          refine ⟨f, f, fs, rfl, rfl, ⟨rfl, rfl, rfl⟩, fun ts _ => ?_⟩
          rw [Frame.StandsFor, hops]
          exact .base (Or.inl hu)
        · exact nomatch h
      · rename_i v vs hops
        split at h
        · rename_i hv
          cases h
          refine ⟨f, _, fs, rfl, rfl, ⟨rfl, rfl, rfl⟩, fun ts hts => ?_⟩
          rw [Frame.StandsFor, hops]
          exact .cons hv hts
        · exact nomatch h

/-- Pushing a number element. -/
theorem push_spec {s s' : ValidationStack} {a : List WasmType} (h : Pops s s' a)
    (t : WasmType) : Pushes s' (push (.number t) s') [t] := by
  obtain ⟨f, f', fs, -, rfl, -, -⟩ := h
  refine ⟨f', _, fs, rfl, rfl, ⟨rfl, rfl, rfl⟩, fun ts hts => ?_⟩
  exact @StandsFor.numbers _ [t] _ _ hts

/-- Validating the topmost number element without popping it: it is taken and put back. -/
theorem validateLastNumberType_keep {t : WasmType} {s s' : ValidationStack}
    (h : validateLastNumberType t false s = .ok s') :
    ∃ s₁, Pops s s₁ [t] ∧ Pushes s₁ s' [t] := by
  cases s with
  | nil => exact nomatch h
  | cons f fs =>
      have hpop : ∃ s₁, validateLastNumberType t true (f :: fs) = .ok s₁ ∧
          s' = push (.number t) s₁ := by
        rw [validateLastNumberType] at h ⊢
        split at h
        · split at h
          · cases h
            exact ⟨_, if_pos ‹_›, rfl⟩
          · exact nomatch h
        · split at h
          · cases h
            exact ⟨_, if_pos ‹_›, rfl⟩
          · exact nomatch h
      obtain ⟨s₁, hs₁, rfl⟩ := hpop
      have hp := validateLastNumberType_pop hs₁
      exact ⟨s₁, hp, push_spec hp t⟩

/-- Validating a list of types takes them, the last one first. -/
theorem validateTypes_spec {types : List WasmType} {s s' : ValidationStack}
    {visited : List ValidateType} (h : validateTypes types s = .ok (visited, s')) :
    visited = types.reverse.map .number ∧ Pops s s' types.reverse := by
  cases s with
  | nil => exact nomatch h
  | cons f fs =>
      obtain ⟨⟨visited', below⟩, hvisit, heq⟩ := bind_eq_ok.mp h
      cases heq
      obtain ⟨rfl, hstands⟩ := visit_spec hvisit
      exact ⟨rfl, f, _, fs, rfl, rfl, ⟨rfl, rfl, rfl⟩, hstands⟩

/-- Putting visited elements back. -/
theorem restore_spec {f : Frame} {fs : ValidationStack} (types : List WasmType) :
    Pushes (f :: fs) (restore (types.map .number) (f :: fs)) types :=
  ⟨f, _, fs, rfl, rfl, ⟨rfl, rfl, rfl⟩, fun _ hts => hts.numbers⟩

/-- Pushing number elements one by one puts them back in one piece. -/
theorem pushAll_cons (f : Frame) (fs : ValidationStack) (types : List WasmType) :
    ValidationStack.pushAll types (f :: fs) = restore (types.reverse.map .number) (f :: fs) := by
  induction types generalizing f with
  | nil => rfl
  | cons type types ih =>
      rw [ValidationStack.pushAll, List.foldl_cons, ← ValidationStack.pushAll, push, ih]
      simp [restore]

/-- Popping results one by one takes them. -/
theorem popResults_spec {types : List WasmType} {f : Frame} {fs s' : ValidationStack}
    (h : popResults types (f :: fs) = .ok s') : Pops (f :: fs) s' types := by
  induction types generalizing f with
  | nil =>
      cases h
      exact ⟨f, f, fs, rfl, rfl, ⟨rfl, rfl, rfl⟩, fun ts hts => hts⟩
  | cons type types ih =>
      obtain ⟨s₁, hfirst, hrest⟩ := bind_eq_ok.mp h
      have hpop := validateLastNumberType_pop hfirst
      obtain ⟨g, g', gs, hg, rfl, -, -⟩ := id hpop
      obtain ⟨rfl, rfl⟩ := List.cons.inj hg
      exact hpop.trans (ih hrest)

/-! ### The context of a validation stack -/

/-- The label types of a frame. -/
def Frame.label (m : ModuleInfo) (f : Frame) : List WasmType :=
  match f.kind with
  | .loop => (m.signature f.sigIndex).params
  | _ => (m.signature f.sigIndex).results

/-- The typing context at a validation stack. -/
def stackContext (m : ModuleInfo) (fnc : FunctionInfo) (s : ValidationStack) : Context :=
  { m.context fnc with labels := s.map (Frame.label m) }

/-- The block a frame opens in the typing rules; after `else`, an `if` is a plain block. -/
def Frame.openBlock (m : ModuleInfo) (f : Frame) : OpenBlock where
  kind :=
    match f.kind with
    | .func => .func
    | .block => .block
    | .loop => .loop
    | .if_ (some _) => .if_
    | .if_ none => .block
  type := m.signature f.sigIndex

/-- A frame's label is that of the block it opens. -/
@[simp] theorem Frame.label_openBlock (m : ModuleInfo) (f : Frame) :
    (f.openBlock m).label = f.label m := by
  obtain ⟨kind, sigIndex, u, vs⟩ := f
  cases kind with
  | if_ elseParams => cases elseParams <;> rfl
  | _ => rfl

/-- Frames that differ in their operands only have the same labels. -/
theorem Frame.label_eq {m : ModuleInfo} {f f' : Frame} (hk : f'.kind = f.kind)
    (hs : f'.sigIndex = f.sigIndex) : f'.label m = f.label m := by
  rw [Frame.label, Frame.label, hk, hs]

/-- Operands do not matter for the context. -/
theorem stackContext_eq {m : ModuleInfo} {fnc : FunctionInfo} {f f' : Frame}
    {fs : ValidationStack} (hk : f'.kind = f.kind) (hs : f'.sigIndex = f.sigIndex) :
    stackContext m fnc (f' :: fs) = stackContext m fnc (f :: fs) := by
  rw [stackContext, stackContext, List.map_cons, List.map_cons, Frame.label_eq hk hs]

/-- Pops keep the context. -/
theorem Pops.stackContext {m : ModuleInfo} {fnc : FunctionInfo} {s s' : ValidationStack}
    {a : List WasmType} (h : Pops s s' a) :
    WasmCompiler.stackContext m fnc s' = WasmCompiler.stackContext m fnc s := by
  obtain ⟨f, f', fs, rfl, rfl, hsame, -⟩ := h
  exact stackContext_eq hsame.kind hsame.sigIndex

/-! ### Instructions without nested instructions -/

/-- Going from `s` to `s'` is typed by the instruction: every stack `s'` stands for is
reached by it from a stack `s` stands for. -/
def PlainStep (C : Context) (p : Plain) (s s' : ValidationStack) : Prop :=
  ∃ f f' fs, s = f :: fs ∧ s' = f' :: fs ∧ f'.kind = f.kind ∧ f'.sigIndex = f.sigIndex ∧
    ∀ ts', f'.StandsFor ts' → ∃ a b ts, PlainTyped C p a b ∧ ts' = b ++ ts ∧
      f.StandsFor (a ++ ts)

/-- An instruction that takes its operands and leaves its results. -/
theorem PlainStep.of_pops {C : Context} {p : Plain} {s s₁ s' : ValidationStack}
    {a b : List WasmType} (hp : PlainTyped C p a b) (h : Pops s s₁ a) (h' : Pushes s₁ s' b) :
    PlainStep C p s s' := by
  obtain ⟨f, f₁, fs, rfl, rfl, hsame, hf⟩ := h
  obtain ⟨g, g', gs, hg, rfl, hsame', hg'⟩ := h'
  obtain ⟨rfl, rfl⟩ := List.cons.inj hg
  refine ⟨f, g', fs, rfl, rfl, hsame'.kind.trans hsame.kind,
    hsame'.sigIndex.trans hsame.sigIndex, fun ts' hts' => ?_⟩
  obtain ⟨ts, rfl, hts⟩ := hg' ts' hts'
  exact ⟨a, b, ts, hp, rfl, hf ts hts⟩

/-- An instruction that leaves nothing. -/
theorem PlainStep.of_pops_only {C : Context} {p : Plain} {s s' : ValidationStack}
    {a : List WasmType} (hp : PlainTyped C p a []) (h : Pops s s' a) : PlainStep C p s s' := by
  obtain ⟨f, f', fs, rfl, rfl, hsame, hf⟩ := h
  exact ⟨f, f', fs, rfl, rfl, hsame.kind, hsame.sigIndex,
    fun ts' hts' => ⟨a, [], ts', hp, rfl, hf ts' hts'⟩⟩

/-- A stack-polymorphic instruction, after which the block is unreachable. -/
theorem PlainStep.of_pops_mark {C : Context} {p : Plain} {s s' : ValidationStack}
    {a : List WasmType} (hp : ∀ c b, PlainTyped C p (a ++ c) b) (h : Pops s s' a) :
    PlainStep C p s (markCurrentBlockUnreachable s') := by
  obtain ⟨f, f', fs, rfl, rfl, hsame, hf⟩ := h
  refine ⟨f, _, fs, rfl, rfl, hsame.kind, hsame.sigIndex, fun ts' _ => ?_⟩
  obtain ⟨c, hc⟩ := StandsFor.exists f'.formallyUnreachable f'.operands
  refine ⟨a ++ c, ts', [], hp c ts', by rw [List.append_nil], ?_⟩
  rw [List.append_nil]
  exact hf c hc

/-- The stack before any pop. -/
theorem Pops.refl {f : Frame} {fs : ValidationStack} : Pops (f :: fs) (f :: fs) [] :=
  ⟨f, f, fs, rfl, rfl, ⟨rfl, rfl, rfl⟩, fun _ hts => hts⟩

/-- What the types of a branch target are. -/
theorem findTargetBlock_label {m : ModuleInfo} {fnc : FunctionInfo} {s : ValidationStack}
    {l : ℕ} {target : Frame} (h : ValidationStack.findTargetBlock s l = .ok target) :
    (stackContext m fnc s).labels[l]? = some (target.label m) := by
  rw [ValidationStack.findTargetBlock] at h
  split at h
  · rename_i hl
    cases h
    simp [stackContext, hl]
  · exact nomatch h

/-- Validating the types of a branch target takes the label's types. -/
theorem validateTarget_spec {m : ModuleInfo} {s s' : ValidationStack} {target : Frame}
    {visited : List ValidateType}
    (h : validateTarget m target s = .ok (visited, s')) :
    visited = (target.label m).reverse.map .number ∧ Pops s s' (target.label m).reverse := by
  rw [validateTarget] at h
  split at h
  · rename_i hk
    simpa only [Frame.label, hk] using validateTypes_spec h
  · rename_i hk
    have hl : target.label m = (m.signature target.sigIndex).results := by
      unfold Frame.label
      split
      · exact absurd ‹_› hk
      · rfl
    rw [hl]
    exact validateTypes_spec h

/-- Validating an unconditional branch. -/
theorem validateBranch_br {m : ModuleInfo} {fnc : FunctionInfo} {l : ℕ}
    {s s' : ValidationStack} (h : validateBranch m .br l s = .ok s') :
    PlainStep (stackContext m fnc s) (.br l) s s' := by
  obtain ⟨s₁, hs₁, h⟩ := bind_eq_ok.mp h
  cases hs₁
  obtain ⟨target, htarget, h⟩ := bind_eq_ok.mp h
  obtain ⟨⟨visited, below⟩, hvisit, h⟩ := bind_eq_ok.mp h
  cases h
  obtain ⟨-, hpops⟩ := validateTarget_spec hvisit
  exact .of_pops_mark (fun c b => .br (findTargetBlock_label htarget)) hpops

/-- Validating a conditional branch. -/
theorem validateBranch_brIf {m : ModuleInfo} {fnc : FunctionInfo} {l : ℕ}
    {s s' : ValidationStack} (h : validateBranch m .brIf l s = .ok s') :
    PlainStep (stackContext m fnc s) (.brIf l) s s' := by
  obtain ⟨s₁, hs₁, h⟩ := bind_eq_ok.mp h
  have hcond := validateLastNumberType_pop hs₁
  obtain ⟨target, htarget, h⟩ := bind_eq_ok.mp h
  obtain ⟨⟨visited, below⟩, hvisit, h⟩ := bind_eq_ok.mp h
  cases h
  obtain ⟨rfl, hpops⟩ := validateTarget_spec hvisit
  have hlabel := @findTargetBlock_label m fnc _ _ _ htarget
  rw [hcond.stackContext] at hlabel
  obtain ⟨g, g', gs, -, rfl, -, -⟩ := id hpops
  exact .of_pops (.brIf hlabel) (hcond.trans hpops) (restore_spec _)

/-- Validating a branch table against one of its targets, when all labels of the table have
the same types. -/
theorem validateBranch_brTable {m : ModuleInfo} {fnc : FunctionInfo} {first d : ℕ}
    {ls : List ℕ} {s s' : ValidationStack} (h : validateBranch m .brTable first s = .ok s')
    (hall : ∀ l ∈ d :: ls, (stackContext m fnc s).labels[l]? =
      (stackContext m fnc s).labels[first]?) :
    PlainStep (stackContext m fnc s) (.brTable ls d) s s' := by
  obtain ⟨s₁, hs₁, h⟩ := bind_eq_ok.mp h
  have hcond := validateLastNumberType_pop hs₁
  obtain ⟨target, htarget, h⟩ := bind_eq_ok.mp h
  obtain ⟨⟨visited, below⟩, hvisit, h⟩ := bind_eq_ok.mp h
  cases h
  obtain ⟨-, hpops⟩ := validateTarget_spec hvisit
  have hlabel := @findTargetBlock_label m fnc _ _ _ htarget
  rw [hcond.stackContext] at hlabel
  refine .of_pops_mark (fun c b => .brTable (fun l hl => ?_) ?_) (hcond.trans hpops)
  · rw [hall l (List.mem_cons_of_mem _ hl), hlabel]
  · rw [hall d List.mem_cons_self, hlabel]

/-- Validating a `return`. -/
theorem validateReturn_spec {m : ModuleInfo} {fnc : FunctionInfo} {s s' : ValidationStack}
    (h : validateReturn m s = .ok s')
    (hfunc : ∀ g, s.getLast? = some g → g.sigIndex = fnc.sigIndex) :
    PlainStep (stackContext m fnc s) .return_ s s' := by
  rw [validateReturn] at h
  split at h
  · exact nomatch h
  · rename_i g hg
    obtain ⟨⟨visited, below⟩, hvisit, h⟩ := bind_eq_ok.mp h
    cases h
    obtain ⟨-, hpops⟩ := validateTypes_spec hvisit
    rw [hfunc g hg] at hpops
    exact .of_pops_mark (fun c b => .return_) hpops

/-- Validating a call takes its parameters and leaves its results. -/
theorem validateCall_spec {m : ModuleInfo} {sigIndex : ℕ} {s s' : ValidationStack}
    (h : validateCall m sigIndex s = .ok s') :
    ∃ s₁, Pops s s₁ (m.signature sigIndex).params.reverse ∧
      Pushes s₁ s' (m.signature sigIndex).results.reverse := by
  obtain ⟨⟨visited, below⟩, hvisit, h⟩ := bind_eq_ok.mp h
  cases h
  obtain ⟨-, hpops⟩ := validateTypes_spec hvisit
  obtain ⟨g, g', gs, -, rfl, -, -⟩ := id hpops
  exact ⟨_, hpops, pushAll_cons g' gs _ ▸ restore_spec _⟩

/-- Validating a `drop`. -/
theorem drop_spec {C : Context} {s s' : ValidationStack}
    (h : ValidationStack.drop s = .ok s') : PlainStep C .drop s s' := by
  cases s with
  | nil => exact nomatch h
  | cons f fs =>
      rw [ValidationStack.drop] at h
      split at h
      · rename_i hops
        split at h
        · rename_i hu
          cases h
          refine ⟨f, f, fs, rfl, rfl, rfl, rfl, fun ts' _ => ⟨[.i32], [], ts', .drop, rfl, ?_⟩⟩
          rw [Frame.StandsFor, hops]
          exact .base (Or.inl hu)
        · exact nomatch h
      · rename_i v vs hops
        cases h
        refine ⟨f, _, fs, rfl, rfl, rfl, rfl, fun ts' hts' => ?_⟩
        cases v with
        | any =>
            refine ⟨[.i32], [], ts', .drop, rfl, ?_⟩
            rw [Frame.StandsFor, hops]
            exact .cons rfl hts'
        | number t =>
            refine ⟨[t], [], ts', .drop, rfl, ?_⟩
            rw [Frame.StandsFor, hops]
            exact .cons (by simp [ValidateType.numberMatch]) hts'

/-- A `select` whose result stands for a type that both operands can have. -/
theorem select_of_stands {C : Context} {f f' : Frame} {fs s : ValidationStack}
    (hcond : Pops s (f :: fs) [.i32]) (hsame : f.Same f')
    (h : ∀ ts', f'.StandsFor ts' → ∃ t ts, ts' = t :: ts ∧ f.StandsFor (t :: t :: ts)) :
    PlainStep C .select s (f' :: fs) := by
  obtain ⟨g, g', gs, rfl, hg, hsame', hstands⟩ := hcond
  obtain ⟨rfl, rfl⟩ := List.cons.inj hg
  refine ⟨g, f', fs, rfl, rfl, hsame.kind.trans hsame'.kind, hsame.sigIndex.trans hsame'.sigIndex,
    fun ts' hts' => ?_⟩
  obtain ⟨t, ts, rfl, hts⟩ := h ts' hts'
  exact ⟨[.i32, t, t], [t], ts, .select, rfl, hstands _ hts⟩

/-- Validating a `select`. -/
theorem validateSelect_spec {C : Context} {s s' : ValidationStack}
    (h : validateSelect s = .ok s') : PlainStep C .select s s' := by
  obtain ⟨s₁, hs₁, h⟩ := bind_eq_ok.mp h
  have hcond := validateLastNumberType_pop hs₁
  obtain ⟨g, f, fs, -, rfl, -, -⟩ := id hcond
  dsimp only at h
  split at h
  · rename_i hu
    split at h
    · -- both operands are missing
      rename_i hops
      cases h
      refine select_of_stands hcond ⟨rfl, rfl, rfl⟩ fun ts' hts' => ?_
      cases hts' with
      | @cons _ t _ ts _ _ =>
          refine ⟨t, ts, rfl, ?_⟩
          rw [Frame.StandsFor, hops]
          exact .base (Or.inl hu)
    · -- one operand is missing
      rename_i v hops
      cases h
      refine select_of_stands hcond ⟨rfl, rfl, rfl⟩ fun ts' hts' => ?_
      rw [Frame.StandsFor, hops] at hts'
      cases hts' with
      | @cons _ t _ ts hv _ =>
          refine ⟨t, ts, rfl, ?_⟩
          rw [Frame.StandsFor, hops]
          exact .cons hv (.base (Or.inl hu))
    · rename_i arg1 arg0 vs hops
      have hstep : ∀ v, (∀ t, v.numberMatch t = true →
          arg1.numberMatch t = true ∧ arg0.numberMatch t = true) →
          PlainStep C .select s ({ f with operands := v :: vs } :: fs) := by
        intro v hv
        refine select_of_stands hcond ⟨rfl, rfl, rfl⟩ fun ts' hts' => ?_
        cases hts' with
        | @cons _ t _ ts ht hts =>
            refine ⟨t, ts, rfl, ?_⟩
            rw [Frame.StandsFor, hops]
            exact .cons (hv t ht).1 (.cons (hv t ht).2 hts)
      split at h
      · split at h
        · cases h
          rename_i t0 t1 heq
          subst heq
          exact hstep _ fun t ht => ⟨ht, ht⟩
        · exact nomatch h
      · cases h
        exact hstep _ fun t ht => ⟨ht, rfl⟩
      · cases h
        exact hstep _ fun t ht => ⟨rfl, ht⟩
  · split at h
    · rename_i arg1 arg0 vs hops
      split at h
      · rename_i heq
        cases h
        refine select_of_stands hcond ⟨rfl, rfl, rfl⟩ fun ts' hts' => ?_
        cases hts' with
        | @cons _ t _ ts ht hts =>
            refine ⟨t, ts, rfl, ?_⟩
            rw [Frame.StandsFor, hops, heq]
            exact .cons ht (.cons ht hts)
      · exact nomatch h
    · exact nomatch h

/-- Validating an arithmetic instruction takes its operands and leaves its result. -/
theorem validateArithmeticElement_spec {C : Context} {op : ArithOp} {s s' : ValidationStack}
    (h : validateArithmeticElement op s = .ok s') : PlainStep C (.arith op) s s' := by
  obtain ⟨s₁, hs₁, h⟩ := bind_eq_ok.mp h
  obtain ⟨s₂, hs₂, h⟩ := bind_eq_ok.mp h
  cases h
  obtain ⟨hoperands, hresult⟩ := getArithArgs_eq op
  have hlast := validateLastNumberType_pop hs₂
  have hpops : Pops s s₂ op.shape.operands := by
    rw [← hoperands]
    rw [validateArg1] at hs₁
    split at hs₁
    · rename_i type harg
      rw [harg]
      exact (validateLastNumberType_pop hs₁).trans hlast
    · rename_i harg
      cases hs₁
      rw [harg]
      exact hlast
  have hpush := push_spec hpops (getArithArgs op).resultType
  rw [hresult] at hpush ⊢
  exact .of_pops .arith hpops hpush

/-! ### Instructions in the opcode loop -/

/-- A successful step of the validation stack. -/
theorem validate_eq_ok {s s' : FrontendState}
    {f : ValidationStack → Except ErrorCode ValidationStack} :
    s.validate f = .ok s' ↔
      ∃ v, f s.validationStack = .ok v ∧ s' = { s with validationStack := v } := by
  rw [validate, bind_eq_ok]
  constructor
  · rintro ⟨v, hv, h⟩
    exact ⟨v, hv, (Except.ok.inj h).symm⟩
  · rintro ⟨v, hv, rfl⟩
    exact ⟨v, hv, rfl⟩

/-- The kinds and signatures of the block references. -/
def FrontendState.blockKeys (s : FrontendState) : List (BlockReferenceKind × ℕ) :=
  s.blocks.map fun b => (b.kind, b.sigIndex)

/-- Reachability of code generation is apart from the rest of the state. -/
@[simp] theorem setUnreachable_validationStack (s : FrontendState) :
    s.setCurrentFrameFormallyUnreachable.validationStack = s.validationStack := by
  rw [setCurrentFrameFormallyUnreachable]
  split <;> rfl

@[simp] theorem setUnreachable_properlyTerminated (s : FrontendState) :
    s.setCurrentFrameFormallyUnreachable.properlyTerminated = s.properlyTerminated := by
  rw [setCurrentFrameFormallyUnreachable]
  split <;> rfl

@[simp] theorem setUnreachable_blockKeys (s : FrontendState) :
    s.setCurrentFrameFormallyUnreachable.blockKeys = s.blockKeys := by
  rw [setCurrentFrameFormallyUnreachable, FrontendState.blockKeys, FrontendState.blockKeys]
  split
  · rfl
  · rename_i b bs hb
    rw [hb]
    rfl

/-- A step of the opcode loop within a block: the validation stack becomes `v`, and of the
block references only reachability changes. -/
structure StepsTo (s s' : FrontendState) (v : ValidationStack) : Prop where
  validationStack : s'.validationStack = v
  blockKeys : s'.blockKeys = s.blockKeys
  properlyTerminated : s'.properlyTerminated = s.properlyTerminated

/-- Replacing the validation stack. -/
theorem StepsTo.replace (s : FrontendState) (v : ValidationStack) :
    StepsTo s { s with validationStack := v } v :=
  ⟨rfl, rfl, rfl⟩

/-- Replacing the validation stack of a frame that becomes unreachable. -/
theorem StepsTo.replace_unreachable (s : FrontendState) (v : ValidationStack) :
    StepsTo s ({ s with validationStack := v } : FrontendState).setCurrentFrameFormallyUnreachable
      v :=
  ⟨setUnreachable_validationStack _, setUnreachable_blockKeys _,
    setUnreachable_properlyTerminated _⟩

/-- A compiled branch makes the frame unreachable. -/
theorem compileBR_eq {s s' : FrontendState} {l : ℕ} (h : Frontend.compileBR s l = .ok s') :
    s' = s.setCurrentFrameFormallyUnreachable := by
  obtain ⟨_, -, h⟩ := bind_eq_ok.mp h
  exact (Except.ok.inj h).symm

variable {m : ModuleInfo} {fnc : FunctionInfo} {s s' : FrontendState}

/-- A processed branch. -/
theorem processPlain_br {c : Option Bool} {l : ℕ}
    (h : processPlain m fnc c s (.br l) = .ok s') :
    ∃ v, StepsTo s s' v ∧
      PlainStep (stackContext m fnc s.validationStack) (.br l) s.validationStack v := by
  obtain ⟨s₁, hs₁, h⟩ := bind_eq_ok.mp h
  obtain ⟨v, hv, rfl⟩ := validate_eq_ok.mp hs₁
  rw [compileBR_eq h]
  exact ⟨v, .replace_unreachable s v, validateBranch_br hv⟩

/-- A processed conditional branch: a constant condition changes reachability only. -/
theorem processPlain_brIf {c : Option Bool} {l : ℕ}
    (h : processPlain m fnc c s (.brIf l) = .ok s') :
    ∃ v, StepsTo s s' v ∧
      PlainStep (stackContext m fnc s.validationStack) (.brIf l) s.validationStack v := by
  obtain ⟨s₁, hs₁, h⟩ := bind_eq_ok.mp h
  obtain ⟨v, hv, rfl⟩ := validate_eq_ok.mp hs₁
  refine ⟨v, ?_, validateBranch_brIf hv⟩
  split at h
  · cases h
    exact .replace s v
  · split at h
    · rw [compileBR_eq h]
      exact .replace_unreachable s v
    · cases h
      exact .replace s v
    · obtain ⟨_, -, h⟩ := bind_eq_ok.mp h
      cases h
      exact .replace s v

/-- A processed branch table whose labels have the same types. -/
theorem processPlain_brTable {c : Option Bool} {ls : List ℕ} {d : ℕ}
    (h : processPlain m fnc c s (.brTable ls d) = .ok s')
    (hbal : balancedAt (s.validationStack.map (Frame.openBlock m)) (.plain (.brTable ls d)) =
      true) :
    ∃ v, StepsTo s s' v ∧
      PlainStep (stackContext m fnc s.validationStack) (.brTable ls d) s.validationStack v := by
  have hlabels : ∀ l ∈ ls, (stackContext m fnc s.validationStack).labels[l]? =
      (stackContext m fnc s.validationStack).labels[d]? := by
    intro l hl
    simp only [balancedAt, List.all_eq_true, decide_eq_true_eq, List.getElem?_map,
      Option.map_map] at hbal
    simpa [stackContext, Function.comp_def] using hbal l hl
  rw [processPlain, brTable] at h
  split at h
  · cases h
  · split at h
    · rename_i hnil
      simp at hnil
    · rename_i first further htargets
      obtain ⟨s₁, hs₁, h⟩ := bind_eq_ok.mp h
      obtain ⟨v, hv, rfl⟩ := validate_eq_ok.mp hs₁
      obtain ⟨target, -, h⟩ := bind_eq_ok.mp h
      obtain ⟨_, -, h⟩ := bind_eq_ok.mp h
      refine ⟨v, ?_, validateBranch_brTable hv fun l hl => ?_⟩
      · split at h
        · cases h
          exact .replace s v
        · cases h
          exact .replace_unreachable s v
      · have hfirst : first = d ∨ first ∈ ls := by
          have hmem : first ∈ ls ++ [d] := by
            rw [htargets]
            exact List.mem_cons_self
          simpa [or_comm] using hmem
        have hd : ∀ l, l = d ∨ l ∈ ls → (stackContext m fnc s.validationStack).labels[l]? =
            (stackContext m fnc s.validationStack).labels[d]? := by
          rintro l (rfl | hl)
          · rfl
          · exact hlabels l hl
        rw [hd l (List.mem_cons.mp hl), hd first hfirst]

/-- A processed indirect call. -/
theorem processPlain_callIndirect {c : Option Bool} {i j : ℕ}
    (h : processPlain m fnc c s (.callIndirect i j) = .ok s') :
    ∃ v, StepsTo s s' v ∧
      PlainStep (stackContext m fnc s.validationStack) (.callIndirect i j) s.validationStack v := by
  obtain ⟨sigIndex, hsig, h⟩ := bind_eq_ok.mp h
  obtain ⟨s₁, hs₁, h⟩ := bind_eq_ok.mp h
  obtain ⟨v₁, hv₁, rfl⟩ := validate_eq_ok.mp hs₁
  obtain ⟨s₂, hs₂, h⟩ := bind_eq_ok.mp h
  obtain ⟨v, hv, rfl⟩ := validate_eq_ok.mp hs₂
  split at h
  · exact nomatch h
  · rename_i htable
    cases h
    obtain ⟨v₂, hpops, hpushes⟩ := validateCall_spec hv
    obtain ⟨ht, rfl⟩ : m.hasTable = true ∧ j = 0 := by simpa using htable
    refine ⟨v, .replace s v, .of_pops (.callIndirect ht ?_)
      ((validateLastNumberType_pop hv₁).trans hpops) hpushes⟩
    exact ModuleInfo.reduceTypeIndex_eq hsig fnc

/-- Popping three numbers of one type, as the bulk memory instructions do. -/
theorem pops_three {t : WasmType} {v v₁ v₂ v₃ : ValidationStack}
    (h₁ : validateLastNumberType t true v = .ok v₁)
    (h₂ : validateLastNumberType t true v₁ = .ok v₂)
    (h₃ : validateLastNumberType t true v₂ = .ok v₃) : Pops v v₃ [t, t, t] :=
  ((validateLastNumberType_pop h₁).trans (validateLastNumberType_pop h₂)).trans
    (validateLastNumberType_pop h₃)

/-- A nonempty stack has a top frame. -/
theorem Pops.of_ne_nil {v : ValidationStack} (h : v ≠ []) : Pops v v [] := by
  obtain ⟨f, fs, rfl⟩ := List.exists_cons_of_ne_nil h
  exact .refl

/-- A checked alignment is at most the width of the access. -/
theorem access_le {maxAlignment alignment : ℕ} (h : ¬ maxAlignment < alignment) :
    2 ^ alignment * 8 ≤ 2 ^ maxAlignment * 8 :=
  Nat.mul_le_mul_right 8 (Nat.pow_le_pow_right (by omega) (by omega))

/-- **An accepted instruction has a type** between the stacks before and after it. -/
theorem processPlain_spec {c : Option Bool} {p : Plain}
    (h : processPlain m fnc c s p = .ok s')
    (hbal : balancedAt (s.validationStack.map (Frame.openBlock m)) (.plain p) = true)
    (hne : s.validationStack ≠ [])
    (hfunc : ∀ g, s.validationStack.getLast? = some g → g.sigIndex = fnc.sigIndex) :
    ∃ v, StepsTo s s' v ∧
      PlainStep (stackContext m fnc s.validationStack) p s.validationStack v := by
  cases p with
  | unreachable =>
      obtain ⟨s₁, hs₁, h⟩ := bind_eq_ok.mp h
      obtain ⟨v, hv, rfl⟩ := validate_eq_ok.mp hs₁
      cases hv
      cases h
      exact ⟨_, .replace_unreachable s _,
        .of_pops_mark (fun _ _ => .unreachable) (Pops.of_ne_nil hne)⟩
  | nop =>
      cases h
      exact ⟨_, .replace s _, .of_pops_only .nop (Pops.of_ne_nil hne)⟩
  | br l => exact processPlain_br h
  | brIf l => exact processPlain_brIf h
  | brTable ls d => exact processPlain_brTable h hbal
  | return_ =>
      obtain ⟨s₁, hs₁, h⟩ := bind_eq_ok.mp h
      obtain ⟨v, hv, rfl⟩ := validate_eq_ok.mp hs₁
      cases h
      exact ⟨v, .replace_unreachable s v, validateReturn_spec hv hfunc⟩
  | call i =>
      rw [processPlain] at h
      split at h
      · cases h
      · rename_i sigIndex hi
        obtain ⟨v, hv, rfl⟩ := validate_eq_ok.mp h
        obtain ⟨v₁, hpops, hpushes⟩ := validateCall_spec hv
        have hi' : (m.context fnc).funcs[i]? = some (m.signature sigIndex) := by
          simp [ModuleInfo.context, hi]
        exact ⟨v, .replace s v, .of_pops (.call hi') hpops hpushes⟩
  | callIndirect i j => exact processPlain_callIndirect h
  | drop =>
      obtain ⟨v, hv, rfl⟩ := validate_eq_ok.mp h
      exact ⟨v, .replace s v, drop_spec hv⟩
  | select =>
      obtain ⟨v, hv, rfl⟩ := validate_eq_ok.mp h
      exact ⟨v, .replace s v, validateSelect_spec hv⟩
  | localGet i =>
      rw [processPlain] at h
      split at h
      · cases h
      · rename_i t ht
        obtain ⟨v, hv, rfl⟩ := validate_eq_ok.mp h
        cases hv
        exact ⟨_, .replace s _, .of_pops (.localGet ht) (Pops.of_ne_nil hne)
          (push_spec (Pops.of_ne_nil hne) t)⟩
  | localSet i =>
      rw [processPlain] at h
      split at h
      · cases h
      · rename_i t ht
        obtain ⟨v, hv, rfl⟩ := validate_eq_ok.mp h
        exact ⟨v, .replace s v, .of_pops_only (.localSet ht) (validateLastNumberType_pop hv)⟩
  | localTee i =>
      rw [processPlain] at h
      split at h
      · cases h
      · rename_i t ht
        obtain ⟨v, hv, rfl⟩ := validate_eq_ok.mp h
        obtain ⟨v₁, hpops, hpushes⟩ := validateLastNumberType_keep hv
        exact ⟨v, .replace s v, .of_pops (.localTee ht) hpops hpushes⟩
  | globalGet i =>
      rw [processPlain] at h
      split at h
      · cases h
      · rename_i g hg
        obtain ⟨v, hv, rfl⟩ := validate_eq_ok.mp h
        cases hv
        exact ⟨_, .replace s _, .of_pops (.globalGet hg) (Pops.of_ne_nil hne)
          (push_spec (Pops.of_ne_nil hne) g.type)⟩
  | globalSet i =>
      rw [processPlain] at h
      split at h
      · cases h
      · rename_i g hg
        obtain ⟨s₁, hs₁, h⟩ := bind_eq_ok.mp h
        obtain ⟨v, hv, rfl⟩ := validate_eq_ok.mp hs₁
        split at h
        · cases h
        · rename_i hm
          cases h
          exact ⟨v, .replace s v,
            .of_pops_only (.globalSet hg (by simpa using hm)) (validateLastNumberType_pop hv)⟩
  | load op alignment =>
      rw [processPlain] at h
      split at h
      · cases h
      · rename_i hm
        have hm' : m.hasMemory = true := by simpa using hm
        obtain ⟨s₁, hs₁, h⟩ := bind_eq_ok.mp h
        obtain ⟨v₁, hv₁, rfl⟩ := validate_eq_ok.mp hs₁
        obtain ⟨s₂, hs₂, h⟩ := bind_eq_ok.mp h
        obtain ⟨v, hv, rfl⟩ := validate_eq_ok.mp hs₂
        cases hv
        split at h
        · cases h
        · rename_i ha
          cases h
          obtain ⟨htype, hbits⟩ := op.shape_eq
          have hpops := validateLastNumberType_pop hv₁
          have hpushes := push_spec hpops op.getLoadResultType
          have ha' : 2 ^ alignment * 8 ≤ op.shape.2 := by
            rw [hbits]
            exact access_le ha
          refine ⟨_, .replace s _, .of_pops (.load hm' ha') hpops ?_⟩
          rwa [htype]
  | store op alignment =>
      rw [processPlain] at h
      split at h
      · cases h
      · rename_i hm
        have hm' : m.hasMemory = true := by simpa using hm
        obtain ⟨s₁, hs₁, h⟩ := bind_eq_ok.mp h
        obtain ⟨v₁, hv₁, rfl⟩ := validate_eq_ok.mp hs₁
        obtain ⟨s₂, hs₂, h⟩ := bind_eq_ok.mp h
        obtain ⟨v, hv, rfl⟩ := validate_eq_ok.mp hs₂
        split at h
        · cases h
        · rename_i ha
          cases h
          obtain ⟨htype, hbits⟩ := op.shape_eq
          have hpops := (validateLastNumberType_pop hv₁).trans (validateLastNumberType_pop hv)
          have ha' : 2 ^ alignment * 8 ≤ op.shape.2 := by
            rw [hbits]
            exact access_le ha
          refine ⟨v, .replace s v, .of_pops_only (.store hm' ha') ?_⟩
          rwa [htype]
  | memorySize =>
      rw [processPlain] at h
      split at h
      · cases h
      · rename_i hm
        have hm' : m.hasMemory = true := by simpa using hm
        obtain ⟨v, hv, rfl⟩ := validate_eq_ok.mp h
        cases hv
        exact ⟨_, .replace s _, .of_pops (.memorySize hm') (Pops.of_ne_nil hne)
          (push_spec (Pops.of_ne_nil hne) .i32)⟩
  | memoryGrow =>
      rw [processPlain] at h
      split at h
      · cases h
      · rename_i hm
        have hm' : m.hasMemory = true := by simpa using hm
        obtain ⟨s₁, hs₁, h⟩ := bind_eq_ok.mp h
        obtain ⟨v₁, hv₁, rfl⟩ := validate_eq_ok.mp hs₁
        obtain ⟨v, hv, rfl⟩ := validate_eq_ok.mp h
        cases hv
        have hpops := validateLastNumberType_pop hv₁
        exact ⟨_, .replace s _, .of_pops (.memoryGrow hm') hpops
          (push_spec hpops .i32)⟩
  | memoryCopy | memoryFill =>
      rw [processPlain] at h
      split at h
      · cases h
      · rename_i hm
        have hm' : m.hasMemory = true := by simpa using hm
        obtain ⟨s₁, hs₁, h⟩ := bind_eq_ok.mp h
        obtain ⟨v₁, hv₁, rfl⟩ := validate_eq_ok.mp hs₁
        obtain ⟨s₂, hs₂, h⟩ := bind_eq_ok.mp h
        obtain ⟨v₂, hv₂, rfl⟩ := validate_eq_ok.mp hs₂
        obtain ⟨v, hv, rfl⟩ := validate_eq_ok.mp h
        have hpops := pops_three hv₁ hv₂ hv
        first
        | exact ⟨v, .replace s v, .of_pops_only (.memoryCopy hm') hpops⟩
        | exact ⟨v, .replace s v, .of_pops_only (.memoryFill hm') hpops⟩
  | const t =>
      rw [processPlain] at h
      obtain ⟨v, hv, rfl⟩ := validate_eq_ok.mp h
      cases hv
      exact ⟨_, .replace s _, .of_pops .const (Pops.of_ne_nil hne)
        (push_spec (Pops.of_ne_nil hne) t)⟩
  | arith op =>
      obtain ⟨v, hv, rfl⟩ := validate_eq_ok.mp h
      exact ⟨v, .replace s v, validateArithmeticElement_spec hv⟩

end WasmCompiler
