import Mathlib.Data.List.Forall2
import WasmCompiler.ValidationSoundness

/-!
# The Validation Stack and the Control Stack of a Derivation

A typing derivation gives every open block a structural element and an operand stack of
definite types. Such a control stack is a list of levels, and a validation stack holds it
(`Holds`) when every frame is the level's structural element and stands for the level's
types. In reachable code the frame's number elements are exactly these types; in
unreachable code some of them may be missing or `any`, which is why an operation never has
to guess a type that the derivation would contradict.

Every operation of the validation stack succeeds on the levels the typing rules give it
and leaves the levels they say. `Returns` is the rule format: a computation that returns a
result with a property.

## Main results

* `validateTypes_returns`: visiting the topmost types of a level.
* `validateElse_returns`, `validateEnd_returns`: the ends of a branch and of a block.
* `validateSelect_returns`: a `select`, with missing or `any` operands included.
-/

namespace WasmCompiler

open ValidationStack FrontendState Frontend

/-! ### Computations that succeed -/

/-- A computation returns a result with the property `Q`. -/
def Returns {α : Type} (x : Except ErrorCode α) (Q : α → Prop) : Prop :=
  ∃ a, x = .ok a ∧ Q a

/-- A result at hand. -/
theorem Returns.ok {α : Type} {a : α} {Q : α → Prop} (h : Q a) : Returns (.ok a) Q :=
  ⟨a, rfl, h⟩

/-- Computations in sequence. -/
theorem Returns.bind {α β : Type} {x : Except ErrorCode α} {f : α → Except ErrorCode β}
    {P : α → Prop} {Q : β → Prop} (hx : Returns x P) (hf : ∀ a, P a → Returns (f a) Q) :
    Returns (x >>= f) Q := by
  obtain ⟨a, ha, hP⟩ := hx
  obtain ⟨b, hb, hQ⟩ := hf a hP
  exact ⟨b, bind_eq_ok.mpr ⟨a, ha, hb⟩, hQ⟩

/-! ### Number elements of definite types -/

/-- Number elements that stand for operands of the types `ts`; in reachable code they are
exactly these. -/
structure Covers (u : Bool) (vs : List ValidateType) (ts : List WasmType) : Prop where
  stands : StandsFor u vs ts
  reachable : u = false → vs = ts.map .number

/-- Elements of the types themselves. -/
theorem Covers.numbers {u : Bool} {vs : List ValidateType} {ts : List WasmType}
    (h : Covers u vs ts) (types : List WasmType) :
    Covers u (types.map .number ++ vs) (types ++ ts) where
  stands := by
    induction types with
    | nil => exact h.stands
    | cons t types ih => exact .cons (by simp [ValidateType.numberMatch]) ih
  reachable := by
    intro hu
    rw [h.reachable hu, List.map_append]

/-- A new group of elements of the types themselves. -/
theorem Covers.ofTypes (u : Bool) (types : List WasmType) :
    Covers u (types.map .number) types := by
  have h : Covers u [] [] := ⟨.base (Or.inr rfl), fun _ => rfl⟩
  simpa using h.numbers types

/-- No elements in unreachable code stand for anything. -/
theorem Covers.unreachable (ts : List WasmType) : Covers true [] ts :=
  ⟨.base (Or.inl rfl), fun h => nomatch h⟩

/-- No element stands for the empty operand stack but none. -/
theorem Covers.eq_nil {u : Bool} {vs : List ValidateType} (h : Covers u vs []) : vs = [] := by
  obtain ⟨hstands, -⟩ := h
  cases hstands with
  | base _ => rfl

/-- Without elements, an operand can only be made up. -/
theorem Covers.of_nil {u : Bool} {t : WasmType} {ts : List WasmType}
    (h : Covers u [] (t :: ts)) : u = true := by
  obtain ⟨hstands, -⟩ := h
  cases hstands with
  | base h => exact h.resolve_right (List.cons_ne_nil t ts)

/-- The topmost element matches the topmost type. -/
theorem Covers.of_cons {u : Bool} {v : ValidateType} {vs : List ValidateType} {t : WasmType}
    {ts : List WasmType} (h : Covers u (v :: vs) (t :: ts)) :
    v.numberMatch t = true ∧ Covers u vs ts := by
  obtain ⟨hstands, hreachable⟩ := h
  cases hstands with
  | cons hv h => exact ⟨hv, h, fun hu => (List.cons.inj (hreachable hu)).2⟩

/-- Visiting the topmost types. -/
theorem visit_returns {u : Bool} {types ts : List WasmType} {vs : List ValidateType}
    (h : Covers u vs (types ++ ts)) :
    Returns (visit u types vs) fun r => r.1 = types.map .number ∧ Covers u r.2 ts := by
  induction types generalizing vs with
  | nil => exact .ok ⟨rfl, h⟩
  | cons type types ih =>
      rw [List.cons_append] at h
      cases vs with
      | nil =>
          have hu := h.of_nil
          subst hu
          rw [visit, if_pos rfl]
          refine (ih (.unreachable _)).bind fun r hr => .ok ⟨?_, hr.2⟩
          rw [hr.1]
          rfl
      | cons v vs =>
          obtain ⟨hv, hrest⟩ := h.of_cons
          rw [visit, if_pos hv]
          refine (ih hrest).bind fun r hr => .ok ⟨?_, hr.2⟩
          rw [hr.1]
          rfl

/-! ### Levels -/

/-- A level of a control stack: a structural element and the operand types above it,
topmost first. -/
structure Level where
  kind : FrameKind
  sigIndex : ℕ
  types : List WasmType

/-- The reachable frame of a level. -/
def Level.frame (l : Level) : Frame :=
  ⟨l.kind, l.sigIndex, false, l.types.map .number⟩

/-- A frame holds a level. -/
structure Level.HeldBy (l : Level) (f : Frame) : Prop where
  kind : f.kind = l.kind
  sigIndex : f.sigIndex = l.sigIndex
  covers : Covers f.formallyUnreachable f.operands l.types

/-- A validation stack holds a control stack. -/
abbrev Holds (ls : List Level) (s : ValidationStack) : Prop :=
  List.Forall₂ Level.HeldBy ls s

/-- A level is held by its own frame. -/
theorem Level.heldBy_frame (l : Level) : l.HeldBy l.frame :=
  ⟨rfl, rfl, .ofTypes false l.types⟩

/-- A frame holds a level with other types in the same structural element. -/
theorem Level.HeldBy.replace {kind : FrameKind} {sigIndex : ℕ} {ts ts' : List WasmType}
    {f : Frame} (h : Level.HeldBy ⟨kind, sigIndex, ts⟩ f) {vs : List ValidateType}
    (hvs : Covers f.formallyUnreachable vs ts') :
    Level.HeldBy ⟨kind, sigIndex, ts'⟩ { f with operands := vs } :=
  ⟨h.kind, h.sigIndex, hvs⟩

variable {kind : FrameKind} {sigIndex : ℕ} {ls : List Level} {s : ValidationStack}
  {t : WasmType} {ts : List WasmType}

/-- The innermost frame holds the innermost level. -/
theorem Holds.exists_cons {l : Level} (h : Holds (l :: ls) s) :
    ∃ f fs, s = f :: fs ∧ l.HeldBy f ∧ Holds ls fs := by
  cases h with
  | cons hf hfs => exact ⟨_, _, rfl, hf, hfs⟩

/-- The frame of a level. -/
theorem Holds.getElem? {n : ℕ} {l : Level} (h : Holds ls s) (hl : ls[n]? = some l) :
    ∃ f, s[n]? = some f ∧ l.HeldBy f := by
  induction h generalizing n with
  | nil => exact nomatch hl
  | cons hf _ ih =>
      cases n with
      | zero =>
          cases hl
          exact ⟨_, rfl, hf⟩
      | succ n => exact ih hl

/-- The frame of the outermost level. -/
theorem Holds.getLast? {l : Level} (h : Holds ls s) (hl : ls.getLast? = some l) :
    ∃ f, s.getLast? = some f ∧ l.HeldBy f := by
  rw [List.getLast?_eq_getElem?] at hl ⊢
  rw [← h.length_eq]
  exact h.getElem? hl

/-! ### Operations on one level -/

/-- Pushing a number element. -/
theorem Holds.push (h : Holds (⟨kind, sigIndex, ts⟩ :: ls) s) (t : WasmType) :
    Holds (⟨kind, sigIndex, t :: ts⟩ :: ls) (push (.number t) s) := by
  obtain ⟨f, fs, rfl, hf, hfs⟩ := h.exists_cons
  exact .cons (hf.replace (hf.covers.numbers [t])) hfs

/-- Putting visited elements back. -/
theorem Holds.restore (h : Holds (⟨kind, sigIndex, ts⟩ :: ls) s) (types : List WasmType) :
    Holds (⟨kind, sigIndex, types ++ ts⟩ :: ls) (restore (types.map .number) s) := by
  obtain ⟨f, fs, rfl, hf, hfs⟩ := h.exists_cons
  exact .cons (hf.replace (hf.covers.numbers _)) hfs

/-- Pushing number elements one by one. -/
theorem Holds.pushAll (h : Holds (⟨kind, sigIndex, ts⟩ :: ls) s) (types : List WasmType) :
    Holds (⟨kind, sigIndex, types.reverse ++ ts⟩ :: ls)
      (ValidationStack.pushAll types s) := by
  have hrestore := h.restore types.reverse
  obtain ⟨f, fs, rfl, -, -⟩ := h.exists_cons
  rwa [pushAll_cons]

/-- An unreachable block holds whatever the typing rules choose. -/
theorem Holds.mark (h : Holds (⟨kind, sigIndex, ts⟩ :: ls) s) (ts' : List WasmType) :
    Holds (⟨kind, sigIndex, ts'⟩ :: ls) (markCurrentBlockUnreachable s) := by
  obtain ⟨f, fs, rfl, hf, hfs⟩ := h.exists_cons
  exact .cons ⟨hf.kind, hf.sigIndex, .unreachable ts'⟩ hfs

/-- Popping a number element. -/
theorem validateLastNumberType_returns (h : Holds (⟨kind, sigIndex, t :: ts⟩ :: ls) s) :
    Returns (validateLastNumberType t true s) (Holds (⟨kind, sigIndex, ts⟩ :: ls)) := by
  obtain ⟨⟨k, sg, u, vs⟩, fs, rfl, hf, hfs⟩ := h.exists_cons
  have hcovers := hf.covers
  rw [validateLastNumberType]
  cases vs with
  | nil =>
      have hu : u = true := hcovers.of_nil
      subst hu
      exact .ok (.cons (hf.replace (.unreachable ts)) hfs)
  | cons v vs =>
      obtain ⟨hv, hrest⟩ := hcovers.of_cons
      dsimp only
      rw [if_pos hv]
      exact .ok (.cons (hf.replace hrest) hfs)

/-- Validating a number element that stays. -/
theorem validateLastNumberType_returns_keep
    (h : Holds (⟨kind, sigIndex, t :: ts⟩ :: ls) s) :
    Returns (validateLastNumberType t false s)
      (Holds (⟨kind, sigIndex, t :: ts⟩ :: ls)) := by
  obtain ⟨⟨k, sg, u, vs⟩, fs, rfl, hf, hfs⟩ := h.exists_cons
  have hcovers := hf.covers
  rw [validateLastNumberType]
  cases vs with
  | nil =>
      have hu : u = true := hcovers.of_nil
      subst hu
      have hrest := hf.replace (.unreachable ts)
      exact .ok (Holds.push (.cons hrest hfs) t)
  | cons v vs =>
      obtain ⟨hv, hrest⟩ := hcovers.of_cons
      dsimp only
      rw [if_pos hv]
      exact .ok (.cons (hf.replace (hrest.numbers [t])) hfs)

/-- Visiting the topmost types of a level. -/
theorem validateTypes_returns {types : List WasmType}
    (h : Holds (⟨kind, sigIndex, types.reverse ++ ts⟩ :: ls) s) :
    Returns (validateTypes types s) fun r => r.1 = types.reverse.map .number ∧
      Holds (⟨kind, sigIndex, ts⟩ :: ls) r.2 := by
  obtain ⟨f, fs, rfl, hf, hfs⟩ := h.exists_cons
  refine (visit_returns hf.covers).bind fun r hr => .ok ⟨hr.1, ?_⟩
  exact .cons (hf.replace hr.2) hfs

/-- Popping results one by one. -/
theorem popResults_returns {types : List WasmType}
    (h : Holds (⟨kind, sigIndex, types ++ ts⟩ :: ls) s) :
    Returns (popResults types s) (Holds (⟨kind, sigIndex, ts⟩ :: ls)) := by
  induction types generalizing s with
  | nil => exact .ok h
  | cons type types ih => exact (validateLastNumberType_returns h).bind fun _ hs => ih hs

/-- A `drop`. -/
theorem drop_returns (h : Holds (⟨kind, sigIndex, t :: ts⟩ :: ls) s) :
    Returns (ValidationStack.drop s) (Holds (⟨kind, sigIndex, ts⟩ :: ls)) := by
  obtain ⟨⟨k, sg, u, vs⟩, fs, rfl, hf, hfs⟩ := h.exists_cons
  have hcovers := hf.covers
  rw [ValidationStack.drop]
  cases vs with
  | nil =>
      have hu : u = true := hcovers.of_nil
      subst hu
      exact .ok (.cons (hf.replace (.unreachable ts)) hfs)
  | cons v vs => exact .ok (.cons (hf.replace hcovers.of_cons.2) hfs)

/-- A `select`: of two operands one of which is `any`, the other one stays. -/
theorem validateSelect_returns
    (h : Holds (⟨kind, sigIndex, .i32 :: t :: t :: ts⟩ :: ls) s) :
    Returns (validateSelect s) (Holds (⟨kind, sigIndex, t :: ts⟩ :: ls)) := by
  refine (validateLastNumberType_returns h).bind fun s₁ hs₁ => ?_
  obtain ⟨⟨k, sg, u, vs⟩, fs, rfl, hf, hfs⟩ := hs₁.exists_cons
  have hcovers := hf.covers
  cases u with
  | false =>
      obtain rfl : vs = .number t :: .number t :: ts.map .number := hcovers.reachable rfl
      dsimp only
      rw [if_neg Bool.false_ne_true, if_pos rfl]
      exact .ok (.cons (hf.replace hcovers.of_cons.2) hfs)
  | true =>
      rcases vs with _ | ⟨arg1, _ | ⟨arg0, vs⟩⟩
      · have hany : Covers true [.any] (t :: ts) :=
          ⟨.cons rfl (.base (Or.inl rfl)), fun hu => nomatch hu⟩
        exact .ok (.cons (hf.replace hany) hfs)
      · have hone : Covers true [arg1] (t :: ts) :=
          ⟨.cons hcovers.of_cons.1 (.base (Or.inl rfl)), fun hu => nomatch hu⟩
        exact .ok (.cons (hf.replace hone) hfs)
      · obtain ⟨harg1, hrest⟩ := hcovers.of_cons
        obtain ⟨harg0, hbelow⟩ := hrest.of_cons
        have hfirst : Covers true (arg1 :: vs) (t :: ts) :=
          ⟨.cons harg1 hbelow.stands, fun hu => nomatch hu⟩
        cases arg0 with
        | any => exact .ok (.cons (hf.replace hfirst) hfs)
        | number t₀ =>
            cases arg1 with
            | any => exact .ok (.cons (hf.replace hrest) hfs)
            | number t₁ =>
                have h₀ : t₀ = t := by simpa [ValidateType.numberMatch] using harg0
                have h₁ : t₁ = t := by simpa [ValidateType.numberMatch] using harg1
                dsimp only
                rw [if_pos rfl, if_pos (h₀.trans h₁.symm)]
                exact .ok (.cons (hf.replace hrest) hfs)

/-- An arithmetic instruction. -/
theorem validateArithmeticElement_returns {op : ArithOp}
    (h : Holds (⟨kind, sigIndex, op.shape.operands ++ ts⟩ :: ls) s) :
    Returns (validateArithmeticElement op s)
      (Holds (⟨kind, sigIndex, op.shape.result :: ts⟩ :: ls)) := by
  obtain ⟨hoperands, hresult⟩ := getArithArgs_eq op
  rw [← hoperands, List.append_assoc] at h
  rw [← hresult]
  have harg1 : Returns (validateArg1 (getArithArgs op) s)
      (Holds (⟨kind, sigIndex, (getArithArgs op).arg0Type :: ts⟩ :: ls)) := by
    rw [validateArg1]
    cases harg : (getArithArgs op).arg1Type with
    | none =>
        rw [harg] at h
        exact .ok h
    | some type =>
        rw [harg] at h
        exact validateLastNumberType_returns h
  refine harg1.bind fun s₁ hs₁ => ?_
  refine (validateLastNumberType_returns hs₁).bind fun s₂ hs₂ => ?_
  exact .ok (hs₂.push _)

variable {m : ModuleInfo}

/-- A call. -/
theorem validateCall_returns {callee : ℕ}
    (h : Holds (⟨kind, sigIndex, (m.signature callee).params.reverse ++ ts⟩ :: ls) s) :
    Returns (validateCall m callee s)
      (Holds (⟨kind, sigIndex, (m.signature callee).results.reverse ++ ts⟩ :: ls)) :=
  (validateTypes_returns h).bind fun _ hr => .ok (hr.2.pushAll _)

/-- A `return` from the function the outermost level belongs to. -/
theorem validateReturn_returns {func : Level} {callee : ℕ} (hs : func.sigIndex = callee)
    (hfunc : (⟨kind, sigIndex, (m.signature callee).results.reverse ++ ts⟩ :: ls).getLast? =
      some func)
    (h : Holds (⟨kind, sigIndex, (m.signature callee).results.reverse ++ ts⟩ :: ls) s)
    (ts' : List WasmType) :
    Returns (validateReturn m s) (Holds (⟨kind, sigIndex, ts'⟩ :: ls)) := by
  obtain ⟨f, hf, hheld⟩ := Holds.getLast? h hfunc
  rw [validateReturn, hf]
  dsimp only
  rw [hheld.sigIndex, hs]
  exact (validateTypes_returns h).bind fun _ hr => .ok (hr.2.mark ts')

/-! ### Branches -/

/-- The frame a branch depth refers to. -/
theorem findTargetBlock_returns {branchDepth : ℕ} {l : Level} (h : Holds ls s)
    (hl : ls[branchDepth]? = some l) :
    Returns (ValidationStack.findTargetBlock s branchDepth) l.HeldBy := by
  obtain ⟨f, hf, hheld⟩ := h.getElem? hl
  rw [ValidationStack.findTargetBlock, hf]
  exact .ok hheld

/-- The types a branch to a level delivers. -/
theorem validateTarget_returns {target : Level} {f : Frame} (hf : target.HeldBy f)
    (h : Holds (⟨kind, sigIndex, (target.frame.label m).reverse ++ ts⟩ :: ls) s) :
    Returns (validateTarget m f s) fun r =>
      r.1 = (target.frame.label m).reverse.map .number ∧
        Holds (⟨kind, sigIndex, ts⟩ :: ls) r.2 := by
  have hlabel : f.label m = target.frame.label m := Frame.label_eq hf.kind hf.sigIndex
  rw [← hlabel] at h ⊢
  rw [validateTarget]
  split
  · rename_i hk
    simp only [Frame.label, hk] at h ⊢
    exact validateTypes_returns h
  · rename_i hk
    rw [Frame.label_of_ne_loop hk] at h ⊢
    exact validateTypes_returns h

/-- A branch, with the condition or index it takes. -/
theorem validateBranch_returns {branchOpcode : BranchOpcode} {branchDepth : ℕ}
    {target : Level} (ts' : List WasmType)
    (h : Returns (validateBranchOperand branchOpcode s)
      (Holds (⟨kind, sigIndex, (target.frame.label m).reverse ++ ts⟩ :: ls)))
    (htarget : (⟨kind, sigIndex, (target.frame.label m).reverse ++ ts⟩ :: ls)[branchDepth]? =
      some target)
    (hbranch : branchOpcode = .brIf → ts' = (target.frame.label m).reverse ++ ts) :
    Returns (validateBranch m branchOpcode branchDepth s)
      (Holds (⟨kind, sigIndex, ts'⟩ :: ls)) := by
  refine h.bind fun s₁ hs₁ => ?_
  refine (findTargetBlock_returns hs₁ htarget).bind fun f hf => ?_
  refine (validateTarget_returns hf hs₁).bind fun ⟨visited, below⟩ ⟨hvisited, hbelow⟩ => ?_
  dsimp only at hvisited hbelow ⊢
  by_cases hop : branchOpcode = .brIf
  · rw [if_pos hop, hbranch hop, hvisited]
    exact .ok (hbelow.restore _)
  · rw [if_neg hop]
    exact .ok (hbelow.mark ts')

/-! ### Blocks -/

/-- The beginning of a `block`. -/
theorem validateAndPrepareBlock_returns {block : ℕ}
    (h : Holds (⟨kind, sigIndex, (m.signature block).params.reverse ++ ts⟩ :: ls) s) :
    Returns (validateAndPrepareBlock m block s)
      (Holds (⟨.block, block, (m.signature block).params.reverse⟩ ::
        ⟨kind, sigIndex, ts⟩ :: ls)) := by
  refine (validateTypes_returns h).bind fun r hr => .ok (.cons ?_ hr.2)
  rw [hr.1]
  exact Level.heldBy_frame _

/-- The beginning of a `loop`. -/
theorem validateAndPrepareLoop_returns {loop : ℕ}
    (h : Holds (⟨kind, sigIndex, (m.signature loop).params.reverse ++ ts⟩ :: ls) s) :
    Returns (validateAndPrepareLoop m loop s)
      (Holds (⟨.loop, loop, (m.signature loop).params.reverse⟩ ::
        ⟨kind, sigIndex, ts⟩ :: ls)) := by
  refine (validateTypes_returns h).bind fun r hr => .ok (.cons ?_ hr.2)
  rw [hr.1]
  exact Level.heldBy_frame _

/-- The level of an `if` before its `else`. -/
def Level.ifBlock (m : ModuleInfo) (block : ℕ) (types : List WasmType) : Level :=
  ⟨.if_ (some ((m.signature block).params.reverse.map .number)), block, types⟩

/-- The beginning of an `if`. -/
theorem validateAndPrepareIfBlock_returns {block : ℕ}
    (h : Holds (⟨kind, sigIndex, .i32 :: ((m.signature block).params.reverse ++ ts)⟩ :: ls) s) :
    Returns (validateAndPrepareIfBlock m block s)
      (Holds (.ifBlock m block (m.signature block).params.reverse ::
        ⟨kind, sigIndex, ts⟩ :: ls)) := by
  refine (validateLastNumberType_returns h).bind fun s₁ hs₁ => ?_
  refine (validateTypes_returns hs₁).bind fun r hr => .ok (.cons ?_ hr.2)
  rw [hr.1]
  exact Level.heldBy_frame _

/-- The `else` of an `if` whose first branch leaves its results. -/
theorem validateElse_returns {block : ℕ}
    (h : Holds (.ifBlock m block (m.signature block).results.reverse :: ls) s) :
    Returns (validateElse m s)
      (Holds (⟨.if_ none, block, (m.signature block).params.reverse⟩ :: ls)) := by
  obtain ⟨⟨k, sg, u, vs⟩, fs, rfl, hf, hfs⟩ := h.exists_cons
  obtain rfl : k = .if_ (some ((m.signature block).params.reverse.map .number)) := hf.kind
  obtain rfl : sg = block := hf.sigIndex
  rw [← List.append_nil (m.signature sg).results.reverse] at h
  refine (popResults_returns h).bind fun s₁ hs₁ => ?_
  obtain ⟨g, gs, rfl, hg, hgs⟩ := hs₁.exists_cons
  have hempty : g.operands = [] := hg.covers.eq_nil
  dsimp only
  rw [if_pos hempty]
  exact .ok (.cons ⟨rfl, hg.sigIndex, .ofTypes false _⟩ hgs)

/-- The end of a block whose instructions leave its results. -/
theorem validateEnd_returns {blockKind : FrameKind} {block : ℕ} (hk : blockKind ≠ .func)
    (h : Holds (⟨blockKind, block, (m.signature block).results.reverse⟩ ::
      ⟨kind, sigIndex, ts⟩ :: ls) s) :
    Returns (validateEnd m s)
      (Holds (⟨kind, sigIndex, (m.signature block).results.reverse ++ ts⟩ :: ls)) := by
  obtain ⟨f, fs, rfl, hf, hfs⟩ := h.exists_cons
  rw [← List.append_nil (m.signature block).results.reverse] at h
  rw [validateEnd, validateResults, hf.sigIndex]
  refine (validateTypes_returns h).bind fun r hr => ?_
  obtain ⟨g, gs, hr₂, hg, hgs⟩ := hr.2.exists_cons
  have hempty : g.operands = [] := hg.covers.eq_nil
  have hkind : g.kind ≠ .func := by rwa [hg.kind]
  dsimp only
  rw [hr₂, hr.1]
  dsimp only
  rw [if_neg (not_not_intro hempty)]
  split
  · exact absurd ‹_› hkind
  · exact .ok (hgs.restore _)

/-- The end of a function whose instructions leave its results. -/
theorem validateEnd_returns_func
    (h : Holds [⟨.func, sigIndex, (m.signature sigIndex).results.reverse⟩] s) :
    Returns (validateEnd m s) (· = []) := by
  obtain ⟨f, fs, rfl, hf, hfs⟩ := h.exists_cons
  rw [← List.append_nil (m.signature sigIndex).results.reverse] at h
  rw [validateEnd, validateResults, hf.sigIndex]
  refine (validateTypes_returns h).bind fun r hr => ?_
  obtain ⟨g, gs, hr₂, hg, hgs⟩ := hr.2.exists_cons
  have hempty : g.operands = [] := hg.covers.eq_nil
  cases hgs
  dsimp only
  rw [hr₂]
  dsimp only
  rw [if_neg (not_not_intro hempty), hg.kind]
  exact .ok rfl

end WasmCompiler
