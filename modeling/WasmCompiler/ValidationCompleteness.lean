import WasmCompiler.ValidationLevels

/-!
# Completeness of Validation

The opcode loop accepts every function body that the typing rules accept, as long as its
branch tables are no longer than the implementation allows, whatever conditions of it are
constants for the code generator. So no operation of the validation stack raises an error
in a well-typed body, code after `unreachable`, `br`, `br_table` and `return` included.

The loop follows the typing derivation: its state is kept at the control stack of the
derivation (`Ready`), an instruction takes it from the level before it to the level after it
(`processPlain_returns`), and a sequence of instructions from the first level to the last
one (`Typed.runs`), by induction on the derivation.

## Main results

* `processPlain_returns`: a typed instruction is processed.
* `Typed.runs`: a typed sequence of instructions is processed.
* `accepts_of_wellTyped`: a well-typed body is accepted.
-/

namespace WasmCompiler

open ValidationStack FrontendState Frontend

variable {m : ModuleInfo} {fnc : FunctionInfo}

/-! ### The state at a control stack -/

/-- The levels of a function body: blocks within the function. -/
inductive Enclosed (fnc : FunctionInfo) : List Level → Prop where
  | func {l : Level} (hk : l.kind = .func) (hs : l.sigIndex = fnc.sigIndex) : Enclosed fnc [l]
  | inner {l : Level} {ls : List Level} (hk : l.kind ≠ .func) (h : Enclosed fnc ls) :
      Enclosed fnc (l :: ls)

/-- The innermost level may change its types. -/
theorem Enclosed.replace {l l' : Level} {ls : List Level} (h : Enclosed fnc (l :: ls))
    (hk : l'.kind = l.kind) (hs : l'.sigIndex = l.sigIndex) : Enclosed fnc (l' :: ls) := by
  cases h with
  | func hkind hsig => exact .func (hk.trans hkind) (hs.trans hsig)
  | inner hkind h => exact .inner (fun h' => hkind (hk ▸ h')) h

/-- The function lies at the bottom. -/
theorem Enclosed.getLast {ls : List Level} (h : Enclosed fnc ls) :
    ∃ l, ls.getLast? = some l ∧ l.sigIndex = fnc.sigIndex := by
  induction h with
  | func _ hs => exact ⟨_, rfl, hs⟩
  | inner _ _ ih =>
      obtain ⟨l, hl, hs⟩ := ih
      exact ⟨l, by rw [List.getLast?_cons, hl]; rfl, hs⟩

/-- The block references of a control stack. -/
def blockKeysOf (ls : List Level) : List (BlockReferenceKind × ℕ) :=
  (ls.map Level.frame).flatMap Frame.blockKeys

/-- The typing context at a control stack. -/
def contextOf (m : ModuleInfo) (fnc : FunctionInfo) (ls : List Level) : Context :=
  stackContext m fnc (ls.map Level.frame)

/-- The state of the loop is at the control stack `ls`. -/
structure Ready (fnc : FunctionInfo) (ls : List Level) (s : FrontendState) : Prop where
  holds : Holds ls s.validationStack
  mirrors : s.blockKeys = blockKeysOf ls
  nested : Enclosed fnc ls
  running : s.properlyTerminated = false

variable {kind : FrameKind} {sigIndex : ℕ} {ls : List Level} {s : FrontendState}
  {t : WasmType} {ts ts' : List WasmType}

/-- A step of the validation stack within the innermost level. -/
theorem Ready.validate (h : Ready fnc (⟨kind, sigIndex, ts⟩ :: ls) s)
    {f : ValidationStack → Except ErrorCode ValidationStack}
    (hf : Returns (f s.validationStack) (Holds (⟨kind, sigIndex, ts'⟩ :: ls))) :
    Returns (s.validate f) (Ready fnc (⟨kind, sigIndex, ts'⟩ :: ls)) :=
  hf.bind fun _ hv => .ok ⟨hv, h.mirrors, h.nested.replace rfl rfl, h.running⟩

/-- Popping a number element. -/
theorem Ready.pop (h : Ready fnc (⟨kind, sigIndex, t :: ts⟩ :: ls) s) :
    Returns (s.validate (validateLastNumberType t true))
      (Ready fnc (⟨kind, sigIndex, ts⟩ :: ls)) :=
  h.validate (validateLastNumberType_returns h.holds)

/-- Pushing a number element. -/
theorem Ready.push (h : Ready fnc (⟨kind, sigIndex, ts⟩ :: ls) s) (t : WasmType) :
    Returns (s.validate fun v => .ok (push (.number t) v))
      (Ready fnc (⟨kind, sigIndex, t :: ts⟩ :: ls)) :=
  h.validate (.ok (h.holds.push t))

/-- Reachability of code generation does not matter. -/
theorem Ready.setUnreachable (h : Ready fnc ls s) :
    Ready fnc ls s.setCurrentFrameFormallyUnreachable where
  holds := by
    rw [setUnreachable_validationStack]
    exact h.holds
  mirrors := by
    rw [setUnreachable_blockKeys]
    exact h.mirrors
  nested := h.nested
  running := by
    rw [setUnreachable_properlyTerminated]
    exact h.running

/-! ### Branch targets of code generation -/

/-- The first block reference. -/
theorem blocks_cons {blocks : List BlockReference} {key : BlockReferenceKind × ℕ}
    {keys : List (BlockReferenceKind × ℕ)}
    (h : blocks.map (fun b => (b.kind, b.sigIndex)) = key :: keys) :
    ∃ u bs, blocks = ⟨key.1, key.2, u⟩ :: bs ∧
      bs.map (fun b => (b.kind, b.sigIndex)) = keys := by
  obtain ⟨⟨k, sg, u⟩, bs, rfl, hkey, hkeys⟩ := List.map_eq_cons_iff.mp h
  exact ⟨u, bs, by rw [← hkey], hkeys⟩

/-- The block reference of a level that is no function. -/
theorem skipIfBlock_cons (m : ModuleInfo) (fnc : FunctionInfo) {l : Level}
    {blocks : List BlockReference} (hk : l.kind ≠ .func)
    (hblocks : blocks.map (fun b => (b.kind, b.sigIndex)) = blockKeysOf (l :: ls)) :
    ∃ b bs, FrontendState.skipIfBlock blocks = b :: bs ∧
      branchTargetTypes m fnc (some b) = l.frame.label m ∧
      bs.map (fun b => (b.kind, b.sigIndex)) = blockKeysOf ls := by
  obtain ⟨kind, sigIndex, types⟩ := l
  rcases kind with _ | _ | _ | _ | params
  · exact absurd rfl hk
  · obtain ⟨u, bs, rfl, hbs⟩ := blocks_cons hblocks
    exact ⟨_, bs, rfl, rfl, hbs⟩
  · obtain ⟨u, bs, rfl, hbs⟩ := blocks_cons hblocks
    exact ⟨_, bs, rfl, rfl, hbs⟩
  · obtain ⟨u, bs, rfl, hbs⟩ := blocks_cons hblocks
    exact ⟨_, bs, rfl, rfl, hbs⟩
  · obtain ⟨u, bs, rfl, hbs⟩ := blocks_cons hblocks
    obtain ⟨u', bs', rfl, hbs'⟩ := blocks_cons hbs
    exact ⟨_, bs', rfl, rfl, hbs'⟩

/-- Code generation finds the target of a branch depth, with the types of its label. -/
theorem Enclosed.findTargetBlock {blocks : List BlockReference} {branchDepth : ℕ}
    {types : List WasmType} (h : Enclosed fnc ls)
    (hblocks : blocks.map (fun b => (b.kind, b.sigIndex)) = blockKeysOf ls)
    (hlabel : (contextOf m fnc ls).labels[branchDepth]? = some types) :
    Returns (FrontendState.findTargetBlock blocks branchDepth)
      fun target => branchTargetTypes m fnc target = types := by
  induction h generalizing blocks branchDepth with
  | @func l hk hs =>
      obtain rfl : blocks = [] := by
        simpa [blockKeysOf, Level.frame, Frame.blockKeys, hk] using hblocks
      cases branchDepth with
      | succ n => cases hlabel
      | zero =>
          obtain rfl : l.frame.label m = types := Option.some.inj hlabel
          refine .ok ?_
          rw [Frame.label_of_ne_loop (by simp [Level.frame, hk]), Level.frame, hs]
          rfl
  | @inner l ls hk _ ih =>
      obtain ⟨b, bs, hskip, htypes, hbs⟩ := skipIfBlock_cons m fnc hk hblocks
      cases branchDepth with
      | zero =>
          obtain rfl : l.frame.label m = types := Option.some.inj hlabel
          rw [FrontendState.findTargetBlock, hskip]
          exact .ok htypes
      | succ n =>
          rw [FrontendState.findTargetBlock, hskip]
          exact ih hbs hlabel

/-- Code generation finds the target of a branch depth. -/
theorem Ready.findTargetBlock {branchDepth : ℕ} {types : List WasmType} (h : Ready fnc ls s)
    (hlabel : (contextOf m fnc ls).labels[branchDepth]? = some types) :
    Returns (FrontendState.findTargetBlock s.blocks branchDepth)
      fun target => branchTargetTypes m fnc target = types :=
  h.nested.findTargetBlock h.mirrors hlabel

/-- Compiling a branch. -/
theorem compileBR_returns {branchDepth : ℕ} {types : List WasmType} (h : Ready fnc ls s)
    (hlabel : (contextOf m fnc ls).labels[branchDepth]? = some types) :
    Returns (Frontend.compileBR s branchDepth) (Ready fnc ls) :=
  (h.findTargetBlock hlabel).bind fun _ _ => .ok h.setUnreachable

/-- The further targets of a `br_table` with labels of the same types. -/
theorem checkFurtherTargets_returns {branchDepths : List ℕ} {types : List WasmType}
    (h : Ready fnc ls s) (originalFrameUnreachable : Bool)
    (hlabels : ∀ l ∈ branchDepths, (contextOf m fnc ls).labels[l]? = some types) :
    Returns (checkFurtherTargets m fnc types originalFrameUnreachable s.blocks branchDepths)
      fun _ => True := by
  induction branchDepths with
  | nil => exact .ok trivial
  | cons branchDepth branchDepths ih =>
      have hfirst := hlabels branchDepth List.mem_cons_self
      refine (h.findTargetBlock hfirst).bind fun target htarget => ?_
      dsimp only
      rw [htarget, if_neg (by simp)]
      exact ih fun l hl => hlabels l (List.mem_cons_of_mem _ hl)

/-! ### Instructions without nested instructions -/

/-- The level a branch depth refers to, by the types of its label. -/
theorem label_contextOf {branchDepth : ℕ} {types : List WasmType}
    (h : (contextOf m fnc ls).labels[branchDepth]? = some types) :
    ∃ l, ls[branchDepth]? = some l ∧ l.frame.label m = types := by
  simp only [contextOf, stackContext, List.map_map, List.getElem?_map] at h
  obtain ⟨l, hl, hlabel⟩ := Option.map_eq_some_iff.mp h
  exact ⟨l, hl, hlabel⟩

/-- A processed branch. -/
theorem processPlain_returns_br {c : Option Bool} {branchDepth : ℕ} {types : List WasmType}
    (h : Ready fnc (⟨kind, sigIndex, types.reverse ++ ts⟩ :: ls) s)
    (hlabel : (contextOf m fnc (⟨kind, sigIndex, types.reverse ++ ts⟩ :: ls)).labels[branchDepth]? =
      some types) (ts' : List WasmType) :
    Returns (processPlain m fnc c s (.br branchDepth))
      (Ready fnc (⟨kind, sigIndex, ts'⟩ :: ls)) := by
  obtain ⟨l, hl, rfl⟩ := label_contextOf hlabel
  have hbranch : Returns (validateBranch m .br branchDepth s.validationStack)
      (Holds (⟨kind, sigIndex, ts'⟩ :: ls)) :=
    validateBranch_returns ts' (.ok h.holds) hl nofun
  refine (h.validate hbranch).bind fun s₁ hs₁ => ?_
  exact compileBR_returns hs₁ hlabel

/-- A processed conditional branch. -/
theorem processPlain_returns_brIf {c : Option Bool} {branchDepth : ℕ} {types : List WasmType}
    (h : Ready fnc (⟨kind, sigIndex, .i32 :: (types.reverse ++ ts)⟩ :: ls) s)
    (hlabel : (contextOf m fnc (⟨kind, sigIndex, types.reverse ++ ts⟩ :: ls)).labels[branchDepth]? =
      some types) :
    Returns (processPlain m fnc c s (.brIf branchDepth))
      (Ready fnc (⟨kind, sigIndex, types.reverse ++ ts⟩ :: ls)) := by
  obtain ⟨l, hl, rfl⟩ := label_contextOf hlabel
  have hbranch : Returns (validateBranch m .brIf branchDepth s.validationStack)
      (Holds (⟨kind, sigIndex, (l.frame.label m).reverse ++ ts⟩ :: ls)) :=
    validateBranch_returns _ (validateLastNumberType_returns h.holds) hl fun _ => rfl
  refine (h.validate hbranch).bind fun s₁ hs₁ => ?_
  split
  · exact .ok hs₁
  · split
    · exact compileBR_returns hs₁ hlabel
    · exact .ok hs₁
    · exact (hs₁.findTargetBlock hlabel).bind fun _ _ => .ok hs₁

/-- A processed branch table. -/
theorem processPlain_returns_brTable {c : Option Bool} {branchDepths : List ℕ}
    {defaultDepth : ℕ} {types : List WasmType}
    (h : Ready fnc (⟨kind, sigIndex, .i32 :: (types.reverse ++ ts)⟩ :: ls) s)
    (hlabels : ∀ l ∈ branchDepths ++ [defaultDepth],
      (contextOf m fnc (⟨kind, sigIndex, types.reverse ++ ts⟩ :: ls)).labels[l]? = some types)
    (hlength : branchDepths.length ≤ branchTableLength) (ts' : List WasmType) :
    Returns (processPlain m fnc c s (.brTable branchDepths defaultDepth))
      (Ready fnc (⟨kind, sigIndex, ts'⟩ :: ls)) := by
  rw [processPlain, brTable, if_neg (Nat.not_lt.mpr hlength)]
  obtain ⟨first, further, htargets⟩ :=
    List.exists_cons_of_ne_nil (List.append_ne_nil_of_right_ne_nil branchDepths
      (List.cons_ne_nil defaultDepth []))
  rw [htargets] at hlabels ⊢
  have hfirst := hlabels first List.mem_cons_self
  obtain ⟨l, hl, rfl⟩ := label_contextOf hfirst
  have hbranch : Returns (validateBranch m .brTable first s.validationStack)
      (Holds (⟨kind, sigIndex, ts'⟩ :: ls)) :=
    validateBranch_returns ts' (validateLastNumberType_returns h.holds) hl (by simp)
  refine (h.validate hbranch).bind fun s₁ hs₁ => ?_
  refine (hs₁.findTargetBlock hfirst).bind fun target htarget => ?_
  rw [htarget]
  refine (checkFurtherTargets_returns hs₁ _ fun l hl =>
    hlabels l (List.mem_cons_of_mem _ hl)).bind fun _ _ => ?_
  split
  · exact .ok hs₁
  · exact .ok hs₁.setUnreachable

/-- A type index with a type. -/
theorem reduceTypeIndex_returns (fnc : FunctionInfo) {i : ℕ} {ft : FuncType}
    (h : (m.context fnc).types[i]? = some ft) :
    Returns (m.reduceTypeIndex i) fun sigIndex => m.signature sigIndex = ft := by
  have hreduce : ∃ j, m.reduceTypeIndex i = .ok j := by
    simp only [ModuleInfo.context, List.getElem?_map] at h
    obtain ⟨entry, hentry, -⟩ := Option.map_eq_some_iff.mp h
    rw [ModuleInfo.reduceTypeIndex, hentry]
    cases entry with
    | signature _ => exact ⟨_, rfl⟩
    | forward j => exact ⟨j, rfl⟩
  obtain ⟨j, hj⟩ := hreduce
  rw [ModuleInfo.reduceTypeIndex_eq hj fnc] at h
  exact ⟨j, hj, Option.some.inj h⟩

/-- Popping three numbers of one type. -/
theorem Ready.pop_three (h : Ready fnc (⟨kind, sigIndex, t :: t :: t :: ts⟩ :: ls) s) :
    Returns (do
      let s ← s.validate (validateLastNumberType t true)
      let s ← s.validate (validateLastNumberType t true)
      s.validate (validateLastNumberType t true)) (Ready fnc (⟨kind, sigIndex, ts⟩ :: ls)) :=
  h.pop.bind fun _ h₁ => h₁.pop.bind fun _ h₂ => h₂.pop

/-- An alignment within the width of the access passes its check. -/
theorem alignment_le {maxAlignment alignment : ℕ}
    (h : 2 ^ alignment * 8 ≤ 2 ^ maxAlignment * 8) : ¬ maxAlignment < alignment := by
  have hpow : 2 ^ alignment ≤ 2 ^ maxAlignment := Nat.le_of_mul_le_mul_right h (by decide)
  exact Nat.not_lt.mpr ((Nat.pow_le_pow_iff_right (by decide)).mp hpow)

/-- **A typed instruction is processed**, from the level before it to the level after
it. -/
theorem processPlain_returns {c : Option Bool} {p : Plain} {a b : List WasmType}
    (hp : PlainTyped (contextOf m fnc (⟨kind, sigIndex, []⟩ :: ls)) p a b)
    (h : Ready fnc (⟨kind, sigIndex, a ++ ts⟩ :: ls) s)
    (hlimit : ∀ branchDepths defaultDepth, p = .brTable branchDepths defaultDepth →
      branchDepths.length ≤ branchTableLength) :
    Returns (processPlain m fnc c s p) (Ready fnc (⟨kind, sigIndex, b ++ ts⟩ :: ls)) := by
  cases hp with
  | unreachable =>
      have hmark : Returns (.ok (markCurrentBlockUnreachable s.validationStack))
          (Holds (⟨kind, sigIndex, b ++ ts⟩ :: ls)) := .ok (h.holds.mark _)
      exact (h.validate hmark).bind fun _ hs₁ => .ok hs₁.setUnreachable
  | nop => exact .ok h
  | @br _ types a b hl =>
      rw [List.append_assoc] at h
      exact processPlain_returns_br h hl _
  | brIf hl => exact processPlain_returns_brIf h hl
  | @brTable branchDepths defaultDepth types a b hls hd =>
      rw [List.cons_append, List.append_assoc] at h
      refine processPlain_returns_brTable h (fun l hl => ?_) (hlimit _ _ rfl) _
      rcases List.mem_append.mp hl with hl | hl
      · exact hls l hl
      · rw [List.mem_singleton.mp hl]
        exact hd
  | @return_ a b =>
      rw [List.append_assoc] at h
      obtain ⟨func, hfunc, hs⟩ := h.nested.getLast
      have hreturn := validateReturn_returns hs hfunc h.holds (b ++ ts)
      exact (h.validate hreturn).bind fun _ hs₁ => .ok hs₁.setUnreachable
  | @call i ft hi =>
      simp only [contextOf, stackContext, ModuleInfo.context, List.getElem?_map] at hi
      obtain ⟨callee, hcallee, rfl⟩ := Option.map_eq_some_iff.mp hi
      rw [processPlain, hcallee]
      exact h.validate (validateCall_returns h.holds)
  | callIndirect ht hi =>
      refine (reduceTypeIndex_returns fnc hi).bind fun callee hcallee => ?_
      rw [← hcallee] at h ⊢
      refine h.pop.bind fun s₁ hs₁ => ?_
      refine (hs₁.validate (validateCall_returns hs₁.holds)).bind fun s₂ hs₂ => ?_
      have ht' : m.hasTable = true := ht
      rw [if_neg (by simp [ht'])]
      exact .ok hs₂
  | drop => exact h.validate (drop_returns h.holds)
  | select => exact h.validate (validateSelect_returns h.holds)
  | @localGet i t ht =>
      have ht' : fnc.localDefs[i]? = some t := ht
      rw [processPlain, ht']
      exact h.push t
  | @localSet i t ht =>
      have ht' : fnc.localDefs[i]? = some t := ht
      rw [processPlain, ht']
      exact h.pop
  | @localTee i t ht =>
      have ht' : fnc.localDefs[i]? = some t := ht
      rw [processPlain, ht']
      exact h.validate (validateLastNumberType_returns_keep h.holds)
  | @globalGet i g hg =>
      have hg' : m.globals[i]? = some g := hg
      rw [processPlain, hg']
      exact h.push g.type
  | @globalSet i g hg hm =>
      have hg' : m.globals[i]? = some g := hg
      rw [processPlain, hg']
      refine h.pop.bind fun s₁ hs₁ => ?_
      rw [if_neg (by simp [hm])]
      exact .ok hs₁
  | @load op alignment hm ha =>
      have hm' : m.hasMemory = true := hm
      obtain ⟨htype, hbits⟩ := op.shape_eq
      rw [hbits] at ha
      rw [processPlain, if_neg (by simp [hm']), htype]
      refine h.pop.bind fun s₁ hs₁ => (hs₁.push _).bind fun s₂ hs₂ => ?_
      rw [if_neg (alignment_le ha)]
      exact .ok hs₂
  | @store op alignment hm ha =>
      have hm' : m.hasMemory = true := hm
      obtain ⟨htype, hbits⟩ := op.shape_eq
      rw [hbits] at ha
      rw [htype] at h
      rw [processPlain, if_neg (by simp [hm'])]
      refine h.pop.bind fun s₁ hs₁ => hs₁.pop.bind fun s₂ hs₂ => ?_
      rw [if_neg (alignment_le ha)]
      exact .ok hs₂
  | memorySize hm =>
      have hm' : m.hasMemory = true := hm
      rw [processPlain, if_neg (by simp [hm'])]
      exact h.push .i32
  | memoryGrow hm =>
      have hm' : m.hasMemory = true := hm
      rw [processPlain, if_neg (by simp [hm'])]
      exact h.pop.bind fun _ hs₁ => hs₁.push .i32
  | memoryCopy hm | memoryFill hm =>
      have hm' : m.hasMemory = true := hm
      rw [processPlain, if_neg (by simp [hm'])]
      exact h.pop_three
  | const => exact h.push _
  | arith => exact h.validate (validateArithmeticElement_returns h.holds)

/-! ### Blocks -/

/-- A block type with a type. -/
theorem blockSigIndex_returns (fnc : FunctionInfo) {bt : BlockType} {ft : FuncType}
    (h : (m.context fnc).blockType bt = some ft) :
    Returns (m.blockSigIndex bt) fun sigIndex => m.signature sigIndex = ft := by
  have hindex : ∃ j, m.blockSigIndex bt = .ok j := by
    cases bt with
    | void => exact ⟨_, rfl⟩
    | value type => exact ⟨_, rfl⟩
    | index i =>
        obtain ⟨j, hj, -⟩ := reduceTypeIndex_returns fnc h
        exact ⟨j, hj⟩
  obtain ⟨j, hj⟩ := hindex
  rw [ModuleInfo.blockSigIndex_eq hj fnc] at h
  exact ⟨j, hj, Option.some.inj h⟩

/-- The block references of a new block. -/
theorem Ready.begin {l : Level} (h : Ready fnc (⟨kind, sigIndex, ts⟩ :: ls) s)
    {v : ValidationStack} (references : List BlockReference)
    (hv : Holds (l :: ⟨kind, sigIndex, ts'⟩ :: ls) v) (hk : l.kind ≠ .func)
    (hreferences : references.map (fun b => (b.kind, b.sigIndex)) = l.frame.blockKeys) :
    Ready fnc (l :: ⟨kind, sigIndex, ts'⟩ :: ls)
      { s with validationStack := v, blocks := references ++ s.blocks } where
  holds := hv
  mirrors := by
    have hmirrors : s.blocks.map (fun b => (b.kind, b.sigIndex)) =
        blockKeysOf (⟨kind, sigIndex, ts'⟩ :: ls) := h.mirrors
    rw [FrontendState.blockKeys, List.map_append, hmirrors, hreferences]
    rfl
  nested := .inner hk (h.nested.replace rfl rfl)
  running := h.running

/-- A processed `block`. -/
theorem processOpCode_returns_block {c : Option Bool} {bt : BlockType} {block : ℕ}
    (ht : m.blockSigIndex bt = .ok block)
    (h : Ready fnc (⟨kind, sigIndex, (m.signature block).params.reverse ++ ts⟩ :: ls) s) :
    Returns (processOpCode m fnc c s (.block bt))
      (Ready fnc (⟨.block, block, (m.signature block).params.reverse⟩ ::
        ⟨kind, sigIndex, ts⟩ :: ls)) := by
  obtain ⟨v, hv, hholds⟩ := validateAndPrepareBlock_returns h.holds
  rw [processOpCode, ht]
  refine ⟨_, bind_eq_ok.mpr ⟨block, rfl, bind_eq_ok.mpr ⟨_, validate_eq_ok.mpr ⟨v, hv, rfl⟩, rfl⟩⟩,
    h.begin [⟨.block, block, _⟩] hholds nofun rfl⟩

/-- A processed `loop`. -/
theorem processOpCode_returns_loop {c : Option Bool} {bt : BlockType} {block : ℕ}
    (ht : m.blockSigIndex bt = .ok block)
    (h : Ready fnc (⟨kind, sigIndex, (m.signature block).params.reverse ++ ts⟩ :: ls) s) :
    Returns (processOpCode m fnc c s (.loop bt))
      (Ready fnc (⟨.loop, block, (m.signature block).params.reverse⟩ ::
        ⟨kind, sigIndex, ts⟩ :: ls)) := by
  obtain ⟨v, hv, hholds⟩ := validateAndPrepareLoop_returns h.holds
  rw [processOpCode, ht]
  refine ⟨_, bind_eq_ok.mpr ⟨block, rfl, bind_eq_ok.mpr ⟨_, validate_eq_ok.mpr ⟨v, hv, rfl⟩, rfl⟩⟩,
    h.begin [⟨.loop, block, _⟩] hholds nofun rfl⟩

/-- A processed `if`. -/
theorem processOpCode_returns_if {c : Option Bool} {bt : BlockType} {block : ℕ}
    (ht : m.blockSigIndex bt = .ok block)
    (h : Ready fnc
      (⟨kind, sigIndex, .i32 :: ((m.signature block).params.reverse ++ ts)⟩ :: ls) s) :
    Returns (processOpCode m fnc c s (.if_ bt))
      (Ready fnc (.ifBlock m block (m.signature block).params.reverse ::
        ⟨kind, sigIndex, ts⟩ :: ls)) := by
  obtain ⟨v, hv, hholds⟩ := validateAndPrepareIfBlock_returns h.holds
  rw [processOpCode, ht]
  refine ⟨_, bind_eq_ok.mpr ⟨block, rfl, bind_eq_ok.mpr ⟨_, validate_eq_ok.mpr ⟨v, hv, rfl⟩, rfl⟩⟩,
    h.begin [⟨.ifblock, block, _⟩, ⟨.block, block, _⟩] hholds nofun rfl⟩

/-- A processed `else`. -/
theorem processOpCode_returns_else {c : Option Bool} {block : ℕ}
    (h : Ready fnc (.ifBlock m block (m.signature block).results.reverse :: ls) s) :
    Returns (processOpCode m fnc c s .else_)
      (Ready fnc (⟨.if_ none, block, (m.signature block).params.reverse⟩ :: ls)) := by
  obtain ⟨v, hv, hholds⟩ := validateElse_returns h.holds
  refine ⟨_, bind_eq_ok.mpr ⟨_, validate_eq_ok.mpr ⟨v, hv, rfl⟩, rfl⟩, hholds, ?_, ?_, h.running⟩
  · obtain ⟨u, bs, hblocks, hbs⟩ := blocks_cons h.mirrors
    rw [FrontendState.blockKeys]
    dsimp only
    rw [hblocks]
    exact hbs
  · cases h.nested with
    | func hk _ => cases hk
    | inner _ hnested => exact .inner (by simp) hnested

/-- The block references after the end of a block. -/
theorem Ready.pop_level {l : Level} {v : ValidationStack} {bs : List BlockReference}
    (h : Ready fnc (l :: ⟨kind, sigIndex, ts⟩ :: ls) s)
    (hv : Holds (⟨kind, sigIndex, ts'⟩ :: ls) v)
    (hbs : bs.map (fun b => (b.kind, b.sigIndex)) = blockKeysOf (⟨kind, sigIndex, ts⟩ :: ls)) :
    Ready fnc (⟨kind, sigIndex, ts'⟩ :: ls) { s with validationStack := v, blocks := bs } where
  holds := hv
  mirrors := hbs
  nested := by
    cases h.nested with
    | inner _ hnested => exact hnested.replace rfl rfl
  running := h.running

/-- A processed `end` of a block; at the end of an `if` without `else` the numbers of
parameters and results agree. -/
theorem processEnd_returns (blockKind : FrameKind) {block : ℕ} (hk : blockKind ≠ .func)
    (hif : ∀ params, blockKind = .if_ (some params) →
      (m.signature block).params = (m.signature block).results)
    (h : Ready fnc (⟨blockKind, block, (m.signature block).results.reverse⟩ ::
      ⟨kind, sigIndex, ts⟩ :: ls) s) :
    Returns (processEnd m s)
      (Ready fnc (⟨kind, sigIndex, (m.signature block).results.reverse ++ ts⟩ :: ls)) := by
  obtain ⟨v, hv, hholds⟩ := validateEnd_returns hk h.holds
  rcases blockKind with _ | _ | _ | _ | params
  · exact absurd rfl hk
  · obtain ⟨u, bs, hblocks, hbs⟩ := blocks_cons h.mirrors
    refine ⟨_, bind_eq_ok.mpr ⟨_, validate_eq_ok.mpr ⟨v, hv, rfl⟩, ?_⟩, h.pop_level hholds hbs⟩
    dsimp only
    rw [hblocks]
  · obtain ⟨u, bs, hblocks, hbs⟩ := blocks_cons h.mirrors
    refine ⟨_, bind_eq_ok.mpr ⟨_, validate_eq_ok.mpr ⟨v, hv, rfl⟩, ?_⟩, h.pop_level hholds hbs⟩
    dsimp only
    rw [hblocks]
  · obtain ⟨u, bs, hblocks, hbs⟩ := blocks_cons h.mirrors
    refine ⟨_, bind_eq_ok.mpr ⟨_, validate_eq_ok.mpr ⟨v, hv, rfl⟩, ?_⟩, h.pop_level hholds hbs⟩
    dsimp only
    rw [hblocks]
  · obtain ⟨u, bs, hblocks, hbs⟩ := blocks_cons h.mirrors
    obtain ⟨u', bs', rfl, hbs'⟩ := blocks_cons hbs
    refine ⟨_, bind_eq_ok.mpr ⟨_, validate_eq_ok.mpr ⟨v, hv, rfl⟩, ?_⟩, h.pop_level hholds hbs'⟩
    dsimp only
    rw [hblocks]
    dsimp only [Level.frame]
    rw [if_neg (by simp [hif params rfl])]
    rfl

/-! ### Runs -/

/-- Processing `ops` leads from the control stack `ls` to `ls'`. -/
def Runs (m : ModuleInfo) (fnc : FunctionInfo) (constantCondition : ℕ → Option Bool)
    (ops : List OPCode) (ls ls' : List Level) : Prop :=
  ∀ pos s, Ready fnc ls s → ∃ s', Ready fnc ls' s' ∧ ∀ rest,
    parseFunctionBody m fnc constantCondition pos (ops ++ rest) s =
      parseFunctionBody m fnc constantCondition (pos + ops.length) rest s'

variable {constantCondition : ℕ → Option Bool} {ls' ls'' : List Level} {ops ops' : List OPCode}

/-- No opcodes. -/
theorem Runs.nil : Runs m fnc constantCondition [] ls ls :=
  fun _ s h => ⟨s, h, fun _ => rfl⟩

/-- Opcodes in sequence. -/
theorem Runs.append (h : Runs m fnc constantCondition ops ls ls')
    (h' : Runs m fnc constantCondition ops' ls' ls'') :
    Runs m fnc constantCondition (ops ++ ops') ls ls'' := by
  intro pos s hs
  obtain ⟨s₁, hs₁, hrun⟩ := h pos s hs
  obtain ⟨s₂, hs₂, hrun'⟩ := h' (pos + ops.length) s₁ hs₁
  refine ⟨s₂, hs₂, fun rest => ?_⟩
  rw [List.append_assoc, hrun, hrun', List.length_append, Nat.add_assoc]

/-- An opcode before others. -/
theorem Runs.cons {op : OPCode}
    (hop : ∀ c s, Ready fnc ls s → Returns (processOpCode m fnc c s op) (Ready fnc ls'))
    (h : Runs m fnc constantCondition ops ls' ls'') :
    Runs m fnc constantCondition (op :: ops) ls ls'' := by
  have hone : Runs m fnc constantCondition [op] ls ls' := by
    intro pos s hs
    obtain ⟨s', hs', hready⟩ := hop (constantCondition pos) s hs
    refine ⟨s', hready, fun rest => ?_⟩
    rw [List.singleton_append, parseFunctionBody, hs.running, if_neg Bool.false_ne_true, hs']
    rfl
  exact hone.append h

/-- The branch tables are no longer than the implementation allows. -/
def WithinLimits (ops : List OPCode) : Prop :=
  ∀ branchDepths defaultDepth, .plain (.brTable branchDepths defaultDepth) ∈ ops →
    branchDepths.length ≤ branchTableLength

/-- Opcodes among others. -/
theorem WithinLimits.subset (h : WithinLimits ops) (hsub : ∀ op ∈ ops', op ∈ ops) :
    WithinLimits ops' :=
  fun branchDepths defaultDepth hmem => h branchDepths defaultDepth (hsub _ hmem)

/-- A block whose body is processed. -/
theorem Runs.block {bt : BlockType} {body : List Instr} {block : ℕ}
    (ht : m.blockSigIndex bt = .ok block)
    (hbody : Runs m fnc constantCondition (flattenAll body)
      (⟨.block, block, (m.signature block).params.reverse⟩ :: ⟨kind, sigIndex, ts⟩ :: ls)
      (⟨.block, block, (m.signature block).results.reverse⟩ :: ⟨kind, sigIndex, ts⟩ :: ls)) :
    Runs m fnc constantCondition (Instr.block bt body).flatten
      (⟨kind, sigIndex, (m.signature block).params.reverse ++ ts⟩ :: ls)
      (⟨kind, sigIndex, (m.signature block).results.reverse ++ ts⟩ :: ls) := by
  rw [Instr.flatten]
  refine .cons (fun _ _ hs => processOpCode_returns_block ht hs) (hbody.append (.cons ?_ .nil))
  exact fun _ _ hs => processEnd_returns .block (by simp) (by simp) hs

/-- A loop whose body is processed. -/
theorem Runs.loop {bt : BlockType} {body : List Instr} {block : ℕ}
    (ht : m.blockSigIndex bt = .ok block)
    (hbody : Runs m fnc constantCondition (flattenAll body)
      (⟨.loop, block, (m.signature block).params.reverse⟩ :: ⟨kind, sigIndex, ts⟩ :: ls)
      (⟨.loop, block, (m.signature block).results.reverse⟩ :: ⟨kind, sigIndex, ts⟩ :: ls)) :
    Runs m fnc constantCondition (Instr.loop bt body).flatten
      (⟨kind, sigIndex, (m.signature block).params.reverse ++ ts⟩ :: ls)
      (⟨kind, sigIndex, (m.signature block).results.reverse ++ ts⟩ :: ls) := by
  rw [Instr.flatten]
  refine .cons (fun _ _ hs => processOpCode_returns_loop ht hs) (hbody.append (.cons ?_ .nil))
  exact fun _ _ hs => processEnd_returns .loop (by simp) (by simp) hs

/-- An `if` both of whose branches are processed. -/
theorem Runs.ifElse {bt : BlockType} {thenBody elseBody : List Instr} {block : ℕ}
    (ht : m.blockSigIndex bt = .ok block)
    (hthen : Runs m fnc constantCondition (flattenAll thenBody)
      (.ifBlock m block (m.signature block).params.reverse :: ⟨kind, sigIndex, ts⟩ :: ls)
      (.ifBlock m block (m.signature block).results.reverse :: ⟨kind, sigIndex, ts⟩ :: ls))
    (helse : Runs m fnc constantCondition (flattenAll elseBody)
      (⟨.if_ none, block, (m.signature block).params.reverse⟩ :: ⟨kind, sigIndex, ts⟩ :: ls)
      (⟨.if_ none, block, (m.signature block).results.reverse⟩ :: ⟨kind, sigIndex, ts⟩ :: ls)) :
    Runs m fnc constantCondition (Instr.ifElse bt thenBody elseBody).flatten
      (⟨kind, sigIndex, .i32 :: ((m.signature block).params.reverse ++ ts)⟩ :: ls)
      (⟨kind, sigIndex, (m.signature block).results.reverse ++ ts⟩ :: ls) := by
  rw [Instr.flatten]
  refine .cons (fun _ _ hs => processOpCode_returns_if ht hs) (hthen.append ?_)
  refine .cons (fun _ _ hs => processOpCode_returns_else hs) (helse.append (.cons ?_ .nil))
  exact fun _ _ hs => processEnd_returns (.if_ none) (by simp) (by simp) hs

/-- An `if` without `else` whose branch is processed, from parameters to equal results. -/
theorem Runs.ifThen {bt : BlockType} {thenBody : List Instr} {block : ℕ}
    (ht : m.blockSigIndex bt = .ok block)
    (hsame : (m.signature block).params = (m.signature block).results)
    (hthen : Runs m fnc constantCondition (flattenAll thenBody)
      (.ifBlock m block (m.signature block).params.reverse :: ⟨kind, sigIndex, ts⟩ :: ls)
      (.ifBlock m block (m.signature block).results.reverse :: ⟨kind, sigIndex, ts⟩ :: ls)) :
    Runs m fnc constantCondition (Instr.ifThen bt thenBody).flatten
      (⟨kind, sigIndex, .i32 :: ((m.signature block).params.reverse ++ ts)⟩ :: ls)
      (⟨kind, sigIndex, (m.signature block).results.reverse ++ ts⟩ :: ls) := by
  rw [Instr.flatten]
  refine .cons (fun _ _ hs => processOpCode_returns_if ht hs) (hthen.append (.cons ?_ .nil))
  exact fun _ _ hs => processEnd_returns (.if_ (some _)) (by simp) (fun _ _ => hsame) hs

/-- The type of a block type at a control stack. -/
theorem contextOf_blockType {bt : BlockType} {ft : FuncType}
    (h : (contextOf m fnc ls).blockType bt = some ft) :
    Returns (m.blockSigIndex bt) fun sigIndex => m.signature sigIndex = ft := by
  refine blockSigIndex_returns fnc ?_
  rw [← h]
  cases bt <;> rfl

/-- **A typed sequence of instructions is processed**, from the level before it to the level
after it. -/
theorem Typed.runs {C : Context} {instrs : List Instr} (h : Typed C instrs ts ts')
    (hC : C = contextOf m fnc (⟨kind, sigIndex, []⟩ :: ls))
    (hlimit : WithinLimits (flattenAll instrs)) :
    Runs m fnc constantCondition (flattenAll instrs) (⟨kind, sigIndex, ts⟩ :: ls)
      (⟨kind, sigIndex, ts'⟩ :: ls) := by
  induction h generalizing kind sigIndex ls with
  | empty => exact .nil
  | @plain C instrs p ts a b u _ hp ih =>
      subst hC
      rw [flattenAll_concat] at hlimit ⊢
      refine (ih rfl (hlimit.subset fun _ => List.mem_append_left _)).append
        (.cons (fun c s hs => processPlain_returns hp hs fun branchDepths defaultDepth heq => ?_)
          .nil)
      subst heq
      exact hlimit branchDepths defaultDepth
        (List.mem_append_right _ (List.mem_singleton.mpr rfl))
  | @block C instrs body bt ft ts u _ ht _ ih ihb =>
      subst hC
      rw [flattenAll_concat] at hlimit ⊢
      obtain ⟨block, hblock, rfl⟩ := contextOf_blockType ht
      refine (ih rfl (hlimit.subset fun _ => List.mem_append_left _)).append (.block hblock ?_)
      refine ihb rfl (hlimit.subset fun op hop => List.mem_append_right _ ?_)
      simp [Instr.flatten, hop]
  | @loop C instrs body bt ft ts u _ ht _ ih ihb =>
      subst hC
      rw [flattenAll_concat] at hlimit ⊢
      obtain ⟨block, hblock, rfl⟩ := contextOf_blockType ht
      refine (ih rfl (hlimit.subset fun _ => List.mem_append_left _)).append (.loop hblock ?_)
      refine ihb rfl (hlimit.subset fun op hop => List.mem_append_right _ ?_)
      simp [Instr.flatten, hop]
  | @ifElse C instrs thenBody elseBody bt ft ts u _ ht _ _ ih ihthen ihelse =>
      subst hC
      rw [flattenAll_concat] at hlimit ⊢
      obtain ⟨block, hblock, rfl⟩ := contextOf_blockType ht
      refine (ih rfl (hlimit.subset fun _ => List.mem_append_left _)).append
        (.ifElse hblock ?_ ?_)
      · refine ihthen rfl (hlimit.subset fun op hop => List.mem_append_right _ ?_)
        simp [Instr.flatten, hop]
      · refine ihelse rfl (hlimit.subset fun op hop => List.mem_append_right _ ?_)
        simp [Instr.flatten, hop]
  | @ifThen C instrs thenBody bt ft ts u _ ht _ helse ih ihthen _ =>
      subst hC
      rw [flattenAll_concat] at hlimit ⊢
      obtain ⟨block, hblock, rfl⟩ := contextOf_blockType ht
      have hsame := List.reverse_inj.mp (helse.of_nil rfl)
      refine (ih rfl (hlimit.subset fun _ => List.mem_append_left _)).append
        (.ifThen hblock hsame ?_)
      refine ihthen rfl (hlimit.subset fun op hop => List.mem_append_right _ ?_)
      simp [Instr.flatten, hop]

/-- The state at the entry of a function. -/
theorem Ready.enter : Ready fnc [⟨.func, fnc.sigIndex, []⟩] (enterFunction fnc) where
  holds := .cons (Level.heldBy_frame _) .nil
  mirrors := rfl
  nested := .func rfl rfl
  running := rfl

/-- The `end` of a function. -/
theorem parseFunctionBody_end {pos : ℕ}
    (h : Ready fnc [⟨.func, fnc.sigIndex, (m.signature fnc.sigIndex).results.reverse⟩] s) :
    (parseFunctionBody m fnc constantCondition pos [.end_] s).isOk = true := by
  obtain ⟨v, hv, -⟩ := validateEnd_returns_func h.holds
  have hblocks : s.blocks = [] := List.map_eq_nil_iff.mp h.mirrors
  have hend : processEnd m s =
      .ok { s with validationStack := v, properlyTerminated := true } := by
    refine bind_eq_ok.mpr ⟨_, validate_eq_ok.mpr ⟨v, hv, rfl⟩, ?_⟩
    dsimp only
    rw [hblocks]
  rw [parseFunctionBody, h.running, if_neg Bool.false_ne_true, processOpCode, hend]
  rfl

/-- **Completeness of validation**: the opcode loop accepts every well-typed body whose
branch tables are no longer than the implementation allows, whatever conditions of it are
constants for the code generator. -/
theorem accepts_of_wellTyped (m : ModuleInfo) (fnc : FunctionInfo)
    (constantCondition : ℕ → Option Bool) (ops : List OPCode) (h : WellTyped m fnc ops)
    (hlimit : WithinLimits ops) : accepts m fnc constantCondition ops = true := by
  obtain ⟨body, rfl, htyped⟩ := h
  have hruns : Runs m fnc constantCondition (flattenAll body) [⟨.func, fnc.sigIndex, []⟩]
      [⟨.func, fnc.sigIndex, (m.signature fnc.sigIndex).results.reverse⟩] :=
    htyped.runs rfl (hlimit.subset fun _ => List.mem_append_left _)
  obtain ⟨s', hs', hrun⟩ := hruns 0 _ .enter
  rw [accepts, hrun]
  exact parseFunctionBody_end hs'

/-! ### Dead code -/

/-- A module with a function from `i64` to `i64`. -/
def deadCodeModule : ModuleInfo where
  types := [.signature ⟨[.i64], [.i64]⟩]
  forward_signature := by simp
  functions := [0]
  functions_signature := by simp
  globals := []
  hasTable := false
  hasMemory := false

/-- Its function. -/
def deadCodeFunction : FunctionInfo where
  sigIndex := 0
  localDefs := [.i64]

/-- Code after `unreachable`, `br`, `br_table` and `return`, in which the result of a
`select` becomes the value of a local and the parameter of a block. -/
def deadCode : List Instr :=
  [.block (.value .i32)
    [.plain .unreachable, .plain .select, .plain (.localTee 0), .plain (.const .i32),
      .plain .select, .block (.index 0)
        [.plain .drop, .plain (.const .i64), .plain (.br 0), .plain .select],
      .plain (.localSet 0), .plain .select, .plain (.brIf 0), .plain (.brTable [0, 0] 0),
      .plain .select],
    .plain .drop, .plain (.localGet 0), .plain .return_, .plain .select]

/-- This body is accepted. -/
theorem accepts_of_wellTyped_deadCode :
    accepts deadCodeModule deadCodeFunction (fun _ => some true)
      (flattenAll deadCode ++ [.end_]) = true := by
  have hwellTyped : WellTyped deadCodeModule deadCodeFunction (flattenAll deadCode ++ [.end_]) :=
    @accepts_balanced _ _ (fun _ => none) _ (by decide) (by decide)
  refine accepts_of_wellTyped _ _ _ _ hwellTyped fun branchDepths defaultDepth h => ?_
  obtain ⟨rfl, rfl⟩ : branchDepths = [0, 0] ∧ defaultDepth = 0 := by
    simpa [deadCode, flattenAll, Instr.flatten] using h
  decide

end WasmCompiler
