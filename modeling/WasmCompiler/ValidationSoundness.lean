import WasmCompiler.ValidationTyping

/-!
# Soundness of Validation

The invariant of the opcode loop over a function body (`Sound`). The opcodes processed so
far are a function body with blocks left open (`Built`): each open block holds instructions
typed from its parameters to every operand stack its frame stands for, and in the block
around it these parameters have been taken. Ending a block closes it into one instruction.
Where the loop compares less than the typing rules do, the body has to be balanced: an `if`
without `else` has equal parameter and result types, and the labels of a `br_table` have the
same types. Since a well-typed body is balanced, an accepted body is well typed exactly when
it is balanced.

## Main results

* `Built.append`: instructions added to the innermost open block.
* `Sound.step`: one opcode keeps the invariant.
* `Sound.run`: an accepted and balanced body is well typed.
* `accepts_wellTyped_iff_balanced`: an accepted body is well typed exactly when it is
  balanced.
-/

namespace WasmCompiler

open ValidationStack FrontendState Frontend

variable {m : ModuleInfo} {fnc : FunctionInfo}

/-- A function body, with the `end` that closes it, that the typing rules accept. -/
def WellTyped (m : ModuleInfo) (fnc : FunctionInfo) (ops : List OPCode) : Prop :=
  ∃ body, ops = flattenAll body ++ [.end_] ∧
    Typed (m.context fnc) body [] (m.signature fnc.sigIndex).results.reverse

/-- In a function body, every `if` without `else` has equal parameter and result types, and
the labels of every `br_table` have the same types. -/
def balanced (m : ModuleInfo) (fnc : FunctionInfo) (ops : List OPCode) : Bool :=
  balancedFrom (m.context fnc) [⟨.func, m.signature fnc.sigIndex⟩] ops

/-! ### Bodies with open blocks -/

/-- The instructions of the innermost open block: from `start` they leave `extra` on top of
any stack the frame stands for. -/
def Filled (m : ModuleInfo) (fnc : FunctionInfo) (f : Frame) (fs : ValidationStack)
    (instrs : List Instr) (start extra : List WasmType) : Prop :=
  ∀ ts, f.StandsFor ts → Typed (stackContext m fnc (f :: fs)) instrs start (extra ++ ts)

/-- The opcodes `ops` open the blocks of a validation stack. `extra` are the operands that
the next block takes from the innermost one. -/
inductive Built (m : ModuleInfo) (fnc : FunctionInfo) :
    ValidationStack → List OPCode → List WasmType → Prop where
  | func {f : Frame} {instrs : List Instr} {extra : List WasmType} (hk : f.kind = .func)
      (hs : f.sigIndex = fnc.sigIndex) (h : Filled m fnc f [] instrs [] extra) :
      Built m fnc [f] (flattenAll instrs) extra
  | block {f : Frame} {fs : ValidationStack} {ops : List OPCode} {bt : BlockType}
      {instrs : List Instr} {extra : List WasmType} (hk : f.kind = .block)
      (ht : m.blockSigIndex bt = .ok f.sigIndex)
      (outer : Built m fnc fs ops (m.signature f.sigIndex).params.reverse)
      (h : Filled m fnc f fs instrs (m.signature f.sigIndex).params.reverse extra) :
      Built m fnc (f :: fs) (ops ++ .block bt :: flattenAll instrs) extra
  | loop {f : Frame} {fs : ValidationStack} {ops : List OPCode} {bt : BlockType}
      {instrs : List Instr} {extra : List WasmType} (hk : f.kind = .loop)
      (ht : m.blockSigIndex bt = .ok f.sigIndex)
      (outer : Built m fnc fs ops (m.signature f.sigIndex).params.reverse)
      (h : Filled m fnc f fs instrs (m.signature f.sigIndex).params.reverse extra) :
      Built m fnc (f :: fs) (ops ++ .loop bt :: flattenAll instrs) extra
  | ifThen {f : Frame} {fs : ValidationStack} {ops : List OPCode} {bt : BlockType}
      {instrs : List Instr} {extra : List WasmType}
      (hk : f.kind = .if_ (some ((m.signature f.sigIndex).params.reverse.map .number)))
      (ht : m.blockSigIndex bt = .ok f.sigIndex)
      (outer : Built m fnc fs ops (.i32 :: (m.signature f.sigIndex).params.reverse))
      (h : Filled m fnc f fs instrs (m.signature f.sigIndex).params.reverse extra) :
      Built m fnc (f :: fs) (ops ++ .if_ bt :: flattenAll instrs) extra
  | ifElse {f : Frame} {fs : ValidationStack} {ops : List OPCode} {bt : BlockType}
      {thenBody instrs : List Instr} {extra : List WasmType} (hk : f.kind = .if_ none)
      (ht : m.blockSigIndex bt = .ok f.sigIndex)
      (outer : Built m fnc fs ops (.i32 :: (m.signature f.sigIndex).params.reverse))
      (hthen : Typed ((stackContext m fnc fs).withLabel (m.signature f.sigIndex).results)
        thenBody (m.signature f.sigIndex).params.reverse
        (m.signature f.sigIndex).results.reverse)
      (h : Filled m fnc f fs instrs (m.signature f.sigIndex).params.reverse extra) :
      Built m fnc (f :: fs)
        (ops ++ .if_ bt :: (flattenAll thenBody ++ .else_ :: flattenAll instrs)) extra

/-- The function frame lies at the bottom. -/
theorem Built.getLast {s : ValidationStack} {ops : List OPCode} {extra : List WasmType}
    (h : Built m fnc s ops extra) :
    ∃ g, s.getLast? = some g ∧ g.kind = .func ∧ g.sigIndex = fnc.sigIndex := by
  induction h with
  | func hk hs _ => exact ⟨_, rfl, hk, hs⟩
  | block _ _ _ _ ih | loop _ _ _ _ ih | ifThen _ _ _ _ ih | ifElse _ _ _ _ _ ih =>
      obtain ⟨g, hg, hrest⟩ := ih
      exact ⟨g, by rw [List.getLast?_cons, hg]; rfl, hrest⟩

/-- A built stack is not empty. -/
theorem Built.ne_nil {s : ValidationStack} {ops : List OPCode} {extra : List WasmType}
    (h : Built m fnc s ops extra) : s ≠ [] := by
  cases h <;> exact List.cons_ne_nil _ _

/-- **Instructions added to the innermost open block**, whose operands change with them. -/
theorem Built.append {f f' : Frame} {fs : ValidationStack} {ops : List OPCode}
    {extra extra' : List WasmType} (h : Built m fnc (f :: fs) ops extra)
    (hk : f'.kind = f.kind) (hs : f'.sigIndex = f.sigIndex) (added : List Instr)
    (hadded : ∀ instrs start, Filled m fnc f fs instrs start extra →
      Filled m fnc f' fs (instrs ++ added) start extra') :
    Built m fnc (f' :: fs) (ops ++ flattenAll added) extra' := by
  cases h with
  | @func _ instrs _ hkind hsig hfilled =>
      rw [← flattenAll_append]
      exact .func (hk.trans hkind) (hs.trans hsig) (hadded _ _ hfilled)
  | @block _ _ ops bt instrs _ hkind ht outer hfilled =>
      rw [List.append_assoc, List.cons_append, ← flattenAll_append]
      rw [← hs] at ht outer hfilled
      exact .block (hk.trans hkind) ht outer (hadded _ _ hfilled)
  | @loop _ _ ops bt instrs _ hkind ht outer hfilled =>
      rw [List.append_assoc, List.cons_append, ← flattenAll_append]
      rw [← hs] at ht outer hfilled
      exact .loop (hk.trans hkind) ht outer (hadded _ _ hfilled)
  | @ifThen _ _ ops bt instrs _ hkind ht outer hfilled =>
      rw [List.append_assoc, List.cons_append, ← flattenAll_append]
      rw [← hs] at hkind ht outer hfilled
      exact .ifThen (hk.trans hkind) ht outer (hadded _ _ hfilled)
  | @ifElse _ _ ops bt thenBody instrs _ hkind ht outer hthen hfilled =>
      rw [List.append_assoc, List.cons_append, List.append_assoc, List.cons_append,
        ← flattenAll_append]
      rw [← hs] at ht outer hthen hfilled
      exact .ifElse (hk.trans hkind) ht outer hthen (hadded _ _ hfilled)

/-- Operands the next block takes. -/
theorem Built.take {s s' : ValidationStack} {ops : List OPCode} {a : List WasmType}
    (h : Built m fnc s ops []) (hpops : Pops s s' a) : Built m fnc s' ops a := by
  obtain ⟨f, f', fs, rfl, rfl, hsame, hstands⟩ := hpops
  have happend : Built m fnc (f' :: fs) (ops ++ flattenAll []) a :=
    h.append hsame.kind hsame.sigIndex [] fun instrs start hfilled ts hts => by
      rw [List.append_nil, stackContext_eq hsame.kind hsame.sigIndex]
      exact hfilled _ (hstands ts hts)
  simpa [flattenAll] using happend

/-- An instruction without nested instructions. -/
theorem Built.plain {s s' : ValidationStack} {ops : List OPCode} {p : Plain}
    (h : Built m fnc s ops []) (hstep : PlainStep (stackContext m fnc s) p s s') :
    Built m fnc s' (ops ++ [.plain p]) [] := by
  obtain ⟨f, f', fs, rfl, rfl, hk, hs, hstands⟩ := hstep
  have happend : Built m fnc (f' :: fs) (ops ++ flattenAll [.plain p]) [] :=
    h.append hk hs [.plain p] fun instrs start hfilled ts' hts' => by
      obtain ⟨a, b, ts, hp, rfl, hts⟩ := hstands ts' hts'
      have htyped : Typed (stackContext m fnc (f :: fs)) instrs start (a ++ ts) := hfilled _ hts
      rw [stackContext_eq hk hs]
      exact htyped.plain hp
  simpa [flattenAll, Instr.flatten] using happend

/-- **A block that ends** becomes one instruction of the block around it. -/
theorem Built.close {s s' : ValidationStack} {ops : List OPCode} {a b : List WasmType}
    (h : Built m fnc s ops a) (instr : Instr) (hpush : Pushes s s' b)
    (htyped : ∀ instrs start u, Typed (stackContext m fnc s) instrs start (a ++ u) →
      Typed (stackContext m fnc s) (instrs ++ [instr]) start (b ++ u)) :
    Built m fnc s' (ops ++ instr.flatten) [] := by
  obtain ⟨f, f', fs, rfl, rfl, hsame, hstands⟩ := hpush
  have happend : Built m fnc (f' :: fs) (ops ++ flattenAll [instr]) [] :=
    h.append hsame.kind hsame.sigIndex [instr] fun instrs start hfilled ts' hts' => by
      obtain ⟨ts, rfl, hts⟩ := hstands ts' hts'
      rw [stackContext_eq hsame.kind hsame.sigIndex]
      exact htyped _ _ _ (hfilled _ hts)
  simpa [flattenAll] using happend

/-! ### Block boundaries -/

/-- The context inside a block. -/
theorem stackContext_cons (f : Frame) (fs : ValidationStack) :
    stackContext m fnc (f :: fs) = (stackContext m fnc fs).withLabel (f.label m) := rfl

/-- The label of a frame that is no loop. -/
theorem Frame.label_of_ne_loop {f : Frame} (h : f.kind ≠ .loop) :
    f.label m = (m.signature f.sigIndex).results := by
  rw [Frame.label]
  split
  · exact absurd ‹_› h
  · rfl

/-- A new block holds no instruction, and its parameters. -/
theorem filled_params {f : Frame} {fs : ValidationStack} {types : List WasmType}
    (hu : f.formallyUnreachable = false) (ho : f.operands = types.map .number) :
    Filled m fnc f fs [] types [] := by
  intro ts hts
  rw [Frame.StandsFor, ho, hu, ← List.append_nil (types.map _)] at hts
  obtain ⟨ts', rfl, hts'⟩ := hts.numbers
  cases hts' with
  | base h =>
      obtain rfl : ts' = [] := by simpa using h
      rw [List.append_nil, List.nil_append]
      exact .empty

/-- The signature of a block type is the typing rules' function type. -/
theorem stackContext_blockType {s : ValidationStack} {bt : BlockType} {sigIndex : ℕ}
    (h : m.blockSigIndex bt = .ok sigIndex) :
    (stackContext m fnc s).blockType bt = some (m.signature sigIndex) := by
  rw [← ModuleInfo.blockSigIndex_eq h fnc]
  cases bt <;> rfl

/-- Beginning a block. -/
theorem validateAndPrepareBlock_spec {s s' : ValidationStack} {ops : List OPCode}
    {bt : BlockType} {sigIndex : ℕ} (h : Built m fnc s ops [])
    (ht : m.blockSigIndex bt = .ok sigIndex)
    (hv : validateAndPrepareBlock m sigIndex s = .ok s') :
    ∃ f below, s' = f :: below ∧ f.kind = .block ∧ f.sigIndex = sigIndex ∧
      (∃ a, Pops s below a) ∧ Built m fnc s' (ops ++ [.block bt]) [] := by
  obtain ⟨⟨params, below⟩, hvisit, hv⟩ := bind_eq_ok.mp hv
  cases hv
  obtain ⟨rfl, hpops⟩ := validateTypes_spec hvisit
  exact ⟨_, below, rfl, rfl, rfl, ⟨_, hpops⟩,
    .block rfl ht (h.take hpops) (filled_params rfl rfl)⟩

/-- Beginning a loop. -/
theorem validateAndPrepareLoop_spec {s s' : ValidationStack} {ops : List OPCode}
    {bt : BlockType} {sigIndex : ℕ} (h : Built m fnc s ops [])
    (ht : m.blockSigIndex bt = .ok sigIndex)
    (hv : validateAndPrepareLoop m sigIndex s = .ok s') :
    ∃ f below, s' = f :: below ∧ f.kind = .loop ∧ f.sigIndex = sigIndex ∧
      (∃ a, Pops s below a) ∧ Built m fnc s' (ops ++ [.loop bt]) [] := by
  obtain ⟨⟨params, below⟩, hvisit, hv⟩ := bind_eq_ok.mp hv
  cases hv
  obtain ⟨rfl, hpops⟩ := validateTypes_spec hvisit
  exact ⟨_, below, rfl, rfl, rfl, ⟨_, hpops⟩,
    .loop rfl ht (h.take hpops) (filled_params rfl rfl)⟩

/-- Beginning an `if`. -/
theorem validateAndPrepareIfBlock_spec {s s' : ValidationStack} {ops : List OPCode}
    {bt : BlockType} {sigIndex : ℕ} (h : Built m fnc s ops [])
    (ht : m.blockSigIndex bt = .ok sigIndex)
    (hv : validateAndPrepareIfBlock m sigIndex s = .ok s') :
    ∃ f below params, s' = f :: below ∧ f.kind = .if_ (some params) ∧ f.sigIndex = sigIndex ∧
      (∃ a, Pops s below a) ∧ Built m fnc s' (ops ++ [.if_ bt]) [] := by
  obtain ⟨s₁, hcond, hv⟩ := bind_eq_ok.mp hv
  obtain ⟨⟨params, below⟩, hvisit, hv⟩ := bind_eq_ok.mp hv
  cases hv
  obtain ⟨rfl, hpops⟩ := validateTypes_spec hvisit
  have hall := (validateLastNumberType_pop hcond).trans hpops
  exact ⟨_, below, _, rfl, rfl, rfl, ⟨_, hall⟩,
    .ifThen rfl ht (h.take hall) (filled_params rfl rfl)⟩

/-- A frame that is left with no operands had exactly the results taken from it. -/
theorem Filled.finished {f f' : Frame} {fs : ValidationStack} {instrs : List Instr}
    {start results : List WasmType} (h : Filled m fnc f fs instrs start [])
    (hpops : Pops (f :: fs) (f' :: fs) results) (hempty : f'.operands = []) :
    Typed (stackContext m fnc (f :: fs)) instrs start results := by
  obtain ⟨g, g', gs, hg, hg', -, hstands⟩ := hpops
  obtain ⟨rfl, rfl⟩ := List.cons.inj hg
  obtain ⟨rfl, -⟩ := List.cons.inj hg'
  have hnil : f'.StandsFor [] := by
    rw [Frame.StandsFor, hempty]
    exact .base (Or.inr rfl)
  simpa using h _ (hstands [] hnil)

/-- An `else` goes on with a frame whose `if` branch is done. -/
theorem validateElse_spec {s s' : ValidationStack} {ops : List OPCode}
    (h : Built m fnc s ops []) (hv : validateElse m s = .ok s') :
    ∃ f f' fs params, s = f :: fs ∧ s' = f' :: fs ∧ f.kind = .if_ (some params) ∧
      f'.kind = .if_ none ∧ f'.sigIndex = f.sigIndex ∧ Built m fnc s' (ops ++ [.else_]) [] := by
  cases h with
  | func hk _ _ | block hk _ _ _ | loop hk _ _ _ =>
      rw [validateElse, hk] at hv
      cases hv
  | ifElse hk _ _ _ _ =>
      rw [validateElse, hk] at hv
      obtain ⟨s₁, -, hv⟩ := bind_eq_ok.mp hv
      split at hv <;> simp_all
  | @ifThen f fs ops bt instrs _ hk ht outer hfilled =>
      rw [validateElse, hk] at hv
      obtain ⟨s₁, hs₁, hv⟩ := bind_eq_ok.mp hv
      have hpops := popResults_spec hs₁
      obtain ⟨g, f₁, gs, hg, rfl, hsame, -⟩ := id hpops
      obtain ⟨rfl, rfl⟩ := List.cons.inj hg
      dsimp only at hv
      split at hv
      · rename_i hempty
        cases hv
        refine ⟨f, _, fs, _, rfl, rfl, hk, rfl, hsame.sigIndex, ?_⟩
        have hthen := hfilled.finished hpops hempty
        rw [stackContext_cons, Frame.label_of_ne_loop (by simp [hk])] at hthen
        rw [← hsame.sigIndex] at ht outer hthen
        have hops : ops ++ .if_ bt :: flattenAll instrs ++ [.else_] =
            ops ++ .if_ bt :: (flattenAll instrs ++ .else_ :: flattenAll []) := by
          simp [flattenAll]
        rw [hops]
        refine .ifElse rfl ht outer hthen (filled_params rfl ?_)
        rw [hsame.sigIndex]
      · cases hv

/-- Validating an `end` leaves a frame with exactly the results. -/
theorem validateEnd_eq_ok {f : Frame} {fs s' : ValidationStack}
    (hv : validateEnd m (f :: fs) = .ok s') :
    ∃ f', Pops (f :: fs) (f' :: fs) (m.signature f.sigIndex).results.reverse ∧
      f'.operands = [] ∧ f'.kind = f.kind ∧
      (f.kind = .func ∨ s' = restore ((m.signature f.sigIndex).results.reverse.map .number) fs) := by
  obtain ⟨⟨results, below⟩, hvisit, hv⟩ := bind_eq_ok.mp hv
  obtain ⟨rfl, hpops⟩ := validateTypes_spec hvisit
  obtain ⟨g, f', gs, hg, rfl, hsame, -⟩ := id hpops
  obtain ⟨rfl, rfl⟩ := List.cons.inj hg
  dsimp only at hv
  split at hv
  · exact nomatch hv
  · rename_i hempty
    refine ⟨f', hpops, by simpa using hempty, hsame.kind, ?_⟩
    split at hv
    · rename_i hk
      exact Or.inl (hsame.kind ▸ hk)
    · exact Or.inr (Except.ok.inj hv).symm

/-- The `end` of the function ends its body. -/
theorem validateEnd_func {f : Frame} {fs s' : ValidationStack} {ops : List OPCode}
    (h : Built m fnc (f :: fs) ops []) (hk : f.kind = .func)
    (hv : validateEnd m (f :: fs) = .ok s') : WellTyped m fnc (ops ++ [.end_]) := by
  obtain ⟨f', hpops, hempty, -, -⟩ := validateEnd_eq_ok hv
  cases h with
  | @func _ instrs _ _ hs hfilled =>
      have htyped := hfilled.finished hpops hempty
      rw [stackContext_cons, Frame.label_of_ne_loop (by simp [hk]), hs] at htyped
      exact ⟨instrs, rfl, htyped⟩
  | block hk' _ _ _ | loop hk' _ _ _ | ifThen hk' _ _ _ | ifElse hk' _ _ _ _ =>
      rw [hk] at hk'
      exact nomatch hk'

/-- The `end` of a block makes it one instruction; an `if` that ends without `else` has
equal parameter and result types. -/
theorem validateEnd_block {f : Frame} {fs s' : ValidationStack} {ops : List OPCode}
    (h : Built m fnc (f :: fs) ops []) (hk : f.kind ≠ .func)
    (hbal : balancedAt ((f :: fs).map (Frame.openBlock m)) .end_ = true)
    (hv : validateEnd m (f :: fs) = .ok s') :
    (∃ b, Pushes fs s' b) ∧ Built m fnc s' (ops ++ [.end_]) [] := by
  obtain ⟨f', hpops, hempty, -, hfunc | rfl⟩ := validateEnd_eq_ok hv
  · exact absurd hfunc hk
  have hpush : fs ≠ [] → Pushes fs
      (restore ((m.signature f.sigIndex).results.reverse.map .number) fs)
      (m.signature f.sigIndex).results.reverse := by
    intro hne
    obtain ⟨g, gs, rfl⟩ := List.exists_cons_of_ne_nil hne
    exact restore_spec _
  cases h with
  | func hk' _ _ => exact absurd hk' hk
  | @block _ _ ops bt instrs _ hk' ht outer hfilled =>
      have hbody := hfilled.finished hpops hempty
      rw [stackContext_cons, Frame.label_of_ne_loop (by simp [hk'])] at hbody
      have hpush := hpush outer.ne_nil
      refine ⟨⟨_, hpush⟩, ?_⟩
      have hclose := outer.close (.block bt instrs) hpush fun _ _ _ hs =>
        .block hs (stackContext_blockType ht) hbody
      simpa [Instr.flatten] using hclose
  | @loop _ _ ops bt instrs _ hk' ht outer hfilled =>
      have hbody := hfilled.finished hpops hempty
      rw [stackContext_cons, Frame.label, hk'] at hbody
      have hpush := hpush outer.ne_nil
      refine ⟨⟨_, hpush⟩, ?_⟩
      have hclose := outer.close (.loop bt instrs) hpush fun _ _ _ hs =>
        .loop hs (stackContext_blockType ht) hbody
      simpa [Instr.flatten] using hclose
  | @ifThen _ _ ops bt instrs _ hk' ht outer hfilled =>
      have hbody := hfilled.finished hpops hempty
      rw [stackContext_cons, Frame.label_of_ne_loop (by simp [hk'])] at hbody
      have hpush := hpush outer.ne_nil
      have hsame : (m.signature f.sigIndex).params = (m.signature f.sigIndex).results := by
        simpa [balancedAt, Frame.openBlock, hk'] using hbal
      refine ⟨⟨_, hpush⟩, ?_⟩
      have hclose := outer.close (.ifThen bt instrs) hpush fun _ _ _ hs =>
        .ifThen hs (stackContext_blockType ht) hbody (by rw [hsame]; exact .empty)
      simpa [Instr.flatten] using hclose
  | @ifElse _ _ ops bt thenBody instrs _ hk' ht outer hthen hfilled =>
      have hbody := hfilled.finished hpops hempty
      rw [stackContext_cons, Frame.label_of_ne_loop (by simp [hk'])] at hbody
      have hpush := hpush outer.ne_nil
      refine ⟨⟨_, hpush⟩, ?_⟩
      have hclose := outer.close (.ifElse bt thenBody instrs) hpush fun _ _ _ hs =>
        .ifElse hs (stackContext_blockType ht) hthen hbody
      simpa [Instr.flatten] using hclose

/-! ### The loop's invariant -/

/-- The block references of a frame: an `if` without `else` is a block around an
if-block. -/
def Frame.blockKeys (f : Frame) : List (BlockReferenceKind × ℕ) :=
  match f.kind with
  | .func => []
  | .block => [(.block, f.sigIndex)]
  | .loop => [(.loop, f.sigIndex)]
  | .if_ (some _) => [(.ifblock, f.sigIndex), (.block, f.sigIndex)]
  | .if_ none => [(.block, f.sigIndex)]

/-- Two stacks with the same structural elements. -/
structure SameShape (m : ModuleInfo) (s s' : ValidationStack) : Prop where
  openBlocks : s'.map (Frame.openBlock m) = s.map (Frame.openBlock m)
  blockKeys : s'.flatMap Frame.blockKeys = s.flatMap Frame.blockKeys

/-- Frames that differ in their operands only. -/
theorem SameShape.of_cons {f f' : Frame} {fs : ValidationStack} (hk : f'.kind = f.kind)
    (hs : f'.sigIndex = f.sigIndex) : SameShape m (f :: fs) (f' :: fs) where
  openBlocks := by
    rw [List.map_cons, List.map_cons, Frame.openBlock, Frame.openBlock, hk, hs]
  blockKeys := by
    rw [List.flatMap_cons, List.flatMap_cons, Frame.blockKeys, Frame.blockKeys, hk, hs]

/-- Taking operands. -/
theorem Pops.sameShape {s s' : ValidationStack} {a : List WasmType} (h : Pops s s' a) :
    SameShape m s s' := by
  obtain ⟨f, f', fs, rfl, rfl, hsame, -⟩ := h
  exact .of_cons hsame.kind hsame.sigIndex

/-- Leaving results. -/
theorem Pushes.sameShape {s s' : ValidationStack} {b : List WasmType} (h : Pushes s s' b) :
    SameShape m s s' := by
  obtain ⟨f, f', fs, rfl, rfl, hsame, -⟩ := h
  exact .of_cons hsame.kind hsame.sigIndex

/-- An instruction without nested instructions. -/
theorem PlainStep.sameShape {C : Context} {p : Plain} {s s' : ValidationStack}
    (h : PlainStep C p s s') : SameShape m s s' := by
  obtain ⟨f, f', fs, rfl, rfl, hk, hs, -⟩ := h
  exact .of_cons hk hs

/-- The invariant of the loop while the function's `end` has not been met. -/
structure Sound (m : ModuleInfo) (fnc : FunctionInfo) (s : FrontendState)
    (ops : List OPCode) : Prop where
  built : Built m fnc s.validationStack ops []
  /-- The block references of code generation are those of the validation stack. -/
  mirrors : s.blockKeys = s.validationStack.flatMap Frame.blockKeys
  running : s.properlyTerminated = false

/-- The invariant holds at the entry of a function. -/
theorem Sound.enter : Sound m fnc (enterFunction fnc) [] where
  built := .func rfl rfl (filled_params rfl rfl)
  mirrors := rfl
  running := rfl

/-- What is left to do after an opcode: either the function goes on, or its body is
complete. -/
def Advances (m : ModuleInfo) (fnc : FunctionInfo) (s s' : FrontendState) (op : OPCode)
    (ops : List OPCode) : Prop :=
  (Sound m fnc s' (ops ++ [op]) ∧ s'.validationStack.map (Frame.openBlock m) =
      openAfter (m.context fnc) (s.validationStack.map (Frame.openBlock m)) op) ∨
    (WellTyped m fnc (ops ++ [op]) ∧ s'.properlyTerminated = true)

/-- Beginning a block pushes its block references. -/
theorem Sound.begin {s s' : FrontendState} {ops : List OPCode} {op : OPCode} {f : Frame}
    {below : ValidationStack} {bt : BlockType} {a : List WasmType} (h : Sound m fnc s ops)
    (references : List BlockReference) (ht : m.blockSigIndex bt = .ok f.sigIndex)
    (hpops : Pops s.validationStack below a)
    (hbuilt : Built m fnc (f :: below) (ops ++ [op]) [])
    (hs' : s' = { s with validationStack := f :: below, blocks := references ++ s.blocks })
    (hreferences : references.map (fun b => (b.kind, b.sigIndex)) = f.blockKeys)
    (hopen : ∀ open_, openAfter (m.context fnc) open_ op =
      ⟨(f.openBlock m).kind, ((m.context fnc).blockType bt).getD ⟨[], []⟩⟩ :: open_) :
    Advances m fnc s s' op ops := by
  subst hs'
  have hshape := @Pops.sameShape m _ _ _ hpops
  refine Or.inl ⟨⟨hbuilt, ?_, h.running⟩, ?_⟩
  · have hmirrors := h.mirrors
    simp only [FrontendState.blockKeys] at hmirrors ⊢
    rw [List.map_append, hreferences, hmirrors, List.flatMap_cons, hshape.blockKeys]
  · rw [hopen, ModuleInfo.blockSigIndex_eq ht, List.map_cons, hshape.openBlocks]
    rfl

/-- An `else` leaves the if-block for the block around it. -/
theorem Sound.else_ {c : Option Bool} {s s' : FrontendState} {ops : List OPCode}
    (h : Sound m fnc s ops) (hop : processOpCode m fnc c s .else_ = .ok s') :
    Advances m fnc s s' .else_ ops := by
  obtain ⟨s₁, hs₁, hop⟩ := bind_eq_ok.mp hop
  obtain ⟨v, hv, rfl⟩ := validate_eq_ok.mp hs₁
  cases hop
  obtain ⟨f, f', fs, params, hstack, rfl, hk, hk', hsig, hbuilt⟩ := validateElse_spec h.built hv
  have hmirrors := h.mirrors
  rw [hstack, List.flatMap_cons, Frame.blockKeys, hk] at hmirrors
  refine Or.inl ⟨⟨hbuilt, ?_, h.running⟩, ?_⟩
  · simp only [FrontendState.blockKeys] at hmirrors ⊢
    rw [List.map_tail, hmirrors, List.flatMap_cons, Frame.blockKeys, hk', hsig]
    rfl
  · simp only [hstack, List.map_cons, openAfter, List.cons.injEq, and_true]
    simp [Frame.openBlock, hk, hk', hsig]

/-- Only the function frame has no block reference. -/
theorem Frame.blockKeys_eq_nil {f : Frame} (h : f.blockKeys = []) : f.kind = .func := by
  obtain ⟨kind, sigIndex, u, vs⟩ := f
  cases kind with
  | func => rfl
  | if_ elseParams => cases elseParams <;> exact nomatch h
  | _ => exact nomatch h

/-- The function frame is the only one of its kind. -/
theorem Built.eq_nil {f : Frame} {fs : ValidationStack} {ops : List OPCode}
    {extra : List WasmType} (h : Built m fnc (f :: fs) ops extra) (hk : f.kind = .func) :
    fs = [] := by
  cases h with
  | func _ _ _ => rfl
  | block hk' _ _ _ | loop hk' _ _ _ | ifThen hk' _ _ _ | ifElse hk' _ _ _ _ =>
      rw [hk] at hk'
      exact nomatch hk'

/-- What is left of the block references when a block ends. -/
theorem processEnd_blocks {s s' : FrontendState} {f : Frame}
    {rest : List (BlockReferenceKind × ℕ)} (hkeys : s.blockKeys = f.blockKeys ++ rest)
    (hk : f.kind ≠ .func) (hop : processEnd m s = .ok s') :
    s'.blockKeys = rest ∧ s'.properlyTerminated = s.properlyTerminated := by
  obtain ⟨s₁, hs₁, hop⟩ := bind_eq_ok.mp hop
  obtain ⟨v, hv, rfl⟩ := validate_eq_ok.mp hs₁
  simp only [FrontendState.blockKeys] at hkeys ⊢
  obtain ⟨kind, sigIndex, u, vs⟩ := f
  dsimp only at hop
  split at hop
  · rename_i hblocks
    rw [hblocks, List.map_nil, eq_comm, List.append_eq_nil_iff] at hkeys
    exact absurd (Frame.blockKeys_eq_nil hkeys.1) hk
  · rename_i hblocks
    cases hop
    rw [hblocks] at hkeys
    cases kind with
    | if_ elseParams => cases elseParams <;> simp_all [Frame.blockKeys]
    | _ => simp_all [Frame.blockKeys]
  · rename_i hblocks
    cases hop
    rw [hblocks] at hkeys
    cases kind with
    | if_ elseParams => cases elseParams <;> simp_all [Frame.blockKeys]
    | _ => simp_all [Frame.blockKeys]
  · rename_i hblocks
    split at hop
    · cases hop
    · cases hop
      rw [hblocks] at hkeys
      cases kind with
      | if_ elseParams => cases elseParams <;> simp_all [Frame.blockKeys]
      | _ => simp_all [Frame.blockKeys]

/-- An `end` closes the innermost block, or ends the function. -/
theorem Sound.end_ {c : Option Bool} {s s' : FrontendState} {ops : List OPCode}
    (h : Sound m fnc s ops) (hop : processOpCode m fnc c s .end_ = .ok s')
    (hbal : balancedAt (s.validationStack.map (Frame.openBlock m)) .end_ = true) :
    Advances m fnc s s' .end_ ops := by
  obtain ⟨f, fs, hstack⟩ := List.exists_cons_of_ne_nil h.built.ne_nil
  have hbuilt := h.built
  have hmirrors := h.mirrors
  rw [hstack] at hbuilt hmirrors hbal
  rw [List.flatMap_cons] at hmirrors
  have hend : processEnd m s = .ok s' := hop
  obtain ⟨s₁, hs₁, hop⟩ := bind_eq_ok.mp hend
  obtain ⟨v, hv, rfl⟩ := validate_eq_ok.mp hs₁
  rw [hstack] at hv
  by_cases hk : f.kind = .func
  · obtain rfl := hbuilt.eq_nil hk
    have hblocks : s.blocks = [] := by
      simpa [FrontendState.blockKeys, Frame.blockKeys, hk] using hmirrors
    simp only [hblocks] at hop
    cases hop
    exact Or.inr ⟨validateEnd_func hbuilt hk hv, rfl⟩
  · obtain ⟨⟨b, hpush⟩, hbuilt'⟩ := validateEnd_block hbuilt hk hbal hv
    obtain ⟨hkeys', hrunning⟩ := processEnd_blocks hmirrors hk hend
    have hshape := @Pushes.sameShape m _ _ _ hpush
    have hstack' : s'.validationStack = v := by
      split at hop
      · cases hop
        rfl
      · cases hop
        rfl
      · cases hop
        rfl
      · split at hop
        · cases hop
        · cases hop
          rfl
    refine Or.inl ⟨⟨hstack' ▸ hbuilt', ?_, hrunning.trans h.running⟩, ?_⟩
    · rw [hkeys', hstack', hshape.blockKeys]
    · rw [hstack', hshape.openBlocks, hstack]
      rfl

/-- **One opcode keeps the invariant**, or it is the `end` of a well-typed body. -/
theorem Sound.step {c : Option Bool} {s s' : FrontendState} {ops : List OPCode} {op : OPCode}
    (h : Sound m fnc s ops) (hop : processOpCode m fnc c s op = .ok s')
    (hbal : balancedAt (s.validationStack.map (Frame.openBlock m)) op = true) :
    Advances m fnc s s' op ops := by
  cases op with
  | plain p =>
      have hfunc : ∀ g, s.validationStack.getLast? = some g → g.sigIndex = fnc.sigIndex := by
        obtain ⟨g, hg, -, hsig⟩ := h.built.getLast
        intro g' hg'
        rw [hg] at hg'
        exact Option.some.inj hg' ▸ hsig
      obtain ⟨v, hsteps, hplain⟩ := processPlain_spec hop hbal h.built.ne_nil hfunc
      have hshape := @PlainStep.sameShape m _ _ _ _ hplain
      refine Or.inl ⟨⟨?_, ?_, hsteps.properlyTerminated.trans h.running⟩, ?_⟩
      · rw [hsteps.validationStack]
        exact h.built.plain hplain
      · rw [hsteps.blockKeys, h.mirrors, hsteps.validationStack, hshape.blockKeys]
      · rw [hsteps.validationStack, hshape.openBlocks]
        rfl
  | block bt =>
      obtain ⟨sigIndex, ht, hop⟩ := bind_eq_ok.mp hop
      obtain ⟨s₁, hs₁, hop⟩ := bind_eq_ok.mp hop
      obtain ⟨v, hv, rfl⟩ := validate_eq_ok.mp hs₁
      obtain ⟨f, below, rfl, hk, rfl, ⟨a, hpops⟩, hbuilt⟩ :=
        validateAndPrepareBlock_spec h.built ht hv
      refine h.begin [⟨.block, f.sigIndex, _⟩] ht hpops hbuilt (Except.ok.inj hop).symm ?_ fun open_ => ?_
      · simp [Frame.blockKeys, hk]
      · simp [openAfter, Frame.openBlock, hk]
  | loop bt =>
      obtain ⟨sigIndex, ht, hop⟩ := bind_eq_ok.mp hop
      obtain ⟨s₁, hs₁, hop⟩ := bind_eq_ok.mp hop
      obtain ⟨v, hv, rfl⟩ := validate_eq_ok.mp hs₁
      obtain ⟨f, below, rfl, hk, rfl, ⟨a, hpops⟩, hbuilt⟩ :=
        validateAndPrepareLoop_spec h.built ht hv
      refine h.begin [⟨.loop, f.sigIndex, _⟩] ht hpops hbuilt (Except.ok.inj hop).symm ?_ fun open_ => ?_
      · simp [Frame.blockKeys, hk]
      · simp [openAfter, Frame.openBlock, hk]
  | if_ bt =>
      obtain ⟨sigIndex, ht, hop⟩ := bind_eq_ok.mp hop
      obtain ⟨s₁, hs₁, hop⟩ := bind_eq_ok.mp hop
      obtain ⟨v, hv, rfl⟩ := validate_eq_ok.mp hs₁
      obtain ⟨f, below, params, rfl, hk, rfl, ⟨a, hpops⟩, hbuilt⟩ :=
        validateAndPrepareIfBlock_spec h.built ht hv
      refine h.begin [⟨.ifblock, f.sigIndex, _⟩, ⟨.block, f.sigIndex, _⟩] ht hpops hbuilt
        (Except.ok.inj hop).symm ?_ fun open_ => ?_
      · simp [Frame.blockKeys, hk]
      · simp [openAfter, Frame.openBlock, hk]
  | else_ => exact h.else_ hop
  | end_ => exact h.end_ hop hbal

/-- **An accepted and balanced body is well typed.** -/
theorem Sound.run {constantCondition : ℕ → Option Bool} {pos : ℕ} {ops rest : List OPCode}
    {s s' : FrontendState} (h : Sound m fnc s ops)
    (hparse : parseFunctionBody m fnc constantCondition pos rest s = .ok s')
    (hbal : balancedFrom (m.context fnc) (s.validationStack.map (Frame.openBlock m)) rest =
      true) : WellTyped m fnc (ops ++ rest) := by
  induction rest generalizing pos ops s with
  | nil =>
      rw [parseFunctionBody, h.running] at hparse
      cases hparse
  | cons op rest ih =>
      rw [parseFunctionBody, h.running] at hparse
      obtain ⟨s₁, hop, hparse⟩ := bind_eq_ok.mp hparse
      rw [balancedFrom, Bool.and_eq_true] at hbal
      rcases h.step hop hbal.1 with ⟨hsound, hopen⟩ | ⟨htyped, hterminated⟩
      · have hrest := ih hsound hparse (by rw [hopen]; exact hbal.2)
        simpa using hrest
      · cases rest with
        | nil => exact htyped
        | cons op' rest =>
            rw [parseFunctionBody, if_pos hterminated] at hparse
            cases hparse

/-- A well-typed body is balanced. -/
theorem WellTyped.balanced {ops : List OPCode} (h : WellTyped m fnc ops) :
    balanced m fnc ops = true := by
  obtain ⟨body, rfl, htyped⟩ := h
  have hbody := @Typed.balancedFrom (m.context fnc) body _ _ htyped
    [⟨.func, m.signature fnc.sigIndex⟩] rfl (m.context fnc) (fun _ => rfl) [.end_]
  rw [WasmCompiler.balanced, hbody]
  rfl

/-- An accepted and balanced body is well typed. -/
theorem accepts_balanced {constantCondition : ℕ → Option Bool} {ops : List OPCode}
    (h : accepts m fnc constantCondition ops = true) (hbal : balanced m fnc ops = true) :
    WellTyped m fnc ops := by
  rw [accepts] at h
  cases hparse : parseFunctionBody m fnc constantCondition 0 ops (enterFunction fnc) with
  | error e =>
      rw [hparse] at h
      exact nomatch h
  | ok s' => exact Sound.enter.run hparse hbal

/-- **Soundness of validation**: a body the opcode loop accepts, whatever conditions of it
are constants for the code generator, is well typed exactly when every `if` without `else`
has equal parameter and result types and the labels of every `br_table` have the same
types. -/
theorem accepts_wellTyped_iff_balanced (m : ModuleInfo) (fnc : FunctionInfo)
    (constantCondition : ℕ → Option Bool) (ops : List OPCode)
    (h : accepts m fnc constantCondition ops = true) :
    WellTyped m fnc ops ↔ balanced m fnc ops = true :=
  ⟨WellTyped.balanced, accepts_balanced h⟩

/-! ### An `if` without `else` -/

/-- A module with a block type from `i32` to `result` and a function that takes an
`i32`. -/
def ifModule (result : WasmType) : ModuleInfo where
  types := [.signature ⟨[.i32], [result]⟩, .signature ⟨[.i32], []⟩]
  forward_signature := by simp
  functions := [1]
  functions_signature := by simp
  globals := []
  hasTable := false
  hasMemory := false

/-- Its function. -/
def ifFunction : FunctionInfo where
  sigIndex := 1
  localDefs := [.i32]

/-- A body with an `if` from `i32` to `result` that has no `else`. -/
def ifBody (result : WasmType) : List OPCode :=
  [.plain (.localGet 0), .plain (.localGet 0), .if_ (.index 0), .plain .drop,
    .plain (.const result), .end_, .plain .drop, .end_]

/-- With the result type of its parameter the body is accepted, and well typed. -/
theorem accepts_wellTyped_iff_balanced_ifBody :
    accepts (ifModule .i32) ifFunction (fun _ => none) (ifBody .i32) = true ∧
      (WellTyped (ifModule .i32) ifFunction (ifBody .i32) ↔
        balanced (ifModule .i32) ifFunction (ifBody .i32) = true) :=
  ⟨by decide, accepts_wellTyped_iff_balanced _ _ (fun _ => none) _ (by decide)⟩

/-- **With another result type the body is accepted, and not well typed**: the `end` of an
`if` without `else` compares only the numbers of parameters and results. -/
theorem accepts_not_wellTyped :
    accepts (ifModule .i64) ifFunction (fun _ => none) (ifBody .i64) = true ∧
      ¬ WellTyped (ifModule .i64) ifFunction (ifBody .i64) := by
  refine ⟨by decide, fun h => ?_⟩
  have hbal := h.balanced
  exact absurd hbal (by decide)

/-- Where a condition is a constant, a `br_table` is accepted whatever the types of its
further targets are. -/
example :
    accepts (ifModule .i64) ifFunction (fun pos => if pos = 3 then some true else none)
        [.block (.value .i64), .block (.value .i32), .plain (.const .i32), .if_ (.value .i32),
          .plain (.const .i32), .else_, .plain (.const .i32), .plain (.const .i32),
          .plain (.brTable [1] 2), .end_, .end_, .plain .drop, .plain (.const .i64), .end_,
          .plain .drop, .end_] = true := by
  decide

end WasmCompiler
