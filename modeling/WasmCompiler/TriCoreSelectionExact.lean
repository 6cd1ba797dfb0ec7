import WasmCompiler.TriCoreSelectedCode

/-!
# Exactness of Instruction Selection on TriCore

The code of a selection computes the operation of its family if the operands fit the instruction
behind the moves, and if the register of the result is that of the first source where the
instruction overwrites it. The selection assumes the latter of a constant that is moved to the
target hint; the move goes elsewhere if the other operand was moved from memory to the hint before.

## Main results

* `fits_liftFor`: behind the moves, the operands are what the instruction asks for.
* `destFor_spec`: the register of the result, and which source it has.
* `selectInstr_exact_iff`: when the code computes the operation of the family.
-/

namespace WasmCompiler

namespace TriCore

open ByteMemory Machine

/-! ### What an instruction reads -/

/-- `elementFitsArgType`. -/
def FitsArgType : ArgType → VariableStorage REG → Prop
  | .none, _ => True
  | .d15, s => s = wordReg (.D 15)
  | .dataReg32_a, s | .dataReg32_b, s | .dataReg32_c, s => ∃ reg, s = wordReg reg
  | argType, s => ∃ v, s = constWord v ∧ (constRange (v.setWidth 32)).movCost argType = 0

/-- An immediate. -/
def ArgType.isImmediate : ArgType → Bool
  | .const4sx_32 | .const8zx_32 | .const9sx_32 | .const9zx_32 | .const16sx_32 => true
  | _ => false

/-- **A selection is encoded as it was made**: the result is in a register that the instruction
writes, which is that of the first source if the instruction overwrites it, operands are swapped for
commutative instructions only, and an immediate denotes the constant. -/
structure SelectedCode.Encoded (code : SelectedCode) : Prop where
  dest : ∃ reg, code.dest = wordReg reg ∧ code.fields.destReg code.instr.destType = reg
  same : code.instr.src0_dst_same = true → code.src0 = code.dest
  reversed : code.reversed = true → code.instr.src_0_1_commutative = true
  immediate : code.instr.src1Type.isImmediate = true → ∃ v, code.src1 = constWord v ∧
    ∀ m, code.fields.read m code.instr.src1Type = v.setWidth 32

/-- **A request is exact**: some instruction is selected and encoded, and the code ends with the
result of the operation in the register of the result. -/
def SelectionRequest.Exact (r : SelectionRequest) (jobMemory frameTop : BitVec 32) : Prop :=
  ∃ code, r.selectInstr = some code ∧ code.Encoded ∧
    ∀ (stackFence : BitVec 16) (s s' : FrameState) (window : List WindowInstr) (m m' : Machine),
      emitSteps stackFence s code.steps = some (window, s') → m.Frame s.ctx jobMemory frameTop →
      runWindow window m = .ok m' →
      (code.instr.exec code.fields m').regs (locationReg code.dest) =
        r.family.op (operandValue jobMemory frameTop m (r.args false).storage)
          (operandValue jobMemory frameTop m (r.args true).storage)

/-- The operand in memory was moved to a hint that can be written, beside a constant that no
immediate takes. -/
def SelectionRequest.Clashes (r : SelectionRequest) : Prop :=
  ∃ h, r.hint = some h ∧ h.writable = true ∧ ∃ k v, inMemory (r.args k).storage = true ∧
    (r.args (!k)).storage = constWord v ∧ r.family.takes (constRange (v.setWidth 32)) = false ∧
    (k = true ∨ (h.machineType ≠ .i32 ∧ r.family.commutative = true))

section Fields

variable {jobMemory frameTop : BitVec 32}

/-- The types of an instruction, and whether it overwrites its first source. -/
def AbstrInstr.shape (i : AbstrInstr) : ArgType × ArgType × ArgType × Bool :=
  (i.destType, i.src0Type, i.src1Type, i.src0_dst_same)

/-- The types that occur. -/
def shapes : List (ArgType × ArgType × ArgType × Bool) :=
  [(.dataReg32_c, .dataReg32_a, .none, false), (.dataReg32_c, .dataReg32_a, .dataReg32_b, false),
    (.dataReg32_c, .dataReg32_a, .const9sx_32, false),
    (.dataReg32_c, .dataReg32_a, .const9zx_32, false),
    (.dataReg32_c, .dataReg32_a, .const16sx_32, false),
    (.dataReg32_c, .d15, .dataReg32_b, false), (.dataReg32_a, .d15, .const4sx_32, false),
    (.dataReg32_a, .d15, .dataReg32_b, false), (.d15, .dataReg32_a, .const4sx_32, false),
    (.d15, .dataReg32_a, .dataReg32_b, false), (.dataReg32_a, .dataReg32_a, .const4sx_32, true),
    (.dataReg32_a, .dataReg32_a, .dataReg32_b, true), (.d15, .d15, .const8zx_32, true)]

/-- The instructions have these types. -/
theorem shape_mem (f : InstrFamily) : ∀ i ∈ f.instructions, i.shape ∈ shapes := by
  cases f <;> decide

/-- The value of a constant. -/
theorem operandValue_constWord (m : Machine) (v : Word) :
    operandValue jobMemory frameTop m (constWord v) = v.setWidth 32 := by
  rw [operandValue, storageValue, constWord]
  dsimp only
  rw [MachineType.carried, BitVec.setWidth_setWidth_of_le _ (by decide)]
  exact BitVec.setWidth_setWidth_of_le _ (by decide)

/-- The value of a word in a register. -/
theorem operandValue_wordReg (m : Machine) (reg : REG) :
    operandValue jobMemory frameTop m (wordReg reg) = m.regs reg := setWidth_regValue m reg

/-- **An immediate denotes the constant** if it has no cost. -/
theorem read_immediate {v : BitVec 32} :
    ((constRange v).movCost .const4sx_32 = 0 → (v.setWidth 4).signExtend 32 = v) ∧
      ((constRange v).movCost .const8zx_32 = 0 → (v.setWidth 8).setWidth 32 = v) ∧
      ((constRange v).movCost .const9sx_32 = 0 → (v.setWidth 9).signExtend 32 = v) ∧
      ((constRange v).movCost .const9zx_32 = 0 → (v.setWidth 9).setWidth 32 = v) ∧
      ((constRange v).movCost .const16sx_32 = 0 → (v.setWidth 16).signExtend 32 = v) := by
  obtain ⟨h4, h8, h9, h9', h16⟩ := movCost_immediate v
  refine ⟨fun h => ?_, fun h => ?_, fun h => ?_, fun h => ?_, fun h => ?_⟩
  · exact signExtend_setWidth_of_signedInRange (by decide) (by decide)
      (by have hr := h4.mp h; simp [signedInRange]; omega)
  · have hr := h8.mp h
    apply BitVec.eq_of_toNat_eq
    simp only [BitVec.toNat_setWidth]
    omega
  · exact signExtend_setWidth_of_signedInRange (by decide) (by decide)
      (by have hr := h9.mp h; simp [signedInRange]; omega)
  · have hr := h9'.mp h
    apply BitVec.eq_of_toNat_eq
    simp only [BitVec.toNat_setWidth]
    omega
  · exact signExtend_setWidth_of_signedInRange (by decide) (by decide)
      (by have hr := h16.mp h; simp [signedInRange]; omega)

/-- What a source reads that is not the destination. -/
theorem read_setOperand (jobMemory frameTop : BitVec 32) {t : ArgType} {s : VariableStorage REG} (h : FitsArgType t s)
    (ht : t ≠ .none) (fields : InstrFields) (m : Machine) :
    (fields.setOperand s t).read m t = operandValue jobMemory frameTop m s := by
  cases t with
  | none => exact absurd rfl ht
  | d15 =>
      obtain rfl := h
      exact (operandValue_wordReg m _).symm
  | dataReg32_a | dataReg32_b | dataReg32_c =>
      obtain ⟨reg, rfl⟩ := h
      exact (operandValue_wordReg m reg).symm
  | const4sx_32 =>
      obtain ⟨v, rfl, hzero⟩ := h
      rw [operandValue_constWord]
      exact read_immediate.1 hzero
  | const8zx_32 =>
      obtain ⟨v, rfl, hzero⟩ := h
      rw [operandValue_constWord]
      exact read_immediate.2.1 hzero
  | const9sx_32 =>
      obtain ⟨v, rfl, hzero⟩ := h
      rw [operandValue_constWord]
      exact read_immediate.2.2.1 hzero
  | const9zx_32 =>
      obtain ⟨v, rfl, hzero⟩ := h
      rw [operandValue_constWord]
      exact read_immediate.2.2.2.1 hzero
  | const16sx_32 =>
      obtain ⟨v, rfl, hzero⟩ := h
      rw [operandValue_constWord]
      exact read_immediate.2.2.2.2 hzero

/-- **What a selected instruction reads and writes**: its sources and the register of the result. -/
theorem fields_of_fits (jobMemory frameTop : BitVec 32) {f : InstrFamily} {code : SelectedCode} (hi : code.instr ∈ f.instructions)
    (h0 : FitsArgType code.instr.src0Type code.src0)
    (h1 : FitsArgType code.instr.src1Type code.src1) {reg : REG} (hdest : code.dest = wordReg reg)
    (hD15 : code.instr.destType = .d15 → reg = .D 15)
    (hsame : code.instr.src0_dst_same = true → code.src0 = code.dest) :
    code.fields.destReg code.instr.destType = reg ∧
      (∀ m, code.fields.read m code.instr.src0Type =
        operandValue jobMemory frameTop m code.src0) ∧
      (code.instr.src1Type ≠ .none → ∀ m, code.fields.read m code.instr.src1Type =
        operandValue jobMemory frameTop m code.src1) := by
  have hshape := shape_mem f _ hi
  obtain ⟨⟨mnemonic, opcode, destType, src0Type, src1Type, comm, same, useD15⟩, reversed, steps,
    dest, src0, src1⟩ := code
  dsimp only at h0 h1 hdest hD15 hsame
  subst hdest
  simp only [AbstrInstr.shape, shapes, List.mem_cons, Prod.mk.injEq, List.not_mem_nil,
    or_false] at hshape
  have hread0 := read_setOperand jobMemory frameTop h0
  have hread1 := read_setOperand jobMemory frameTop h1
  rcases hshape with ⟨rfl, rfl, rfl, rfl⟩ | ⟨rfl, rfl, rfl, rfl⟩ | ⟨rfl, rfl, rfl, rfl⟩ |
    ⟨rfl, rfl, rfl, rfl⟩ | ⟨rfl, rfl, rfl, rfl⟩ | ⟨rfl, rfl, rfl, rfl⟩ | ⟨rfl, rfl, rfl, rfl⟩ |
    ⟨rfl, rfl, rfl, rfl⟩ | ⟨rfl, rfl, rfl, rfl⟩ | ⟨rfl, rfl, rfl, rfl⟩ | ⟨rfl, rfl, rfl, rfl⟩ |
    ⟨rfl, rfl, rfl, rfl⟩ | ⟨rfl, rfl, rfl, rfl⟩
  all_goals
    refine ⟨by first | rfl | exact (hD15 rfl).symm, fun m => ?_, fun hne m => ?_⟩
    · first
        | exact hread0 nofun InstrFields.zero m
        | (obtain rfl := hsame rfl
           exact (operandValue_wordReg m reg).symm)
    · first
        | exact absurd rfl hne
        | exact hread1 hne InstrFields.zero m

end Fields

/-! ### The operands of a selection -/

section Selected

variable {r : SelectionRequest} {jobMemory frameTop : BitVec 32} {i : AbstrInstr}
  {c : OperandMovement}

/-- An operand that is moved for the selected instruction is a constant. -/
theorem const_of_moved (hr : r.WellFormed jobMemory frameTop)
    (hi : chooseInstr (r.situation r.prelift.args) r.family.instructions = (some i, c)) {k : Bool}
    (hmoved : (if k then c.movArg1 else c.movArg0) = true) :
    ∃ v, (r.args k).storage = constWord v ∧ r.prelift.args k = r.args k := by
  obtain ⟨hmem, rfl, hcost, -⟩ := chooseInstr_some hi
  obtain ⟨-, hfit0, hfit1⟩ :=
    fits_getInstructionCost (situation_passed hr).isArgsSame (ne_of_lt hcost)
  have hconst : ∃ range, operandKind (r.prelift.args k).storage = .const range := by
    cases k with
    | false =>
        rw [if_neg Bool.false_ne_true] at hmoved
        rw [hmoved] at hfit0
        exact hfit0.1
    | true =>
        rw [if_pos rfl] at hmoved
        rw [hmoved] at hfit1
        exact hfit1.1
  obtain ⟨range, hrange⟩ := hconst
  have hword : WordStorage (r.args k).storage := by
    rcases hr.arg k with hword | ⟨-, hnone⟩
    · exact hword
    · rw [(prelift_args hr.toTyped k).1 (by rw [hnone]; rfl), hnone] at hrange
      cases hrange
  obtain ⟨v, hv, hsame, -⟩ := (prelift_kind hr.toTyped hword).2 range hrange
  exact ⟨v, hv, hsame⟩

/-- **The moves for the selected instruction.** -/
theorem liftFor_selected (hr : r.WellFormed jobMemory frameTop)
    (hi : chooseInstr (r.situation r.prelift.args) r.family.instructions = (some i, c)) :
    (r.liftFor i c r.prelift).Reads r jobMemory frameTop ∧
      (c.movArg0 = false → (r.liftFor i c r.prelift).args false = r.prelift.args false) ∧
      (c.movArg1 = false → (r.liftFor i c r.prelift).args true = r.prelift.args true) ∧
      (c.movArg0 = true → MovedBeside r (i.arg0Type c.reversed == .d15)
        ((r.liftFor i c r.prelift).args false) (r.prelift.args true)) ∧
      (c.movArg1 = true →
        c.movArg0 = true ∧
          (r.liftFor i c r.prelift).args true = (r.liftFor i c r.prelift).args false ∨
        MovedBeside r (i.arg1Type c.reversed == .d15) ((r.liftFor i c r.prelift).args true)
          ((r.liftFor i c r.prelift).args false)) := by
  have hconst : ∀ {k : Bool}, (if k then c.movArg1 else c.movArg0) = true →
      ∃ v, (r.prelift.args k).storage = constWord v := by
    intro k hk
    obtain ⟨v, hv, hsame⟩ := const_of_moved hr hi hk
    exact ⟨v, by rw [hsame, hv]⟩
  refine liftFor_spec hr.toTyped (reads_prelift hr.toTyped) (fun hmoved k => ?_)
    (fun h => hconst (k := false) h) fun h => hconst (k := true) h
  refine Bool.eq_false_iff.mpr fun hlifted => ?_
  obtain ⟨hmem0, hmem1⟩ := (prelift_args hr.toTyped k).2.2 hlifted
  rcases hmoved with hmoved | hmoved
  · obtain ⟨v, hv, -⟩ := const_of_moved hr hi (k := false) hmoved
    rw [hv] at hmem0
    cases hmem0
  · obtain ⟨v, hv, -⟩ := const_of_moved hr hi (k := true) hmoved
    rw [hv] at hmem1
    cases hmem1

/-- An operand that is not moved fits its type. -/
theorem fitsArgType_of_kind {s : VariableStorage REG} {t : ArgType}
    (hs : (∃ v, s = constWord v) ∨ (∃ reg, s = wordReg reg) ∨ operandKind s = .other)
    (h : (operandKind s).Fits t false) : FitsArgType t s := by
  replace h : (operandKind s).movCost t = 0 := h
  rcases hs with ⟨v, rfl⟩ | ⟨reg, rfl⟩ | hother
  · rw [operandKind_constWord] at h
    cases t with
    | none => trivial
    | d15 | dataReg32_a | dataReg32_b | dataReg32_c =>
        cases hrange : constRange (v.setWidth 32) <;> rw [hrange] at h <;> cases h
    | const4sx_32 | const8zx_32 | const9sx_32 | const9zx_32 | const16sx_32 => exact ⟨v, rfl, h⟩
  · rw [operandKind, wordReg] at h
    dsimp only at h
    split at h
    · case _ heq =>
        subst heq
        cases t with
        | none => trivial
        | d15 => rfl
        | dataReg32_a | dataReg32_b | dataReg32_c => exact ⟨_, rfl⟩
        | const4sx_32 | const8zx_32 | const9sx_32 | const9zx_32 | const16sx_32 => cases h
    · split at h
      · cases t with
        | none => trivial
        | dataReg32_a | dataReg32_b | dataReg32_c => exact ⟨_, rfl⟩
        | d15 | const4sx_32 | const8zx_32 | const9sx_32 | const9zx_32 | const16sx_32 => cases h
      · cases t with
        | none => trivial
        | dataReg32_a | dataReg32_b | dataReg32_c | d15 | const4sx_32 | const8zx_32
        | const9sx_32 | const9zx_32 | const16sx_32 => cases h
  · rw [hother] at h
    cases t with
    | none => trivial
    | dataReg32_a | dataReg32_b | dataReg32_c | d15 | const4sx_32 | const8zx_32
    | const9sx_32 | const9zx_32 | const16sx_32 => cases h

/-- What an operand is at the selection. -/
theorem prelift_storage (hr : r.WellFormed jobMemory frameTop) (k : Bool) :
    (∃ v, (r.prelift.args k).storage = constWord v) ∨
      (∃ reg, (r.prelift.args k).storage = wordReg reg) ∨
      operandKind (r.prelift.args k).storage = .other := by
  rcases hr.arg k with hword | ⟨-, hnone⟩
  · rcases prelift_cases hr.toTyped hword with ⟨v, hv, hsame⟩ | ⟨reg, hreg, -⟩
    · exact .inl ⟨v, by rw [hsame, hv]⟩
    · exact .inr (.inl ⟨reg, hreg⟩)
  · right
    right
    rw [(prelift_args hr.toTyped k).1 (by rw [hnone]; rfl), hnone]
    rfl

/-- A constant has no register. -/
theorem maskOf_of_kind {s : VariableStorage REG} (h : ∃ range, operandKind s = .const range) :
    maskOf s = [] := by
  obtain ⟨range, hrange⟩ := h
  rw [operandKind] at hrange
  rw [maskOf]
  split
  · case _ reg heq =>
      rw [heq] at hrange
      dsimp only at hrange
      split_ifs at hrange
  · rfl

/-- A move to `D15` gets there. -/
theorem MovedBeside.eq_D15 {arg other : SelectionOperand} (h : MovedBeside r true arg other)
    (hfree : REG.D 15 ∉ maskOf other.storage) : arg.storage = TriCore.wordReg (.D 15) :=
  h.target (.D 15) true (by rw [SelectionRequest.liftTarget, Bool.true_or, if_pos rfl]) hfree

/-- The instructions whose first source is `D15`. -/
theorem form_of_D15 (f : InstrFamily) : ∀ i ∈ f.instructions, i.src1Type ≠ .d15 ∧
    (i.src0Type = .d15 → (i.src1Type = .const4sx_32 ∨ i.src1Type = .const8zx_32) ∨
      (f = .add ∧ i = I_ADD_Da_D15_Db) ∨ (f = .sub ∧ i = I_SUB_Dc_D15_Db)) := by
  cases f <;> decide

/-- The register of the hint holds the only operand in memory. -/
theorem prelift_hint (hr : r.WellFormed jobMemory frameTop) {h : TargetHint}
    (hhint : r.hint = some h)
    {k : Bool} (hmem : inMemory (r.args k).storage = true) {v : Word}
    (hv : (r.args (!k)).storage = constWord v) :
    (r.prelift.args k).storage = wordReg h.reg := by
  obtain ⟨reg, w, heq, -, htarget⟩ := (prelift_args hr.toTyped k).2.1 hmem
  have hreg := htarget (by rw [hv]; rfl) h.reg h.resultWritable
    (by rw [SelectionRequest.liftTarget, hhint]; rfl) (by rw [hv]; exact List.not_mem_nil)
  rw [heq, hreg]

/-- **`D15` is free for a constant** that a subtraction moves to it. -/
theorem D15_free_of_sub (hr : r.WellFormed jobMemory frameTop) (hf : r.family = .sub)
    (hi : chooseInstr (r.situation r.prelift.args) r.family.instructions =
      (some I_SUB_Dc_D15_Db, c)) (hmoved : c.movArg0 = true) :
    REG.D 15 ∉ maskOf (r.prelift.args true).storage := by
  obtain ⟨-, hc, hcost, -, -⟩ := chooseInstr_some hi
  have hD15 : r.isD15Available = true :=
    (getInstructionCost_cases (hc ▸ ne_of_lt hcost)).1.useD15 rfl
  obtain ⟨v, hv, -⟩ := const_of_moved hr hi (k := false) hmoved
  have hlifted : (r.situation r.prelift.args).liftedIsDst = false := by
    have hpassed := situation_passed hr
    rw [hf] at hi hpassed
    exact moved_of_sub_D15 hpassed hi hmoved
  have hword : WordStorage (r.args true).storage := hr.word fun _ => by simp [hf]
  rcases hword.cases with ⟨w, hw⟩ | ⟨reg, hreg, -⟩ | hmem
  · exact absurd hw ((hr.sub hf).1 w)
  · rw [(prelift_args hr.toTyped true).1 (by rw [hreg]; rfl), hreg]
    intro hmem
    exact (hr.held (by simp [hf]) (by simp [hf]) true reg hreg).2.2 hD15
      (List.mem_singleton.mp hmem).symm
  · cases hhint : r.hint with
    | none =>
        rw [SelectionRequest.situation, hhint] at hlifted
        cases hlifted
    | some h =>
        rw [SelectionRequest.situation, hhint] at hlifted
        rw [prelift_hint hr hhint hmem (k := true) hv]
        intro hreg
        have hwritable := hr.hintD15 h hhint hD15 (List.mem_singleton.mp hreg).symm
        rw [show h.writable = false from hlifted] at hwritable
        cases hwritable

/-- **The operands fit the selected instruction** behind the moves. -/
theorem fits_liftFor (hr : r.WellFormed jobMemory frameTop)
    (hi : chooseInstr (r.situation r.prelift.args) r.family.instructions = (some i, c)) :
    FitsArgType (i.arg0Type c.reversed) ((r.liftFor i c r.prelift).args false).storage ∧
      FitsArgType (i.arg1Type c.reversed) ((r.liftFor i c r.prelift).args true).storage := by
  obtain ⟨-, hkeep0, hkeep1, hmove0, hmove1⟩ := liftFor_selected hr hi
  obtain ⟨hmem, hc, hcost, -, -⟩ := chooseInstr_some hi
  have hpassed := situation_passed hr
  have hfits := fits_getInstructionCost hpassed.isArgsSame (hc ▸ ne_of_lt hcost)
  rw [← hc] at hfits
  obtain ⟨hcomm, hfit0, hfit1⟩ := hfits
  have hdata : ∀ {t : ArgType} {s : VariableStorage REG}, isDataReg32 t = true →
      (∃ reg, s = wordReg reg) → FitsArgType t s := by
    intro t s ht hs
    cases t <;> first | exact hs | cases ht
  -- the operand that has to be in `D15` is the first source
  obtain ⟨hnotD15, hforms⟩ := form_of_D15 r.family i hmem
  constructor
  · cases hmoved : c.movArg0 with
    | false =>
        rw [hkeep0 hmoved]
        rw [hmoved] at hfit0
        exact fitsArgType_of_kind (prelift_storage hr false) hfit0
    | true =>
        rw [hmoved] at hfit0
        have hbeside := hmove0 hmoved
        rcases hfit0.2 with htype | htype
        · rw [htype] at hbeside ⊢
          refine hbeside.eq_D15 ?_
          cases hrev : c.reversed with
          | true =>
              rw [hrev] at htype
              exact absurd htype hnotD15
          | false =>
              rw [hrev] at htype hfit1
              rcases hforms htype with himm | ⟨hf, rfl⟩ | ⟨hf, rfl⟩
              · rw [maskOf_of_kind (fits_immediate hfit1 himm).2]
                exact List.not_mem_nil
              · rw [hf] at hi hpassed
                rw [maskOf_of_kind ((moved_of_add_D15 hpassed hi).1 hrev hmoved)]
                exact List.not_mem_nil
              · exact D15_free_of_sub hr hf hi hmoved
        · exact hdata htype hbeside.wordReg
  · cases hmoved : c.movArg1 with
    | false =>
        rw [hkeep1 hmoved]
        rw [hmoved] at hfit1
        exact fitsArgType_of_kind (prelift_storage hr true) hfit1
    | true =>
        rw [hmoved] at hfit1
        rcases hfit1.2 with htype | htype
        · cases hrev : c.reversed with
          | false =>
              rw [hrev] at htype
              exact absurd htype hnotD15
          | true =>
              rw [hrev] at htype hfit0 hmove1
              rcases hforms htype with himm | ⟨hf, rfl⟩ | ⟨hf, rfl⟩
              · obtain ⟨hmoved0, hconst⟩ := fits_immediate hfit0 himm
                rcases hmove1 hmoved with ⟨hmoved', -⟩ | hbeside
                · rw [hmoved0] at hmoved'
                  cases hmoved'
                · rw [htype] at hbeside ⊢
                  refine hbeside.eq_D15 ?_
                  rw [hkeep0 hmoved0, maskOf_of_kind hconst]
                  exact List.not_mem_nil
              · rw [hf] at hi hpassed
                rw [(moved_of_add_D15 hpassed hi).2 hrev] at hmoved
                cases hmoved
              · cases hcomm hrev
        · refine hdata htype ?_
          rcases hmove1 hmoved with ⟨hmoved0, heq⟩ | hbeside
          · rw [heq]
            exact (hmove0 hmoved0).wordReg
          · exact hbeside.wordReg

end Selected

/-! ### The register of the result -/

section Result

variable {r : SelectionRequest} {jobMemory frameTop : BitVec 32} {i : AbstrInstr}
  {c : OperandMovement} {h : TargetHint}

/-- Shifts by a register do not overwrite their first source. -/
theorem not_shift_of_same {f : InstrFamily} (hmem : i ∈ f.instructions)
    (hsame : i.src0_dst_same = true) : f ≠ .sh ∧ f ≠ .sha := by
  have hall : ∀ f : InstrFamily, ∀ i ∈ f.instructions, i.src0_dst_same = true →
      f ≠ .sh ∧ f ≠ .sha := by
    intro f
    cases f <;> decide
  exact hall f i hmem hsame

/-- An operand in the register of a hint that can be written was in memory. -/
theorem inMemory_of_hint (hr : r.WellFormed jobMemory frameTop)
    (hshift : r.family ≠ .sh ∧ r.family ≠ .sha) (hhint : r.hint = some h)
    (hwritable : h.writable = true) {k : Bool}
    (hmem : h.reg ∈ maskOf (r.prelift.args k).storage) : inMemory (r.args k).storage = true := by
  refine Bool.eq_true_of_not_eq_false fun hnot => ?_
  rw [(prelift_args hr.toTyped k).1 hnot] at hmem
  rcases hr.arg k with hword | ⟨-, hnone⟩
  · rcases hword.cases with ⟨v, hv⟩ | ⟨reg, hreg, -⟩ | hin
    · rw [hv] at hmem
      exact List.not_mem_nil hmem
    · rw [hreg] at hmem
      exact (hr.held hshift.1 hshift.2 k reg hreg).2.1 h hhint hwritable
        (List.mem_singleton.mp hmem)
    · rw [hin] at hnot
      cases hnot
  · rw [hnone] at hmem
    exact List.not_mem_nil hmem

/-- The kind of an operand in a register. -/
theorem kind_of_mask (hr : r.WellFormed jobMemory frameTop) {k : Bool} {d : REG}
    (hmem : d ∈ maskOf (r.prelift.args k).storage) :
    (r.prelift.args k).storage = wordReg d ∧ (operandKind (r.prelift.args k).storage = .d15 ∨
      operandKind (r.prelift.args k).storage = .data) := by
  rcases hr.arg k with hword | ⟨-, hnone⟩
  · rcases prelift_cases hr.toTyped hword with ⟨v, hv, hsame⟩ | ⟨d', hreg, hdata⟩
    · rw [hsame, hv] at hmem
      exact absurd hmem List.not_mem_nil
    · rw [hreg] at hmem ⊢
      obtain rfl := List.mem_singleton.mp hmem
      exact ⟨rfl, operandKind_wordReg hdata⟩
  · rw [(prelift_args hr.toTyped k).1 (by rw [hnone]; rfl), hnone] at hmem
    exact absurd hmem List.not_mem_nil

/-- A family with a commutative instruction is commutative. -/
theorem commutative_of_mem {f : InstrFamily} (hmem : i ∈ f.instructions) :
    f.commutative = i.src_0_1_commutative := by
  have hall : ∀ f : InstrFamily, ∀ i ∈ f.instructions, f.commutative = i.src_0_1_commutative := by
    intro f
    cases f <;> decide
  exact hall f i hmem

/-- **The register of the hint is free for a constant** that is moved to it. -/
theorem hint_free (hr : r.WellFormed jobMemory frameTop) (hclash : ¬ r.Clashes)
    (hi : chooseInstr (r.situation r.prelift.args) r.family.instructions = (some i, c))
    (hsame : i.src0_dst_same = true) (hhint : r.hint = some h) (hwritable : h.writable = true)
    {k : Bool} (hmoved : (if k then c.movArg1 else c.movArg0) = true)
    (hother : (if k then c.movArg0 else c.movArg1) = false)
    (htype : k = true → h.machineType ≠ .i32 ∧ i.src_0_1_commutative = true) :
    h.reg ∉ maskOf (r.prelift.args (!k)).storage := by
  intro hmask
  have hmem := (chooseInstr_some hi).1
  have hshift := not_shift_of_same hmem hsame
  have hinMemory := inMemory_of_hint hr hshift hhint hwritable hmask
  obtain ⟨v, hv, hkept⟩ := const_of_moved hr hi hmoved
  have hpassed := situation_passed hr
  obtain ⟨-, hkind⟩ := kind_of_mask hr hmask
  have hconst : operandKind (r.prelift.args k).storage = .const (constRange (v.setWidth 32)) := by
    rw [hkept, hv, operandKind_constWord]
  have htakes : r.family.takes (constRange (v.setWidth 32)) = true := by
    refine Bool.eq_true_of_not_eq_false fun hnot => hclash ⟨h, hhint, hwritable, !k, v,
      hinMemory, by rwa [Bool.not_not], hnot, ?_⟩
    cases k with
    | false => exact .inl rfl
    | true =>
        obtain ⟨hmachineType, hcomm⟩ := htype rfl
        exact .inr ⟨hmachineType, by rw [commutative_of_mem hmem, hcomm]⟩
  cases hcomm : r.family.commutative with
  | true =>
      have hnotMoved : c.movArg0 = false ∧ c.movArg1 = false := by
        refine not_moved_of_takes hcomm (hpassed.isArgsSame_eq ?_) htakes ?_ hi
        · change operandKind (r.prelift.args false).storage ≠
            operandKind (r.prelift.args true).storage
          cases k <;> rcases hkind with hkind | hkind <;>
            simp only [Bool.not_false, Bool.not_true] at hkind <;> rw [hkind, hconst] <;>
            exact nofun
        · cases k with
          | false => exact .inl ⟨hconst, hkind⟩
          | true => exact .inr ⟨hconst, hkind⟩
      cases k with
      | false => exact Bool.noConfusion (hnotMoved.1.symm.trans hmoved)
      | true => exact Bool.noConfusion (hnotMoved.2.symm.trans hmoved)
  | false =>
      have hfamily : ∀ f : InstrFamily, ∀ i ∈ f.instructions, i.src0_dst_same = true →
          f.commutative = false → f = .sub ∨ f = .shConst ∨ f = .shaConst := by
        intro f
        cases f <;> decide
      cases k with
      | true =>
          have hcomm' := commutative_of_mem hmem
          rw [hcomm, (htype rfl).2] at hcomm'
          cases hcomm'
      | false =>
          rcases hfamily _ i hmem hsame hcomm with hf | hf
          · rw [hf] at htakes
            have hnone : ∀ range, InstrFamily.sub.takes range = false := by
              intro range
              cases range <;> rfl
            rw [hnone] at htakes
            cases htakes
          · obtain ⟨w, hw, -⟩ := hr.shConst hf
            change inMemory (r.args true).storage = true at hinMemory
            rw [hw] at hinMemory
            cases hinMemory

/-- The operand that is the first source. -/
theorem hint_eq_of_isDst {k : Bool} (hr : r.WellFormed jobMemory frameTop)
    (hdst : (h.storage == (r.prelift.args k).storage) = true) :
    (r.prelift.args k).storage = wordReg h.reg := by
  have heq := beq_iff_eq.mp hdst
  have hmask : h.reg ∈ maskOf (r.prelift.args k).storage := by
    rw [← heq]
    exact List.mem_cons_self
  exact (kind_of_mask hr hmask).1

/-- An operand in a register is not moved. -/
theorem not_moved_of_mask (hr : r.WellFormed jobMemory frameTop)
    (hi : chooseInstr (r.situation r.prelift.args) r.family.instructions = (some i, c)) {k : Bool}
    {d : REG} (hmask : d ∈ maskOf (r.prelift.args k).storage) :
    (if k then c.movArg1 else c.movArg0) = false := by
  refine Bool.eq_false_iff.mpr fun hmoved => ?_
  obtain ⟨v, hv, hsame⟩ := const_of_moved hr hi hmoved
  rw [hsame, hv] at hmask
  exact List.not_mem_nil hmask

/-- **The source that is overwritten is in the register of the hint.** -/
theorem src0_eq_hint (hr : r.WellFormed jobMemory frameTop) (hclash : ¬ r.Clashes)
    (hi : chooseInstr (r.situation r.prelift.args) r.family.instructions = (some i, c))
    (hsame : i.src0_dst_same = true) (hhint : r.hint = some h) :
    ((r.liftFor i c r.prelift).args c.reversed).storage = wordReg h.reg := by
  obtain ⟨-, hkeep0, hkeep1, hmove0, hmove1⟩ := liftFor_selected hr hi
  obtain ⟨hmem, hc, hcost, -, -⟩ := chooseInstr_some hi
  have hpossible := (getInstructionCost_cases (hc ▸ ne_of_lt hcost)).1
  have hcases := (getInstructionCost_cases (hc ▸ ne_of_lt hcost)).2
  rw [← hc] at hcases
  -- a move goes to the register of the hint, or to `D15`, which is that register then
  have htarget : ∃ w, r.liftTarget (i.src0Type == .d15) = some (h.reg, w) := by
    cases htype : i.src0Type == .d15 with
    | false => exact ⟨h.resultWritable, by rw [SelectionRequest.liftTarget, hhint]; rfl⟩
    | true =>
        have hall : ∀ f : InstrFamily, ∀ i ∈ f.instructions, i.src0_dst_same = true →
            i.src0Type = .d15 → i.destType = .d15 := by
          intro f
          cases f <;> decide
        have hnotD15 := hpossible.destType (hall _ i hmem hsame (beq_iff_eq.mp htype))
        rw [SelectionRequest.situation, hhint] at hnotD15
        have hreg : h.reg = .D 15 := by simpa using hnotD15
        rw [hreg]
        exact ⟨true, by rw [SelectionRequest.liftTarget, Bool.true_or, if_pos rfl]⟩
  obtain ⟨w, htarget⟩ := htarget
  have hwritable : (r.situation r.prelift.args).liftedIsDst = h.writable := by
    rw [SelectionRequest.situation, hhint]
  rcases hcases with ⟨heq, hcan⟩ | ⟨heq, hcomm, hcan, -⟩
  · have hrev : c.reversed = false := by rw [heq]; rfl
    rw [hrev] at hmove0 ⊢
    rcases Bool.or_eq_true_iff.mp (hcan hsame) with hdst | hmoved
    · rw [SelectionRequest.situation, hhint] at hdst
      have hstorage := hint_eq_of_isDst hr (k := false) hdst
      rw [hkeep0 (not_moved_of_mask hr hi (k := false) (d := h.reg)
        (by rw [hstorage]; exact List.mem_cons_self)), hstorage]
    · obtain ⟨hmoved, hlifted⟩ := Bool.and_eq_true_iff.mp hmoved
      rw [← heq] at hmoved
      rw [hwritable] at hlifted
      refine (hmove0 hmoved).target h.reg w htarget ?_
      cases hother : c.movArg1 with
      | false => exact hint_free hr hclash hi hsame hhint hlifted (k := false) hmoved hother (by simp)
      | true =>
          obtain ⟨v, hv, hsame⟩ := const_of_moved hr hi (k := true) hother
          rw [hsame, hv]
          exact List.not_mem_nil
  · have hrev : c.reversed = true := by rw [heq]; rfl
    obtain ⟨hdst0, hmoved0⟩ := not_dst_of_reversed (situation_passed hr).isArgsSame hi hsame hrev
    rw [hrev] at hmove1 ⊢
    rcases Bool.or_eq_true_iff.mp (hcan hsame) with hdst | hmoved
    · rw [SelectionRequest.situation, hhint] at hdst
      have hstorage := hint_eq_of_isDst hr (k := true) hdst
      rw [hkeep1 (not_moved_of_mask hr hi (k := true) (d := h.reg)
        (by rw [hstorage]; exact List.mem_cons_self)), hstorage]
    · obtain ⟨hmoved, hlifted⟩ := Bool.and_eq_true_iff.mp hmoved
      rw [← heq] at hmoved
      have hnot0 := hmoved0 hlifted
      rw [hwritable] at hlifted
      rcases hmove1 hmoved with ⟨hmoved', -⟩ | hbeside
      · rw [hnot0] at hmoved'
        cases hmoved'
      · refine hbeside.target h.reg w htarget ?_
        rw [hkeep0 hnot0]
        intro hmask
        refine hint_free hr hclash hi hsame hhint hlifted (k := true) hmoved hnot0
          (fun _ => ⟨fun hi32 => ?_, hcomm⟩) hmask
        obtain ⟨hstorage, hkind⟩ := kind_of_mask hr (k := false) hmask
        rcases hdst0 with hdst0 | ⟨range, hrange⟩
        · rw [SelectionRequest.situation, hhint] at hdst0
          have hne : h.storage ≠ (r.prelift.args false).storage := by simpa using hdst0
          rw [hstorage, TargetHint.storage, hi32] at hne
          exact hne rfl
        · change operandKind (r.prelift.args false).storage = _ at hrange
          rcases hkind with hkind | hkind <;> rw [hkind] at hrange <;> cases hrange

end Result

/-! ### The result without a hint -/

section WithoutHint

variable {r : SelectionRequest} {jobMemory frameTop : BitVec 32} {i : AbstrInstr}
  {c : OperandMovement}

/-- An operand that can be written is in a register. -/
theorem mask_of_writable (hr : r.WellFormed jobMemory frameTop) {k : Bool}
    (hw : (r.prelift.args k).writable = true) :
    ∃ reg, (r.prelift.args k).storage = wordReg reg := by
  rcases (reads_prelift hr.toTyped).args k with heq | ⟨reg, w, heq, -⟩
  · rw [heq] at hw ⊢
    exact hr.writable k hw
  · rw [heq]
    exact ⟨reg, rfl⟩

/-- **The source that is overwritten can be written**, and is the first operand that can be. -/
theorem src0_writable (hr : r.WellFormed jobMemory frameTop)
    (hi : chooseInstr (r.situation r.prelift.args) r.family.instructions = (some i, c))
    (hsame : i.src0_dst_same = true) (hhint : r.hint = none) :
    ((r.liftFor i c r.prelift).args c.reversed).writable = true ∧
      (c.reversed = true → ((r.liftFor i c r.prelift).args false).writable = false) := by
  obtain ⟨-, hkeep0, hkeep1, hmove0, hmove1⟩ := liftFor_selected hr hi
  obtain ⟨hmem, hc, hcost, -, -⟩ := chooseInstr_some hi
  have hcases := (getInstructionCost_cases (hc ▸ ne_of_lt hcost)).2
  rw [← hc] at hcases
  have hkept : ∀ k, (r.prelift.args k).writable = true →
      (if k then c.movArg1 else c.movArg0) = false := by
    intro k hw
    obtain ⟨reg, hreg⟩ := mask_of_writable hr hw
    exact not_moved_of_mask hr hi (d := reg) (by rw [hreg]; exact List.mem_cons_self)
  rcases hcases with ⟨heq, hcan⟩ | ⟨heq, hcomm, hcan, -⟩
  · have hrev : c.reversed = false := by rw [heq]; rfl
    rw [hrev]
    refine ⟨?_, nofun⟩
    rcases Bool.or_eq_true_iff.mp (hcan hsame) with hdst | hmoved
    · rw [SelectionRequest.situation, hhint] at hdst
      rw [hkeep0 (hkept false hdst)]
      exact hdst
    · rw [← heq] at hmoved
      exact (hmove0 (Bool.and_eq_true_iff.mp hmoved).1).writable hhint
  · have hrev : c.reversed = true := by rw [heq]; rfl
    obtain ⟨hdst0, hmoved0⟩ := not_dst_of_reversed (situation_passed hr).isArgsSame hi hsame hrev
    have hnot0 : c.movArg0 = false := hmoved0 (by rw [SelectionRequest.situation, hhint])
    rw [hrev]
    refine ⟨?_, fun _ => ?_⟩
    · rcases Bool.or_eq_true_iff.mp (hcan hsame) with hdst | hmoved
      · rw [SelectionRequest.situation, hhint] at hdst
        rw [hkeep1 (hkept true hdst)]
        exact hdst
      · rw [← heq] at hmoved
        rcases hmove1 (Bool.and_eq_true_iff.mp hmoved).1 with ⟨hmoved', -⟩ | hbeside
        · rw [hnot0] at hmoved'
          cases hmoved'
        · exact hbeside.writable hhint
    · rw [hkeep0 hnot0]
      refine Bool.eq_false_iff.mpr fun hw => ?_
      rcases hdst0 with hdst0 | ⟨range, hrange⟩
      · rw [SelectionRequest.situation, hhint] at hdst0
        rw [hw] at hdst0
        cases hdst0
      · obtain ⟨reg, hreg⟩ := mask_of_writable hr hw
        have hkind := (kind_of_mask hr (k := false) (d := reg)
          (by rw [hreg]; exact List.mem_cons_self)).2
        change operandKind (r.prelift.args false).storage = _ at hrange
        rcases hkind with hkind | hkind <;> rw [hkind] at hrange <;> cases hrange

/-- **A result in `D15`** that overwrites no source: `D15` is the register of the operand that can
be written, or no operand can be written and none is in it. -/
theorem D15_result (hr : r.WellFormed jobMemory frameTop)
    (hi : chooseInstr (r.situation r.prelift.args) r.family.instructions = (some i, c))
    (hdiff : i.src0_dst_same = false) (hdest : i.destType = .d15) (hhint : r.hint = none) :
    (r.liftFor i c r.prelift).args = r.prelift.args ∧ (r.prelift.args false).writable = false ∧
      ((r.prelift.args true).writable = true →
        (r.prelift.args true).storage = wordReg (.D 15)) ∧
      ((r.prelift.args true).writable = false →
        ∀ k, REG.D 15 ∉ maskOf (r.prelift.args k).storage) := by
  obtain ⟨-, hkeep0, hkeep1, -, -⟩ := liftFor_selected hr hi
  obtain ⟨hmem, hc, hcost, -, -⟩ := chooseInstr_some hi
  have hpassed := situation_passed hr
  obtain ⟨hnot0, hnot1, hdst0, -⟩ := not_dst_of_D15 hpassed hi hdest hdiff
    (by rw [SelectionRequest.situation, hhint])
  have huse : ∀ f : InstrFamily, ∀ i ∈ f.instructions, i.destType = .d15 → i.useD15 = true := by
    intro f
    cases f <;> decide
  have hshift : ∀ f : InstrFamily, ∀ i ∈ f.instructions, i.destType = .d15 →
      f ≠ .sh ∧ f ≠ .sha := by
    intro f
    cases f <;> decide
  have hD15 : r.isD15Available = true :=
    (getInstructionCost_cases (hc ▸ ne_of_lt hcost)).1.useD15 (huse _ i hmem hdest)
  obtain ⟨hsh, hsha⟩ := hshift _ i hmem hdest
  rw [SelectionRequest.situation, hhint] at hdst0
  have hconst : ∀ k, (∃ range, operandKind (r.prelift.args k).storage = .const range) →
      (r.prelift.args k).writable = false := by
    intro k hk
    refine Bool.eq_false_iff.mpr fun hw => ?_
    obtain ⟨reg, hreg⟩ := mask_of_writable hr hw
    have hmask := maskOf_of_kind hk
    rw [hreg] at hmask
    cases hmask
  have hfirst : (r.prelift.args false).writable = false := hdst0.elim id (hconst false)
  -- an operand that cannot be written was not moved from memory
  have hplain : ∀ k, (r.prelift.args k).writable = false →
      REG.D 15 ∉ maskOf (r.prelift.args k).storage ∧ inMemory (r.args k).storage = false := by
    intro k hw
    have hnot : inMemory (r.args k).storage = false := by
      refine Bool.eq_false_iff.mpr fun hmem => ?_
      obtain ⟨reg, w, heq, hw', -⟩ := (prelift_args hr.toTyped k).2.1 hmem
      rw [heq] at hw
      rw [hw' hhint] at hw
      cases hw
    refine ⟨fun hmask => ?_, hnot⟩
    rw [(prelift_args hr.toTyped k).1 hnot] at hmask
    have hstorage := (kind_of_mask hr (k := k) (d := .D 15)
      (by rwa [(prelift_args hr.toTyped k).1 hnot])).1
    rw [(prelift_args hr.toTyped k).1 hnot] at hstorage
    exact (hr.held hsh hsha k _ hstorage).2.2 hD15 rfl
  refine ⟨?_, hfirst, fun hw => ?_, fun hw k => ?_⟩
  · funext k
    cases k with
    | false => exact hkeep0 hnot0
    | true => exact hkeep1 hnot1
  · cases hmemory : inMemory (r.args true).storage with
    | true =>
        obtain ⟨reg, w, heq, -, htarget⟩ := (prelift_args hr.toTyped true).2.1 hmemory
        have hfree := (hplain false hfirst).1
        rw [(prelift_args hr.toTyped false).1 (hplain false hfirst).2] at hfree
        have hreg := htarget (hplain false hfirst).2 (.D 15) true
          (by rw [SelectionRequest.liftTarget, hhint, hD15]; rfl) hfree
        rw [heq, hreg]
    | false =>
        rw [(prelift_args hr.toTyped true).1 hmemory] at hw
        obtain ⟨reg, hreg⟩ := hr.writable true hw
        rw [(hr.held hsh hsha true reg hreg).1] at hw
        cases hw
  · cases k with
    | false => exact (hplain false hfirst).1
    | true => exact (hplain true hw).1

end WithoutHint

/-! ### Exactness -/

section Exactness

variable {r : SelectionRequest} {jobMemory frameTop : BitVec 32} {i : AbstrInstr}
  {c : OperandMovement}

/-- **The register of the result**, and the spills for it. -/
theorem destFor_spec (hr : r.WellFormed jobMemory frameTop) (hclash : ¬ r.Clashes)
    (hi : chooseInstr (r.situation r.prelift.args) r.family.instructions = (some i, c)) :
    ∃ reg, (r.destFor i (r.liftFor i c r.prelift).args).1 = wordReg reg ∧
      (i.destType = .d15 → reg = .D 15) ∧
      (i.src0_dst_same = true → ((r.liftFor i c r.prelift).args c.reversed).storage =
        (r.destFor i (r.liftFor i c r.prelift).args).1) := by
  obtain ⟨hmem, hc, hcost, -, -⟩ := chooseInstr_some hi
  have hpossible := (getInstructionCost_cases (hc ▸ ne_of_lt hcost)).1
  obtain ⟨hfit0, hfit1⟩ := fits_liftFor hr hi
  have hreg : ∀ k, ((r.liftFor i c r.prelift).args k).writable = true →
      ∃ reg, ((r.liftFor i c r.prelift).args k).storage = wordReg reg := by
    intro k hw
    rcases (liftFor_selected hr hi).1.args k with heq | ⟨reg, w, heq, -⟩
    · rw [heq] at hw ⊢
      exact hr.writable k hw
    · rw [heq]
      exact ⟨reg, rfl⟩
  -- an instruction that overwrites `D15` has it as its first source
  have hsrc0 : i.src0_dst_same = true → i.destType = .d15 →
      ((r.liftFor i c r.prelift).args c.reversed).storage = wordReg (.D 15) := by
    intro hsame hdest
    have hall : ∀ f : InstrFamily, ∀ i ∈ f.instructions, i.src0_dst_same = true →
        i.destType = .d15 → i.src0Type = .d15 := by
      intro f
      cases f <;> decide
    have htype := hall _ i hmem hsame hdest
    cases hrev : c.reversed with
    | false =>
        rw [hrev, AbstrInstr.arg0Type, if_neg Bool.false_ne_true, htype] at hfit0
        exact hfit0
    | true =>
        rw [hrev, AbstrInstr.arg1Type, if_pos rfl, htype] at hfit1
        exact hfit1
  cases hhint : r.hint with
  | some h =>
      rw [SelectionRequest.destFor, hhint]
      refine ⟨h.reg, rfl, fun hdest => ?_, fun hsame => src0_eq_hint hr hclash hi hsame hhint⟩
      have hnotD15 := hpossible.destType hdest
      rw [SelectionRequest.situation, hhint] at hnotD15
      simpa using hnotD15
  | none =>
      cases hsame : i.src0_dst_same with
      | true =>
          obtain ⟨hwritable, hfirst⟩ := src0_writable hr hi hsame hhint
          have hdest : (r.destFor i (r.liftFor i c r.prelift).args).1 =
              ((r.liftFor i c r.prelift).args c.reversed).storage := by
            rw [SelectionRequest.destFor, hhint]
            cases hrev : c.reversed with
            | false =>
                rw [hrev] at hwritable
                simp only [hwritable, if_true]
            | true =>
                rw [hrev] at hwritable
                simp only [hfirst hrev, hwritable, Bool.false_eq_true, if_false, if_true]
          obtain ⟨reg, hreg⟩ := hreg _ hwritable
          refine ⟨reg, hdest.trans hreg, fun hD15 => ?_, fun _ => hdest.symm⟩
          rw [hsrc0 hsame hD15] at hreg
          exact (wordReg_inj hreg).symm
      | false =>
          have hD15 := fun hdest => D15_result hr hi hsame hdest hhint
          rw [SelectionRequest.destFor, hhint]
          dsimp only
          split
          · case _ hw =>
              obtain ⟨reg, hreg⟩ := hreg false hw
              refine ⟨reg, hreg, fun hdest => ?_, nofun⟩
              obtain ⟨hargs, hfirst, -⟩ := hD15 hdest
              rw [hargs, hfirst] at hw
              cases hw
          · split
            · case _ hw =>
                obtain ⟨reg, hreg⟩ := hreg true hw
                refine ⟨reg, hreg, fun hdest => ?_, nofun⟩
                obtain ⟨hargs, -, hsecond, -⟩ := hD15 hdest
                rw [hargs] at hw hreg
                rw [hsecond hw] at hreg
                exact (wordReg_inj hreg).symm
            · case _ hw =>
                refine ⟨_, rfl, fun hdest => ?_, nofun⟩
                obtain ⟨hargs, -, -, hfree⟩ := hD15 hdest
                rw [hargs] at hw ⊢
                rw [hdest, beq_self_eq_true, if_pos rfl, reqTargetOrCandidate_target]
                have hnot := hfree (Bool.eq_false_iff.mpr hw)
                exact fun hmem => (List.mem_append.mp hmem).elim (hnot false) (hnot true)

/-- **The spills for the result** keep the operands. -/
theorem run_destFor (hr : r.Typed jobMemory frameTop) {l : Lifting}
    (hl : l.Reads r jobMemory frameTop) (i : AbstrInstr) {stackFence : BitVec 16}
    {s s' : FrameState} {code : List WindowInstr} {m m' : Machine}
    (hcode : emitSteps stackFence s (l.steps ++ (r.destFor i l.args).2) = some (code, s'))
    (hm : m.Frame s.ctx jobMemory frameTop) (hrun : runWindow code m = .ok m') :
    ∀ k, WordStorage (r.args k).storage →
      operandValue jobMemory frameTop m' (l.args k).storage =
        operandValue jobMemory frameTop m (r.args k).storage := by
  have hplain : (r.destFor i l.args).2 = [] ∨ ∃ candidate : RegCandidate,
      (r.destFor i l.args).2 = candidate.spills ∧ candidate.Provides jobMemory frameTop
        (maskOf (l.args false).storage ++ maskOf (l.args true).storage) r.args := by
    rw [SelectionRequest.destFor]
    split
    · exact .inl rfl
    · split
      · exact .inl rfl
      · split
        · exact .inl rfl
        · refine .inr ⟨_, rfl, reqTargetOrCandidate_spec _ (hr.candidate _ _ ?_) ?_⟩
          · have h0 := length_maskOf (l.args false).storage
            have h1 := length_maskOf (l.args true).storage
            rw [List.length_append]
            omega
          · intro reg w htarget
            split at htarget
            · obtain ⟨rfl, -⟩ := Prod.mk.inj (Option.some.inj htarget)
              rfl
            · cases htarget
  rcases hplain with hnil | ⟨candidate, hspills, hprovides⟩
  · rw [hnil, List.append_nil] at hcode
    exact (hl.run hcode hm hrun).2
  · rw [hspills, emitSteps_append] at hcode
    obtain ⟨⟨first, mid⟩, hfirst, hcode⟩ := Option.bind_eq_some_iff.mp hcode
    obtain ⟨⟨rest, last⟩, hrest, hcode⟩ := Option.map_eq_some_iff.mp hcode
    obtain ⟨rfl, rfl⟩ := Prod.mk.inj hcode
    rw [runWindow_append] at hrun
    cases hrun1 : runWindow first m with
    | error e =>
        rw [hrun1] at hrun
        cases hrun
    | ok m1 =>
        rw [hrun1] at hrun
        obtain ⟨hframe, hvalues⟩ := hl.run hfirst hm hrun1
        rcases runWindow_emitSteps hprovides.valid hrest hframe with htrap | ⟨m2, hrun2, hdone⟩
        · exact absurd (hrun.symm.trans htrap) nofun
        · obtain rfl : m' = m2 := Except.ok.inj (hrun.symm.trans hrun2)
          intro k hk
          obtain ⟨havoids, hsame⟩ := hprovides.avoidsAll (hl.inUse hr (k := k) (by
            cases k with
            | false => exact fun reg hreg => List.mem_append_left _ hreg
            | true => exact fun reg hreg => List.mem_append_right _ hreg))
          have hvalid : ValidStorage (l.args k).storage := by
            rcases hl.args k with heq | ⟨reg, w, heq, hdata⟩
            · rw [heq]
              exact hk.1
            · rw [heq]
              exact (wordStorage_wordReg hdata).1
          have hkept := hdone.values _ hvalid havoids
          rw [hsame] at hkept
          rw [← hvalues k hk, operandValue, operandValue, hkept]

/-- The operation of a family is that of its instructions. -/
theorem op_eq_eval {f : InstrFamily} (hmem : i ∈ f.instructions) : f.op = i.mnemonic.eval := by
  cases f <;>
    simp only [InstrFamily.instructions, List.mem_cons, List.not_mem_nil, or_false] at hmem <;>
    rcases hmem with rfl | rfl | rfl | rfl | rfl | rfl | rfl | rfl <;> rfl

end Exactness

/-! ### When a request is exact -/

section Main

variable {r : SelectionRequest} {jobMemory frameTop : BitVec 32} {i : AbstrInstr}
  {c : OperandMovement}

/-- A commutative instruction computes a commutative operation. -/
theorem eval_comm {f : InstrFamily} (hmem : i ∈ f.instructions)
    (hcomm : i.src_0_1_commutative = true) (a b : BitVec 32) :
    i.mnemonic.eval a b = i.mnemonic.eval b a := by
  have hall : ∀ f : InstrFamily, ∀ i ∈ f.instructions, i.src_0_1_commutative = true →
      i.mnemonic ∈ [Mnemonic.ADD, .AND, .OR, .MUL, .XOR] := by
    intro f
    cases f <;> decide
  have hmnemonic := hall f i hmem hcomm
  simp only [List.mem_cons, List.not_mem_nil, or_false] at hmnemonic
  rcases hmnemonic with h | h | h | h | h <;> rw [h]
  · exact BitVec.add_comm a b
  · exact BitVec.and_comm a b
  · exact BitVec.or_comm a b
  · exact BitVec.mul_comm a b
  · exact BitVec.xor_comm a b

/-- An instruction with one source does not depend on the other one. -/
theorem eval_unop {f : InstrFamily} (hmem : i ∈ f.instructions) :
    (i.src1Type = .none → ∀ a b b', i.mnemonic.eval a b = i.mnemonic.eval a b') ∧
      (i.src1Type ≠ .none → f ≠ .clz ∧ f ≠ .popcnt) := by
  have hall : ∀ f : InstrFamily, ∀ i ∈ f.instructions,
      (i.src1Type = .none → i.mnemonic ∈ [Mnemonic.CLZ, .POPCNTW]) ∧
        (i.src1Type ≠ .none → f ≠ .clz ∧ f ≠ .popcnt) := by
    intro f
    cases f <;> decide
  refine ⟨fun htype a b b' => ?_, (hall f i hmem).2⟩
  have hmnemonic := (hall f i hmem).1 htype
  simp only [List.mem_cons, List.not_mem_nil, or_false] at hmnemonic
  rcases hmnemonic with h | h <;> rw [h] <;> rfl

/-- **A request without a clash is exact.** -/
theorem exact_of_not_clashes (hr : r.WellFormed jobMemory frameTop) (hclash : ¬ r.Clashes) :
    r.Exact jobMemory frameTop := by
  obtain ⟨i, c, hi⟩ := exists_chooseInstr (situation_passed hr)
  obtain ⟨hmem, hc, hcost, -, -⟩ := chooseInstr_some hi
  obtain ⟨hfit0, hfit1⟩ := fits_liftFor hr hi
  obtain ⟨reg, hdest, hD15, hsame⟩ := destFor_spec hr hclash hi
  have hreads := (liftFor_selected hr hi).1
  have hcomm : c.reversed = true → i.src_0_1_commutative = true := by
    rw [hc]
    exact (fits_getInstructionCost (situation_passed hr).isArgsSame (hc ▸ ne_of_lt hcost)).1
  let code : SelectedCode :=
    { instr := i
      reversed := c.reversed
      steps := (r.liftFor i c r.prelift).steps ++ (r.destFor i (r.liftFor i c r.prelift).args).2
      dest := (r.destFor i (r.liftFor i c r.prelift).args).1
      src0 := ((r.liftFor i c r.prelift).args c.reversed).storage
      src1 := ((r.liftFor i c r.prelift).args (!c.reversed)).storage }
  have hcode : r.selectInstr = some code := by
    rw [SelectionRequest.selectInstr, hi]
  have hfits : FitsArgType i.src0Type code.src0 ∧ FitsArgType i.src1Type code.src1 := by
    change FitsArgType i.src0Type ((r.liftFor i c r.prelift).args c.reversed).storage ∧
      FitsArgType i.src1Type ((r.liftFor i c r.prelift).args (!c.reversed)).storage
    cases hrev : c.reversed with
    | false =>
        rw [hrev] at hfit0 hfit1
        exact ⟨hfit0, hfit1⟩
    | true =>
        rw [hrev] at hfit0 hfit1
        exact ⟨hfit1, hfit0⟩
  obtain ⟨hdestReg, hread0, hread1⟩ := fields_of_fits jobMemory frameTop
    (show code.instr ∈ r.family.instructions from hmem) hfits.1 hfits.2 hdest hD15 hsame
  refine ⟨code, hcode, ⟨⟨reg, hdest, hdestReg⟩, hsame, hcomm, fun himm => ?_⟩, ?_⟩
  · have hconst : ∃ v, code.src1 = constWord v := by
      have hfit := hfits.2
      change i.src1Type.isImmediate = true at himm
      cases htype : i.src1Type <;> rw [htype] at himm hfit <;> first
        | exact hfit.imp fun _ => And.left
        | cases himm
    obtain ⟨v, hv⟩ := hconst
    refine ⟨v, hv, fun m => ?_⟩
    rw [hread1 (fun hnone => by
      change i.src1Type.isImmediate = true at himm
      rw [show i.src1Type = .none from hnone] at himm
      cases himm) m, hv, operandValue_constWord]
  · intro stackFence s s' window m m' hwindow hm hrun
    have hvalues := run_destFor hr.toTyped hreads i hwindow hm hrun
    have hloc : locationReg code.dest = reg := by
      change locationReg (r.destFor i (r.liftFor i c r.prelift).args).1 = reg
      rw [hdest]
      rfl
    rw [hloc, AbstrInstr.exec, hdestReg, Machine.setReg]
    dsimp only
    rw [Function.update_self, hread0, op_eq_eval hmem]
    have hword0 : WordStorage (r.args false).storage := hr.word (by simp)
    by_cases htype : i.src1Type = .none
    · have hrev : c.reversed = false := by
        refine Bool.eq_false_iff.mpr fun hrev => ?_
        have hall : ∀ f : InstrFamily, ∀ i ∈ f.instructions, i.src_0_1_commutative = true →
            i.src1Type ≠ .none := by
          intro f
          cases f <;> decide
        exact hall _ i hmem (hcomm hrev) htype
      have hsrc0 : operandValue jobMemory frameTop m' code.src0 =
          operandValue jobMemory frameTop m (r.args false).storage := by
        change operandValue jobMemory frameTop m'
          ((r.liftFor i c r.prelift).args c.reversed).storage = _
        rw [hrev]
        exact hvalues false hword0
      rw [hsrc0]
      exact (eval_unop hmem).1 htype _ _ _
    · have hword1 : WordStorage (r.args true).storage := hr.word fun _ => (eval_unop hmem).2 htype
      rw [hread1 htype]
      change i.mnemonic.eval
          (operandValue jobMemory frameTop m' ((r.liftFor i c r.prelift).args c.reversed).storage)
          (operandValue jobMemory frameTop m'
            ((r.liftFor i c r.prelift).args (!c.reversed)).storage) = _
      cases hrev : c.reversed with
      | false => rw [Bool.not_false, hvalues false hword0, hvalues true hword1]
      | true =>
          rw [Bool.not_true, hvalues false hword0, hvalues true hword1]
          exact eval_comm hmem (hcomm hrev) _ _

/-- **A request with a clash is not exact**: the source that is overwritten is in another
register. -/
theorem not_exact_of_clashes (hr : r.WellFormed jobMemory frameTop) (hclash : r.Clashes) :
    ¬ r.Exact jobMemory frameTop := by
  rintro ⟨code, hcode, hencoded, -⟩
  obtain ⟨h, hhint, hwritable, k, v, hmemory, hv, htakes, hk⟩ := hclash
  have hpassed := situation_passed hr
  obtain ⟨i, c, hi⟩ := exists_chooseInstr hpassed
  obtain ⟨-, hkeep0, -, hmove0, hmove1⟩ := liftFor_selected hr hi
  have hhintReg := prelift_hint hr hhint hmemory hv
  have hkept := (prelift_args hr.toTyped (!k)).1 (by rw [hv]; rfl)
  have hmask : h.reg ∈ maskOf (r.prelift.args k).storage := by
    rw [hhintReg]
    exact List.mem_cons_self
  have hkind := (kind_of_mask hr hmask).2
  have hlifted : (r.situation r.prelift.args).liftedIsDst = true := by
    rw [SelectionRequest.situation, hhint]
    exact hwritable
  have hconstKind : operandKind (r.prelift.args (!k)).storage =
      .const (constRange (v.setWidth 32)) := by
    rw [hkept, hv, operandKind_constWord]
  have hnotDst : (h.storage == (r.prelift.args (!k)).storage) = false := by
    rw [hkept, hv]
    exact beq_false_of_ne fun heq => nomatch (VariableStorage.mk.inj heq).2
  rw [SelectionRequest.selectInstr, hi] at hcode
  obtain rfl := Option.some.inj hcode
  have hsame := hencoded.same
  simp only [hhint] at hsame
  cases k with
  | true =>
      have hshift : r.family ≠ .sh ∧ r.family ≠ .sha := by
        constructor <;> intro hf
        · obtain ⟨reg, hreg⟩ := hr.sh (.inl hf)
          rw [hreg] at hmemory
          cases hmemory
        · obtain ⟨reg, hreg⟩ := hr.sh (.inr hf)
          rw [hreg] at hmemory
          cases hmemory
      have hchosen := moved_of_not_takes hpassed hshift hconstKind hkind htakes hlifted
        (by rw [SelectionRequest.situation, hhint]; exact hnotDst)
      rw [hi] at hchosen
      simp only [Option.any_some, Bool.and_eq_true, Bool.not_eq_true'] at hchosen
      obtain ⟨⟨hoverwrites, hrev⟩, hmoved⟩ := hchosen
      rw [hrev] at hsame
      exact (hmove0 hmoved).apart h.reg (hsame hoverwrites) hmask
  | false =>
      obtain ⟨hmachineType, hcomm⟩ := hk.resolve_left nofun
      have hdst0 : (h.storage == (r.prelift.args false).storage) = false := by
        rw [hhintReg]
        refine beq_false_of_ne fun heq => hmachineType ?_
        exact (VariableStorage.mk.inj heq).1
      have hchosen := moved_of_not_takes_swapped hpassed hcomm hkind hconstKind htakes hlifted
        (by rw [SelectionRequest.situation, hhint]; exact ⟨hdst0, hnotDst⟩)
      rw [hi] at hchosen
      simp only [Option.any_some, Bool.and_eq_true] at hchosen
      obtain ⟨⟨hoverwrites, hrev⟩, hmoved⟩ := hchosen
      have hnotMoved := not_moved_of_mask hr hi hmask
      rw [hrev] at hsame
      rcases hmove1 hmoved with ⟨hmoved0, -⟩ | hbeside
      · exact Bool.noConfusion (hmoved0.symm.trans hnotMoved)
      · refine hbeside.apart h.reg (hsame hoverwrites) ?_
        rw [hkeep0 hnotMoved]
        exact hmask

/-- **When selected code is exact**: no operand in memory was moved to a hint that can be written
while the other operand is a constant that no immediate of the family takes. -/
theorem selectInstr_exact_iff (hr : r.WellFormed jobMemory frameTop) :
    r.Exact jobMemory frameTop ↔ ¬ r.Clashes :=
  ⟨fun hexact hclash => not_exact_of_clashes hr hclash hexact, exact_of_not_clashes hr⟩

end Main

/-! ### Subtracting a word in memory from a constant -/

/-- Registers that are free beside those in use. -/
def freeCandidate (protRegs : List REG) : RegCandidate :=
  ⟨[], if .D 3 ∉ protRegs then .D 3 else if .D 4 ∉ protRegs then .D 4 else .D 5⟩

/-- The subtraction of a stack slot from `1000`, with a hint. -/
def subFromConst (hint : Option TargetHint) : SelectionRequest where
  family := .sub
  args k := if k then ⟨⟨.i32, .stackMemory 8⟩, false⟩ else ⟨constWord 1000, false⟩
  hint := hint
  isD15Available := false
  candidate _ := freeCandidate

/-- A free register is provided. -/
theorem provides_freeCandidate {jobMemory frameTop : BitVec 32} {protRegs : List REG}
    (h : protRegs.length ≤ 2) (args : Bool → SelectionOperand) :
    (freeCandidate protRegs).Provides jobMemory frameTop protRegs args := by
  refine ⟨?_, ?_, by simp [freeCandidate], by simp [freeCandidate]⟩
  · rw [freeCandidate]
    split
    · rfl
    · split <;> rfl
  · rw [freeCandidate]
    dsimp only
    split
    · assumption
    · split
      · assumption
      · match protRegs with
        | [] => simp
        | [a] =>
            rename_i h3 h4
            intro h5
            simp only [List.mem_singleton, not_not] at h3 h4 h5
            exact absurd (h3.trans h4.symm) (by decide)
        | [a, b] =>
            rename_i h3 h4
            intro h5
            simp only [List.mem_cons, List.not_mem_nil, or_false, not_not] at h3 h4 h5
            rcases h3 with rfl | rfl <;> rcases h4 with h4 | h4 <;> rcases h5 with h5 | h5 <;>
              first
              | exact absurd h4 (by decide)
              | exact absurd h5 (by decide)
              | exact absurd (h4.trans h5.symm) (by decide)
        | _ :: _ :: _ :: _ =>
            simp only [List.length_cons] at h
            omega

/-- The subtraction is as a caller passes it. -/
theorem wellFormed_subFromConst {hint : Option TargetHint}
    (h : ∀ t, hint = some t → t.reg.isDATA = true) :
    (subFromConst hint).WellFormed 0 0x1000 := by
  have hnotReg : ∀ k reg, ((subFromConst hint).args k).storage ≠ wordReg reg := by
    intro k reg heq
    cases k <;> exact nomatch (VariableStorage.mk.inj heq).2
  refine ⟨⟨fun k => .inl ?_, h, fun k protRegs hlength => provides_freeCandidate hlength _⟩, ?_, ?_,
    ?_, nofun, nofun, fun _ => ⟨fun v heq => ?_, fun v heq => ?_⟩, ?_, ?_⟩
  · cases k <;> exact ⟨⟨nofun, trivial⟩, rfl⟩
  · intro heq
    exact nomatch (VariableStorage.mk.inj heq).1
  · intro k hw
    cases k <;> cases hw
  · exact fun _ _ k reg heq => absurd heq (hnotReg k reg)
  · exact nomatch (VariableStorage.mk.inj heq).2
  · have hconst : (1000 : Word) = v := by
      injection (VariableStorage.mk.inj heq).2
    subst hconst
    decide
  · rintro (hf | hf) <;> cases hf
  · rintro (hf | hf) <;> cases hf

/-- Without a hint, the subtraction is exact. -/
theorem subFromConst_exact : (subFromConst none).Exact 0 0x1000 := by
  have hwell : (subFromConst none).WellFormed 0 0x1000 :=
    wellFormed_subFromConst fun _ h => by cases h
  refine (selectInstr_exact_iff hwell).mpr ?_
  rintro ⟨h, hhint, -⟩
  cases hhint

/-- **With a hint in a scratch register**, the word is moved there and subtracted from itself. -/
theorem not_subFromConst_exact :
    (subFromConst (some ⟨.D 2, .i32, true, true⟩)).WellFormed 0 0x1000 ∧
      ¬ (subFromConst (some ⟨.D 2, .i32, true, true⟩)).Exact 0 0x1000 ∧
      ∃ code, (subFromConst (some ⟨.D 2, .i32, true, true⟩)).selectInstr = some code ∧
        ∀ m, (code.instr.exec code.fields m).regs (locationReg code.dest) = 0 := by
  have hhint : ∀ t, some (⟨.D 2, .i32, true, true⟩ : TargetHint) = some t →
      t.reg.isDATA = true := by
    intro t ht
    obtain rfl := Option.some.inj ht
    rfl
  have hwell := wellFormed_subFromConst hhint
  refine ⟨hwell,
    not_exact_of_clashes hwell ⟨_, rfl, rfl, true, 1000, rfl, rfl, by decide, .inl rfl⟩,
    ⟨I_SUB_Da_Db, false, [.lift (.D 2) ⟨.i32, .stackMemory 8⟩, .lift (.D 3) (constWord 1000)],
      wordReg (.D 2), wordReg (.D 3), wordReg (.D 2)⟩, by decide +kernel, fun m => ?_⟩
  change (m.setReg (.D 2) (m.regs (.D 2) - m.regs (.D 2))).regs (.D 2) = 0
  rw [BitVec.sub_self, Machine.setReg]
  exact Function.update_self (REG.D 2) 0 m.regs

end TriCore

end WasmCompiler
