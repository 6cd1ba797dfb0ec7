import WasmCompiler.TriCoreAddressScratch

/-!
# Spills on TriCore

What the code does that the register allocator emits to provide a register. A register is spilled
to a slot of the frame, which may have to grow for it, behind a check of the stack fence if it
grows beyond the size that was checked; an operand is lifted to a register.

## Main results

* `runWindow_emit`: a step ends at the stack fence, or moves one value.
* `runWindow_emitSteps`: steps end at the stack fence, or keep every value, in the place that is
  recorded for it.
-/

namespace WasmCompiler

namespace TriCore

open ByteMemory Machine

/-! ### Values that are not overwritten -/

/-- The value of a storage does not depend on other registers and other bytes. -/
theorem storageValue_of_changes {regs : REG → Prop} {bytes : BitVec 32 → Prop} {m m' : Machine}
    (h : m.Changes regs bytes m') {jobMemory frameTop : BitVec 32} {s : VariableStorage REG}
    (hvalid : s.machineType ≠ .invalid) (hregs : ∀ r, StorageReg s r → ¬ regs r)
    (hbytes : ∀ x, StorageByte jobMemory frameTop s x → ¬ bytes x) :
    storageValue jobMemory frameTop m' s = storageValue jobMemory frameTop m s := by
  by_cases hmem : InMemory s
  · obtain ⟨a, ha⟩ : ∃ a, cellAddress? jobMemory frameTop s = some a := by
      obtain ⟨p, hp | hp⟩ := hmem <;> exact ⟨_, by rw [cellAddress?, hp]⟩
    rw [storageValue_of_cell hmem ha, storageValue_of_cell hmem ha]
    have hword : ∀ b, (∀ x, InBlock b 4 x → InBlock a s.machineType.getSize x) →
        m'.load b = m.load b := fun b hb =>
      ByteMemory.readWord_congr fun x hx => h.mem x (hbytes x ⟨a, ha, hb x hx⟩)
    cases h64 : s.machineType.is64 with
    | true =>
        have hsize : s.machineType.getSize = 8 := by
          cases hs : s.machineType <;> simp_all [MachineType.is64, MachineType.getSize]
        rw [hsize] at hword
        rw [loadValue, loadValue, if_pos rfl, if_pos rfl, hword (a + 4) fun x =>
          inBlock_of_add_four, hword a fun x hx => lt_of_lt_of_le hx (by decide)]
    | false =>
        have hsize : s.machineType.getSize = 4 := by
          cases hs : s.machineType <;> simp_all [MachineType.is64, MachineType.getSize]
        rw [hsize] at hword
        rw [loadValue, loadValue, if_neg (by decide), if_neg (by decide), hword a fun x => id]
  · obtain ⟨machineType, location⟩ := s
    cases location with
    | register r =>
        have hlow : m'.regs r = m.regs r := h.regs r (hregs r (.inl rfl))
        cases h64 : machineType.is64 with
        | true =>
            have hhigh := h.regs r.getOtherExtReg (hregs r.getOtherExtReg (.inr ⟨h64, rfl⟩))
            simp only [storageValue, regValue, h64, if_true, hlow, hhigh]
        | false => simp only [storageValue, regValue, h64, Bool.false_eq_true, if_false, hlow]
    | constant c => simp only [storageValue]
    | linkData p => exact absurd ⟨p, .inl rfl⟩ hmem
    | stackMemory p => exact absurd ⟨p, .inr rfl⟩ hmem
    | invalid => simp only [storageValue, cellAddress?, Option.map_none]

/-! ### One step -/

namespace AllocStep

/-- The storage that a step writes. -/
def target : AllocStep → VariableStorage REG
  | spill source newOffset => .stackMemory source.machineType newOffset
  | lift dstReg source => ⟨source.machineType, .register dstReg⟩

/-- The storage that a step reads. -/
def source : AllocStep → VariableStorage REG
  | spill source _ => source
  | lift _ source => source

/-- The storage that is recorded for a value after a step. -/
def relocate (step : AllocStep) (s : VariableStorage REG) : VariableStorage REG :=
  match step with
  | spill source _ => if s = source then step.target else s
  | lift _ _ => s

/-- A step writes neither the registers nor the bytes of a storage. -/
structure Avoids (jobMemory frameTop : BitVec 32) (step : AllocStep) (s : VariableStorage REG) :
    Prop where
  regs : ∀ r, StorageReg s r → ¬ StorageReg step.target r
  bytes : ∀ x, StorageByte jobMemory frameTop s x → ¬ StorageByte jobMemory frameTop step.target x

end AllocStep

/-- What a step does: its value is in its target, and besides it only the stack pointer and the
scratch registers change. -/
structure StepDone (jobMemory frameTop : BitVec 32) (s' : FrameState) (step : AllocStep)
    (m m' : Machine) : Prop where
  frame : m'.Frame s'.ctx jobMemory frameTop
  value : storageValue jobMemory frameTop m' step.target =
    storageValue jobMemory frameTop m step.source
  changes : m.Changes (fun r => StorageReg step.target r ∨ ScratchReg r ∨ r = .SP)
    (StorageByte jobMemory frameTop step.target) m'

section Steps

variable {jobMemory frameTop : BitVec 32} {stackFence : BitVec 16} {s s' : FrameState}
  {m : Machine}

/-- The code of moves is executed. -/
theorem runWindow_plainWindow (code : List Instr) (rest : List WindowInstr) (m : Machine) :
    runWindow (plainWindow code ++ rest) m = runWindow rest (execAll code m) := by
  induction code generalizing m with
  | nil => rfl
  | cons i code ih =>
      have haligned : (BulkOp.plain i).isAligned m = true := rfl
      rw [plainWindow, List.map_cons, List.cons_append, runWindow, if_pos haligned]
      exact ih (i.exec m)

/-- Making the frame larger. -/
theorem execAll_setStackFrameSize {frameSize : UInt32} {code : List Instr}
    (h : s.setStackFrameSize frameSize = some (code, s')) (hm : m.Frame s.ctx jobMemory frameTop) :
    (execAll code m).Frame s'.ctx jobMemory frameTop ∧
      m.Changes (· = .SP) NoBytes (execAll code m) := by
  have hs' := setStackFrameSize_eq h
  have hsub : ∀ a b : UInt32, (a - b).toBitVec = a.toBitVec - b.toBitVec := fun _ _ => rfl
  have hshrink : ∀ t a b : BitVec 32, t - a + (a - b) = t - b := by grind
  have hgrow : ∀ t a b : BitVec 32, t - a - (b - a) = t - b := by grind
  have hdone : ∀ m1 : Machine, m.Sets .SP (frameTop - frameSize.toBitVec) m1 →
      m1.Frame s'.ctx jobMemory frameTop ∧ m.Changes (· = .SP) NoBytes m1 := by
    intro m1 hsets
    refine ⟨⟨?_, ?_⟩, hsets.changes⟩
    · rw [hsets.regs, Function.update_of_ne (by decide), hm.linMem, hs']
    · rw [hsets.regs, Function.update_self, hs']
  rw [FrameState.setStackFrameSize] at h
  split at h
  · case _ heq =>
      obtain ⟨rfl, rfl⟩ := Prod.mk.inj (Option.some.inj h)
      exact ⟨hm, .refl _ _ m⟩
  · split at h
    · cases h
    · obtain ⟨rfl, -⟩ := Prod.mk.inj (Option.some.inj h)
      split
      · have hsets := execAll_addImmToReg .SP (s.ctx.stackFrameSize - frameSize).toBitVec .SP m
        rw [hm.stackPointer, hsub, hshrink] at hsets
        exact hdone _ hsets
      · have hsets := execAll_subSp (frameSize - s.ctx.stackFrameSize).toBitVec m
        rw [hm.stackPointer, hsub, hgrow] at hsets
        exact hdone _ hsets

/-- The check of the stack fence, with `D0` kept in a scratch register. -/
def fenceCheck (stackFence : BitVec 16) : List WindowInstr :=
  .op (.MOVA_Aa_Db (addrScrReg 1) (.D 0)) :: (checkStackFence stackFence (.D 0) (addrScrReg 0) ++
    [.op (.MOVD_Da_Ab (.D 0) (addrScrReg 1))])

/-- The check of the stack fence traps, or changes only scratch registers. -/
theorem runWindow_fenceCheck (stackFence : BitVec 16) (m : Machine) (rest : List WindowInstr) :
    runWindow (fenceCheck stackFence ++ rest) m = .error (.trap .stackFenceBreached) ∨
      ∃ m', runWindow (fenceCheck stackFence ++ rest) m = runWindow rest m' ∧
        m.Changes ScratchReg NoBytes m' := by
  let fence : BitVec 32 := m.load (m.regs linMem + (0 - stackFence).signExtend 32)
  let m1 : Machine := ((m.setReg (addrScrReg 1) (m.regs (.D 0))).setReg (addrScrReg 0) fence).setReg
    (.D 0) (if m.regs .SP ≤ fence then 1 else 0)
  have hrun : runWindow (fenceCheck stackFence ++ rest) m =
      if (m1.regs (.D 0)).getLsbD 0 then .error (.trap .stackFenceBreached)
      else runWindow rest (m1.setReg (.D 0) (m1.regs (addrScrReg 1))) := by
    rfl
  rw [hrun]
  split
  · exact .inl rfl
  · refine .inr ⟨_, rfl, fun r hr => ?_, fun _ _ => rfl⟩
    have hne : ∀ i, r ≠ addrScrReg i := fun i heq => hr ⟨i, heq⟩
    by_cases hD : r = .D 0
    · subst hD
      simp [m1, Machine.setReg, addrScrReg]
    · simp [m1, Machine.setReg, hD, hne]

/-- **Requesting a slot** ends at the stack fence, or makes the frame large enough. -/
theorem runWindow_reqSpillTarget {type : MachineType} {newOffset : UInt32}
    {code : List WindowInstr} {target : VariableStorage REG}
    (h : reqSpillTarget stackFence s type newOffset = some (code, s', target))
    (hm : m.Frame s.ctx jobMemory frameTop) (rest : List WindowInstr) :
    runWindow (code ++ rest) m = .error (.trap .stackFenceBreached) ∨
      ∃ m', runWindow (code ++ rest) m = runWindow rest m' ∧
        m'.Frame s'.ctx jobMemory frameTop ∧
        m.Changes (fun r => ScratchReg r ∨ r = .SP) NoBytes m' := by
  rw [reqSpillTarget] at h
  dsimp only at h
  split at h
  · obtain ⟨⟨grow, grown⟩, hset, h⟩ := Option.bind_eq_some_iff.mp h
    obtain ⟨hframe, hchanges⟩ := execAll_setStackFrameSize hset hm
    have hgrow : m.Changes (fun r => ScratchReg r ∨ r = .SP) NoBytes (execAll grow m) :=
      hchanges.mono (fun _ => .inr) fun _ => id
    dsimp only at h
    split at h
    · simp only [pure, Option.some.injEq, Prod.mk.injEq] at h
      obtain ⟨rfl, rfl, -⟩ := h
      have hcheck := runWindow_fenceCheck stackFence (execAll grow m) rest
      have hcode : ∀ check : List WindowInstr, runWindow (plainWindow grow ++ check ++ rest) m =
          runWindow (check ++ rest) (execAll grow m) := fun check => by
        rw [List.append_assoc, runWindow_plainWindow]
      rw [← hcode] at hcheck
      rcases hcheck with htrap | ⟨m', hrun, hscratch⟩
      · exact .inl htrap
      · refine .inr ⟨m', hrun, hframe.of_changes hscratch (fun hr => ?_) (fun hr => ?_),
          hgrow.trans (hscratch.mono (fun _ => .inl) fun _ => id)⟩
        · obtain ⟨i, hi⟩ := hr
          revert hi
          revert i
          decide
        · obtain ⟨i, hi⟩ := hr
          revert hi
          revert i
          decide
    · simp only [pure, Option.some.injEq, Prod.mk.injEq] at h
      obtain ⟨rfl, rfl, -⟩ := h
      exact .inr ⟨_, runWindow_plainWindow grow rest m, hframe, hgrow⟩
  · simp only [Option.some.injEq, Prod.mk.injEq] at h
    obtain ⟨rfl, rfl, -⟩ := h
    exact .inr ⟨m, rfl, hm, .refl _ _ m⟩

/-- The stack pointer and the linear memory register are no scratch registers. -/
theorem not_scratchReg_frame : ¬ ScratchReg .SP ∧ ¬ ScratchReg linMem := by
  refine ⟨fun ⟨i, hi⟩ => ?_, fun ⟨i, hi⟩ => ?_⟩
  · revert hi
    revert i
    decide
  · revert hi
    revert i
    decide

/-- A move of the allocator. -/
theorem runWindow_move {dst src : VariableStorage REG} (hmove : RegisterMove dst src)
    {ctx : AddressingContext} {code : List Instr}
    (hcode : emitMoveImpl ctx dst src false = some code) (hm : m.Frame ctx jobMemory frameTop)
    (rest : List WindowInstr) :
    ∃ m', runWindow (plainWindow code ++ rest) m = runWindow rest m' ∧
      m'.Frame ctx jobMemory frameTop ∧
      storageValue jobMemory frameTop m' dst = storageValue jobMemory frameTop m src ∧
      m.Changes (fun r => StorageReg dst r ∨ ScratchReg r) (StorageByte jobMemory frameTop dst)
        m' := by
  obtain ⟨code', hcode', hmoved⟩ := hmove.moveCorrect ctx
  obtain rfl : code' = code := Option.some.inj (hcode'.symm.trans hcode)
  obtain ⟨hvalue, hchanges⟩ := hmoved jobMemory frameTop m hm
  have hdata : ∀ r : REG, r.isDATA = false → ¬ StorageReg dst r := by
    intro r hr hreg
    rw [hmove.validDst.isDATA hreg] at hr
    cases hr
  obtain ⟨hsp, hlinMem⟩ := not_scratchReg_frame
  refine ⟨_, runWindow_plainWindow code' rest m, hm.of_changes hchanges ?_ ?_, hvalue, hchanges⟩
  · exact fun h => h.elim (hdata _ rfl) hlinMem
  · exact fun h => h.elim (hdata _ rfl) hsp

/-- **A step** ends at the stack fence, or moves its value. -/
theorem runWindow_emit {step : AllocStep} (hstep : step.Valid) {code : List WindowInstr}
    (h : step.emit stackFence s = some (code, s')) (hm : m.Frame s.ctx jobMemory frameTop)
    (rest : List WindowInstr) :
    runWindow (code ++ rest) m = .error (.trap .stackFenceBreached) ∨
      ∃ m', runWindow (code ++ rest) m = runWindow rest m' ∧
        StepDone jobMemory frameTop s' step m m' := by
  cases step with
  | spill source newOffset =>
      obtain ⟨⟨grow, grown, target⟩, hrequest, h⟩ := Option.bind_eq_some_iff.mp h
      obtain ⟨move, hmove, h⟩ := Option.bind_eq_some_iff.mp h
      simp only [pure, Option.some.injEq, Prod.mk.injEq] at h
      obtain ⟨rfl, rfl⟩ := h
      obtain ⟨rfl, -, -⟩ := reqSpillTarget_spec hrequest source
      rw [List.append_assoc]
      rcases runWindow_reqSpillTarget hrequest hm (plainWindow move ++ rest) with
        htrap | ⟨m1, hrun, hframe, hgrow⟩
      · exact .inl htrap
      · obtain ⟨m', hrun', hframe', hvalue, hchanges⟩ :=
          runWindow_move hstep.registerMove_spill hmove hframe rest
        refine .inr ⟨m', hrun.trans hrun', hframe', hvalue.trans ?_, ?_⟩
        · refine storageValue_congr hgrow (fun r hr hscratch => ?_) jobMemory frameTop
          have hdata := hstep.1.isDATA hr
          rcases hscratch with hscratch | rfl
          · exact not_scratchReg hdata hscratch
          · cases hdata
        · exact (hgrow.mono (fun _ => .inr) fun _ => False.elim).trans
            (hchanges.mono (fun _ => Or.imp_right .inl) fun _ => id)
  | lift dstReg source =>
      obtain ⟨move, hmove, h⟩ := Option.bind_eq_some_iff.mp h
      simp only [pure, Option.some.injEq, Prod.mk.injEq] at h
      obtain ⟨rfl, rfl⟩ := h
      obtain ⟨m', hrun, hframe, hvalue, hchanges⟩ :=
        runWindow_move hstep.registerMove_lift hmove hm rest
      exact .inr ⟨m', hrun, hframe, hvalue,
        hchanges.mono (fun _ => Or.imp_right .inl) fun _ => id⟩

/-- A value is kept by a step, where it is recorded. -/
theorem StepDone.storageValue_relocate {step : AllocStep} {m' : Machine}
    (h : StepDone jobMemory frameTop s' step m m') {t : VariableStorage REG} (ht : ValidStorage t)
    (havoids : step.Avoids jobMemory frameTop t) :
    storageValue jobMemory frameTop m' (step.relocate t) = storageValue jobMemory frameTop m t := by
  have hkept : storageValue jobMemory frameTop m' t = storageValue jobMemory frameTop m t := by
    refine storageValue_of_changes h.changes ht.1 (fun r hr hchanged => ?_) havoids.bytes
    have hdata := ht.isDATA hr
    rcases hchanged with htarget | hscratch | rfl
    · exact havoids.regs r hr htarget
    · exact not_scratchReg hdata hscratch
    · cases hdata
  cases step with
  | lift dstReg source => exact hkept
  | spill source newOffset =>
      rw [AllocStep.relocate]
      split
      · case _ heq =>
          subst heq
          exact h.value
      · exact hkept

end Steps

/-! ### Steps -/

/-- The storage that is recorded for a value after steps. -/
def relocateAll (steps : List AllocStep) (t : VariableStorage REG) : VariableStorage REG :=
  steps.foldl (fun t step => step.relocate t) t

/-- Steps do not overwrite a value, wherever it is recorded. -/
def AvoidsAll (jobMemory frameTop : BitVec 32) : List AllocStep → VariableStorage REG → Prop
  | [], _ => True
  | step :: steps, t =>
      step.Avoids jobMemory frameTop t ∧ AvoidsAll jobMemory frameTop steps (step.relocate t)

/-- A register that steps lift an operand to. -/
def LiftedReg (steps : List AllocStep) (r : REG) : Prop :=
  ∃ step ∈ steps, StorageReg step.target r

/-- A byte of a slot that steps write. -/
def SlotByte (jobMemory frameTop : BitVec 32) (steps : List AllocStep) (x : BitVec 32) : Prop :=
  ∃ step ∈ steps, StorageByte jobMemory frameTop step.target x

/-- What steps do: values are where they are recorded, and besides them only the stack pointer
and the scratch registers change. -/
structure StepsDone (jobMemory frameTop : BitVec 32) (s' : FrameState) (steps : List AllocStep)
    (m m' : Machine) : Prop where
  frame : m'.Frame s'.ctx jobMemory frameTop
  values : ∀ t, ValidStorage t → AvoidsAll jobMemory frameTop steps t →
    storageValue jobMemory frameTop m' (relocateAll steps t) = storageValue jobMemory frameTop m t
  changes : m.Changes (fun r => LiftedReg steps r ∨ ScratchReg r ∨ r = .SP)
    (SlotByte jobMemory frameTop steps) m'

/-- The storage that is recorded for a value is valid. -/
theorem AllocStep.Valid.validStorage_relocate {step : AllocStep} (h : step.Valid)
    {t : VariableStorage REG} (ht : ValidStorage t) : ValidStorage (step.relocate t) := by
  cases step with
  | spill source newOffset =>
      rw [relocate]
      split
      · exact ⟨h.1.1, trivial⟩
      · exact ht
  | lift dstReg source => exact ht

/-- The storages that are recorded for a value are valid. -/
theorem validStorage_relocateAll {steps : List AllocStep} (h : ∀ step ∈ steps, step.Valid)
    {t : VariableStorage REG} (ht : ValidStorage t) : ValidStorage (relocateAll steps t) := by
  induction steps generalizing t with
  | nil => exact ht
  | cons step steps ih =>
      exact ih (fun a ha => h a (List.mem_cons_of_mem _ ha))
        ((h step List.mem_cons_self).validStorage_relocate ht)

/-- **Steps** end at the stack fence, or keep every value in the place that is recorded for it. -/
theorem runWindow_emitSteps {jobMemory frameTop : BitVec 32} {stackFence : BitVec 16}
    {s s' : FrameState} {steps : List AllocStep} (hsteps : ∀ step ∈ steps, step.Valid)
    {code : List WindowInstr} (h : emitSteps stackFence s steps = some (code, s')) {m : Machine}
    (hm : m.Frame s.ctx jobMemory frameTop) :
    runWindow code m = .error (.trap .stackFenceBreached) ∨
      ∃ m', runWindow code m = .ok m' ∧ StepsDone jobMemory frameTop s' steps m m' := by
  induction steps generalizing s code m with
  | nil =>
      simp only [emitSteps, Option.some.injEq, Prod.mk.injEq] at h
      obtain ⟨rfl, rfl⟩ := h
      exact .inr ⟨m, rfl, hm, fun _ _ _ => rfl, .refl _ _ m⟩
  | cons step steps ih =>
      rw [emitSteps] at h
      obtain ⟨⟨first, mid⟩, hfirst, h⟩ := Option.bind_eq_some_iff.mp h
      obtain ⟨⟨rest, last⟩, hrest, h⟩ := Option.bind_eq_some_iff.mp h
      simp only [pure, Option.some.injEq, Prod.mk.injEq] at h
      obtain ⟨rfl, rfl⟩ := h
      have hstep := hsteps step List.mem_cons_self
      rcases runWindow_emit hstep hfirst hm rest with htrap | ⟨m1, hrun, hdone⟩
      · exact .inl htrap
      · rw [hrun]
        rcases ih (fun a ha => hsteps a (List.mem_cons_of_mem _ ha)) hrest hdone.frame with
          htrap | ⟨m', hrun', hdone'⟩
        · exact .inl htrap
        · refine .inr ⟨m', hrun', hdone'.frame, fun t ht havoids => ?_, ?_⟩
          · exact (hdone'.values _ (hstep.validStorage_relocate ht) havoids.2).trans
              (hdone.storageValue_relocate ht havoids.1)
          · refine (hdone.changes.mono (fun r hr => ?_) fun x hx => ?_).trans
              (hdone'.changes.mono (fun r hr => ?_) fun x hx => ?_)
            · exact hr.imp_left fun hr => ⟨step, List.mem_cons_self, hr⟩
            · exact ⟨step, List.mem_cons_self, hx⟩
            · refine hr.imp_left fun hr => ?_
              obtain ⟨a, ha, hr⟩ := hr
              exact ⟨a, List.mem_cons_of_mem _ ha, hr⟩
            · obtain ⟨a, ha, hx⟩ := hx
              exact ⟨a, List.mem_cons_of_mem _ ha, hx⟩

/-- One list of steps behind another. -/
theorem emitSteps_append (stackFence : BitVec 16) (s : FrameState) (steps steps' : List AllocStep) :
    emitSteps stackFence s (steps ++ steps') =
      (emitSteps stackFence s steps).bind fun first =>
        (emitSteps stackFence first.2 steps').map fun rest => (first.1 ++ rest.1, rest.2) := by
  induction steps generalizing s with
  | nil =>
      rw [List.nil_append, emitSteps, Option.bind_some]
      cases emitSteps stackFence s steps' <;> rfl
  | cons step steps ih =>
      rw [List.cons_append, emitSteps, emitSteps]
      cases step.emit stackFence s with
      | none => rfl
      | some first =>
          simp only [Option.bind_eq_bind, Option.bind_some, ih]
          cases emitSteps stackFence first.2 steps with
          | none => rfl
          | some mid =>
              cases hrest : emitSteps stackFence mid.2 steps' with
              | none => simp [hrest]
              | some rest => simp [hrest]

/-- The storage that is recorded behind one list of steps and another. -/
theorem relocateAll_append (steps steps' : List AllocStep) (t : VariableStorage REG) :
    relocateAll (steps ++ steps') t = relocateAll steps' (relocateAll steps t) :=
  List.foldl_append

/-- Neither of two lists of steps overwrites a value. -/
theorem avoidsAll_append {jobMemory frameTop : BitVec 32} {steps steps' : List AllocStep}
    {t : VariableStorage REG} :
    AvoidsAll jobMemory frameTop (steps ++ steps') t ↔
      AvoidsAll jobMemory frameTop steps t ∧
        AvoidsAll jobMemory frameTop steps' (relocateAll steps t) := by
  induction steps generalizing t with
  | nil => exact by simp [AvoidsAll, relocateAll]
  | cons step steps ih =>
      rw [List.cons_append, AvoidsAll, AvoidsAll, ih, and_assoc]
      rfl

/-- **One list of steps behind another.** -/
theorem StepsDone.append {jobMemory frameTop : BitVec 32} {s1 s2 : FrameState}
    {steps steps' : List AllocStep} {m m1 m2 : Machine} (hsteps : ∀ step ∈ steps, step.Valid)
    (h : StepsDone jobMemory frameTop s1 steps m m1)
    (h' : StepsDone jobMemory frameTop s2 steps' m1 m2) :
    StepsDone jobMemory frameTop s2 (steps ++ steps') m m2 where
  frame := h'.frame
  values t ht havoids := by
    obtain ⟨hfirst, hsecond⟩ := avoidsAll_append.mp havoids
    rw [relocateAll_append, h'.values _ (validStorage_relocateAll hsteps ht) hsecond,
      h.values t ht hfirst]
  changes := by
    refine (h.changes.mono (fun r hr => ?_) fun x hx => ?_).trans
      (h'.changes.mono (fun r hr => ?_) fun x hx => ?_)
    · exact hr.imp_left fun ⟨a, ha, hr⟩ => ⟨a, List.mem_append_left _ ha, hr⟩
    · obtain ⟨a, ha, hx⟩ := hx
      exact ⟨a, List.mem_append_left _ ha, hx⟩
    · exact hr.imp_left fun ⟨a, ha, hr⟩ => ⟨a, List.mem_append_right _ ha, hr⟩
    · obtain ⟨a, ha, hx⟩ := hx
      exact ⟨a, List.mem_append_right _ ha, hx⟩

/-- Spills write no register but the stack pointer and the scratch registers. -/
theorem StepsDone.regs_of_spills {jobMemory frameTop : BitVec 32} {s' : FrameState}
    {steps : List AllocStep} {m m' : Machine} (h : StepsDone jobMemory frameTop s' steps m m')
    (hspills : ∀ step ∈ steps, ∃ source newOffset, step = .spill source newOffset) {r : REG}
    (hr : r.isDATA = true) : m'.regs r = m.regs r := by
  refine h.changes.regs r ?_
  rintro (⟨step, hstep, htarget⟩ | hscratch | rfl)
  · obtain ⟨source, newOffset, rfl⟩ := hspills step hstep
    exact htarget
  · exact not_scratchReg hr hscratch
  · cases hr

/-- Code of the allocator is executed in order. -/
theorem runWindow_append (code code' : List WindowInstr) (m : Machine) :
    runWindow (code ++ code') m = (runWindow code m).bind (runWindow code') := by
  induction code generalizing m with
  | nil => rfl
  | cons i code ih =>
      cases i with
      | op o =>
          rw [List.cons_append, runWindow, runWindow]
          split
          · exact ih _
          · rfl
      | cTRAPBitTrue trapCode da n =>
          rw [List.cons_append, runWindow, runWindow]
          split
          · rfl
          · exact ih _

/-- **Lifting behind spills** leaves the operand in its register. -/
theorem runWindow_spills_lift {jobMemory frameTop : BitVec 32} {stackFence : BitVec 16}
    {s s' : FrameState} {spills : List AllocStep} {dstReg : REG} {operand : VariableStorage REG}
    (hsteps : ∀ step ∈ spills ++ [.lift dstReg operand], step.Valid) {code : List WindowInstr}
    (h : emitSteps stackFence s (spills ++ [.lift dstReg operand]) = some (code, s')) {m : Machine}
    (hm : m.Frame s.ctx jobMemory frameTop) (hvalid : ValidStorage operand)
    (havoids : AvoidsAll jobMemory frameTop spills operand)
    (hsame : relocateAll spills operand = operand) {m' : Machine} (hrun : runWindow code m = .ok m') :
    storageValue jobMemory frameTop m' ⟨operand.machineType, .register dstReg⟩ =
      storageValue jobMemory frameTop m operand := by
  rw [emitSteps_append] at h
  obtain ⟨⟨first, mid⟩, hfirst, h⟩ := Option.bind_eq_some_iff.mp h
  obtain ⟨⟨rest, last⟩, hrest, h⟩ := Option.map_eq_some_iff.mp h
  obtain ⟨rfl, rfl⟩ := Prod.mk.inj h
  obtain ⟨⟨lift, lifted⟩, hlift, hrest⟩ := Option.bind_eq_some_iff.mp hrest
  obtain ⟨rfl, rfl⟩ := Prod.mk.inj (Option.some.inj hrest)
  rw [runWindow_append] at hrun
  have hspills : ∀ step ∈ spills, step.Valid := fun step hstep =>
    hsteps step (List.mem_append_left _ hstep)
  rcases runWindow_emitSteps hspills hfirst hm with htrap | ⟨m1, hrun1, hdone⟩
  · rw [htrap] at hrun
    cases hrun
  · rw [hrun1] at hrun
    have hstep : (AllocStep.lift dstReg operand).Valid :=
      hsteps _ (List.mem_append_right _ List.mem_cons_self)
    rcases runWindow_emit hstep hlift hdone.frame [] with htrap | ⟨m2, hrun2, hstepDone⟩
    · exact absurd (hrun.symm.trans htrap) (by simp)
    · obtain rfl : m' = m2 := Except.ok.inj (hrun.symm.trans hrun2)
      have hvalue := hdone.values operand hvalid havoids
      rw [hsame] at hvalue
      exact hstepDone.value.trans hvalue

/-- No address register is part of a storage. -/
theorem not_storageReg_of_address {s : VariableStorage REG} (hs : ValidStorage s) {r : REG}
    (hr : r.isDATA = false) : ¬ StorageReg s r := by
  intro hreg
  rw [hs.isDATA hreg] at hr
  cases hr

/-- Bytes that no slot of one list of steps has. -/
theorem not_slotByte_left {jobMemory frameTop : BitVec 32} {steps steps' : List AllocStep}
    {x : BitVec 32} (h : ¬ SlotByte jobMemory frameTop (steps ++ steps') x) :
    ¬ SlotByte jobMemory frameTop steps x := fun ⟨a, ha, hx⟩ =>
  h ⟨a, List.mem_append_left _ ha, hx⟩

/-- Bytes that no slot of the other list of steps has. -/
theorem not_slotByte_right {jobMemory frameTop : BitVec 32} {steps steps' : List AllocStep}
    {x : BitVec 32} (h : ¬ SlotByte jobMemory frameTop (steps ++ steps') x) :
    ¬ SlotByte jobMemory frameTop steps' x := fun ⟨a, ha, hx⟩ =>
  h ⟨a, List.mem_append_right _ ha, hx⟩

/-- Steps keep the address registers that are neither scratch registers nor the stack pointer. -/
theorem StepsDone.regs_of_address {jobMemory frameTop : BitVec 32} {s' : FrameState}
    {m m' : Machine} {steps : List AllocStep} (h : StepsDone jobMemory frameTop s' steps m m')
    (hvalid : ∀ step ∈ steps, step.Valid) {r : REG} (hr : r.isDATA = false)
    (hscratch : ¬ ScratchReg r) (hsp : r ≠ .SP) : m'.regs r = m.regs r := by
  refine h.changes.regs r ?_
  rintro (⟨step, hstep, htarget⟩ | hscratch' | rfl)
  · cases step with
    | spill source newOffset => exact htarget
    | lift dstReg source =>
        exact not_storageReg_of_address (hvalid _ hstep).2 hr htarget
  · exact hscratch hscratch'
  · exact hsp rfl

/-- A word outside the slots is kept. -/
theorem StepsDone.load_eq {jobMemory frameTop : BitVec 32} {s' : FrameState} {m m' : Machine}
    {steps : List AllocStep} (h : StepsDone jobMemory frameTop s' steps m m')
    {a : BitVec 32} (ha : ∀ x, SlotByte jobMemory frameTop steps x → ¬ InBlock a 4 x) :
    m'.load a = m.load a := by
  have hword : ∀ x, InBlock a 4 x → m'.mem x = m.mem x := by
    intro x hx
    exact h.changes.mem x fun hslot => ha x hslot hx
  exact ByteMemory.readWord_congr hword

end TriCore

end WasmCompiler
