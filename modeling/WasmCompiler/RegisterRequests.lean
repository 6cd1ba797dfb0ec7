import WasmCompiler.EmittedCode

/-!
# Register Requests and Spilling

How the code generator obtains a scratch register and what it emits to make room
(`Common::reqScratchRegProt`, `Common::spillFromStackImpl`, `Backend::reqSpillTarget`,
`Backend::getRegAllocCandidate`). Every function returns the compiler state after it and the
code it emitted; `none` is a failed assertion or the exception for a stack frame that is too
large.

## Main results

* `spillFromStack_spec`: spilling a register keeps all recorded values and leaves the
  register to the elements it was told not to touch.
* `reqScratchRegProt_spec`: a requested register is unprotected and holds no element, and
  the code emitted for the request keeps all recorded values.
-/

namespace WasmCompiler

variable {TReg : Type} [DecidableEq TReg]

/-! ### Requests -/

/-- A register that may be handed out, and whether elements are in it. -/
structure RegAllocCandidate (TReg : Type) where
  reg : TReg
  currentlyInUse : Bool
  deriving DecidableEq, Repr

/-- The scratch registers of a kind on the stack, from the bottom up. -/
def CompilerState.scratchRegs (st : CompilerState TReg) (isInt : Bool) : List TReg :=
  st.stack.filterMap fun e =>
    match e with
    | .scratchReg reg machineType => if machineType.isInt = isInt then some reg else none
    | _ => none

/-- The first unprotected scratch register without elements, or else the first unprotected
one on the stack. -/
def getRegAllocCandidate (ctx : FrameContext TReg) (st : CompilerState TReg)
    (type : MachineType) (protRegs : RegMask TReg) : Option (RegAllocCandidate TReg) :=
  match (ctx.allocableRegs type).find? fun r => !protRegs.contains r && st.unreferenced r with
  | some reg => some ⟨reg, false⟩
  | none =>
      let onStack := st.scratchRegs type.isInt
      ((onStack.find? fun r => !protRegs.contains r).or onStack.getLast?).map (⟨·, true⟩)

/-- A scratch register without elements, if there is an unprotected one. -/
def reqFreeScratchRegProt (ctx : FrameContext TReg) (st : CompilerState TReg)
    (type : MachineType) (protRegs : RegMask TReg) : Option TReg :=
  match protRegs, getRegAllocCandidate ctx st type protRegs with
  | .regs _, some ⟨reg, false⟩ => some reg
  | _, _ => none

/-- Change the size of the stack frame; a temporary change is not recorded. -/
def setStackFrameSize (st : CompilerState TReg) (frameSize : UInt32) (temporary : Bool) :
    Option (CompilerState TReg × List (MachineInstr TReg)) :=
  if st.stackFrameSize = frameSize then some (st, [])
  else if maxStackFrameSize < frameSize then none
  else some (if temporary then st else { st with stackFrameSize := frameSize },
    [.growFrame (frameSize - st.stackFrameSize)])

/-- Make the frame large enough for a slot. -/
def growFrameFor (ctx : FrameContext TReg) (st : CompilerState TReg) (newOffset : UInt32) :
    Option (CompilerState TReg × List (MachineInstr TReg)) :=
  if st.stackFrameSize < newOffset then
    setStackFrameSize st (ctx.alignStackFrameSize (newOffset + 32)) false
  else some (st, [])

/-- A place for a value that has to leave its register: a free scratch register unless the
stack is asked for, or else a temporary slot, for which the frame may have to grow. -/
def reqSpillTarget (ctx : FrameContext TReg) (st : CompilerState TReg) (type : MachineType)
    (protRegs : RegMask TReg) (forceToStack : Bool) :
    Option (LocatedElement TReg × CompilerState TReg × List (MachineInstr TReg)) :=
  match if forceToStack then none else reqFreeScratchRegProt ctx st type protRegs with
  | some reg => some (.scratchReg reg type, st, [])
  | none =>
      let newOffset := findFreeTempStackSlot ctx st
      (growFrameFor ctx st newOffset).map fun grown =>
        (.tempResult (.stackMemory type newOffset), grown.1, grown.2)

/-- Move a value, unless it is there already. -/
def emitMove (stackFrameSize : UInt32) (dst src : VariableStorage TReg) :
    List (MachineInstr TReg) :=
  if dst = src then [] else [.move stackFrameSize dst src]

/-- The part of the stack that spilling leaves alone, from `bottom` up and below `top`. If
either end is given, only elements of the current block are visited. -/
structure ExcludedZone where
  bottom : Option ℕ
  top : Option ℕ
  deriving DecidableEq, Repr

namespace ExcludedZone

/-- No excluded zone. -/
def none : ExcludedZone := ⟨.none, .none⟩

/-- The zone that consists of one element. -/
def element (i : ℕ) : ExcludedZone := ⟨some i, some (i + 1)⟩

/-- Whether spilling visits the element at an index. -/
def visits (zone : ExcludedZone) (frameBase i : ℕ) : Bool :=
  match zone.bottom, zone.top with
  | .none, .none => true
  | bottom, top =>
      bottom.any (fun bottom => frameBase ≤ i && i < bottom) || top.any fun top => top ≤ i

/-- Without a zone every element is visited. -/
@[simp] theorem none_visits (frameBase i : ℕ) : none.visits frameBase i = true := rfl

end ExcludedZone

/-- Whether spilling a variable moves the element at an index. -/
def spillMoves (ctx : FrameContext TReg) (source : Reference TReg) (zone : ExcludedZone)
    (i : ℕ) (e : LocatedElement TReg) : Bool :=
  e.reference? = some source && zone.visits ctx.frameBase i

/-- The element that is read for all that are moved. -/
def firstToSpill (ctx : FrameContext TReg) (st : CompilerState TReg)
    (source : Reference TReg) (zone : ExcludedZone) : Option (LocatedElement TReg) :=
  let found := st.stack.zipIdx.filter fun e => spillMoves ctx source zone e.2 e.1
  (if zone = .none then found.getLast? else found.head?).map Prod.fst

/-- Move the elements that refer to a variable, all of them or those of the current block
outside a zone, to one new place. -/
def spillFromStack (ctx : FrameContext TReg) (st : CompilerState TReg)
    (source : Reference TReg) (protRegs : RegMask TReg) (forceToStack : Bool)
    (zone : ExcludedZone) : Option (CompilerState TReg × List (MachineInstr TReg)) :=
  match firstToSpill ctx st source zone with
  | none => some (st, [])
  | some currentElement =>
      (reqSpillTarget ctx st (ctx.getMachineType currentElement) protRegs forceToStack).map
        fun target =>
          ({ target.2.1 with
             stack := st.stack.mapIdx fun i e =>
               if spillMoves ctx source zone i e then target.1 else e },
            target.2.2 ++ emitMove target.2.1.stackFrameSize (ctx.getStorage target.1)
              (ctx.getStorage currentElement))

/-- A scratch register, spilling what is in it if none is free. -/
def reqScratchRegProt (ctx : FrameContext TReg) (st : CompilerState TReg)
    (type : MachineType) (protRegs : RegMask TReg) :
    Option (TReg × CompilerState TReg × List (MachineInstr TReg)) :=
  match getRegAllocCandidate ctx st type protRegs with
  | none => none
  | some candidate =>
      if protRegs.contains candidate.reg then none
      else if candidate.currentlyInUse then
        (spillFromStack ctx st (.scratchReg candidate.reg) .all true .none).map fun spilled =>
          (candidate.reg, spilled.1, spilled.2)
      else some (candidate.reg, st, [])

/-! ### Unused cells -/

/-- No element is in the cell. -/
def Unused (ctx : FrameContext TReg) (st : CompilerState TReg) (c : Cell TReg) : Prop :=
  ∀ e ∈ st.stack, (ctx.getStorage e).cell? ≠ some c

/-- A scratch register no element refers to is unused. -/
theorem unused_register {ctx : FrameContext TReg} {st : CompilerState TReg}
    (h : st.WellFormed ctx) {r : TReg} (hr : r ∈ ctx.gpr ∨ r ∈ ctx.fpr)
    (hfree : st.unreferenced r = true) : Unused ctx st (.register r) := by
  intro e he hc
  have hreg := reference?_of_cell (h.fits e he) hr hc
  simp only [CompilerState.unreferenced, List.all_eq_true, decide_eq_true_eq] at hfree
  exact hfree e he hreg

/-! ### Growing the frame -/

/-- Making the frame larger keeps all recorded values. -/
theorem setStackFrameSize_relocates {ctx : FrameContext TReg} {st st' : CompilerState TReg}
    {frameSize : UInt32} {code : List (MachineInstr TReg)} (h : st.WellFormed ctx)
    (hle : st.stackFrameSize ≤ frameSize)
    (hs : setStackFrameSize st frameSize false = some (st', code)) (protRegs : RegMask TReg) :
    Relocates ctx protRegs st code st' ∧
      st' = { st with stackFrameSize := frameSize } := by
  simp only [setStackFrameSize] at hs
  split at hs
  · case _ heq =>
      obtain ⟨rfl, rfl⟩ : st = st' ∧ [] = code := by simpa using hs
      exact ⟨.refl h, by rw [← heq]⟩
  · split at hs
    · simp at hs
    · case _ hmax =>
        simp only [Bool.false_eq_true, if_false, Option.some.injEq, Prod.mk.injEq] at hs
        obtain ⟨rfl, rfl⟩ := hs
        have hmax' : frameSize ≤ maxStackFrameSize := by grind
        refine ⟨⟨h.grow hle hmax', rfl, fun m hm => ?_, fun _ _ => rfl, fun _ _ _ _ => rfl,
          fun _ _ => rfl, fun _ _ => rfl⟩, rfl⟩
        simp only [Machine.execAll_cons, Machine.execAll_nil, Machine.exec, hm]
        grind

/-- Making room for a slot keeps all recorded values and makes the frame large enough. -/
theorem growFrameFor_spec {ctx : FrameContext TReg} {st st' : CompilerState TReg}
    {newOffset : UInt32} {code : List (MachineInstr TReg)} (h : st.WellFormed ctx)
    (hlow : ctx.minimalStackFrameSize < newOffset)
    (hhigh : newOffset ≤ st.stackFrameSize + tempStackSlotSize)
    (hg : growFrameFor ctx st newOffset = some (st', code)) (protRegs : RegMask TReg) :
    Relocates ctx protRegs st code st' ∧ st'.stack = st.stack ∧
      st.stackFrameSize ≤ st'.stackFrameSize ∧ newOffset ≤ st'.stackFrameSize := by
  have hmax := h.le_max
  have hparam := ctx.paramWidth_le
  have hfixed := ctx.fixed_le_minimal
  simp only [growFrameFor] at hg
  split at hg
  · case _ hlt =>
      simp only [tempStackSlotSize, maxStackFrameSize] at hhigh hmax
      have hlow' : ctx.paramWidth ≤ newOffset + 32 := by grind
      have hhigh' : newOffset + 32 ≤ 0x1000000 := by grind
      have halign := ctx.le_alignStackFrameSize hlow' hhigh'
      have hle : st.stackFrameSize ≤ ctx.alignStackFrameSize (newOffset + 32) := by grind
      obtain ⟨hrel, rfl⟩ := setStackFrameSize_relocates h hle hg protRegs
      refine ⟨hrel, rfl, hle, ?_⟩
      have := halign.1
      simp only
      grind
  · obtain ⟨rfl, rfl⟩ : st = st' ∧ [] = code := by simpa using hg
    exact ⟨.refl h, rfl, UInt32.le_refl _, by grind⟩

/-! ### Spill targets -/

/-- A free register is in the span for its type, is unprotected, and no element is in it. -/
theorem reqFreeScratchRegProt_spec {ctx : FrameContext TReg} {st : CompilerState TReg}
    {type : MachineType} {protRegs : RegMask TReg} {reg : TReg}
    (h : reqFreeScratchRegProt ctx st type protRegs = some reg) :
    reg ∈ ctx.allocableRegs type ∧ protRegs.contains reg = false ∧
      st.unreferenced reg = true := by
  simp only [reqFreeScratchRegProt] at h
  split at h
  · case _ hc =>
      obtain rfl := Option.some.inj h
      simp only [getRegAllocCandidate] at hc
      split at hc
      · case _ hfind =>
          simp only [Option.some.injEq, RegAllocCandidate.mk.injEq, and_true] at hc
          subst hc
          have hp := List.find?_some hfind
          simp only [Bool.and_eq_true, Bool.not_eq_true'] at hp
          exact ⟨List.mem_of_find?_eq_some hfind, hp.1, hp.2⟩
      · simp at hc
  · simp at h

/-- What a spill target is: an element of the wanted type in a cell that no element is in
and that may be written. -/
structure SpillTarget (ctx : FrameContext TReg) (st : CompilerState TReg)
    (protRegs : RegMask TReg) (type : MachineType) (newElement : LocatedElement TReg)
    (c : Cell TReg) : Prop where
  cell : (ctx.getStorage newElement).cell? = some c
  machineType : ctx.getMachineType newElement = type
  unused : Unused ctx st c
  not_kept : ¬ Kept ctx protRegs c
  unreferenced : ∀ source, newElement.reference? = some source →
    ∀ e ∈ st.stack, e.reference? ≠ some source

/-- **A spill target is fresh**, and making room for it keeps all recorded values. -/
theorem reqSpillTarget_spec {ctx : FrameContext TReg} {st st' : CompilerState TReg}
    {type : MachineType} {protRegs : RegMask TReg} {forceToStack : Bool}
    {newElement : LocatedElement TReg} {code : List (MachineInstr TReg)}
    (h : st.WellFormed ctx)
    (hr : reqSpillTarget ctx st type protRegs forceToStack = some (newElement, st', code)) :
    Relocates ctx protRegs st code st' ∧ st'.stack = st.stack ∧
      ElementFits ctx st'.stackFrameSize newElement ∧
      (∃ c, SpillTarget ctx st protRegs type newElement c) ∧
      (forceToStack = true → newElement.reference? = none) := by
  simp only [reqSpillTarget] at hr
  split at hr
  · case _ reg hfree =>
      split at hfree
      · simp at hfree
      · case _ hforce =>
          simp only [Option.some.injEq, Prod.mk.injEq] at hr
          obtain ⟨rfl, rfl, rfl⟩ := hr
          obtain ⟨hmem, hprot, hunref⟩ := reqFreeScratchRegProt_spec hfree
          have hscratch := FrameContext.mem_of_allocable hmem
          refine ⟨.refl h, rfl, hmem, ⟨.register reg, rfl, rfl,
            unused_register h hscratch hunref, ?_, ?_⟩, fun hf => absurd hf hforce⟩
          · rintro (hkept | hkept)
            · rw [hprot] at hkept
              exact absurd hkept (by decide)
            · exact hscratch.elim hkept.1 hkept.2
          · intro source hsource
            obtain rfl : .scratchReg reg = source := by
              simpa [LocatedElement.reference?] using hsource
            simpa [CompilerState.unreferenced] using hunref
  · simp only [Option.map_eq_some_iff, Prod.mk.injEq, Prod.exists] at hr
    obtain ⟨st1, code1, hgrow, rfl, rfl, rfl⟩ := hr
    obtain ⟨hnone, habove, hbelow⟩ := findFreeTempStackSlot_spec h
    obtain ⟨hrel, hstack, -, hfit⟩ := growFrameFor_spec h habove hbelow hgrow protRegs
    have hfixed := ctx.fixed_le_minimal
    have hmax := hrel.wellFormed.le_max
    refine ⟨hrel, hstack, ⟨?_, hfit⟩, ⟨.stackMemory (findFreeTempStackSlot ctx st), rfl, rfl,
      ?_, ?_, ?_⟩, fun _ => rfl⟩
    · grind
    · exact fun e he hc => hnone e he (stackFramePosition?_of_cell habove hc)
    · rintro (hkept | hkept) <;> grind
    · intro source hsource
      simp [LocatedElement.reference?] at hsource

/-! ### Spilling -/

/-- Nothing is found to spill only if no visited element refers to the variable. -/
theorem firstToSpill_none {ctx : FrameContext TReg} {st : CompilerState TReg}
    {source : Reference TReg} {zone : ExcludedZone}
    (h : firstToSpill ctx st source zone = none) {i : ℕ} {e : LocatedElement TReg}
    (he : st.stack[i]? = some e) : spillMoves ctx source zone i e = false := by
  have hfound : (st.stack.zipIdx.filter fun e => spillMoves ctx source zone e.2 e.1) = [] := by
    simp only [firstToSpill, Option.map_eq_none_iff] at h
    split at h
    · exact List.getLast?_eq_none_iff.mp h
    · exact List.head?_eq_none_iff.mp h
  have hmem : (e, i) ∈ st.stack.zipIdx := List.mk_mem_zipIdx_iff_getElem?.mpr he
  have := List.filter_eq_nil_iff.mp hfound _ hmem
  simpa using this

/-- What is found is an element that refers to the variable. -/
theorem firstToSpill_some {ctx : FrameContext TReg} {st : CompilerState TReg}
    {source : Reference TReg} {zone : ExcludedZone} {e : LocatedElement TReg}
    (h : firstToSpill ctx st source zone = some e) :
    e ∈ st.stack ∧ e.reference? = some source := by
  simp only [firstToSpill, Option.map_eq_some_iff, Prod.exists, exists_and_right,
    exists_eq_right] at h
  obtain ⟨i, hi⟩ := h
  have hmem : (e, i) ∈
      st.stack.zipIdx.filter fun e => spillMoves ctx source zone e.2 e.1 := by
    split at hi
    · exact List.mem_of_getLast? hi
    · exact List.mem_of_head? hi
  obtain ⟨hzip, hmoves⟩ := List.mem_filter.mp hmem
  simp only [spillMoves, Bool.and_eq_true, decide_eq_true_eq] at hmoves
  exact ⟨List.mem_of_getElem? (List.mk_mem_zipIdx_iff_getElem?.mp hzip), hmoves.1⟩

/-- What spilling a variable does to the stack: elements it moves refer to the variable no
longer, and all others stay. -/
structure Spilled (ctx : FrameContext TReg) (source : Reference TReg) (zone : ExcludedZone)
    (forceToStack : Bool) (st st' : CompilerState TReg) : Prop where
  stays : ∀ i e, st.stack[i]? = some e → spillMoves ctx source zone i e = false →
    st'.stack[i]? = some e
  moved : ∀ i e e', st.stack[i]? = some e → spillMoves ctx source zone i e = true →
    st'.stack[i]? = some e' → e'.reference? ≠ some source
  toStack : ∀ i e e', st.stack[i]? = some e → spillMoves ctx source zone i e = true →
    st'.stack[i]? = some e' → forceToStack = true → e'.reference? = none
  movedTo : ∀ i e e' p, st.stack[i]? = some e → spillMoves ctx source zone i e = true →
    st'.stack[i]? = some e' → (ctx.getStorage e').cell? = some (.stackMemory p) →
      ctx.minimalStackFrameSize < p ∧ p ≤ maxStackFrameSize

/-- The state after the elements of a variable were moved is well formed. -/
theorem CompilerState.WellFormed.spill {ctx : FrameContext TReg} {st st' : CompilerState TReg}
    {protRegs : RegMask TReg} {source : Reference TReg} {zone : ExcludedZone}
    {type : MachineType} {newElement : LocatedElement TReg} {c : Cell TReg}
    (h : st.WellFormed ctx) (h' : st'.WellFormed ctx) (hstack : st'.stack = st.stack)
    (hfit : ElementFits ctx st'.stackFrameSize newElement)
    (htarget : SpillTarget ctx st protRegs type newElement c) :
    ({ st' with
       stack := st.stack.mapIdx fun i e =>
         if spillMoves ctx source zone i e then newElement else e } :
      CompilerState TReg).WellFormed ctx := by
  have hmem : ∀ e, e ∈ (st.stack.mapIdx fun i e =>
      if spillMoves ctx source zone i e then newElement else e) →
      e = newElement ∨ e ∈ st.stack := by
    intro e he
    obtain ⟨i, hi⟩ := List.mem_iff_getElem?.mp he
    rw [List.getElem?_mapIdx, Option.map_eq_some_iff] at hi
    obtain ⟨e0, he0, hif⟩ := hi
    split at hif
    · exact Or.inl hif.symm
    · exact Or.inr (hif ▸ List.mem_of_getElem? he0)
  -- a new scratch register is a register no element was in
  have hnew : ∀ r t t', newElement = .scratchReg r t → .scratchReg r t' ∈ st.stack → False := by
    intro r t t' heq hin
    exact htarget.unreferenced (.scratchReg r) (by rw [heq]; rfl) _ hin rfl
  refine ⟨h'.minimal_le, h'.le_max, ?_, ?_, ?_⟩
  · intro e he
    rcases hmem e he with rfl | hin
    · exact hfit
    · exact h'.fits e (hstack ▸ hin)
  · intro r t t' ht ht'
    rcases hmem _ ht with heq | hin <;> rcases hmem _ ht' with heq' | hin'
    · have := heq.trans heq'.symm
      simpa using this
    · exact (hnew r t t' heq.symm hin').elim
    · exact (hnew r t' t heq'.symm hin).elim
    · exact h.one_type r t t' hin hin'
  · intro e he
    obtain ⟨i, hi⟩ := List.mem_iff_getElem?.mp he
    simp only [List.getElem?_take, List.getElem?_mapIdx] at hi
    split at hi
    · case _ hlt =>
        obtain ⟨e0, he0, hif⟩ := Option.map_eq_some_iff.mp hi
        have hnone : e0.reference? = none :=
          h.below e0 (List.mem_iff_getElem?.mpr ⟨i, by simp [hlt, he0]⟩)
        have hstay : spillMoves ctx source zone i e0 = false := by
          simp [spillMoves, hnone]
        rw [hstay] at hif
        exact (by simpa using hif) ▸ hnone
    · simp at hi

/-- **Spilling a variable** keeps all recorded values and leaves the variable to the
elements that were not to be moved. -/
theorem spillFromStack_spec {ctx : FrameContext TReg} {st st' : CompilerState TReg}
    {source : Reference TReg} {protRegs : RegMask TReg} {forceToStack : Bool}
    {zone : ExcludedZone} {code : List (MachineInstr TReg)} (h : st.WellFormed ctx)
    (hs : spillFromStack ctx st source protRegs forceToStack zone = some (st', code)) :
    Relocates ctx protRegs st code st' ∧ Spilled ctx source zone forceToStack st st' := by
  simp only [spillFromStack] at hs
  split at hs
  · case _ hnone =>
      obtain ⟨rfl, rfl⟩ : st = st' ∧ [] = code := by simpa using hs
      have hno := fun i e he => @firstToSpill_none _ _ ctx st source zone hnone i e he
      refine ⟨.refl h, fun i e he _ => he, fun i e e' he hm => ?_, fun i e e' he hm => ?_,
        fun i e e' p he hm => ?_⟩ <;> simp [hno i e he] at hm
  · case _ currentElement hsome =>
      simp only [Option.map_eq_some_iff, Prod.mk.injEq, Prod.exists] at hs
      obtain ⟨newElement, st1, code1, htarget, rfl, rfl⟩ := hs
      obtain ⟨hrel, hstack, hfit, ⟨c, hc⟩, hforce⟩ := reqSpillTarget_spec h htarget
      obtain ⟨hin, href⟩ := firstToSpill_some hsome
      have hne : newElement.reference? ≠ some source :=
        fun heq => hc.unreferenced source heq _ hin href
      have hdiff : ctx.getStorage newElement ≠ ctx.getStorage currentElement := by
        intro heq
        refine hc.unused _ hin ?_
        rw [← heq]
        exact hc.cell
      have htype : (ctx.getStorage newElement).machineType =
          (ctx.getStorage currentElement).machineType := hc.machineType
      -- the emitted move writes only the fresh cell
      have hmove : Relocates ctx protRegs st1
          (emitMove st1.stackFrameSize (ctx.getStorage newElement)
            (ctx.getStorage currentElement))
          { st1 with
            stack := st.stack.mapIdx fun i e =>
              if spillMoves ctx source zone i e then newElement else e } := by
        simp only [emitMove, hdiff, if_false]
        have hexec : ∀ m : Machine TReg, m.stackPointer = st1.stackFrameSize →
            (m.execAll [.move st1.stackFrameSize (ctx.getStorage newElement)
              (ctx.getStorage currentElement)]).cells =
            Function.update m.cells c ((ctx.getStorage currentElement).value m.cells) := by
          intro m hm
          simp only [Machine.execAll_cons, Machine.execAll_nil, Machine.exec_move hm,
            VariableStorage.assign_of_cell hc.cell, htype, VariableStorage.carried_value]
        refine ⟨h.spill hrel.wellFormed hstack hfit hc, by simp [hstack], fun m hm => ?_,
          fun m hm => ?_, fun m hm c' hc' => ?_, fun m hm => ?_, fun m hm => ?_⟩
        · simp [Machine.exec_move hm, hm]
        · rw [hexec m hm, hstack]
          refine values_mapIdx fun i e he => ?_
          split
          · case _ hmoves =>
              -- the element refers to the variable that was read
              simp only [spillMoves, Bool.and_eq_true, decide_eq_true_eq] at hmoves
              obtain rfl := h.eq_of_reference hin (List.mem_of_getElem? he) href hmoves.1
              rw [VariableStorage.value_of_cell hc.cell, Function.update_self, htype,
                VariableStorage.carried_value]
          · exact (ctx.getStorage e).value_update (hc.unused e (List.mem_of_getElem? he)) _ _
        · rw [hexec m hm, Function.update_of_ne]
          rintro rfl
          exact hc.not_kept hc'
        · simp [Machine.exec_move hm]
        · simp [Machine.exec_move hm]
      refine ⟨hrel.trans hmove, ⟨fun i e he hm => ?_, fun i e e' he hm he' => ?_,
        fun i e e' he hm he' hf => ?_, fun i e e' p he hm he' hp => ?_⟩⟩
      · simp [List.getElem?_mapIdx, he, hm]
      · obtain rfl : newElement = e' := by simpa [List.getElem?_mapIdx, he, hm] using he'
        exact hne
      · obtain rfl : newElement = e' := by simpa [List.getElem?_mapIdx, he, hm] using he'
        exact hforce hf
      · obtain rfl : newElement = e' := by simpa [List.getElem?_mapIdx, he, hm] using he'
        obtain rfl : c = .stackMemory p := Option.some.inj (hc.cell.symm.trans hp)
        have hnot : ¬ (p ≤ ctx.minimalStackFrameSize ∨ maxStackFrameSize < p) := hc.not_kept
        grind

/-- An element after spilling was there before or is one that was moved. -/
theorem Spilled.cases {ctx : FrameContext TReg} {source : Reference TReg}
    {zone : ExcludedZone} {forceToStack : Bool} {st st' : CompilerState TReg}
    (h : Spilled ctx source zone forceToStack st st') {i : ℕ} {e e' : LocatedElement TReg}
    (he : st.stack[i]? = some e) (he' : st'.stack[i]? = some e') :
    (e' = e ∧ spillMoves ctx source zone i e = false) ∨
      (spillMoves ctx source zone i e = true ∧ e'.reference? ≠ some source ∧
        (forceToStack = true → e'.reference? = none)) := by
  cases hm : spillMoves ctx source zone i e with
  | true => exact Or.inr ⟨rfl, h.moved i e e' he hm he', h.toStack i e e' he hm he'⟩
  | false =>
      have := h.stays i e he hm
      rw [he'] at this
      exact Or.inl ⟨Option.some.inj this, rfl⟩

/-- Without an excluded zone nothing is left in the register. -/
theorem Spilled.unreferenced {ctx : FrameContext TReg} {reg : TReg} {forceToStack : Bool}
    {st st' : CompilerState TReg}
    (h : Spilled ctx (.scratchReg reg) .none forceToStack st st')
    (hlength : st'.stack.length = st.stack.length) : st'.unreferenced reg = true := by
  simp only [CompilerState.unreferenced, List.all_eq_true, decide_eq_true_eq]
  intro e' he'
  obtain ⟨i, hi⟩ := List.mem_iff_getElem?.mp he'
  have hlt : i < st.stack.length := hlength ▸ (List.getElem?_eq_some_iff.mp hi).1
  rcases h.cases (List.getElem?_eq_getElem hlt) hi with ⟨rfl, hm⟩ | ⟨-, hne, -⟩
  · simpa [spillMoves] using hm
  · exact hne

/-! ### Requested registers -/

/-- A candidate is in the span for its type; a candidate not in use holds no element. -/
theorem getRegAllocCandidate_spec {ctx : FrameContext TReg} {st : CompilerState TReg}
    {type : MachineType} {protRegs : RegMask TReg} {candidate : RegAllocCandidate TReg}
    (h : st.WellFormed ctx)
    (hc : getRegAllocCandidate ctx st type protRegs = some candidate) :
    candidate.reg ∈ ctx.allocableRegs type ∧
      (candidate.currentlyInUse = false → st.unreferenced candidate.reg = true) := by
  simp only [getRegAllocCandidate] at hc
  split at hc
  · case _ reg hfind =>
      obtain rfl := Option.some.inj hc
      have hp := List.find?_some hfind
      simp only [Bool.and_eq_true] at hp
      exact ⟨List.mem_of_find?_eq_some hfind, fun _ => hp.2⟩
  · simp only [Option.map_eq_some_iff] at hc
    obtain ⟨reg, hreg, rfl⟩ := hc
    refine ⟨?_, fun hf => by simp at hf⟩
    have hmem : reg ∈ st.scratchRegs type.isInt := by
      rcases Option.or_eq_some_iff.mp hreg with hfind | ⟨-, hlast⟩
      · exact List.mem_of_find?_eq_some hfind
      · exact List.mem_of_getLast? hlast
    simp only [CompilerState.scratchRegs, List.mem_filterMap] at hmem
    obtain ⟨e, he, hif⟩ := hmem
    cases e with
    | scratchReg r machineType =>
        simp only [Option.ite_none_right_eq_some, Option.some.injEq] at hif
        obtain ⟨hkind, rfl⟩ := hif
        have hfit : r ∈ ctx.allocableRegs machineType := h.fits _ he
        simpa [FrameContext.allocableRegs, hkind] using hfit
    | _ => simp at hif

/-- **A requested scratch register** is in the span for its type, is not protected, and no
element is in it; the code emitted for the request writes no register and keeps all recorded
values, and the elements that were in the register are now on the stack. -/
theorem reqScratchRegProt_spec {ctx : FrameContext TReg} {st st' : CompilerState TReg}
    {type : MachineType} {protRegs : RegMask TReg} {reg : TReg}
    {code : List (MachineInstr TReg)} (h : st.WellFormed ctx)
    (hr : reqScratchRegProt ctx st type protRegs = some (reg, st', code)) :
    Relocates ctx .all st code st' ∧ reg ∈ ctx.allocableRegs type ∧
      protRegs.contains reg = false ∧ st'.unreferenced reg = true ∧
      (∀ (i : ℕ) (e e' : LocatedElement TReg), st.stack[i]? = some e →
        st'.stack[i]? = some e' →
          e' = e ∨ e.reference? = some (.scratchReg reg) ∧ e'.reference? = none) := by
  simp only [reqScratchRegProt] at hr
  split at hr
  · simp at hr
  · case _ candidate hcand =>
      obtain ⟨hmem, hfree⟩ := getRegAllocCandidate_spec h hcand
      split at hr
      · simp at hr
      · case _ hprot =>
          split at hr
          · simp only [Option.map_eq_some_iff, Prod.mk.injEq, Prod.exists] at hr
            obtain ⟨st1, code1, hspill, rfl, rfl, rfl⟩ := hr
            obtain ⟨hrel, hmoved⟩ := spillFromStack_spec h hspill
            refine ⟨hrel, hmem, by simpa using hprot, hmoved.unreferenced hrel.length_eq,
              fun i e e' he he' => ?_⟩
            rcases hmoved.cases he he' with ⟨heq, -⟩ | ⟨hm, -, hforce⟩
            · exact Or.inl heq
            · simp only [spillMoves, Bool.and_eq_true, decide_eq_true_eq] at hm
              exact Or.inr ⟨hm.1, hforce rfl⟩
          · case _ hnot =>
              simp only [Option.some.injEq, Prod.mk.injEq] at hr
              obtain ⟨rfl, rfl, rfl⟩ := hr
              refine ⟨.refl h, hmem, by simpa using hprot, hfree (by simpa using hnot),
                fun i e e' he he' => ?_⟩
              rw [he] at he'
              exact Or.inl (Option.some.inj he').symm

end WasmCompiler
