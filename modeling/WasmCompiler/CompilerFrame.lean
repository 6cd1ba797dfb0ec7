import WasmCompiler.VariableStorage
import Mathlib.Data.List.Basic

/-!
# The Compile-Time Stack Frame

What the code generator knows about the frame of the function it compiles while it
processes one instruction: where every element of the compiler stack, every local and every
global lives, how large the machine stack frame is, and which registers may be handed out.
`FrameContext` is the part one instruction does not change; `CompilerState` is the part it
does. Only the elements with a reference are listed, from the bottom up, and an element is
described by what locates its value.

Frame positions are the source's: the slot at position `p` lies `p` bytes below the base of
the frame, so results of the function itself are at positions `0`, `-8`, and so on.

## Main results

* `findFreeTempStackSlot_spec`: a free temporary slot is above the part of the frame that is
  always in use and holds no element.
* `le_alignStackFrameSize`: aligning a frame size never makes it smaller.
-/

namespace WasmCompiler

variable {TReg : Type}

/-! ### Frame sizes -/

/-- The width of a temporary stack slot. -/
def tempStackSlotSize : UInt32 := 8

/-- The largest stack frame the implementation allows. -/
def maxStackFrameSize : UInt32 := 0x800000

/-- Round up to a multiple of a power of two. -/
def roundUpToPow2 (value pow2 : UInt32) : UInt32 :=
  let mask := (1 <<< pow2) - 1
  if value &&& mask ≠ 0 then (value + (mask + 1)) &&& ~~~mask else value

/-- Dropping the bits of a mask takes away what the mask selects. -/
theorem and_not_add_and (x mask : UInt32) : (x &&& ~~~mask) + (x &&& mask) = x := by
  obtain ⟨x⟩ := x
  obtain ⟨m⟩ := mask
  -- the two parts share no bit, so their sum is their union
  have hnone : (x &&& ~~~m) &&& (x &&& m) = 0#32 :=
    BitVec.eq_of_getLsbD_eq fun i _ => by simp; grind
  have hall : (x &&& ~~~m) ||| (x &&& m) = x :=
    BitVec.eq_of_getLsbD_eq fun i _ => by simp; grind
  exact congrArg UInt32.ofBitVec
    ((BitVec.add_eq_or_of_and_eq_zero _ _ hnone).trans hall)

/-- Masking with low bits leaves at most the mask. -/
theorem and_le_mask (x mask : UInt32) : (x &&& mask).toNat ≤ mask.toNat := by
  rw [UInt32.toNat_and]
  exact Nat.and_le_right

/-- Rounding up to a multiple of sixteen stays within sixteen of the value. -/
theorem roundUpToPow2_bounds {value : UInt32} (h : value ≤ 0x1000000) :
    value ≤ roundUpToPow2 value 4 ∧ roundUpToPow2 value 4 ≤ value + 16 := by
  have hmask : ((1 : UInt32) <<< 4) - 1 = 15 := by decide
  have hsplit := and_not_add_and (value + 16) 15
  have hlow := and_le_mask (value + 16) 15
  have hlow' : ((value + 16) &&& 15) ≤ 15 := UInt32.le_iff_toNat_le.mpr hlow
  have hhigh : ((value + 16) &&& ~~~15) = value + 16 - ((value + 16) &&& 15) := by grind
  simp only [roundUpToPow2, hmask]
  split
  · rw [show (15 : UInt32) + 1 = 16 by decide, hhigh]
    generalize (value + 16) &&& 15 = low at hlow'
    exact ⟨by grind, by grind⟩
  · exact ⟨by grind, by grind⟩

/-! ### Elements, context and state -/

/-- A referenced element of the compiler stack, by what locates its value. A pending
deferred action has no storage of its own. -/
inductive LocatedElement (TReg : Type) where
  | scratchReg (reg : TReg) (machineType : MachineType)
  | local_ (localIdx : ℕ)
  | global (globalIdx : ℕ)
  | constant (machineType : MachineType) (constUnion : Word)
  | tempResult (storage : VariableStorage TReg)
  | deferredAction
  deriving DecidableEq, Repr

/-- The variables whose elements are found through the reference table when they have to
leave their storage. -/
inductive Reference (TReg : Type) where
  | scratchReg (reg : TReg)
  | local_ (localIdx : ℕ)
  | global (globalIdx : ℕ)
  deriving DecidableEq, Repr

namespace LocatedElement

/-- The variable an element refers to. -/
def reference? : LocatedElement TReg → Option (Reference TReg)
  | scratchReg reg _ => some (.scratchReg reg)
  | local_ localIdx => some (.local_ localIdx)
  | global globalIdx => some (.global globalIdx)
  | _ => none

/-- An element that refers to a register is that register's scratch register element. -/
theorem eq_of_reference? {e : LocatedElement TReg} {reg : TReg}
    (h : e.reference? = some (.scratchReg reg)) :
    ∃ machineType, e = .scratchReg reg machineType := by
  cases e <;> simp_all [reference?]

/-- The slot of a temporary result in stack memory. -/
def stackFramePosition? : LocatedElement TReg → Option UInt32
  | tempResult storage =>
      match storage.location with
      | .stackMemory stackFramePosition => some stackFramePosition
      | _ => none
  | _ => none

end LocatedElement

/-- Where a variable of the function lives: outside the scratch registers, and if it is in
stack memory, in the fixed part of the frame. -/
def FixedStorage (gpr fpr : List TReg) (fixedStackFrameWidth : UInt32)
    (s : VariableStorage TReg) : Prop :=
  match s.location with
  | .register reg => reg ∉ gpr ∧ reg ∉ fpr
  | .stackMemory stackFramePosition =>
      0 < stackFramePosition ∧ stackFramePosition ≤ fixedStackFrameWidth
  | _ => True

/-- What processing one instruction does not change: the registers that may be handed out
(those behind the statically allocated ones), the result registers among them, the storages
of the variables, the fixed part of the frame, and the innermost open block. -/
structure FrameContext (TReg : Type) where
  gpr : List TReg
  fpr : List TReg
  gpRetRegs : List TReg
  fpRetRegs : List TReg
  localDefs : List (VariableStorage TReg)
  globals : List (VariableStorage TReg)
  /-- The width of the parameters on the stack. -/
  paramWidth : UInt32
  returnAddrWidth : UInt32
  /-- `getFixedStackFrameWidth()`. -/
  fixedStackFrameWidth : UInt32
  /-- `getMinimalStackFrameSize()`: the fixed width, or the results of the innermost block. -/
  minimalStackFrameSize : UInt32
  /-- The number of elements below `getCurrentFrameBase()`. -/
  frameBase : ℕ
  gpr_disjoint_fpr : ∀ r ∈ gpr, r ∉ fpr
  gpRetRegs_subset : ∀ r ∈ gpRetRegs, r ∈ gpr
  fpRetRegs_subset : ∀ r ∈ fpRetRegs, r ∈ fpr
  gpRetRegs_nodup : gpRetRegs.Nodup
  fpRetRegs_nodup : fpRetRegs.Nodup
  paramWidth_le : paramWidth ≤ fixedStackFrameWidth
  fixed_le_minimal : fixedStackFrameWidth ≤ minimalStackFrameSize
  localDefs_fixed : ∀ s ∈ localDefs, FixedStorage gpr fpr fixedStackFrameWidth s
  globals_fixed : ∀ s ∈ globals, FixedStorage gpr fpr fixedStackFrameWidth s

namespace FrameContext

/-- The scratch registers for a type. -/
def allocableRegs (ctx : FrameContext TReg) (machineType : MachineType) : List TReg :=
  if machineType.isInt then ctx.gpr else ctx.fpr

/-- The storage of an element. -/
def getStorage (ctx : FrameContext TReg) : LocatedElement TReg → VariableStorage TReg
  | .scratchReg reg machineType => .reg machineType reg
  | .local_ localIdx => (ctx.localDefs[localIdx]?).getD .none
  | .global globalIdx => (ctx.globals[globalIdx]?).getD .none
  | .constant machineType constUnion => .const machineType constUnion
  | .tempResult storage => storage
  | .deferredAction => .none

/-- The machine type of an element. -/
def getMachineType (ctx : FrameContext TReg) (e : LocatedElement TReg) : MachineType :=
  (ctx.getStorage e).machineType

/-- The storage of a local is fixed. -/
theorem local_fixed (ctx : FrameContext TReg) (localIdx : ℕ) :
    FixedStorage ctx.gpr ctx.fpr ctx.fixedStackFrameWidth
      (ctx.getStorage (.local_ localIdx)) := by
  simp only [getStorage]
  cases h : ctx.localDefs[localIdx]? with
  | none => exact trivial
  | some s => exact ctx.localDefs_fixed s (List.mem_of_getElem? h)

/-- The storage of a global is fixed. -/
theorem global_fixed (ctx : FrameContext TReg) (globalIdx : ℕ) :
    FixedStorage ctx.gpr ctx.fpr ctx.fixedStackFrameWidth
      (ctx.getStorage (.global globalIdx)) := by
  simp only [getStorage]
  cases h : ctx.globals[globalIdx]? with
  | none => exact trivial
  | some s => exact ctx.globals_fixed s (List.mem_of_getElem? h)

/-- Align a frame size to 16 bytes, not counting the parameters. -/
def alignStackFrameSize (ctx : FrameContext TReg) (frameSize : UInt32) : UInt32 :=
  roundUpToPow2 (frameSize - ctx.paramWidth) 4 + ctx.paramWidth

/-- Aligning does not make a frame smaller, and adds at most 16 bytes. -/
theorem le_alignStackFrameSize (ctx : FrameContext TReg) {frameSize : UInt32}
    (hlow : ctx.paramWidth ≤ frameSize) (hhigh : frameSize ≤ 0x1000000) :
    frameSize ≤ ctx.alignStackFrameSize frameSize ∧
      ctx.alignStackFrameSize frameSize ≤ frameSize + 16 := by
  have hsmall : frameSize - ctx.paramWidth ≤ 0x1000000 := by grind
  obtain ⟨h1, h2⟩ := roundUpToPow2_bounds hsmall
  simp only [alignStackFrameSize]
  generalize roundUpToPow2 (frameSize - ctx.paramWidth) 4 = rounded at h1 h2
  exact ⟨by grind, by grind⟩

end FrameContext

/-- The elements on the compiler stack and the current size of the stack frame. -/
structure CompilerState (TReg : Type) where
  stack : List (LocatedElement TReg)
  stackFrameSize : UInt32
  deriving DecidableEq, Repr

namespace CompilerState

/-- Whether no element refers to the register. -/
def unreferenced [DecidableEq TReg] (st : CompilerState TReg) (reg : TReg) : Bool :=
  st.stack.all fun e => e.reference? ≠ some (.scratchReg reg)

/-- Insert a position into a list of positions from high to low. -/
def insertPosition (p : UInt32) : List UInt32 → List UInt32
  | [] => [p]
  | q :: qs =>
      if q < p then p :: q :: qs else if q = p then q :: qs else q :: insertPosition p qs

/-- The positions of the temporary results in stack memory, from high to low: the groups
that `nextLowerTempStack` leads through. -/
def tempStackPositions (st : CompilerState TReg) : List UInt32 :=
  (st.stack.filterMap LocatedElement.stackFramePosition?).foldr insertPosition []

/-- Inserting keeps the members and adds the position. -/
theorem mem_insertPosition {p q : UInt32} {l : List UInt32} :
    q ∈ insertPosition p l ↔ q = p ∨ q ∈ l := by
  induction l with
  | nil => simp [insertPosition]
  | cons x xs ih =>
      simp only [insertPosition]
      split
      · simp
      · split
        · grind
        · simp only [List.mem_cons, ih]
          grind

/-- Inserting keeps the order. -/
theorem insertPosition_pairwise {p : UInt32} {l : List UInt32}
    (h : l.Pairwise fun a b => b < a) : (insertPosition p l).Pairwise fun a b => b < a := by
  induction l with
  | nil => simp [insertPosition]
  | cons x xs ih =>
      rw [List.pairwise_cons] at h
      simp only [insertPosition]
      split
      · case _ hlt =>
          refine List.pairwise_cons.mpr ⟨fun y hy => ?_, List.pairwise_cons.mpr h⟩
          rcases List.mem_cons.mp hy with rfl | hy
          · exact hlt
          · have := h.1 y hy
            grind
      · split
        · exact List.pairwise_cons.mpr h
        · refine List.pairwise_cons.mpr ⟨fun y hy => ?_, ih h.2⟩
          rcases mem_insertPosition.mp hy with rfl | hy
          · grind
          · exact h.1 y hy

/-- A position is listed exactly when an element is there. -/
theorem mem_tempStackPositions {st : CompilerState TReg} {p : UInt32} :
    p ∈ st.tempStackPositions ↔ ∃ e ∈ st.stack, e.stackFramePosition? = some p := by
  have hfold : ∀ l : List UInt32, p ∈ l.foldr insertPosition [] ↔ p ∈ l := by
    intro l
    induction l with
    | nil => simp
    | cons q qs ih => simp [mem_insertPosition, ih]
  simp [tempStackPositions, hfold]

/-- The positions are listed from high to low. -/
theorem tempStackPositions_pairwise (st : CompilerState TReg) :
    st.tempStackPositions.Pairwise fun a b => b < a := by
  simp only [tempStackPositions]
  induction st.stack.filterMap LocatedElement.stackFramePosition? with
  | nil => exact List.Pairwise.nil
  | cons p ps ih => exact insertPosition_pairwise ih

end CompilerState

/-! ### Well-formed states -/

/-- What an element's storage may be: a scratch register of the right kind, a slot between
the fixed part and the end of the frame, or the storage of a variable. -/
def ElementFits (ctx : FrameContext TReg) (stackFrameSize : UInt32) :
    LocatedElement TReg → Prop
  | .scratchReg reg machineType => reg ∈ ctx.allocableRegs machineType
  | .tempResult storage =>
      match storage.location with
      | .register reg => reg ∉ ctx.gpr ∧ reg ∉ ctx.fpr
      | .stackMemory stackFramePosition =>
          ctx.fixedStackFrameWidth < stackFramePosition ∧ stackFramePosition ≤ stackFrameSize
      | _ => True
  | _ => True

/-- The state describes a frame: it has the size it must have at least and may have at
most, every element fits in it, the elements of one register have one type, and the
elements of enclosing blocks refer to no variable (they were spilled when the block was
entered). -/
structure CompilerState.WellFormed (ctx : FrameContext TReg) (st : CompilerState TReg) :
    Prop where
  minimal_le : ctx.minimalStackFrameSize ≤ st.stackFrameSize
  le_max : st.stackFrameSize ≤ maxStackFrameSize
  fits : ∀ e ∈ st.stack, ElementFits ctx st.stackFrameSize e
  one_type : ∀ r t t', .scratchReg r t ∈ st.stack → .scratchReg r t' ∈ st.stack → t = t'
  below : ∀ e ∈ st.stack.take ctx.frameBase, e.reference? = none

/-- An allocable register is a scratch register. -/
theorem FrameContext.mem_of_allocable {ctx : FrameContext TReg} {type : MachineType}
    {reg : TReg} (h : reg ∈ ctx.allocableRegs type) : reg ∈ ctx.gpr ∨ reg ∈ ctx.fpr := by
  simp only [FrameContext.allocableRegs] at h
  split at h
  · exact Or.inl h
  · exact Or.inr h

/-- An element in a scratch register is a scratch register element. -/
theorem reference?_of_cell {ctx : FrameContext TReg} {n : UInt32} {e : LocatedElement TReg}
    (hfit : ElementFits ctx n e) {r : TReg} (hr : r ∈ ctx.gpr ∨ r ∈ ctx.fpr)
    (hc : (ctx.getStorage e).cell? = some (.register r)) :
    e.reference? = some (.scratchReg r) := by
  have hfixed : ∀ s : VariableStorage TReg,
      FixedStorage ctx.gpr ctx.fpr ctx.fixedStackFrameWidth s →
      s.cell? = some (.register r) → False := by
    rintro ⟨mt, loc⟩ hs hcell
    cases loc with
    | register reg =>
        obtain rfl : reg = r := by
          simpa [VariableStorage.cell?, StorageLocation.cell?] using hcell
        have hs' : reg ∉ ctx.gpr ∧ reg ∉ ctx.fpr := hs
        grind
    | _ => simp [VariableStorage.cell?, StorageLocation.cell?] at hcell
  cases e with
  | scratchReg reg mt =>
      simpa [FrameContext.getStorage, VariableStorage.cell?, StorageLocation.cell?,
        VariableStorage.reg, LocatedElement.reference?] using hc
  | local_ localIdx => exact (hfixed _ (ctx.local_fixed localIdx) hc).elim
  | global globalIdx => exact (hfixed _ (ctx.global_fixed globalIdx) hc).elim
  | constant mt w =>
      simp [FrameContext.getStorage, VariableStorage.cell?, StorageLocation.cell?,
        VariableStorage.const] at hc
  | deferredAction =>
      simp [FrameContext.getStorage, VariableStorage.cell?, StorageLocation.cell?,
        VariableStorage.none] at hc
  | tempResult storage =>
      obtain ⟨mt, loc⟩ := storage
      cases loc with
      | register reg =>
          obtain rfl : reg = r := by
            simpa [FrameContext.getStorage, VariableStorage.cell?, StorageLocation.cell?]
              using hc
          have hfit' : reg ∉ ctx.gpr ∧ reg ∉ ctx.fpr := hfit
          grind
      | _ =>
          simp [FrameContext.getStorage, VariableStorage.cell?, StorageLocation.cell?] at hc

/-- An element in a slot above the enclosing blocks' part of the frame is a temporary
result. -/
theorem stackFramePosition?_of_cell {ctx : FrameContext TReg} {e : LocatedElement TReg}
    {p : UInt32} (hp : ctx.minimalStackFrameSize < p)
    (hc : (ctx.getStorage e).cell? = some (.stackMemory p)) :
    e.stackFramePosition? = some p := by
  have hle := ctx.fixed_le_minimal
  have hfixed : ∀ s : VariableStorage TReg,
      FixedStorage ctx.gpr ctx.fpr ctx.fixedStackFrameWidth s →
      s.cell? = some (.stackMemory p) → False := by
    rintro ⟨mt, loc⟩ hs hcell
    cases loc with
    | stackMemory q =>
        obtain rfl : q = p := by
          simpa [VariableStorage.cell?, StorageLocation.cell?] using hcell
        have hs' : 0 < q ∧ q ≤ ctx.fixedStackFrameWidth := hs
        grind
    | _ => simp [VariableStorage.cell?, StorageLocation.cell?] at hcell
  cases e with
  | local_ localIdx => exact (hfixed _ (ctx.local_fixed localIdx) hc).elim
  | global globalIdx => exact (hfixed _ (ctx.global_fixed globalIdx) hc).elim
  | tempResult storage =>
      obtain ⟨mt, loc⟩ := storage
      cases loc with
      | stackMemory q =>
          obtain rfl : q = p := by
            simpa [FrameContext.getStorage, VariableStorage.cell?, StorageLocation.cell?]
              using hc
          rfl
      | _ =>
          simp [FrameContext.getStorage, VariableStorage.cell?, StorageLocation.cell?] at hc
  | scratchReg _ _ =>
      simp [FrameContext.getStorage, VariableStorage.cell?, StorageLocation.cell?,
        VariableStorage.reg] at hc
  | constant _ _ =>
      simp [FrameContext.getStorage, VariableStorage.cell?, StorageLocation.cell?,
        VariableStorage.const] at hc
  | deferredAction =>
      simp [FrameContext.getStorage, VariableStorage.cell?, StorageLocation.cell?,
        VariableStorage.none] at hc

/-- A larger frame still fits all elements. -/
theorem CompilerState.WellFormed.grow {ctx : FrameContext TReg} {st : CompilerState TReg}
    (h : st.WellFormed ctx) {frameSize : UInt32} (hle : st.stackFrameSize ≤ frameSize)
    (hmax : frameSize ≤ maxStackFrameSize) :
    ({ st with stackFrameSize := frameSize } : CompilerState TReg).WellFormed ctx where
  minimal_le := UInt32.le_trans h.minimal_le hle
  le_max := hmax
  fits e he := by
    have hfit := h.fits e he
    cases e with
    | tempResult storage =>
        obtain ⟨mt, loc⟩ := storage
        cases loc with
        | stackMemory p => exact ⟨hfit.1, UInt32.le_trans hfit.2 hle⟩
        | _ => exact hfit
    | _ => exact hfit
  one_type := h.one_type
  below := h.below

/-- Elements that refer to the same variable are the same. -/
theorem CompilerState.WellFormed.eq_of_reference {ctx : FrameContext TReg}
    {st : CompilerState TReg} (h : st.WellFormed ctx) {e e' : LocatedElement TReg}
    (he : e ∈ st.stack) (he' : e' ∈ st.stack) {source : Reference TReg}
    (hr : e.reference? = some source) (hr' : e'.reference? = some source) : e = e' := by
  cases e <;> cases e' <;> simp_all [LocatedElement.reference?]
  · case _ r t r' t' =>
      obtain rfl : r = r' := Reference.scratchReg.inj (hr.trans hr'.symm)
      exact ⟨rfl, h.one_type r t t' he he'⟩
  all_goals grind

/-! ### Free slots -/

/-- The first gap of a slot's width below a used position, provided that it is above the
part of the frame in use by enclosing blocks. -/
def freeSlotBelow (ctx : FrameContext TReg) : List UInt32 → Option UInt32
  | [] => none
  | currentElem :: rest =>
      let nextUsedOffset := rest.headD ctx.fixedStackFrameWidth
      if currentElem - nextUsedOffset ≥ tempStackSlotSize + tempStackSlotSize then
        let freeSlotOffset := nextUsedOffset + tempStackSlotSize
        if freeSlotOffset < ctx.minimalStackFrameSize + tempStackSlotSize then none
        else some freeSlotOffset
      else freeSlotBelow ctx rest

/-- The highest position in use. -/
def getCurrentMaximumUsedStackFramePosition (ctx : FrameContext TReg)
    (st : CompilerState TReg) : UInt32 :=
  max ctx.minimalStackFrameSize (st.tempStackPositions.headD 0)

/-- A slot for a temporary result. -/
def findFreeTempStackSlot (ctx : FrameContext TReg) (st : CompilerState TReg) : UInt32 :=
  (freeSlotBelow ctx st.tempStackPositions).getD
    (getCurrentMaximumUsedStackFramePosition ctx st + tempStackSlotSize)

/-- A gap is no used position, lies above the enclosing blocks' part of the frame, and
below a used position. -/
theorem freeSlotBelow_spec {ctx : FrameContext TReg} {r : UInt32}
    (hmin : ctx.minimalStackFrameSize ≤ maxStackFrameSize) :
    ∀ {l : List UInt32}, l.Pairwise (fun a b => b < a) →
      (∀ p ∈ l, ctx.fixedStackFrameWidth < p ∧ p ≤ maxStackFrameSize) →
      freeSlotBelow ctx l = some r →
      r ∉ l ∧ ctx.minimalStackFrameSize < r ∧ ∃ p ∈ l, r < p
  | [], _, _, h => by simp [freeSlotBelow] at h
  | currentElem :: rest, hs, hb, h => by
      rw [List.pairwise_cons] at hs
      have hcur := hb currentElem (by simp)
      simp only [freeSlotBelow] at h
      split at h
      · case _ hgap =>
          split at h
          · simp at h
          · case _ hge =>
              obtain rfl : rest.headD ctx.fixedStackFrameWidth + tempStackSlotSize = r := by
                simpa using h
              -- the elements below are at most at the next used position
              have hnext : (∀ p ∈ rest, p ≤ rest.headD ctx.fixedStackFrameWidth) ∧
                  rest.headD ctx.fixedStackFrameWidth < currentElem := by
                cases rest with
                | nil => exact ⟨by simp, hcur.1⟩
                | cons q qs =>
                    refine ⟨fun p hp => ?_, hs.1 q (by simp)⟩
                    rcases List.mem_cons.mp hp with rfl | hp
                    · exact UInt32.le_refl _
                    · have := (List.pairwise_cons.mp hs.2).1 p hp
                      simp only [List.headD_cons]
                      grind
              generalize rest.headD ctx.fixedStackFrameWidth = next at *
              simp only [tempStackSlotSize, maxStackFrameSize] at *
              refine ⟨?_, by grind, currentElem, by simp, by grind⟩
              rw [List.mem_cons]
              rintro (heq | hmem)
              · grind
              · have := hnext.1 _ hmem
                grind
      · obtain ⟨hnot, habove, p, hp, hlt⟩ :=
          freeSlotBelow_spec hmin hs.2 (fun p hp => hb p (by simp [hp])) h
        have hpc := hs.1 p hp
        refine ⟨?_, habove, p, by simp [hp], hlt⟩
        rw [List.mem_cons]
        rintro (heq | hmem)
        · grind
        · exact hnot hmem

/-- **A free temporary slot** lies above the part of the frame that is always in use, holds
no element, and ends at most one slot behind the frame. -/
theorem findFreeTempStackSlot_spec {ctx : FrameContext TReg} {st : CompilerState TReg}
    (h : st.WellFormed ctx) :
    (∀ e ∈ st.stack, e.stackFramePosition? ≠ some (findFreeTempStackSlot ctx st)) ∧
      ctx.minimalStackFrameSize < findFreeTempStackSlot ctx st ∧
      findFreeTempStackSlot ctx st ≤ st.stackFrameSize + tempStackSlotSize := by
  have hminimal := h.minimal_le
  have hmax := h.le_max
  have hused : ∀ p ∈ st.tempStackPositions,
      ctx.fixedStackFrameWidth < p ∧ p ≤ st.stackFrameSize := by
    intro p hp
    obtain ⟨e, he, hpos⟩ := CompilerState.mem_tempStackPositions.mp hp
    have hfit := h.fits e he
    cases e with
    | tempResult storage =>
        obtain ⟨mt, loc⟩ := storage
        cases loc <;> simp_all [LocatedElement.stackFramePosition?, ElementFits]
    | _ => simp [LocatedElement.stackFramePosition?] at hpos
  have hmem : ∀ e ∈ st.stack, ∀ p, e.stackFramePosition? = some p →
      p ∈ st.tempStackPositions :=
    fun e he p hp => CompilerState.mem_tempStackPositions.mpr ⟨e, he, hp⟩
  have hsorted := st.tempStackPositions_pairwise
  simp only [findFreeTempStackSlot]
  cases hgap : freeSlotBelow ctx st.tempStackPositions with
  | some r =>
      obtain ⟨hnot, habove, p, hp, hlt⟩ := freeSlotBelow_spec (by grind) hsorted
        (fun p hp => ⟨(hused p hp).1, by have := (hused p hp).2; grind⟩) hgap
      have hle := (hused p hp).2
      refine ⟨fun e he hpos => hnot (hmem e he r hpos), habove, ?_⟩
      simp only [Option.getD_some, tempStackSlotSize, maxStackFrameSize] at *
      grind
  | none =>
      -- one slot above everything in use
      have htop : (∀ p ∈ st.tempStackPositions, p ≤ st.tempStackPositions.headD 0) ∧
          st.tempStackPositions.headD 0 ≤ st.stackFrameSize := by
        cases hl : st.tempStackPositions with
        | nil => exact ⟨by simp, by simp⟩
        | cons q qs =>
            rw [hl] at hsorted hused
            refine ⟨fun p hp => ?_, (hused q (by simp)).2⟩
            rcases List.mem_cons.mp hp with rfl | hp
            · exact UInt32.le_refl _
            · have := (List.pairwise_cons.mp hsorted).1 p hp
              simp only [List.headD_cons]
              grind
      simp only [Option.getD_none, getCurrentMaximumUsedStackFramePosition]
      generalize hhead : st.tempStackPositions.headD 0 = top at htop
      have hm : ctx.minimalStackFrameSize ≤ max ctx.minimalStackFrameSize top ∧
          top ≤ max ctx.minimalStackFrameSize top ∧
          max ctx.minimalStackFrameSize top ≤ st.stackFrameSize := by
        simp only [UInt32.max_def]
        grind
      generalize max ctx.minimalStackFrameSize top = m at hm
      simp only [tempStackSlotSize, maxStackFrameSize] at *
      refine ⟨fun e he hpos => ?_, by grind, by grind⟩
      have := htop.1 _ (hmem e he _ hpos)
      grind

end WasmCompiler
