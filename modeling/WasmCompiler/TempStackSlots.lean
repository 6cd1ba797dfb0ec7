import WasmCompiler.OccurrenceLists
import WasmCompiler.ModuleSerialization

/-!
# Temporary Stack Slots

Values that are spilled get a slot of the stack frame. A slot is named by its distance from the
end of the frame, so it takes the bytes below its position. `Common::findFreeTempStackSlot` walks
down the groups of the slots that are in use and takes the first gap, unless the gap lies in the
part that enclosing blocks or a call in preparation keep for themselves; then, and if there is no
gap, it takes the place above everything in use.

Positions are numbers below `2 ^ 32`. The one subtraction that may wrap is that of the fixed part
from a slot inside it: a parameter of a tail call is moved to its place among the parameters of
the function while the other ones are still evaluated.

## Main results

* `findGap_spec`: what the walk over the groups finds.
* `findFreeTempStackSlot_spec`: the slot is free, above the part that is kept, and not too high.
* `le_getCurrentMaximumUsedStackFramePosition`: the frame covers every slot in use.
-/

namespace WasmCompiler

/-! ### The frame of a function -/

/-- The width of the return address on the stack. -/
def JitTarget.returnAddrWidth : JitTarget → ℕ
  | .x86_64 => 8
  | .aarch64 => 0
  | .tricore => 4

/-- The alignment of a stack frame without the parameters. -/
def JitTarget.stackFrameAlignment : JitTarget → ℕ
  | .x86_64 | .aarch64 => 16
  | .tricore => 8

/-- `StackElement::tempStackSlotSize`, as a number. -/
def slotWidth : ℕ := tempStackSlotSize.toNat

/-- `ImplementationLimits::maxStackFrameSize`, as a number. -/
def frameLimit : ℕ := maxStackFrameSize.toNat

/-- What a block, a loop or an if-block keeps about the frame. -/
structure BlockFrame where
  blockResultsStackOffset : ℕ
  entryStackFrameSize : ℕ
  deriving DecidableEq, Repr

/-- The part of `FunctionInfo` that describes the frame; the open blocks are those that
`lastBlockReference` leads to, the innermost one first. -/
structure FunctionFrame where
  target : JitTarget
  paramWidth : ℕ
  directLocalsWidth : ℕ
  stackFrameSize : ℕ
  preservedStackSize : ℕ
  blocks : List BlockFrame
  deriving DecidableEq, Repr

/-- The next multiple of an alignment. -/
def roundUpTo (alignment value : ℕ) : ℕ := (value + (alignment - 1)) / alignment * alignment

namespace FunctionFrame

variable (fnc : FunctionFrame)

/-- The parameters, the return address and the locals. -/
def getFixedStackFrameWidth : ℕ :=
  fnc.paramWidth + roundUpTo 8 fnc.target.returnAddrWidth + fnc.directLocalsWidth

/-- The part that is kept: by the innermost block, and during the preparation of a call. -/
def getMinimalStackFrameSize : ℕ :=
  let nonPreservedMinimalSize := match fnc.blocks with
    | [] => fnc.getFixedStackFrameWidth
    | lastBlock :: _ => lastBlock.blockResultsStackOffset
  max fnc.preservedStackSize nonPreservedMinimalSize

/-- `Assembler::alignStackFrameSize`. -/
def alignStackFrameSize (frameSize : ℕ) : ℕ :=
  roundUpTo fnc.target.stackFrameAlignment (frameSize - fnc.paramWidth) + fnc.paramWidth

/-- `Assembler::setStackFrameSize`; it throws if the frame gets too large. -/
def setStackFrameSize (frameSize : ℕ) : Option FunctionFrame :=
  if fnc.stackFrameSize ≠ frameSize ∧ frameLimit < frameSize then none
  else some { fnc with stackFrameSize := frameSize }

/-- Let the frame grow until it covers a position. -/
def growTo (newOffset : ℕ) : Option FunctionFrame :=
  if fnc.stackFrameSize < newOffset then
    fnc.setStackFrameSize (fnc.alignStackFrameSize (newOffset + 32))
  else some fnc

end FunctionFrame

/-! ### Looking for a slot -/

/-- Addition of 32-bit numbers. -/
def wrappingAdd (a b : ℕ) : ℕ := (a + b) % 2 ^ 32

/-- Subtraction of 32-bit numbers. -/
def wrappingSub (a b : ℕ) : ℕ := (a + 2 ^ 32 - b) % 2 ^ 32

/-- The entry of the temporary stack slots. -/
def ReferenceMap.tempStackReference (m : ReferenceMap) : GroupReference :=
  .majorReference m.getStackMemoryReferencePosition

namespace FunctionFrame

variable (m : ReferenceMap) (s : CompilerStack) (fnc : FunctionFrame)

/-- `Common::getCurrentMaximumUsedStackFramePosition`. -/
def getCurrentMaximumUsedStackFramePosition : ℕ :=
  max fnc.getMinimalStackFrameSize ((s.read m.tempStackReference).elim 0 s.position)

/-- The loop of `findFreeTempStackSlot`: the first gap, or nothing if there is none or if it is in
the part that is kept. Without fuel there is no result. -/
def findGap (slotSize : ℕ) : ℕ → Option ℕ → Option (Option ℕ)
  | 0, _ => none
  | _ + 1, none => some none
  | fuel + 1, some currentElem =>
      let nextElement := s.read (.nextLowerTempStack currentElem)
      let nextUsedOffset := nextElement.elim fnc.getFixedStackFrameWidth s.position
      let delta := wrappingSub (s.position currentElem) nextUsedOffset
      if slotWidth + slotSize ≤ delta then
        let freeSlotOffset := wrappingAdd nextUsedOffset slotSize
        if freeSlotOffset < wrappingAdd fnc.getMinimalStackFrameSize slotWidth then some none
        else some (some freeSlotOffset)
      else findGap slotSize fuel nextElement

/-- `Common::findFreeTempStackSlot`. -/
def findFreeTempStackSlot (fuel slotSize : ℕ) : Option ℕ :=
  (fnc.findGap s slotSize fuel (s.read m.tempStackReference)).map fun freeSlotOffset =>
    freeSlotOffset.getD (wrappingAdd (fnc.getCurrentMaximumUsedStackFramePosition m s) slotWidth)

end FunctionFrame

/-! ### The gap -/

variable {m : ReferenceMap} {s : CompilerStack} {fnc : FunctionFrame} {slotSize : ℕ}

/-- A slot that lies in a gap between slots: above the part that is kept, clear of every slot, and
below one of them. -/
structure InGap (s : CompilerStack) (fnc : FunctionFrame) (slotSize slot : ℕ) (nodes : List ℕ) :
    Prop where
  minimal : fnc.getMinimalStackFrameSize + slotWidth ≤ slot
  clear : ∀ n ∈ nodes, s.position n + slotSize ≤ slot ∨ slot + slotWidth ≤ s.position n
  below : ∃ n ∈ nodes, slot + slotWidth ≤ s.position n

/-- Where the slots in use may be: none is too high, and one in the fixed part is there only while
more than the fixed part is kept. -/
structure SlotsInFrame (s : CompilerStack) (fnc : FunctionFrame) (nodes : List ℕ) : Prop where
  le_limit : ∀ n ∈ nodes, s.position n ≤ frameLimit
  kept : ∀ n ∈ nodes, s.position n < fnc.getFixedStackFrameWidth →
    fnc.getFixedStackFrameWidth < fnc.getMinimalStackFrameSize

/-- The part that is kept is at least the fixed one, and is not too large. -/
structure KeepsFixed (fnc : FunctionFrame) : Prop where
  fixed : fnc.getFixedStackFrameWidth ≤ fnc.getMinimalStackFrameSize
  le_limit : fnc.getMinimalStackFrameSize ≤ frameLimit

theorem SlotsInFrame.mono {nodes nodes' : List ℕ} (h : SlotsInFrame s fnc nodes)
    (hsub : ∀ n ∈ nodes', n ∈ nodes) : SlotsInFrame s fnc nodes' :=
  ⟨fun n hn => h.le_limit n (hsub n hn), fun n hn => h.kept n (hsub n hn)⟩

theorem slotWidth_eq : slotWidth = 8 := rfl

theorem frameLimit_eq : frameLimit = 2 ^ 23 := rfl

/-- The gap below a slot. -/
theorem inGap_of_delta {nodes : List ℕ} {top next slot : ℕ} (hkeeps : KeepsFixed fnc)
    (hsize : slotSize ≤ slotWidth) (htop : top ∈ nodes) (hlimit : s.position top ≤ frameLimit)
    (hnext : next ≤ s.position top ∨ (next = fnc.getFixedStackFrameWidth ∧
      fnc.getFixedStackFrameWidth < fnc.getMinimalStackFrameSize))
    (hbound : next ≤ frameLimit)
    (hothers : ∀ n ∈ nodes, s.position n = s.position top ∨ s.position n ≤ next)
    (hdelta : slotWidth + slotSize ≤ wrappingSub (s.position top) next)
    (hslot : slot = wrappingAdd next slotSize)
    (hminimal : wrappingAdd fnc.getMinimalStackFrameSize slotWidth ≤ slot) :
    InGap s fnc slotSize slot nodes := by
  have hfixed := hkeeps.fixed
  have hkept := hkeeps.le_limit
  rw [wrappingSub] at hdelta
  rw [wrappingAdd] at hslot hminimal
  rw [frameLimit_eq] at hlimit hbound hkept
  rw [slotWidth_eq] at hsize hdelta hminimal
  have hslot' : slot = next + slotSize := by omega
  have hle : next ≤ s.position top := by omega
  refine ⟨by rw [slotWidth_eq]; omega, fun n hn => ?_, top, htop, by rw [slotWidth_eq]; omega⟩
  rw [slotWidth_eq]
  rcases hothers n hn with heq | hbelow <;> omega

/-- A gap below a group is one below the groups above it. -/
theorem InGap.cons {slot : ℕ} {g : Group ℕ} {gs : List (Group ℕ)}
    (h : InGap s fnc slotSize slot (members gs))
    (hkey : ∀ n ∈ g.members, s.position n = s.position g.top)
    (hlower : ∀ n ∈ members gs, s.position n < s.position g.top) :
    InGap s fnc slotSize slot (members (g :: gs)) := by
  obtain ⟨k, hk, hbelow⟩ := h.below
  refine ⟨h.minimal, fun n hn => ?_, k, List.mem_append_right _ hk, hbelow⟩
  rcases List.mem_append.mp hn with hn | hn
  · have heq := hkey n hn
    have hlt := hlower k hk
    exact .inr (by omega)
  · exact h.clear n hn

/-- **The walk over the groups** finds a gap, or nothing. -/
theorem findGap_spec {gs : List (Group ℕ)} {a : GroupReference} {fuel : ℕ}
    (hgs : s.ListsGroups a gs) (hd : DescendingGroups s.position gs)
    (hkeeps : KeepsFixed fnc) (hslots : SlotsInFrame s fnc (members gs))
    (hsize : slotSize ≤ slotWidth) (hfuel : gs.length < fuel) :
    ∃ gap, fnc.findGap s slotSize fuel (s.read a) = some gap ∧
      ∀ slot, gap = some slot → InGap s fnc slotSize slot (members gs) := by
  induction gs generalizing a fuel with
  | nil =>
      obtain ⟨fuel, rfl⟩ : ∃ k, fuel = k + 1 := ⟨fuel - 1, by omega⟩
      refine ⟨none, ?_, fun slot hslot => nomatch hslot⟩
      rw [show s.read a = none from hgs, FunctionFrame.findGap]
  | cons g gs ih =>
      obtain ⟨fuel, rfl⟩ : ∃ k, fuel = k + 1 := ⟨fuel - 1, by omega⟩
      obtain ⟨hlist, hrest⟩ := hgs
      have hhead : s.read a = some g.top := hlist.head
      have htop : g.top ∈ members (g :: gs) := List.mem_append_left _ List.mem_cons_self
      have hsub : ∀ n ∈ members gs, n ∈ members (g :: gs) :=
        fun n hn => List.mem_append_right _ hn
      cases hd with
      | cons hkey hlower hd =>
          have hfuel' : gs.length < fuel := by
            rw [List.length_cons] at hfuel
            omega
          obtain ⟨gap, hgap, hin⟩ := ih hrest hd (hslots.mono hsub) hfuel'
          -- where the next slot below the group ends, or the fixed part
          have hnext : ∃ next, (s.read (.nextLowerTempStack g.top)).elim
                fnc.getFixedStackFrameWidth s.position = next ∧ next ≤ frameLimit ∧
              (next ≤ s.position g.top ∨ (next = fnc.getFixedStackFrameWidth ∧
                fnc.getFixedStackFrameWidth < fnc.getMinimalStackFrameSize)) ∧
              ∀ n ∈ members gs, s.position n ≤ next := by
            cases gs with
            | nil =>
                refine ⟨_, by rw [show s.read (.nextLowerTempStack g.top) = none from hrest]; rfl,
                  hkeeps.fixed.trans hkeeps.le_limit, ?_, fun n hn => nomatch hn⟩
                rcases Nat.lt_or_ge (s.position g.top) fnc.getFixedStackFrameWidth with hlt | hge
                · exact .inr ⟨rfl, hslots.kept _ htop hlt⟩
                · exact .inl hge
            | cons g' gs' =>
                have htop' : g'.top ∈ members (g' :: gs') :=
                  List.mem_append_left _ List.mem_cons_self
                have hread : s.read (.nextLowerTempStack g.top) = some g'.top := hrest.1.head
                refine ⟨_, by rw [hread]; rfl, hslots.le_limit _ (hsub _ htop'),
                  .inl (hlower _ htop').le, fun n hn => ?_⟩
                cases hd with
                | cons hkey' hlower' _ =>
                    rcases List.mem_append.mp hn with hn | hn
                    · exact (hkey' n hn).le
                    · exact (hlower' n hn).le
          obtain ⟨next, hnext, hbound, hcases, hbelow⟩ := hnext
          rw [hhead, FunctionFrame.findGap, hnext]
          simp only
          split
          · case _ hdelta =>
              split
              · exact ⟨none, rfl, fun slot hslot => nomatch hslot⟩
              · case _ hminimal =>
                  refine ⟨_, rfl, fun slot hslot => ?_⟩
                  obtain rfl := Option.some.inj hslot
                  refine inGap_of_delta hkeeps hsize htop (hslots.le_limit _ htop) hcases hbound
                    (fun n hn => ?_) hdelta rfl (Nat.le_of_not_lt hminimal)
                  rcases List.mem_append.mp hn with hn | hn
                  · exact .inl (hkey n hn)
                  · exact .inr (hbelow n hn)
          · exact ⟨gap, hgap, fun slot hslot => (hin slot hslot).cons hkey hlower⟩

/-! ### The slot -/

/-- The slot is above everything in use, or in a gap. -/
structure FreeSlot (s : CompilerStack) (fnc : FunctionFrame) (slotSize slot : ℕ)
    (nodes : List ℕ) : Prop where
  minimal : fnc.getMinimalStackFrameSize + slotWidth ≤ slot
  clear : ∀ n ∈ nodes, s.position n + slotSize ≤ slot ∨ slot + slotWidth ≤ s.position n
  le_limit : slot ≤ frameLimit + slotWidth

/-- The highest slot is the first one. -/
theorem position_le_of_mem {gs : List (Group ℕ)} {a : GroupReference}
    (hgs : s.ListsGroups a gs) (hd : DescendingGroups s.position gs) {n : ℕ}
    (hn : n ∈ members gs) : s.position n ≤ (s.read a).elim 0 s.position := by
  cases hd with
  | nil => cases hn
  | cons hkey hlower hd =>
      rw [hgs.1.head]
      rcases List.mem_append.mp hn with hn | hn
      · exact (hkey n hn).le
      · exact (hlower n hn).le

/-- **The slot that is found** is free. -/
theorem findFreeTempStackSlot_free {gs : List (Group ℕ)} {fuel : ℕ}
    (hgs : s.ListsGroups m.tempStackReference gs) (hd : DescendingGroups s.position gs)
    (hkeeps : KeepsFixed fnc) (hslots : SlotsInFrame s fnc (members gs))
    (hsize : slotSize ≤ slotWidth) (hfuel : gs.length < fuel) :
    ∃ slot, fnc.findFreeTempStackSlot m s fuel slotSize = some slot ∧
      FreeSlot s fnc slotSize slot (members gs) := by
  obtain ⟨gap, hgap, hin⟩ := findGap_spec hgs hd hkeeps hslots hsize hfuel
  refine ⟨gap.getD (wrappingAdd (fnc.getCurrentMaximumUsedStackFramePosition m s) slotWidth),
    by rw [FunctionFrame.findFreeTempStackSlot, hgap, Option.map_some], ?_⟩
  cases gap with
  | some slot =>
      have h := hin slot rfl
      obtain ⟨n, hn, hbelow⟩ := h.below
      have hlimit := hslots.le_limit n hn
      exact ⟨h.minimal, h.clear, by rw [Option.getD_some]; omega⟩
  | none =>
      have hmax : ∀ n ∈ members gs,
          s.position n ≤ fnc.getCurrentMaximumUsedStackFramePosition m s :=
        fun n hn => (position_le_of_mem hgs hd hn).trans (Nat.le_max_right _ _)
      have hminimal : fnc.getMinimalStackFrameSize ≤
          fnc.getCurrentMaximumUsedStackFramePosition m s := Nat.le_max_left _ _
      have hlimit : fnc.getCurrentMaximumUsedStackFramePosition m s ≤ frameLimit := by
        refine Nat.max_le.mpr ⟨hkeeps.le_limit, ?_⟩
        cases gs with
        | nil =>
            rw [show s.read m.tempStackReference = none from hgs]
            exact Nat.zero_le _
        | cons g gs =>
            rw [hgs.1.head]
            exact hslots.le_limit _ (List.mem_append_left _ List.mem_cons_self)
      have hadd : wrappingAdd (fnc.getCurrentMaximumUsedStackFramePosition m s) slotWidth =
          fnc.getCurrentMaximumUsedStackFramePosition m s + slotWidth := by
        rw [frameLimit_eq] at hlimit
        rw [wrappingAdd, slotWidth_eq]
        omega
      rw [Option.getD_none, hadd]
      refine ⟨by omega, fun n hn => ?_, by omega⟩
      have := hmax n hn
      exact .inl (by omega)

/-! ### Slots of the compiler stack -/

/-- An element that is listed among the temporary stack slots is a result in stack memory. -/
def IsTempStackSlot (m : ReferenceMap) (d : ElementData) : Prop :=
  d.isVariable = true ∧ m.getReferencePosition d = m.getStackMemoryReferencePosition

/-- The live slots are listed in groups. -/
theorem OccurrenceLists.tempStackGroups {live : List ℕ} (h : OccurrenceLists m s live)
    (hmemory : ∀ n ∈ live, IsTempStackSlot m (s.data n) → (s.data n).isStackMemory = true) :
    ∃ gs, s.ListsGroups m.tempStackReference gs ∧ DescendingGroups s.position gs ∧
      gs.length ≤ live.length ∧
      ∀ n, n ∈ members gs ↔ n ∈ live ∧ IsTempStackSlot m (s.data n) := by
  have hmem : ∀ n, n ∈ occurrences m s live m.getStackMemoryReferencePosition ↔
      n ∈ live ∧ IsTempStackSlot m (s.data n) := by
    intro n
    rw [mem_occurrences]
    exact and_congr_right fun hn => ⟨fun heq => ⟨h.variable_ n hn, heq⟩, And.right⟩
  cases h.entries m.getStackMemoryReferencePosition with
  | list l hlist hperm hnone =>
      have hnil : l = [] := by
        rw [List.eq_nil_iff_forall_not_mem]
        intro n hn
        obtain ⟨hlive, hslot⟩ := (hmem n).mp (hperm.mem_iff.mp hn)
        exact absurd (hmemory n hlive hslot) (by rw [hnone n hn]; exact Bool.false_ne_true)
      subst hnil
      refine ⟨[], hlist.head, .nil, Nat.zero_le _, fun n => ?_⟩
      rw [← hmem, ← hperm.mem_iff, members_nil]
  | groups gs hgs hperm _ hd =>
      refine ⟨gs, hgs, hd, ?_, fun n => ?_⟩
      · exact length_le_of_perm hperm
      · rw [← hmem, hperm.mem_iff]

/-- **The frame covers every slot in use.** -/
theorem le_getCurrentMaximumUsedStackFramePosition {live : List ℕ} (h : OccurrenceLists m s live)
    (hmemory : ∀ n ∈ live, IsTempStackSlot m (s.data n) → (s.data n).isStackMemory = true)
    {n : ℕ} (hn : n ∈ live) (hslot : IsTempStackSlot m (s.data n)) :
    s.position n ≤ fnc.getCurrentMaximumUsedStackFramePosition m s := by
  obtain ⟨gs, hgs, hd, -, hmem⟩ := h.tempStackGroups hmemory
  exact (position_le_of_mem hgs hd ((hmem n).mpr ⟨hn, hslot⟩)).trans (Nat.le_max_right _ _)

end WasmCompiler
