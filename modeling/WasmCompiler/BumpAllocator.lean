import WasmCompiler.CompilerMemory
import WasmCompiler.PointerChains

/-!
# The Fixed-Size Allocator

Elements of one size are allocated from slabs. The free elements of all slabs are in one list,
whose links are in the elements themselves; the slabs are in another list, with the links in
their headers.

## Main results

* `AllocatorState.Sound.step`: every operation keeps the free elements and the live ones apart,
  and all of them inside the slabs.
* `bumpAllocator_run`: what holds in every state that operations lead to.
-/

namespace WasmCompiler

/-! ### The code -/

/-- The template parameters `ElementSize` and `SlabSize`, with the size of a pointer. -/
structure SlabLayout where
  pointerSize : ℕ
  elementSize : ℕ
  slabSize : ℕ
  pointer_pos : 0 < pointerSize
  pointer_le : pointerSize ≤ elementSize
  slabSize_pos : 0 < slabSize
  /-- `slabByteSize` is a `uint32_t`. -/
  fits : 2 * pointerSize + elementSize * slabSize < 2 ^ 32

namespace SlabLayout

variable (L : SlabLayout)

/-- `sizeof(Slab)`: the fields `next` and `ptr`. -/
def headerSize : ℕ := 2 * L.pointerSize

/-- `slabByteSize`. -/
def slabByteSize : ℕ := L.headerSize + L.elementSize * L.slabSize

/-- The address of an element of the slab at an address. -/
def element (slab i : ℕ) : ℕ := slab + L.headerSize + i * L.elementSize

/-- The elements of the slab at an address. -/
def elements (slab : ℕ) : List ℕ := (List.range L.slabSize).map (L.element slab)

end SlabLayout

/-- `FixedBumpAllocator`, with the pointers in memory by their addresses. -/
structure FixedBumpAllocator where
  /-- `current_`: the slab that was allocated last. -/
  current : ℕ
  /-- `head_`: the list of free elements. -/
  head : ℕ
  memory : ℕ → ℕ

namespace FixedBumpAllocator

/-- No slab yet. -/
def init (memory : ℕ → ℕ) : FixedBumpAllocator := ⟨0, 0, memory⟩

variable (L : SlabLayout)

/-- `initSlab`: link the elements one behind the other. -/
def initSlab (a : FixedBumpAllocator) (memory : ℕ) : FixedBumpAllocator :=
  let linked := (List.range (L.slabSize - 1)).foldl
    (fun pointers i => Function.update pointers (memory + i * L.elementSize)
      (memory + i * L.elementSize + L.elementSize)) a.memory
  { a with
    memory := Function.update linked (memory + (L.slabSize - 1) * L.elementSize) 0
    head := memory }

/-- `allocateSlab`, where `allocPtr_` returns `mem`. -/
def allocateSlab (a : FixedBumpAllocator) (mem : ℕ) : Except CompileError FixedBumpAllocator :=
  if mem = 0 then .error .couldNotExtendMemory
  else
    let memory := Function.update (Function.update a.memory mem a.current) (mem + L.pointerSize)
      (mem + L.headerSize)
    let a := initSlab L { a with memory } (memory (mem + L.pointerSize))
    .ok { a with current := mem }

/-- Whether `step` requests a slab. -/
def requestsSlab (a : FixedBumpAllocator) : Bool := a.current == 0 || a.head == 0

/-- `step`: an element that was free. -/
def step (a : FixedBumpAllocator) (mem : ℕ) : Except CompileError (ℕ × FixedBumpAllocator) := do
  let a ← if a.requestsSlab then a.allocateSlab L mem else pure a
  let result := a.head
  pure (result, { a with head := a.memory result })

/-- `freeElem`. -/
def freeElem (a : FixedBumpAllocator) (elem : ℕ) : FixedBumpAllocator :=
  { a with memory := Function.update a.memory elem a.head, head := elem }

/-- `freeSlab`: the slabs that `freePtr_` is called with, if the loop ends. -/
def freeSlab (memory : ℕ → ℕ) (fuel slab : ℕ) : Option (List ℕ) := walkLinks memory 0 fuel slab

/-- `reset`, with the slabs that are freed; nothing if `current_` is null. -/
def reset (a : FixedBumpAllocator) (fuel : ℕ) : Option (List ℕ × FixedBumpAllocator) :=
  if a.current = 0 then none
  else do
    let freed ← freeSlab a.memory fuel (a.memory a.current)
    let memory := Function.update a.memory a.current 0
    pure (freed,
      initSlab L { a with memory, head := 0 } (memory (a.current + L.pointerSize)))

end FixedBumpAllocator

/-! ### Runs -/

/-- Two ranges of addresses have nothing in common. -/
def Apart (a size b size' : ℕ) : Prop := a + size ≤ b ∨ b + size' ≤ a

/-- The allocator, the slabs that the host has handed out and not got back, and the elements that
the user has got and not given back. -/
structure AllocatorState where
  allocator : FixedBumpAllocator
  owned : List ℕ
  live : List ℕ

/-- An address inside one of the live elements. -/
def AllocatorState.InLive (L : SlabLayout) (s : AllocatorState) (x : ℕ) : Prop :=
  ∃ e ∈ s.live, e ≤ x ∧ x < e + L.elementSize

/-- What the host returns: null, or a slab apart from those it has handed out. -/
def HostReturns (L : SlabLayout) (owned : List ℕ) (mem : ℕ) : Prop :=
  mem ≠ 0 → ∀ slab ∈ owned, Apart slab L.slabByteSize mem L.slabByteSize

/-- The slabs after `step`. -/
def AllocatorState.ownedAfter (s : AllocatorState) (mem : ℕ) : List ℕ :=
  if s.allocator.requestsSlab then mem :: s.owned else s.owned

/-- An operation of the allocator, or a write of its user or of another user of the host's
memory. -/
inductive AllocatorStep (L : SlabLayout) : AllocatorState → AllocatorState → Prop where
  | step {s : AllocatorState} {mem result : ℕ} {a : FixedBumpAllocator}
      (host : HostReturns L s.owned mem) (result_eq : s.allocator.step L mem = .ok (result, a)) :
      AllocatorStep L s ⟨a, s.ownedAfter mem, result :: s.live⟩
  | freeElem {s : AllocatorState} {elem : ℕ} (live : elem ∈ s.live) :
      AllocatorStep L s ⟨s.allocator.freeElem elem, s.owned, s.live.erase elem⟩
  | reset {s : AllocatorState} {fuel : ℕ} {freed : List ℕ} {a : FixedBumpAllocator}
      (result_eq : s.allocator.reset L fuel = some (freed, a)) :
      AllocatorStep L s ⟨a, s.owned.filter fun slab => decide (slab ∉ freed), []⟩
  | write {s : AllocatorState} {memory : ℕ → ℕ}
      (kept : ∀ slab ∈ s.owned, ∀ x, slab ≤ x → x < slab + L.slabByteSize → ¬ s.InLive L x →
        memory x = s.allocator.memory x) :
      AllocatorStep L s ⟨{ s.allocator with memory }, s.owned, s.live⟩

/-! ### The elements of slabs -/

namespace SlabLayout

variable (L : SlabLayout)

/-- Elements have a size. -/
theorem elementSize_pos : 0 < L.elementSize := L.pointer_pos.trans_le L.pointer_le

/-- An element is behind the header and inside the slab. -/
theorem element_bounds (slab : ℕ) {i : ℕ} (hi : i < L.slabSize) :
    slab + L.headerSize ≤ L.element slab i ∧
      L.element slab i + L.elementSize ≤ slab + L.slabByteSize := by
  have hle : (i + 1) * L.elementSize ≤ L.slabSize * L.elementSize := Nat.mul_le_mul_right _ hi
  rw [Nat.succ_mul, Nat.mul_comm L.slabSize] at hle
  rw [element, slabByteSize]
  omega

/-- An element of the list. -/
theorem mem_elements {slab e : ℕ} (h : e ∈ L.elements slab) :
    slab + L.headerSize ≤ e ∧ e + L.elementSize ≤ slab + L.slabByteSize := by
  obtain ⟨i, hi, rfl⟩ := List.mem_map.mp h
  exact L.element_bounds slab (List.mem_range.mp hi)

/-- Elements of one slab are apart. -/
theorem apart_element (slab : ℕ) {i j : ℕ} (hij : i ≠ j) :
    Apart (L.element slab i) L.elementSize (L.element slab j) L.elementSize := by
  rcases Nat.lt_or_gt_of_ne hij with hlt | hlt
  · left
    have hle : (i + 1) * L.elementSize ≤ j * L.elementSize := Nat.mul_le_mul_right _ hlt
    rw [Nat.succ_mul] at hle
    rw [element, element]
    omega
  · right
    have hle : (j + 1) * L.elementSize ≤ i * L.elementSize := Nat.mul_le_mul_right _ hlt
    rw [Nat.succ_mul] at hle
    rw [element, element]
    omega

/-- The elements of slabs that are apart are apart. -/
theorem pairwise_elements {owned : List ℕ}
    (h : owned.Pairwise fun a b => Apart a L.slabByteSize b L.slabByteSize) :
    (owned.flatMap L.elements).Pairwise fun e e' => Apart e L.elementSize e' L.elementSize := by
  rw [List.pairwise_flatMap]
  refine ⟨fun slab _ => ?_, h.imp fun {a b} hab e he e' he' => ?_⟩
  · rw [elements, List.pairwise_map]
    exact List.nodup_range.imp fun {i j} hij => L.apart_element slab hij
  · have hbounds := L.mem_elements he
    have hbounds' := L.mem_elements he'
    rw [Apart] at hab ⊢
    omega

/-- They are different. -/
theorem nodup_elements {owned : List ℕ}
    (h : owned.Pairwise fun a b => Apart a L.slabByteSize b L.slabByteSize) :
    (owned.flatMap L.elements).Nodup := by
  refine (L.pairwise_elements h).imp fun {e e'} hapart heq => ?_
  have hpos := L.elementSize_pos
  rw [Apart, heq] at hapart
  omega

end SlabLayout

/-! ### The links of a new slab -/

namespace FixedBumpAllocator

variable (L : SlabLayout) (a : FixedBumpAllocator) (slab : ℕ)

/-- The links that the loop has written. -/
theorem foldl_links (pointers : ℕ → ℕ) (memory n x : ℕ) :
    (List.range n).foldl (fun pointers i => Function.update pointers (memory + i * L.elementSize)
        (memory + i * L.elementSize + L.elementSize)) pointers x =
      if ∃ i < n, x = memory + i * L.elementSize then x + L.elementSize else pointers x := by
  induction n with
  | zero => simp
  | succ n ih =>
      rw [List.range_succ, List.foldl_append, List.foldl_cons, List.foldl_nil]
      by_cases hx : x = memory + n * L.elementSize
      · have hexists : ∃ i < n + 1, x = memory + i * L.elementSize := ⟨n, Nat.lt_succ_self n, hx⟩
        rw [if_pos hexists, ← hx, Function.update_self]
      · rw [Function.update_of_ne hx, ih]
        refine if_congr ⟨?_, ?_⟩ rfl rfl
        · rintro ⟨i, hi, hxi⟩
          exact ⟨i, Nat.lt_succ_of_lt hi, hxi⟩
        · rintro ⟨i, hi, hxi⟩
          rcases Nat.lt_succ_iff_lt_or_eq.mp hi with hlt | rfl
          · exact ⟨i, hlt, hxi⟩
          · exact absurd hxi hx

/-- Other addresses keep what they hold. -/
theorem initSlab_memory_of_notMem {x : ℕ} (hx : x ∉ L.elements slab) :
    (initSlab L a (slab + L.headerSize)).memory x = a.memory x := by
  have hne : ∀ i < L.slabSize, x ≠ slab + L.headerSize + i * L.elementSize := by
    rintro i hi rfl
    exact hx (List.mem_map_of_mem (List.mem_range.mpr hi))
  have hpos := L.slabSize_pos
  have hlast := hne (L.slabSize - 1) (by omega)
  dsimp only [initSlab]
  rw [Function.update_of_ne hlast, foldl_links, if_neg]
  rintro ⟨i, hi, heq⟩
  exact hne i (by omega) heq

/-- An element but the last one names the next one. -/
theorem initSlab_memory_element {i : ℕ} (hi : i + 1 < L.slabSize) :
    (initSlab L a (slab + L.headerSize)).memory (L.element slab i) = L.element slab (i + 1) := by
  have hne : L.element slab i ≠ L.element slab (L.slabSize - 1) := by
    have hapart := L.apart_element slab (i := i) (j := L.slabSize - 1) (by omega)
    have hpos := L.elementSize_pos
    rw [Apart] at hapart
    omega
  refine (Function.update_of_ne hne _ _).trans ?_
  rw [foldl_links, if_pos ⟨i, by omega, rfl⟩, SlabLayout.element, SlabLayout.element,
    Nat.succ_mul, Nat.add_assoc _ (i * L.elementSize)]

/-- The last one names none. -/
theorem initSlab_memory_last :
    (initSlab L a (slab + L.headerSize)).memory (L.element slab (L.slabSize - 1)) = 0 :=
  Function.update_self _ _ _

/-- The elements from one on. -/
theorem leads_elements_from {memory : ℕ → ℕ}
    (hnext : ∀ i, i + 1 < L.slabSize → memory (L.element slab i) = L.element slab (i + 1))
    (hlast : memory (L.element slab (L.slabSize - 1)) = 0) (n i : ℕ)
    (hn : i + (n + 1) = L.slabSize) :
    Leads memory (L.element slab i) ((List.range' i (n + 1)).map (L.element slab)) 0 := by
  induction n generalizing i with
  | zero =>
      obtain rfl : i = L.slabSize - 1 := by omega
      exact ⟨rfl, hlast⟩
  | succ n ih =>
      rw [List.range'_succ, List.map_cons]
      refine ⟨rfl, ?_⟩
      rw [hnext i (by omega)]
      exact ih (i + 1) (by omega)

/-- **A new slab**: its elements are the free list. -/
theorem leads_initSlab :
    Leads (initSlab L a (slab + L.headerSize)).memory
      (initSlab L a (slab + L.headerSize)).head (L.elements slab) 0 := by
  have hpos := L.slabSize_pos
  have hleads := leads_elements_from L slab
    (fun i hi => initSlab_memory_element L a slab hi) (initSlab_memory_last L a slab)
    (L.slabSize - 1) 0 (by omega)
  rw [Nat.sub_add_cancel hpos] at hleads
  have hhead : L.element slab 0 = (initSlab L a (slab + L.headerSize)).head := by
    rw [SlabLayout.element, Nat.zero_mul, Nat.add_zero]
    rfl
  rw [hhead] at hleads
  rw [SlabLayout.elements, List.range_eq_range']
  exact hleads

end FixedBumpAllocator

/-! ### The invariant -/

/-- The slabs are those of the host, and their elements are free or live. -/
structure AllocatorState.Sound (L : SlabLayout) (s : AllocatorState) (free : List ℕ) : Prop where
  slabs : Leads s.allocator.memory s.allocator.current s.owned 0
  nonzero : 0 ∉ s.owned
  apart : s.owned.Pairwise fun a b => Apart a L.slabByteSize b L.slabByteSize
  ptr : ∀ slab ∈ s.owned, s.allocator.memory (slab + L.pointerSize) = slab + L.headerSize
  links : Leads s.allocator.memory s.allocator.head free 0
  elements : (free ++ s.live).Perm (s.owned.flatMap L.elements)

namespace AllocatorState.Sound

open FixedBumpAllocator

variable {L : SlabLayout} {s : AllocatorState} {free : List ℕ}

/-- An element that is free or live is one of a slab. -/
theorem exists_slab (h : s.Sound L free) {e : ℕ} (he : e ∈ free ++ s.live) :
    ∃ slab ∈ s.owned, e ∈ L.elements slab :=
  List.mem_flatMap.mp (h.elements.mem_iff.mp he)

/-- The free elements and the live ones are apart. -/
theorem pairwise (h : s.Sound L free) :
    (free ++ s.live).Pairwise fun e e' => Apart e L.elementSize e' L.elementSize := by
  exact (h.elements.pairwise_iff fun {_ _} hapart => hapart.symm).mpr (L.pairwise_elements h.apart)

/-- They are different. -/
theorem nodup (h : s.Sound L free) : (free ++ s.live).Nodup :=
  h.elements.nodup_iff.mpr (L.nodup_elements h.apart)

/-- No element is at address zero. -/
theorem ne_zero (h : s.Sound L free) {e : ℕ} (he : e ∈ free ++ s.live) : e ≠ 0 := by
  obtain ⟨slab, -, hmem⟩ := h.exists_slab he
  have hbounds := L.mem_elements hmem
  have hpos := L.pointer_pos
  rw [SlabLayout.headerSize] at hbounds
  omega

/-- There is no slab if there is no current one. -/
theorem current_eq_zero_iff (h : s.Sound L free) : s.allocator.current = 0 ↔ s.owned = [] :=
  (h.slabs.eq_nil_iff h.nonzero).symm

/-- **A slab is requested** only if nothing is free. -/
theorem requestsSlab_iff (h : s.Sound L free) :
    s.allocator.requestsSlab = true ↔ free = [] := by
  have hnot : 0 ∉ free := fun h0 => h.ne_zero (List.mem_append_left _ h0) rfl
  have hhead := h.links.eq_nil_iff hnot
  rw [requestsSlab, Bool.or_eq_true, beq_iff_eq, beq_iff_eq]
  constructor
  · rintro (hcurrent | hzero)
    · have helements := h.elements
      rw [h.current_eq_zero_iff.mp hcurrent] at helements
      exact (List.append_eq_nil_iff.mp helements.eq_nil).1
    · exact hhead.mpr hzero
  · exact fun hnil => .inr (hhead.mp hnil)

/-- A live element is apart from the header of a slab. -/
theorem apart_header (h : s.Sound L free) {slab e : ℕ} (hslab : slab ∈ s.owned)
    (he : e ∈ free ++ s.live) : Apart slab L.headerSize e L.elementSize := by
  obtain ⟨slab', hslab', hmem⟩ := h.exists_slab he
  have hbounds := L.mem_elements hmem
  by_cases heq : slab = slab'
  · left
    rw [heq]
    exact hbounds.1
  · have hsymm : Std.Symm fun a b => Apart a L.slabByteSize b L.slabByteSize :=
      ⟨fun _ _ hapart => hapart.symm⟩
    have hapart := List.Pairwise.forall h.apart hslab hslab' heq
    have hle : L.headerSize ≤ L.slabByteSize := Nat.le_add_right _ _
    rw [Apart] at hapart ⊢
    omega

/-- What the allocator relies on: the words of the headers and of free elements. -/
def Word (L : SlabLayout) (s : AllocatorState) (free : List ℕ) (x : ℕ) : Prop :=
  (∃ slab ∈ s.owned, x = slab ∨ x = slab + L.pointerSize) ∨ x ∈ free

/-- Nothing else in memory matters. -/
theorem congr (h : s.Sound L free) {memory : ℕ → ℕ}
    (hsame : ∀ x, Word L s free x → memory x = s.allocator.memory x) :
    Sound L ⟨{ s.allocator with memory }, s.owned, s.live⟩ free where
  slabs := h.slabs.congr fun slab hslab => hsame slab (.inl ⟨slab, hslab, .inl rfl⟩)
  nonzero := h.nonzero
  apart := h.apart
  ptr slab hslab := (hsame _ (.inl ⟨slab, hslab, .inr rfl⟩)).trans (h.ptr slab hslab)
  links := h.links.congr fun e he => hsame e (.inr he)
  elements := h.elements

/-- No word of the allocator is inside a live element. -/
theorem not_inLive (h : s.Sound L free) {x : ℕ} (hx : Word L s free x) : ¬ s.InLive L x := by
  rintro ⟨e, he, hle, hlt⟩
  rcases hx with ⟨slab, hslab, hx⟩ | hx
  · have hapart := h.apart_header hslab (List.mem_append_right _ he)
    have hpos := L.pointer_pos
    rw [Apart, SlabLayout.headerSize] at hapart
    rcases hx with rfl | rfl
    · omega
    · omega
  · have hapart := (List.pairwise_append.mp h.pairwise).2.2 x hx e he
    have hpos := L.elementSize_pos
    rw [Apart] at hapart
    omega

/-- A word of the allocator is inside a slab. -/
theorem inSlab (h : s.Sound L free) {x : ℕ} (hx : Word L s free x) :
    ∃ slab ∈ s.owned, slab ≤ x ∧ x < slab + L.slabByteSize := by
  have hpos := L.pointer_pos
  have hes := L.elementSize_pos
  rcases hx with ⟨slab, hslab, hx⟩ | hx
  · refine ⟨slab, hslab, ?_⟩
    rw [SlabLayout.slabByteSize, SlabLayout.headerSize]
    rcases hx with rfl | rfl
    · omega
    · omega
  · obtain ⟨slab, hslab, hmem⟩ := h.exists_slab (List.mem_append_left _ hx)
    have hbounds := L.mem_elements hmem
    exact ⟨slab, hslab, by omega, by omega⟩

/-- **A write** to live elements and to other memory. -/
theorem write (h : s.Sound L free) {memory : ℕ → ℕ}
    (hkept : ∀ slab ∈ s.owned, ∀ x, slab ≤ x → x < slab + L.slabByteSize → ¬ s.InLive L x →
      memory x = s.allocator.memory x) :
    Sound L ⟨{ s.allocator with memory }, s.owned, s.live⟩ free := by
  refine h.congr fun x hx => ?_
  obtain ⟨slab, hslab, hle, hlt⟩ := h.inSlab hx
  exact hkept slab hslab x hle hlt (h.not_inLive hx)

/-- **An element given back** is the first free one. -/
theorem freeElem (h : s.Sound L free) {elem : ℕ} (hlive : elem ∈ s.live) :
    Sound L ⟨s.allocator.freeElem elem, s.owned, s.live.erase elem⟩ (elem :: free) := by
  have hother : ∀ x, Word L s free x →
      (s.allocator.freeElem elem).memory x = s.allocator.memory x := by
    intro x hx
    refine Function.update_of_ne ?_ _ _
    rintro rfl
    exact h.not_inLive hx ⟨x, hlive, le_rfl, Nat.lt_add_of_pos_right L.elementSize_pos⟩
  have hcongr := h.congr hother
  refine ⟨hcongr.slabs, h.nonzero, h.apart, hcongr.ptr, ⟨rfl, ?_⟩, ?_⟩
  · have hlink : (s.allocator.freeElem elem).memory elem = s.allocator.head :=
      Function.update_self _ _ _
    exact hlink ▸ hcongr.links
  · refine List.Perm.trans ?_ h.elements
    have hmiddle : (free ++ elem :: s.live.erase elem).Perm
        (elem :: (free ++ s.live.erase elem)) := List.perm_middle
    exact hmiddle.symm.trans ((List.perm_cons_erase hlive).symm.append_left _)

/-- **An element taken** from the free ones. -/
theorem take {e : ℕ} (h : s.Sound L (e :: free)) :
    s.allocator.head = e ∧
      Sound L ⟨{ s.allocator with head := s.allocator.memory e }, s.owned, e :: s.live⟩ free := by
  refine ⟨h.links.1, h.slabs, h.nonzero, h.apart, h.ptr, h.links.2, ?_⟩
  exact List.perm_middle.trans h.elements

end AllocatorState.Sound

/-! ### Slabs -/

namespace AllocatorState.Sound

open FixedBumpAllocator

variable {L : SlabLayout} {s : AllocatorState} {free : List ℕ}

/-- The words of a header are no elements of its slab. -/
theorem notMem_elements_header {slab x : ℕ} (hx : x = slab ∨ x = slab + L.pointerSize) :
    x ∉ L.elements slab := by
  intro hmem
  have hbounds := L.mem_elements hmem
  have hpos := L.pointer_pos
  rw [SlabLayout.headerSize] at hbounds
  rcases hx with rfl | rfl
  · omega
  · omega

/-- **A new slab**: its elements are free. -/
theorem allocateSlab (h : s.Sound L []) {mem : ℕ} (hhost : HostReturns L s.owned mem)
    {a : FixedBumpAllocator} (heq : s.allocator.allocateSlab L mem = .ok a) :
    Sound L ⟨a, mem :: s.owned, s.live⟩ (L.elements mem) := by
  rw [FixedBumpAllocator.allocateSlab] at heq
  split at heq
  · cases heq
  · case _ hmem =>
    have hapart := hhost hmem
    let memory := Function.update (Function.update s.allocator.memory mem s.allocator.current)
      (mem + L.pointerSize) (mem + L.headerSize)
    have hptr : memory (mem + L.pointerSize) = mem + L.headerSize := Function.update_self _ _ _
    have hpos := L.pointer_pos
    have hnext : memory mem = s.allocator.current := by
      have hne : mem ≠ mem + L.pointerSize := by omega
      exact (Function.update_of_ne hne _ _).trans (Function.update_self _ _ _)
    simp only [Function.update_self] at heq
    obtain rfl := Except.ok.inj heq
    let linked := initSlab L { s.allocator with memory } (mem + L.headerSize)
    have hheader : ∀ x, x = mem ∨ x = mem + L.pointerSize → linked.memory x = memory x :=
      fun x hx => initSlab_memory_of_notMem L _ mem (notMem_elements_header hx)
    have hother : ∀ x, Word L s [] x → linked.memory x = s.allocator.memory x := by
      intro x hx
      obtain ⟨slab, hslab, hle, hlt⟩ := h.inSlab hx
      have hrange := hapart slab hslab
      rw [Apart] at hrange
      have hsize : L.headerSize ≤ L.slabByteSize := Nat.le_add_right _ _
      rw [SlabLayout.headerSize] at hsize
      have hnot : x ∉ L.elements mem := by
        intro hmem
        have hbounds := L.mem_elements hmem
        have hes := L.elementSize_pos
        omega
      have hne : x ≠ mem + L.pointerSize := by omega
      have hne' : x ≠ mem := by omega
      rw [initSlab_memory_of_notMem L _ mem hnot]
      exact (Function.update_of_ne hne _ _).trans (Function.update_of_ne hne' _ _)
    have hcongr := h.congr hother
    refine ⟨⟨rfl, ?_⟩, ?_, ?_, ?_, leads_initSlab L _ mem, ?_⟩
    · change Leads linked.memory (linked.memory mem) s.owned 0
      rw [hheader mem (.inl rfl), hnext]
      exact hcongr.slabs
    · rw [List.mem_cons, not_or]
      exact ⟨Ne.symm hmem, h.nonzero⟩
    · exact List.pairwise_cons.mpr ⟨fun slab hslab => (hapart slab hslab).symm, h.apart⟩
    · intro slab hslab
      rcases List.mem_cons.mp hslab with rfl | hslab
      · exact (hheader _ (.inr rfl)).trans hptr
      · exact hcongr.ptr slab hslab
    · rw [List.flatMap_cons]
      have helements := h.elements
      rw [List.nil_append] at helements
      exact helements.append_left _

/-- **All slabs but the current one** are freed. -/
theorem freeSlab (h : s.Sound L free) (hcurrent : s.allocator.current ≠ 0) :
    ∃ freed, s.owned = s.allocator.current :: freed ∧
      Leads s.allocator.memory (s.allocator.memory s.allocator.current) freed 0 ∧ 0 ∉ freed := by
  obtain ⟨freed, howned, hleads⟩ := h.slabs.exists_cons hcurrent
  have hnonzero := h.nonzero
  rw [howned, List.mem_cons, not_or] at hnonzero
  exact ⟨freed, howned, hleads, hnonzero.2⟩

/-- **A reset** keeps the current slab, and all its elements are free. -/
theorem reset (h : s.Sound L free) {fuel : ℕ} {freed : List ℕ} {a : FixedBumpAllocator}
    (heq : s.allocator.reset L fuel = some (freed, a)) :
    s.owned = s.allocator.current :: freed ∧ a.current = s.allocator.current ∧
      (s.owned.filter fun slab => decide (slab ∉ freed)) = [s.allocator.current] ∧
      Sound L ⟨a, [s.allocator.current], []⟩ (L.elements s.allocator.current) := by
  rw [FixedBumpAllocator.reset] at heq
  split at heq
  · cases heq
  · case _ hcurrent =>
    obtain ⟨rest, howned, hleads, hnonzero⟩ := h.freeSlab hcurrent
    obtain ⟨freed', hwalk, hpure⟩ := Option.bind_eq_some_iff.mp heq
    obtain ⟨rfl, rfl⟩ := Prod.mk.inj (Option.some.inj hpure)
    obtain rfl : freed' = rest := hleads.eq_of_walk_eq hnonzero hwalk
    have hapart := h.apart
    rw [howned, List.pairwise_cons] at hapart
    have hnot : s.allocator.current ∉ freed' := by
      intro hmem
      have hself := hapart.1 _ hmem
      have hpos := L.pointer_pos
      rw [Apart, SlabLayout.slabByteSize, SlabLayout.headerSize] at hself
      omega
    have hpos := L.pointer_pos
    have hptr : Function.update s.allocator.memory s.allocator.current 0
        (s.allocator.current + L.pointerSize) = s.allocator.current + L.headerSize := by
      have hne : s.allocator.current + L.pointerSize ≠ s.allocator.current := by omega
      rw [Function.update_of_ne hne]
      exact h.ptr _ (howned ▸ List.mem_cons_self)
    rw [hptr]
    refine ⟨howned, rfl, ?_, ⟨rfl, ?_⟩, ?_, List.pairwise_singleton _ _, ?_,
      leads_initSlab L _ s.allocator.current, ?_⟩
    · rw [howned, List.filter_cons, if_pos (decide_eq_true hnot), List.filter_eq_nil_iff.mpr]
      intro slab hslab
      rw [decide_eq_true_iff, not_not]
      exact hslab
    · change (initSlab L _ (s.allocator.current + L.headerSize)).memory s.allocator.current = 0
      rw [initSlab_memory_of_notMem L _ _ (notMem_elements_header (.inl rfl))]
      exact Function.update_self _ _ _
    · rw [List.mem_singleton]
      exact Ne.symm hcurrent
    · intro slab hslab
      obtain rfl := List.mem_singleton.mp hslab
      refine (initSlab_memory_of_notMem L _ _ (notMem_elements_header (.inr rfl))).trans ?_
      exact hptr
    · rw [List.append_nil, List.flatMap_cons, List.flatMap_nil, List.append_nil]

/-- **`step`** takes a free element, of a new slab if none was free. -/
theorem step (h : s.Sound L free) {mem result : ℕ} {a : FixedBumpAllocator}
    (hhost : HostReturns L s.owned mem) (heq : s.allocator.step L mem = .ok (result, a)) :
    ∃ free', result ∉ s.live ∧ Sound L ⟨a, s.ownedAfter mem, result :: s.live⟩ free' := by
  have htake : ∀ {t : AllocatorState} {free : List ℕ}, t.Sound L free → free ≠ [] →
      t.live = s.live → t.owned = s.ownedAfter mem →
      ∃ free', t.allocator.head ∉ s.live ∧
        Sound L ⟨{ t.allocator with head := t.allocator.memory t.allocator.head },
          s.ownedAfter mem, t.allocator.head :: s.live⟩ free' := by
    intro t free ht hfree hlive howned
    cases free with
    | nil => exact absurd rfl hfree
    | cons e free =>
        obtain ⟨hhead, htaken⟩ := ht.take
        rw [hlive, howned] at htaken
        have hnodup := ht.nodup
        rw [hlive, List.cons_append, List.nodup_cons, List.mem_append, not_or] at hnodup
        rw [hhead]
        exact ⟨free, hnodup.1.2, htaken⟩
  rw [FixedBumpAllocator.step] at heq
  cases hrequest : s.allocator.requestsSlab with
  | true =>
      have hnil := h.requestsSlab_iff.mp hrequest
      rw [hrequest, if_pos rfl] at heq
      cases hslab : s.allocator.allocateSlab L mem with
      | error error =>
          rw [hslab] at heq
          cases heq
      | ok allocated =>
          rw [hslab] at heq
          obtain ⟨rfl, rfl⟩ := Prod.mk.inj (Except.ok.inj heq)
          have hsound := (hnil ▸ h).allocateSlab hhost hslab
          have hne : L.elements mem ≠ [] := by
            rw [SlabLayout.elements, Ne, List.map_eq_nil_iff, List.range_eq_nil]
            exact L.slabSize_pos.ne'
          exact htake hsound hne rfl (if_pos hrequest).symm
  | false =>
      rw [hrequest, if_neg Bool.false_ne_true] at heq
      obtain ⟨rfl, rfl⟩ := Prod.mk.inj (Except.ok.inj heq)
      have hne : free ≠ [] := by
        intro hnil
        rw [h.requestsSlab_iff.mpr hnil] at hrequest
        cases hrequest
      have howned : s.owned = s.ownedAfter mem := by
        rw [AllocatorState.ownedAfter, hrequest]
        rfl
      exact htake h hne rfl howned

end AllocatorState.Sound

/-! ### Every sequence of operations -/

/-- Nothing is allocated yet. -/
def AllocatorState.start (memory : ℕ → ℕ) : AllocatorState := ⟨.init memory, [], []⟩

/-- What the user of an allocator relies on. -/
structure AllocatorState.Safe (L : SlabLayout) (s : AllocatorState) : Prop where
  /-- Live elements are inside the slabs that the allocator owns. -/
  inside : ∀ e ∈ s.live, ∃ slab ∈ s.owned,
    slab + L.headerSize ≤ e ∧ e + L.elementSize ≤ slab + L.slabByteSize
  /-- They do not overlap. -/
  apart : s.live.Pairwise fun e e' => Apart e L.elementSize e' L.elementSize
  /-- They do not overlap the header of a slab. -/
  header : ∀ e ∈ s.live, ∀ slab ∈ s.owned, Apart slab L.headerSize e L.elementSize
  /-- A slab is requested only when all elements are live. -/
  requests : s.allocator.requestsSlab = true ↔
    ∀ slab ∈ s.owned, ∀ e ∈ L.elements slab, e ∈ s.live
  /-- An element that is handed out is not live, and is apart from those that are. -/
  step : ∀ mem result a, HostReturns L s.owned mem → s.allocator.step L mem = .ok (result, a) →
    result ∉ s.live ∧ (∀ e ∈ s.live, Apart result L.elementSize e L.elementSize) ∧
      (∃ slab ∈ s.ownedAfter mem,
        slab + L.headerSize ≤ result ∧ result + L.elementSize ≤ slab + L.slabByteSize) ∧
      ∀ slab ∈ s.ownedAfter mem, Apart slab L.headerSize result L.elementSize
  /-- It is only the host that can fail. -/
  fails : ∀ mem error, s.allocator.step L mem = .error error →
    s.allocator.requestsSlab = true ∧ mem = 0
  /-- A reset keeps one slab, and its elements are the free list. -/
  reset : s.allocator.current ≠ 0 → ∀ fuel > s.owned.length, ∃ freed a,
    s.allocator.reset L fuel = some (freed, a) ∧ a.current = s.allocator.current ∧
      (s.owned.filter fun slab => decide (slab ∉ freed)) = [s.allocator.current] ∧
      walkLinks a.memory 0 (L.slabSize + 1) a.head = some (L.elements s.allocator.current) ∧
      (L.elements s.allocator.current).length = L.slabSize

namespace AllocatorState.Sound

open FixedBumpAllocator

variable {L : SlabLayout} {s : AllocatorState} {free : List ℕ}

/-- Nothing is free or live at the start. -/
theorem start (L : SlabLayout) (memory : ℕ → ℕ) : (AllocatorState.start memory).Sound L [] :=
  ⟨rfl, nofun, .nil, nofun, rfl, .nil⟩

/-- **Every operation** keeps the invariant. -/
theorem next (h : s.Sound L free) {s' : AllocatorState} (hstep : AllocatorStep L s s') :
    ∃ free', s'.Sound L free' := by
  cases hstep with
  | step hhost heq =>
      obtain ⟨free', -, hsound⟩ := h.step hhost heq
      exact ⟨free', hsound⟩
  | freeElem hlive => exact ⟨_, h.freeElem hlive⟩
  | reset heq =>
      obtain ⟨-, -, hkept, hsound⟩ := h.reset heq
      rw [hkept]
      exact ⟨_, hsound⟩
  | write hkept => exact ⟨_, h.write hkept⟩

/-- A slab is requested only when all elements are live. -/
theorem requests (h : s.Sound L free) : s.allocator.requestsSlab = true ↔
    ∀ slab ∈ s.owned, ∀ e ∈ L.elements slab, e ∈ s.live := by
  rw [h.requestsSlab_iff]
  constructor
  · rintro rfl slab hslab e he
    exact h.elements.mem_iff.mpr (List.mem_flatMap.mpr ⟨slab, hslab, he⟩)
  · intro hall
    refine List.eq_nil_iff_forall_not_mem.mpr fun e he => ?_
    obtain ⟨slab, hslab, hmem⟩ := h.exists_slab (List.mem_append_left _ he)
    exact (List.nodup_append.mp h.nodup).2.2 e he e (hall slab hslab e hmem) rfl

/-- A step fails only if the host does. -/
theorem fails {mem : ℕ} {error : CompileError} (heq : s.allocator.step L mem = .error error) :
    s.allocator.requestsSlab = true ∧ mem = 0 := by
  rw [FixedBumpAllocator.step] at heq
  cases hrequest : s.allocator.requestsSlab with
  | true =>
      rw [hrequest, if_pos rfl, FixedBumpAllocator.allocateSlab] at heq
      by_cases hmem : mem = 0
      · exact ⟨rfl, hmem⟩
      · rw [if_neg hmem] at heq
        cases heq
  | false =>
      rw [hrequest, if_neg Bool.false_ne_true] at heq
      cases heq

/-- A reset of an allocator with a slab ends. -/
theorem reset_eq (h : s.Sound L free) (hcurrent : s.allocator.current ≠ 0) {fuel : ℕ}
    (hfuel : s.owned.length < fuel) : ∃ freed a, s.allocator.reset L fuel = some (freed, a) := by
  obtain ⟨freed, howned, hleads, hnonzero⟩ := h.freeSlab hcurrent
  have hlength : freed.length < fuel := by
    rw [howned, List.length_cons] at hfuel
    omega
  have hwalk : FixedBumpAllocator.freeSlab s.allocator.memory fuel
      (s.allocator.memory s.allocator.current) = some freed := hleads.walk_eq hnonzero hlength
  rw [FixedBumpAllocator.reset, if_neg hcurrent, hwalk]
  exact ⟨freed, _, rfl⟩

/-- **What the invariant is for.** -/
theorem safe (h : s.Sound L free) : s.Safe L where
  inside e he := by
    obtain ⟨slab, hslab, hmem⟩ := h.exists_slab (List.mem_append_right _ he)
    exact ⟨slab, hslab, L.mem_elements hmem⟩
  apart := (List.pairwise_append.mp h.pairwise).2.1
  header e he slab hslab := h.apart_header hslab (List.mem_append_right _ he)
  requests := h.requests
  step mem result a hhost heq := by
    obtain ⟨free', hnot, hsound⟩ := h.step hhost heq
    have hmem : result ∈ free' ++ result :: s.live :=
      List.mem_append_right _ List.mem_cons_self
    have hlive := (List.pairwise_append.mp hsound.pairwise).2.1
    obtain ⟨slab, hslab, helement⟩ := hsound.exists_slab hmem
    exact ⟨hnot, (List.pairwise_cons.mp hlive).1, ⟨slab, hslab, L.mem_elements helement⟩,
      fun slab hslab => hsound.apart_header hslab hmem⟩
  fails mem error heq := fails heq
  reset hcurrent fuel hfuel := by
    obtain ⟨freed, a, heq⟩ := h.reset_eq hcurrent hfuel
    obtain ⟨-, hkept, howned, hsound⟩ := h.reset heq
    have hlength : (L.elements s.allocator.current).length = L.slabSize := by
      rw [SlabLayout.elements, List.length_map, List.length_range]
    have hnonzero : 0 ∉ L.elements s.allocator.current := fun h0 =>
      hsound.ne_zero (List.mem_append_left _ h0) rfl
    refine ⟨freed, a, heq, hkept, howned, ?_, hlength⟩
    exact hsound.links.walk_eq hnonzero (hlength ▸ Nat.lt_succ_self _)

end AllocatorState.Sound

/-- **Every sequence of operations** leads to a state that is safe. -/
theorem bumpAllocator_run (L : SlabLayout) (memory : ℕ → ℕ) {s : AllocatorState}
    (hrun : Relation.ReflTransGen (AllocatorStep L) (.start memory) s) : s.Safe L := by
  have hsound : ∃ free, s.Sound L free := by
    induction hrun with
    | refl => exact ⟨_, .start L memory⟩
    | tail _ hstep ih =>
        obtain ⟨free, hfree⟩ := ih
        exact hfree.next hstep
  obtain ⟨free, hfree⟩ := hsound
  exact hfree.safe

/-- Two elements of three words in a slab. -/
def smallSlabs : SlabLayout := ⟨8, 24, 2, by decide, by decide, by decide, by decide⟩

/-- The allocator after its first step. -/
def smallFirst : FixedBumpAllocator :=
  ⟨1000, 1040, (FixedBumpAllocator.initSlab smallSlabs ⟨0, 0, Function.update
    (Function.update (fun _ => 0) 1000 0) 1008 1016⟩ 1016).memory⟩

/-- Two elements are allocated, and the first one is given back. -/
theorem safe_smallSlabs :
    AllocatorState.Safe smallSlabs
      ⟨({ smallFirst with head := 0 } : FixedBumpAllocator).freeElem 1016, [1000], [1040]⟩ := by
  have hfirst : (FixedBumpAllocator.init fun _ => 0).step smallSlabs 1000 =
      .ok (1016, smallFirst) := rfl
  have hsecond : smallFirst.step smallSlabs 0 = .ok (1040, { smallFirst with head := 0 }) := rfl
  have h1 : AllocatorStep smallSlabs (.start fun _ => 0) ⟨smallFirst, [1000], [1016]⟩ :=
    .step nofun hfirst
  have h2 : AllocatorStep smallSlabs ⟨smallFirst, [1000], [1016]⟩
      ⟨{ smallFirst with head := 0 }, [1000], [1040, 1016]⟩ := .step nofun hsecond
  have h3 : AllocatorStep smallSlabs ⟨{ smallFirst with head := 0 }, [1000], [1040, 1016]⟩
      ⟨({ smallFirst with head := 0 } : FixedBumpAllocator).freeElem 1016, [1000], [1040]⟩ :=
    .freeElem (by decide)
  have hrun := ((Relation.ReflTransGen.single h1).tail h2).tail h3
  exact bumpAllocator_run smallSlabs (fun _ => 0) hrun

/-- **A reset before anything was allocated** reads a slab at the null pointer. -/
theorem reset_init_eq_none :
    (FixedBumpAllocator.init fun _ => 0).reset smallSlabs = fun _ => none :=
  funext fun _ => rfl

end WasmCompiler
