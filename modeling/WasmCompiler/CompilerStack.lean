import WasmCompiler.BumpAllocator

/-!
# The Stack of the Compiler

The elements that the compiler has not emitted yet are in a circular list of nodes that know both
neighbours, with a sentinel between the last node and the first one. The nodes are elements of the
fixed-size allocator.

## Main results

* `Stack.Represents.insert`, `.erase`, `.split`, `.contactAtEnd`: every operation does to the
  nodes what it does to the sequence.
* `stack_run`: the list is the sequence after every run of operations.
-/

namespace WasmCompiler

/-! ### The code -/

/-- A part that was split off, from its first node to its last one. -/
structure SubChain where
  begin_ : ℕ
  end_ : ℕ
  size : UInt32

/-- The loop of the constructor of `SubChain`. -/
def SubChain.count (next : ℕ → ℕ) (end_ : ℕ) : ℕ → ℕ → UInt32 → Option UInt32
  | 0, _, _ => none
  | fuel + 1, it, size => if it = end_ then some size else count next end_ fuel (next it) (size + 1)

/-- The constructor of `SubChain`, if its loop ends. -/
def SubChain.construct (next : ℕ → ℕ) (fuel begin_ end_ : ℕ) : Option SubChain :=
  (SubChain.count next end_ fuel begin_ 1).map fun size => ⟨begin_, end_, size⟩

/-- `Stack`, with the fields of the nodes by their addresses. -/
structure Stack (α : Type) where
  allocator : FixedBumpAllocator
  value : ℕ → α
  prev : ℕ → ℕ
  next : ℕ → ℕ
  sentinel : ℕ
  size : UInt32

namespace Stack

variable {α : Type} (L : SlabLayout)

/-- `init`: allocate the sentinel. -/
def init (s : Stack α) (mem : ℕ) : Except CompileError (Stack α) := do
  let (sentinel, allocator) ← s.allocator.step L mem
  pure { s with
    allocator
    sentinel
    prev := Function.update s.prev sentinel sentinel
    next := Function.update s.next sentinel sentinel
    size := 0 }

/-- `begin`. -/
def begin_ (s : Stack α) : ℕ := s.next s.sentinel

/-- `end`. -/
def end_ (s : Stack α) : ℕ := s.sentinel

/-- `last`. -/
def last (s : Stack α) : ℕ := s.prev s.end_

/-- `empty`. -/
def empty (s : Stack α) : Bool := s.begin_ == s.end_

/-- `insert`: a new node before a position. -/
def insert (s : Stack α) (mem position : ℕ) (element : α) :
    Except CompileError (ℕ × Stack α) := do
  let (newNode, allocator) ← s.allocator.step L mem
  let value := Function.update s.value newNode element
  let prev := Function.update s.prev newNode (s.prev position)
  let next := Function.update s.next newNode position
  let next := Function.update next (prev position) newNode
  let prev := Function.update prev position newNode
  pure (newNode, { s with allocator, value, prev, next, size := s.size + 1 })

/-- `push`. -/
def push (s : Stack α) (mem : ℕ) (element : α) : Except CompileError (ℕ × Stack α) :=
  s.insert L mem s.end_ element

/-- `erase`, with the node behind the one that is erased. -/
def erase (s : Stack α) (position : ℕ) : ℕ × Stack α :=
  let next := Function.update s.next (s.prev position) (s.next position)
  let prev := Function.update s.prev (next position) (s.prev position)
  (next position,
    { s with prev, next, size := s.size - 1, allocator := s.allocator.freeElem position })

/-- `pop`. -/
def pop (s : Stack α) : Stack α := (s.erase (s.prev s.sentinel)).2

/-- `split`: what is behind a position. -/
def split (s : Stack α) (fuel position : ℕ) : Option (SubChain × Stack α) := do
  let subChain ← SubChain.construct s.next fuel (s.next position) s.last
  let next := Function.update s.next position s.sentinel
  let prev := Function.update s.prev subChain.begin_ 0
  let prev := Function.update prev s.sentinel position
  pure (subChain, { s with prev, next, size := s.size - subChain.size })

/-- `contactAtEnd`: what was split off becomes the end. -/
def contactAtEnd (s : Stack α) (chain : SubChain) : Stack α :=
  let originalLast := s.prev s.sentinel
  let next := Function.update s.next originalLast chain.begin_
  let prev := Function.update s.prev chain.begin_ originalLast
  let prev := Function.update prev s.sentinel chain.end_
  let next := Function.update next chain.end_ s.sentinel
  { s with prev, next, size := s.size + chain.size }

end Stack

/-! ### Sequences -/

/-- The elements of a stack with their iterators, and the parts that were split off. -/
structure Sequence (α : Type) where
  items : List (ℕ × α)
  chains : List (SubChain × List (ℕ × α))

namespace Sequence

variable {α : Type}

/-- The iterator for the start of a list. -/
def positionOf (end_ : ℕ) (items : List (ℕ × α)) : ℕ := (items.map Prod.fst).headD end_

/-- The iterator for the last element of a list. -/
def lastOf (end_ : ℕ) (items : List (ℕ × α)) : ℕ := (items.map Prod.fst).getLast?.getD end_

/-- The nodes of the elements. -/
def nodes (q : Sequence α) : List ℕ := q.items.map Prod.fst

/-- The nodes of all parts that were split off. -/
def detached (q : Sequence α) : List ℕ := q.chains.flatMap fun c => c.2.map Prod.fst

end Sequence

/-- A run of operations of a stack, with the slabs of the host and the sequence that the stack
stands for. An element is inserted before another one or at the end, and a part that is split off
is not empty. -/
inductive StackRun {α : Type} (L : SlabLayout) : Stack α → List ℕ → Sequence α → Prop where
  | construct {memory prev next : ℕ → ℕ} {value : ℕ → α} {mem : ℕ} {s : Stack α}
      (result : (⟨.init memory, value, prev, next, 0, 0⟩ : Stack α).init L mem = .ok s) :
      StackRun L s [mem] ⟨[], []⟩
  | insert {s s' : Stack α} {owned : List ℕ} {a b : List (ℕ × α)}
      {chains : List (SubChain × List (ℕ × α))} {mem newNode : ℕ} {element : α}
      (run : StackRun L s owned ⟨a ++ b, chains⟩) (host : HostReturns L owned mem)
      (result : s.insert L mem (Sequence.positionOf s.end_ b) element = .ok (newNode, s')) :
      StackRun L s' (if s.allocator.requestsSlab then mem :: owned else owned)
        ⟨a ++ (newNode, element) :: b, chains⟩
  | push {s s' : Stack α} {owned : List ℕ} {q : Sequence α} {mem newNode : ℕ} {element : α}
      (run : StackRun L s owned q) (host : HostReturns L owned mem)
      (result : s.push L mem element = .ok (newNode, s')) :
      StackRun L s' (if s.allocator.requestsSlab then mem :: owned else owned)
        ⟨q.items ++ [(newNode, element)], q.chains⟩
  | erase {s : Stack α} {owned : List ℕ} {a b : List (ℕ × α)} {item : ℕ × α}
      {chains : List (SubChain × List (ℕ × α))}
      (run : StackRun L s owned ⟨a ++ item :: b, chains⟩) :
      StackRun L (s.erase item.1).2 owned ⟨a ++ b, chains⟩
  | pop {s : Stack α} {owned : List ℕ} {a : List (ℕ × α)} {item : ℕ × α}
      {chains : List (SubChain × List (ℕ × α))}
      (run : StackRun L s owned ⟨a ++ [item], chains⟩) : StackRun L s.pop owned ⟨a, chains⟩
  | split {s s' : Stack α} {owned : List ℕ} {a b : List (ℕ × α)}
      {chains : List (SubChain × List (ℕ × α))} {fuel : ℕ} {chain : SubChain}
      (run : StackRun L s owned ⟨a ++ b, chains⟩) (nonempty : b ≠ [])
      (result : s.split fuel (Sequence.lastOf s.end_ a) = some (chain, s')) :
      StackRun L s' owned ⟨a, (chain, b) :: chains⟩
  | contactAtEnd {s : Stack α} {owned : List ℕ} {a b : List (ℕ × α)} {chain : SubChain}
      {chains chains' : List (SubChain × List (ℕ × α))}
      (run : StackRun L s owned ⟨a, chains ++ (chain, b) :: chains'⟩) :
      StackRun L (s.contactAtEnd chain) owned ⟨a ++ b, chains ++ chains'⟩

/-! ### What a stack stands for -/

/-- A part that was split off is linked, and its record is right. -/
structure SubChain.Represents {α : Type} (next prev : ℕ → ℕ) (chain : SubChain)
    (items : List (ℕ × α)) : Prop where
  nonempty : items ≠ []
  linked : Linked next prev (items.map Prod.fst)
  begin_ : ∀ end_, chain.begin_ = Sequence.positionOf end_ items
  end_ : ∀ end_, chain.end_ = Sequence.lastOf end_ items
  size : chain.size = UInt32.ofNat items.length

/-- Links of other nodes do not matter. -/
theorem SubChain.Represents.congr {α : Type} {next prev next' prev' : ℕ → ℕ} {chain : SubChain}
    {items : List (ℕ × α)} (h : chain.Represents next prev items)
    (hnext : ∀ n ∈ items.map Prod.fst, next' n = next n)
    (hprev : ∀ n ∈ items.map Prod.fst, prev' n = prev n) :
    chain.Represents next' prev' items where
  nonempty := h.nonempty
  linked := h.linked.congr (fun n hn => hnext n (List.dropLast_subset _ hn))
    fun n hn => hprev n (List.mem_of_mem_tail hn)
  begin_ := h.begin_
  end_ := h.end_
  size := h.size

/-- The nodes are the live elements of the allocator, those of the sequence are in a circle with
the sentinel, and they hold the elements. -/
structure Stack.Represents {α : Type} (L : SlabLayout) (s : Stack α) (owned : List ℕ)
    (q : Sequence α) : Prop where
  sound : ∃ free live, AllocatorState.Sound L ⟨s.allocator, owned, live⟩ free ∧
    live.Perm (s.sentinel :: (q.nodes ++ q.detached))
  linked : Linked s.next s.prev (s.sentinel :: (q.nodes ++ [s.sentinel]))
  chains : ∀ c ∈ q.chains, c.1.Represents s.next s.prev c.2
  values : ∀ item ∈ q.items ++ q.chains.flatMap Prod.snd, s.value item.1 = item.2
  size : s.size = UInt32.ofNat q.items.length

namespace Stack.Represents

variable {α : Type} {L : SlabLayout} {s s' : Stack α} {owned : List ℕ} {q : Sequence α}
  {a b : List (ℕ × α)} {chains : List (SubChain × List (ℕ × α))}

/-- The nodes are different. -/
theorem nodup (h : s.Represents L owned q) :
    (s.sentinel :: (q.nodes ++ q.detached)).Nodup := by
  obtain ⟨free, live, hsound, hperm⟩ := h.sound
  exact hperm.nodup_iff.mp (List.nodup_append.mp hsound.nodup).2.1

/-- Nodes of the circle are not in parts that were split off. -/
theorem nodup_circle (h : s.Represents L owned q) :
    (s.sentinel :: q.nodes).Nodup ∧ ∀ n ∈ s.sentinel :: q.nodes, n ∉ q.detached := by
  have hnodup := h.nodup
  rw [← List.cons_append, List.nodup_append] at hnodup
  exact ⟨hnodup.1, fun n hn hdetached => hnodup.2.2 n hn n hdetached rfl⟩

/-- Links that other nodes have do not matter for parts that were split off. -/
theorem chains_congr (h : s.Represents L owned q) {next prev : ℕ → ℕ}
    (hnext : ∀ n ∈ q.detached, next n = s.next n) (hprev : ∀ n ∈ q.detached, prev n = s.prev n) :
    ∀ c ∈ q.chains, c.1.Represents next prev c.2 := by
  intro c hc
  have hmem : ∀ n ∈ c.2.map Prod.fst, n ∈ q.detached :=
    fun n hn => List.mem_flatMap.mpr ⟨c, hc, hn⟩
  exact (h.chains c hc).congr (fun n hn => hnext n (hmem n hn)) fun n hn => hprev n (hmem n hn)

/-- **Traversing the list** forward. -/
theorem forward (h : s.Represents L owned q) {fuel : ℕ} (hfuel : q.items.length < fuel) :
    walkLinks s.next s.end_ fuel s.begin_ = some q.nodes := by
  have hnodup := (List.nodup_cons.mp h.nodup_circle.1).1
  refine h.linked.leads.walk_eq hnodup ?_
  rw [Sequence.nodes, List.length_map]
  exact hfuel

/-- **Traversing the list** backward. -/
theorem backward (h : s.Represents L owned q) {fuel : ℕ} (hfuel : q.items.length < fuel) :
    walkLinks s.prev s.end_ fuel s.last = some q.nodes.reverse := by
  have hnodup := (List.nodup_cons.mp h.nodup_circle.1).1
  have hreverse := h.linked.reverse
  rw [List.reverse_cons, List.reverse_append, List.reverse_singleton, List.append_assoc,
    List.singleton_append] at hreverse
  refine hreverse.leads.walk_eq (fun hmem => hnodup (List.mem_reverse.mp hmem)) ?_
  rw [List.length_reverse, Sequence.nodes, List.length_map]
  exact hfuel

/-- The circle, cut into two parts. -/
theorem cut (h : s.Represents L owned ⟨a ++ b, chains⟩) :
    Linked s.next s.prev
        (s.sentinel :: (a.map Prod.fst ++ (b.map Prod.fst ++ [s.sentinel]))) ∧
      (s.sentinel :: (a.map Prod.fst ++ b.map Prod.fst)).Nodup := by
  have hcircle := h.linked
  obtain ⟨hnodup, -⟩ := h.nodup_circle
  rw [Sequence.nodes] at hcircle hnodup
  dsimp only at hcircle hnodup
  rw [List.map_append, List.append_assoc] at hcircle
  rw [List.map_append] at hnodup
  exact ⟨hcircle, hnodup⟩

/-- The nodes at a cut are nodes of the circle. -/
theorem cut_mem (s : Stack α) (a b : List (ℕ × α)) (chains : List (SubChain × List (ℕ × α))) :
    Sequence.positionOf s.end_ b ∈ s.sentinel :: (Sequence.mk (a ++ b) chains).nodes ∧
      Sequence.lastOf s.end_ a ∈ s.sentinel :: (Sequence.mk (a ++ b) chains).nodes := by
  rw [Sequence.nodes, List.map_append]
  constructor
  · rcases headD_mem_or s.sentinel (b.map Prod.fst) with hmem | heq
    · exact List.mem_cons_of_mem _ (List.mem_append_right _ hmem)
    · exact List.mem_cons.mpr (.inl heq)
  · rcases getLastD_mem_or s.sentinel (a.map Prod.fst) with hmem | heq
    · exact List.mem_cons_of_mem _ (List.mem_append_left _ hmem)
    · exact List.mem_cons.mpr (.inl heq)

/-- Nodes that were split off are not at a cut. -/
theorem ne_cut (h : s.Represents L owned ⟨a ++ b, chains⟩) :
    ∀ n ∈ (Sequence.mk (a ++ b) chains).detached,
      n ≠ Sequence.positionOf s.end_ b ∧ n ≠ Sequence.lastOf s.end_ a ∧ n ≠ s.sentinel := by
  intro n hn
  obtain ⟨-, hdetached⟩ := h.nodup_circle
  obtain ⟨hposition, hlast⟩ := cut_mem s a b chains
  refine ⟨?_, ?_, ?_⟩
  · rintro rfl
    exact hdetached _ hposition hn
  · rintro rfl
    exact hdetached _ hlast hn
  · rintro rfl
    exact hdetached _ List.mem_cons_self hn

/-- **A new element** before an iterator. -/
theorem insert (h : s.Represents L owned ⟨a ++ b, chains⟩) {mem newNode : ℕ} {element : α}
    (hhost : HostReturns L owned mem)
    (heq : s.insert L mem (Sequence.positionOf s.end_ b) element = .ok (newNode, s')) :
    newNode ∉ s.sentinel :: ((Sequence.mk (a ++ b) chains).nodes ++
        (Sequence.mk (a ++ b) chains).detached) ∧
      s'.sentinel = s.sentinel ∧
      s'.Represents L (if s.allocator.requestsSlab then mem :: owned else owned)
        ⟨a ++ (newNode, element) :: b, chains⟩ := by
  rw [Stack.insert] at heq
  cases hstep : s.allocator.step L mem with
  | error error =>
      rw [hstep] at heq
      cases heq
  | ok result =>
      obtain ⟨node, allocator⟩ := result
      rw [hstep] at heq
      obtain ⟨rfl, rfl⟩ := Prod.mk.inj (Except.ok.inj heq)
      obtain ⟨free, live, hsound, hperm⟩ := h.sound
      obtain ⟨free', hnew, hsound'⟩ := hsound.step hhost hstep
      rw [hperm.mem_iff] at hnew
      obtain ⟨hcircle, hnodup⟩ := h.cut
      have hnotCircle : node ∉ s.sentinel :: (Sequence.mk (a ++ b) chains).nodes := by
        rw [← List.cons_append] at hnew
        exact fun hmem => hnew (List.mem_append_left _ hmem)
      have hnotMem := hnotCircle
      rw [Sequence.nodes, List.map_append] at hnotMem
      have hlinked := hcircle.insert hnodup hnotMem
      have hprev : s.prev (Sequence.positionOf s.end_ b) = Sequence.lastOf s.end_ a :=
        (linked_circle_iff.mp hcircle).2.2.2
      have hpos : Sequence.positionOf s.end_ b ≠ node :=
        fun heq => hnotCircle (heq ▸ (cut_mem s a b chains).1)
      have hprevPos : Function.update s.prev node (Sequence.lastOf s.end_ a)
          (Sequence.positionOf s.end_ b) = Sequence.lastOf s.end_ a := by
        rw [Function.update_of_ne hpos, hprev]
      have hnode : ∀ n ∈ (Sequence.mk (a ++ b) chains).detached, n ≠ node := by
        rintro n hn rfl
        exact hnew (List.mem_cons_of_mem _ (List.mem_append_right _ hn))
      refine ⟨hnew, rfl, ?_⟩
      simp only [hprev, hprevPos]
      refine ⟨⟨free', _, hsound', ?_⟩, ?_, ?_, ?_, ?_⟩
      · refine (List.Perm.cons node hperm).trans ?_
        simp only [Sequence.nodes, List.map_append, List.map_cons, List.append_assoc,
          List.cons_append]
        exact (List.Perm.swap _ _ _).trans (List.perm_middle.symm.cons _)
      · simp only [Sequence.nodes, List.map_append, List.map_cons, List.append_assoc]
        exact hlinked
      · refine h.chains_congr (fun n hn => ?_) fun n hn => ?_
        · obtain ⟨-, hlast, -⟩ := h.ne_cut n hn
          exact (Function.update_of_ne hlast _ _).trans (Function.update_of_ne (hnode n hn) _ _)
        · obtain ⟨hposition, -⟩ := h.ne_cut n hn
          exact (Function.update_of_ne hposition _ _).trans
            (Function.update_of_ne (hnode n hn) _ _)
      · intro item hitem
        have hold : item ∈ a ++ b ++ chains.flatMap Prod.snd →
            Function.update s.value node element item.1 = item.2 := by
          intro hmem
          have hne : item.1 ≠ node := by
            rintro rfl
            refine hnew (List.mem_cons_of_mem _ ?_)
            rw [Sequence.nodes, Sequence.detached, ← List.map_flatMap, ← List.map_append]
            exact List.mem_map_of_mem hmem
          rw [Function.update_of_ne hne]
          exact h.values item hmem
        simp only [List.append_assoc, List.cons_append, List.mem_append, List.mem_cons]
          at hitem hold
        rcases hitem with hmem | rfl | hmem
        · exact hold (.inl hmem)
        · exact Function.update_self _ _ _
        · exact hold (.inr hmem)
      · rw [h.size]
        dsimp only
        rw [List.length_append, List.length_append, List.length_cons, ← Nat.add_assoc]
        exact (UInt32.ofNat_add _ 1).symm

/-- **An element erased**, with the iterator behind it. -/
theorem erase {item : ℕ × α} (h : s.Represents L owned ⟨a ++ item :: b, chains⟩) :
    (s.erase item.1).1 = Sequence.positionOf s.end_ b ∧ (s.erase item.1).2.sentinel = s.sentinel ∧
      (s.erase item.1).2.Represents L owned ⟨a ++ b, chains⟩ := by
  obtain ⟨hcircle, hnodup⟩ := h.cut
  obtain ⟨free, live, hsound, hperm⟩ := h.sound
  rw [List.map_cons] at hcircle hnodup
  have hmiddle : (s.sentinel :: (a.map Prod.fst ++ item.1 :: b.map Prod.fst)).Perm
      (item.1 :: s.sentinel :: (a.map Prod.fst ++ b.map Prod.fst)) :=
    (List.perm_middle.cons _).trans (List.Perm.swap _ _ _)
  obtain ⟨hitem, hrest⟩ := List.nodup_cons.mp (hmiddle.nodup_iff.mp hnodup)
  obtain ⟨⟨hnext, hprev⟩, hlinked⟩ := hcircle.erase hrest
  have hlast : Sequence.lastOf s.end_ a ≠ item.1 := by
    intro heq
    refine hitem ?_
    rw [← heq]
    rcases getLastD_mem_or s.sentinel (a.map Prod.fst) with hmem | hs
    · exact List.mem_cons_of_mem _ (List.mem_append_left _ hmem)
    · exact List.mem_cons.mpr (.inl hs)
  have herase : s.erase item.1 = (Sequence.positionOf s.end_ b,
      { s with
        next := Function.update s.next (Sequence.lastOf s.end_ a) (Sequence.positionOf s.end_ b)
        prev := Function.update s.prev (Sequence.positionOf s.end_ b) (Sequence.lastOf s.end_ a)
        size := s.size - 1
        allocator := s.allocator.freeElem item.1 }) := by
    have hprev' : s.prev item.1 = Sequence.lastOf s.end_ a := hprev
    have hnext' : s.next item.1 = Sequence.positionOf s.end_ b := hnext
    simp only [Stack.erase, hprev', hnext', Function.update_of_ne hlast.symm]
  rw [herase]
  have hlive : item.1 ∈ live := by
    rw [hperm.mem_iff]
    refine List.mem_cons_of_mem _ (List.mem_append_left _ ?_)
    exact List.mem_map_of_mem (List.mem_append_right _ List.mem_cons_self)
  have hne : ∀ n ∈ (Sequence.mk (a ++ item :: b) chains).detached,
      n ≠ Sequence.lastOf s.end_ a ∧ n ≠ Sequence.positionOf s.end_ b := by
    intro n hn
    obtain ⟨-, hlastNe, -⟩ := h.ne_cut n hn
    refine ⟨hlastNe, ?_⟩
    rintro rfl
    refine h.nodup_circle.2 _ ?_ hn
    rw [Sequence.nodes, List.map_append, List.map_cons]
    rcases headD_mem_or s.sentinel (b.map Prod.fst) with hmem | hs
    · exact List.mem_cons_of_mem _ (List.mem_append_right _ (List.mem_cons_of_mem _ hmem))
    · exact List.mem_cons.mpr (.inl hs)
  refine ⟨rfl, rfl, ⟨_, live.erase item.1, hsound.freeElem hlive, ?_⟩, ?_, ?_, ?_, ?_⟩
  · have hall : live.Perm (item.1 :: s.sentinel :: ((Sequence.mk (a ++ b) chains).nodes ++
        (Sequence.mk (a ++ b) chains).detached)) := by
      refine hperm.trans ?_
      simp only [Sequence.nodes, List.map_append, List.map_cons, List.append_assoc,
        List.cons_append]
      exact (List.perm_middle.cons _).trans (List.Perm.swap _ _ _)
    have herased := hall.erase item.1
    rw [List.erase_cons_head] at herased
    exact herased
  · simp only [Sequence.nodes, List.map_append, List.append_assoc]
    exact hlinked
  · refine h.chains_congr (fun n hn => ?_) fun n hn => ?_
    · exact Function.update_of_ne (hne n hn).1 _ _
    · exact Function.update_of_ne (hne n hn).2 _ _
  · intro other hother
    refine h.values other ?_
    rcases List.mem_append.mp hother with hmem | hmem
    · refine List.mem_append_left _ ?_
      rcases List.mem_append.mp hmem with hmem | hmem
      · exact List.mem_append_left _ hmem
      · exact List.mem_append_right _ (List.mem_cons_of_mem _ hmem)
    · exact List.mem_append_right _ hmem
  · have hsize : s.size = UInt32.ofNat (a ++ b).length + 1 := by
      rw [h.size]
      dsimp only
      rw [List.length_append, List.length_append, List.length_cons, ← Nat.add_assoc]
      exact UInt32.ofNat_add _ 1
    change s.size - 1 = _
    rw [hsize, UInt32.add_sub_cancel]

end Stack.Represents

/-! ### Parts that are split off -/

/-- The loop counts the links to the last node. -/
theorem SubChain.count_eq {next prev : ℕ → ℕ} {e : ℕ} {l : List ℕ}
    (h : Linked next prev (l ++ [e])) (hnodup : (l ++ [e]).Nodup) (fuel : ℕ) (size : UInt32) :
    SubChain.count next e fuel (l.headD e) size =
      if l.length < fuel then some (size + UInt32.ofNat l.length) else none := by
  induction l generalizing fuel size with
  | nil =>
      cases fuel with
      | zero => rfl
      | succ fuel =>
          rw [List.headD_nil, List.length_nil, if_pos (Nat.succ_pos fuel), count, if_pos rfl]
          exact congrArg some (UInt32.add_zero size).symm
  | cons x l ih =>
      rw [List.cons_append] at h hnodup
      obtain ⟨hx, hl⟩ := List.isChain_cons.mp h
      obtain ⟨hnot, hnodup'⟩ := List.nodup_cons.mp hnodup
      have hnext : next x = l.headD e := by
        cases l with
        | nil => exact (hx e rfl).1
        | cons y l => exact (hx y rfl).1
      cases fuel with
      | zero => rfl
      | succ fuel =>
          have hne : x ≠ e := by
            rintro rfl
            exact hnot (List.mem_append_right _ (List.mem_singleton_self x))
          rw [List.headD_cons, count, if_neg hne, hnext, ih hl hnodup', List.length_cons]
          refine if_congr ⟨Nat.succ_lt_succ, Nat.lt_of_succ_lt_succ⟩ (congrArg some ?_) rfl
          rw [UInt32.ofNat_add, UInt32.add_assoc, UInt32.add_comm 1]
          rfl

namespace Stack.Represents

variable {α : Type} {L : SlabLayout} {s s' : Stack α} {owned : List ℕ} {q : Sequence α}
  {a b : List (ℕ × α)} {chains chains' : List (SubChain × List (ℕ × α))}

/-- The part behind a position, as it is split off. -/
def part (s : Stack α) (b : List (ℕ × α)) : SubChain :=
  ⟨Sequence.positionOf s.end_ b, Sequence.lastOf s.end_ b, UInt32.ofNat b.length⟩

/-- The first iterator of a list that is not empty. -/
theorem positionOf_concat (end_ : ℕ) (b : List (ℕ × α)) (e : ℕ × α) :
    Sequence.positionOf end_ (b ++ [e]) = (b.map Prod.fst).headD e.1 := by
  cases b <;> rfl

/-- The last one. -/
theorem lastOf_concat (end_ : ℕ) (b : List (ℕ × α)) (e : ℕ × α) :
    Sequence.lastOf end_ (b ++ [e]) = e.1 := by
  rw [Sequence.lastOf, List.map_append, List.map_singleton, List.getLast?_concat,
    Option.getD_some]

/-- The last node of the circle. -/
theorem last_eq (h : s.Represents L owned q) : s.last = Sequence.lastOf s.end_ q.items := by
  have hcircle := h.linked
  exact (linked_circle_iff (b := []).mp hcircle).2.2.2

/-- The constructor of `SubChain` counts the elements. -/
theorem construct (h : s.Represents L owned ⟨a ++ b, chains⟩) (hne : b ≠ []) (fuel : ℕ) :
    SubChain.construct s.next fuel (s.next (Sequence.lastOf s.end_ a)) s.last =
      if b.length ≤ fuel then some (part s b) else none := by
  obtain ⟨hcircle, hnodup⟩ := h.cut
  obtain ⟨-, hb, hnext, -⟩ := linked_circle_iff.mp hcircle
  have hbegin : s.next (Sequence.lastOf s.end_ a) = Sequence.positionOf s.end_ b := hnext
  have hend := h.last_eq
  obtain ⟨b', e, rfl⟩ := (List.eq_nil_or_concat' b).resolve_left hne
  rw [← List.append_assoc, lastOf_concat] at hend
  rw [List.map_append, List.map_singleton] at hb hnodup
  have hinner : Linked s.next s.prev (b'.map Prod.fst ++ [e.1]) := List.IsChain.left_of_append hb
  have hinnerNodup : (b'.map Prod.fst ++ [e.1]).Nodup :=
    (List.nodup_append.mp (List.nodup_cons.mp hnodup).2).2.1
  rw [SubChain.construct, hbegin, hend, positionOf_concat,
    SubChain.count_eq hinner hinnerNodup fuel 1, List.length_map, List.length_append,
    List.length_singleton, part, positionOf_concat, lastOf_concat]
  by_cases hfuel : b'.length < fuel
  · rw [if_pos hfuel, if_pos (Nat.succ_le_of_lt hfuel), Option.map_some, List.length_append,
      List.length_singleton, UInt32.ofNat_add, UInt32.add_comm]
    rfl
  · rw [if_neg hfuel, if_neg fun hle => hfuel (Nat.lt_of_succ_le hle), Option.map_none]

/-- **Splitting** ends, with the part behind the position. -/
theorem split_eq (h : s.Represents L owned ⟨a ++ b, chains⟩) (hne : b ≠ []) {fuel : ℕ}
    (hfuel : b.length ≤ fuel) :
    ∃ s', s.split fuel (Sequence.lastOf s.end_ a) = some (part s b, s') := by
  rw [Stack.split, h.construct hne, if_pos hfuel]
  exact ⟨_, rfl⟩

/-- **A part split off** behind an iterator. -/
theorem split (h : s.Represents L owned ⟨a ++ b, chains⟩) (hne : b ≠ []) {fuel : ℕ}
    {chain : SubChain} (heq : s.split fuel (Sequence.lastOf s.end_ a) = some (chain, s')) :
    s'.sentinel = s.sentinel ∧ s'.Represents L owned ⟨a, (chain, b) :: chains⟩ := by
  rw [Stack.split, h.construct hne] at heq
  split at heq
  · obtain ⟨rfl, rfl⟩ := Prod.mk.inj (Option.some.inj heq)
    obtain ⟨hcircle, hnodup⟩ := h.cut
    have hnil : b.map Prod.fst ≠ [] := fun hnil => hne (List.map_eq_nil_iff.mp hnil)
    obtain ⟨hlinked, hpart⟩ := hcircle.detach hnodup hnil 0
    obtain ⟨free, live, hsound, hperm⟩ := h.sound
    have hdetached : (Sequence.mk a ((part s b, b) :: chains)).detached =
        b.map Prod.fst ++ (Sequence.mk (a ++ b) chains).detached := List.flatMap_cons
    refine ⟨rfl, ⟨free, live, hsound, ?_⟩, hlinked, ?_, ?_, ?_⟩
    · rw [hdetached, ← List.append_assoc, Sequence.nodes, ← List.map_append]
      exact hperm
    · intro c hc
      rcases List.mem_cons.mp hc with rfl | hc
      · obtain ⟨b', e, rfl⟩ := (List.eq_nil_or_concat' b).resolve_left hne
        refine ⟨hne, hpart, fun end_ => ?_, fun end_ => ?_, rfl⟩
        · rw [part, positionOf_concat, positionOf_concat]
        · rw [part, lastOf_concat, lastOf_concat]
      · refine h.chains_congr (fun n hn => ?_) (fun n hn => ?_) c hc
        · obtain ⟨-, hlast, -⟩ := h.ne_cut n hn
          exact Function.update_of_ne hlast _ _
        · obtain ⟨hposition, -, hsentinel⟩ := h.ne_cut n hn
          exact (Function.update_of_ne hsentinel _ _).trans
            (Function.update_of_ne hposition _ _)
    · intro item hitem
      refine h.values item ?_
      rw [List.flatMap_cons, ← List.append_assoc] at hitem
      exact hitem
    · have hsize : s.size = UInt32.ofNat a.length + UInt32.ofNat b.length := by
        rw [h.size, ← UInt32.ofNat_add, ← List.length_append]
      change s.size - UInt32.ofNat b.length = _
      rw [hsize, UInt32.add_sub_cancel]
  · cases heq

/-- **A part put back** to the end. -/
theorem contactAtEnd {chain : SubChain}
    (h : s.Represents L owned ⟨a, chains ++ (chain, b) :: chains'⟩) :
    (s.contactAtEnd chain).Represents L owned ⟨a ++ b, chains ++ chains'⟩ := by
  obtain ⟨hne, hpart, hbegin, hend, hsize⟩ :=
    h.chains (chain, b) (List.mem_append_right _ List.mem_cons_self)
  have hperm : (s.sentinel :: ((Sequence.mk a (chains ++ (chain, b) :: chains')).nodes ++
      (Sequence.mk a (chains ++ (chain, b) :: chains')).detached)).Perm
      (s.sentinel :: ((Sequence.mk (a ++ b) (chains ++ chains')).nodes ++
        (Sequence.mk (a ++ b) (chains ++ chains')).detached)) := by
    simp only [Sequence.nodes, Sequence.detached, List.flatMap_append, List.flatMap_cons,
      List.map_append, List.append_assoc]
    refine List.Perm.cons _ (List.Perm.append_left _ ?_)
    rw [← List.append_assoc, ← List.append_assoc]
    exact List.perm_append_comm.append_right _
  have hnodup := hperm.nodup_iff.mp h.nodup
  rw [← List.cons_append, List.nodup_append] at hnodup
  obtain ⟨hcircleNodup, -, hdisjoint⟩ := hnodup
  rw [Sequence.nodes, List.map_append] at hcircleNodup hdisjoint
  have hnil : b.map Prod.fst ≠ [] := fun hnil => hne (List.map_eq_nil_iff.mp hnil)
  have hlinked := h.linked.attach hpart hcircleNodup hnil
  have hlast : s.prev s.sentinel = Sequence.lastOf s.sentinel a := h.last_eq
  have hother : ∀ n ∈ (Sequence.mk (a ++ b) (chains ++ chains')).detached,
      n ≠ s.sentinel ∧ n ≠ Sequence.lastOf s.sentinel a ∧
        n ≠ Sequence.positionOf s.sentinel b ∧ n ≠ Sequence.lastOf s.sentinel b := by
    intro n hn
    have hnot : n ∉ s.sentinel :: (a.map Prod.fst ++ b.map Prod.fst) :=
      fun hmem => hdisjoint n hmem n hn rfl
    rw [List.mem_cons, List.mem_append, not_or, not_or] at hnot
    obtain ⟨hns, hna, hnb⟩ := hnot
    refine ⟨hns, ?_, ?_, ?_⟩
    · rintro rfl
      exact (getLastD_mem_or s.sentinel (a.map Prod.fst)).elim hna hns
    · rintro rfl
      exact (headD_mem_or s.sentinel (b.map Prod.fst)).elim hnb hns
    · rintro rfl
      exact (getLastD_mem_or s.sentinel (b.map Prod.fst)).elim hnb hns
  obtain ⟨free, live, hsound, hlive⟩ := h.sound
  have hbegin' : chain.begin_ = Sequence.positionOf s.sentinel b := hbegin s.sentinel
  have hend' : chain.end_ = Sequence.lastOf s.sentinel b := hend s.sentinel
  simp only [Stack.contactAtEnd, hlast, hbegin', hend']
  refine ⟨⟨free, live, hsound, hlive.trans hperm⟩, ?_, ?_, ?_, ?_⟩
  · simp only [Sequence.nodes, List.map_append, List.append_assoc]
    exact hlinked
  · intro c hc
    have hmem : ∀ n ∈ c.2.map Prod.fst,
        n ∈ (Sequence.mk (a ++ b) (chains ++ chains')).detached :=
      fun n hn => List.mem_flatMap.mpr ⟨c, hc, hn⟩
    have hold : c ∈ chains ++ (chain, b) :: chains' := by
      rcases List.mem_append.mp hc with hc | hc
      · exact List.mem_append_left _ hc
      · exact List.mem_append_right _ (List.mem_cons_of_mem _ hc)
    refine (h.chains c hold).congr (fun n hn => ?_) fun n hn => ?_
    · obtain ⟨-, hna, -, hnb⟩ := hother n (hmem n hn)
      exact (Function.update_of_ne hnb _ _).trans (Function.update_of_ne hna _ _)
    · obtain ⟨hns, -, hnb, -⟩ := hother n (hmem n hn)
      exact (Function.update_of_ne hns _ _).trans (Function.update_of_ne hnb _ _)
  · intro item hitem
    refine h.values item ?_
    simp only [List.flatMap_append, List.flatMap_cons, List.mem_append] at hitem ⊢
    tauto
  · change s.size + chain.size = _
    rw [h.size, hsize, ← UInt32.ofNat_add, ← List.length_append]

end Stack.Represents

/-! ### Runs -/

namespace Stack.Represents

variable {α : Type} {L : SlabLayout} {s s' : Stack α} {owned : List ℕ} {q : Sequence α}
  {a b : List (ℕ × α)} {chains : List (SubChain × List (ℕ × α))}

/-- A stack without elements. -/
theorem init {memory prev next : ℕ → ℕ} {value : ℕ → α} {mem : ℕ}
    (heq : (⟨.init memory, value, prev, next, 0, 0⟩ : Stack α).init L mem = .ok s) :
    s.Represents L [mem] ⟨[], []⟩ := by
  rw [Stack.init] at heq
  cases hstep : (FixedBumpAllocator.init memory).step L mem with
  | error error =>
      rw [hstep] at heq
      cases heq
  | ok result =>
      obtain ⟨sentinel, allocator⟩ := result
      rw [hstep] at heq
      obtain rfl := Except.ok.inj heq
      obtain ⟨free, -, hsound⟩ := (AllocatorState.Sound.start L memory).step nofun hstep
      refine ⟨⟨free, [sentinel], hsound, .refl _⟩, ?_, nofun, nofun, rfl⟩
      exact List.isChain_cons_cons.mpr
        ⟨⟨Function.update_self _ _ _, Function.update_self _ _ _⟩, .singleton _⟩

/-- The last element taken off. -/
theorem pop {item : ℕ × α} (h : s.Represents L owned ⟨a ++ [item], chains⟩) :
    s.pop.Represents L owned ⟨a, chains⟩ := by
  have hlast : s.prev s.sentinel = item.1 := h.last_eq.trans (lastOf_concat _ _ _)
  have herased := h.erase.2.2
  rw [List.append_nil] at herased
  rw [Stack.pop, hlast]
  exact herased

/-- A new last element. -/
theorem push (h : s.Represents L owned q) {mem newNode : ℕ} {element : α}
    (hhost : HostReturns L owned mem) (heq : s.push L mem element = .ok (newNode, s')) :
    s'.Represents L (if s.allocator.requestsSlab then mem :: owned else owned)
      ⟨q.items ++ [(newNode, element)], q.chains⟩ := by
  have happend : s.Represents L owned ⟨q.items ++ [], q.chains⟩ := by
    rw [List.append_nil]
    exact h
  exact (happend.insert hhost heq).2.2

/-- **Every run** does to the nodes what it does to the sequence. -/
theorem of_run (h : StackRun L s owned q) : s.Represents L owned q := by
  induction h with
  | construct heq => exact init heq
  | insert _ hhost heq ih => exact (ih.insert hhost heq).2.2
  | push _ hhost heq ih => exact ih.push hhost heq
  | erase _ ih => exact ih.erase.2.2
  | pop _ ih => exact ih.pop
  | split _ hne heq ih => exact (ih.split hne heq).2
  | contactAtEnd _ ih => exact ih.contactAtEnd

end Stack.Represents

/-- What the user of a stack relies on. -/
structure Stack.Agrees {α : Type} (L : SlabLayout) (s : Stack α) (owned : List ℕ)
    (q : Sequence α) : Prop where
  /-- The nodes are in a circle. -/
  circle : Linked s.next s.prev (s.sentinel :: (q.nodes ++ [s.sentinel]))
  /-- All nodes are different, those that were split off included. -/
  distinct : (s.sentinel :: (q.nodes ++ q.detached)).Nodup
  /-- The traversal from the first element to the end. -/
  forward : ∀ fuel > q.items.length, walkLinks s.next s.end_ fuel s.begin_ = some q.nodes
  /-- The traversal from the last element to the end. -/
  backward : ∀ fuel > q.items.length, walkLinks s.prev s.end_ fuel s.last = some q.nodes.reverse
  size : s.size = UInt32.ofNat q.items.length
  empty : s.empty = true ↔ q.items = []
  /-- Iterators designate the elements that they were returned for. -/
  values : ∀ item ∈ q.items ++ q.chains.flatMap Prod.snd, s.value item.1 = item.2
  /-- Parts that were split off are lists of their own. -/
  parts : ∀ c ∈ q.chains, c.1.Represents s.next s.prev c.2
  /-- A new element gets a new iterator. -/
  insert : ∀ a b mem newNode element s', q.items = a ++ b → HostReturns L owned mem →
    s.insert L mem (Sequence.positionOf s.end_ b) element = .ok (newNode, s') →
      newNode ∉ s.sentinel :: (q.nodes ++ q.detached)
  /-- Only the host can fail. -/
  fails : ∀ mem position element error, s.insert L mem position element = .error error →
    s.allocator.requestsSlab = true ∧ mem = 0
  /-- `erase` returns the iterator behind the element. -/
  erase : ∀ a item b, q.items = a ++ item :: b →
    (s.erase item.1).1 = Sequence.positionOf s.end_ b
  /-- `split` ends if there is something to be split off. -/
  split : ∀ a b, q.items = a ++ b → b ≠ [] → ∀ fuel ≥ b.length, ∃ chain s',
    s.split fuel (Sequence.lastOf s.end_ a) = some (chain, s')

/-- **The stack is the sequence** after every run of operations. -/
theorem stack_run {α : Type} {L : SlabLayout} {s : Stack α} {owned : List ℕ} {q : Sequence α}
    (hrun : StackRun L s owned q) : s.Agrees L owned q := by
  have h := Stack.Represents.of_run hrun
  have hcut : ∀ a b, q.items = a ++ b → s.Represents L owned ⟨a ++ b, q.chains⟩ :=
    fun a b heq => heq ▸ h
  refine ⟨h.linked, h.nodup, fun _ => h.forward, fun _ => h.backward, h.size, ?_, h.values,
    h.chains, ?_, ?_, ?_, ?_⟩
  · have hleads := h.linked.leads
    rw [Stack.empty, beq_iff_eq]
    have hnil := hleads.eq_nil_iff (List.nodup_cons.mp h.nodup_circle.1).1
    rw [Sequence.nodes, List.map_eq_nil_iff] at hnil
    exact hnil.symm
  · intro a b mem newNode element s' heq hhost hinsert
    obtain ⟨hnew, -⟩ := (hcut a b heq).insert hhost hinsert
    have hnodes : (Sequence.mk (a ++ b) q.chains) = q := heq ▸ rfl
    rw [hnodes] at hnew
    exact hnew
  · intro mem position element error hinsert
    rw [Stack.insert] at hinsert
    cases hstep : s.allocator.step L mem with
    | error error =>
        exact AllocatorState.Sound.fails (s := ⟨s.allocator, [], []⟩) hstep
    | ok result =>
        rw [hstep] at hinsert
        cases hinsert
  · exact fun a item b heq => (hcut a (item :: b) heq).erase.1
  · intro a b heq hne fuel hfuel
    obtain ⟨s', hsplit⟩ := (hcut a b heq).split_eq hne hfuel
    exact ⟨_, s', hsplit⟩

/-- A stack of numbers, with its sentinel. -/
def emptyStack : Stack ℕ :=
  ((⟨.init fun _ => 0, fun _ => 0, fun _ => 0, fun _ => 0, 0, 0⟩ : Stack ℕ).init smallSlabs
    1000).toOption.get rfl

/-- A stack with one element, and its iterator. -/
def oneElement : ℕ × Stack ℕ := (emptyStack.push smallSlabs 0 7).toOption.get rfl

/-- Another one, for which a slab is requested. -/
def twoElements : ℕ × Stack ℕ := (oneElement.2.push smallSlabs 2000 8).toOption.get rfl

/-- The last element is split off. -/
def splitElements : SubChain × Stack ℕ := (twoElements.2.split 1 oneElement.1).get rfl

/-- An element is left, and the other one is in a part of its own. -/
theorem agrees_splitElements :
    splitElements.2.Agrees smallSlabs [2000, 1000]
      ⟨[(oneElement.1, 7)], [(splitElements.1, [(twoElements.1, 8)])]⟩ := by
  have h0 : StackRun smallSlabs emptyStack [1000] ⟨[], []⟩ := .construct rfl
  have h1 : StackRun smallSlabs oneElement.2 [1000] ⟨[(oneElement.1, 7)], []⟩ :=
    .push h0 (nofun) rfl
  have hapart : HostReturns smallSlabs [1000] 2000 := by
    intro _ slab hslab
    obtain rfl := List.mem_singleton.mp hslab
    exact .inl (by decide)
  have h2 : StackRun smallSlabs twoElements.2 [2000, 1000]
      ⟨[(oneElement.1, 7)] ++ [(twoElements.1, 8)], []⟩ := .push h1 hapart rfl
  have hsplit : twoElements.2.split 1 (Sequence.lastOf twoElements.2.end_ [(oneElement.1, 7)]) =
      some (splitElements.1, splitElements.2) := rfl
  exact stack_run (.split h2 (List.cons_ne_nil _ _) hsplit)

/-- **Splitting behind the last element**: the constructor of the part counts once around the
list, and the size is no more that of the list. -/
theorem not_agrees_split_last :
    StackRun smallSlabs oneElement.2 [1000] ⟨[(oneElement.1, 7)], []⟩ ∧
      ∃ chain s', oneElement.2.split 2 oneElement.2.last = some (chain, s') ∧
        oneElement.2.last = oneElement.1 ∧
        walkLinks s'.next s'.end_ 2 s'.begin_ = some [oneElement.1] ∧ s'.size = 0xFFFFFFFF := by
  have h0 : StackRun smallSlabs emptyStack [1000] ⟨[], []⟩ := .construct rfl
  exact ⟨.push h0 (nofun) rfl, _, _, rfl, rfl, rfl, rfl⟩

end WasmCompiler
