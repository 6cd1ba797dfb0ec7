import WasmCompiler.StackReferences
import Mathlib.Data.Nat.Basic

/-!
# The Lists Behind a Reference

What the elements of one entry of the reference table look like, and that adding and
removing a reference edits exactly these lists. `Lists` is the list of an ordinary entry,
`ListsGroups` the groups of temporary stack slots under an entry.

## Main results

* `Lists.linkTop`, `Lists.removeFromGroup`: an ordinary entry.
* `ListsGroups.prepareGroup`: adding an element to the groups inserts it (`insertGroup`).
* `ListsGroups.findGroupToRemove`: removing an element takes it out (`eraseGroup`).
* `SameOutside`: the lists of other entries are left alone.
-/

namespace WasmCompiler

namespace CompilerStack

/-! ### What the primitive updates change -/

variable (s : CompilerStack) (n : ℕ) (v : Option ℕ) (a : GroupReference)

@[simp] theorem setPrev_prev : (s.setPrev n v).prev = Function.update s.prev n v := by
  funext k
  by_cases hk : k = n <;> simp [setPrev, modifyIndexData, prev, hk]

@[simp] theorem setPrev_next : (s.setPrev n v).next = s.next := by
  funext k
  by_cases hk : k = n <;> simp [setPrev, modifyIndexData, next, hk]

@[simp] theorem setPrev_data : (s.setPrev n v).data = s.data := by
  funext k
  by_cases hk : k = n <;> simp [setPrev, modifyIndexData, data, hk]

@[simp] theorem setPrev_read : (s.setPrev n v).read = s.read := by
  funext b
  cases b with
  | majorReference p => rfl
  | nextLowerTempStack k =>
      by_cases hk : k = n <;> simp [setPrev, modifyIndexData, read, hk]

@[simp] theorem setNext_prev : (s.setNext n v).prev = s.prev := by
  funext k
  by_cases hk : k = n <;> simp [setNext, modifyIndexData, prev, hk]

@[simp] theorem setNext_next : (s.setNext n v).next = Function.update s.next n v := by
  funext k
  by_cases hk : k = n <;> simp [setNext, modifyIndexData, next, hk]

@[simp] theorem setNext_data : (s.setNext n v).data = s.data := by
  funext k
  by_cases hk : k = n <;> simp [setNext, modifyIndexData, data, hk]

@[simp] theorem setNext_read : (s.setNext n v).read = s.read := by
  funext b
  cases b with
  | majorReference p => rfl
  | nextLowerTempStack k =>
      by_cases hk : k = n <;> simp [setNext, modifyIndexData, read, hk]

@[simp] theorem write_read : (s.write a v).read = Function.update s.read a v := by
  funext b
  cases a with
  | majorReference p =>
      cases b with
      | majorReference q => by_cases hq : q = p <;> simp [write, read, hq]
      | nextLowerTempStack k => simp [write, read]
  | nextLowerTempStack n =>
      cases b with
      | majorReference q => simp [write, read, modifyIndexData]
      | nextLowerTempStack k => by_cases hk : k = n <;> simp [write, modifyIndexData, read, hk]

@[simp] theorem write_prev : (s.write a v).prev = s.prev := by
  funext k
  cases a with
  | majorReference p => rfl
  | nextLowerTempStack n => by_cases hk : k = n <;> simp [write, modifyIndexData, prev, hk]

@[simp] theorem write_next : (s.write a v).next = s.next := by
  funext k
  cases a with
  | majorReference p => rfl
  | nextLowerTempStack n => by_cases hk : k = n <;> simp [write, modifyIndexData, next, hk]

@[simp] theorem write_data : (s.write a v).data = s.data := by
  funext k
  cases a with
  | majorReference p => rfl
  | nextLowerTempStack n => by_cases hk : k = n <;> simp [write, modifyIndexData, data, hk]

@[simp] theorem setPrev_stack : (s.setPrev n v).stack = s.stack := rfl

@[simp] theorem setNext_stack : (s.setNext n v).stack = s.stack := rfl

@[simp] theorem write_stack : (s.write a v).stack = s.stack := by
  cases a <;> rfl

/-! ### Lists and groups -/

variable {s s' s₁ : CompilerStack} {n x : ℕ} {a b : GroupReference} {l nodes nodes' : List ℕ}
  {g : Group ℕ} {gs gs' : List (Group ℕ)}

/-- A reference heads a linked list of exactly these elements. -/
structure Lists (s : CompilerStack) (a : GroupReference) (l : List ℕ) : Prop where
  head : s.read a = l.head?
  linked : DoublyLinked s.prev s.next none l

/-- A reference heads a list of groups, each linked to the next lower one. -/
def ListsGroups (s : CompilerStack) : GroupReference → List (Group ℕ) → Prop
  | a, [] => s.read a = none
  | a, g :: gs => s.Lists a g.members ∧ s.ListsGroups (.nextLowerTempStack g.top) gs

/-- Nothing has changed except the reference `a` and the links of the given nodes. -/
structure SameOutside (s s' : CompilerStack) (a : GroupReference) (nodes : List ℕ) :
    Prop where
  read : ∀ b, b ≠ a → (∀ n ∈ nodes, b ≠ .nextLowerTempStack n) → s'.read b = s.read b
  prev : ∀ n ∉ nodes, s'.prev n = s.prev n
  next : ∀ n ∉ nodes, s'.next n = s.next n
  data : s'.data = s.data
  stack : s'.stack = s.stack

/-- Positions are read from the data. -/
theorem position_eq (h : s'.data = s.data) : s'.position = s.position := by
  funext n
  rw [position, position, h]

/-- More nodes may change. -/
theorem SameOutside.mono (h : SameOutside s s' a nodes) (hsub : ∀ n ∈ nodes, n ∈ nodes') :
    SameOutside s s' a nodes' where
  read b hb hn := h.read b hb fun n hmem => hn n (hsub n hmem)
  prev n hn := h.prev n fun hmem => hn (hsub n hmem)
  next n hn := h.next n fun hmem => hn (hsub n hmem)
  data := h.data
  stack := h.stack

/-- A change of a lower group, seen from the group above it. -/
theorem SameOutside.lower (h : SameOutside s s' (.nextLowerTempStack n) nodes)
    (hn : n ∈ nodes') (hsub : ∀ k ∈ nodes, k ∈ nodes') : SameOutside s s' a nodes' where
  read b _ hb := h.read b (hb n hn) fun k hk => hb k (hsub k hk)
  prev k hk := h.prev k fun hmem => hk (hsub k hmem)
  next k hk := h.next k fun hmem => hk (hsub k hmem)
  data := h.data
  stack := h.stack

/-- A list is left alone by what changes elsewhere. -/
theorem Lists.congr (h : s.Lists a l) (hread : s'.read b = s.read a)
    (hprev : ∀ n ∈ l, s'.prev n = s.prev n) (hnext : ∀ n ∈ l, s'.next n = s.next n) :
    s'.Lists b l where
  head := hread.trans h.head
  linked := h.linked.congr hprev hnext

/-- Groups are left alone by what changes elsewhere. -/
theorem ListsGroups.congr (h : s.ListsGroups a gs) (hread : s'.read b = s.read a)
    (hlower : ∀ n ∈ members gs, s'.read (.nextLowerTempStack n) = s.read (.nextLowerTempStack n))
    (hprev : ∀ n ∈ members gs, s'.prev n = s.prev n)
    (hnext : ∀ n ∈ members gs, s'.next n = s.next n) : s'.ListsGroups b gs := by
  induction gs generalizing a b with
  | nil => exact hread.trans h
  | cons g gs ih =>
      obtain ⟨hlist, hgs⟩ := h
      have hleft : ∀ n ∈ g.members, n ∈ members (g :: gs) := fun n => List.mem_append_left _
      have hright : ∀ n ∈ members gs, n ∈ members (g :: gs) := fun n => List.mem_append_right _
      refine ⟨hlist.congr hread (fun n hn => hprev n (hleft n hn))
        (fun n hn => hnext n (hleft n hn)), ih hgs ?_ ?_ ?_ ?_⟩
      · exact hlower g.top (hleft _ List.mem_cons_self)
      · exact fun n hn => hlower n (hright n hn)
      · exact fun n hn => hprev n (hright n hn)
      · exact fun n hn => hnext n (hright n hn)

/-- A group above others that have changed. -/
theorem ListsGroups.above (h : s.ListsGroups a (g :: gs))
    (hs : SameOutside s s' (.nextLowerTempStack g.top) nodes)
    (hgs : s'.ListsGroups (.nextLowerTempStack g.top) gs')
    (hnodes : ∀ n ∈ nodes, n ∉ g.members)
    (ha : ∀ n ∈ g.top :: nodes, a ≠ .nextLowerTempStack n) : s'.ListsGroups a (g :: gs') := by
  refine ⟨h.1.congr ?_ (fun n hn => ?_) (fun n hn => ?_), hgs⟩
  · exact hs.read a (ha g.top List.mem_cons_self) fun n hn => ha n (List.mem_cons_of_mem _ hn)
  · exact hs.prev n fun hmem => hnodes n hmem hn
  · exact hs.next n fun hmem => hnodes n hmem hn

/-! ### Adding an element -/

/-- The links to previous occurrences after an element is listed. -/
theorem linkTop_prev : (s.linkTop x a).prev = Function.update s.prev x (s.read a) := by
  rw [linkTop]
  split <;> simp

/-- The links to next occurrences after an element is listed. -/
theorem linkTop_next : (s.linkTop x a).next =
    DoublyLinked.linkHead (Function.update s.next x none) x (s.read a) := by
  rw [linkTop]
  split
  · rename_i h
    simp only [setPrev_read, setNext_read] at h
    simp [DoublyLinked.linkHead, h]
  · rename_i p h
    simp only [setPrev_read, setNext_read] at h
    simp [DoublyLinked.linkHead, h]

/-- The references after an element is listed. -/
theorem linkTop_read : (s.linkTop x a).read = Function.update s.read a (some x) := by
  rw [linkTop]
  split <;> simp

/-- Listing an element keeps all data. -/
theorem linkTop_data : (s.linkTop x a).data = s.data := by
  rw [linkTop]
  split <;> simp

/-- Listing an element keeps the stack. -/
theorem linkTop_stack : (s.linkTop x a).stack = s.stack := by
  rw [linkTop]
  split <;> simp

/-- **An element listed in front of others.** -/
theorem Lists.linkTop (h : s.Lists a l) (hx : x ∉ l) (hl : l.Nodup) :
    (s.linkTop x a).Lists a (x :: l) where
  head := by
    rw [linkTop_read]
    exact Function.update_self _ _ _
  linked := by
    rw [linkTop_prev, linkTop_next, h.head]
    exact h.linked.push hx hl

/-- Listing an element changes nothing but its list. -/
theorem Lists.linkTop_same (h : s.Lists a l) : SameOutside s (s.linkTop x a) a (x :: l) where
  read b hb _ := by
    rw [linkTop_read]
    exact Function.update_of_ne hb _ _
  prev n hn := by
    rw [List.mem_cons, not_or] at hn
    rw [linkTop_prev]
    exact Function.update_of_ne hn.1 _ _
  next n hn := by
    rw [List.mem_cons, not_or] at hn
    rw [linkTop_next, h.head]
    cases l with
    | nil => exact Function.update_of_ne hn.1 _ _
    | cons y l =>
        have hny : n ≠ y := fun hny => hn.2 (hny ▸ List.mem_cons_self)
        rw [List.head?_cons, DoublyLinked.linkHead, Function.update_of_ne hny]
        exact Function.update_of_ne hn.1 _ _
  data := linkTop_data
  stack := linkTop_stack

/-- Changes one after the other. -/
theorem SameOutside.trans (h : SameOutside s s₁ a nodes) (h' : SameOutside s₁ s' a nodes) :
    SameOutside s s' a nodes where
  read b hb hn := (h'.read b hb hn).trans (h.read b hb hn)
  prev n hn := (h'.prev n hn).trans (h.prev n hn)
  next n hn := (h'.next n hn).trans (h.next n hn)
  data := h'.data.trans h.data
  stack := h'.stack.trans h.stack

/-- Linking an element to a lower group. -/
theorem write_nextLower_same (v : Option ℕ) (hx : x ∈ nodes) :
    SameOutside s (s.write (.nextLowerTempStack x) v) a nodes where
  read b _ hb := by
    rw [write_read]
    exact Function.update_of_ne (hb x hx) _ _
  prev _ _ := by rw [write_prev]
  next _ _ := by rw [write_next]
  data := write_data _ _ _
  stack := write_stack _ _ _

/-- Writing the reference itself. -/
theorem write_same (v : Option ℕ) : SameOutside s (s.write a v) a nodes where
  read b hb _ := by
    rw [write_read]
    exact Function.update_of_ne hb _ _
  prev _ _ := by rw [write_prev]
  next _ _ := by rw [write_next]
  data := write_data _ _ _
  stack := write_stack _ _ _

/-- An element that opens a group of its own: it has been linked to the groups of the
reference, and the reference has been emptied. -/
theorem ListsGroups.newGroup (h : s.ListsGroups b gs) (hs : SameOutside s s₁ b [x])
    (hread : s₁.read (.nextLowerTempStack x) = s.read b) (hempty : s₁.read b = none)
    (hx : x ∉ members gs) (hb : ∀ n ∈ x :: members gs, b ≠ .nextLowerTempStack n) :
    (s₁.linkTop x b).ListsGroups b (⟨x, []⟩ :: gs) ∧
      SameOutside s (s₁.linkTop x b) b [x] := by
  have hlist : s₁.Lists b [] := ⟨hempty, trivial⟩
  have hsame : SameOutside s (s₁.linkTop x b) b [x] := hs.trans hlist.linkTop_same
  refine ⟨⟨hlist.linkTop List.not_mem_nil List.nodup_nil, ?_⟩, hsame⟩
  have hlower : (s₁.linkTop x b).read (.nextLowerTempStack x) = s.read b := by
    rw [linkTop_read, Function.update_of_ne (Ne.symm (hb x List.mem_cons_self))]
    exact hread
  have hne : ∀ n ∈ members gs, n ∉ [x] := by
    intro n hn hnx
    exact hx (List.mem_singleton.mp hnx ▸ hn)
  refine h.congr hlower (fun n hn => hsame.read _ ?_ ?_) (fun n hn => hsame.prev n (hne n hn))
    (fun n hn => hsame.next n (hne n hn))
  · exact Ne.symm (hb n (List.mem_cons_of_mem _ hn))
  · rintro k hk heq
    exact hne n hn (GroupReference.nextLowerTempStack.inj heq ▸ hk)

/-- An element that joins the first group. -/
theorem ListsGroups.joinGroup (h : s.ListsGroups a (g :: gs)) (hx : x ∉ members (g :: gs))
    (hl : (members (g :: gs)).Nodup)
    (ha : ∀ n ∈ x :: members (g :: gs), a ≠ .nextLowerTempStack n) :
    let s₁ := s.write (.nextLowerTempStack x) (s.read (.nextLowerTempStack g.top))
    (s₁.linkTop x a).ListsGroups a (⟨x, g.members⟩ :: gs) ∧
      SameOutside s (s₁.linkTop x a) a (x :: members (g :: gs)) := by
  intro s₁
  rw [members_cons, List.mem_append, not_or] at hx
  rw [members_cons, List.nodup_append] at hl
  have hmem : ∀ n ∈ x :: g.members, n ∈ x :: members (g :: gs) := by
    intro n hn
    rcases List.mem_cons.mp hn with rfl | hn
    · exact List.mem_cons_self
    · exact List.mem_cons_of_mem _ (List.mem_append_left _ hn)
  have hwrite : SameOutside s s₁ a (x :: g.members) :=
    write_nextLower_same _ List.mem_cons_self
  have hlist : s₁.Lists a g.members := by
    refine h.1.congr ?_ (fun n _ => by rw [write_prev]) (fun n _ => by rw [write_next])
    rw [write_read]
    exact Function.update_of_ne (ha x List.mem_cons_self) _ _
  have hsame : SameOutside s (s₁.linkTop x a) a (x :: g.members) :=
    hwrite.trans hlist.linkTop_same
  refine ⟨⟨hlist.linkTop hx.1 hl.1, ?_⟩, hsame.mono hmem⟩
  have hne : ∀ n ∈ members gs, n ∉ x :: g.members := by
    intro n hn hn'
    rcases List.mem_cons.mp hn' with rfl | hn'
    · exact hx.2 hn
    · exact hl.2.2 n hn' n hn rfl
  have hlower : (s₁.linkTop x a).read (.nextLowerTempStack x) =
      s.read (.nextLowerTempStack g.top) := by
    rw [linkTop_read, Function.update_of_ne (Ne.symm (ha x List.mem_cons_self)), write_read]
    exact Function.update_self _ _ _
  refine h.2.congr hlower (fun n hn => hsame.read _ ?_ ?_) (fun n hn => hsame.prev n (hne n hn))
    (fun n hn => hsame.next n (hne n hn))
  · exact Ne.symm (ha n (List.mem_cons_of_mem _ (List.mem_append_right _ hn)))
  · rintro k hk heq
    exact hne n hn (GroupReference.nextLowerTempStack.inj heq ▸ hk)

/-- The groups below the first one do not hold its first element. -/
theorem ListsGroups.lower_ne (hx : x ∉ members (g :: gs)) (hl : (members (g :: gs)).Nodup) :
    ∀ n ∈ x :: members gs, (GroupReference.nextLowerTempStack g.top) ≠ .nextLowerTempStack n := by
  rintro n hn heq
  obtain rfl : g.top = n := GroupReference.nextLowerTempStack.inj heq
  rw [members_cons, List.nodup_append] at hl
  rcases List.mem_cons.mp hn with hn | hn
  · exact hx (hn ▸ List.mem_append_left _ List.mem_cons_self)
  · exact hl.2.2 g.top List.mem_cons_self g.top hn rfl

/-- A change below the first group that involves no more than the element and the lower
groups. -/
theorem ListsGroups.lowerGroup {t : CompilerStack} (h : s.ListsGroups a (g :: gs))
    (hx : x ∉ members (g :: gs)) (hl : (members (g :: gs)).Nodup)
    (ha : ∀ n ∈ x :: members (g :: gs), a ≠ .nextLowerTempStack n)
    (hsub : ∀ n ∈ nodes, n ∈ x :: members gs)
    (hlower : t.ListsGroups (.nextLowerTempStack g.top) gs' ∧
      SameOutside s t (.nextLowerTempStack g.top) nodes) :
    t.ListsGroups a (g :: gs') ∧ SameOutside s t a (x :: members (g :: gs)) := by
  rw [members_cons, List.nodup_append] at hl
  have hmem : ∀ n ∈ x :: members gs, n ∈ x :: members (g :: gs) := by
    intro n hn
    rcases List.mem_cons.mp hn with rfl | hn
    · exact List.mem_cons_self
    · exact List.mem_cons_of_mem _ (List.mem_append_right _ hn)
  have htop : g.top ∈ x :: members (g :: gs) :=
    List.mem_cons_of_mem _ (List.mem_append_left _ List.mem_cons_self)
  refine ⟨h.above hlower.2 hlower.1 (fun n hn hg => ?_) (fun n hn => ?_),
    hlower.2.lower htop fun n hn => hmem n (hsub n hn)⟩
  · rcases List.mem_cons.mp (hsub n hn) with rfl | hn
    · exact hx (List.mem_append_left _ hg)
    · exact hl.2.2 n hg n hn rfl
  · rcases List.mem_cons.mp hn with rfl | hn
    · exact ha _ htop
    · exact ha n (hmem n (hsub n hn))

/-- **The walk down the groups** finds the place where the element is inserted. -/
theorem ListsGroups.findGroupToAdd {fuel : ℕ} (h : s.ListsGroups a (g :: gs))
    (hle : s.position x ≤ s.position g.top) (hx : x ∉ members (g :: gs))
    (hl : (members (g :: gs)).Nodup)
    (ha : ∀ n ∈ x :: members (g :: gs), a ≠ .nextLowerTempStack n) (hfuel : gs.length < fuel) :
    ∃ s₁ b, CompilerStack.findGroupToAdd x fuel s a g.top = some (s₁, b) ∧
      (s₁.linkTop x b).ListsGroups a (insertGroup s.position x (g :: gs)) ∧
      SameOutside s (s₁.linkTop x b) a (x :: members (g :: gs)) := by
  induction gs generalizing a g fuel with
  | nil =>
      obtain _ | fuel := fuel
      · exact absurd hfuel (Nat.not_lt_zero _)
      rw [CompilerStack.findGroupToAdd, insertGroup]
      simp only [if_neg (not_lt.mpr hle)]
      by_cases heq : s.position x = s.position g.top
      · rw [if_pos heq, if_pos heq]
        exact ⟨_, _, rfl, h.joinGroup hx hl ha⟩
      · have hnone : s.read (.nextLowerTempStack g.top) = none := h.2
        rw [if_neg heq, if_neg heq]
        simp only [hnone]
        refine ⟨_, _, rfl, ?_⟩
        refine h.lowerGroup hx hl ha (fun n hn => hn) ?_
        refine h.2.newGroup (write_nextLower_same _ (List.mem_singleton.mpr rfl)) ?_ ?_
          List.not_mem_nil (ListsGroups.lower_ne hx hl)
        · rw [write_read, hnone]
          exact Function.update_self _ _ _
        · rw [write_read, Function.update_of_ne (ListsGroups.lower_ne hx hl x List.mem_cons_self)]
          exact hnone
  | cons g' gs ih =>
      obtain _ | fuel := fuel
      · exact absurd hfuel (Nat.not_lt_zero _)
      rw [CompilerStack.findGroupToAdd, insertGroup]
      simp only [if_neg (not_lt.mpr hle)]
      by_cases heq : s.position x = s.position g.top
      · rw [if_pos heq, if_pos heq]
        exact ⟨_, _, rfl, h.joinGroup hx hl ha⟩
      · have hsome : s.read (.nextLowerTempStack g.top) = some g'.top := h.2.1.head
        have hne := ListsGroups.lower_ne hx hl
        rw [if_neg heq, if_neg heq]
        simp only [hsome]
        by_cases hlt : s.position g'.top < s.position x
        · rw [if_pos hlt]
          refine ⟨_, _, rfl, ?_⟩
          rw [insertGroup, if_pos hlt]
          refine h.lowerGroup hx hl ha ?_
            (h.2.newGroup ((write_nextLower_same _ (List.mem_singleton.mpr rfl)).trans
              (write_same none)) ?_ ?_ (fun hmem => hx (List.mem_append_right _ hmem)) hne)
          · intro n hn
            exact List.mem_singleton.mp hn ▸ List.mem_cons_self
          · rw [write_read, Function.update_of_ne (Ne.symm (hne x List.mem_cons_self)), write_read,
              hsome]
            exact Function.update_self _ _ _
          · rw [write_read]
            exact Function.update_self _ _ _
        · rw [if_neg hlt]
          rw [members_cons, List.mem_append, not_or] at hx
          have hl' := (List.nodup_append.mp hl).2.1
          obtain ⟨s₁, b, hfind, hlower⟩ := ih h.2 (not_lt.mp hlt) hx.2 hl' hne
            (by simpa using hfuel)
          refine ⟨s₁, b, hfind, h.lowerGroup (by simpa using hx) hl ha (fun n hn => hn) hlower⟩

/-- **A result in stack memory is inserted** in the groups of its reference. -/
theorem ListsGroups.prepareGroup {fuel : ℕ} (h : s.ListsGroups a gs)
    (hm : (s.data x).isStackMemory = true) (hx : x ∉ members gs) (hl : (members gs).Nodup)
    (ha : ∀ n ∈ x :: members gs, a ≠ .nextLowerTempStack n) (hfuel : gs.length ≤ fuel) :
    ∃ s₁ b, s.prepareGroup fuel x a = some (s₁, b) ∧
      (s₁.linkTop x b).ListsGroups a (insertGroup s.position x gs) ∧
      SameOutside s (s₁.linkTop x b) a (x :: members gs) := by
  have hsub : ∀ n ∈ [x], n ∈ x :: members gs := by
    intro n hn
    exact List.mem_singleton.mp hn ▸ List.mem_cons_self
  have hax := ha x List.mem_cons_self
  rw [CompilerStack.prepareGroup, if_pos hm]
  cases gs with
  | nil =>
      have hnone : s.read a = none := h
      simp only [hnone]
      obtain ⟨hlists, hsame⟩ := h.newGroup (write_nextLower_same none (List.mem_singleton.mpr rfl))
        (by rw [write_read, Function.update_self, hnone])
        (by rw [write_read, Function.update_of_ne hax, hnone]) hx ha
      exact ⟨_, _, rfl, hlists, hsame.mono hsub⟩
  | cons g gs =>
      have hsome : s.read a = some g.top := h.1.head
      simp only [hsome]
      by_cases hlt : s.position g.top < s.position x
      · rw [if_pos hlt, insertGroup, if_pos hlt]
        obtain ⟨hlists, hsame⟩ := h.newGroup
          ((write_nextLower_same (some g.top) (List.mem_singleton.mpr rfl)).trans (write_same none))
          (by rw [write_read, Function.update_of_ne (Ne.symm hax), write_read,
            Function.update_self, hsome])
          (by rw [write_read, Function.update_self]) hx ha
        exact ⟨_, _, rfl, hlists, hsame.mono hsub⟩
      · rw [if_neg hlt]
        exact h.findGroupToAdd (not_lt.mp hlt) hx hl ha hfuel

/-! ### Removing an element -/

/-- The links to previous occurrences after an element is linked past from above. -/
theorem unlinkNext_prev : (s.unlinkNext x).prev =
    DoublyLinked.bypass s.prev (s.prev x) (s.next x) := by
  rw [unlinkNext]
  cases hn : s.next x with
  | none => rfl
  | some n => simp [DoublyLinked.bypass]

/-- The links to next occurrences after an element is linked past from below. -/
theorem unlinkPrev_next : (s.unlinkPrev x).next =
    DoublyLinked.bypass s.next (s.next x) (s.prev x) := by
  rw [unlinkPrev]
  cases hp : s.prev x with
  | none => rfl
  | some p => simp [DoublyLinked.bypass]

/-- Linking past from above changes links to previous occurrences only. -/
theorem unlinkNext_rest : (s.unlinkNext x).next = s.next ∧ (s.unlinkNext x).read = s.read ∧
    (s.unlinkNext x).data = s.data ∧ (s.unlinkNext x).stack = s.stack := by
  rw [unlinkNext]
  split <;> simp

/-- Linking past from below changes links to next occurrences only. -/
theorem unlinkPrev_rest : (s.unlinkPrev x).prev = s.prev ∧ (s.unlinkPrev x).read = s.read ∧
    (s.unlinkPrev x).data = s.data ∧ (s.unlinkPrev x).stack = s.stack := by
  rw [unlinkPrev]
  split <;> simp

/-- Replacing the first element changes references only. -/
theorem removeTop_rest : (s.removeTop x a).prev = s.prev ∧ (s.removeTop x a).next = s.next ∧
    (s.removeTop x a).data = s.data ∧ (s.removeTop x a).stack = s.stack := by
  rw [removeTop]
  split
  · split
    · simp
    · split <;> simp
  · simp

/-- The links after an element is taken out. -/
theorem unlink_links (hne : s.next x ≠ some x) :
    (s.unlink x a).prev = DoublyLinked.bypass s.prev (s.prev x) (s.next x) ∧
      (s.unlink x a).next = DoublyLinked.bypass s.next (s.next x) (s.prev x) ∧
      (s.unlink x a).data = s.data ∧ (s.unlink x a).stack = s.stack := by
  obtain ⟨hnext, -, hdata, hstack⟩ := @unlinkNext_rest s x
  obtain ⟨hprev', -, hdata', hstack'⟩ := @unlinkPrev_rest (s.unlinkNext x) x
  obtain ⟨htprev, htnext, htdata, htstack⟩ :=
    @removeTop_rest ((s.unlinkNext x).unlinkPrev x) x a
  have hx : (s.unlinkNext x).prev x = s.prev x := by
    rw [unlinkNext_prev]
    exact DoublyLinked.bypass_of_ne hne
  refine ⟨?_, ?_, ?_, ?_⟩
  · rw [unlink, htprev, hprev', unlinkNext_prev]
  · rw [unlink, htnext, unlinkPrev_next, hnext, hx]
  · rw [unlink, htdata, hdata', hdata]
  · rw [unlink, htstack, hstack', hstack]

/-- The references after an element is taken out that is not the first one. -/
theorem unlink_read_of_ne (h : s.read a ≠ some x) : (s.unlink x a).read = s.read := by
  have hread : ((s.unlinkNext x).unlinkPrev x).read = s.read := by
    rw [unlinkPrev_rest.2.1, unlinkNext_rest.2.1]
  rw [unlink, removeTop, hread, if_neg h, hread]

/-- The references after the first element is taken out of a list. -/
theorem unlink_read_of_top {p : ℕ} (h : s.read a = some x) (hne : s.next x ≠ some x)
    (hp : s.prev x = some p) : (s.unlink x a).read = Function.update
      (if (s.data x).isStackMemory then
        Function.update s.read (.nextLowerTempStack p) (s.read (.nextLowerTempStack x))
      else s.read) a (some p) := by
  have hread : ((s.unlinkNext x).unlinkPrev x).read = s.read := by
    rw [unlinkPrev_rest.2.1, unlinkNext_rest.2.1]
  have hdata : ((s.unlinkNext x).unlinkPrev x).data = s.data := by
    rw [unlinkPrev_rest.2.2.1, unlinkNext_rest.2.2.1]
  have hprev : ((s.unlinkNext x).unlinkPrev x).prev x = some p := by
    rw [unlinkPrev_rest.1, unlinkNext_prev, DoublyLinked.bypass_of_ne hne, hp]
  rw [unlink, removeTop, hread, if_pos h, hprev]
  simp only [hdata, write_read]
  split
  · rw [write_read, hread]
  · rw [hread]

/-- The neighbours of an element of a list belong to the list. -/
theorem Lists.neighbours {l₁ l₂ : List ℕ} (h : s.Lists a (l₁ ++ x :: l₂))
    (hl : (l₁ ++ x :: l₂).Nodup) :
    (∀ n, s.next x = some n → n ∈ l₁) ∧ (∀ n, s.prev x = some n → n ∈ l₂) ∧
      s.next x ≠ some x := by
  have hnext : ∀ n, s.next x = some n → n ∈ l₁ := by
    intro n hn
    rcases h.linked.next_eq with ⟨-, hx⟩ | ⟨y, hy, hx⟩
    · exact nomatch hx.symm.trans hn
    · exact Option.some.inj (hx.symm.trans hn) ▸ hy
  refine ⟨hnext, fun n hn => ?_, fun hx => ?_⟩
  · rw [h.linked.prev_eq] at hn
    exact List.mem_of_mem_head? hn
  · have hmem := hnext x hx
    rw [List.nodup_append] at hl
    exact hl.2.2 x hmem x List.mem_cons_self rfl

/-- **An element that is not alone taken out of its list.** -/
theorem Lists.unlink {l₁ l₂ : List ℕ} (h : s.Lists a (l₁ ++ x :: l₂))
    (hl : (l₁ ++ x :: l₂).Nodup) (hne : l₁ ++ l₂ ≠ []) : (s.unlink x a).Lists a (l₁ ++ l₂) := by
  obtain ⟨hnext, hprev, hself⟩ := h.neighbours hl
  obtain ⟨hprev', hnext', -, -⟩ := @unlink_links s x a hself
  refine ⟨?_, ?_⟩
  · cases l₁ with
    | nil =>
        obtain ⟨y, l₂, rfl⟩ := List.exists_cons_of_ne_nil hne
        have hp : s.prev x = some y := h.linked.prev_eq
        rw [unlink_read_of_top h.head hself hp, Function.update_self]
        rfl
    | cons t l₁ =>
        have htop : s.read a ≠ some x := by
          rw [h.head]
          intro htx
          obtain rfl : t = x := Option.some.inj htx
          simp [List.nodup_cons] at hl
        rw [unlink_read_of_ne htop, h.head]
        rfl
  · rw [hprev', hnext']
    exact h.linked.unlink hl fun y hy => nomatch hy

/-- Taking an element out changes nothing but its list. -/
theorem Lists.unlink_same {l₁ l₂ : List ℕ} (h : s.Lists a (l₁ ++ x :: l₂))
    (hl : (l₁ ++ x :: l₂).Nodup) (hne : l₁ ++ l₂ ≠ []) :
    SameOutside s (s.unlink x a) a (l₁ ++ x :: l₂) := by
  obtain ⟨hnext, hprev, hself⟩ := h.neighbours hl
  obtain ⟨hprev', hnext', hdata, hstack⟩ := @unlink_links s x a hself
  refine ⟨fun b hb hnodes => ?_, fun n hn => ?_, fun n hn => ?_, hdata, hstack⟩
  · by_cases htop : s.read a = some x
    · cases hp : s.prev x with
      | none =>
          have hl₂ : l₂ = [] := by
            rw [h.linked.prev_eq] at hp
            exact List.head?_eq_none_iff.mp hp
          obtain ⟨t, l₁, rfl⟩ := List.exists_cons_of_ne_nil (by simpa [hl₂] using hne)
          obtain rfl : t = x := Option.some.inj (h.head.symm.trans htop)
          simp [List.nodup_cons] at hl
      | some p =>
          rw [unlink_read_of_top htop hself hp, Function.update_of_ne hb]
          have hp' : b ≠ .nextLowerTempStack p :=
            hnodes p (List.mem_append_right _ (List.mem_cons_of_mem _ (hprev p hp)))
          split
          · exact Function.update_of_ne hp' _ _
          · rfl
    · rw [unlink_read_of_ne htop]
  · rw [hprev']
    exact DoublyLinked.bypass_of_ne fun hnx => hn (List.mem_append_left _ (hnext n hnx))
  · rw [hnext']
    exact DoublyLinked.bypass_of_ne fun hnx =>
      hn (List.mem_append_right _ (List.mem_cons_of_mem _ (hprev n hnx)))

/-- The first element of what is left of a group is linked to the next lower group. -/
theorem Lists.unlink_lower {l₁ l₂ : List ℕ} {t y : ℕ} (h : s.Lists a (l₁ ++ x :: l₂))
    (hl : (l₁ ++ x :: l₂).Nodup) (hm : (s.data x).isStackMemory = true)
    (ha : ∀ n ∈ l₁ ++ x :: l₂, a ≠ .nextLowerTempStack n)
    (ht : (l₁ ++ x :: l₂).head? = some t) (hy : (l₁ ++ l₂).head? = some y) :
    (s.unlink x a).read (.nextLowerTempStack y) = s.read (.nextLowerTempStack t) := by
  obtain ⟨-, -, hself⟩ := h.neighbours hl
  cases l₁ with
  | nil =>
      obtain rfl : x = t := Option.some.inj ht
      have hp : s.prev x = some y := h.linked.prev_eq.trans hy
      have hya : (GroupReference.nextLowerTempStack y) ≠ a :=
        Ne.symm (ha y (List.mem_cons_of_mem _ (List.mem_of_mem_head? hy)))
      rw [unlink_read_of_top h.head hself hp, Function.update_of_ne hya, if_pos hm,
        Function.update_self]
  | cons t' l₁ =>
      obtain rfl : t' = t := Option.some.inj ht
      obtain rfl : t' = y := Option.some.inj hy
      have htop : s.read a ≠ some x := by
        rw [h.head]
        intro htx
        obtain rfl : t' = x := Option.some.inj htx
        simp [List.nodup_cons] at hl
      rw [unlink_read_of_ne htop]

/-- An element is alone in its list if it has no neighbours. -/
theorem Lists.alone_iff {l₁ l₂ : List ℕ} (h : s.Lists a (l₁ ++ x :: l₂)) :
    (s.prev x = none ∧ s.next x = none) ↔ l₁ ++ l₂ = [] := by
  rw [h.linked.prev_eq, List.head?_eq_none_iff, List.append_eq_nil_iff]
  rcases h.linked.next_eq with ⟨rfl, hx⟩ | ⟨y, hy, hx⟩
  · simp [hx]
  · have hne : l₁ ≠ [] := List.ne_nil_of_mem hy
    simp [hx, hne]

/-- **An element removed from an ordinary entry.** -/
theorem Lists.removeFromGroup {l₁ l₂ : List ℕ} (h : s.Lists a (l₁ ++ x :: l₂))
    (hl : (l₁ ++ x :: l₂).Nodup) (hm : (s.data x).isStackMemory = false) :
    ∃ s', s.removeFromGroup x a = some s' ∧ s'.Lists a (l₁ ++ l₂) ∧
      SameOutside s s' a (l₁ ++ x :: l₂) := by
  rw [CompilerStack.removeFromGroup]
  by_cases hne : l₁ ++ l₂ = []
  · rw [if_pos (h.alone_iff.mpr hne)]
    obtain ⟨rfl, rfl⟩ := List.append_eq_nil_iff.mp hne
    have htop : s.read a = some x := h.head
    rw [if_pos htop]
    refine ⟨_, rfl, ⟨?_, trivial⟩, write_same _⟩
    rw [write_read, Function.update_self, hm]
    rfl
  · rw [if_neg (fun halone => hne (h.alone_iff.mp halone))]
    exact ⟨_, rfl, h.unlink hl hne, h.unlink_same hl hne⟩

/-- An element removed from the first group. -/
theorem ListsGroups.removeFromGroup (h : s.ListsGroups a (g :: gs))
    (hl : (members (g :: gs)).Nodup) (hm : (s.data x).isStackMemory = true)
    (ha : ∀ n ∈ members (g :: gs), a ≠ .nextLowerTempStack n) (hx : x ∈ g.members) :
    ∃ s', s.removeFromGroup x a = some s' ∧
      s'.ListsGroups a (consGroup (g.members.erase x) gs) ∧
      SameOutside s s' a g.members := by
  obtain ⟨hlist, hgs⟩ := h
  obtain ⟨l₁, l₂, hsplit⟩ := List.append_of_mem hx
  rw [members_cons, List.nodup_append] at hl
  have hl' := hl.1
  have hag : ∀ n ∈ g.members, a ≠ .nextLowerTempStack n :=
    fun n hn => ha n (List.mem_append_left _ hn)
  have hags : ∀ n ∈ members gs, a ≠ .nextLowerTempStack n :=
    fun n hn => ha n (List.mem_append_right _ hn)
  have hnodes : ∀ n ∈ g.members, n ∉ members gs := fun n hn hn' => hl.2.2 n hn n hn' rfl
  have htop : g.members.head? = some g.top := rfl
  have hx₁ : x ∉ l₁ := by
    intro hmem
    rw [hsplit, List.nodup_append] at hl'
    exact hl'.2.2 x hmem x List.mem_cons_self rfl
  have herase : g.members.erase x = l₁ ++ l₂ := by
    rw [hsplit, List.erase_append_right _ hx₁, List.erase_cons_head]
  rw [herase, CompilerStack.removeFromGroup]
  rw [hsplit] at hlist hag hnodes hl' htop ⊢
  by_cases hne : l₁ ++ l₂ = []
  · rw [if_pos (hlist.alone_iff.mpr hne), hne]
    obtain ⟨rfl, rfl⟩ := List.append_eq_nil_iff.mp hne
    obtain rfl : x = g.top := Option.some.inj htop
    have hread : s.read a = some g.top := hlist.head
    rw [if_pos hread]
    refine ⟨_, rfl, ?_, write_same _⟩
    refine hgs.congr ?_ (fun n hn => ?_) (fun n _ => by rw [write_prev])
      (fun n _ => by rw [write_next])
    · rw [write_read, Function.update_self, if_pos hm]
    · rw [write_read, Function.update_of_ne (Ne.symm (hags n hn))]
  · rw [if_neg (fun halone => hne (hlist.alone_iff.mp halone))]
    have hsame := hlist.unlink_same hl' hne
    refine ⟨_, rfl, ?_, hsame⟩
    obtain ⟨y, l, hcons⟩ := List.exists_cons_of_ne_nil hne
    have hlower := hlist.unlink_lower hl' hm hag htop (by rw [hcons]; rfl)
    have hrest := hlist.unlink hl' hne
    rw [hcons] at hrest ⊢
    refine ⟨hrest, ?_⟩
    refine hgs.congr hlower (fun n hn => hsame.read _ (Ne.symm (hags n hn)) ?_) (fun n hn => ?_)
      (fun n hn => ?_)
    · rintro k hk heq
      exact hnodes k hk (GroupReference.nextLowerTempStack.inj heq ▸ hn)
    · exact hsame.prev n fun hmem => hnodes n hmem hn
    · exact hsame.next n fun hmem => hnodes n hmem hn

/-- **A result in stack memory is taken out** of the groups of its reference. -/
theorem ListsGroups.findGroupToRemove {fuel : ℕ} (h : s.ListsGroups a gs)
    (hd : DescendingGroups s.position gs) (hl : (members gs).Nodup)
    (hm : (s.data x).isStackMemory = true) (hx : x ∈ members gs)
    (ha : ∀ n ∈ members gs, a ≠ .nextLowerTempStack n) (hfuel : gs.length ≤ fuel) :
    ∃ b s', s.findGroupToRemove x fuel a = some b ∧ s.removeFromGroup x b = some s' ∧
      s'.ListsGroups a (eraseGroup s.position x gs) ∧ SameOutside s s' a (members gs) := by
  induction hd generalizing a fuel with
  | nil => exact nomatch hx
  | @cons g gs hkey hlower hd ih =>
      obtain _ | fuel := fuel
      · exact absurd hfuel (by simp)
      have hread : s.read a = some g.top := h.1.head
      rw [CompilerStack.findGroupToRemove, eraseGroup, hread]
      by_cases hxg : x ∈ g.members
      · obtain ⟨s', hs', hlists, hsame⟩ := h.removeFromGroup hl hm ha hxg
        simp only [if_pos (hkey x hxg)]
        exact ⟨a, s', rfl, hs', hlists, hsame.mono fun n hn => List.mem_append_left _ hn⟩
      · have hxgs : x ∈ members gs := (List.mem_append.mp hx).resolve_left hxg
        have hlt := hlower x hxgs
        have hl' := List.nodup_append.mp hl
        have hlower_ne : ∀ n ∈ members gs,
            (GroupReference.nextLowerTempStack g.top) ≠ .nextLowerTempStack n := by
          rintro n hn heq
          obtain rfl : g.top = n := GroupReference.nextLowerTempStack.inj heq
          exact hl'.2.2 g.top List.mem_cons_self g.top hn rfl
        obtain ⟨b, s', hfind, hs', hlists, hsame⟩ :=
          ih h.2 hl'.2.1 hxgs hlower_ne (by simpa using hfuel)
        simp only [if_neg hlt.ne, if_neg hlt.not_gt]
        refine ⟨b, s', hfind, hs', h.above hsame hlists (fun n hn hg => ?_) (fun n hn => ?_),
          hsame.lower ?_ fun n hn => List.mem_append_right _ hn⟩
        · exact hl'.2.2 n hg n hn rfl
        · refine ha n ?_
          rcases List.mem_cons.mp hn with rfl | hn
          · exact List.mem_append_left _ List.mem_cons_self
          · exact List.mem_append_right _ hn
        · exact List.mem_append_left _ List.mem_cons_self

end CompilerStack

end WasmCompiler
