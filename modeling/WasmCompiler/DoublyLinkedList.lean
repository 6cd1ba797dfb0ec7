import Mathlib

/-!
# Doubly Linked Lists

Lists of nodes threaded through two link functions. `DoublyLinked prev next above l` says
that `l`, written from its first node down, is linked both ways below `above`: `prev` leads
down to the next node of `l`, `next` back up. `DescendingGroups` orders nonempty groups of
nodes by a key: one group for each key, in strictly descending order of keys.

## Main results

* `DoublyLinked.push`: a new first node.
* `DoublyLinked.unlink`: a node taken out of the middle.
* `DescendingGroups.insert`, `DescendingGroups.erase`: groups stay ordered.
* `members_insertGroup`, `members_eraseGroup`: no node is lost or duplicated.
-/

namespace WasmCompiler

variable {α : Type}

/-! ### Linked nodes -/

/-- The nodes of `l` are linked both ways, the first one to `above`. -/
def DoublyLinked (prev next : α → Option α) : Option α → List α → Prop
  | _, [] => True
  | above, x :: l =>
      next x = above ∧ prev x = l.head? ∧ DoublyLinked prev next (some x) l

namespace DoublyLinked

variable {prev next prev' next' : α → Option α} {above : Option α} {l : List α}

/-- Links of other nodes do not matter. -/
theorem congr (h : DoublyLinked prev next above l) (hprev : ∀ x ∈ l, prev' x = prev x)
    (hnext : ∀ x ∈ l, next' x = next x) : DoublyLinked prev' next' above l := by
  induction l generalizing above with
  | nil => trivial
  | cons x l ih =>
      obtain ⟨hx, hx', hl⟩ := h
      refine ⟨(hnext x List.mem_cons_self).trans hx, (hprev x List.mem_cons_self).trans hx', ?_⟩
      exact ih hl (fun y hy => hprev y (List.mem_cons_of_mem _ hy))
        (fun y hy => hnext y (List.mem_cons_of_mem _ hy))

/-- The node below a node in the middle. -/
theorem prev_eq {a b : List α} {x : α} (h : DoublyLinked prev next above (a ++ x :: b)) :
    prev x = b.head? := by
  induction a generalizing above with
  | nil => exact h.2.1
  | cons y a ih => exact ih h.2.2

/-- The node above a node in the middle. -/
theorem next_eq {a b : List α} {x : α} (h : DoublyLinked prev next above (a ++ x :: b)) :
    (a = [] ∧ next x = above) ∨ ∃ y ∈ a, next x = some y := by
  induction a generalizing above with
  | nil => exact Or.inl ⟨rfl, h.1⟩
  | cons y a ih =>
      rcases ih h.2.2 with ⟨rfl, hx⟩ | ⟨z, hz, hx⟩
      · exact Or.inr ⟨y, List.mem_cons_self, hx⟩
      · exact Or.inr ⟨z, List.mem_cons_of_mem _ hz, hx⟩

variable [DecidableEq α]

/-- Link the first node of a list to a new node above it. -/
def linkHead (next : α → Option α) (x : α) : Option α → α → Option α
  | none => next
  | some y => Function.update next y (some x)

/-- **A new first node.** -/
theorem push {x : α} (h : DoublyLinked prev next none l) (hx : x ∉ l) (hl : l.Nodup) :
    DoublyLinked (Function.update prev x l.head?)
      (linkHead (Function.update next x none) x l.head?) none (x :: l) := by
  cases l with
  | nil => exact ⟨by simp [linkHead], by simp, trivial⟩
  | cons y l =>
      obtain ⟨hy, hy', hl'⟩ := h
      rw [List.mem_cons, not_or] at hx
      rw [List.nodup_cons] at hl
      refine ⟨?_, by simp, by simp [linkHead], ?_, ?_⟩
      · simp [linkHead, hx.1]
      · rw [Function.update_of_ne (Ne.symm hx.1)]
        exact hy'
      · refine hl'.congr (fun z hz => ?_) (fun z hz => ?_)
        · have hzx : z ≠ x := fun hzx => hx.2 (hzx ▸ hz)
          exact Function.update_of_ne hzx _ _
        · have hzy : z ≠ y := fun hzy => hl.1 (hzy ▸ hz)
          have hzx : z ≠ x := fun hzx => hx.2 (hzx ▸ hz)
          simp [linkHead, hzy, hzx]

/-- Link the node in a direction past a node that is taken out. -/
def bypass (link : α → Option α) (past : Option α) : Option α → α → Option α
  | none => link
  | some y => Function.update link y past

/-- Only the node itself is linked past. -/
theorem bypass_of_ne {link : α → Option α} {past at_ : Option α} {y : α} (h : at_ ≠ some y) :
    bypass link past at_ y = link y := by
  cases at_ with
  | none => rfl
  | some z => exact Function.update_of_ne (fun hyz => h (by rw [hyz])) _ _

/-- The node itself is linked past. -/
theorem bypass_self {link : α → Option α} {past : Option α} {y : α} :
    bypass link past (some y) y = past :=
  Function.update_self _ _ _

/-- **A node taken out of the middle.** -/
theorem unlink {a b : List α} {x : α} (h : DoublyLinked prev next above (a ++ x :: b))
    (hl : (a ++ x :: b).Nodup) (habove : ∀ y, above = some y → y ∉ a ++ x :: b) :
    DoublyLinked (bypass prev (prev x) (next x)) (bypass next (next x) (prev x)) above
      (a ++ b) := by
  have hprev := h.prev_eq
  induction a generalizing above with
  | nil =>
      obtain ⟨hx, -, hb⟩ := h
      have hbelow : ∀ y ∈ b, next x ≠ some y := by
        intro y hy hxy
        exact habove y (hx.symm.trans hxy) (List.mem_cons_of_mem _ hy)
      cases b with
      | nil => trivial
      | cons y b =>
          rw [List.head?_cons] at hprev
          refine ⟨?_, (bypass_of_ne (hbelow y List.mem_cons_self)).trans hb.2.1, ?_⟩
          · rw [hprev, bypass_self, hx]
          · refine hb.2.2.congr
              (fun z hz => bypass_of_ne (hbelow z (List.mem_cons_of_mem _ hz))) fun z hz => ?_
            refine bypass_of_ne fun hyz => ?_
            obtain rfl : y = z := Option.some.inj (hprev.symm.trans hyz)
            simp [List.nodup_cons, hz] at hl
  | cons y a ih =>
      obtain ⟨hy, hy', ha⟩ := h
      rw [List.cons_append, List.nodup_cons] at hl
      have hrest := ih ha hl.2 fun z hz => Option.some.inj hz ▸ hl.1
      refine ⟨?_, ?_, hrest⟩
      · refine (bypass_of_ne fun hxy => hl.1 ?_).trans hy
        rw [hprev] at hxy
        exact List.mem_append_right _ (List.mem_cons_of_mem _ (List.mem_of_mem_head? hxy))
      · cases a with
        | nil => rw [show next x = some y from ha.1, bypass_self, hprev]; rfl
        | cons z a =>
            refine (bypass_of_ne fun hxy => hl.1 ?_).trans hy'
            rcases ha.next_eq with ⟨hnil, -⟩ | ⟨w, hw, hxw⟩
            · exact nomatch hnil
            · obtain rfl : w = y := Option.some.inj (hxw.symm.trans hxy)
              exact List.mem_append_left _ hw

end DoublyLinked

/-! ### Groups of nodes -/

/-- A nonempty list of nodes, its first node apart. -/
structure Group (α : Type) where
  top : α
  rest : List α

/-- The nodes of a group. -/
def Group.members (g : Group α) : List α := g.top :: g.rest

/-- The nodes of all groups. -/
def members (gs : List (Group α)) : List α := gs.flatMap Group.members

@[simp] theorem members_nil : members ([] : List (Group α)) = [] := rfl

@[simp] theorem members_cons (g : Group α) (gs : List (Group α)) :
    members (g :: gs) = g.members ++ members gs := rfl

@[simp] theorem Group.members_mk (x : α) (l : List α) : (Group.mk x l).members = x :: l := rfl

/-- The first node of a group is one of its nodes. -/
theorem Group.top_mem_members {g : Group α} {gs : List (Group α)} (h : g ∈ gs) :
    g.top ∈ WasmCompiler.members gs :=
  List.mem_flatMap_of_mem h List.mem_cons_self

variable {κ : Type} [LinearOrder κ]

/-- One group for each key, in strictly descending order of keys. -/
inductive DescendingGroups (key : α → κ) : List (Group α) → Prop where
  | nil : DescendingGroups key []
  | cons {g : Group α} {gs : List (Group α)} (hkey : ∀ x ∈ g.members, key x = key g.top)
      (hlower : ∀ x ∈ members gs, key x < key g.top) (h : DescendingGroups key gs) :
      DescendingGroups key (g :: gs)

/-- Put a node on top of the group of its key, or in a group of its own. -/
def insertGroup (key : α → κ) (x : α) : List (Group α) → List (Group α)
  | [] => [⟨x, []⟩]
  | g :: gs =>
      if key g.top < key x then ⟨x, []⟩ :: g :: gs
      else if key x = key g.top then ⟨x, g.members⟩ :: gs
      else g :: insertGroup key x gs

/-- A group in front of others, unless it has become empty. -/
def consGroup : List α → List (Group α) → List (Group α)
  | [], gs => gs
  | y :: l, gs => ⟨y, l⟩ :: gs

@[simp] theorem members_consGroup (l : List α) (gs : List (Group α)) :
    members (consGroup l gs) = l ++ members gs := by
  cases l <;> rfl

/-- **No node is lost or duplicated** by an insertion. -/
theorem members_insertGroup (key : α → κ) (x : α) (gs : List (Group α)) :
    (members (insertGroup key x gs)).Perm (x :: members gs) := by
  induction gs with
  | nil => exact List.Perm.refl _
  | cons g gs ih =>
      rw [insertGroup]
      split
      · exact List.Perm.refl _
      · split
        · exact List.Perm.refl _
        · exact (ih.append_left g.members).trans List.perm_middle

/-- The order is kept by an insertion. -/
theorem DescendingGroups.insert {key : α → κ} {gs : List (Group α)}
    (h : DescendingGroups key gs) (x : α) : DescendingGroups key (insertGroup key x gs) := by
  induction h with
  | nil => exact .cons (by simp) (by simp) .nil
  | @cons g gs hkey hlower h ih =>
      rw [insertGroup]
      split
      · rename_i hlt
        refine .cons (by simp) (fun y hy => ?_) (.cons hkey hlower h)
        rcases List.mem_append.mp hy with hy | hy
        · exact (hkey y hy).trans_lt hlt
        · exact (hlower y hy).trans hlt
      · rename_i hnlt
        split
        · rename_i heq
          refine .cons (fun y hy => ?_) (fun y hy => ?_) h
          · rcases List.mem_cons.mp hy with rfl | hy
            · rfl
            · exact (hkey y hy).trans heq.symm
          · exact (hlower y hy).trans_eq heq.symm
        · rename_i hne
          have hlt : key x < key g.top := lt_of_le_of_ne (not_lt.mp hnlt) hne
          refine .cons hkey (fun y hy => ?_) ih
          rcases List.mem_cons.mp ((members_insertGroup key x gs).mem_iff.mp hy) with rfl | hy
          · exact hlt
          · exact hlower y hy

variable [DecidableEq α]

/-- Take a node out of the group of its key. -/
def eraseGroup (key : α → κ) (x : α) : List (Group α) → List (Group α)
  | [] => []
  | g :: gs =>
      if key x = key g.top then consGroup (g.members.erase x) gs
      else g :: eraseGroup key x gs

/-- **No other node is lost** when a node is taken out. -/
theorem members_eraseGroup {key : α → κ} {gs : List (Group α)} (h : DescendingGroups key gs)
    {x : α} (hx : x ∈ members gs) :
    (x :: members (eraseGroup key x gs)).Perm (members gs) := by
  induction h with
  | nil => exact nomatch hx
  | @cons g gs hkey hlower h ih =>
      rw [eraseGroup]
      rcases List.mem_append.mp hx with hx | hx
      · rw [if_pos (hkey x hx), members_consGroup, members_cons, ← List.cons_append]
        exact (List.perm_cons_erase hx).symm.append_right _
      · rw [if_neg (hlower x hx).ne]
        exact (List.perm_middle.symm.trans ((ih hx).append_left g.members) :)

/-- The order is kept when a node is taken out. -/
theorem DescendingGroups.erase {key : α → κ} {gs : List (Group α)}
    (h : DescendingGroups key gs) {x : α} (hx : x ∈ members gs) :
    DescendingGroups key (eraseGroup key x gs) := by
  induction h with
  | nil => exact nomatch hx
  | @cons g gs hkey hlower h ih =>
      rw [eraseGroup]
      rcases List.mem_append.mp hx with hx | hx
      · rw [if_pos (hkey x hx)]
        cases hl : g.members.erase x with
        | nil => exact h
        | cons y l =>
            have hmem : ∀ z ∈ y :: l, key z = key g.top :=
              fun z hz => hkey z (List.mem_of_mem_erase (hl ▸ hz))
            have hy := hmem y List.mem_cons_self
            exact .cons (fun z hz => (hmem z hz).trans hy.symm)
              (fun z hz => (hlower z hz).trans_eq hy.symm) h
      · rw [if_neg (hlower x hx).ne]
        refine .cons hkey (fun y hy => hlower y ?_) (ih hx)
        exact (members_eraseGroup h hx).mem_iff.mp (List.mem_cons_of_mem _ hy)

end WasmCompiler
