import WasmCompiler.OccurrenceGroups

/-!
# The Occurrence Lists of the Compiler Stack

The invariant of the reference table over whole runs of stack operations. An element is live
from when it is listed until it is removed from its list; `Tracked` keeps the live elements
beside the compiler stack, and `OccurrenceLists` says that every entry of the table lists
exactly the live elements that refer to it. The operations may be performed in any order, as
long as an element is listed at most once (`Operation.Allowed`).

A result in stack memory comes with the entry of the temporary stack slots, or with that of
a local that is held in memory itself; it is put in such a local's list only when no other
occurrence of the local is left in it. So an entry lists either results in stack memory or
other elements (`Fits`).

## Main results

* `OccurrenceLists.addReference`, `OccurrenceLists.removeReference`: one reference.
* `Operation.step_spec`: one operation keeps the invariant.
* `runOperations_occurrenceLists`: every run keeps it, and no assertion fails.
-/

namespace WasmCompiler

open CompilerStack

/-! ### The invariant -/

/-- The live elements that refer to an entry. -/
def occurrences (m : ReferenceMap) (s : CompilerStack) (live : List ℕ) (position : ℕ) :
    List ℕ :=
  live.filter fun n => m.getReferencePosition (s.data n) = position

/-- An entry heads a list of its live elements, or, if they are results in stack memory, the
groups of those with the same position, in strictly descending order. -/
inductive EntryInvariant (m : ReferenceMap) (s : CompilerStack) (live : List ℕ)
    (position : ℕ) : Prop where
  | list (l : List ℕ) (h : s.Lists (.majorReference position) l)
      (hperm : l.Perm (occurrences m s live position))
      (hmemory : ∀ n ∈ l, (s.data n).isStackMemory = false)
  | groups (gs : List (Group ℕ)) (h : s.ListsGroups (.majorReference position) gs)
      (hperm : (members gs).Perm (occurrences m s live position))
      (hmemory : ∀ n ∈ members gs, (s.data n).isStackMemory = true)
      (hd : DescendingGroups s.position gs)

/-- **The invariant of the reference table.** -/
structure OccurrenceLists (m : ReferenceMap) (s : CompilerStack) (live : List ℕ) : Prop where
  nodup : live.Nodup
  onStack : ∀ n ∈ live, n ∈ s.stack
  variable_ : ∀ n ∈ live, (s.data n).isVariable = true
  entries : ∀ position, EntryInvariant m s live position

/-- An element may join its entry: this lists either results in stack memory or other
elements. -/
def Fits (m : ReferenceMap) (s : CompilerStack) (live : List ℕ) (d : ElementData) : Prop :=
  ∀ n ∈ live, m.getReferencePosition (s.data n) = m.getReferencePosition d →
    (s.data n).isStackMemory = d.isStackMemory

variable {m : ReferenceMap} {s s' : CompilerStack} {live live' nodes : List ℕ}
  {position fuel x : ℕ} {d : ElementData}

/-- The elements of an entry. -/
theorem mem_occurrences {n : ℕ} : n ∈ occurrences m s live position ↔
    n ∈ live ∧ m.getReferencePosition (s.data n) = position := by
  simp [occurrences]

/-- The elements of an entry are distinct. -/
theorem nodup_occurrences (h : live.Nodup) : (occurrences m s live position).Nodup :=
  h.filter _

/-- Only the data of live elements matter. -/
theorem occurrences_congr (h : ∀ n ∈ live, s'.data n = s.data n) :
    occurrences m s' live position = occurrences m s live position := by
  refine List.filter_congr fun n hn => ?_
  rw [h n hn]

/-- One more element. -/
theorem occurrences_cons : occurrences m s (x :: live) position =
    if m.getReferencePosition (s.data x) = position then x :: occurrences m s live position
    else occurrences m s live position := by
  simp [occurrences, List.filter_cons]

/-- One element less. -/
theorem occurrences_erase (h : live.Nodup) : occurrences m s (live.erase x) position =
    (occurrences m s live position).erase x := by
  rw [occurrences, occurrences, h.erase_eq_filter, List.Nodup.erase_eq_filter (h.filter _),
    List.filter_filter, List.filter_filter]
  exact List.filter_congr fun n _ => Bool.and_comm _ _

/-- Order depends on the data of the elements. -/
theorem DescendingGroups.congr {key key' : ℕ → ℕ} {gs : List (Group ℕ)}
    (h : DescendingGroups key gs) (hkey : ∀ n ∈ members gs, key' n = key n) :
    DescendingGroups key' gs := by
  induction h with
  | nil => exact .nil
  | @cons g gs hg hlower h ih =>
      have hleft : ∀ n ∈ g.members, key' n = key n :=
        fun n hn => hkey n (List.mem_append_left _ hn)
      have hright : ∀ n ∈ members gs, key' n = key n :=
        fun n hn => hkey n (List.mem_append_right _ hn)
      have htop : key' g.top = key g.top := hleft g.top List.mem_cons_self
      refine .cons (fun n hn => ?_) (fun n hn => ?_) (ih hright)
      · rw [hleft n hn, htop]
        exact hg n hn
      · rw [hright n hn, htop]
        exact hlower n hn

namespace EntryInvariant

/-- An entry without results in stack memory. -/
theorem toList (h : EntryInvariant m s live position)
    (hmemory : ∀ n ∈ occurrences m s live position, (s.data n).isStackMemory = false) :
    ∃ l, s.Lists (.majorReference position) l ∧ l.Perm (occurrences m s live position) := by
  cases h with
  | list l h hperm _ => exact ⟨l, h, hperm⟩
  | groups gs h hperm hmemory' _ =>
      cases gs with
      | nil => exact ⟨[], ⟨h, trivial⟩, hperm⟩
      | cons g gs =>
          have hmem : g.top ∈ members (g :: gs) := Group.top_mem_members List.mem_cons_self
          have hfalse := hmemory g.top (hperm.mem_iff.mp hmem)
          rw [hmemory' g.top hmem] at hfalse
          exact nomatch hfalse

/-- An entry of results in stack memory. -/
theorem toGroups (h : EntryInvariant m s live position)
    (hmemory : ∀ n ∈ occurrences m s live position, (s.data n).isStackMemory = true) :
    ∃ gs, s.ListsGroups (.majorReference position) gs ∧
      (members gs).Perm (occurrences m s live position) ∧
      DescendingGroups s.position gs := by
  cases h with
  | groups gs h hperm _ hd => exact ⟨gs, h, hperm, hd⟩
  | list l h hperm hmemory' =>
      cases l with
      | nil => exact ⟨[], h.head, hperm, .nil⟩
      | cons n l =>
          have htrue := hmemory n (hperm.mem_iff.mp List.mem_cons_self)
          rw [hmemory' n List.mem_cons_self] at htrue
          exact nomatch htrue

/-- An entry whose elements are left alone. -/
theorem congr (h : EntryInvariant m s live position)
    (hread : s'.read (.majorReference position) = s.read (.majorReference position))
    (hocc : occurrences m s' live' position = occurrences m s live position)
    (hlower : ∀ n ∈ occurrences m s live position,
      s'.read (.nextLowerTempStack n) = s.read (.nextLowerTempStack n))
    (hprev : ∀ n ∈ occurrences m s live position, s'.prev n = s.prev n)
    (hnext : ∀ n ∈ occurrences m s live position, s'.next n = s.next n)
    (hdata : ∀ n ∈ occurrences m s live position, s'.data n = s.data n) :
    EntryInvariant m s' live' position := by
  cases h with
  | list l h hperm hmemory =>
      have hmem : ∀ n ∈ l, n ∈ occurrences m s live position := fun n => hperm.mem_iff.mp
      refine .list l (h.congr hread (fun n hn => hprev n (hmem n hn))
        (fun n hn => hnext n (hmem n hn))) (hocc ▸ hperm) fun n hn => ?_
      rw [hdata n (hmem n hn)]
      exact hmemory n hn
  | groups gs h hperm hmemory hd =>
      have hmem : ∀ n ∈ members gs, n ∈ occurrences m s live position :=
        fun n => hperm.mem_iff.mp
      refine .groups gs (h.congr hread (fun n hn => hlower n (hmem n hn))
        (fun n hn => hprev n (hmem n hn)) (fun n hn => hnext n (hmem n hn))) (hocc ▸ hperm)
        (fun n hn => ?_) (hd.congr fun n hn => ?_)
      · rw [hdata n (hmem n hn)]
        exact hmemory n hn
      · rw [CompilerStack.position, CompilerStack.position, hdata n (hmem n hn)]

/-- An entry beside the one whose elements have changed. -/
theorem other {i : ℕ} (h : EntryInvariant m s live position)
    (hs : SameOutside s s' (.majorReference i) nodes) (hi : position ≠ i)
    (hocc : occurrences m s' live' position = occurrences m s live position)
    (hnodes : ∀ n ∈ nodes, n ∉ occurrences m s live position) :
    EntryInvariant m s' live' position := by
  refine h.congr (hs.read _ ?_ ?_) hocc (fun n hn => hs.read _ ?_ ?_)
    (fun n hn => hs.prev n fun hmem => hnodes n hmem hn)
    (fun n hn => hs.next n fun hmem => hnodes n hmem hn) (fun n _ => by rw [hs.data])
  · exact fun heq => hi (GroupReference.majorReference.inj heq)
  · exact fun n _ => GroupReference.noConfusion
  · exact GroupReference.noConfusion
  · rintro k hk heq
    exact hnodes k hk (GroupReference.nextLowerTempStack.inj heq ▸ hn)

end EntryInvariant

/-! ### Adding and removing references -/

/-- An entry has at most as many groups as live elements. -/
theorem length_le_of_perm {gs : List (Group ℕ)}
    (hperm : (members gs).Perm (occurrences m s live position)) : gs.length ≤ live.length := by
  have hmembers : gs.length ≤ (members gs).length := by
    clear hperm
    induction gs with
    | nil => exact Nat.le_refl _
    | cons g gs ih => simp [Group.members]; omega
  have hfilter := List.length_filter_le
    (fun n => decide (m.getReferencePosition (s.data n) = position)) live
  rw [hperm.length_eq] at hmembers
  exact hmembers.trans hfilter

/-- Listing an element lists it in its entry. -/
theorem EntryInvariant.addReference {i : ℕ} (h : EntryInvariant m s live i) (hl : live.Nodup)
    (hx : x ∉ live) (hi : m.getReferencePosition (s.data x) = i)
    (hvar : (s.data x).isVariable = true) (hfits : Fits m s live (s.data x))
    (hfuel : live.length ≤ fuel) :
    ∃ s', s.addReference m fuel x = some s' ∧ EntryInvariant m s' (x :: live) i ∧
      SameOutside s s' (.majorReference i) (x :: occurrences m s live i) := by
  have hxocc : x ∉ occurrences m s live i := fun hmem => hx (mem_occurrences.mp hmem).1
  have hnodup : (occurrences m s live i).Nodup := nodup_occurrences hl
  have hmemory : ∀ n ∈ occurrences m s live i,
      (s.data n).isStackMemory = (s.data x).isStackMemory := by
    intro n hn
    obtain ⟨hnl, hni⟩ := mem_occurrences.mp hn
    exact hfits n hnl (hni.trans hi.symm)
  have hne : ∀ n, (GroupReference.majorReference i) ≠ .nextLowerTempStack n :=
    fun n => GroupReference.noConfusion
  have hconst : s.data x ≠ .constant := by
    intro heq
    rw [heq] at hvar
    exact nomatch hvar
  have hocc : ∀ t : CompilerStack, t.data = s.data →
      occurrences m t (x :: live) i = x :: occurrences m s live i := by
    intro t ht
    rw [@occurrences_congr m s t _ i (fun n _ => by rw [ht]), occurrences_cons, if_pos hi]
  rw [CompilerStack.addReference, if_neg hconst, if_pos hvar, hi]
  cases hm : (s.data x).isStackMemory with
  | true =>
      rw [hm] at hmemory
      obtain ⟨gs, hgs, hperm, hd⟩ := h.toGroups hmemory
      have hmem : ∀ n, n ∈ members gs ↔ n ∈ occurrences m s live i := fun n => hperm.mem_iff
      obtain ⟨s₁, b, hprepare, hlists, hsame⟩ := hgs.prepareGroup hm
        (fun hmem' => hxocc ((hmem x).mp hmem')) (hperm.nodup_iff.mpr hnodup)
        (fun n _ => hne n) ((length_le_of_perm hperm).trans hfuel)
      have hins := members_insertGroup s.position x gs
      refine ⟨_, by simp only [hprepare]; rfl, .groups _ hlists ?_ (fun n hn => ?_) ?_,
        hsame.mono fun n hn => ?_⟩
      · rw [hocc _ hsame.data]
        exact hins.trans (hperm.cons x)
      · rw [hsame.data]
        rcases List.mem_cons.mp (hins.mem_iff.mp hn) with rfl | hn
        · exact hm
        · exact hmemory n ((hmem n).mp hn)
      · rw [position_eq hsame.data]
        exact hd.insert x
      · rcases List.mem_cons.mp hn with rfl | hn
        · exact List.mem_cons_self
        · exact List.mem_cons_of_mem _ ((hmem n).mp hn)
  | false =>
      rw [hm] at hmemory
      obtain ⟨l, hlist, hperm⟩ := h.toList hmemory
      have hmem : ∀ n, n ∈ l ↔ n ∈ occurrences m s live i := fun n => hperm.mem_iff
      have hsame := @Lists.linkTop_same s x _ l hlist
      refine ⟨s.linkTop x (.majorReference i), ?_, .list (x :: l) (hlist.linkTop
        (fun hmem' => hxocc ((hmem x).mp hmem')) (hperm.nodup_iff.mpr hnodup)) ?_
        (fun n hn => ?_), hsame.mono fun n hn => ?_⟩
      · simp [CompilerStack.prepareGroup, hm]
      · rw [hocc _ hsame.data]
        exact hperm.cons x
      · rw [hsame.data]
        rcases List.mem_cons.mp hn with rfl | hn
        · exact hm
        · exact hmemory n ((hmem n).mp hn)
      · rcases List.mem_cons.mp hn with rfl | hn
        · exact List.mem_cons_self
        · exact List.mem_cons_of_mem _ ((hmem n).mp hn)

/-- Removing an element takes it out of its entry. -/
theorem EntryInvariant.removeReference {i : ℕ} (h : EntryInvariant m s live i)
    (hl : live.Nodup) (hx : x ∈ live) (hi : m.getReferencePosition (s.data x) = i)
    (hvar : (s.data x).isVariable = true) (hfuel : live.length ≤ fuel) :
    ∃ s', s.removeReference m fuel x = some s' ∧ EntryInvariant m s' (live.erase x) i ∧
      SameOutside s s' (.majorReference i) (occurrences m s live i) := by
  have hxocc : x ∈ occurrences m s live i := mem_occurrences.mpr ⟨hx, hi⟩
  have hnodup : (occurrences m s live i).Nodup := nodup_occurrences hl
  have hne : ∀ n, (GroupReference.majorReference i) ≠ .nextLowerTempStack n :=
    fun n => GroupReference.noConfusion
  have hnone : ¬ (s.data x = .constant ∨ s.data x = .invalid ∨ s.data x = .deferredAction) := by
    rintro (heq | heq | heq) <;> rw [heq] at hvar <;> exact nomatch hvar
  have hocc : ∀ t : CompilerStack, t.data = s.data →
      occurrences m t (live.erase x) i = (occurrences m s live i).erase x := by
    intro t ht
    rw [@occurrences_congr m s t _ i (fun n _ => by rw [ht]), occurrences_erase hl]
  rw [CompilerStack.removeReference, if_neg hnone, if_pos hvar, hi]
  cases h with
  | groups gs hgs hperm hmemory hd =>
      have hmem : ∀ n, n ∈ members gs ↔ n ∈ occurrences m s live i := fun n => hperm.mem_iff
      have hxgs := (hmem x).mpr hxocc
      have hm := hmemory x hxgs
      obtain ⟨b, s', hfind, hs', hlists, hsame⟩ := hgs.findGroupToRemove hd
        (hperm.nodup_iff.mpr hnodup) hm hxgs (fun n _ => hne n)
        ((length_le_of_perm hperm).trans hfuel)
      have herase := members_eraseGroup hd hxgs
      have hread : s.read (.majorReference i) ≠ none := by
        cases gs with
        | nil => exact nomatch hxgs
        | cons g gs =>
            rw [hgs.1.head]
            exact Option.some_ne_none _
      refine ⟨s', ?_, .groups _ hlists ?_ (fun n hn => ?_) ?_, hsame.mono fun n => (hmem n).mp⟩
      · simp only [if_neg hread, if_pos hm, hfind]
        exact hs'
      · rw [hocc s' hsame.data]
        have hcons := herase.trans (hperm.trans (List.perm_cons_erase hxocc))
        exact hcons.cons_inv
      · rw [hsame.data]
        exact hmemory n (herase.mem_iff.mp (List.mem_cons_of_mem _ hn))
      · rw [position_eq hsame.data]
        exact hd.erase hxgs
  | list l hlist hperm hmemory =>
      have hmem : ∀ n, n ∈ l ↔ n ∈ occurrences m s live i := fun n => hperm.mem_iff
      have hxl := (hmem x).mpr hxocc
      have hm := hmemory x hxl
      have hmf : ¬ (s.data x).isStackMemory = true := by simp [hm]
      obtain ⟨l₁, l₂, rfl⟩ := List.append_of_mem hxl
      obtain ⟨s', hs', hlist', hsame⟩ :=
        hlist.removeFromGroup (hperm.nodup_iff.mpr hnodup) hm
      have hread : s.read (.majorReference i) ≠ none := by
        rw [hlist.head]
        cases l₁ <;> exact Option.some_ne_none _
      refine ⟨s', ?_, .list _ hlist' ?_ (fun n hn => ?_), hsame.mono fun n => (hmem n).mp⟩
      · simp only [if_neg hread, if_neg hmf]
        exact hs'
      · rw [hocc s' hsame.data]
        have hcons := List.perm_middle.symm.trans (hperm.trans (List.perm_cons_erase hxocc))
        exact hcons.cons_inv
      · rw [hsame.data]
        refine hmemory n ?_
        rcases List.mem_append.mp hn with hn | hn
        · exact List.mem_append_left _ hn
        · exact List.mem_append_right _ (List.mem_cons_of_mem _ hn)

namespace OccurrenceLists

/-- **Adding a reference** lists the element. -/
theorem addReference (h : OccurrenceLists m s live) (hx : x ∉ live) (hstack : x ∈ s.stack)
    (hvar : (s.data x).isVariable = true) (hfits : Fits m s live (s.data x))
    (hfuel : live.length ≤ fuel) :
    ∃ s', s.addReference m fuel x = some s' ∧ OccurrenceLists m s' (x :: live) ∧
      s'.data = s.data ∧ s'.stack = s.stack := by
  obtain ⟨s', hs', hentry, hsame⟩ := (h.entries _).addReference h.nodup hx rfl hvar hfits hfuel
  refine ⟨s', hs', ⟨List.nodup_cons.mpr ⟨hx, h.nodup⟩, fun n hn => ?_, fun n hn => ?_,
    fun j => ?_⟩, hsame.data, hsame.stack⟩
  · rw [hsame.stack]
    rcases List.mem_cons.mp hn with rfl | hn
    · exact hstack
    · exact h.onStack n hn
  · rw [hsame.data]
    rcases List.mem_cons.mp hn with rfl | hn
    · exact hvar
    · exact h.variable_ n hn
  · by_cases hj : m.getReferencePosition (s.data x) = j
    · exact hj ▸ hentry
    · refine (h.entries j).other hsame (Ne.symm hj) ?_ fun n hn hn' => ?_
      · rw [@occurrences_congr m s s' _ j (fun n _ => by rw [hsame.data]), occurrences_cons,
          if_neg hj]
      · obtain ⟨hnl, hnj⟩ := mem_occurrences.mp hn'
        rcases List.mem_cons.mp hn with rfl | hn
        · exact hx hnl
        · exact hj ((mem_occurrences.mp hn).2.symm.trans hnj)

/-- **Removing a reference** takes the element out of its list. -/
theorem removeReference (h : OccurrenceLists m s live) (hx : x ∈ live)
    (hfuel : live.length ≤ fuel) :
    ∃ s', s.removeReference m fuel x = some s' ∧ OccurrenceLists m s' (live.erase x) ∧
      s'.data = s.data ∧ s'.stack = s.stack := by
  obtain ⟨s', hs', hentry, hsame⟩ :=
    (h.entries _).removeReference h.nodup hx rfl (h.variable_ x hx) hfuel
  refine ⟨s', hs', ⟨h.nodup.erase x, fun n hn => ?_, fun n hn => ?_, fun j => ?_⟩, hsame.data,
    hsame.stack⟩
  · rw [hsame.stack]
    exact h.onStack n (List.mem_of_mem_erase hn)
  · rw [hsame.data]
    exact h.variable_ n (List.mem_of_mem_erase hn)
  · by_cases hj : m.getReferencePosition (s.data x) = j
    · exact hj ▸ hentry
    · have hxj : x ∉ occurrences m s live j := fun hmem => hj (mem_occurrences.mp hmem).2
      refine (h.entries j).other hsame (Ne.symm hj) ?_ fun n hn hn' => ?_
      · rw [@occurrences_congr m s s' _ j (fun n _ => by rw [hsame.data]), occurrences_erase h.nodup,
          List.erase_of_not_mem hxj]
      · exact hj ((mem_occurrences.mp hn).2.symm.trans (mem_occurrences.mp hn').2)

/-- **Elements that are not live do not matter.** -/
theorem congr (h : OccurrenceLists m s live) (hsub : ∀ n ∈ live, n ∈ s'.stack)
    (helements : ∀ n ∈ live, s'.elements n = s.elements n)
    (hreferences : s'.referencesToLastOccurrenceOnStack = s.referencesToLastOccurrenceOnStack) :
    OccurrenceLists m s' live := by
  have hdata : ∀ n ∈ live, s'.data n = s.data n := by
    intro n hn
    rw [CompilerStack.data, CompilerStack.data, helements n hn]
  refine ⟨h.nodup, hsub, fun n hn => ?_, fun j => ?_⟩
  · rw [hdata n hn]
    exact h.variable_ n hn
  · have hlive : ∀ n ∈ occurrences m s live j, s'.elements n = s.elements n :=
      fun n hn => helements n (mem_occurrences.mp hn).1
    refine (h.entries j).congr ?_ (occurrences_congr hdata) (fun n hn => ?_) (fun n hn => ?_)
      (fun n hn => ?_) (fun n hn => ?_)
    · exact congrFun hreferences j
    · simp only [CompilerStack.read, hlive n hn]
    · simp only [CompilerStack.prev, hlive n hn]
    · simp only [CompilerStack.next, hlive n hn]
    · simp only [CompilerStack.data, hlive n hn]

/-- The head of an entry is empty exactly when no live element refers to it. -/
theorem head_eq_none_iff (h : OccurrenceLists m s live) (position : ℕ) :
    s.read (.majorReference position) = none ↔
      ∀ n ∈ live, m.getReferencePosition (s.data n) ≠ position := by
  have hempty : (∀ n ∈ live, m.getReferencePosition (s.data n) ≠ position) ↔
      occurrences m s live position = [] := by
    simp [occurrences, List.filter_eq_nil_iff]
  rw [hempty]
  cases h.entries position with
  | list l hlist hperm _ =>
      rw [hlist.head, List.head?_eq_none_iff]
      constructor
      · rintro rfl
        exact hperm.symm.eq_nil
      · intro hnil
        rw [hnil] at hperm
        exact hperm.eq_nil
  | groups gs hgs hperm _ _ =>
      cases gs with
      | nil => exact ⟨fun _ => hperm.symm.eq_nil, fun _ => hgs⟩
      | cons g gs =>
          rw [hgs.1.head]
          constructor
          · exact fun hsome => nomatch hsome
          · intro hnil
            rw [hnil] at hperm
            exact nomatch hperm.eq_nil

end OccurrenceLists

/-! ### Operations on the compiler stack -/

/-- The operations. -/
inductive Operation where
  /-- Push an element without listing it, as for blocks and deferred actions. -/
  | pushOperandsToStack (node : ℕ) (element : StackElement)
  | pushAndUpdateReference (node : ℕ) (element : StackElement)
  | popAndUpdateReference
  | replaceAndUpdateReference (originalElement : ℕ) (newElement : StackElement)
  | addReference (element : ℕ)
  | removeReference (element : ℕ)
  /-- Erase an element that is in no list. -/
  | erase (element : ℕ)

/-- The compiler stack together with its live elements. -/
structure Tracked where
  stack : CompilerStack
  live : List ℕ

namespace Operation

/-- The live elements after one is listed: only variables are. -/
def list (s : CompilerStack) (live : List ℕ) (n : ℕ) : List ℕ :=
  if (s.data n).isVariable then n :: live else live

/-- Perform an operation. -/
def step (m : ReferenceMap) (fuel : ℕ) (op : Operation) (t : Tracked) : Option Tracked :=
  match op with
  | pushOperandsToStack node element =>
      some ⟨t.stack.pushOperandsToStack node element, t.live⟩
  | pushAndUpdateReference node element => do
      let s ← t.stack.pushAndUpdateReference m fuel node element
      some ⟨s, list s t.live node⟩
  | popAndUpdateReference => do
      let s ← t.stack.popAndUpdateReference m fuel
      some ⟨s, t.stack.stack.getLast?.elim t.live t.live.erase⟩
  | replaceAndUpdateReference originalElement newElement => do
      let s ← t.stack.replaceAndUpdateReference m fuel originalElement newElement
      some ⟨s, list s (t.live.erase originalElement) originalElement⟩
  | addReference element => do
      let s ← t.stack.addReference m fuel element
      some ⟨s, list s t.live element⟩
  | removeReference element => do
      let s ← t.stack.removeReference m fuel element
      some ⟨s, t.live.erase element⟩
  | erase element => some ⟨{ t.stack with stack := t.stack.stack.erase element }, t.live⟩

/-- An element may be listed: it is a variable that fits its entry, or a constant. -/
def Listable (m : ReferenceMap) (s : CompilerStack) (live : List ℕ) (d : ElementData) : Prop :=
  d = .constant ∨ (d.isVariable = true ∧ Fits m s live d)

/-- An element may be removed from its list: a variable is in one. -/
def Removable (s : CompilerStack) (live : List ℕ) (n : ℕ) : Prop :=
  n ∈ live ∨ s.data n = .constant ∨ s.data n = .invalid ∨ s.data n = .deferredAction

/-- When an operation may be performed: nodes that are pushed are not in use, and no element
is listed twice or removed from a list that it is not in. -/
def Allowed (m : ReferenceMap) (op : Operation) (t : Tracked) : Prop :=
  match op with
  | pushOperandsToStack node _ => node ∉ t.stack.stack
  | pushAndUpdateReference node element =>
      node ∉ t.stack.stack ∧ Listable m t.stack t.live element.data
  | popAndUpdateReference =>
      match t.stack.stack.getLast? with
      | none => False
      | some last => Removable t.stack t.live last
  | replaceAndUpdateReference originalElement newElement =>
      originalElement ∈ t.stack.stack ∧ Removable t.stack t.live originalElement ∧
        Listable m t.stack (t.live.erase originalElement) newElement.data
  | addReference element =>
      element ∈ t.stack.stack ∧ element ∉ t.live ∧
        Listable m t.stack t.live (t.stack.data element)
  | removeReference element => Removable t.stack t.live element
  | erase element => element ∉ t.live

/-- Listing an element, or nothing if it is a constant. -/
theorem list_spec (h : OccurrenceLists m s live) (hx : x ∉ live) (hstack : x ∈ s.stack)
    (hl : Listable m s live (s.data x)) (hfuel : live.length ≤ fuel) :
    ∃ s', s.addReference m fuel x = some s' ∧ OccurrenceLists m s' (list s' live x) := by
  rcases hl with hconst | ⟨hvar, hfits⟩
  · refine ⟨s, if_pos hconst, ?_⟩
    rw [list, hconst]
    exact h
  · obtain ⟨s', hs', hlists, hdata, -⟩ := h.addReference hx hstack hvar hfits hfuel
    refine ⟨s', hs', ?_⟩
    rw [list, hdata, if_pos hvar]
    exact hlists

/-- Taking an element out of its list, or nothing if it is in none. -/
theorem remove_spec (h : OccurrenceLists m s live) (hr : Removable s live x)
    (hfuel : live.length ≤ fuel) :
    ∃ s', s.removeReference m fuel x = some s' ∧ OccurrenceLists m s' (live.erase x) ∧
      s'.data = s.data ∧ s'.stack = s.stack := by
  rcases hr with hx | hnone
  · exact h.removeReference hx hfuel
  · have hx : x ∉ live := by
      intro hx
      have hvar := h.variable_ x hx
      rcases hnone with heq | heq | heq <;> rw [heq] at hvar <;> exact nomatch hvar
    refine ⟨s, if_pos hnone, ?_, rfl, rfl⟩
    rw [List.erase_of_not_mem hx]
    exact h

/-- What fits depends on the data of live elements. -/
theorem Listable.congr (h : Listable m s live d)
    (hdata : ∀ n ∈ live, s'.data n = s.data n) : Listable m s' live d := by
  rcases h with hconst | ⟨hvar, hfits⟩
  · exact Or.inl hconst
  · refine Or.inr ⟨hvar, fun n hn hp => ?_⟩
    rw [hdata n hn] at hp ⊢
    exact hfits n hn hp

/-- Pushing an element that is not listed. -/
theorem push_spec (h : OccurrenceLists m s live) (element : StackElement)
    (hx : x ∉ s.stack) : OccurrenceLists m (s.pushOperandsToStack x element) live := by
  refine h.congr (fun n hn => List.mem_append_left _ (h.onStack n hn)) (fun n hn => ?_) rfl
  have hne : n ≠ x := fun hnx => hx (hnx ▸ h.onStack n hn)
  exact Function.update_of_ne hne _ _

/-- Overwriting an element that is not live. -/
theorem replace_spec (h : OccurrenceLists m s live) (element : StackElement) (hx : x ∉ live) :
    OccurrenceLists m (s.replaceInCondenseTree x element) live := by
  refine h.congr h.onStack (fun n hn => ?_) rfl
  have hne : n ≠ x := fun hnx => hx (hnx ▸ hn)
  exact Function.update_of_ne hne _ _

/-- **One operation keeps the invariant**, and none of its assertions fails. -/
theorem step_spec {op : Operation} {t : Tracked} (h : OccurrenceLists m t.stack t.live)
    (hop : op.Allowed m t) (hfuel : t.live.length ≤ fuel) :
    ∃ t', op.step m fuel t = some t' ∧ OccurrenceLists m t'.stack t'.live ∧
      t'.live.length ≤ t.live.length + 1 := by
  have hlist : ∀ (s : CompilerStack) (live : List ℕ) n,
      (list s live n).length ≤ live.length + 1 := by
    intro s live n
    rw [list]
    split <;> simp
  have herase : ∀ n, (t.live.erase n).length ≤ t.live.length := fun n => List.length_erase_le
  cases op with
  | pushOperandsToStack node element =>
      exact ⟨_, rfl, push_spec h element hop, Nat.le_succ _⟩
  | pushAndUpdateReference node element =>
      obtain ⟨hnode, hl⟩ := hop
      have hpush := push_spec h element hnode
      have hlive : node ∉ t.live := fun hn => hnode (h.onStack node hn)
      have hdata : ∀ n ∈ t.live,
          (t.stack.pushOperandsToStack node element).data n = t.stack.data n := by
        intro n hn
        have hne : n ≠ node := fun hnx => hlive (hnx ▸ hn)
        simp [CompilerStack.data, CompilerStack.pushOperandsToStack, hne]
      have hself : (t.stack.pushOperandsToStack node element).data node = element.data := by
        simp [CompilerStack.data, CompilerStack.pushOperandsToStack]
      obtain ⟨s', hs', hlists⟩ := list_spec hpush hlive
        (List.mem_append_right _ (List.mem_singleton.mpr rfl))
        (hself.symm ▸ hl.congr hdata) hfuel
      refine ⟨⟨s', list s' t.live node⟩, ?_, hlists, hlist _ _ _⟩
      simp [step, CompilerStack.pushAndUpdateReference, hs']
  | popAndUpdateReference =>
      rw [Allowed] at hop
      split at hop
      · exact hop.elim
      · rename_i last hlast
        obtain ⟨s', hs', hlists, -, hstack⟩ := remove_spec h hop hfuel
        refine ⟨⟨{ s' with stack := s'.stack.dropLast }, t.live.erase last⟩, ?_,
          hlists.congr (fun n hn => ?_) (fun n _ => rfl) rfl, (herase _).trans (Nat.le_succ _)⟩
        · simp [step, CompilerStack.popAndUpdateReference, hlast, hs']
        · have hne : n ≠ last := ((h.nodup.mem_erase_iff).mp hn).1
          have hmem := hlists.onStack n hn
          rw [hstack] at hmem ⊢
          rw [← List.dropLast_append_getLast? last hlast, List.mem_append] at hmem
          exact hmem.resolve_right fun hlast' => hne (List.mem_singleton.mp hlast')
  | replaceAndUpdateReference originalElement newElement =>
      obtain ⟨hstack, hr, hl⟩ := hop
      obtain ⟨s₁, hs₁, hlists₁, hdata₁, hstack₁⟩ := remove_spec h hr hfuel
      have hlive : originalElement ∉ t.live.erase originalElement := h.nodup.not_mem_erase
      have hreplace := replace_spec hlists₁ newElement hlive
      have hdata : ∀ n ∈ t.live.erase originalElement,
          (s₁.replaceInCondenseTree originalElement newElement).data n = t.stack.data n := by
        intro n hn
        have hne : n ≠ originalElement := fun hnx => hlive (hnx ▸ hn)
        rw [← hdata₁]
        simp [CompilerStack.data, CompilerStack.replaceInCondenseTree, hne]
      have hself : (s₁.replaceInCondenseTree originalElement newElement).data originalElement =
          newElement.data := by
        simp [CompilerStack.data, CompilerStack.replaceInCondenseTree]
      obtain ⟨s', hs', hlists⟩ := list_spec hreplace hlive
        (show originalElement ∈ s₁.stack from hstack₁ ▸ hstack)
        (hself.symm ▸ hl.congr hdata) ((herase _).trans hfuel)
      refine ⟨⟨s', list s' (t.live.erase originalElement) originalElement⟩, ?_, hlists,
        (hlist _ _ _).trans (Nat.succ_le_succ (herase _))⟩
      simp [step, CompilerStack.replaceAndUpdateReference, hs₁, hs']
  | addReference element =>
      obtain ⟨hstack, hlive, hl⟩ := hop
      obtain ⟨s', hs', hlists⟩ := list_spec h hlive hstack hl hfuel
      exact ⟨⟨s', list s' t.live element⟩, by simp [step, hs'], hlists, hlist _ _ _⟩
  | removeReference element =>
      obtain ⟨s', hs', hlists, -, -⟩ := remove_spec h hop hfuel
      exact ⟨⟨s', t.live.erase element⟩, by simp [step, hs'], hlists,
        (herase _).trans (Nat.le_succ _)⟩
  | erase element =>
      refine ⟨_, rfl, h.congr (fun n hn => ?_) (fun n _ => rfl) rfl, Nat.le_succ _⟩
      have hne : n ≠ element := fun hnx => hop (hnx ▸ hn)
      exact (List.mem_erase_of_ne hne).mpr (h.onStack n hn)

end Operation

/-! ### Runs -/

/-- Perform operations one after the other. -/
def runOperations (m : ReferenceMap) (fuel : ℕ) : List Operation → Tracked → Option Tracked
  | [], t => some t
  | op :: ops, t => do
      let t ← op.step m fuel t
      runOperations m fuel ops t

/-- Every operation of a run may be performed where it stands. -/
def AllowedRun (m : ReferenceMap) (fuel : ℕ) : List Operation → Tracked → Prop
  | [], _ => True
  | op :: ops, t => op.Allowed m t ∧ ∀ t', op.step m fuel t = some t' → AllowedRun m fuel ops t'

/-- Whether an element may be listed can be computed. -/
instance : Decidable (Operation.Listable m s live d) :=
  inferInstanceAs (Decidable (d = .constant ∨ (d.isVariable = true ∧
    ∀ n ∈ live, m.getReferencePosition (s.data n) = m.getReferencePosition d →
      (s.data n).isStackMemory = d.isStackMemory)))

/-- Whether an element may be removed from its list can be computed. -/
instance : Decidable (Operation.Removable s live x) :=
  inferInstanceAs (Decidable (x ∈ live ∨ s.data x = .constant ∨ s.data x = .invalid ∨
    s.data x = .deferredAction))

/-- Whether an operation may be performed can be computed. -/
instance Operation.Allowed.decidable (m : ReferenceMap) (op : Operation) (t : Tracked) :
    Decidable (op.Allowed m t) :=
  match op with
  | pushOperandsToStack node _ => inferInstanceAs (Decidable (node ∉ t.stack.stack))
  | pushAndUpdateReference node element =>
      inferInstanceAs (Decidable (node ∉ t.stack.stack ∧
        Listable m t.stack t.live element.data))
  | popAndUpdateReference =>
      match h : t.stack.stack.getLast? with
      | none => isFalse (by rw [Allowed, h]; exact id)
      | some last => decidable_of_iff (Removable t.stack t.live last) (by rw [Allowed, h])
  | replaceAndUpdateReference originalElement newElement =>
      inferInstanceAs (Decidable (originalElement ∈ t.stack.stack ∧
        Removable t.stack t.live originalElement ∧
          Listable m t.stack (t.live.erase originalElement) newElement.data))
  | addReference element =>
      inferInstanceAs (Decidable (element ∈ t.stack.stack ∧ element ∉ t.live ∧
        Listable m t.stack t.live (t.stack.data element)))
  | removeReference element => inferInstanceAs (Decidable (Removable t.stack t.live element))
  | erase element => inferInstanceAs (Decidable (element ∉ t.live))

/-- Whether a run may be performed can be computed. -/
instance AllowedRun.decidable (m : ReferenceMap) (fuel : ℕ) :
    (ops : List Operation) → (t : Tracked) → Decidable (AllowedRun m fuel ops t)
  | [], _ => isTrue trivial
  | op :: ops, t =>
      match h : op.step m fuel t with
      | none =>
          decidable_of_iff (op.Allowed m t)
            ⟨fun ha => ⟨ha, fun _ ht' => nomatch h.symm.trans ht'⟩, And.left⟩
      | some t₁ =>
          haveI := AllowedRun.decidable m fuel ops t₁
          decidable_of_iff (op.Allowed m t ∧ AllowedRun m fuel ops t₁)
            ⟨fun ha => ⟨ha.1, fun _ ht' => Option.some.inj (h.symm.trans ht') ▸ ha.2⟩,
              fun ha => ⟨ha.1, ha.2 t₁ h⟩⟩

/-- An empty compiler stack with an empty reference table; what the allocator's nodes hold
does not matter. -/
def setupReferenceMap (elements : ℕ → StackElement) : Tracked where
  stack := ⟨elements, [], fun _ => none⟩
  live := []

/-- The invariant of an empty compiler stack. -/
theorem setupReferenceMap_occurrenceLists (m : ReferenceMap) (elements : ℕ → StackElement) :
    OccurrenceLists m (setupReferenceMap elements).stack (setupReferenceMap elements).live where
  nodup := List.nodup_nil
  onStack := fun _ hn => nomatch hn
  variable_ := fun _ hn => nomatch hn
  entries := fun _ =>
    .list [] ⟨rfl, trivial⟩ (List.Perm.refl _) fun _ hn => nomatch hn

/-- A run from any state with the invariant. -/
theorem OccurrenceLists.runOperations {ops : List Operation} {t : Tracked}
    (h : OccurrenceLists m t.stack t.live) (hops : AllowedRun m fuel ops t)
    (hfuel : t.live.length + ops.length ≤ fuel) :
    ∃ t', WasmCompiler.runOperations m fuel ops t = some t' ∧
      OccurrenceLists m t'.stack t'.live := by
  induction ops generalizing t with
  | nil => exact ⟨t, rfl, h⟩
  | cons op ops ih =>
      rw [List.length_cons] at hfuel
      have hfuel' : t.live.length ≤ fuel := by omega
      obtain ⟨t₁, ht₁, hlists, hlength⟩ := Operation.step_spec h hops.1 hfuel'
      obtain ⟨t', ht', hlists'⟩ := ih hlists (hops.2 t₁ ht₁) (by omega)
      exact ⟨t', by rw [WasmCompiler.runOperations, ht₁]; exact ht', hlists'⟩

/-- **Occurrence lists.** After every run of operations on the compiler stack, every entry of
the reference table heads a doubly linked list of exactly the live elements that refer to
it, each once, and is empty if there is none; the temporary stack slots are listed in one
group for each position, in strictly descending order. No assertion fails on the way. -/
theorem runOperations_occurrenceLists (m : ReferenceMap) (elements : ℕ → StackElement)
    (fuel : ℕ) (ops : List Operation) (hops : AllowedRun m fuel ops (setupReferenceMap elements))
    (hfuel : ops.length ≤ fuel) :
    ∃ t, runOperations m fuel ops (setupReferenceMap elements) = some t ∧
      OccurrenceLists m t.stack t.live ∧
      ∀ position, t.stack.read (.majorReference position) = none ↔
        ∀ n ∈ t.live, m.getReferencePosition (t.stack.data n) ≠ position := by
  have hempty := setupReferenceMap_occurrenceLists m elements
  have hlength : (setupReferenceMap elements).live.length + ops.length ≤ fuel := by
    rw [setupReferenceMap]
    simpa using hfuel
  obtain ⟨t, ht, hlists⟩ := hempty.runOperations hops hlength
  exact ⟨t, ht, hlists, hlists.head_eq_none_iff⟩

/-- An element that is not linked yet. -/
def unlinkedElement (d : ElementData) : StackElement where
  data := d
  indexData := ⟨none, none, none⟩
  parent := none
  sibling := none

/-- A local that becomes the third element of a group of temporary stack slots, is removed
from its top and listed again. -/
def mixedOperations : List Operation :=
  [.pushAndUpdateReference 0 (unlinkedElement (.local_ 0)),
    .pushAndUpdateReference 1 (unlinkedElement (.tempResult (.stackMemory 8) 9)),
    .pushAndUpdateReference 2 (unlinkedElement (.tempResult (.stackMemory 24) 9)),
    .pushAndUpdateReference 3 (unlinkedElement (.tempResult (.stackMemory 16) 9)),
    .pushAndUpdateReference 4 (unlinkedElement (.tempResult (.stackMemory 16) 9)),
    .replaceAndUpdateReference 0 (unlinkedElement (.tempResult (.stackMemory 16) 9)),
    .removeReference 0, .addReference 0, .removeReference 2, .popAndUpdateReference]

/-- The operations may be performed, and keep the occurrence lists. -/
theorem runOperations_occurrenceLists_mixedOperations :
    ∃ t, runOperations ⟨4, 2, 1⟩ 10 mixedOperations
        (setupReferenceMap fun _ => unlinkedElement .invalid) = some t ∧
      OccurrenceLists ⟨4, 2, 1⟩ t.stack t.live ∧
      ∀ position, t.stack.read (.majorReference position) = none ↔
        ∀ n ∈ t.live, (ReferenceMap.mk 4 2 1).getReferencePosition (t.stack.data n) ≠ position :=
  runOperations_occurrenceLists ⟨4, 2, 1⟩ _ 10 mixedOperations (by decide +kernel) (by decide)

end WasmCompiler
