import Mathlib.Data.List.Chain

/-!
# Chains of Pointers

Nodes that name the next node, and nodes that name both neighbours. The lists of nodes are the
mathematical sequences that such chains stand for.

## Main results

* `Leads.congr`: links that do not matter.
* `Leads.walk_eq`: following the links yields the nodes.
* `Linked.congr`: the same for links both ways.
* `Linked.insert`, `Linked.erase`, `Linked.detach`, `Linked.attach`: what updates of the links do to
  a circle of nodes.
-/

namespace WasmCompiler

variable {K : Type}

/-! ### One way -/

/-- From `a` on, the links pass the nodes of the list and arrive at `b`. -/
def Leads (next : K → K) : K → List K → K → Prop
  | a, [], b => a = b
  | a, x :: l, b => a = x ∧ Leads next (next x) l b

namespace Leads

variable {next next' : K → K} {a b : K} {l l' : List K}

/-- Links of other nodes do not matter. -/
theorem congr (h : Leads next a l b) (hsame : ∀ x ∈ l, next' x = next x) :
    Leads next' a l b := by
  induction l generalizing a with
  | nil => exact h
  | cons x l ih =>
      obtain ⟨hx, hl⟩ := h
      refine ⟨hx, ?_⟩
      rw [hsame x List.mem_cons_self]
      exact ih hl fun y hy => hsame y (List.mem_cons_of_mem _ hy)

/-- A chain that starts at its end is empty, if it does not pass its end. -/
theorem eq_nil_iff (h : Leads next a l b) (hb : b ∉ l) : l = [] ↔ a = b := by
  constructor
  · rintro rfl
    exact h
  · rintro rfl
    cases l with
    | nil => rfl
    | cons x l =>
        obtain ⟨rfl, -⟩ := h
        exact absurd List.mem_cons_self hb

/-- The first node of a chain that is not empty. -/
theorem exists_cons (h : Leads next a l b) (hab : a ≠ b) :
    ∃ l', l = a :: l' ∧ Leads next (next a) l' b := by
  cases l with
  | nil => exact absurd h hab
  | cons x l =>
      obtain ⟨rfl, hl⟩ := h
      exact ⟨l, rfl, hl⟩

end Leads

/-- Follow the links until a node is reached. -/
def walkLinks [DecidableEq K] (next : K → K) (b : K) : ℕ → K → Option (List K)
  | 0, _ => none
  | fuel + 1, a => if a = b then some [] else (walkLinks next b fuel (next a)).map (a :: ·)

/-- **Following the links** yields the nodes. -/
theorem Leads.walk_eq [DecidableEq K] {next : K → K} {a b : K} {l : List K}
    (h : Leads next a l b) (hb : b ∉ l) {fuel : ℕ} (hfuel : l.length < fuel) :
    walkLinks next b fuel a = some l := by
  induction l generalizing a fuel with
  | nil =>
      obtain ⟨n, rfl⟩ := Nat.exists_eq_succ_of_ne_zero (Nat.ne_zero_of_lt hfuel)
      exact if_pos h
  | cons x l ih =>
      obtain ⟨rfl, hl⟩ := h
      obtain ⟨n, rfl⟩ := Nat.exists_eq_succ_of_ne_zero (Nat.ne_zero_of_lt hfuel)
      rw [List.mem_cons, not_or] at hb
      have hrest := ih hl hb.2 (Nat.lt_of_succ_lt_succ hfuel)
      rw [walkLinks, if_neg (Ne.symm hb.1), hrest, Option.map_some]

/-- There are no other nodes. -/
theorem Leads.eq_of_walk_eq [DecidableEq K] {next : K → K} {a b : K} {l l' : List K}
    (h : Leads next a l b) (hb : b ∉ l) {fuel : ℕ} (hwalk : walkLinks next b fuel a = some l') :
    l' = l := by
  induction l generalizing a fuel l' with
  | nil =>
      obtain rfl : a = b := h
      cases fuel with
      | zero => cases hwalk
      | succ n =>
          rw [walkLinks, if_pos rfl] at hwalk
          exact (Option.some.inj hwalk).symm
  | cons x l ih =>
      obtain ⟨rfl, hl⟩ := h
      rw [List.mem_cons, not_or] at hb
      cases fuel with
      | zero => cases hwalk
      | succ n =>
          rw [walkLinks, if_neg (Ne.symm hb.1)] at hwalk
          obtain ⟨rest, hrest, rfl⟩ := Option.map_eq_some_iff.mp hwalk
          rw [ih hl hb.2 hrest]

/-! ### Both ways -/

/-- The nodes of a list name each other. -/
def Linked (next prev : K → K) : List K → Prop :=
  List.IsChain fun a b => next a = b ∧ prev b = a

namespace Linked

variable {next prev next' prev' : K → K} {l l' : List K} {a b : K}

/-- Links of other nodes, that before the first node and that behind the last one do not
matter. -/
theorem congr (h : Linked next prev l) (hnext : ∀ x ∈ l.dropLast, next' x = next x)
    (hprev : ∀ x ∈ l.tail, prev' x = prev x) : Linked next' prev' l := by
  induction l with
  | nil => exact .nil
  | cons x l ih =>
      cases l with
      | nil => exact .singleton x
      | cons y l =>
          obtain ⟨⟨hxy, hyx⟩, hl⟩ := List.isChain_cons_cons.mp h
          rw [List.dropLast_cons_cons] at hnext
          refine List.isChain_cons_cons.mpr ⟨⟨?_, ?_⟩, ih hl ?_ ?_⟩
          · rw [hnext x List.mem_cons_self, hxy]
          · rw [hprev y List.mem_cons_self, hyx]
          · exact fun z hz => hnext z (List.mem_cons_of_mem _ hz)
          · exact fun z hz => hprev z (List.mem_cons_of_mem _ hz)

/-- The links forward. -/
theorem leads (h : Linked next prev (a :: (l ++ [b]))) : Leads next (next a) l b := by
  induction l generalizing a with
  | nil => exact (List.isChain_cons_cons.mp h).1.1
  | cons x l ih =>
      obtain ⟨⟨hx, -⟩, hl⟩ := List.isChain_cons_cons.mp h
      exact ⟨hx, ih hl⟩

/-- In the other direction, the links are those of the reversed list. -/
theorem reverse (h : Linked next prev l) : Linked prev next l.reverse := by
  rw [Linked, List.isChain_reverse]
  exact List.IsChain.imp (fun _ _ h => ⟨h.2, h.1⟩) h

end Linked

/-! ### Circles -/

section Circle

variable {next prev next' prev' : K → K} {s x : K} {a b : List K}

/-- A circle through `s`, cut into two parts. -/
theorem linked_circle_iff : Linked next prev (s :: (a ++ (b ++ [s]))) ↔
    Linked next prev (s :: a) ∧ Linked next prev (b ++ [s]) ∧
      next (a.getLast?.getD s) = b.headD s ∧ prev (b.headD s) = a.getLast?.getD s := by
  have hlast : (s :: a).getLast? = some (a.getLast?.getD s) := List.getLast?_cons
  have hhead : (b ++ [s]).head? = some (b.headD s) := by
    cases b <;> rfl
  rw [← List.cons_append, Linked, List.isChain_append, hlast, hhead]
  refine and_congr_right fun _ => and_congr_right fun _ => ?_
  constructor
  · exact fun h => h _ rfl _ rfl
  · intro h y hy z hz
    obtain rfl := Option.some.inj hy
    obtain rfl := Option.some.inj hz
    exact h

/-- The nodes of a circle around a cut are different from the others. -/
structure CutApart (s : K) (a b : List K) : Prop where
  last_left : ∀ y ∈ (s :: a).dropLast, y ≠ a.getLast?.getD s
  last_right : ∀ y ∈ b, y ≠ a.getLast?.getD s
  head_left : ∀ y ∈ a, y ≠ b.headD s
  head_right : ∀ y ∈ (b ++ [s]).tail, y ≠ b.headD s

/-- The first node behind a cut is in the second part, or it is `s`. -/
theorem headD_mem_or (s : K) (b : List K) : b.headD s ∈ b ∨ b.headD s = s := by
  cases b with
  | nil => exact .inr rfl
  | cons y b => exact .inl List.mem_cons_self

/-- The last node before a cut is in the first part, or it is `s`. -/
theorem getLastD_mem_or (s : K) (a : List K) :
    a.getLast?.getD s ∈ a ∨ a.getLast?.getD s = s := by
  rcases List.eq_nil_or_concat' a with rfl | ⟨a, y, rfl⟩
  · exact .inr rfl
  · left
    rw [List.getLast?_concat, Option.getD_some]
    exact List.mem_append_right _ (List.mem_singleton_self y)

/-- The nodes of a circle are different. -/
theorem cutApart (h : (s :: (a ++ b)).Nodup) : CutApart s a b := by
  obtain ⟨hs, hab⟩ := List.nodup_cons.mp h
  rw [List.mem_append, not_or] at hs
  obtain ⟨ha, hb, hdisjoint⟩ := List.nodup_append.mp hab
  refine ⟨?_, ?_, ?_, ?_⟩
  · rcases List.eq_nil_or_concat' a with rfl | ⟨a', y, rfl⟩
    · exact nofun
    · rw [List.getLast?_concat, Option.getD_some, ← List.cons_append, List.dropLast_concat]
      rintro z hz rfl
      rcases List.mem_cons.mp hz with rfl | hz
      · exact hs.1 (List.mem_append_right _ (List.mem_singleton_self z))
      · exact (List.nodup_append.mp ha).2.2 z hz z (List.mem_singleton_self z) rfl
  · rintro y hy rfl
    rcases getLastD_mem_or s a with hmem | heq
    · exact hdisjoint _ hmem _ hy rfl
    · rw [heq] at hy
      exact hs.2 hy
  · rintro y hy rfl
    rcases headD_mem_or s b with hmem | heq
    · exact hdisjoint _ hy _ hmem rfl
    · rw [heq] at hy
      exact hs.1 hy
  · cases b with
    | nil => exact nofun
    | cons z b =>
        rw [List.cons_append, List.tail_cons, List.headD_cons]
        rintro y hy rfl
        rcases List.mem_append.mp hy with hy | hy
        · exact (List.nodup_cons.mp hb).1 hy
        · obtain rfl := List.mem_singleton.mp hy
          exact hs.2 List.mem_cons_self

/-- Links that a circle with a cut is made of. -/
theorem linked_circle_of (ha : Linked next prev (s :: a)) (hb : Linked next prev (b ++ [s]))
    (hnext : ∀ y ∈ (s :: a).dropLast ++ b, next' y = next y)
    (hprev : ∀ y ∈ a ++ (b ++ [s]).tail, prev' y = prev y)
    (hcut : next' (a.getLast?.getD s) = b.headD s) (hcut' : prev' (b.headD s) = a.getLast?.getD s) :
    Linked next' prev' (s :: (a ++ (b ++ [s]))) := by
  refine linked_circle_iff.mpr ⟨?_, ?_, hcut, hcut'⟩
  · exact ha.congr (fun y hy => hnext y (List.mem_append_left _ hy))
      fun y hy => hprev y (List.mem_append_left _ hy)
  · refine hb.congr (fun y hy => hnext y ?_) fun y hy => hprev y (List.mem_append_right _ hy)
    rw [List.dropLast_concat] at hy
    exact List.mem_append_right _ hy

variable [DecidableEq K]

/-- **A new node** in a circle. -/
theorem Linked.insert (h : Linked next prev (s :: (a ++ (b ++ [s])))) (hnodup : (s :: (a ++ b)).Nodup)
    (hx : x ∉ s :: (a ++ b)) :
    Linked (Function.update (Function.update next x (b.headD s)) (a.getLast?.getD s) x)
      (Function.update (Function.update prev x (a.getLast?.getD s)) (b.headD s) x)
      (s :: (a ++ (x :: b ++ [s]))) := by
  obtain ⟨ha, hb, -⟩ := linked_circle_iff.mp h
  have hcut := cutApart hnodup
  rw [List.mem_cons, List.mem_append, not_or, not_or] at hx
  obtain ⟨hxs, hxa, hxb⟩ := hx
  have hlast : x ≠ a.getLast?.getD s := by
    rintro rfl
    exact (getLastD_mem_or s a).elim hxa hxs
  have hhead : x ≠ b.headD s := by
    rintro rfl
    exact (headD_mem_or s b).elim hxb hxs
  have hnext : ∀ y, y ≠ x → y ≠ a.getLast?.getD s → Function.update
      (Function.update next x (b.headD s)) (a.getLast?.getD s) x y = next y := by
    intro y hy hy'
    rw [Function.update_of_ne hy', Function.update_of_ne hy]
  have hprev : ∀ y, y ≠ x → y ≠ b.headD s → Function.update
      (Function.update prev x (a.getLast?.getD s)) (b.headD s) x y = prev y := by
    intro y hy hy'
    rw [Function.update_of_ne hy', Function.update_of_ne hy]
  refine linked_circle_iff.mpr ⟨?_, ?_, Function.update_self _ _ _, ?_⟩
  · refine ha.congr (fun y hy => hnext y ?_ (hcut.last_left y hy))
      fun y hy => hprev y ?_ (hcut.head_left y hy)
    · rintro rfl
      rcases List.mem_cons.mp (List.dropLast_subset _ hy) with heq | hmem
      · exact hxs heq
      · exact hxa hmem
    · rintro rfl
      exact hxa hy
  · rw [List.cons_append]
    refine List.isChain_cons.mpr ⟨?_, ?_⟩
    · have hfirst : (b ++ [s]).head? = some (b.headD s) := by
        cases b <;> rfl
      rw [hfirst]
      intro y hy
      obtain rfl := Option.some.inj hy
      exact ⟨by rw [Function.update_of_ne hlast, Function.update_self], Function.update_self _ _ _⟩
    · refine hb.congr (fun y hy => ?_) fun y hy => hprev y ?_ (hcut.head_right y hy)
      · rw [List.dropLast_concat] at hy
        refine hnext y ?_ (hcut.last_right y hy)
        rintro rfl
        exact hxb hy
      · rintro rfl
        rcases List.mem_append.mp (List.mem_of_mem_tail hy) with hmem | heq
        · exact hxb hmem
        · exact hxs (List.mem_singleton.mp heq)
  · rw [List.headD_cons, Function.update_of_ne hhead, Function.update_self]

/-- **A node taken out** of a circle. -/
theorem Linked.erase (h : Linked next prev (s :: (a ++ (x :: b ++ [s]))))
    (hnodup : (s :: (a ++ b)).Nodup) :
    (next x = b.headD s ∧ prev x = a.getLast?.getD s) ∧
      Linked (Function.update next (a.getLast?.getD s) (b.headD s))
        (Function.update prev (b.headD s) (a.getLast?.getD s)) (s :: (a ++ (b ++ [s]))) := by
  obtain ⟨ha, hxb, -, hprev⟩ := linked_circle_iff.mp h
  obtain ⟨hx, hb⟩ := List.isChain_cons.mp hxb
  have hfirst : (b ++ [s]).head? = some (b.headD s) := by
    cases b <;> rfl
  have hcut := cutApart hnodup
  refine ⟨⟨(hx (b.headD s) hfirst).1, hprev⟩, linked_circle_of ha hb ?_ ?_
    (Function.update_self _ _ _) (Function.update_self _ _ _)⟩
  · intro y hy
    refine Function.update_of_ne ?_ _ _
    rcases List.mem_append.mp hy with hy | hy
    · exact hcut.last_left y hy
    · exact hcut.last_right y hy
  · intro y hy
    refine Function.update_of_ne ?_ _ _
    rcases List.mem_append.mp hy with hy | hy
    · exact hcut.head_left y hy
    · exact hcut.head_right y hy

/-- **A part taken off** the end of a circle. -/
theorem Linked.detach (h : Linked next prev (s :: (a ++ (b ++ [s])))) (hnodup : (s :: (a ++ b)).Nodup)
    (hne : b ≠ []) (null : K) :
    Linked (Function.update next (a.getLast?.getD s) s)
        (Function.update (Function.update prev (b.headD s) null) s (a.getLast?.getD s))
        (s :: (a ++ [s])) ∧
      Linked (Function.update next (a.getLast?.getD s) s)
        (Function.update (Function.update prev (b.headD s) null) s (a.getLast?.getD s)) b := by
  obtain ⟨ha, hb, -⟩ := linked_circle_iff.mp h
  have hcut := cutApart hnodup
  obtain ⟨hs, hab⟩ := List.nodup_cons.mp hnodup
  rw [List.mem_append, not_or] at hs
  refine ⟨linked_circle_of (b := []) ha (.singleton s) ?_ ?_ (Function.update_self _ _ _)
    (Function.update_self _ _ _), ?_⟩
  · intro y hy
    rw [List.append_nil] at hy
    exact Function.update_of_ne (hcut.last_left y hy) _ _
  · intro y hy
    have hmem : y ∈ a := by
      rcases List.mem_append.mp hy with hy | hy
      · exact hy
      · cases hy
    have hys : y ≠ s := by
      rintro rfl
      exact hs.1 hmem
    rw [Function.update_of_ne hys, Function.update_of_ne (hcut.head_left y hmem)]
  · have hinner : Linked next prev b := List.IsChain.left_of_append hb
    refine hinner.congr (fun y hy => ?_) fun y hy => ?_
    · exact Function.update_of_ne (hcut.last_right y (List.dropLast_subset _ hy)) _ _
    · have hys : y ≠ s := by
        rintro rfl
        exact hs.2 (List.mem_of_mem_tail hy)
      have hhead : y ≠ b.headD s := by
        refine hcut.head_right y ?_
        cases b with
        | nil => cases hy
        | cons z b => exact List.mem_append_left _ hy
      rw [Function.update_of_ne hys, Function.update_of_ne hhead]

/-- **A part put** to the end of a circle. -/
theorem Linked.attach (h : Linked next prev (s :: (a ++ [s]))) (hb : Linked next prev b)
    (hnodup : (s :: (a ++ b)).Nodup) (hne : b ≠ []) :
    Linked (Function.update (Function.update next (a.getLast?.getD s) (b.headD s))
        (b.getLast?.getD s) s)
      (Function.update (Function.update prev (b.headD s) (a.getLast?.getD s)) s (b.getLast?.getD s))
      (s :: (a ++ (b ++ [s]))) := by
  have ha : Linked next prev (s :: a) := by
    rw [← List.cons_append] at h
    exact List.IsChain.left_of_append h
  obtain ⟨hs, hab⟩ := List.nodup_cons.mp hnodup
  rw [List.mem_append, not_or] at hs
  obtain ⟨-, hbnodup, hdisjoint⟩ := List.nodup_append.mp hab
  have hcut := cutApart hnodup
  obtain ⟨b, e, rfl⟩ := (List.eq_nil_or_concat' b).resolve_left hne
  have helast : (b ++ [e]).getLast?.getD s = e := by
    rw [List.getLast?_concat, Option.getD_some]
  have hse : s ≠ e := by
    rintro rfl
    exact hs.2 (List.mem_append_right _ (List.mem_singleton_self s))
  have hpe : a.getLast?.getD s ≠ e :=
    (hcut.last_right e (List.mem_append_right _ (List.mem_singleton_self e))).symm
  have hhead : (b ++ [e]).headD s ≠ s := by
    rcases headD_mem_or s (b ++ [e]) with hmem | heq
    · intro heq
      rw [heq] at hmem
      exact hs.2 hmem
    · cases b with
      | nil => exact fun h => hse h.symm
      | cons y b =>
          intro h
          exact hs.2 (h ▸ List.mem_cons_self)
  rw [helast]
  refine linked_circle_iff.mpr ⟨?_, ?_, ?_, ?_⟩
  · refine ha.congr (fun y hy => ?_) fun y hy => ?_
    · have hye : y ≠ e := by
        rintro rfl
        rcases List.mem_cons.mp (List.dropLast_subset _ hy) with heq | hmem
        · exact hse heq.symm
        · exact hdisjoint _ hmem _ (List.mem_append_right _ (List.mem_singleton_self y)) rfl
      rw [Function.update_of_ne hye, Function.update_of_ne (hcut.last_left y hy)]
    · have hys : y ≠ s := by
        rintro rfl
        exact hs.1 hy
      rw [Function.update_of_ne hys, Function.update_of_ne (hcut.head_left y hy)]
  · rw [Linked, List.append_assoc, List.singleton_append]
    refine List.isChain_append_cons_cons.mpr ⟨?_, ⟨Function.update_self _ _ _,
      Function.update_self _ _ _⟩, .singleton s⟩
    refine hb.congr (fun y hy => ?_) fun y hy => ?_
    · have hye : y ≠ e := by
        rintro rfl
        rw [List.dropLast_concat] at hy
        exact (List.nodup_append.mp hbnodup).2.2 y hy y (List.mem_singleton_self y) rfl
      rw [Function.update_of_ne hye,
        Function.update_of_ne (hcut.last_right y (List.dropLast_subset _ hy))]
    · have hys : y ≠ s := by
        rintro rfl
        exact hs.2 (List.mem_of_mem_tail hy)
      have hyhead : y ≠ (b ++ [e]).headD s := by
        refine hcut.head_right y ?_
        cases b with
        | nil => cases hy
        | cons z b => exact List.mem_append_left _ hy
      rw [Function.update_of_ne hys, Function.update_of_ne hyhead]
  · rw [Function.update_of_ne hpe, Function.update_self]
  · rw [Function.update_of_ne hhead, Function.update_self]

end Circle

end WasmCompiler
