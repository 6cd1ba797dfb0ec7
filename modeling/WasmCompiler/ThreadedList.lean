import Mathlib.Data.List.Basic
import Mathlib.Data.List.Nodup

/-!
# Lists Threaded Through a Store

A list can be kept in the very cells it consists of: every cell says which one is next, and the
last one names itself. Whoever walks the list reads where to go on before the cell is given its
final content, and stops at the cell that names itself. This file describes such a list by a
plain one and says what the walk does.

## Main results

* `Threaded.cons`: a cell that names the first one is put in front.
* `walk_eq_visitAll`: the walk visits every cell of the list once, in order, and ends.
-/

namespace WasmCompiler

namespace ThreadedList

variable {σ K ε : Type}

/-- The cells name each other one after the other, the last one names itself. -/
def Threaded (next : K → σ → Except ε K) (s : σ) : List K → Prop
  | [] => True
  | [k] => next k s = .ok k
  | k :: k' :: keys => next k s = .ok k' ∧ Threaded next s (k' :: keys)

/-- What a cell names: the one that follows, or itself at the end. -/
def successor (k : K) (keys : List K) : K := keys.headD k

/-- A list is threaded if its first cell names the successor and the rest is threaded. -/
theorem threaded_cons_iff {next : K → σ → Except ε K} {s : σ} {k : K} {keys : List K} :
    Threaded next s (k :: keys) ↔ next k s = .ok (successor k keys) ∧ Threaded next s keys := by
  cases keys with
  | nil => simp [Threaded, successor]
  | cons k' keys => simp [Threaded, successor]

/-- A cell that names the first one, or itself if there is none, is put in front. -/
theorem Threaded.cons {next : K → σ → Except ε K} {s : σ} {k : K} {keys : List K}
    (hk : next k s = .ok (successor k keys)) (h : Threaded next s keys) :
    Threaded next s (k :: keys) :=
  threaded_cons_iff.mpr ⟨hk, h⟩

/-- A list is as before if what its cells name is as before. -/
theorem Threaded.congr {next : K → σ → Except ε K} {s s' : σ} {keys : List K}
    (h : Threaded next s keys) (hsame : ∀ k ∈ keys, next k s' = next k s) :
    Threaded next s' keys := by
  induction keys with
  | nil => trivial
  | cons k keys ih =>
      obtain ⟨hk, hkeys⟩ := threaded_cons_iff.mp h
      refine Threaded.cons ?_ (ih hkeys fun k' hk' => hsame k' (List.mem_cons_of_mem _ hk'))
      rw [hsame k (List.mem_cons_self ..)]
      exact hk

/-- Visit the cells one after the other, following the list; whether the end was reached with
the given fuel. -/
def walk [DecidableEq K] (next : K → σ → Except ε K) (visit : K → EStateM ε σ Unit) :
    ℕ → K → EStateM ε σ Bool
  | 0, _ => fun s => .ok false s
  | fuel + 1, k => fun s =>
      match next k s with
      | .error e => .error e s
      | .ok k' =>
          match visit k s with
          | .error e s' => .error e s'
          | .ok _ s' => if k' = k then .ok true s' else walk next visit fuel k' s'

/-- Visit the cells of a plain list. -/
def visitAll (visit : K → EStateM ε σ Unit) : List K → σ → EStateM.Result ε σ Unit
  | [], s => .ok () s
  | k :: keys, s =>
      match visit k s with
      | .error e s' => .error e s'
      | .ok _ s' => visitAll visit keys s'

/-- Visiting one of the cells keeps an invariant and what the other ones name. -/
structure VisitsApart (next : K → σ → Except ε K) (visit : K → EStateM ε σ Unit)
    (Inv : σ → Prop) (keys : List K) : Prop where
  keeps : ∀ s k s', Inv s → k ∈ keys → visit k s = .ok () s' → Inv s'
  next_eq : ∀ s k s', Inv s → k ∈ keys → visit k s = .ok () s' →
    ∀ k' ∈ keys, k' ≠ k → next k' s' = next k' s

/-- The same for fewer cells. -/
theorem VisitsApart.of_cons {next : K → σ → Except ε K} {visit : K → EStateM ε σ Unit}
    {Inv : σ → Prop} {k : K} {keys : List K} (h : VisitsApart next visit Inv (k :: keys)) :
    VisitsApart next visit Inv keys where
  keeps s k' s' hs hk' := h.keeps s k' s' hs (List.mem_cons_of_mem _ hk')
  next_eq s k' s' hs hk' hvisit k'' hk'' :=
    h.next_eq s k' s' hs (List.mem_cons_of_mem _ hk') hvisit k'' (List.mem_cons_of_mem _ hk'')

/-- **The walk visits every cell of the list once, in order, and ends**, unless a visit
fails. -/
theorem walk_eq_visitAll [DecidableEq K] {next : K → σ → Except ε K}
    {visit : K → EStateM ε σ Unit} {Inv : σ → Prop} {k : K} {keys : List K}
    (happart : VisitsApart next visit Inv (k :: keys)) (hnodup : (k :: keys).Nodup) {s : σ}
    (hs : Inv s) (hthreaded : Threaded next s (k :: keys)) {fuel : ℕ}
    (hfuel : keys.length < fuel) :
    walk next visit fuel k s =
      match visitAll visit (k :: keys) s with
      | .error e s' => .error e s'
      | .ok _ s' => .ok true s' := by
  induction keys generalizing k s fuel with
  | nil =>
      obtain ⟨fuel, rfl⟩ : ∃ n, fuel = n + 1 := ⟨fuel - 1, by omega⟩
      have hk : next k s = .ok k := hthreaded
      simp only [walk, hk, visitAll, if_true]
      cases visit k s <;> rfl
  | cons k' keys ih =>
      obtain ⟨fuel, rfl⟩ : ∃ n, fuel = n + 1 := ⟨fuel - 1, by omega⟩
      obtain ⟨hk, hkeys⟩ := threaded_cons_iff.mp hthreaded
      have hne : k' ≠ k := fun h => (List.nodup_cons.mp hnodup).1 (h ▸ List.mem_cons_self ..)
      have hk : next k s = .ok k' := hk
      simp only [walk, hk, visitAll, if_neg hne]
      cases hvisit : visit k s with
      | error e s' => rfl
      | ok _ s' =>
          have hs' := happart.keeps s k s' hs (List.mem_cons_self ..) hvisit
          have hkeys' : Threaded next s' (k' :: keys) := by
            refine hkeys.congr fun k'' hk'' => ?_
            refine happart.next_eq s k s' hs (List.mem_cons_self ..) hvisit k''
              (List.mem_cons_of_mem _ hk'') ?_
            rintro rfl
            exact (List.nodup_cons.mp hnodup).1 hk''
          simp only [List.length_cons] at hfuel
          exact ih happart.of_cons (List.nodup_cons.mp hnodup).2 hs' hkeys' (by omega)

/-- A walk that has reached the end is the same with more fuel. -/
theorem walk_of_le [DecidableEq K] {next : K → σ → Except ε K} {visit : K → EStateM ε σ Unit}
    {k : K} {s s' : σ} {fuel fuel' : ℕ} (h : walk next visit fuel k s = .ok true s')
    (hfuel : fuel ≤ fuel') : walk next visit fuel' k s = .ok true s' := by
  induction fuel generalizing k s fuel' with
  | zero => cases h
  | succ fuel ih =>
      obtain ⟨fuel', rfl⟩ : ∃ n, fuel' = n + 1 := ⟨fuel' - 1, by omega⟩
      simp only [walk] at h ⊢
      cases hnext : next k s with
      | error e => rw [hnext] at h; cases h
      | ok k' =>
          simp only [hnext] at h ⊢
          cases hvisit : visit k s with
          | error e s₁ => rw [hvisit] at h; cases h
          | ok _ s₁ =>
              simp only [hvisit] at h ⊢
              by_cases hend : k' = k
              · rw [if_pos hend] at h ⊢
                exact h
              · rw [if_neg hend] at h ⊢
                exact ih h (by omega)

end ThreadedList

end WasmCompiler
