import WasmCompiler.ParallelMoveResolver
import Mathlib.Data.List.Nodup
import Mathlib.Data.List.Count
import Mathlib.Algebra.BigOperators.Group.List.Basic

/-!
# The Usage Counts of the Parallel Move Resolver

The resolver decides whether a move may be performed by asking whether its target is still
the source of a pending record, and answers from two usage maps instead of scanning the
records. `Counts r cells` says that the maps of `r` count exactly the cells of the list
`cells`: this module shows that marking and unmarking a source add its cell to and remove
it from that list, and that under `Counts` the answer is the right one.

## Main results

* `Counts.mark`, `Counts.unmark`: marking and unmarking change the counted list by one.
* `Counts.foldl_mark`: marking the sources of all pushed records counts them all.
* `Counts.targetIsUsedAsSource_iff`: a target counts as used exactly when its cell is
  counted.
-/

namespace WasmCompiler

open ParallelMoveResolver

variable {TReg : Type} [DecidableEq TReg]

/-! ### The memory map -/

/-- The key of an entry of the memory map. -/
def MemorySourceEntry.key (e : MemorySourceEntry) : Bool × UInt32 := (e.isStackMemory, e.offset)

/-- The cell a key of the memory map stands for. -/
def memoryCell (k : Bool × UInt32) : Cell TReg :=
  if k.1 then .stackMemory k.2 else .linkData k.2

omit [DecidableEq TReg] in
/-- Different keys stand for different cells. -/
theorem memoryCell_inj {k k' : Bool × UInt32}
    (h : (memoryCell k : Cell TReg) = memoryCell k') : k = k' := by
  obtain ⟨b, o⟩ := k
  obtain ⟨b', o'⟩ := k'
  cases b <;> cases b' <;> simp_all [memoryCell]

/-- The total count the memory map holds for a key. -/
def memoryCount (map : List MemorySourceEntry) (k : Bool × UInt32) : ℕ :=
  ((map.filter fun e => e.key = k).map MemorySourceEntry.count).sum

/-- The count of a map with one more entry in front. -/
@[simp] theorem memoryCount_cons (e : MemorySourceEntry) (map : List MemorySourceEntry)
    (k : Bool × UInt32) :
    memoryCount (e :: map) k = (if e.key = k then e.count else 0) + memoryCount map k := by
  by_cases h : e.key = k <;> simp [memoryCount, h]

/-- An empty map counts nothing. -/
@[simp] theorem memoryCount_nil (k : Bool × UInt32) : memoryCount [] k = 0 := rfl

/-- Counts of concatenated maps add up. -/
@[simp] theorem memoryCount_append (l l' : List MemorySourceEntry) (k : Bool × UInt32) :
    memoryCount (l ++ l') k = memoryCount l k + memoryCount l' k := by
  simp [memoryCount]

/-- A key without an entry has count zero. -/
theorem memoryCount_eq_zero {map : List MemorySourceEntry} {k : Bool × UInt32}
    (h : ∀ e ∈ map, e.key ≠ k) : memoryCount map k = 0 := by
  have hf : (map.filter fun e => e.key = k) = [] :=
    List.filter_eq_nil_iff.mpr fun e he => by simpa using h e he
  simp [memoryCount, hf]

/-- The list `findIdx?` searched, split at the element found. -/
theorem exists_split_of_findIdx? {α : Type*} {p : α → Bool} {l : List α} {i : ℕ}
    (h : l.findIdx? p = some i) :
    ∃ a x b, l = a ++ x :: b ∧ a.length = i ∧ p x = true ∧ ∀ y ∈ a, p y = false := by
  induction l generalizing i with
  | nil => simp at h
  | cons y l ih =>
      rw [List.findIdx?_cons] at h
      by_cases hy : p y = true
      · simp only [hy, if_true, Option.some.injEq] at h
        exact ⟨[], y, l, rfl, by simpa using h, hy, by simp⟩
      · simp only [hy, Bool.false_eq_true, if_false, Option.map_eq_some_iff] at h
        obtain ⟨j, hj, rfl⟩ := h
        obtain ⟨a, x, b, rfl, rfl, hx, ha⟩ := ih hj
        refine ⟨y :: a, x, b, rfl, rfl, hx, ?_⟩
        intro z hz
        rcases List.mem_cons.mp hz with rfl | hz
        · simpa using hy
        · exact ha z hz

/-- Replacing the element at a split. -/
@[simp] theorem set_split {α : Type*} (a : List α) (x y : α) (b : List α) :
    (a ++ x :: b).set a.length y = a ++ y :: b := by
  simp

/-- Modifying the element at a split. -/
theorem modify_split {α : Type*} (a : List α) (x : α) (b : List α) (f : α → α) :
    (a ++ x :: b).modify a.length f = a ++ f x :: b := by
  induction a with
  | nil => rfl
  | cons y a ih => simp [ih]

/-- Overwriting the element at a split with the last one and dropping the last one removes
it, up to the order. -/
theorem dropLast_set_split_perm {α : Type*} (a : List α) (x : α) (b : List α) (z : α)
    (hz : (a ++ x :: b).getLast? = some z) :
    ((a ++ x :: b).set a.length z).dropLast.Perm (a ++ b) := by
  rcases List.eq_nil_or_concat b with rfl | ⟨b', y, rfl⟩
  · simp
  · have hy : z = y := by
      rw [List.concat_eq_append, show a ++ x :: (b' ++ [y]) = (a ++ x :: b') ++ [y] by simp,
        List.getLast?_concat] at hz
      exact (Option.some.inj hz).symm
    subst hy
    have hd : (a ++ z :: (b' ++ [z])).dropLast = a ++ z :: b' := by
      rw [show a ++ z :: (b' ++ [z]) = (a ++ z :: b') ++ [z] by simp, List.dropLast_concat]
    rw [List.concat_eq_append, set_split, hd]
    exact (@List.perm_append_comm _ [z] b').append_left a

/-! ### Counting a list of cells -/

/-- The usage maps of `r` count exactly the cells of the list `cells`. -/
structure Counts (r : ParallelMoveResolver TReg) (cells : List (Cell TReg)) : Prop where
  /-- The register counts. -/
  reg : ∀ g, r.regSourceMap g = cells.count (.register g)
  /-- The memory counts. -/
  mem : ∀ k, memoryCount r.memorySourceMap k = cells.count (memoryCell k)
  /-- No key has two entries. -/
  keys : (r.memorySourceMap.map MemorySourceEntry.key).Nodup
  /-- Entries that reach zero are removed. -/
  pos : ∀ e ∈ r.memorySourceMap, 0 < e.count

/-- A source the resolver can handle: a constant, a register or memory. -/
def VariableStorage.IsSource (s : VariableStorage TReg) : Prop :=
  s.isConstant = true ∨ s.isParallelMoveLocation = true

omit [DecidableEq TReg] in
/-- The cases of a source. -/
theorem VariableStorage.IsSource.cases {s : VariableStorage TReg} (h : s.IsSource) :
    (∃ c, s.location = .constant c) ∨ (∃ g, s.location = .register g) ∨
      ∃ k, s.cell? = some (memoryCell k) ∧ memoryKey s = k ∧
        ¬ (∃ c, s.location = .constant c) ∧ ¬ (∃ g, s.location = .register g) := by
  obtain ⟨mt, loc⟩ := s
  cases loc with
  | constant c => exact Or.inl ⟨c, rfl⟩
  | register g => exact Or.inr (Or.inl ⟨g, rfl⟩)
  | stackMemory p => exact Or.inr (Or.inr ⟨(true, p), by
      simp [VariableStorage.cell?, StorageLocation.cell?, memoryCell, memoryKey]⟩)
  | linkData p => exact Or.inr (Or.inr ⟨(false, p), by
      simp [VariableStorage.cell?, StorageLocation.cell?, memoryCell, memoryKey]⟩)
  | invalid =>
      simp [IsSource, VariableStorage.isConstant, VariableStorage.isParallelMoveLocation] at h

namespace Counts

variable {r : ParallelMoveResolver TReg} {cells : List (Cell TReg)}
  {s : VariableStorage TReg}

/-- The order of the counted cells does not matter. -/
theorem perm (h : Counts r cells) {cells' : List (Cell TReg)} (hp : cells.Perm cells') :
    Counts r cells' where
  reg g := (h.reg g).trans (hp.count_eq _)
  mem k := (h.mem k).trans (hp.count_eq _)
  keys := h.keys
  pos := h.pos

/-- The counts do not depend on the records. -/
theorem of_maps_eq (h : Counts r cells) {r' : ParallelMoveResolver TReg}
    (hm : r'.memorySourceMap = r.memorySourceMap) (hr : r'.regSourceMap = r.regSourceMap) :
    Counts r' cells where
  reg g := by rw [hr]; exact h.reg g
  mem k := by rw [hm]; exact h.mem k
  keys := by rw [hm]; exact h.keys
  pos := by rw [hm]; exact h.pos

/-- A register is counted under its own name only. -/
theorem count_cons_register (g : TReg) :
    (∀ g', ((.register g : Cell TReg) :: cells).count (.register g') =
      cells.count (.register g') + if g' = g then 1 else 0) ∧
    ∀ k, ((.register g : Cell TReg) :: cells).count (memoryCell k) =
      cells.count (memoryCell k) := by
  constructor
  · intro g'
    by_cases hg : g' = g
    · simp [hg]
    · simp [hg, Ne.symm hg]
  · rintro ⟨_ | _, o⟩ <;> simp [memoryCell]

/-- A memory cell is counted under its key only. -/
theorem count_cons_memory (k : Bool × UInt32) :
    (∀ g, ((memoryCell k : Cell TReg) :: cells).count (.register g) =
      cells.count (.register g)) ∧
    ∀ k', ((memoryCell k : Cell TReg) :: cells).count (memoryCell k') =
      cells.count (memoryCell k') + if k' = k then 1 else 0 := by
  constructor
  · intro g
    obtain ⟨_ | _, o⟩ := k <;> simp [memoryCell]
  · intro k'
    by_cases hk : k' = k
    · simp [hk]
    · have hne : ¬ (memoryCell k : Cell TReg) = memoryCell k' :=
        fun he => hk (memoryCell_inj he).symm
      simp [hk, hne]

/-- Incrementing the count of a register. -/
theorem increment_register (h : Counts r cells) (g : TReg) :
    Counts (r.incrementRegisterSource g) (.register g :: cells) where
  reg g' := by
    rw [(count_cons_register g).1, ← h.reg]
    by_cases hg : g' = g <;> simp [incrementRegisterSource, hg]
  mem k := by
    rw [(count_cons_register g).2]
    exact h.mem k
  keys := h.keys
  pos := h.pos

/-- Decrementing the count of a register. -/
theorem decrement_register {g : TReg} (h : Counts r (.register g :: cells)) :
    Counts (r.decrementRegisterSource g) cells where
  reg g' := by
    have hr := h.reg g'
    rw [(count_cons_register g).1] at hr
    by_cases hg : g' = g
    · subst hg
      simp only [if_true] at hr
      simp [decrementRegisterSource, hr]
    · simp only [hg, if_false, Nat.add_zero] at hr
      simp [decrementRegisterSource, hg, hr]
  mem k := by
    rw [← (count_cons_register g).2]
    exact h.mem k
  keys := h.keys
  pos := h.pos

omit [DecidableEq TReg] in
/-- Looking up a memory source that has an entry splits the map at the only entry of its
key. -/
theorem findMemorySource_some (h : (r.memorySourceMap.map MemorySourceEntry.key).Nodup)
    {i : ℕ} (hi : r.findMemorySource s = some i) :
    ∃ a e b, r.memorySourceMap = a ++ e :: b ∧ a.length = i ∧ e.key = memoryKey s ∧
      memoryCount a (memoryKey s) = 0 ∧ memoryCount b (memoryKey s) = 0 := by
  obtain ⟨a, e, b, hm, hlen, hkey, -⟩ := exists_split_of_findIdx? hi
  have hek : e.key = memoryKey s := by
    simp only [Bool.and_eq_true, beq_iff_eq] at hkey
    exact Prod.ext hkey.1 hkey.2
  rw [hm, List.map_append, List.map_cons, List.nodup_append] at h
  obtain ⟨-, hb, hab⟩ := h
  refine ⟨a, e, b, hm, hlen, hek, memoryCount_eq_zero ?_, memoryCount_eq_zero ?_⟩
  · intro x hx hxk
    exact hab _ (List.mem_map_of_mem hx) _ List.mem_cons_self (hxk.trans hek.symm)
  · intro x hx hxk
    exact (List.nodup_cons.mp hb).1 (List.mem_map.mpr ⟨x, hx, hxk.trans hek.symm⟩)

omit [DecidableEq TReg] in
/-- Looking up a memory source that has no entry. -/
theorem findMemorySource_none (hi : r.findMemorySource s = none) :
    ∀ e ∈ r.memorySourceMap, e.key ≠ memoryKey s := by
  intro e he hk
  have hp := List.findIdx?_eq_none_iff.mp hi e he
  simp [← hk, MemorySourceEntry.key] at hp

/-- The number of entries never exceeds the number of counted cells. -/
theorem length_le (h : Counts r cells) : r.memorySourceMap.length ≤ cells.length := by
  have hsub : (r.memorySourceMap.map fun e => (memoryCell e.key : Cell TReg)) ⊆ cells := by
    intro c hc
    obtain ⟨e, he, rfl⟩ := List.mem_map.mp hc
    have hpos : 0 < memoryCount r.memorySourceMap e.key := by
      obtain ⟨a, b, hab⟩ := List.append_of_mem he
      have := h.pos e he
      rw [hab, memoryCount_append, memoryCount_cons, if_pos rfl]
      omega
    rw [h.mem] at hpos
    exact List.count_pos_iff.mp hpos
  have hnd : (r.memorySourceMap.map fun e => (memoryCell e.key : Cell TReg)).Nodup := by
    have := h.keys.map (f := fun k => (memoryCell k : Cell TReg))
      (fun k k' hk => memoryCell_inj hk)
    rwa [List.map_map] at this
  simpa using (List.subperm_of_subset hnd hsub).length_le

/-- Incrementing the count of a memory source. -/
theorem increment_memory (h : Counts r cells) {k : Bool × UInt32} (hk : memoryKey s = k)
    (hroom : cells.length < r.recordsCapacity) :
    Counts (r.incrementMemorySource s) (memoryCell k :: cells) := by
  obtain ⟨hreg, hcount⟩ := @count_cons_memory _ _ cells k
  subst hk
  cases hi : r.findMemorySource s with
  | some i =>
      obtain ⟨a, e, b, hm, rfl, hek, ha, hb⟩ := findMemorySource_some h.keys hi
      have hmap : (r.incrementMemorySource s).memorySourceMap =
          a ++ { e with count := e.count + 1 } :: b := by
        simp only [incrementMemorySource, hi, hm, modify_split]
      have hkeys := h.keys
      have hpos := h.pos
      rw [hm] at hkeys hpos
      refine ⟨fun g => ?_, fun k' => ?_, ?_, ?_⟩
      · have : (r.incrementMemorySource s).regSourceMap = r.regSourceMap := by
          simp only [incrementMemorySource, hi]
        rw [this, hreg, h.reg]
      · have hmem := h.mem k'
        rw [hm, memoryCount_append, memoryCount_cons] at hmem
        rw [hcount, ← hmem, hmap, memoryCount_append, memoryCount_cons]
        by_cases hkk : e.key = k'
        · have : ({ e with count := e.count + 1 } : MemorySourceEntry).key = k' := hkk
          have hk' : k' = memoryKey s := hkk.symm.trans hek
          simp only [this, hkk, hk', if_true]
          omega
        · have : ({ e with count := e.count + 1 } : MemorySourceEntry).key ≠ k' := hkk
          have hk' : k' ≠ memoryKey s := fun he => hkk (hek.trans he.symm)
          simp only [this, hkk, hk', if_false]
          omega
      · rw [hmap]
        simpa [MemorySourceEntry.key] using hkeys
      · rw [hmap]
        intro x hx
        rcases List.mem_append.mp hx with hx | hx
        · exact hpos x (by simp [hx])
        · rcases List.mem_cons.mp hx with rfl | hx
          · exact Nat.succ_pos _
          · exact hpos x (by simp [hx])
  | none =>
      have hnone := findMemorySource_none hi
      have hlt : r.memorySourceMap.length < r.recordsCapacity :=
        lt_of_le_of_lt h.length_le hroom
      have hmap : (r.incrementMemorySource s).memorySourceMap =
          r.memorySourceMap ++ [⟨(memoryKey s).2, 1, (memoryKey s).1⟩] := by
        simp only [incrementMemorySource, hi, hlt, if_true]
      have hnew : (⟨(memoryKey s).2, 1, (memoryKey s).1⟩ : MemorySourceEntry).key =
          memoryKey s := rfl
      refine ⟨fun g => ?_, fun k' => ?_, ?_, ?_⟩
      · have : (r.incrementMemorySource s).regSourceMap = r.regSourceMap := by
          simp only [incrementMemorySource, hi, hlt, if_true]
        rw [this, hreg, h.reg]
      · rw [hcount, ← h.mem, hmap, memoryCount_append, memoryCount_cons, hnew,
          memoryCount_nil]
        by_cases hkk : k' = memoryKey s
        · simp only [hkk, if_true]
        · simp only [hkk, Ne.symm hkk, if_false]
      · rw [hmap, List.map_append, List.nodup_append]
        refine ⟨h.keys, by simp, ?_⟩
        intro x hx y hy
        obtain ⟨e, he, rfl⟩ := List.mem_map.mp hx
        simp only [List.map_cons, List.map_nil, List.mem_singleton] at hy
        rw [hy, hnew]
        exact hnone e he
      · rw [hmap]
        intro x hx
        rcases List.mem_append.mp hx with hx | hx
        · exact h.pos x hx
        · rw [List.mem_singleton.mp hx]
          exact Nat.one_pos

/-- Decrementing the count of a memory source. -/
theorem decrement_memory {k : Bool × UInt32} (h : Counts r (memoryCell k :: cells))
    (hk : memoryKey s = k) : Counts (r.decrementMemorySource s) cells := by
  obtain ⟨hreg, hcount⟩ := @count_cons_memory _ _ cells k
  subst hk
  have hmem := fun k' => (h.mem k').trans (hcount k')
  cases hi : r.findMemorySource s with
  | none =>
      have hzero := memoryCount_eq_zero (findMemorySource_none hi)
      have hself := hmem (memoryKey s)
      rw [hzero, if_pos rfl] at hself
      omega
  | some i =>
      obtain ⟨a, e, b, hm, rfl, hek, ha, hb⟩ := findMemorySource_some h.keys hi
      have hkeys := h.keys
      have hpos := h.pos
      rw [hm] at hkeys hpos
      have hecount : e.count = cells.count (memoryCell (memoryKey s)) + 1 := by
        have hself := hmem (memoryKey s)
        rw [hm, memoryCount_append, memoryCount_cons, ha, hb, if_pos hek, if_pos rfl] at hself
        omega
      -- the map with the entry updated in place
      set e' : MemorySourceEntry := { e with count := e.count - 1 } with he'
      have hek' : e'.key = memoryKey s := hek
      have hget : (a ++ e' :: b)[a.length]? = some e' := by simp
      obtain ⟨z, hz⟩ : ∃ z, (a ++ e' :: b).getLast? = some z :=
        Option.isSome_iff_exists.mp (by simp)
      have hregs : (r.decrementMemorySource s).regSourceMap = r.regSourceMap := by
        simp only [decrementMemorySource, hi, hm, modify_split, ← he', hget, hz]
        split <;> rfl
      have hregcount : ∀ g, (r.decrementMemorySource s).regSourceMap g =
          cells.count (.register g) := by
        intro g
        rw [hregs, h.reg, hreg]
      by_cases hzero : e'.count = 0
      · have hperm : (r.decrementMemorySource s).memorySourceMap.Perm (a ++ b) := by
          simp only [decrementMemorySource, hi, hm, modify_split, ← he', hget, hz, hzero,
            if_true]
          exact dropLast_set_split_perm a e' b z hz
        refine ⟨hregcount, fun k' => ?_, ?_, ?_⟩
        · have hpm : memoryCount (r.decrementMemorySource s).memorySourceMap k' =
              memoryCount (a ++ b) k' := ((hperm.filter _).map _).sum_eq
          have hk' := hmem k'
          rw [hm, memoryCount_append, memoryCount_cons] at hk'
          rw [hpm, memoryCount_append]
          have hc : e'.count = e.count - 1 := rfl
          by_cases hkk : k' = memoryKey s
          · rw [hkk, hek, if_pos rfl, if_pos rfl] at hk'
            rw [hkk]
            omega
          · rw [if_neg (fun he => hkk (he.symm.trans hek)), if_neg hkk] at hk'
            omega
        · refine (hperm.map _).nodup_iff.mpr (hkeys.sublist ?_)
          exact (List.Sublist.append (List.Sublist.refl a) (List.sublist_cons_self e b)).map _
        · intro x hx
          have hx' := hperm.mem_iff.mp hx
          rcases List.mem_append.mp hx' with hx | hx
          · exact hpos x (by simp [hx])
          · exact hpos x (by simp [hx])
      · have hmap : (r.decrementMemorySource s).memorySourceMap = a ++ e' :: b := by
          simp only [decrementMemorySource, hi, hm, modify_split, ← he', hget, hz, hzero,
            if_false]
        refine ⟨hregcount, fun k' => ?_, ?_, ?_⟩
        · have hk' := hmem k'
          rw [hm, memoryCount_append, memoryCount_cons] at hk'
          rw [hmap, memoryCount_append, memoryCount_cons]
          have hc : e'.count = e.count - 1 := rfl
          by_cases hkk : k' = memoryKey s
          · rw [hkk, hek, if_pos rfl, if_pos rfl] at hk'
            rw [hkk, hek', if_pos rfl]
            omega
          · rw [if_neg (fun he => hkk (he.symm.trans hek)), if_neg hkk] at hk'
            rw [if_neg (fun he => hkk (he.symm.trans hek'))]
            omega
        · rw [hmap]
          simpa [MemorySourceEntry.key, he'] using hkeys
        · rw [hmap]
          intro x hx
          rcases List.mem_append.mp hx with hx | hx
          · exact hpos x (by simp [hx])
          · rcases List.mem_cons.mp hx with rfl | hx
            · exact Nat.pos_of_ne_zero hzero
            · exact hpos x (by simp [hx])

/-! ### Marking, unmarking and asking -/

omit [DecidableEq TReg] in
/-- The cell of a register storage. -/
theorem cell?_of_register {g : TReg} (hs : s.location = .register g) :
    s.cell? = some (.register g) := by
  rw [VariableStorage.cell?, hs, StorageLocation.cell?]

omit [DecidableEq TReg] in
/-- A constant has no cell. -/
theorem cell?_of_constant {c : Word} (hs : s.location = .constant c) :
    s.cell? = Option.none := by
  rw [VariableStorage.cell?, hs, StorageLocation.cell?]

/-- Marking a source counts its cell, while there is room for an entry. -/
theorem mark (h : Counts r cells) (hs : s.IsSource)
    (hroom : cells.length < r.recordsCapacity) :
    Counts (r.markSourceAsUsed s) (s.cell?.toList ++ cells) := by
  rcases hs.cases with ⟨c, hc⟩ | ⟨g, hg⟩ | ⟨k, hk, hkey, hnc, hng⟩
  · rw [cell?_of_constant hc, markSourceAsUsed, hc]
    exact h
  · rw [cell?_of_register hg, markSourceAsUsed, hg]
    exact h.increment_register g
  · have hmark : r.markSourceAsUsed s = r.incrementMemorySource s := by
      unfold markSourceAsUsed
      split
      · exact absurd ⟨_, ‹_›⟩ hnc
      · exact absurd ⟨_, ‹_›⟩ hng
      · rfl
    rw [hmark, hk]
    exact h.increment_memory hkey hroom

/-- Unmarking a counted source removes its cell. -/
theorem unmark (h : Counts r (s.cell?.toList ++ cells)) (hs : s.IsSource) :
    Counts (r.unmarkSourceAsUsed s) cells := by
  rcases hs.cases with ⟨c, hc⟩ | ⟨g, hg⟩ | ⟨k, hk, hkey, hnc, hng⟩
  · rw [cell?_of_constant hc] at h
    rw [unmarkSourceAsUsed, hc]
    exact h
  · rw [cell?_of_register hg] at h
    rw [unmarkSourceAsUsed, hg]
    exact h.decrement_register
  · have hunmark : r.unmarkSourceAsUsed s = r.decrementMemorySource s := by
      unfold unmarkSourceAsUsed
      split
      · exact absurd ⟨_, ‹_›⟩ hnc
      · exact absurd ⟨_, ‹_›⟩ hng
      · rfl
    rw [hk] at h
    rw [hunmark]
    exact h.decrement_memory hkey

/-- A target counts as used exactly when its cell is counted. -/
theorem targetIsUsedAsSource_iff (h : Counts r cells) {target : VariableStorage TReg}
    {c : Cell TReg} (ht : target.cell? = some c) :
    r.targetIsUsedAsSource target = true ↔ c ∈ cells := by
  have hsource : target.IsSource :=
    Or.inr (VariableStorage.isParallelMoveLocation_iff.mpr ⟨c, ht⟩)
  rcases hsource.cases with ⟨w, hw⟩ | ⟨g, hg⟩ | ⟨k, hk, hkey, -, hng⟩
  · rw [cell?_of_constant hw] at ht
    exact absurd ht (by simp)
  · rw [cell?_of_register hg] at ht
    obtain rfl := Option.some.inj ht
    simp only [targetIsUsedAsSource, hg, h.reg, decide_eq_true_eq, List.count_pos_iff]
  · obtain rfl : memoryCell k = c := Option.some.inj (hk.symm.trans ht)
    have hcases : r.targetIsUsedAsSource target =
        ((r.findMemorySource target).bind fun index => r.memorySourceMap[index]?).elim false
          fun entry => decide (0 < entry.count) := by
      unfold targetIsUsedAsSource
      split
      · exact absurd ⟨_, ‹_›⟩ hng
      · cases (r.findMemorySource target).bind fun index => r.memorySourceMap[index]? <;> rfl
    rw [hcases, ← List.count_pos_iff, ← h.mem]
    cases hi : r.findMemorySource target with
    | none =>
        rw [memoryCount_eq_zero (hkey ▸ findMemorySource_none hi)]
        simp
    | some i =>
        obtain ⟨a, e, b, hm, rfl, hek, ha, hb⟩ := findMemorySource_some h.keys hi
        rw [hkey] at hek ha hb
        rw [hm, memoryCount_append, memoryCount_cons, ha, hb, if_pos hek]
        simp

/-- Freshly constructed maps count nothing. -/
theorem empty (records : List (ParallelMoveRecord TReg)) (n : ℕ) :
    Counts ⟨records, n, [], fun _ => 0⟩ ([] : List (Cell TReg)) where
  reg _ := rfl
  mem _ := rfl
  keys := List.nodup_nil
  pos _ he := absurd he List.not_mem_nil

end Counts

/-! ### What marking and unmarking leave alone -/

namespace ParallelMoveResolver

variable (r : ParallelMoveResolver TReg) (s : VariableStorage TReg)

/-- Marking leaves the records alone. -/
@[simp] theorem markSourceAsUsed_records : (r.markSourceAsUsed s).records = r.records := by
  unfold markSourceAsUsed incrementMemorySource incrementRegisterSource
  repeat' split
  all_goals rfl

/-- Marking leaves the number of records alone. -/
@[simp] theorem markSourceAsUsed_recordsCount :
    (r.markSourceAsUsed s).recordsCount = r.recordsCount := by
  unfold markSourceAsUsed incrementMemorySource incrementRegisterSource
  repeat' split
  all_goals rfl

omit [DecidableEq TReg] in
/-- Decrementing a memory count changes the memory map only. -/
theorem decrementMemorySource_eq :
    ∃ map, r.decrementMemorySource s = { r with memorySourceMap := map } := by
  unfold decrementMemorySource
  split
  · dsimp only
    split
    · split <;> exact ⟨_, rfl⟩
    · exact ⟨_, rfl⟩
  · exact ⟨_, rfl⟩

/-- Unmarking leaves the records alone. -/
@[simp] theorem unmarkSourceAsUsed_records :
    (r.unmarkSourceAsUsed s).records = r.records := by
  obtain ⟨map, hmap⟩ := decrementMemorySource_eq r s
  unfold unmarkSourceAsUsed decrementRegisterSource
  split
  · rfl
  · rfl
  · rw [hmap]

/-- Unmarking leaves the number of records alone. -/
@[simp] theorem unmarkSourceAsUsed_recordsCount :
    (r.unmarkSourceAsUsed s).recordsCount = r.recordsCount := by
  obtain ⟨map, hmap⟩ := decrementMemorySource_eq r s
  unfold unmarkSourceAsUsed decrementRegisterSource
  split
  · rfl
  · rfl
  · rw [hmap]

end ParallelMoveResolver

/-- Marking the sources of a list of records one after the other counts them all. -/
theorem Counts.foldl_mark {r : ParallelMoveResolver TReg} {cells : List (Cell TReg)}
    (h : Counts r cells) (l : List (ParallelMoveRecord TReg))
    (hl : ∀ record ∈ l, record.source.IsSource)
    (hroom : cells.length + l.length ≤ r.recordsCapacity) :
    Counts (l.foldl (fun r record => r.markSourceAsUsed record.source) r)
      (l.filterMap (fun record => record.source.cell?) ++ cells) ∧
    (l.foldl (fun r record => r.markSourceAsUsed record.source) r).records = r.records ∧
    (l.foldl (fun r record => r.markSourceAsUsed record.source) r).recordsCount =
      r.recordsCount := by
  induction l generalizing r cells with
  | nil => exact ⟨h, rfl, rfl⟩
  | cons record l ih =>
      simp only [List.length_cons] at hroom
      have hmark := h.mark (hl record List.mem_cons_self) (by omega)
      have hlen : record.source.cell?.toList.length ≤ 1 := by
        cases record.source.cell? <;> simp
      have hcap : (r.markSourceAsUsed record.source).recordsCapacity = r.recordsCapacity := by
        simp [recordsCapacity]
      obtain ⟨hc, hr, hn⟩ := ih hmark (fun x hx => hl x (List.mem_cons_of_mem _ hx))
        (by rw [hcap, List.length_append]; omega)
      refine ⟨hc.perm ?_, by simpa using hr, by simpa using hn⟩
      cases hcell : record.source.cell? with
      | none => simp [hcell]
      | some c => simp [hcell, List.perm_middle]

end WasmCompiler
