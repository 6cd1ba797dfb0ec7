import WasmCompiler.ActiveMemoryManager
import Mathlib.Logic.Relation

/-!
# Growable Memory

What `ActiveMemoryManager` is for: a memory whose bytes are zero until they are written, that
can be made larger and smaller, with the basedata in front of it. `GrowableMemory` says this
without blocks and without a usable size; the manager refines it, with its bytes read through
the start of the basedata.

Every step has its own `ReallocFnc`. All of them copy what is in both the old and the new
block.

## Main results

* `Refines.step`: a step keeps the refinement, if the request for a block is granted or
  leaves everything as it is, and if a probed offset has a 32-bit successor.
* `refines_of_run`: in every state of such a run the manager has the probed bytes and the
  basedata.
-/

namespace WasmCompiler

/-! ### What the memory is for -/

/-- A memory of zeros that can be written. -/
structure GrowableMemory where
  /-- The size the module is told. -/
  formalSize : ℕ
  /-- The bytes below have been probed and not been shrunk away. -/
  probedSize : ℕ
  bytes : ℕ → UInt8
  /-- The bytes in front of the memory, as far as they were written. -/
  basedata : ℕ → Option UInt8

/-- What is done with the memory. -/
inductive MemoryAction where
  | init (basedataSize initialLinMemPages : UInt32)
  | extend (newTotalLinMemPages : UInt32)
  | probe (linMemOffset : UInt32)
  | shrink (minimumLength : UInt32)
  | guestWrite (offset : ℕ) (value : UInt8)
  | basedataWrite (offset : ℕ) (value : UInt8)
  deriving DecidableEq, Repr

namespace GrowableMemory

/-- A memory of size zero. -/
def empty : GrowableMemory where
  formalSize := 0
  probedSize := 0
  bytes _ := 0
  basedata _ := none

/-- The byte at an offset that may be read. -/
def get (g : GrowableMemory) (offset : ℕ) : Option UInt8 :=
  if offset < g.formalSize ∧ offset < g.probedSize then some (g.bytes offset) else none

/-- What an action does, given whether it succeeds. -/
def step (g : GrowableMemory) : MemoryAction → Bool → GrowableMemory
  | .init basedataSize initialLinMemPages, _ =>
      { formalSize := initialLinMemPages.toNat * wasmPageSize
        probedSize := 0
        bytes := fun _ => 0
        basedata := fun a => if a < basedataSize.toNat then g.basedata a else none }
  | .extend newTotalLinMemPages, _ =>
      { g with formalSize := newTotalLinMemPages.toNat * wasmPageSize }
  | .probe linMemOffset, true =>
      { g with probedSize := max g.probedSize (linMemOffset.toNat + 1) }
  | .shrink minimumLength, true =>
      { g with
        probedSize := min g.probedSize minimumLength.toNat
        bytes := fun a => if a < minimumLength.toNat then g.bytes a else 0 }
  | .guestWrite offset value, true => { g with bytes := Function.update g.bytes offset value }
  | .basedataWrite offset value, true =>
      { g with basedata := Function.update g.basedata offset (some value) }
  | _, false => g

end GrowableMemory

/-! ### What the manager does -/

namespace ActiveMemoryManager

/-- Write a byte through the start of the basedata. -/
def store (m : ActiveMemoryManager) (offset : ℕ) (value : UInt8) : ActiveMemoryManager :=
  match m.basedataStart with
  | some p =>
      { m with heap := Function.update m.heap p (Function.update (m.heap p) offset value) }
  | none => m

/-- Whether an action succeeds, and what it leads to. Compiled code compares an offset with
the usable size, and only a module that could be set up has basedata to write. -/
def step (realloc : ReallocFnc) (m : ActiveMemoryManager) :
    MemoryAction → Bool × ActiveMemoryManager
  | .init basedataSize initialLinMemPages => m.init realloc basedataSize initialLinMemPages
  | .extend newTotalLinMemPages => (true, m.extend newTotalLinMemPages)
  | .probe linMemOffset =>
      let (result, m) := m.probe realloc linMemOffset
      (result == .ok, m)
  | .shrink minimumLength => m.shrink realloc minimumLength
  | .guestWrite offset value =>
      if offset < m.usableLinMemBytes.toNat then
        (true, m.store (m.basedataSize.toNat + offset) value)
      else (false, m)
  | .basedataWrite offset value =>
      if offset < m.basedataSize.toNat ∧ (m.read offset).isSome then (true, m.store offset value)
      else (false, m)

/-- What an action has to meet: a request is granted or leaves everything as it is, and a
probed offset that is allowed has a 32-bit successor. -/
def ActionMeets (realloc : ReallocFnc) (m : ActiveMemoryManager) (action : MemoryAction) : Prop :=
  RefusesSafely realloc ∧
    ∀ linMemOffset, action = .probe linMemOffset → linMemOffset.toNat = uint32Max →
      m.allowedLinMemPages.toNat * wasmPageSize ≤ uint32Max

/-- An action on the manager and on the memory it is for. -/
def stepBoth (realloc : ReallocFnc) (s : ActiveMemoryManager × GrowableMemory)
    (action : MemoryAction) : ActiveMemoryManager × GrowableMemory :=
  ((s.1.step realloc action).2, s.2.step action (s.1.step realloc action).1)

/-- One action that meets what it has to. -/
def MeetingStep (s s' : ActiveMemoryManager × GrowableMemory) : Prop :=
  ∃ realloc action, PreservesPrefix realloc ∧ s.1.ActionMeets realloc action ∧
    s' = stepBoth realloc s action

/-! ### The refinement -/

variable {realloc : ReallocFnc} {m : ActiveMemoryManager} {g : GrowableMemory}

/-- What can be read after a byte has been written. -/
theorem read_store (offset a : ℕ) (value : UInt8) :
    (m.store offset value).read a =
      if a = offset then (m.read a).map fun _ => value else m.read a := by
  rw [store]
  split
  · case _ p hstart =>
      simp only [read, hstart]
      by_cases hin : some p = m.jobMemory.data ∧ a < m.jobMemory.size.toNat
      · simp only [if_pos hin]
        rw [← hin.1, Option.map_some, Function.update_self, Option.map_some, Option.map_some]
        by_cases heq : a = offset
        · rw [if_pos heq, heq, Function.update_self]
        · rw [if_neg heq, Function.update_of_ne heq]
      · simp only [if_neg hin, Option.map_none, ite_self]
  · case _ hstart =>
      by_cases hdata : m.jobMemory.data = none
      · simp [read, hdata]
      · have hin : ¬ (m.basedataStart = m.jobMemory.data ∧ a < m.jobMemory.size.toNat) := by
          rintro ⟨heq, -⟩
          exact hdata (heq.symm.trans hstart)
        simp only [read, if_neg hin, Option.map_none, ite_self]

/-- A write leaves the sizes. -/
theorem store_sameSizes (offset : ℕ) (value : UInt8) : SameSizes m (m.store offset value) := by
  rw [store]
  split <;> exact ⟨rfl, rfl, rfl, rfl⟩

/-- A write leaves the block. -/
theorem store_synced (h : m.Synced) (offset : ℕ) (value : UInt8) :
    (m.store offset value).Synced := by
  rw [store]
  split <;> exact h

/-- The manager has the bytes of the memory that are usable, and all others are zero; it has
the basedata; and what has been probed is usable. -/
structure Refines (m : ActiveMemoryManager) (g : GrowableMemory) : Prop where
  synced : m.Synced
  hasExtensionRequest : m.jobMemory.hasExtensionRequest = true
  probed_le : g.probedSize ≤ m.usableLinMemBytes.toNat
  usable : ∀ a < m.usableLinMemBytes.toNat,
    m.read (m.basedataSize.toNat + a) = some (g.bytes a)
  beyond : ∀ a, m.usableLinMemBytes.toNat ≤ a → g.bytes a = 0
  basedata : ∀ a v, g.basedata a = some v → a < m.basedataSize.toNat ∧ m.read a = some v

/-- A new manager refines the empty memory. -/
theorem Refines.new (heap : Heap) : (ActiveMemoryManager.new heap true).Refines .empty where
  synced := rfl
  hasExtensionRequest := rfl
  probed_le := le_refl _
  usable a hlt := absurd hlt (Nat.not_lt_zero a)
  beyond _ _ := rfl
  basedata _ _ h := by simp [GrowableMemory.empty] at h

namespace Refines

/-- Setting up keeps the basedata that the new size has room for. -/
theorem init (h : m.Refines g) (hcopies : PreservesPrefix realloc)
    (hrefuses : RefusesSafely realloc) (basedataSize initialLinMemPages : UInt32) (ok : Bool) :
    (m.init realloc basedataSize initialLinMemPages).2.Refines
      (g.step (.init basedataSize initialLinMemPages) ok) := by
  obtain ⟨hsynced, hkeeps⟩ := init_reads hcopies hrefuses h.synced basedataSize
    initialLinMemPages
  obtain ⟨hbase, -, husable⟩ := m.init_sizes realloc basedataSize initialLinMemPages
  refine ⟨hsynced, ?_, Nat.zero_le _, fun a hlt => ?_, fun _ _ => rfl, fun a v hv => ?_⟩
  · rw [init_hasExtensionRequest]
    exact h.hasExtensionRequest
  · rw [husable] at hlt
    exact absurd hlt (Nat.not_lt_zero a)
  · simp only [GrowableMemory.step, Option.ite_none_right_eq_some] at hv
    rw [hbase]
    exact ⟨hv.1, hkeeps _ a (Nat.lt_succ_self a) v (h.basedata a v hv.2).2⟩

/-- Probing makes bytes usable that are zero. -/
theorem probe (h : m.Refines g) (hcopies : PreservesPrefix realloc) {linMemOffset : UInt32}
    (hmeets : m.ActionMeets realloc (.probe linMemOffset)) :
    (m.step realloc (.probe linMemOffset)).2.Refines
      (g.step (.probe linMemOffset) (m.step realloc (.probe linMemOffset)).1) := by
  obtain ⟨hrefuses, hsuccessor⟩ := hmeets
  obtain ⟨hsynced, hkeeps, hzero⟩ := probe_reads hcopies hrefuses h.synced linMemOffset
  obtain ⟨hbase, -, hresult⟩ := m.probe_spec realloc linMemOffset
  have hbasedata : ∀ a v, g.basedata a = some v →
      a < (m.probe realloc linMemOffset).2.basedataSize.toNat ∧
        (m.probe realloc linMemOffset).2.read a = some v := by
    intro a v hv
    obtain ⟨hlt, hread⟩ := h.basedata a v hv
    rw [hbase]
    exact ⟨hlt, hkeeps a (by omega) v hread⟩
  have hext : (m.probe realloc linMemOffset).2.jobMemory.hasExtensionRequest = true := by
    rw [probe_hasExtensionRequest]
    exact h.hasExtensionRequest
  have hsame : (m.probe realloc linMemOffset).2.usableLinMemBytes.toNat =
        m.usableLinMemBytes.toNat → ∀ g', g'.probedSize ≤ m.usableLinMemBytes.toNat →
      g'.bytes = g.bytes → g'.basedata = g.basedata →
      (m.probe realloc linMemOffset).2.Refines g' := by
    intro husable g' hprobed hbytes hdata
    refine ⟨hsynced, hext, husable ▸ hprobed, fun a hlt => ?_, fun a hle => ?_, ?_⟩
    · rw [husable] at hlt
      rw [hbase, hbytes]
      exact hkeeps _ (by omega) _ (h.usable a hlt)
    · rw [husable] at hle
      rw [hbytes]
      exact h.beyond a hle
    · rw [hdata]
      exact hbasedata
  simp only [ActiveMemoryManager.step]
  split at hresult
  · case _ hok =>
      rw [hok] at hzero
      simp only [hok, beq_self_eq_true, GrowableMemory.step]
      rcases hresult with ⟨hlt, hm⟩ | ⟨hallowed, husable⟩
      · rw [UInt32.lt_iff_toNat_lt] at hlt
        exact hsame (by rw [hm]) _ (max_le h.probed_le hlt) rfl rfl
      · have hnext : (linMemOffset + 1).toNat = linMemOffset.toNat + 1 := by
          have hone : (1 : UInt32).toNat = 1 := rfl
          have hoffset := linMemOffset.toNat_lt
          have hne : linMemOffset.toNat ≠ uint32Max := by
            intro heq
            have hle := hsuccessor linMemOffset rfl heq
            omega
          rw [uint32Max] at hne
          rw [UInt32.toNat_add, hone, Nat.mod_eq_of_lt (by omega)]
        rw [hnext] at husable hzero
        refine ⟨hsynced, hext, ?_, fun a hlt => ?_, fun a hle => ?_, hbasedata⟩
        · rw [husable]
          exact max_le_max_right _ h.probed_le
        · rw [husable] at hlt
          rw [hbase]
          rcases Nat.lt_or_ge a m.usableLinMemBytes.toNat with hold | hnew
          · exact hkeeps _ (by omega) _ (h.usable a hold)
          · rw [h.beyond a hnew]
            exact hzero rfl a (by omega) hnew
        · rw [husable] at hle
          exact h.beyond a (by omega)
  · case _ hfailed =>
      rw [hfailed]
      exact hsame hresult _ h.probed_le rfl rfl
  · case _ hout =>
      rw [hout]
      exact hsame (by rw [hresult.1]) _ h.probed_le rfl rfl

/-- Shrinking keeps what is below the new size. -/
theorem shrink (h : m.Refines g) (hcopies : PreservesPrefix realloc)
    (hrefuses : RefusesSafely realloc) (minimumLength : UInt32) :
    (m.shrink realloc minimumLength).2.Refines
      (g.step (.shrink minimumLength) (m.shrink realloc minimumLength).1) := by
  obtain ⟨hfailed, hsynced, hbase, hkeeps, husable⟩ :=
    shrink_reads hcopies hrefuses h.synced minimumLength
  cases hok : (m.shrink realloc minimumLength).1 with
  | false =>
      rw [hfailed hok]
      exact h
  | true =>
      obtain ⟨hle, husable⟩ := husable hok h.hasExtensionRequest
      refine ⟨hsynced, ?_, ?_, fun a hlt => ?_, fun a hge => ?_, fun a v hv => ?_⟩
      · rw [shrink_hasExtensionRequest]
        exact h.hasExtensionRequest
      · rw [husable]
        exact min_le_right _ _
      · rw [husable] at hlt
        simp only [GrowableMemory.step, if_pos hlt]
        rw [hbase]
        exact hkeeps _ (by omega) _ (h.usable a (by omega))
      · rw [husable] at hge
        simp only [GrowableMemory.step, if_neg (Nat.not_lt.mpr hge)]
      · obtain ⟨hlt, hread⟩ := h.basedata a v hv
        rw [hbase]
        exact ⟨hlt, hkeeps a (by omega) v hread⟩

/-- A write to a usable byte changes this byte. -/
theorem guestWrite (h : m.Refines g) {offset : ℕ} (hlt : offset < m.usableLinMemBytes.toNat)
    (value : UInt8) :
    (m.store (m.basedataSize.toNat + offset) value).Refines
      (g.step (.guestWrite offset value) true) := by
  obtain ⟨hbase, -, husable, hext⟩ :=
    m.store_sameSizes (m.basedataSize.toNat + offset) value
  refine ⟨store_synced h.synced _ _, hext.trans h.hasExtensionRequest, husable ▸ h.probed_le,
    fun a hlt' => ?_, fun a hle => ?_, fun a v hv => ?_⟩
  · rw [husable] at hlt'
    rw [hbase, read_store]
    simp only [GrowableMemory.step, Nat.add_left_cancel_iff]
    split
    · case _ heq => rw [heq, Function.update_self, h.usable offset hlt, Option.map_some]
    · case _ hne => rw [Function.update_of_ne hne, h.usable a hlt']
  · rw [husable] at hle
    simp only [GrowableMemory.step]
    rw [Function.update_of_ne]
    · exact h.beyond a hle
    · rintro rfl
      exact absurd hlt (Nat.not_lt.mpr hle)
  · obtain ⟨hlt', hv⟩ := h.basedata a v hv
    rw [hbase, read_store, if_neg (by omega)]
    exact ⟨hlt', hv⟩

/-- A write to the basedata changes this byte. -/
theorem basedataWrite (h : m.Refines g) {offset : ℕ} (hlt : offset < m.basedataSize.toNat)
    (hin : (m.read offset).isSome = true) (value : UInt8) :
    (m.store offset value).Refines (g.step (.basedataWrite offset value) true) := by
  obtain ⟨hbase, -, husable, hext⟩ := m.store_sameSizes offset value
  refine ⟨store_synced h.synced _ _, hext.trans h.hasExtensionRequest, husable ▸ h.probed_le,
    fun a hlt' => ?_, husable ▸ h.beyond, fun a v hv => ?_⟩
  · rw [husable] at hlt'
    rw [hbase, read_store, if_neg (by omega)]
    exact h.usable a hlt'
  · simp only [GrowableMemory.step] at hv
    rw [hbase, read_store]
    by_cases heq : a = offset
    · obtain ⟨old, hold⟩ := Option.isSome_iff_exists.mp hin
      rw [heq, Function.update_self] at hv
      rw [if_pos heq, heq, hold]
      exact ⟨hlt, hv⟩
    · rw [Function.update_of_ne heq] at hv
      rw [if_neg heq]
      exact h.basedata a v hv

/-- **One action** keeps the refinement. -/
theorem step (h : m.Refines g) (hcopies : PreservesPrefix realloc) {action : MemoryAction}
    (hmeets : m.ActionMeets realloc action) :
    (m.step realloc action).2.Refines (g.step action (m.step realloc action).1) := by
  cases action with
  | init basedataSize initialLinMemPages =>
      exact h.init hcopies hmeets.1 basedataSize initialLinMemPages _
  | extend newTotalLinMemPages =>
      exact ⟨h.synced, h.hasExtensionRequest, h.probed_le, h.usable, h.beyond, h.basedata⟩
  | probe linMemOffset => exact h.probe hcopies hmeets
  | shrink minimumLength => exact h.shrink hcopies hmeets.1 minimumLength
  | guestWrite offset value =>
      simp only [ActiveMemoryManager.step]
      split
      · case _ hlt => exact h.guestWrite hlt value
      · exact h
  | basedataWrite offset value =>
      simp only [ActiveMemoryManager.step]
      split
      · case _ hin => exact h.basedataWrite hin.1 hin.2 value
      · exact h

end Refines

/-- **The memory of a module**: in every run whose actions meet what they have to, the probed
bytes below the formal size are what was written last, or zero, and the basedata is what was
written there. -/
theorem refines_of_run {heap : Heap}
    (hrun : Relation.ReflTransGen MeetingStep (ActiveMemoryManager.new heap true, .empty) (m, g)) :
    (∀ a v, g.get a = some v → m.read (m.basedataSize.toNat + a) = some v) ∧
      ∀ a v, g.basedata a = some v → m.read a = some v := by
  have hrefines : m.Refines g := by
    generalize hs : (m, g) = s at hrun
    induction hrun generalizing m g with
    | refl =>
        cases hs
        exact .new heap
    | tail _ hstep ih =>
        obtain ⟨realloc, action, hcopies, hmeets, rfl⟩ := hstep
        cases hs
        exact (ih rfl).step hcopies hmeets
  refine ⟨fun a v hv => ?_, fun a v hv => (hrefines.basedata a v hv).2⟩
  simp only [GrowableMemory.get, Option.ite_none_right_eq_some, Option.some.injEq] at hv
  obtain ⟨⟨-, hprobed⟩, rfl⟩ := hv
  exact hrefines.usable a (Nat.lt_of_lt_of_le hprobed hrefines.probed_le)

/-- A list of actions with one `ReallocFnc` is a run. -/
theorem run_of_actions (hcopies : PreservesPrefix realloc) (hrefuses : RefusesSafely realloc)
    (actions : List MemoryAction)
    (hprobes : ∀ linMemOffset, .probe linMemOffset ∈ actions → linMemOffset.toNat ≠ uint32Max)
    (s : ActiveMemoryManager × GrowableMemory) :
    Relation.ReflTransGen MeetingStep s (actions.foldl (stepBoth realloc) s) := by
  induction actions generalizing s with
  | nil => exact .refl
  | cons action actions ih =>
      refine .head ⟨realloc, action, hcopies, ⟨hrefuses, fun linMemOffset heq hmax => ?_⟩, rfl⟩
        (ih (fun linMemOffset hmem => hprobes linMemOffset (List.mem_cons_of_mem _ hmem)) _)
      exact absurd hmax (hprobes linMemOffset (heq ▸ List.mem_cons_self))

/-- A `ReallocFnc` with one block, which always gets the bytes. -/
def copyingRealloc : ReallocFnc := fun heap memory minimumLength =>
  (match memory.data with
    | some p => Function.update heap 0 (heap p)
    | none => heap, some 0, minimumLength)

/-- It copies everything. -/
theorem copyingRealloc_preservesPrefix : PreservesPrefix copyingRealloc := by
  intro heap memory minimumLength p p' hp hp' a _ _
  obtain rfl : 0 = p' := Option.some.inj hp'
  simp [copyingRealloc, hp]

/-- It refuses nothing. -/
theorem copyingRealloc_refusesSafely : RefusesSafely copyingRealloc :=
  fun _ _ minimumLength => .inl ⟨rfl, UInt32.le_refl minimumLength⟩

/-- A byte is written, and the memory is made larger and smaller. -/
theorem refines_of_run_write :
    ([.init 16 1, .probe 3, .guestWrite 2 7, .probe 100, .shrink 50].foldl
      (stepBoth copyingRealloc) (ActiveMemoryManager.new (fun _ _ => 0) true, .empty)).1.read 18 =
        some 7 := by
  have hrun := run_of_actions copyingRealloc_preservesPrefix copyingRealloc_refusesSafely
    [.init 16 1, .probe 3, .guestWrite 2 7, .probe 100, .shrink 50] (by simp [uint32Max]) (ActiveMemoryManager.new (fun _ _ => 0) true, .empty)
  exact (refines_of_run hrun).1 2 7 rfl

/-- A probe of the last offset of a memory of all pages succeeds, and the byte cannot be
read. -/
theorem lastOffset_not_refined :
    PreservesPrefix copyingRealloc ∧ RefusesSafely copyingRealloc ∧
      ([.init 0 65536, .probe 0xFFFFFFFF].foldl (stepBoth copyingRealloc)
        (ActiveMemoryManager.new (fun _ _ => 0) true, .empty)).2.get 0xFFFFFFFF = some 0 ∧
      ([.init 0 65536, .probe 0xFFFFFFFF].foldl (stepBoth copyingRealloc)
        (ActiveMemoryManager.new (fun _ _ => 0) true, .empty)).1.read 0xFFFFFFFF = none :=
  ⟨copyingRealloc_preservesPrefix, copyingRealloc_refusesSafely, rfl, rfl⟩

end ActiveMemoryManager

end WasmCompiler
