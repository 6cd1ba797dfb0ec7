import WasmCompiler.LinearMemoryAllocator
import Mathlib.Logic.Relation

/-!
# Probing Linear Memory

The runtime uses both memory managers through `IMemoryManager`, whose contract is about two
sizes: the allowed size, in pages, and the usable size, in bytes. A probe that succeeds is what
lets native code write to the memory of a module.

## Main results

* `WithinAllowed.call`: the usable size stays within the allowed size.
* `probeContract_iff`: in every state of a run a probe meets the contract, but for the last
  offset of a memory of `maxWasmPages` pages in a build with bounds checks, whose size
  `linMemOffset + 1` is not a 32-bit number.
-/

namespace WasmCompiler

/-- The implementations of `IMemoryManager`. -/
inductive MemoryManager where
  | active (m : ActiveMemoryManager)
  | passive (m : LinearMemoryAllocator)

/-- The operations of `IMemoryManager` that change it, and the one that sets the memory limit
of `LinearMemoryAllocator`. -/
inductive ManagerCall where
  | init (basedataSize initialLinMemPages : UInt32)
  | extend (newTotalLinMemPages : UInt32)
  | shrink (minimumLength : UInt32)
  | probe (linMemOffset : UInt32)
  | setMemoryLimit (memoryLimit : UInt64)
  deriving DecidableEq, Repr

/-- What is outside of the memory managers during one call. -/
structure ManagerEnvironment where
  realloc : ReallocFnc
  os : SystemCalls

namespace MemoryManager

/-- A memory manager as its constructor leaves it. -/
inductive IsNew : MemoryManager → Prop where
  | active (heap : Heap) (hasExtensionRequest : Bool) :
      IsNew (.active (.new heap hasExtensionRequest))
  | passive : IsNew (.passive {})

/-- `probe`. -/
def probe (cfg : MemoryConfig) (env : ManagerEnvironment) (linMemOffset : UInt32) :
    MemoryManager → ProbeResult × MemoryManager
  | .active m =>
      let (result, m) := m.probe env.realloc linMemOffset
      (result, .active m)
  | .passive m =>
      let (result, m) := m.probe cfg env.os linMemOffset
      (result, .passive m)

/-- A call, without its result. -/
def call (cfg : MemoryConfig) (env : ManagerEnvironment) :
    ManagerCall → MemoryManager → MemoryManager
  | .init basedataSize initialLinMemPages, .active m =>
      .active (m.init env.realloc basedataSize initialLinMemPages).2
  | .init basedataSize initialLinMemPages, .passive m =>
      .passive (m.init cfg env.os basedataSize initialLinMemPages).2
  | .extend newTotalLinMemPages, .active m => .active (m.extend newTotalLinMemPages)
  | .extend newTotalLinMemPages, .passive m =>
      .passive (m.extend cfg env.os newTotalLinMemPages).2
  | .shrink minimumLength, .active m => .active (m.shrink env.realloc minimumLength).2
  | .shrink minimumLength, .passive m => .passive (m.shrink cfg env.os minimumLength).2
  | .probe linMemOffset, s => (s.probe cfg env linMemOffset).2
  | .setMemoryLimit _, .active m => .active m
  | .setMemoryLimit memoryLimit, .passive m => .passive (m.setMemoryLimit cfg memoryLimit).2

/-- The allowed size in pages. -/
def allowedPages : MemoryManager → UInt32
  | .active m => m.allowedLinMemPages
  | .passive m => m.linMemPages

/-- The allowed size in bytes. -/
def allowedSize (s : MemoryManager) : ℕ :=
  s.allowedPages.toNat * wasmPageSize

/-- `getLinearMemorySize`, before it becomes a 32-bit number. -/
def usableSize : MemoryManager → ℕ
  | .active m => m.usableLinMemBytes.toNat
  | .passive m => m.linearMemorySize

/-- What the contract says about probing an offset. -/
structure ProbeContract (cfg : MemoryConfig) (env : ManagerEnvironment) (s : MemoryManager)
    (linMemOffset : UInt32) : Prop where
  usable : (s.probe cfg env linMemOffset).1 = .ok →
    linMemOffset.toNat < (s.probe cfg env linMemOffset).2.usableSize ∧
      linMemOffset.toNat < s.allowedSize
  outOfBounds : (s.probe cfg env linMemOffset).1 = .outOfBounds →
    s.allowedSize ≤ linMemOffset.toNat
  usable_le : s.usableSize ≤ (s.probe cfg env linMemOffset).2.usableSize

/-- What a call has to meet. The allowed sizes are those of WebAssembly memories; extending
does not put the allowed size below the usable one; and the reservation of a
`LinearMemoryAllocator` does not fail after it has taken over the new sizes. -/
def CallMeets (cfg : MemoryConfig) (env : ManagerEnvironment) :
    ManagerCall → MemoryManager → Prop
  | .init _ initialLinMemPages, .active _ => initialLinMemPages.toNat ≤ maxWasmPages
  | .init basedataSize initialLinMemPages, .passive m =>
      initialLinMemPages.toNat ≤ maxWasmPages ∧
        m.InitMeets cfg env.os basedataSize initialLinMemPages
  | .extend newTotalLinMemPages, .active m =>
      newTotalLinMemPages.toNat ≤ maxWasmPages ∧
        m.usableLinMemBytes.toNat ≤ newTotalLinMemPages.toNat * wasmPageSize
  | .extend newTotalLinMemPages, .passive m =>
      newTotalLinMemPages.toNat ≤ maxWasmPages ∧
        m.ExtendMeets cfg env.os newTotalLinMemPages
  | _, _ => True

/-- One call that meets what it has to. -/
def MeetingStep (cfg : MemoryConfig) (s s' : MemoryManager) : Prop :=
  ∃ env c, CallMeets cfg env c s ∧ s' = s.call cfg env c

/-! ### The usable size stays within the allowed size -/

variable {cfg : MemoryConfig} {env : ManagerEnvironment} {s s' : MemoryManager}

/-- The allowed size is that of a WebAssembly memory, and the usable size is within it. -/
def WithinAllowed : MemoryManager → Prop
  | .active m =>
      m.allowedLinMemPages.toNat ≤ maxWasmPages ∧
        m.usableLinMemBytes.toNat ≤ m.allowedLinMemPages.toNat * wasmPageSize
  | .passive m => m.linMemPages.toNat ≤ maxWasmPages ∧ m.Committed

/-- A new manager allows and has nothing. -/
theorem WithinAllowed.of_isNew (h : s.IsNew) : s.WithinAllowed := by
  cases h with
  | active heap hasExtensionRequest => exact ⟨Nat.zero_le _, Nat.zero_le _⟩
  | passive => exact ⟨Nat.zero_le _, fun hdata => by simp at hdata⟩

/-- The 32-bit sum of an offset and one is not above the allowed size. -/
theorem add_one_le {linMemOffset : UInt32} {size : ℕ} (hlt : linMemOffset.toNat < size) :
    (linMemOffset + 1).toNat ≤ size := by
  have hone : (1 : UInt32).toNat = 1 := rfl
  rw [UInt32.toNat_add, hone]
  exact (Nat.mod_le _ _).trans hlt

/-- Probing keeps the usable size within the allowed size, and does not make it smaller. -/
theorem WithinAllowed.probe (h : s.WithinAllowed) (hpage : cfg.DividesWasmPage)
    (env : ManagerEnvironment) (linMemOffset : UInt32) :
    (s.probe cfg env linMemOffset).2.WithinAllowed ∧
      s.usableSize ≤ (s.probe cfg env linMemOffset).2.usableSize := by
  cases s with
  | active m =>
      obtain ⟨hmax, husable⟩ := h
      obtain ⟨-, hallowed, hresult⟩ := m.probe_spec env.realloc linMemOffset
      simp only [MemoryManager.probe, WithinAllowed, usableSize]
      rw [hallowed]
      split at hresult
      · rcases hresult with ⟨-, hsame⟩ | ⟨hlt, hsize⟩
        · rw [hsame]
          exact ⟨⟨hmax, husable⟩, le_refl _⟩
        · rw [hsize]
          exact ⟨⟨hmax, max_le husable (add_one_le hlt)⟩, le_max_left _ _⟩
      · rw [hresult]
        exact ⟨⟨hmax, husable⟩, le_refl _⟩
      · rw [hresult.1]
        exact ⟨⟨hmax, husable⟩, le_refl _⟩
  | passive m =>
      obtain ⟨hcommitted, hpages, hle, -⟩ :=
        m.probe_committed hpage h.2 linMemOffset
      refine ⟨⟨?_, hcommitted⟩, hle⟩
      change (m.probe cfg env.os linMemOffset).2.linMemPages.toNat ≤ maxWasmPages
      rw [hpages]
      exact h.1

/-- **The usable size stays within the allowed size** in a call that meets what it has to. -/
theorem WithinAllowed.call (hpage : cfg.DividesWasmPage) (h : s.WithinAllowed)
    {c : ManagerCall} (hmeets : CallMeets cfg env c s) :
    (s.call cfg env c).WithinAllowed := by
  cases c with
  | init basedataSize initialLinMemPages =>
      cases s with
      | active m =>
          obtain ⟨-, hallowed, husable⟩ := m.init_sizes env.realloc basedataSize
            initialLinMemPages
          simp only [MemoryManager.call, WithinAllowed]
          rw [hallowed, husable]
          exact ⟨hmeets, Nat.zero_le _⟩
      | passive m =>
          refine ⟨?_, LinearMemoryAllocator.init_committed hpage hmeets.1 hmeets.2⟩
          rw [LinearMemoryAllocator.init_linMemPages]
          exact hmeets.1
  | extend newTotalLinMemPages =>
      cases s with
      | active m => exact hmeets
      | passive m =>
          refine ⟨?_, LinearMemoryAllocator.extend_committed h.2 fun _ => hmeets.2⟩
          rw [LinearMemoryAllocator.extend_linMemPages]
          exact hmeets.1
  | shrink minimumLength =>
      cases s with
      | active m =>
          obtain ⟨hallowed, husable⟩ := m.shrink_spec env.realloc minimumLength
          simp only [MemoryManager.call, WithinAllowed]
          rw [hallowed]
          exact ⟨h.1, husable.trans h.2⟩
      | passive m =>
          refine ⟨?_, LinearMemoryAllocator.shrink_committed h.2 minimumLength⟩
          rw [LinearMemoryAllocator.shrink_linMemPages]
          exact h.1
  | probe linMemOffset => exact (h.probe hpage env linMemOffset).1
  | setMemoryLimit memoryLimit =>
      cases s with
      | active m => exact h
      | passive m =>
          obtain ⟨limit, heq⟩ := m.setMemoryLimit_eq cfg memoryLimit
          simp only [MemoryManager.call, WithinAllowed]
          rw [heq]
          exact h

/-- The usable size stays within the allowed size in a run. -/
theorem WithinAllowed.of_run (hpage : cfg.DividesWasmPage) {s₀ : MemoryManager}
    (hnew : s₀.IsNew) (hrun : Relation.ReflTransGen (MeetingStep cfg) s₀ s) :
    s.WithinAllowed := by
  induction hrun with
  | refl => exact .of_isNew hnew
  | tail _ hstep ih =>
      obtain ⟨env, c, hmeets, rfl⟩ := hstep
      exact ih.call hpage hmeets

/-! ### The contract -/

/-- The offset whose successor is not a 32-bit number, where it is allowed, in the manager
that computes the successor with 32 bits. -/
def LastOffset (s : MemoryManager) (linMemOffset : UInt32) : Prop :=
  (∃ m, s = .active m) ∧ s.allowedPages.toNat = maxWasmPages ∧ linMemOffset.toNat = uint32Max

/-- A probe meets the contract at all but the last offset. -/
theorem ProbeContract.of_withinAllowed (hpage : cfg.DividesWasmPage) (h : s.WithinAllowed)
    {linMemOffset : UInt32} (hlast : ¬ s.LastOffset linMemOffset) :
    s.ProbeContract cfg env linMemOffset := by
  refine ⟨fun hok => ?_, fun hout => ?_, (h.probe hpage env linMemOffset).2⟩
  · cases s with
    | active m =>
        obtain ⟨hmax, husable⟩ := h
        obtain ⟨-, -, hresult⟩ := m.probe_spec env.realloc linMemOffset
        have hok' : (m.probe env.realloc linMemOffset).1 = .ok := hok
        rw [hok'] at hresult
        simp only [MemoryManager.probe, usableSize, allowedSize, allowedPages]
        rcases hresult with ⟨hlt, hsame⟩ | ⟨hlt, hsize⟩
        · rw [UInt32.lt_iff_toNat_lt] at hlt
          rw [hsame]
          exact ⟨hlt, Nat.lt_of_lt_of_le hlt husable⟩
        · refine ⟨?_, hlt⟩
          have hne : ¬ linMemOffset.toNat = uint32Max := by
            intro heq
            refine hlast ⟨⟨m, rfl⟩, ?_, heq⟩
            simp only [uint32Max, wasmPageSize, maxWasmPages, allowedPages] at *
            omega
          have hone : (1 : UInt32).toNat = 1 := rfl
          have hoffset := linMemOffset.toNat_lt
          rw [uint32Max] at hne
          rw [hsize, UInt32.toNat_add, hone, Nat.mod_eq_of_lt (by omega)]
          omega
    | passive m =>
        obtain ⟨-, -, -, hresult⟩ := m.probe_committed hpage h.2 linMemOffset
        have hok' : (m.probe cfg env.os linMemOffset).1 = .ok := hok
        rw [hok'] at hresult
        exact hresult
  · cases s with
    | active m =>
        obtain ⟨-, -, hresult⟩ := m.probe_spec env.realloc linMemOffset
        have hout' : (m.probe env.realloc linMemOffset).1 = .outOfBounds := hout
        rw [hout'] at hresult
        exact hresult.2
    | passive m =>
        obtain ⟨-, -, -, hresult⟩ := m.probe_committed hpage h.2 linMemOffset
        have hout' : (m.probe cfg env.os linMemOffset).1 = .outOfBounds := hout
        rw [hout'] at hresult
        exact hresult

/-- A probe of the last offset succeeds and makes nothing usable. -/
theorem not_probeContract_of_lastOffset {linMemOffset : UInt32}
    (hlast : s.LastOffset linMemOffset) : ¬ s.ProbeContract cfg env linMemOffset := by
  obtain ⟨⟨m, rfl⟩, hpages, hoffset⟩ := hlast
  intro hcontract
  have husable := m.usableLinMemBytes.toNat_lt
  have hsum : linMemOffset + 1 = 0 := by
    have hone : (1 : UInt32).toNat = 1 := rfl
    rw [← UInt32.toNat_inj, UInt32.toNat_add, hone, hoffset]
    rfl
  have hprobe : m.probe env.realloc linMemOffset = (.ok, m) := by
    rw [ActiveMemoryManager.probe]
    split
    · rfl
    · rw [if_neg, hsum, ActiveMemoryManager.ensureLinearSize,
        if_pos (UInt32.le_iff_toNat_le.mpr (Nat.zero_le _))]
      simp only [allowedPages, maxWasmPages] at hpages
      rw [hpages, hoffset]
      decide
  have h := (hcontract.usable (by simp [MemoryManager.probe, hprobe])).1
  simp only [MemoryManager.probe, hprobe, usableSize, hoffset, uint32Max] at h
  omega

/-- **The probe contract**: in every state of a run whose calls meet what they have to, a
probe meets the contract at all but the last offset. -/
theorem probeContract_iff (hpage : cfg.DividesWasmPage) {s₀ : MemoryManager} (hnew : s₀.IsNew)
    (hrun : Relation.ReflTransGen (MeetingStep cfg) s₀ s) (env : ManagerEnvironment)
    (linMemOffset : UInt32) :
    s.ProbeContract cfg env linMemOffset ↔ ¬ s.LastOffset linMemOffset :=
  ⟨fun hcontract hlast => not_probeContract_of_lastOffset hlast hcontract,
    fun hlast => .of_withinAllowed hpage (.of_run hpage hnew hrun) hlast⟩

/-- Surroundings that give what is asked for. -/
def grantingEnvironment : ManagerEnvironment where
  realloc heap _ minimumLength := (heap, some 0, minimumLength)
  os := { allocVirtualMemory := some 0, commitVirtualMemory := true, uncommitVirtualMemory := true }

/-- A memory of one page in a build without bounds checks: its second page is out of bounds. -/
theorem probeContract_iff_onePage :
    ProbeContract ⟨4096, false⟩ grantingEnvironment
      ((MemoryManager.passive {}).call ⟨4096, false⟩ grantingEnvironment (.init 100 1)) 70000 := by
  have hpage : MemoryConfig.DividesWasmPage ⟨4096, false⟩ := ⟨by decide, 16, rfl⟩
  refine (probeContract_iff hpage .passive
    (.single ⟨grantingEnvironment, .init 100 1, ⟨by decide, ?_⟩, rfl⟩) _ _).mpr ?_
  · exact .inr ⟨rfl, by decide, .inr rfl⟩
  · rintro ⟨⟨m, hm⟩, -⟩
    cases hm

/-- A memory of all pages in a build with bounds checks: probing its last offset succeeds and
makes nothing usable. -/
theorem lastOffset_not_probeContract :
    Relation.ReflTransGen (MeetingStep ⟨4096, false⟩) (.active (.new (fun _ _ => 0) true))
        ((MemoryManager.active (.new (fun _ _ => 0) true)).call ⟨4096, false⟩
          grantingEnvironment (.init 0 65536)) ∧
      ¬ ProbeContract ⟨4096, false⟩ grantingEnvironment
        ((MemoryManager.active (.new (fun _ _ => 0) true)).call ⟨4096, false⟩
          grantingEnvironment (.init 0 65536)) 0xFFFFFFFF := by
  have hmeets : (65536 : UInt32).toNat ≤ maxWasmPages := by decide
  refine ⟨.single ⟨grantingEnvironment, .init 0 65536, hmeets, rfl⟩, ?_⟩
  exact not_probeContract_of_lastOffset ⟨⟨_, rfl⟩, rfl, rfl⟩

end MemoryManager

end WasmCompiler
