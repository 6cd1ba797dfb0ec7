import WasmCompiler.MemoryProbes

/-!
# Regions of Linear Memory

A host function that works on the memory of a module asks the runtime for a region and gets a
pointer. The formal size of the memory is kept in the basedata, in pages; the memory manager
has a copy of it, which `memory.grow` sets in a build without bounds checks and the runtime
sets before every probe in a build with bounds checks.

## Main results

* `Coherent.step`: the copy is not above the formal size, and neither is the usable size.
* `getLinearMemoryRegion_isolated`: a region is refused if it ends behind the formal size.
-/

namespace WasmCompiler

/-! ### The runtime -/

/-- `initialMemorySize_` of a module without a memory. -/
def noLinearMemory : UInt32 := 0xFFFFFFFF

/-- The errors of a request for a region. -/
inductive RegionError where
  | linearMemoryAddressOutOfBounds
  | couldNotExtendLinearMemory
  deriving DecidableEq, Repr

/-- `mapProbeResultToErrorCode`. -/
def mapProbeResultToErrorCode (probeResult : ProbeResult) : RegionError :=
  if probeResult = .outOfBounds then .linearMemoryAddressOutOfBounds
  else .couldNotExtendLinearMemory

/-- What a runtime keeps about the memory of its module: the manager, the words of the
basedata, and what it reads from the binary. -/
structure RuntimeMemory where
  manager : MemoryManager
  linMemWasmSize : UInt32
  actualLinMemByteSize : UInt32
  initialMemorySize : UInt32
  debugMode : Bool

namespace MemoryManager

/-- `LINEAR_MEMORY_BOUNDS_CHECKS`: the builds with bounds checks use `ActiveMemoryManager`. -/
def linearMemoryBoundsChecks : MemoryManager → Bool
  | .active _ => true
  | .passive _ => false

/-- `init`; `false` stands for the errors it throws. -/
def init (cfg : MemoryConfig) (env : ManagerEnvironment)
    (basedataSize initialLinMemPages : UInt32) : MemoryManager → Bool × MemoryManager
  | .active m =>
      let (ok, m) := m.init env.realloc basedataSize initialLinMemPages
      (ok, .active m)
  | .passive m =>
      let (ok, m) := m.init cfg env.os basedataSize initialLinMemPages
      (ok, .passive m)

/-- `extend`. -/
def extend (cfg : MemoryConfig) (env : ManagerEnvironment) (newTotalLinMemPages : UInt32) :
    MemoryManager → Bool × MemoryManager
  | .active m => (true, .active (m.extend newTotalLinMemPages))
  | .passive m =>
      let (ok, m) := m.extend cfg env.os newTotalLinMemPages
      (ok, .passive m)

/-- `shrink`. -/
def shrink (cfg : MemoryConfig) (env : ManagerEnvironment) (minimumLength : UInt32) :
    MemoryManager → Bool × MemoryManager
  | .active m =>
      let (ok, m) := m.shrink env.realloc minimumLength
      (ok, .active m)
  | .passive m =>
      let (ok, m) := m.shrink cfg env.os minimumLength
      (ok, .passive m)

/-- `getLinearMemorySize`. -/
def getLinearMemorySize : MemoryManager → UInt32
  | .active m => m.usableLinMemBytes
  | .passive m => UInt32.ofNat m.linMemCommitedSize

end MemoryManager

namespace RuntimeMemory

/-- `BinaryModule::hasLinearMemory`. -/
def hasLinearMemory (s : RuntimeMemory) : Bool := s.initialMemorySize != noLinearMemory

/-- The current formal size in pages. -/
def formalPages (s : RuntimeMemory) : ℕ :=
  if s.hasLinearMemory then s.linMemWasmSize.toNat else 0

/-- The current formal size in bytes. -/
def formalSize (s : RuntimeMemory) : ℕ := s.formalPages * wasmPageSize

/-- The constructor of `Runtime`, as far as it is about the memory: the manager is set up for
`getInitialLinMemSizeInPages` and the size of the binary is written to the basedata. -/
def load (cfg : MemoryConfig) (env : ManagerEnvironment) (manager : MemoryManager)
    (basedataLength initialMemorySize : UInt32) (debugMode : Bool) : Option RuntimeMemory :=
  let getInitialLinMemSizeInPages := if initialMemorySize != noLinearMemory then initialMemorySize else 0
  match manager.init cfg env basedataLength getInitialLinMemSizeInPages with
  | (true, manager) =>
      some
        { manager
          linMemWasmSize := initialMemorySize
          actualLinMemByteSize := 0
          initialMemorySize
          debugMode }
  | (false, _) => none

/-- Write the usable size to the basedata. -/
def recordSize (s : RuntimeMemory) : RuntimeMemory :=
  { s with actualLinMemByteSize := s.manager.getLinearMemorySize }

/-- `Runtime::probeLinearMemory`, with `updateLinearMemorySizeForDebugger`. -/
def probeLinearMemory (cfg : MemoryConfig) (env : ManagerEnvironment) (s : RuntimeMemory)
    (offset : UInt32) : ProbeResult × RuntimeMemory :=
  let (probeResult, manager) := s.manager.probe cfg env offset
  let s := { s with manager }
  (probeResult, if s.debugMode then s.recordSize else s)

/-- The probe of a build with bounds checks: the manager is told the formal size before. -/
def extendAndProbe (cfg : MemoryConfig) (env : ManagerEnvironment) (s : RuntimeMemory)
    (offset : UInt32) : ProbeResult × RuntimeMemory :=
  let (probeResult, manager) :=
    (s.manager.extend cfg env s.linMemWasmSize).2.probe cfg env offset
  let s := { s with manager }
  (probeResult, if probeResult = .ok then s.recordSize else s)

/-- `Runtime::getLinearMemoryRegion`. The pointer is given by its offset from
`getLinearMemoryBase`. -/
def getLinearMemoryRegion (cfg : MemoryConfig) (env : ManagerEnvironment) (s : RuntimeMemory)
    (offset size : UInt32) : Except RegionError UInt32 × RuntimeMemory :=
  if size ≠ 0 then
    let maxAccessedByte := offset.toNat + size.toNat - 1
    let (probeResult, s) :=
      if s.manager.linearMemoryBoundsChecks then
        s.extendAndProbe cfg env (UInt32.ofNat maxAccessedByte)
      else s.probeLinearMemory cfg env (UInt32.ofNat maxAccessedByte)
    if probeResult ≠ .ok then (.error (mapProbeResultToErrorCode probeResult), s)
    else (.ok offset, s)
  else (.ok offset, s)

/-- What happens to the memory of a loaded module. -/
inductive Action where
  /-- `Runtime::initializeModule` copies a data segment that ends there. -/
  | dataSegment (maximumSegmentOffset : UInt32)
  /-- Compiled code accesses an offset that is not usable yet. -/
  | access (offset : UInt32)
  /-- `memory.grow` to so many pages. -/
  | memoryGrow (newPages : UInt32)
  /-- `Runtime::shrinkToSize`. -/
  | shrink (minimumLength : UInt32)
  /-- The host sets a memory limit. -/
  | setMemoryLimit (memoryLimit : UInt64)
  /-- The host asks for a region. -/
  | region (offset size : UInt32)
  deriving DecidableEq, Repr

/-- What an action does. The code for `memory.grow` is only there if the module has a memory;
it adds without a carry and compares with a maximum that is at most `maxWasmPages`. The new
size is written after the memory manager has been told. -/
def step (cfg : MemoryConfig) (env : ManagerEnvironment) (s : RuntimeMemory) :
    Action → RuntimeMemory
  | .dataSegment maximumSegmentOffset =>
      let (probeResult, manager) := s.manager.probe cfg env (maximumSegmentOffset - 1)
      if probeResult = .ok then
        { s with
          manager
          actualLinMemByteSize := maximumSegmentOffset }
      else { s with manager }
  | .access offset =>
      if s.manager.linearMemoryBoundsChecks then (s.extendAndProbe cfg env offset).2
      else (s.probeLinearMemory cfg env offset).2
  | .memoryGrow newPages =>
      if s.hasLinearMemory ∧ s.linMemWasmSize ≤ newPages ∧ newPages.toNat ≤ maxWasmPages then
        if s.manager.linearMemoryBoundsChecks then { s with linMemWasmSize := newPages }
        else
          match s.manager.extend cfg env newPages with
          | (true, manager) =>
              { s with
                manager
                linMemWasmSize := newPages }
          | (false, manager) => { s with manager }
      else s
  | .shrink minimumLength =>
      let (success, manager) := s.manager.shrink cfg env minimumLength
      let s := { s with manager }
      if s.manager.linearMemoryBoundsChecks ∧ success ∨
          !s.manager.linearMemoryBoundsChecks ∧ s.debugMode then
        s.recordSize
      else s
  | .setMemoryLimit memoryLimit =>
      { s with manager := s.manager.call cfg env (.setMemoryLimit memoryLimit) }
  | .region offset size => (s.getLinearMemoryRegion cfg env offset size).2

/-- What an action has to meet: an eager build can commit what `memory.grow` asks for. -/
def ActionMeets (cfg : MemoryConfig) (env : ManagerEnvironment) (s : RuntimeMemory) :
    Action → Prop
  | .memoryGrow newPages =>
      s.manager.linearMemoryBoundsChecks = false → cfg.eagerAllocation = true →
        (s.manager.extend cfg env newPages).1 = true
  | _ => True

/-- One action that meets what it has to. -/
def MeetingStep (cfg : MemoryConfig) (s s' : RuntimeMemory) : Prop :=
  ∃ env action, s.ActionMeets cfg env action ∧ s' = s.step cfg env action

end RuntimeMemory

/-! ### The copy of the formal size -/

namespace MemoryManager

variable {cfg : MemoryConfig} {env : ManagerEnvironment} {s s' : MemoryManager}

/-- The same kind of manager with the same allowed size. -/
structure SameAllowed (s s' : MemoryManager) : Prop where
  allowedPages : s'.allowedPages = s.allowedPages
  boundsChecks : s'.linearMemoryBoundsChecks = s.linearMemoryBoundsChecks

/-- Probing leaves the allowed size. -/
theorem probe_sameAllowed (hpage : cfg.DividesWasmPage) (h : s.WithinAllowed)
    (env : ManagerEnvironment) (linMemOffset : UInt32) : SameAllowed s (s.probe cfg env linMemOffset).2 := by
  cases s with
  | active m => exact ⟨(m.probe_spec env.realloc linMemOffset).2.1, rfl⟩
  | passive m => exact ⟨(m.probe_committed hpage h.2 linMemOffset).2.1, rfl⟩

/-- Shrinking leaves the allowed size. -/
theorem shrink_sameAllowed (cfg : MemoryConfig) (env : ManagerEnvironment)
    (minimumLength : UInt32) :
    SameAllowed s (s.shrink cfg env minimumLength).2 := by
  cases s with
  | active m => exact ⟨(m.shrink_spec env.realloc minimumLength).1, rfl⟩
  | passive m => exact ⟨LinearMemoryAllocator.shrink_linMemPages minimumLength, rfl⟩

/-- Setting the memory limit leaves the allowed size. -/
theorem setMemoryLimit_sameAllowed (memoryLimit : UInt64) :
    SameAllowed s (s.call cfg env (.setMemoryLimit memoryLimit)) := by
  cases s with
  | active m => exact ⟨rfl, rfl⟩
  | passive m =>
      obtain ⟨limit, heq⟩ := m.setMemoryLimit_eq cfg memoryLimit
      refine ⟨?_, rfl⟩
      simp only [call, allowedPages]
      rw [heq]

/-- Extending sets the allowed size. -/
theorem extend_allowedPages (cfg : MemoryConfig) (env : ManagerEnvironment)
    (newTotalLinMemPages : UInt32) :
    (s.extend cfg env newTotalLinMemPages).2.allowedPages = newTotalLinMemPages ∧
      (s.extend cfg env newTotalLinMemPages).2.linearMemoryBoundsChecks =
        s.linearMemoryBoundsChecks := by
  cases s with
  | active m => exact ⟨rfl, rfl⟩
  | passive m => exact ⟨LinearMemoryAllocator.extend_linMemPages newTotalLinMemPages, rfl⟩

/-- Shrinking keeps the usable size within the allowed size. -/
theorem WithinAllowed.shrink (h : s.WithinAllowed) (hpage : cfg.DividesWasmPage)
    (env : ManagerEnvironment) (minimumLength : UInt32) : (s.shrink cfg env minimumLength).2.WithinAllowed := by
  have hmeets : CallMeets cfg env (.shrink minimumLength) s := by
    cases s <;> exact trivial
  have hcall := h.call hpage hmeets
  cases s <;> exact hcall

/-- Extending to a size that is not below the allowed one keeps the usable size within it. -/
theorem WithinAllowed.extend (h : s.WithinAllowed) (cfg : MemoryConfig)
    (env : ManagerEnvironment) (newTotalLinMemPages : UInt32)
    (hle : s.allowedPages.toNat ≤ newTotalLinMemPages.toNat)
    (hmax : newTotalLinMemPages.toNat ≤ maxWasmPages) :
    (s.extend cfg env newTotalLinMemPages).2.WithinAllowed := by
  have hmul := Nat.mul_le_mul_right wasmPageSize hle
  cases s with
  | active m => exact ⟨hmax, h.2.trans hmul⟩
  | passive m =>
      refine ⟨?_, LinearMemoryAllocator.extend_committed h.2 fun hdata => .inl ?_⟩
      · change (m.extend cfg env.os newTotalLinMemPages).2.linMemPages.toNat ≤ maxWasmPages
        rw [LinearMemoryAllocator.extend_linMemPages]
        exact hmax
      · obtain ⟨-, hhigh⟩ := h.2 hdata
        simp only [allowedPages] at hmul
        rw [LinearMemoryAllocator.linearMemorySize]
        omega

/-- Setting up for the size of a WebAssembly memory. -/
theorem init_within {manager : MemoryManager} {basedataSize initialLinMemPages : UInt32}
    (hok : s.init cfg env basedataSize initialLinMemPages = (true, manager))
    (hmax : initialLinMemPages.toNat ≤ maxWasmPages) :
    manager.WithinAllowed ∧ manager.allowedPages = initialLinMemPages := by
  cases s with
  | active m =>
      obtain ⟨-, hallowed, husable⟩ := m.init_sizes env.realloc basedataSize initialLinMemPages
      obtain rfl := (congrArg Prod.snd hok).symm
      simp only [init, WithinAllowed, allowedPages]
      rw [hallowed, husable]
      exact ⟨⟨hmax, Nat.zero_le _⟩, rfl⟩
  | passive m =>
      have hpages := m.init_linMemPages cfg env.os basedataSize initialLinMemPages
      have hcommitted := LinearMemoryAllocator.init_committed_of_ok (congrArg Prod.fst hok)
      obtain rfl := (congrArg Prod.snd hok).symm
      simp only [init, WithinAllowed, allowedPages]
      rw [hpages]
      exact ⟨⟨hmax, hcommitted⟩, rfl⟩

/-- Extending succeeds in a build that does not commit. -/
theorem extend_of_lazy (hlazy : ¬ cfg.eagerAllocation = true) (newTotalLinMemPages : UInt32) :
    (s.extend cfg env newTotalLinMemPages).1 = true := by
  cases s with
  | active m => rfl
  | passive m => simp [extend, LinearMemoryAllocator.extend, hlazy]

/-- What is above the usable and the allowed size is out of bounds, or there is no memory at
all; nothing changes. -/
theorem WithinAllowed.probe_above (h : s.WithinAllowed) (cfg : MemoryConfig)
    (env : ManagerEnvironment) {linMemOffset : UInt32}
    (hle : s.allowedSize ≤ linMemOffset.toNat) :
    (s.probe cfg env linMemOffset).1 ≠ .ok ∧ (s.probe cfg env linMemOffset).2 = s := by
  cases s with
  | active m =>
      have hprobe : m.probe env.realloc linMemOffset = (.outOfBounds, m) := by
        have hallowed : m.allowedLinMemPages.toNat * wasmPageSize ≤ linMemOffset.toNat := hle
        have husable : ¬ linMemOffset < m.usableLinMemBytes := by
          rw [UInt32.lt_iff_toNat_lt, Nat.not_lt]
          exact h.2.trans hle
        rw [ActiveMemoryManager.probe, if_neg husable, if_pos hallowed]
      simp [MemoryManager.probe, hprobe]
  | passive m =>
      have hprobe : ∃ result, result ≠ .ok ∧ m.probe cfg env.os linMemOffset = (result, m) := by
        rw [LinearMemoryAllocator.probe]
        split
        · exact ⟨.allocationFailure, by decide, rfl⟩
        · case _ hdata =>
            rw [Option.isNone_iff_eq_none, ← ne_eq, ← Option.isSome_iff_ne_none] at hdata
            obtain ⟨-, hhigh⟩ := h.2 hdata
            simp only [allowedSize, allowedPages] at hle
            rw [LinearMemoryAllocator.linMemCommitedSize_eq h.2 hdata, if_neg, if_neg]
            · exact ⟨.outOfBounds, by decide, rfl⟩
            · omega
            · rw [LinearMemoryAllocator.linearMemorySize]
              omega
      obtain ⟨result, hne, hprobe⟩ := hprobe
      simpa [MemoryManager.probe, hprobe] using hne

end MemoryManager

namespace RuntimeMemory

variable {cfg : MemoryConfig} {env : ManagerEnvironment} {s s' : RuntimeMemory}

/-- The usable size is within the allowed size, which is not above the formal size, and is the
formal size where the runtime does not set it before a probe. -/
structure Coherent (s : RuntimeMemory) : Prop where
  within : s.manager.WithinAllowed
  allowed_le : s.manager.allowedPages.toNat ≤ s.formalPages
  formal_le : s.formalPages ≤ maxWasmPages
  passive : s.manager.linearMemoryBoundsChecks = false →
    s.manager.allowedPages.toNat = s.formalPages
  active : s.manager.linearMemoryBoundsChecks = true → s.hasLinearMemory = true

/-- Another manager with the same allowed size. -/
theorem Coherent.withManager (h : s.Coherent) {manager : MemoryManager}
    (hwithin : manager.WithinAllowed) (hsame : s.manager.SameAllowed manager)
    (actualLinMemByteSize : UInt32) :
    Coherent { s with manager, actualLinMemByteSize } where
  within := hwithin
  allowed_le := by
    simp only [hsame.allowedPages]
    exact h.allowed_le
  formal_le := h.formal_le
  passive hpassive := by
    simp only [hsame.boundsChecks] at hpassive
    simp only [hsame.allowedPages]
    exact h.passive hpassive
  active hactive := by
    simp only [hsame.boundsChecks] at hactive
    exact h.active hactive

/-- The probe of a build without bounds checks. -/
theorem Coherent.probeLinearMemory (h : s.Coherent) (hpage : cfg.DividesWasmPage)
    (offset : UInt32) : (s.probeLinearMemory cfg env offset).2.Coherent := by
  have hwithin := (h.within.probe hpage env offset).1
  have hsame := s.manager.probe_sameAllowed hpage h.within env offset
  simp only [RuntimeMemory.probeLinearMemory]
  split
  · exact h.withManager hwithin hsame _
  · exact h.withManager hwithin hsame _

/-- The manager when it has been told the formal size. -/
theorem Coherent.extended (h : s.Coherent) (cfg : MemoryConfig) (env : ManagerEnvironment)
    (hmemory : s.hasLinearMemory = true) :
    Coherent { s with manager := (s.manager.extend cfg env s.linMemWasmSize).2 } := by
  have hformal : s.formalPages = s.linMemWasmSize.toNat := by rw [formalPages, if_pos hmemory]
  obtain ⟨hallowed, hkind⟩ := s.manager.extend_allowedPages cfg env s.linMemWasmSize
  refine ⟨h.within.extend cfg env _ (hformal ▸ h.allowed_le) (hformal ▸ h.formal_le), ?_, h.formal_le,
    fun _ => ?_, fun _ => hmemory⟩
  · simp only [hallowed]
    exact hformal.ge
  · simp only [hallowed]
    exact hformal.symm

/-- The probe of a build with bounds checks. -/
theorem Coherent.extendAndProbe (h : s.Coherent) (hpage : cfg.DividesWasmPage)
    (hmemory : s.hasLinearMemory = true) (offset : UInt32) :
    (s.extendAndProbe cfg env offset).2.Coherent := by
  have hext := h.extended cfg env hmemory
  have hwithin := (hext.within.probe hpage env offset).1
  have hsame := MemoryManager.probe_sameAllowed hpage hext.within env offset
  simp only [RuntimeMemory.extendAndProbe]
  split
  · exact hext.withManager hwithin hsame _
  · exact hext.withManager hwithin hsame _

/-- A larger formal size. -/
theorem Coherent.memoryGrow (h : s.Coherent) {newPages : UInt32}
    (hmeets : s.ActionMeets cfg env (.memoryGrow newPages)) :
    (s.step cfg env (.memoryGrow newPages)).Coherent := by
  simp only [step]
  split
  · case _ hguard =>
      obtain ⟨hmemory, hle, hmax⟩ := hguard
      have hle' := UInt32.le_iff_toNat_le.mp hle
      have hformal : s.formalPages = s.linMemWasmSize.toNat := by rw [formalPages, if_pos hmemory]
      have hallowed := h.allowed_le
      have hgrown : ∀ manager, formalPages { s with manager, linMemWasmSize := newPages } =
          newPages.toNat := fun _ => if_pos hmemory
      split
      · case _ hactive =>
          refine ⟨h.within, ?_, (hgrown _).trans_le hmax, fun hpassive => ?_, fun _ => hmemory⟩
          · rw [hgrown]
            simp only
            omega
          · simp [hactive] at hpassive
      · case _ hpassive =>
          rw [Bool.not_eq_true] at hpassive
          obtain ⟨hpages, hkind⟩ := s.manager.extend_allowedPages cfg env newPages
          have hwithin := h.within.extend cfg env newPages (by omega) hmax
          split
          · case _ manager heq =>
              rw [heq] at hpages hkind hwithin
              refine ⟨hwithin, ?_, (hgrown _).trans_le hmax, fun _ => ?_, fun _ => hmemory⟩
              · rw [hgrown]
                simp only [hpages, le_refl]
              · rw [hgrown]
                simp only [hpages]
          · case _ manager heq =>
              have hok : (s.manager.extend cfg env newPages).1 = true := by
                by_cases heager : cfg.eagerAllocation = true
                · exact hmeets hpassive heager
                · exact MemoryManager.extend_of_lazy heager newPages
              rw [heq] at hok
              simp at hok
  · exact h

/-- **One action** keeps the copy of the formal size. -/
theorem Coherent.step (h : s.Coherent) (hpage : cfg.DividesWasmPage) {action : Action}
    (hmeets : s.ActionMeets cfg env action) : (s.step cfg env action).Coherent := by
  cases action with
  | dataSegment maximumSegmentOffset =>
      have hwithin := (h.within.probe hpage env (maximumSegmentOffset - 1)).1
      have hsame := s.manager.probe_sameAllowed hpage h.within env
        (maximumSegmentOffset - 1)
      simp only [RuntimeMemory.step]
      split
      · exact h.withManager hwithin hsame _
      · exact h.withManager hwithin hsame _
  | access offset =>
      simp only [RuntimeMemory.step]
      split
      · case _ hactive => exact h.extendAndProbe hpage (h.active hactive) offset
      · exact h.probeLinearMemory hpage offset
  | memoryGrow newPages => exact h.memoryGrow hmeets
  | shrink minimumLength =>
      have hwithin := h.within.shrink hpage env minimumLength
      have hsame := s.manager.shrink_sameAllowed cfg env minimumLength
      simp only [RuntimeMemory.step]
      split
      · exact h.withManager hwithin hsame _
      · exact h.withManager hwithin hsame _
  | setMemoryLimit memoryLimit =>
      have hmeets : MemoryManager.CallMeets cfg env (.setMemoryLimit memoryLimit) s.manager := by
        cases s.manager <;> exact trivial
      exact h.withManager (h.within.call hpage hmeets) (s.manager.setMemoryLimit_sameAllowed memoryLimit) _
  | region offset size =>
      simp only [RuntimeMemory.step, getLinearMemoryRegion]
      split
      · split
        · case _ hactive =>
            split <;> exact h.extendAndProbe hpage (h.active hactive) _
        · split <;> exact h.probeLinearMemory hpage _
      · exact h

/-- A module whose memory could be set up, in a build with bounds checks one that has a
memory. -/
def Loaded (cfg : MemoryConfig) (s : RuntimeMemory) : Prop :=
  (∃ env manager basedataLength initialMemorySize debugMode,
    load cfg env manager basedataLength initialMemorySize debugMode = some s) ∧
  (s.hasLinearMemory = true → s.initialMemorySize.toNat ≤ maxWasmPages) ∧
  (s.manager.linearMemoryBoundsChecks = true → s.hasLinearMemory = true)

/-- The memory of a module that has just been loaded. -/
theorem Coherent.of_loaded (h : s.Loaded cfg) : s.Coherent := by
  obtain ⟨⟨env, manager, basedataLength, initialMemorySize, debugMode, hload⟩, hmax, hactive⟩ := h
  simp only [load] at hload
  split at hload
  · case _ manager' hinit =>
      obtain rfl := (Option.some.inj hload).symm
      have hformal : ((if (initialMemorySize != noLinearMemory) = true then initialMemorySize
          else 0) : UInt32).toNat = if (initialMemorySize != noLinearMemory) = true then
            initialMemorySize.toNat else 0 := by
        split <;> rfl
      have hmax' : (if (initialMemorySize != noLinearMemory) = true then
          initialMemorySize.toNat else 0) ≤ maxWasmPages := by
        split
        · case _ hmemory => exact hmax hmemory
        · exact Nat.zero_le _
      obtain ⟨hwithin, hpages⟩ := MemoryManager.init_within hinit (hformal.trans_le hmax')
      have hallowed : manager'.allowedPages.toNat =
          if (initialMemorySize != noLinearMemory) = true then initialMemorySize.toNat else 0 := by
        rw [hpages, hformal]
      exact ⟨hwithin, hallowed.le, hmax', fun _ => hallowed, hactive⟩
  · cases hload

/-- A module keeps its memory coherent in a run. -/
theorem Coherent.of_run (hpage : cfg.DividesWasmPage) {s₀ : RuntimeMemory}
    (hloaded : s₀.Loaded cfg) (hrun : Relation.ReflTransGen (MeetingStep cfg) s₀ s) :
    s.Coherent := by
  induction hrun with
  | refl => exact .of_loaded hloaded
  | tail _ hstep ih =>
      obtain ⟨env, action, hmeets, rfl⟩ := hstep
      exact ih.step hpage hmeets

/-! ### Isolation -/

/-- The memory is the same; the copy of the allowed size and the record of the usable size may
have been brought up to date. -/
def SameMemory (s s' : RuntimeMemory) : Prop :=
  s'.linMemWasmSize = s.linMemWasmSize ∧ s'.initialMemorySize = s.initialMemorySize ∧
    match s.manager, s'.manager with
    | .active m, .active m' => m' = { m with allowedLinMemPages := m'.allowedLinMemPages }
    | .passive m, .passive m' => m' = m
    | _, _ => False

/-- A build with bounds checks refuses a probe above the formal size. -/
theorem Coherent.extendAndProbe_above (h : s.Coherent) (cfg : MemoryConfig)
    (env : ManagerEnvironment)
    (hkind : s.manager.linearMemoryBoundsChecks = true) {offset : UInt32}
    (hle : s.formalSize ≤ offset.toNat) :
    (s.extendAndProbe cfg env offset).1 ≠ .ok ∧ SameMemory s (s.extendAndProbe cfg env offset).2 := by
  have hmemory := h.active hkind
  have hext := h.extended cfg env hmemory
  obtain ⟨hpages, -⟩ := s.manager.extend_allowedPages cfg env s.linMemWasmSize
  have hle' : (s.manager.extend cfg env s.linMemWasmSize).2.allowedSize ≤ offset.toNat := by
    rw [MemoryManager.allowedSize, hpages]
    rwa [formalSize, formalPages, if_pos hmemory] at hle
  obtain ⟨hne, hsame⟩ := hext.within.probe_above cfg env hle'
  refine ⟨hne, ?_⟩
  simp only [RuntimeMemory.extendAndProbe, if_neg hne, hsame]
  refine ⟨rfl, rfl, ?_⟩
  cases hm : s.manager with
  | active m => rfl
  | passive m => simp [hm, MemoryManager.linearMemoryBoundsChecks] at hkind

/-- A build without bounds checks refuses a probe above the formal size. -/
theorem Coherent.probeLinearMemory_above (h : s.Coherent) (cfg : MemoryConfig)
    (env : ManagerEnvironment)
    (hkind : s.manager.linearMemoryBoundsChecks = false) {offset : UInt32}
    (hle : s.formalSize ≤ offset.toNat) :
    (s.probeLinearMemory cfg env offset).1 ≠ .ok ∧
      SameMemory s (s.probeLinearMemory cfg env offset).2 := by
  have hle' : s.manager.allowedSize ≤ offset.toNat := by
    rw [MemoryManager.allowedSize, h.passive hkind]
    exact hle
  obtain ⟨hne, hsame⟩ := h.within.probe_above cfg env hle'
  refine ⟨hne, ?_⟩
  have hmemory : ∀ actualLinMemByteSize, SameMemory s { s with actualLinMemByteSize } := by
    intro actualLinMemByteSize
    refine ⟨rfl, rfl, ?_⟩
    cases hm : s.manager with
    | active m => simp [hm, MemoryManager.linearMemoryBoundsChecks] at hkind
    | passive m => rfl
  simp only [RuntimeMemory.probeLinearMemory, hsame]
  split
  · exact hmemory _
  · exact hmemory _

/-- A region is given only if it ends within the formal size; otherwise it is refused and the
memory stays the same. -/
structure RegionIsolated (cfg : MemoryConfig) (env : ManagerEnvironment) (s : RuntimeMemory)
    (offset size : UInt32) : Prop where
  within : ∀ p, (s.getLinearMemoryRegion cfg env offset size).1 = .ok p →
    offset.toNat + size.toNat ≤ s.formalSize
  refused : s.formalSize < offset.toNat + size.toNat →
    (∃ e, (s.getLinearMemoryRegion cfg env offset size).1 = .error e) ∧
      SameMemory s (s.getLinearMemoryRegion cfg env offset size).2

/-- **Isolation** of a region that is not empty and whose last byte is a 32-bit number. -/
theorem Coherent.regionIsolated (h : s.Coherent) {offset size : UInt32} (hsize : size ≠ 0)
    (hfit : offset.toNat + size.toNat ≤ 2 ^ 32) : s.RegionIsolated cfg env offset size := by
  have hpos : 0 < size.toNat := by
    rw [Nat.pos_iff_ne_zero, ne_eq, ← UInt32.toNat_zero, UInt32.toNat_inj]
    exact hsize
  have hlast : (UInt32.ofNat (offset.toNat + size.toNat - 1)).toNat =
      offset.toNat + size.toNat - 1 := by
    rw [UInt32.toNat_ofNat', Nat.mod_eq_of_lt (by omega)]
  have hrefused : s.formalSize < offset.toNat + size.toNat →
      (∃ e, (s.getLinearMemoryRegion cfg env offset size).1 = .error e) ∧
        SameMemory s (s.getLinearMemoryRegion cfg env offset size).2 := by
    intro hout
    have hle : s.formalSize ≤ (UInt32.ofNat (offset.toNat + size.toNat - 1)).toNat := by
      rw [hlast]
      omega
    rw [getLinearMemoryRegion, if_pos hsize]
    cases hkind : s.manager.linearMemoryBoundsChecks with
    | true =>
        obtain ⟨hne, hsame⟩ := h.extendAndProbe_above cfg env hkind hle
        simp only [if_true, if_pos hne]
        exact ⟨⟨_, rfl⟩, hsame⟩
    | false =>
        obtain ⟨hne, hsame⟩ := h.probeLinearMemory_above cfg env hkind hle
        simp only [Bool.false_eq_true, if_false, if_pos hne]
        exact ⟨⟨_, rfl⟩, hsame⟩
  refine ⟨fun p hok => ?_, hrefused⟩
  by_contra hout
  obtain ⟨⟨e, herror⟩, -⟩ := hrefused (Nat.lt_of_not_le hout)
  rw [herror] at hok
  cases hok

/-- A module with one page, in a build without bounds checks. -/
def onePage : RuntimeMemory where
  manager := (MemoryManager.passive {}).call ⟨4096, false⟩ MemoryManager.grantingEnvironment
    (.init 100 1)
  linMemWasmSize := 1
  actualLinMemByteSize := 0
  initialMemorySize := 1
  debugMode := false

/-- It has been loaded. -/
theorem onePage_loaded : onePage.Loaded ⟨4096, false⟩ :=
  ⟨⟨MemoryManager.grantingEnvironment, .passive {}, 100, 1, false, rfl⟩, fun _ => by decide,
    fun h => by cases h⟩

end RuntimeMemory

end WasmCompiler
