import WasmCompiler.MemoryContracts

/-!
# Shrinking by the Runtime

The runtime shrinks the memory of a module to a minimum length, and, in a build with bounds
checks, to the basedata or to what is active. It hands the length to the memory manager, which
counts the bytes of the linear memory. What is active is counted with the basedata, though, and
handed on like that.

## Main results

* `reserved_of_run`: in every state of a run the sizes fit into the reservation, or into 32 bits
  with the basedata.
* `shrinkSafe_iff`: when shrinking does not throw and keeps the bytes below the length, if the
  reallocation succeeds.
-/

namespace WasmCompiler

/-! ### The operations -/

namespace RuntimeMemory

/-- `Runtime::shrinkToSize`; `false` stands for the error it throws. -/
def shrinkToSize (cfg : MemoryConfig) (env : ManagerEnvironment) (s : RuntimeMemory)
    (minimumLength : UInt32) : Bool × RuntimeMemory :=
  let (success, manager) := s.manager.shrink cfg env minimumLength
  let s := { s with manager }
  if s.manager.linearMemoryBoundsChecks then
    if success then (true, s.recordSize) else (false, s)
  else (true, if s.debugMode then s.recordSize else s)

/-- `getMemoryUsage` of a build with bounds checks. -/
def getMemoryUsage (s : RuntimeMemory) (basedataLength : UInt32) : ℕ :=
  s.manager.getLinearMemorySize.toNat + basedataLength.toNat

/-- The operations that shrink the memory; the last two are there in a build with bounds
checks. -/
inductive ShrinkOperation where
  | shrinkToSize (minimumLength : UInt32)
  | reallocShrinkToBasedataSize
  | reallocShrinkToActiveSize
  deriving DecidableEq, Repr

/-- An operation that is there. -/
def ShrinkOperation.Offered (s : RuntimeMemory) : ShrinkOperation → Prop
  | .shrinkToSize _ => True
  | _ => s.manager.linearMemoryBoundsChecks = true

/-- What an operation does. -/
def perform (cfg : MemoryConfig) (env : ManagerEnvironment) (basedataLength : UInt32)
    (s : RuntimeMemory) : ShrinkOperation → Bool × RuntimeMemory
  | .shrinkToSize minimumLength => s.shrinkToSize cfg env minimumLength
  | .reallocShrinkToBasedataSize => s.shrinkToSize cfg env 0
  | .reallocShrinkToActiveSize =>
      s.shrinkToSize cfg env (UInt32.ofNat (s.getMemoryUsage basedataLength))

/-- The bytes of the linear memory that an operation is to keep. -/
def keptLength (s : RuntimeMemory) : ShrinkOperation → ℕ
  | .shrinkToSize minimumLength => minimumLength.toNat
  | .reallocShrinkToBasedataSize => 0
  | .reallocShrinkToActiveSize => s.manager.getLinearMemorySize.toNat

/-- The requests of an operation are granted. -/
structure Grants (env : ManagerEnvironment) : Prop where
  realloc : ∀ heap memory minimumLength,
    (env.realloc heap memory minimumLength).2.1.isSome = true ∧
      minimumLength ≤ (env.realloc heap memory minimumLength).2.2
  commit : env.os.commitVirtualMemory = true
  uncommit : env.os.uncommitVirtualMemory = true

/-- An operation does not throw, and the bytes that it is to keep are usable and the same. -/
structure ShrinkSafe (cfg : MemoryConfig) (env : ManagerEnvironment) (basedataLength : UInt32)
    (s : RuntimeMemory) (pages : ℕ → UInt8) (operation : ShrinkOperation) : Prop where
  returns : (s.perform cfg env basedataLength operation).1 = true
  kept : ∀ offset < s.keptLength operation, ∀ v, s.manager.read pages offset = some v →
    (s.perform cfg env basedataLength operation).2.manager.read
      (s.manager.pagesAfter (s.perform cfg env basedataLength operation).2.manager pages) offset =
        some v

/-- When an operation is safe. -/
def ShrinkWorks (cfg : MemoryConfig) (basedataLength : UInt32) (s : RuntimeMemory) :
    ShrinkOperation → Prop
  | .shrinkToSize minimumLength =>
      match s.manager with
      | .active m =>
          m.jobMemory.hasExtensionRequest = false ∨
            minimumLength.toNat ≤ m.usableLinMemBytes.toNat
      | .passive m =>
          cfg.osMemoryPageSize ∣ minimumLength.toNat ∨ m.linearMemorySize < minimumLength.toNat
  | .reallocShrinkToBasedataSize => True
  | .reallocShrinkToActiveSize =>
      match s.manager with
      | .active m => m.jobMemory.hasExtensionRequest = false ∨ basedataLength = 0
      | .passive _ => True

end RuntimeMemory

/-! ### Sizes that fit -/

namespace ActiveMemoryManager

variable {realloc : ReallocFnc} {m : ActiveMemoryManager}

/-- The basedata and the usable bytes have an even 32-bit size. -/
def Fits (m : ActiveMemoryManager) : Prop :=
  m.basedataSize.toNat + m.usableLinMemBytes.toNat < uint32Max

/-- A size for which there is capacity fits. -/
theorem ensureCapacityForLinearSize_fits {m' : ActiveMemoryManager} {requiredLinearBytes : UInt32}
    (hok : m.ensureCapacityForLinearSize realloc requiredLinearBytes = (true, m')) :
    m.basedataSize.toNat + requiredLinearBytes.toNat < uint32Max := by
  simp only [ensureCapacityForLinearSize] at hok
  split at hok
  · cases hok
  · case _ hle =>
      split at hok
      · cases hok
      · case _ hodd =>
          simp only [uint32Max] at hle hodd ⊢
          omega

/-- Bytes that are made usable fit. -/
theorem Fits.ensureLinearSize (h : m.Fits) (realloc : ReallocFnc) (requiredLinearBytes : UInt32) :
    (m.ensureLinearSize realloc requiredLinearBytes).2.Fits := by
  obtain ⟨hsizes, -⟩ := m.ensureCapacityForLinearSize_spec realloc requiredLinearBytes
  rw [ActiveMemoryManager.ensureLinearSize]
  split
  · exact h
  · split
    · case _ m' heq =>
        rw [heq] at hsizes
        rw [Fits, hsizes.basedataSize, hsizes.usableLinMemBytes]
        exact h
    · case _ m' heq =>
        have hfits := ensureCapacityForLinearSize_fits heq
        rw [heq] at hsizes
        split
        · rw [Fits, hsizes.basedataSize, hsizes.usableLinMemBytes]
          exact h
        · have hmemset := memsetZero_sameSizes (m := m')
            (m'.basedataSize.toNat + m'.usableLinMemBytes.toNat)
            (m'.basedataSize.toNat + requiredLinearBytes.toNat)
          simp only [Fits]
          rw [hmemset.basedataSize, hsizes.basedataSize]
          exact hfits

/-- A probed memory fits. -/
theorem Fits.probe (h : m.Fits) (realloc : ReallocFnc) (linMemOffset : UInt32) :
    (m.probe realloc linMemOffset).2.Fits := by
  rw [ActiveMemoryManager.probe]
  split
  · exact h
  · split
    · exact h
    · have hfits := h.ensureLinearSize realloc (linMemOffset + 1)
      split <;> · case _ heq => rwa [heq] at hfits

/-- Shrinking leaves the basedata. -/
theorem shrink_basedataSize (realloc : ReallocFnc) (m : ActiveMemoryManager)
    (minimumLength : UInt32) :
    (m.shrink realloc minimumLength).2.basedataSize = m.basedataSize := by
  simp only [shrink]
  split_ifs <;> rfl

/-- A shrunk memory fits. -/
theorem Fits.shrink (h : m.Fits) (realloc : ReallocFnc) (minimumLength : UInt32) :
    (m.shrink realloc minimumLength).2.Fits := by
  obtain ⟨-, husable⟩ := m.shrink_spec realloc minimumLength
  rw [Fits, shrink_basedataSize]
  exact Nat.lt_of_le_of_lt (Nat.add_le_add_left husable _) h

/-- A memory that was set up fits. -/
theorem Fits.of_init {m' : ActiveMemoryManager} {basedataSize initialLinMemPages : UInt32}
    (hok : m.init realloc basedataSize initialLinMemPages = (true, m')) :
    m'.basedataSize = basedataSize ∧ m'.Fits := by
  obtain ⟨hbasedata, -, husable⟩ := m.init_sizes realloc basedataSize initialLinMemPages
  rw [hok] at hbasedata husable
  refine ⟨hbasedata, ?_⟩
  rw [Fits, hbasedata, husable]
  simp only [init] at hok
  split at hok
  · cases hok
  · case _ heq => exact ensureCapacityForLinearSize_fits heq

/-- Shrinking a memory that fits, when the requests are granted. -/
theorem shrink_of_granted (h : m.Fits) {minimumLength : UInt32}
    (hgrants : ∀ heap memory minimumLength, (realloc heap memory minimumLength).2.1.isSome = true ∧
      minimumLength ≤ (realloc heap memory minimumLength).2.2) :
    (m.shrink realloc minimumLength).1 = true ↔
      m.jobMemory.hasExtensionRequest = false ∨
        minimumLength.toNat ≤ m.usableLinMemBytes.toNat := by
  rw [← UInt32.le_iff_toNat_le, ← UInt32.not_lt]
  simp only [shrink]
  split
  · case _ hno => exact iff_of_true rfl (.inl (by simpa using hno))
  · case _ hyes =>
      have hyes' : ¬m.jobMemory.hasExtensionRequest = false := by simpa using hyes
      split
      · case _ hlt => simp [hlt, hyes']
      · case _ hle =>
          have hle' := UInt32.le_iff_toNat_le.mp (UInt32.not_lt.mp hle)
          simp only [Fits, uint32Max] at h
          rw [if_neg (by simp only [uint32Max]; omega), if_neg (by simp only [uint32Max]; omega)]
          refine iff_of_true ?_ (.inr hle)
          split
          · rw [if_neg]
            obtain ⟨hdata, hsize⟩ := hgrants m.heap m.jobMemory
              (roundedRequiredSize (m.basedataSize.toNat + minimumLength.toNat))
            rw [not_or, UInt32.not_lt, Option.isNone_iff_eq_none, ← ne_eq,
              ← Option.isSome_iff_ne_none]
            exact ⟨hdata, hsize⟩
          · rfl

end ActiveMemoryManager

namespace LinearMemoryAllocator

variable {cfg : MemoryConfig} {os : SystemCalls} {m : LinearMemoryAllocator}

/-- The committed bytes are those of the basedata and more, and within the limit and the
reservation. -/
structure Within (m : LinearMemoryAllocator) : Prop where
  data : m.virtualMemoryAllocator.data ≠ none
  basedata : m.pagedBasedataSize ≤ m.virtualMemoryAllocator.committedSize
  limit : m.virtualMemoryAllocator.committedSize ≤ m.pagedMemoryLimit
  total : m.virtualMemoryAllocator.committedSize ≤ m.virtualMemoryAllocator.totalSize
  address : m.virtualMemoryAllocator.totalSize < 2 ^ 64

/-- A commit that covers the basedata. -/
theorem Within.commit (h : m.Within) (os : SystemCalls) {newPagedSize : ℕ}
    (hle : m.pagedBasedataSize ≤ newPagedSize) : (m.commit os newPagedSize).2.Within := by
  by_cases hrefuses : m.Refuses os newPagedSize
  · obtain ⟨result, desired, -, heq⟩ := commit_of_refuses hrefuses
    rw [heq]
    exact ⟨h.data, h.basedata, h.limit, h.total, h.address⟩
  · rw [commit_of_not_refuses hrefuses]
    simp only [Refuses, not_or, Nat.not_lt] at hrefuses
    exact ⟨h.data, hle, hrefuses.1, hrefuses.2.1, h.address⟩

/-- The committed size as 64 bits is the usable size. -/
theorem Within.linMemCommitedSize_eq (h : m.Within) :
    m.linMemCommitedSize = m.linearMemorySize := by
  have hbasedata := h.basedata
  have htotal := h.total
  have haddress := h.address
  rw [linMemCommitedSize, linearMemorySize]
  omega

/-- Probing. -/
theorem Within.probe (h : m.Within) (cfg : MemoryConfig) (os : SystemCalls)
    (linMemOffset : UInt32) : (m.probe cfg os linMemOffset).2.Within := by
  have hcommit := h.commit os (Nat.le_add_right m.pagedBasedataSize
    (cfg.roundUp (linMemOffset.toNat + 1)))
  rw [LinearMemoryAllocator.probe]
  split
  · exact h
  · split
    · exact h
    · split
      · split <;> · case _ heq => rwa [heq] at hcommit
      · exact h

/-- Extending. -/
theorem Within.extend (h : m.Within) (cfg : MemoryConfig) (os : SystemCalls)
    (newTotalLinMemPages : UInt32) : (m.extend cfg os newTotalLinMemPages).2.Within := by
  have h' : Within { m with linMemPages := newTotalLinMemPages } :=
    ⟨h.data, h.basedata, h.limit, h.total, h.address⟩
  have hcommit := h'.commit os (Nat.le_add_right m.pagedBasedataSize
    (newTotalLinMemPages.toNat * wasmPageSize))
  simp only [LinearMemoryAllocator.extend]
  split
  · split <;> · case _ heq => rwa [heq] at hcommit
  · exact h'

/-- Shrinking. -/
theorem Within.shrink (h : m.Within) (cfg : MemoryConfig) (os : SystemCalls)
    (minimumLength : UInt32) : (m.shrink cfg os minimumLength).2.Within := by
  have hcommit := h.commit os (Nat.le_add_right m.pagedBasedataSize
    (cfg.roundDown minimumLength.toNat))
  rw [LinearMemoryAllocator.shrink]
  split
  · exact h
  · split
    · exact h
    · split <;> · case _ heq => rwa [heq] at hcommit

/-- Setting the limit. -/
theorem Within.setMemoryLimit (h : m.Within) (cfg : MemoryConfig) (memoryLimit : UInt64) :
    (m.setMemoryLimit cfg memoryLimit).2.Within := by
  rw [LinearMemoryAllocator.setMemoryLimit]
  split
  · exact h
  · case _ hle => exact ⟨h.data, h.basedata, Nat.le_of_not_lt hle, h.total, h.address⟩

/-- Rounding up adds less than a page. -/
theorem roundUp_lt (hpage : cfg.DividesWasmPage) (size : ℕ) :
    cfg.roundUp size < size + wasmPageSize := by
  obtain ⟨hpos, hdvd⟩ := hpage
  have hle : cfg.osMemoryPageSize ≤ wasmPageSize := Nat.le_of_dvd (by decide) hdvd
  have hdown := roundDown_le cfg (size + cfg.osMemoryPageSize - 1)
  rw [MemoryConfig.roundUp]
  omega

/-- Setting up. -/
theorem Within.of_init (hpage : cfg.DividesWasmPage) {m' : LinearMemoryAllocator}
    {basedataSize initialLinMemPages : UInt32}
    (hok : m.init cfg os basedataSize initialLinMemPages = (true, m')) : m'.Within := by
  have hbasedata := roundUp_lt hpage basedataSize.toNat
  have htotal := roundUp_lt hpage
    (cfg.roundUp basedataSize.toNat + maxWasmPages * wasmPageSize + offsetGuardRegionSize)
  have hsize := basedataSize.toNat_lt
  obtain ⟨hlow, -⟩ := initialCommit_bounds cfg basedataSize initialLinMemPages
  simp only [init] at hok
  split at hok
  · cases hok
  · case _ address haddress =>
      by_cases hrefuses : Refuses os (reserved cfg { m with
          basedataStart := none
          pagedBasedataSize := cfg.roundUp basedataSize.toNat
          linMemPages := initialLinMemPages } address)
        (initialCommit cfg basedataSize initialLinMemPages)
      · obtain ⟨result, desired, hresult, heq⟩ := commit_of_refuses hrefuses
        rw [heq] at hok
        rcases result with _ | _ | _
        · cases hok
        · cases hok
        · exact absurd rfl hresult
      · rw [commit_of_not_refuses hrefuses] at hok
        cases hok
        simp only [Refuses, not_or, Nat.not_lt] at hrefuses
        refine ⟨Option.some_ne_none _, hlow, hrefuses.1, hrefuses.2.1, ?_⟩
        simp only [reserved, maxWasmPages, offsetGuardRegionSize, wasmPageSize] at hbasedata htotal ⊢
        omega

end LinearMemoryAllocator

/-! ### Runs -/

namespace MemoryManager

/-- The sizes fit into 32 bits with the basedata, or into the reservation. -/
def Reserved (basedataLength : UInt32) : MemoryManager → Prop
  | .active m => m.basedataSize = basedataLength ∧ m.Fits
  | .passive m => m.Within

variable {cfg : MemoryConfig} {env : ManagerEnvironment} {s : MemoryManager}
  {basedataLength : UInt32}

/-- Setting up. -/
theorem Reserved.of_init (hpage : cfg.DividesWasmPage) {manager : MemoryManager}
    {initialLinMemPages : UInt32}
    (hok : s.init cfg env basedataLength initialLinMemPages = (true, manager)) :
    manager.Reserved basedataLength := by
  have hfirst : (s.init cfg env basedataLength initialLinMemPages).1 = true := congrArg Prod.fst hok
  obtain rfl := (congrArg Prod.snd hok).symm
  cases s with
  | active m => exact ActiveMemoryManager.Fits.of_init (Prod.ext hfirst rfl)
  | passive m => exact LinearMemoryAllocator.Within.of_init hpage (Prod.ext hfirst rfl)

/-- Probing. -/
theorem Reserved.probe (h : s.Reserved basedataLength) (cfg : MemoryConfig)
    (env : ManagerEnvironment) (linMemOffset : UInt32) :
    (s.probe cfg env linMemOffset).2.Reserved basedataLength := by
  cases s with
  | active m =>
      obtain ⟨hbasedata, -⟩ := m.probe_spec env.realloc linMemOffset
      exact ⟨hbasedata.trans h.1, h.2.probe env.realloc linMemOffset⟩
  | passive m => exact LinearMemoryAllocator.Within.probe h cfg env.os linMemOffset

/-- Extending. -/
theorem Reserved.extend (h : s.Reserved basedataLength) (cfg : MemoryConfig)
    (env : ManagerEnvironment) (newTotalLinMemPages : UInt32) :
    (s.extend cfg env newTotalLinMemPages).2.Reserved basedataLength := by
  cases s with
  | active m => exact h
  | passive m => exact LinearMemoryAllocator.Within.extend h cfg env.os newTotalLinMemPages

/-- Shrinking. -/
theorem Reserved.shrink (h : s.Reserved basedataLength) (cfg : MemoryConfig)
    (env : ManagerEnvironment) (minimumLength : UInt32) :
    (s.shrink cfg env minimumLength).2.Reserved basedataLength := by
  cases s with
  | active m =>
      exact ⟨(m.shrink_basedataSize env.realloc minimumLength).trans h.1,
        h.2.shrink env.realloc minimumLength⟩
  | passive m => exact LinearMemoryAllocator.Within.shrink h cfg env.os minimumLength

/-- Setting the memory limit. -/
theorem Reserved.setMemoryLimit (h : s.Reserved basedataLength) (cfg : MemoryConfig)
    (env : ManagerEnvironment) (memoryLimit : UInt64) :
    (s.call cfg env (.setMemoryLimit memoryLimit)).Reserved basedataLength := by
  cases s with
  | active m => exact h
  | passive m => exact LinearMemoryAllocator.Within.setMemoryLimit h cfg memoryLimit

end MemoryManager

namespace RuntimeMemory

variable {cfg : MemoryConfig} {env : ManagerEnvironment} {s : RuntimeMemory}
  {basedataLength : UInt32}

/-- The memory of a module with so much basedata, as the constructor leaves it. -/
def LoadedWith (cfg : MemoryConfig) (basedataLength : UInt32) (s : RuntimeMemory) : Prop :=
  ∃ env manager initialMemorySize debugMode,
    load cfg env manager basedataLength initialMemorySize debugMode = some s

/-- Any action. -/
def Step (cfg : MemoryConfig) (s s' : RuntimeMemory) : Prop :=
  ∃ env action, s' = s.step cfg env action

/-- The memory that was loaded. -/
theorem reserved_of_loadedWith (hpage : cfg.DividesWasmPage)
    (h : s.LoadedWith cfg basedataLength) : s.manager.Reserved basedataLength := by
  obtain ⟨env, manager, initialMemorySize, debugMode, hload⟩ := h
  simp only [load] at hload
  split at hload
  · case _ manager' hinit =>
      obtain rfl := (Option.some.inj hload).symm
      exact .of_init hpage hinit
  · cases hload

/-- Recording the size leaves the manager. -/
@[simp] theorem recordSize_manager (s : RuntimeMemory) : s.recordSize.manager = s.manager := rfl

/-- What a probe leaves. -/
theorem probeLinearMemory_manager (cfg : MemoryConfig) (env : ManagerEnvironment)
    (s : RuntimeMemory) (offset : UInt32) :
    (s.probeLinearMemory cfg env offset).2.manager = (s.manager.probe cfg env offset).2 := by
  simp only [probeLinearMemory]
  split <;> rfl

/-- What a probe with an extension leaves. -/
theorem extendAndProbe_manager (cfg : MemoryConfig) (env : ManagerEnvironment)
    (s : RuntimeMemory) (offset : UInt32) :
    (s.extendAndProbe cfg env offset).2.manager =
      ((s.manager.extend cfg env s.linMemWasmSize).2.probe cfg env offset).2 := by
  simp only [extendAndProbe]
  split <;> rfl

/-- An action keeps the sizes within the reservation. -/
theorem reserved_step (h : s.manager.Reserved basedataLength) (cfg : MemoryConfig)
    (env : ManagerEnvironment) (action : Action) :
    (s.step cfg env action).manager.Reserved basedataLength := by
  have hprobed : ∀ offset, (s.probeLinearMemory cfg env offset).2.manager.Reserved
      basedataLength := by
    intro offset
    rw [probeLinearMemory_manager]
    exact h.probe cfg env offset
  have hextended : ∀ offset, (s.extendAndProbe cfg env offset).2.manager.Reserved
      basedataLength := by
    intro offset
    rw [extendAndProbe_manager]
    exact (h.extend cfg env s.linMemWasmSize).probe cfg env offset
  cases action with
  | dataSegment maximumSegmentOffset =>
      simp only [step]
      split <;> exact h.probe cfg env _
  | access offset =>
      simp only [step]
      split
      · exact hextended offset
      · exact hprobed offset
  | memoryGrow newPages =>
      have hextend := h.extend cfg env newPages
      simp only [step]
      split
      · split
        · exact h
        · split <;> · case _ heq => rwa [heq] at hextend
      · exact h
  | shrink minimumLength =>
      simp only [step]
      split <;> exact h.shrink cfg env minimumLength
  | setMemoryLimit memoryLimit => exact h.setMemoryLimit cfg env memoryLimit
  | region offset size =>
      simp only [step, getLinearMemoryRegion]
      split
      · split
        · split
          · exact hextended _
          · exact hextended _
        · split
          · exact hprobed _
          · exact hprobed _
      · exact h

/-- The sizes stay within the reservation in a run. -/
theorem reserved_of_run (hpage : cfg.DividesWasmPage) {s₀ : RuntimeMemory}
    (hloaded : s₀.LoadedWith cfg basedataLength)
    (hrun : Relation.ReflTransGen (Step cfg) s₀ s) : s.manager.Reserved basedataLength := by
  induction hrun with
  | refl => exact reserved_of_loadedWith hpage hloaded
  | tail _ hstep ih =>
      obtain ⟨env, action, rfl⟩ := hstep
      exact reserved_step ih cfg env action

/-! ### Shrinking -/

/-- What `shrinkToSize` returns and leaves. -/
theorem shrinkToSize_eq (cfg : MemoryConfig) (env : ManagerEnvironment) (s : RuntimeMemory)
    (minimumLength : UInt32) :
    (s.shrinkToSize cfg env minimumLength).1 =
        ((s.manager.shrink cfg env minimumLength).1 || !s.manager.linearMemoryBoundsChecks) ∧
      (s.shrinkToSize cfg env minimumLength).2.manager =
        (s.manager.shrink cfg env minimumLength).2 := by
  obtain ⟨-, hkind⟩ := s.manager.shrink_sameAllowed cfg env minimumLength
  simp only [shrinkToSize, hkind]
  cases s.manager.linearMemoryBoundsChecks with
  | true => cases (s.manager.shrink cfg env minimumLength).1 <;> exact ⟨rfl, rfl⟩
  | false => cases s.debugMode <;> exact ⟨by simp, rfl⟩

/-- `shrinkToSize` in a build with bounds checks, when the requests are granted: it does not
throw if and only if there is no allocator or the length is not above the usable size, and then it
keeps the bytes below the length. -/
theorem shrinkToSize_active {m : ActiveMemoryManager} (hm : s.manager = .active m) (hfits : m.Fits)
    (hcopies : PreservesPrefix env.realloc) (hgrants : Grants env) (cfg : MemoryConfig)
    (pages : ℕ → UInt8) (minimumLength : UInt32) (kept : ℕ) (hkept : kept ≤ minimumLength.toNat) :
    ((s.shrinkToSize cfg env minimumLength).1 = true ∧
      ∀ offset < kept, ∀ v, s.manager.read pages offset = some v →
        (s.shrinkToSize cfg env minimumLength).2.manager.read
          (s.manager.pagesAfter (s.shrinkToSize cfg env minimumLength).2.manager pages) offset =
            some v) ↔
      m.jobMemory.hasExtensionRequest = false ∨
        minimumLength.toNat ≤ m.usableLinMemBytes.toNat := by
  obtain ⟨hreturns, hmanager⟩ := s.shrinkToSize_eq cfg env minimumLength
  rw [hreturns, hmanager, hm, ← ActiveMemoryManager.shrink_of_granted hfits hgrants.realloc]
  simp only [MemoryManager.linearMemoryBoundsChecks, Bool.not_true, Bool.or_false]
  constructor
  · rintro ⟨hok, -⟩
    exact hok
  · intro hok
    exact ⟨hok, fun offset hlt v hread =>
      MemoryManager.read_of_shrink_active hcopies hok (Nat.lt_of_lt_of_le hlt hkept) hread⟩

/-- `shrinkToSize` in a build without bounds checks, when the requests are granted: it never
throws, and it keeps the bytes below the length if and only if that is one of whole pages or above
the usable size. -/
theorem shrinkToSize_passive {m : LinearMemoryAllocator} (hm : s.manager = .passive m)
    (hwithin : m.Within) (hgrants : Grants env) (cfg : MemoryConfig) (pages : ℕ → UInt8)
    (minimumLength : UInt32) :
    ((s.shrinkToSize cfg env minimumLength).1 = true ∧
      ∀ offset < minimumLength.toNat, ∀ v, s.manager.read pages offset = some v →
        (s.shrinkToSize cfg env minimumLength).2.manager.read
          (s.manager.pagesAfter (s.shrinkToSize cfg env minimumLength).2.manager pages) offset =
            some v) ↔
      cfg.osMemoryPageSize ∣ minimumLength.toNat ∨ m.linearMemorySize < minimumLength.toNat := by
  obtain ⟨hreturns, hmanager⟩ := s.shrinkToSize_eq cfg env minimumLength
  have hround := LinearMemoryAllocator.roundDown_le cfg minimumLength.toNat
  have hbasedata := hwithin.basedata
  rw [hreturns, hmanager, hm]
  simp only [MemoryManager.linearMemoryBoundsChecks, Bool.not_false, Bool.or_true, true_and,
    MemoryManager.shrink]
  obtain ⟨hrefused, desired, hshrink⟩ | ⟨hgranted, hshrink⟩ :=
    m.shrink_cases cfg env.os minimumLength
  · rw [hshrink]
    refine iff_of_true (fun offset hlt v hread => ?_) ?_
    · simp only [MemoryManager.read, MemoryManager.pagesAfter,
        VirtualMemoryAllocator.pagesAfter, and_self] at hread ⊢
      split at hread
      · case _ hin => rwa [if_pos hin, if_pos hin.2]
      · cases hread
    · rcases hrefused with hnone | hsize | hrefuses
      · exact absurd hnone hwithin.data
      · rw [hwithin.linMemCommitedSize_eq] at hsize
        exact .inr hsize
      · refine .inr (Nat.lt_of_not_le fun hle => ?_)
        have hlimit := hwithin.limit
        have htotal := hwithin.total
        rw [LinearMemoryAllocator.linearMemorySize] at hle
        rcases hrefuses with h | h | ⟨-, h⟩ | ⟨-, h⟩
        · omega
        · omega
        · rw [hgrants.commit] at h
          cases h
        · rw [hgrants.uncommit] at h
          cases h
  · simp only [not_or, Nat.not_lt, hwithin.linMemCommitedSize_eq,
      LinearMemoryAllocator.linearMemorySize] at hgranted
    rw [hshrink]
    constructor
    · intro hkept
      refine .inl ((LinearMemoryAllocator.roundDown_eq_iff cfg _).mp
        (Nat.le_antisymm hround (Nat.le_of_not_lt fun hlt => ?_)))
      have hlost := hkept _ hlt (pages (m.pagedBasedataSize + cfg.roundDown minimumLength.toNat))
      simp only [MemoryManager.read] at hlost
      rw [if_pos ⟨Option.isSome_iff_ne_none.mpr hwithin.data, by omega⟩, if_neg (by omega)]
        at hlost
      cases hlost rfl
    · rintro (hpage | hlt) offset hoffset v hread
      · have heq := (LinearMemoryAllocator.roundDown_eq_iff cfg _).mpr hpage
        simp only [MemoryManager.read] at hread
        split at hread
        · case _ hin =>
            obtain rfl := Option.some.inj hread
            simp only [MemoryManager.read, MemoryManager.pagesAfter,
              VirtualMemoryAllocator.pagesAfter]
            rw [if_pos ⟨hin.1, by omega⟩, if_pos ⟨hin.2, by omega⟩]
        · cases hread
      · rw [LinearMemoryAllocator.linearMemorySize] at hlt
        omega

/-- **Shrinking by the runtime**: in every state of a run, if the requests are granted, an
operation does not throw and keeps the bytes below its length if and only if the length does not
exceed the usable size or consists of whole pages, according to the build; shrinking to what is
active only does without an allocator or without basedata. -/
theorem shrinkSafe_iff (hpage : cfg.DividesWasmPage) {s₀ : RuntimeMemory}
    (hloaded : s₀.LoadedWith cfg basedataLength)
    (hrun : Relation.ReflTransGen (Step cfg) s₀ s) (hcopies : PreservesPrefix env.realloc)
    (hgrants : Grants env) (pages : ℕ → UInt8) {operation : ShrinkOperation}
    (hoffered : operation.Offered s) :
    s.ShrinkSafe cfg env basedataLength pages operation ↔
      s.ShrinkWorks cfg basedataLength operation := by
  have hreserved := reserved_of_run hpage hloaded hrun
  have hsafe : s.ShrinkSafe cfg env basedataLength pages operation ↔ _ :=
    ⟨fun h => And.intro h.returns h.kept, fun h => ⟨h.1, h.2⟩⟩
  refine hsafe.trans ?_
  obtain ⟨m, hm⟩ | ⟨m, hm⟩ : (∃ m, s.manager = .active m) ∨ ∃ m, s.manager = .passive m := by
    cases s.manager <;> simp
  · rw [hm] at hreserved
    obtain ⟨rfl, hfits⟩ := hreserved
    have hshrink := shrinkToSize_active hm hfits hcopies hgrants cfg pages
    cases operation with
    | shrinkToSize minimumLength =>
        refine (hshrink minimumLength _ (Nat.le_refl _)).trans ?_
        rw [ShrinkWorks, hm]
    | reallocShrinkToBasedataSize =>
        exact iff_of_true ((hshrink 0 _ (Nat.le_refl _)).mpr (.inr (Nat.zero_le _))) trivial
    | reallocShrinkToActiveSize =>
        have husable : s.manager.getLinearMemorySize = m.usableLinMemBytes := by rw [hm]; rfl
        have husage : (UInt32.ofNat (s.getMemoryUsage m.basedataSize)).toNat =
            m.usableLinMemBytes.toNat + m.basedataSize.toNat := by
          rw [ActiveMemoryManager.Fits, uint32Max] at hfits
          rw [getMemoryUsage, husable, UInt32.toNat_ofNat']
          omega
        refine (hshrink (UInt32.ofNat (s.getMemoryUsage m.basedataSize))
          s.manager.getLinearMemorySize.toNat (by rw [husable]; omega)).trans ?_
        rw [ShrinkWorks, hm, husage, ← UInt32.toNat_inj, UInt32.toNat_zero]
        refine or_congr_right ⟨fun hle => by omega, fun hzero => by omega⟩
  · rw [hm] at hreserved
    cases operation with
    | shrinkToSize minimumLength =>
        refine (shrinkToSize_passive hm hreserved hgrants cfg pages minimumLength).trans ?_
        rw [ShrinkWorks, hm]
    | reallocShrinkToBasedataSize =>
        simp [ShrinkOperation.Offered, hm, MemoryManager.linearMemoryBoundsChecks] at hoffered
    | reallocShrinkToActiveSize =>
        simp [ShrinkOperation.Offered, hm, MemoryManager.linearMemoryBoundsChecks] at hoffered

/-- A module with one page and 100 bytes of basedata, in a build with bounds checks. -/
def activePage : RuntimeMemory where
  manager := ((MemoryManager.active (.new (fun _ _ => 0) true)).init MemoryManager.lazyConfig
    MemoryManager.copyingEnvironment 100 1).2
  linMemWasmSize := 1
  actualLinMemByteSize := 0
  initialMemorySize := 1
  debugMode := false

/-- It has been loaded. -/
theorem activePage_loadedWith : activePage.LoadedWith MemoryManager.lazyConfig 100 :=
  ⟨MemoryManager.copyingEnvironment, .active (.new (fun _ _ => 0) true), 1, false, rfl⟩

/-- The surroundings grant everything. -/
theorem grants_copyingEnvironment : Grants MemoryManager.copyingEnvironment :=
  ⟨fun _ _ minimumLength => ⟨rfl, UInt32.le_refl minimumLength⟩, rfl, rfl⟩

/-- Its memory can be shrunk to the basedata. -/
theorem shrinkSafe_iff_basedata : activePage.ShrinkSafe MemoryManager.lazyConfig
    MemoryManager.copyingEnvironment 100 (fun _ => 0) .reallocShrinkToBasedataSize := by
  have hoffered : ShrinkOperation.Offered activePage .reallocShrinkToBasedataSize := rfl
  exact (shrinkSafe_iff ⟨by decide, 16, rfl⟩ activePage_loadedWith .refl
    ActiveMemoryManager.copyingRealloc_preservesPrefix grants_copyingEnvironment _ hoffered).mpr
      trivial

/-- Shrinking its memory to what is active throws, although every request is granted. -/
theorem activeSize_not_shrinkSafe :
    activePage.LoadedWith MemoryManager.lazyConfig 100 ∧
      PreservesPrefix MemoryManager.copyingEnvironment.realloc ∧
      Grants MemoryManager.copyingEnvironment ∧
      (activePage.perform MemoryManager.lazyConfig MemoryManager.copyingEnvironment 100
        .reallocShrinkToActiveSize).1 = false ∧
      ¬ activePage.ShrinkSafe MemoryManager.lazyConfig MemoryManager.copyingEnvironment 100
        (fun _ => 0) .reallocShrinkToActiveSize := by
  have hthrows : (activePage.perform MemoryManager.lazyConfig MemoryManager.copyingEnvironment 100
      .reallocShrinkToActiveSize).1 = false := by decide
  refine ⟨activePage_loadedWith, ActiveMemoryManager.copyingRealloc_preservesPrefix,
    grants_copyingEnvironment, hthrows, fun hsafe => ?_⟩
  have hreturns := hsafe.returns
  rw [hthrows] at hreturns
  cases hreturns

end RuntimeMemory

end WasmCompiler
