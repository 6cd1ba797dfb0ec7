import WasmCompiler.GrowableMemory
import WasmCompiler.LinearMemoryRegion

/-!
# Contracts of the Memory Managers

What `IMemoryManager` promises about two calls. A shrink that succeeds leaves the requested
length usable, with its contents. An extension that fails leaves everything as it was.
`ActiveMemoryManager` meets both. `LinearMemoryAllocator` rounds the requested length down to
pages of the operating system, and it takes over the new allowed size before it commits.

## Main results

* `shrinkContract_iff`: a shrink meets the contract if and only if the length is one of whole
  pages, or the shrink is refused.
* `extendAtomic_iff`: a failed extension leaves everything if and only if it does not ask for
  another size; it can only fail in an eager build.
-/

namespace WasmCompiler

/-! ### Refused commits -/

namespace LinearMemoryAllocator

variable {cfg : MemoryConfig} {os : SystemCalls} {m : LinearMemoryAllocator}

/-- Rounding down leaves whole pages of the operating system. -/
theorem roundDown_eq_iff (cfg : MemoryConfig) (size : ℕ) :
    cfg.roundDown size = size ↔ cfg.osMemoryPageSize ∣ size :=
  (Nat.dvd_iff_div_mul_eq size cfg.osMemoryPageSize).symm

/-- A commit of so many bytes is above the limit or what is reserved, or the system refuses
it. -/
def Refuses (os : SystemCalls) (m : LinearMemoryAllocator) (newPagedSize : ℕ) : Prop :=
  m.pagedMemoryLimit < newPagedSize ∨ m.virtualMemoryAllocator.totalSize < newPagedSize ∨
    m.virtualMemoryAllocator.committedSize < newPagedSize ∧ os.commitVirtualMemory = false ∨
    newPagedSize < m.virtualMemoryAllocator.committedSize ∧ os.uncommitVirtualMemory = false

instance (os : SystemCalls) (m : LinearMemoryAllocator) (newPagedSize : ℕ) :
    Decidable (m.Refuses os newPagedSize) :=
  inferInstanceAs (Decidable (_ ∨ _))

/-- A commit that is not refused sets the committed size. -/
theorem commit_of_not_refuses {newPagedSize : ℕ} (h : ¬m.Refuses os newPagedSize) :
    m.commit os newPagedSize =
      (some true, { m with virtualMemoryAllocator :=
        { m.virtualMemoryAllocator with committedSize := newPagedSize } }) := by
  simp only [Refuses, not_or, not_and, Nat.not_lt, Bool.not_eq_false] at h
  obtain ⟨hlimit, htotal, hcommit, huncommit⟩ := h
  rw [commit, if_neg (Nat.not_lt.mpr hlimit), VirtualMemoryAllocator.resize,
    if_neg (Nat.not_lt.mpr htotal), if_neg, if_neg]
  · rintro ⟨hlt, hno⟩
    rw [huncommit hlt] at hno
    cases hno
  · rintro ⟨hlt, hno⟩
    rw [hcommit hlt] at hno
    cases hno

/-- A commit that is refused changes at most the record of the desired size. -/
theorem commit_of_refuses {newPagedSize : ℕ} (h : m.Refuses os newPagedSize) :
    ∃ result maxDesiredRamOnMemoryExtendFailed, result ≠ some true ∧
      m.commit os newPagedSize = (result, { m with maxDesiredRamOnMemoryExtendFailed }) := by
  obtain heq | heq | heq := m.commit_cases os newPagedSize
  · exfalso
    simp only [commit, VirtualMemoryAllocator.resize] at heq
    split_ifs at heq with hlimit htotal hcommit huncommit <;> try cases heq
    rcases h with h | h | ⟨hlt, hno⟩ | ⟨hlt, hno⟩
    · exact hlimit h
    · exact htotal h
    · exact hcommit ⟨hlt, by rw [hno]; rfl⟩
    · exact huncommit ⟨hlt, by rw [hno]; rfl⟩
  · exact ⟨some false, newPagedSize, by decide, heq⟩
  · exact ⟨none, m.maxDesiredRamOnMemoryExtendFailed, by decide, heq⟩

/-- What shrinking does: it is refused and nothing but the record of the desired size changes,
or the requested length is rounded down and committed. -/
theorem shrink_cases (cfg : MemoryConfig) (os : SystemCalls) (m : LinearMemoryAllocator)
    (minimumLength : UInt32) :
    let newPagedSize := m.pagedBasedataSize + cfg.roundDown minimumLength.toNat
    let refused := m.virtualMemoryAllocator.data = none ∨
      m.linMemCommitedSize < minimumLength.toNat ∨ m.Refuses os newPagedSize
    refused ∧ (∃ maxDesiredRamOnMemoryExtendFailed,
        m.shrink cfg os minimumLength = (false, { m with maxDesiredRamOnMemoryExtendFailed })) ∨
      ¬refused ∧ m.shrink cfg os minimumLength =
        (true, { m with virtualMemoryAllocator :=
          { m.virtualMemoryAllocator with committedSize := newPagedSize } }) := by
  intro newPagedSize refused
  by_cases hdata : m.virtualMemoryAllocator.data = none
  · exact .inl ⟨.inl hdata, m.maxDesiredRamOnMemoryExtendFailed, by simp [shrink, hdata]⟩
  have hisNone : ¬m.virtualMemoryAllocator.data.isNone = true := by
    rwa [Option.isNone_iff_eq_none]
  by_cases hsize : m.linMemCommitedSize < minimumLength.toNat
  · exact .inl ⟨.inr (.inl hsize), m.maxDesiredRamOnMemoryExtendFailed, by
      rw [shrink, if_neg hisNone, if_pos hsize]⟩
  by_cases hrefuses : m.Refuses os newPagedSize
  · obtain ⟨result, desired, hresult, hcommit⟩ := commit_of_refuses hrefuses
    refine .inl ⟨.inr (.inr hrefuses), desired, ?_⟩
    rw [shrink, if_neg hisNone, if_neg hsize, hcommit]
    rcases result with _ | _ | _
    · rfl
    · rfl
    · exact absurd rfl hresult
  · refine .inr ⟨by simp [refused, hdata, hsize, hrefuses], ?_⟩
    rw [shrink, if_neg hisNone, if_neg hsize, commit_of_not_refuses hrefuses]

/-- What extending does: an eager build that is refused only changes the allowed size and the
record of the desired one. -/
theorem extend_cases (cfg : MemoryConfig) (os : SystemCalls) (m : LinearMemoryAllocator)
    (newTotalLinMemPages : UInt32) :
    let refused := cfg.eagerAllocation = true ∧ m.virtualMemoryAllocator.data ≠ none ∧
      m.Refuses os (m.pagedBasedataSize + newTotalLinMemPages.toNat * wasmPageSize)
    refused ∧ (∃ maxDesiredRamOnMemoryExtendFailed,
        m.extend cfg os newTotalLinMemPages =
          (false,
            { m with
              linMemPages := newTotalLinMemPages
              maxDesiredRamOnMemoryExtendFailed })) ∨
      ¬refused ∧ (m.extend cfg os newTotalLinMemPages).1 = true := by
  intro refused
  by_cases heager : cfg.eagerAllocation = true ∧ m.virtualMemoryAllocator.data.isSome = true
  · by_cases hrefuses :
        m.Refuses os (m.pagedBasedataSize + newTotalLinMemPages.toNat * wasmPageSize)
    · obtain ⟨result, desired, hresult, hcommit⟩ := commit_of_refuses
        (show Refuses os { m with linMemPages := newTotalLinMemPages } _ from hrefuses)
      refine .inl ⟨⟨heager.1, Option.isSome_iff_ne_none.mp heager.2, hrefuses⟩, desired, ?_⟩
      simp only [extend]
      rw [if_pos heager, hcommit]
      rcases result with _ | _ | _
      · rfl
      · rfl
      · exact absurd rfl hresult
    · refine .inr ⟨fun h => hrefuses h.2.2, ?_⟩
      have hcommit := commit_of_not_refuses
        (show ¬Refuses os { m with linMemPages := newTotalLinMemPages } _ from hrefuses)
      simp only [extend]
      rw [if_pos heager, hcommit]
  · refine .inr ⟨fun h => heager ⟨h.1, Option.isSome_iff_ne_none.mpr h.2.1⟩, ?_⟩
    simp only [extend]
    rw [if_neg heager]

/-- Whether a commit succeeds does not depend on the record of the desired size. -/
theorem commit_desired (os : SystemCalls) (m : LinearMemoryAllocator)
    (maxDesiredRamOnMemoryExtendFailed newPagedSize : ℕ) :
    (commit os { m with maxDesiredRamOnMemoryExtendFailed } newPagedSize).1 =
      (m.commit os newPagedSize).1 := by
  simp only [commit]
  split
  · rfl
  · cases m.virtualMemoryAllocator.resize os newPagedSize <;> rfl

/-- The result of a probe. -/
theorem probe_fst (cfg : MemoryConfig) (os : SystemCalls) (m : LinearMemoryAllocator)
    (linMemOffset : UInt32) :
    (m.probe cfg os linMemOffset).1 =
      if m.virtualMemoryAllocator.data.isNone then .allocationFailure
      else if linMemOffset.toNat < m.linMemCommitedSize then .ok
      else if linMemOffset.toNat < m.linMemPages.toNat * wasmPageSize then
        if (m.commit os (m.pagedBasedataSize + cfg.roundUp (linMemOffset.toNat + 1))).1 =
            some true then .ok
        else .allocationFailure
      else .outOfBounds := by
  rw [probe]
  split
  · rfl
  · split
    · rfl
    · split
      · split
        · case _ heq => rw [heq, if_pos rfl]
        · case _ hne heq =>
            rw [heq, if_neg]
            rintro rfl
            exact hne rfl
      · rfl

/-- A probe does not depend on the record of the desired size. -/
theorem probe_desired (cfg : MemoryConfig) (os : SystemCalls) (m : LinearMemoryAllocator)
    (maxDesiredRamOnMemoryExtendFailed : ℕ) (linMemOffset : UInt32) :
    (probe cfg os { m with maxDesiredRamOnMemoryExtendFailed } linMemOffset).1 =
      (m.probe cfg os linMemOffset).1 := by
  rw [probe_fst, probe_fst, commit_desired]
  rfl

end LinearMemoryAllocator

/-! ### Contents -/

/-- What the pages of a reservation hold after it was resized: pages that were given back lose
their contents, and pages that were committed are zero. A call of the system that fails leaves
them. -/
def VirtualMemoryAllocator.pagesAfter (vma vma' : VirtualMemoryAllocator) (pages : ℕ → UInt8) :
    ℕ → UInt8 :=
  fun a => if a < vma.committedSize ∧ a < vma'.committedSize then pages a else 0

namespace MemoryManager

/-- The usable byte at an offset of the linear memory; a `LinearMemoryAllocator` has it in the
pages of its reservation. -/
def read (pages : ℕ → UInt8) (offset : ℕ) : MemoryManager → Option UInt8
  | .active m =>
      if offset < m.usableLinMemBytes.toNat then m.read (m.basedataSize.toNat + offset) else none
  | .passive m =>
      if m.virtualMemoryAllocator.data.isSome ∧
          m.pagedBasedataSize + offset < m.virtualMemoryAllocator.committedSize then
        some (pages (m.pagedBasedataSize + offset))
      else none

/-- What the pages of the reservation hold after a call. -/
def pagesAfter : MemoryManager → MemoryManager → (ℕ → UInt8) → ℕ → UInt8
  | .passive m, .passive m', pages =>
      m.virtualMemoryAllocator.pagesAfter m'.virtualMemoryAllocator pages
  | _, _, pages => pages

/-! ### Shrinking -/

/-- What `IMemoryManager` says about shrinking to a length. -/
structure ShrinkContract (cfg : MemoryConfig) (env : ManagerEnvironment) (s : MemoryManager)
    (pages : ℕ → UInt8) (minimumLength : UInt32) : Prop where
  size : (s.shrink cfg env minimumLength).1 = true →
    minimumLength ≤ (s.shrink cfg env minimumLength).2.getLinearMemorySize
  contents : (s.shrink cfg env minimumLength).1 = true →
    ∀ offset < minimumLength.toNat, ∀ v, s.read pages offset = some v →
      (s.shrink cfg env minimumLength).2.read
        (s.pagesAfter (s.shrink cfg env minimumLength).2 pages) offset = some v

/-- Where the contract is met: with `ActiveMemoryManager`, and with lengths of whole pages of
the operating system; the rest is refused. -/
def ShrinkMeets (cfg : MemoryConfig) (env : ManagerEnvironment) (minimumLength : UInt32) :
    MemoryManager → Prop
  | .active _ => True
  | .passive m =>
      cfg.osMemoryPageSize ∣ minimumLength.toNat ∨ m.virtualMemoryAllocator.data = none ∨
        m.linMemCommitedSize < minimumLength.toNat ∨
        m.Refuses env.os (m.pagedBasedataSize + cfg.roundDown minimumLength.toNat)

variable {cfg : MemoryConfig} {env : ManagerEnvironment} {s : MemoryManager}
  {pages : ℕ → UInt8}

end MemoryManager

namespace ActiveMemoryManager

variable {realloc : ReallocFnc} {m : ActiveMemoryManager}

/-- What a shrink that succeeds does: without an allocator nothing, and with one it makes the
requested length, which is not above the usable size, the usable one. -/
theorem shrink_of_ok {m' : ActiveMemoryManager} {minimumLength : UInt32}
    (hcopies : PreservesPrefix realloc) (hok : m.shrink realloc minimumLength = (true, m')) :
    (m.jobMemory.hasExtensionRequest = false ∧ m' = m) ∨
      minimumLength.toNat ≤ m.usableLinMemBytes.toNat ∧ m'.usableLinMemBytes = minimumLength ∧
        m'.basedataSize = m.basedataSize ∧
        KeepsBelow (m.basedataSize.toNat + minimumLength.toNat) m m' := by
  simp only [shrink] at hok
  split at hok
  · case _ hno =>
      cases hok
      exact .inl ⟨by simpa using hno, rfl⟩
  · split at hok
    · cases hok
    · case _ hle =>
        have hle' := UInt32.le_iff_toNat_le.mp (UInt32.not_lt.mp hle)
        split at hok
        · cases hok
        · case _ htotal =>
            split at hok
            · cases hok
            · case _ hodd =>
                split at hok
                · split at hok
                  · cases hok
                  · case _ hgot =>
                      cases hok
                      rw [not_or, UInt32.not_lt, Option.isNone_iff_eq_none, ← ne_eq,
                        ← Option.isSome_iff_ne_none] at hgot
                      refine .inr ⟨hle', rfl, rfl, fun offset hlt v hread => ?_⟩
                      have hnew := UInt32.le_iff_toNat_le.mp hgot.2
                      have hrounded := le_rounded htotal hodd
                      exact extensionRequest_keepsBelow hcopies _ hgot.1 offset (by omega) v hread
                · cases hok
                  exact .inr ⟨hle', rfl, rfl, fun _ _ _ h => h⟩

end ActiveMemoryManager

namespace MemoryManager

variable {cfg : MemoryConfig} {env : ManagerEnvironment} {s : MemoryManager}
  {pages : ℕ → UInt8} {minimumLength : UInt32}

/-- A shrink of `ActiveMemoryManager` that succeeds keeps the usable bytes below the length. -/
theorem read_of_shrink_active {m : ActiveMemoryManager} (hcopies : PreservesPrefix env.realloc)
    (hok : (m.shrink env.realloc minimumLength).1 = true) {offset : ℕ} {v : UInt8}
    (hlt : offset < minimumLength.toNat)
    (hread : MemoryManager.read pages offset (.active m) = some v) :
    MemoryManager.read pages offset (.active (m.shrink env.realloc minimumLength).2) = some v := by
  have hshrink : m.shrink env.realloc minimumLength =
      (true, (m.shrink env.realloc minimumLength).2) := Prod.ext hok rfl
  obtain ⟨-, heq⟩ | ⟨hle, husable, hbasedata, hkeeps⟩ :=
    ActiveMemoryManager.shrink_of_ok hcopies hshrink
  · rwa [heq]
  · simp only [MemoryManager.read] at hread ⊢
    split at hread
    · rw [husable, if_pos hlt, hbasedata]
      exact hkeeps _ (by omega) v hread
    · cases hread

/-- `ActiveMemoryManager` meets the contract. -/
theorem ShrinkContract.active {m : ActiveMemoryManager} (hcopies : PreservesPrefix env.realloc)
    (hle : minimumLength.toNat ≤ m.usableLinMemBytes.toNat) :
    ShrinkContract cfg env (.active m) pages minimumLength := by
  refine ⟨fun hok => ?_, fun hok offset hlt v hread => read_of_shrink_active hcopies hok hlt hread⟩
  have hshrink : m.shrink env.realloc minimumLength =
      (true, (m.shrink env.realloc minimumLength).2) := Prod.ext hok rfl
  obtain ⟨-, heq⟩ | ⟨-, husable, -⟩ := ActiveMemoryManager.shrink_of_ok hcopies hshrink
  · simp only [MemoryManager.shrink, getLinearMemorySize, heq]
    exact UInt32.le_iff_toNat_le.mpr hle
  · simp only [MemoryManager.shrink, getLinearMemorySize, husable]
    exact UInt32.le_refl _

/-- **The contract of shrinking**: a shrink to a length that is not above the usable size meets
it if and only if the length is one of whole pages, or it is refused. -/
theorem shrinkContract_iff (hcopies : PreservesPrefix env.realloc) (cfg : MemoryConfig)
    (pages : ℕ → UInt8) (hle : minimumLength.toNat ≤ s.usableSize) :
    s.ShrinkContract cfg env pages minimumLength ↔ s.ShrinkMeets cfg env minimumLength := by
  cases s with
  | active m => exact iff_of_true (.active hcopies hle) trivial
  | passive m =>
      have hcases := m.shrink_cases cfg env.os minimumLength
      obtain ⟨hrefused, desired, hshrink⟩ | ⟨hgranted, hshrink⟩ := hcases
      · refine iff_of_true ⟨fun hok => ?_, fun hok => ?_⟩ (.inr hrefused)
        · simp [MemoryManager.shrink, hshrink] at hok
        · simp [MemoryManager.shrink, hshrink] at hok
      · have hround := LinearMemoryAllocator.roundDown_le cfg minimumLength.toNat
        have hlt := minimumLength.toNat_lt
        have hsize : (((MemoryManager.passive m).shrink cfg env minimumLength).2.getLinearMemorySize).toNat =
            cfg.roundDown minimumLength.toNat := by
          simp only [MemoryManager.shrink, hshrink, getLinearMemorySize,
            LinearMemoryAllocator.linMemCommitedSize]
          rw [UInt32.toNat_ofNat']
          omega
        constructor
        · intro hcontract
          have hok : ((MemoryManager.passive m).shrink cfg env minimumLength).1 = true := by
            simp [MemoryManager.shrink, hshrink]
          have hle' := UInt32.le_iff_toNat_le.mp (hcontract.size hok)
          rw [hsize] at hle'
          exact .inl ((LinearMemoryAllocator.roundDown_eq_iff cfg _).mp (Nat.le_antisymm hround hle'))
        · rintro (hpage | hrefused)
          · have heq := (LinearMemoryAllocator.roundDown_eq_iff cfg _).mpr hpage
            refine ⟨fun _ => ?_, fun _ offset hoffset v hread => ?_⟩
            · rw [UInt32.le_iff_toNat_le, hsize, heq]
            · simp only [MemoryManager.read] at hread
              split at hread
              · case _ hin =>
                  obtain rfl := Option.some.inj hread
                  simp only [MemoryManager.shrink, hshrink, MemoryManager.read, pagesAfter,
                    VirtualMemoryAllocator.pagesAfter]
                  rw [if_pos ⟨hin.1, by omega⟩, if_pos ⟨hin.2, by omega⟩]
              · cases hread
          · exact absurd hrefused hgranted

/-- A `ReallocFnc` that copies, and an operating system that gives what is asked for. -/
def copyingEnvironment : ManagerEnvironment where
  realloc := ActiveMemoryManager.copyingRealloc
  os := grantingEnvironment.os

/-- A build that commits pages of 4096 bytes when they are probed. -/
def lazyConfig : MemoryConfig where
  osMemoryPageSize := 4096
  eagerAllocation := false

/-- A memory of one page in which an offset was probed. -/
def probedPage : MemoryManager :=
  ((MemoryManager.passive {}).call lazyConfig copyingEnvironment (.init 100 1)).call lazyConfig
    copyingEnvironment (.probe 5000)

/-- It is the memory after a run. -/
theorem probedPage_reachable :
    Relation.ReflTransGen (MeetingStep lazyConfig) (.passive {}) probedPage :=
  .tail (.single ⟨copyingEnvironment, .init 100 1, ⟨by decide, .inr ⟨rfl, by decide, .inr rfl⟩⟩,
    rfl⟩) ⟨copyingEnvironment, .probe 5000, trivial, rfl⟩

/-- The memory is shrunk to one page of the operating system. -/
theorem shrinkContract_iff_osPage : probedPage.ShrinkContract lazyConfig copyingEnvironment
    (fun _ => 7) 4096 :=
  (shrinkContract_iff ActiveMemoryManager.copyingRealloc_preservesPrefix lazyConfig (fun _ => 7)
    (by decide)).mpr (.inl (by decide))

/-- A shrink to 5000 bytes succeeds and leaves 4096 usable. -/
theorem roundedDown_not_shrinkContract :
    Relation.ReflTransGen (MeetingStep lazyConfig) (.passive {}) probedPage ∧
      (5000 : UInt32).toNat ≤ probedPage.usableSize ∧
      (probedPage.shrink lazyConfig copyingEnvironment 5000).1 = true ∧
      (probedPage.shrink lazyConfig copyingEnvironment 5000).2.getLinearMemorySize = 4096 ∧
      ¬ probedPage.ShrinkContract lazyConfig copyingEnvironment (fun _ => 7) 5000 := by
  have hok : (probedPage.shrink lazyConfig copyingEnvironment 5000).1 = true := by decide
  have hsize : (probedPage.shrink lazyConfig copyingEnvironment 5000).2.getLinearMemorySize =
      4096 := by decide
  refine ⟨probedPage_reachable, by decide, hok, hsize, fun hcontract => ?_⟩
  exact absurd (hsize ▸ hcontract.size hok) (by decide)

/-! ### Extending -/

/-- What has to hold after an extension that failed: the allowed size, the usable bytes and what
a probe answers are as before, and the module is told the old size. -/
structure ExtendAtomic (cfg : MemoryConfig) (env : ManagerEnvironment) (s : MemoryManager)
    (pages : ℕ → UInt8) (newTotalLinMemPages : UInt32) : Prop where
  allowed : (s.extend cfg env newTotalLinMemPages).1 = false →
    (s.extend cfg env newTotalLinMemPages).2.allowedPages = s.allowedPages
  usable : (s.extend cfg env newTotalLinMemPages).1 = false →
    (s.extend cfg env newTotalLinMemPages).2.usableSize = s.usableSize
  contents : (s.extend cfg env newTotalLinMemPages).1 = false → ∀ offset,
    (s.extend cfg env newTotalLinMemPages).2.read
      (s.pagesAfter (s.extend cfg env newTotalLinMemPages).2 pages) offset = s.read pages offset
  probes : (s.extend cfg env newTotalLinMemPages).1 = false → ∀ env' linMemOffset,
    ((s.extend cfg env newTotalLinMemPages).2.probe cfg env' linMemOffset).1 =
      (s.probe cfg env' linMemOffset).1
  memorySize : (s.extend cfg env newTotalLinMemPages).1 = false → ∀ runtime : RuntimeMemory,
    runtime.manager = s →
      (runtime.step cfg env (.memoryGrow newTotalLinMemPages)).formalPages = runtime.formalPages

/-- The module is told the old size if an extension failed. -/
theorem formalPages_of_failed {runtime : RuntimeMemory} {newTotalLinMemPages : UInt32}
    (hfailed : (runtime.manager.extend cfg env newTotalLinMemPages).1 = false) :
    (runtime.step cfg env (.memoryGrow newTotalLinMemPages)).formalPages =
      runtime.formalPages := by
  simp only [RuntimeMemory.step]
  split
  · split
    · case _ hactive =>
        cases hm : runtime.manager with
        | active m => simp [hm, MemoryManager.extend] at hfailed
        | passive m => simp [hm, linearMemoryBoundsChecks] at hactive
    · split
      · case _ hok => simp [hok] at hfailed
      · rfl
  · rfl

/-- Where an extension that fails leaves everything: an eager build does not ask for another
size, or it is not refused. -/
def ExtendKeeps (cfg : MemoryConfig) (env : ManagerEnvironment) (newTotalLinMemPages : UInt32) :
    MemoryManager → Prop
  | .active _ => True
  | .passive m =>
      cfg.eagerAllocation = false ∨ m.virtualMemoryAllocator.data = none ∨
        newTotalLinMemPages = m.linMemPages ∨
        ¬m.Refuses env.os (m.pagedBasedataSize + newTotalLinMemPages.toNat * wasmPageSize)

/-- **Failed growth**: it leaves everything if and only if no other size was asked for, or it
cannot fail. -/
theorem extendAtomic_iff (cfg : MemoryConfig) (env : ManagerEnvironment) (s : MemoryManager)
    (pages : ℕ → UInt8) (newTotalLinMemPages : UInt32) :
    s.ExtendAtomic cfg env pages newTotalLinMemPages ↔
      s.ExtendKeeps cfg env newTotalLinMemPages := by
  have hsucceeds : (s.extend cfg env newTotalLinMemPages).1 = true →
      s.ExtendAtomic cfg env pages newTotalLinMemPages := by
    intro hok
    constructor <;>
      · intro hfailed
        rw [hok] at hfailed
        cases hfailed
  cases s with
  | active m => exact iff_of_true (hsucceeds rfl) trivial
  | passive m =>
      have hcases := m.extend_cases cfg env.os newTotalLinMemPages
      obtain ⟨⟨heager, hdata, hrefuses⟩, desired, hextend⟩ | ⟨hgranted, hok⟩ := hcases
      · have hfailed : ((MemoryManager.passive m).extend cfg env newTotalLinMemPages).1 = false := by
          simp [MemoryManager.extend, hextend]
        constructor
        · intro hatomic
          have hallowed := hatomic.allowed hfailed
          simp only [MemoryManager.extend, hextend, allowedPages] at hallowed
          exact .inr (.inr (.inl hallowed))
        · rintro (hlazy | hnone | rfl | hnot)
          · simp [hlazy] at heager
          · exact absurd hnone hdata
          · refine ⟨fun _ => ?_, fun _ => ?_, fun _ offset => ?_, fun _ env' linMemOffset => ?_,
              fun _ runtime hruntime => ?_⟩
            · simp [MemoryManager.extend, hextend, allowedPages]
            · simp [MemoryManager.extend, hextend, usableSize,
                LinearMemoryAllocator.linearMemorySize]
            · simp only [MemoryManager.extend, hextend, MemoryManager.read, pagesAfter,
                VirtualMemoryAllocator.pagesAfter, and_self]
              split
              · case _ hin => rw [if_pos hin.2]
              · rfl
            · simp only [MemoryManager.extend, hextend, MemoryManager.probe]
              exact m.probe_desired cfg env'.os desired linMemOffset
            · exact formalPages_of_failed (hruntime ▸ hfailed)
          · exact absurd hrefuses hnot
      · refine iff_of_true (hsucceeds ?_) ?_
        · simp [MemoryManager.extend, hok]
        · by_contra hnot
          simp only [ExtendKeeps, not_or, not_not] at hnot
          exact hgranted ⟨by simpa using hnot.1, hnot.2.1, hnot.2.2.2⟩

/-- A build that commits what is allowed. -/
def eagerConfig : MemoryConfig where
  osMemoryPageSize := 4096
  eagerAllocation := true

/-- A memory of one page in an eager build, and no more memory than that. -/
def limitedPage : MemoryManager :=
  ((MemoryManager.passive {}).call eagerConfig copyingEnvironment (.init 100 1)).call eagerConfig
    copyingEnvironment (.setMemoryLimit 69632)

/-- It is the memory after a run. -/
theorem limitedPage_reachable :
    Relation.ReflTransGen (MeetingStep eagerConfig) (.passive {}) limitedPage :=
  .tail (.single ⟨copyingEnvironment, .init 100 1, ⟨by decide, .inr ⟨rfl, by decide, .inr rfl⟩⟩,
    rfl⟩) ⟨copyingEnvironment, .setMemoryLimit 69632, trivial, rfl⟩

/-- Growing it to two pages fails, and then two pages are allowed: a probe of the second one is
not out of bounds any more. -/
theorem failedExtension_not_atomic :
    Relation.ReflTransGen (MeetingStep eagerConfig) (.passive {}) limitedPage ∧
      (limitedPage.extend eagerConfig copyingEnvironment 2).1 = false ∧
      (limitedPage.extend eagerConfig copyingEnvironment 2).2.allowedPages = 2 ∧
      (limitedPage.probe eagerConfig copyingEnvironment 70000).1 = .outOfBounds ∧
      ((limitedPage.extend eagerConfig copyingEnvironment 2).2.probe eagerConfig
        copyingEnvironment 70000).1 = .allocationFailure ∧
      ¬ limitedPage.ExtendAtomic eagerConfig copyingEnvironment (fun _ => 7) 2 := by
  have hfailed : (limitedPage.extend eagerConfig copyingEnvironment 2).1 = false := by decide
  have hallowed : (limitedPage.extend eagerConfig copyingEnvironment 2).2.allowedPages = 2 := by
    decide
  refine ⟨limitedPage_reachable, hfailed, hallowed, by decide, by decide, fun hatomic => ?_⟩
  exact absurd (hallowed.symm.trans (hatomic.allowed hfailed)) (by decide)

end MemoryManager

end WasmCompiler
