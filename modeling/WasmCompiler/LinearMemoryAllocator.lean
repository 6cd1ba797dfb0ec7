import WasmCompiler.ActiveMemoryManager

/-!
# The Linear Memory Allocator

`LinearMemoryAllocator` is the memory manager of the builds without bounds checks. It reserves
address space for the largest memory there can be and commits pages of the operating system
when an offset is probed. Everything is counted with 64 bits and from the start of the
reservation, so the usable size is a difference.

The answers of the operating system are a parameter of every operation.

## Main results

* `probe_committed`: what probing does, if the committed size covers the basedata and stays
  within the allowed size.
* `init_committed`, `extend_committed`, `shrink_committed`: when the other operations lead to
  such a state.
-/

namespace WasmCompiler

/-! ### The operating system -/

/-- `WasmConstants::maxWasmPages`. -/
def maxWasmPages : ℕ := 65536

/-- What the calls of the operating system do during one operation. -/
structure SystemCalls where
  /-- `MemUtils::allocVirtualMemory`: the address, or nothing when it throws. -/
  allocVirtualMemory : Option ℕ
  /-- `MemUtils::commitVirtualMemory` does not throw. -/
  commitVirtualMemory : Bool
  /-- `MemUtils::uncommitVirtualMemory` does not throw. -/
  uncommitVirtualMemory : Bool
  deriving DecidableEq, Repr

/-- How a build on a machine is configured. -/
structure MemoryConfig where
  osMemoryPageSize : ℕ
  eagerAllocation : Bool
  deriving DecidableEq, Repr

/-- The pages of the operating system divide those of WebAssembly. -/
def MemoryConfig.DividesWasmPage (cfg : MemoryConfig) : Prop :=
  0 < cfg.osMemoryPageSize ∧ cfg.osMemoryPageSize ∣ wasmPageSize

/-- `MemUtils::roundDownToOSMemoryPageSize`. The page size is a power of two, so the mask of
the source takes the remainder away. -/
def MemoryConfig.roundDown (cfg : MemoryConfig) (size : ℕ) : ℕ :=
  size / cfg.osMemoryPageSize * cfg.osMemoryPageSize

/-- `MemUtils::roundUpToOSMemoryPageSize`. -/
def MemoryConfig.roundUp (cfg : MemoryConfig) (size : ℕ) : ℕ :=
  cfg.roundDown (size + cfg.osMemoryPageSize - 1)

/-- `VirtualMemoryAllocator`. -/
structure VirtualMemoryAllocator where
  data : Option ℕ := none
  committedSize : ℕ := 0
  totalSize : ℕ := 0
  deriving DecidableEq, Repr

/-- `VirtualMemoryAllocator::resize`, where `none` stands for the error it throws. -/
def VirtualMemoryAllocator.resize (os : SystemCalls) (vma : VirtualMemoryAllocator) (size : ℕ) :
    Option VirtualMemoryAllocator :=
  if size > vma.totalSize then none
  else if size > vma.committedSize ∧ !os.commitVirtualMemory then none
  else if size < vma.committedSize ∧ !os.uncommitVirtualMemory then none
  else some { vma with committedSize := size }

/-! ### The allocator -/

/-- The fields of the allocator. -/
structure LinearMemoryAllocator where
  virtualMemoryAllocator : VirtualMemoryAllocator := {}
  basedataStart : Option ℕ := none
  pagedBasedataSize : ℕ := 0
  linMemPages : UInt32 := 0
  pagedMemoryLimit : ℕ := 2 ^ 64 - 1
  maxDesiredRamOnMemoryExtendFailed : ℕ := 0
  deriving DecidableEq, Repr

namespace LinearMemoryAllocator

/-- `LinearMemoryAllocator::offsetGuardRegionSize`. -/
def offsetGuardRegionSize : ℕ := 2 ^ 32 + 2 ^ 16

/-- Commit so many bytes, where `none` stands for the error it throws. -/
def commit (os : SystemCalls) (m : LinearMemoryAllocator) (newPagedSize : ℕ) :
    Option Bool × LinearMemoryAllocator :=
  if newPagedSize > m.pagedMemoryLimit then
    (some false, { m with maxDesiredRamOnMemoryExtendFailed := newPagedSize })
  else
    match m.virtualMemoryAllocator.resize os newPagedSize with
    | some vma => (some true, { m with virtualMemoryAllocator := vma })
    | none => (none, m)

/-- The bytes that are committed at first. -/
def initialCommit (cfg : MemoryConfig) (basedataSize initialLinMemPages : UInt32) : ℕ :=
  if cfg.eagerAllocation then
    cfg.roundUp basedataSize.toNat + initialLinMemPages.toNat * wasmPageSize
  else cfg.roundUp basedataSize.toNat

/-- The allocator with the address space for a module, and nothing committed. -/
def reserved (cfg : MemoryConfig) (m : LinearMemoryAllocator) (address : ℕ) :
    LinearMemoryAllocator :=
  { m with
    virtualMemoryAllocator :=
      { data := some address
        totalSize := cfg.roundUp
          (m.pagedBasedataSize + maxWasmPages * wasmPageSize + offsetGuardRegionSize) } }

/-- Reserve and commit the memory for a module; `false` stands for the errors it throws. -/
def init (cfg : MemoryConfig) (os : SystemCalls) (m : LinearMemoryAllocator)
    (basedataSize initialLinMemPages : UInt32) : Bool × LinearMemoryAllocator :=
  let m := { m with
    basedataStart := none
    pagedBasedataSize := cfg.roundUp basedataSize.toNat
    linMemPages := initialLinMemPages }
  match os.allocVirtualMemory with
  | none => (false, m)
  | some address =>
      match (m.reserved cfg address).commit os
          (initialCommit cfg basedataSize initialLinMemPages) with
      | (some true, m) =>
          (true, { m with
            basedataStart := some (address + m.pagedBasedataSize - basedataSize.toNat) })
      -- the memory is given back, but the pointer to it stays
      | (_, m) => (false, m)

/-- Change the allowed size, and the committed one if that is what the build does. -/
def extend (cfg : MemoryConfig) (os : SystemCalls) (m : LinearMemoryAllocator)
    (newTotalLinMemPages : UInt32) : Bool × LinearMemoryAllocator :=
  let m := { m with linMemPages := newTotalLinMemPages }
  if cfg.eagerAllocation ∧ m.virtualMemoryAllocator.data.isSome then
    match m.commit os (m.pagedBasedataSize + newTotalLinMemPages.toNat * wasmPageSize) with
    | (some success, m) => (success, m)
    | (none, m) => (false, m)
  else (true, m)

/-- The committed size of the linear memory, as 64 bits. -/
def linMemCommitedSize (m : LinearMemoryAllocator) : ℕ :=
  (m.virtualMemoryAllocator.committedSize + 2 ^ 64 - m.pagedBasedataSize) % 2 ^ 64

/-- Give pages back that are not needed for so many bytes. -/
def shrink (cfg : MemoryConfig) (os : SystemCalls) (m : LinearMemoryAllocator)
    (minimumLength : UInt32) : Bool × LinearMemoryAllocator :=
  if m.virtualMemoryAllocator.data.isNone then (false, m)
  else if m.linMemCommitedSize < minimumLength.toNat then (false, m)
  else
    match m.commit os (m.pagedBasedataSize + cfg.roundDown minimumLength.toNat) with
    | (some success, m) => (success, m)
    | (none, m) => (false, m)

/-- Make an offset usable. -/
def probe (cfg : MemoryConfig) (os : SystemCalls) (m : LinearMemoryAllocator)
    (linMemOffset : UInt32) : ProbeResult × LinearMemoryAllocator :=
  if m.virtualMemoryAllocator.data.isNone then (.allocationFailure, m)
  else if linMemOffset.toNat < m.linMemCommitedSize then (.ok, m)
  else if linMemOffset.toNat < m.linMemPages.toNat * wasmPageSize then
    match m.commit os (m.pagedBasedataSize + cfg.roundUp (linMemOffset.toNat + 1)) with
    | (some true, m) => (.ok, m)
    | (_, m) => (.allocationFailure, m)
  else (.outOfBounds, m)

/-- Set the memory limit; `false` stands for the error it throws. -/
def setMemoryLimit (cfg : MemoryConfig) (m : LinearMemoryAllocator) (memoryLimit : UInt64) :
    Bool × LinearMemoryAllocator :=
  if m.virtualMemoryAllocator.committedSize > cfg.roundDown memoryLimit.toNat then (false, m)
  else (true, { m with pagedMemoryLimit := cfg.roundDown memoryLimit.toNat })

/-! ### Rounding -/

variable {cfg : MemoryConfig} {os : SystemCalls} {m : LinearMemoryAllocator}

/-- Rounding down does not make a size larger. -/
theorem roundDown_le (cfg : MemoryConfig) (size : ℕ) : cfg.roundDown size ≤ size :=
  Nat.div_mul_le_self size cfg.osMemoryPageSize

/-- Rounding up does not make a size smaller. -/
theorem le_roundUp (hpage : 0 < cfg.osMemoryPageSize) (size : ℕ) : size ≤ cfg.roundUp size := by
  have hmod := Nat.div_add_mod' (size + cfg.osMemoryPageSize - 1) cfg.osMemoryPageSize
  have hlt := Nat.mod_lt (size + cfg.osMemoryPageSize - 1) hpage
  rw [MemoryConfig.roundUp, MemoryConfig.roundDown]
  omega

/-- Rounding up stays below whole WebAssembly pages. -/
theorem roundUp_le_pages (hpage : cfg.DividesWasmPage) {size pages : ℕ}
    (hle : size ≤ pages * wasmPageSize) : cfg.roundUp size ≤ pages * wasmPageSize := by
  obtain ⟨hpos, factor, hfactor⟩ := hpage
  have hmul : pages * wasmPageSize = pages * factor * cfg.osMemoryPageSize := by
    rw [hfactor, Nat.mul_comm cfg.osMemoryPageSize, Nat.mul_assoc]
  rw [hmul] at hle ⊢
  rw [MemoryConfig.roundUp, MemoryConfig.roundDown]
  refine Nat.mul_le_mul_right _ (Nat.lt_succ_iff.mp ?_)
  rw [Nat.div_lt_iff_lt_mul hpos, Nat.succ_mul]
  omega

/-! ### The committed size -/

/-- The committed size covers the basedata and stays within the allowed size. -/
def Committed (m : LinearMemoryAllocator) : Prop :=
  m.virtualMemoryAllocator.data.isSome = true →
    m.pagedBasedataSize ≤ m.virtualMemoryAllocator.committedSize ∧
      m.virtualMemoryAllocator.committedSize ≤
        m.pagedBasedataSize + m.linMemPages.toNat * wasmPageSize

/-- The usable size of the linear memory. -/
def linearMemorySize (m : LinearMemoryAllocator) : ℕ :=
  m.virtualMemoryAllocator.committedSize - m.pagedBasedataSize

/-- With 64 bits, the committed size of the linear memory is the usable size. -/
theorem linMemCommitedSize_eq (h : m.Committed)
    (hdata : m.virtualMemoryAllocator.data.isSome = true) :
    m.linMemCommitedSize = m.linearMemorySize := by
  obtain ⟨hlow, hhigh⟩ := h hdata
  have hpages := m.linMemPages.toNat_lt
  simp only [wasmPageSize] at hhigh
  simp only [linMemCommitedSize, linearMemorySize]
  omega

/-- A commit sets the committed size, is refused, or throws. -/
theorem commit_cases (os : SystemCalls) (m : LinearMemoryAllocator) (newPagedSize : ℕ) :
    m.commit os newPagedSize =
        (some true, { m with virtualMemoryAllocator :=
          { m.virtualMemoryAllocator with committedSize := newPagedSize } }) ∨
      m.commit os newPagedSize =
        (some false, { m with maxDesiredRamOnMemoryExtendFailed := newPagedSize }) ∨
      m.commit os newPagedSize = (none, m) := by
  simp only [commit, VirtualMemoryAllocator.resize]
  split
  · exact .inr (.inl rfl)
  · split
    · case _ vma heq =>
        split_ifs at heq
        cases heq
        exact .inl rfl
    · exact .inr (.inr rfl)

/-- A commit of more bytes that are reserved, within the limit, when the system gives them. -/
theorem commit_of_grow {newPagedSize : ℕ}
    (hgrow : m.virtualMemoryAllocator.committedSize ≤ newPagedSize)
    (hlimit : newPagedSize ≤ m.pagedMemoryLimit)
    (htotal : newPagedSize ≤ m.virtualMemoryAllocator.totalSize)
    (hcommit : newPagedSize = 0 ∨ os.commitVirtualMemory = true) :
    m.commit os newPagedSize =
      (some true, { m with virtualMemoryAllocator :=
        { m.virtualMemoryAllocator with committedSize := newPagedSize } }) := by
  have hcommit' : ¬ (newPagedSize > m.virtualMemoryAllocator.committedSize ∧
      (!os.commitVirtualMemory) = true) := by
    rintro ⟨hlt, hno⟩
    rcases hcommit with hzero | hyes
    · omega
    · simp [hyes] at hno
  rw [commit, if_neg (Nat.not_lt.mpr hlimit), VirtualMemoryAllocator.resize,
    if_neg (Nat.not_lt.mpr htotal), if_neg hcommit', if_neg (by omega)]

/-- **Probing and the committed size**. -/
theorem probe_committed (hpage : cfg.DividesWasmPage) (h : m.Committed)
    (linMemOffset : UInt32) :
    (m.probe cfg os linMemOffset).2.Committed ∧
      (m.probe cfg os linMemOffset).2.linMemPages = m.linMemPages ∧
      m.linearMemorySize ≤ (m.probe cfg os linMemOffset).2.linearMemorySize ∧
      match (m.probe cfg os linMemOffset).1 with
      | .ok =>
          linMemOffset.toNat < (m.probe cfg os linMemOffset).2.linearMemorySize ∧
            linMemOffset.toNat < m.linMemPages.toNat * wasmPageSize
      | .allocationFailure => True
      | .outOfBounds => m.linMemPages.toNat * wasmPageSize ≤ linMemOffset.toNat := by
  rw [probe]
  split
  · exact ⟨h, rfl, le_refl _, trivial⟩
  · case _ hdata =>
      rw [Option.isNone_iff_eq_none, ← ne_eq, ← Option.isSome_iff_ne_none] at hdata
      obtain ⟨hlow, hhigh⟩ := h hdata
      rw [linMemCommitedSize_eq h hdata]
      split
      · case _ hlt =>
          refine ⟨h, rfl, le_refl _, hlt, ?_⟩
          rw [linearMemorySize] at hlt
          omega
      · case _ hge =>
          split
          · case _ hallowed =>
              have hup := le_roundUp hpage.1 (linMemOffset.toNat + 1)
              have hpages := roundUp_le_pages hpage
                (show linMemOffset.toNat + 1 ≤ m.linMemPages.toNat * wasmPageSize by omega)
              rw [linearMemorySize] at hge
              obtain heq | heq | heq := m.commit_cases os
                (m.pagedBasedataSize + cfg.roundUp (linMemOffset.toNat + 1))
              · rw [heq]
                refine ⟨fun _ => ⟨?_, ?_⟩, rfl, ?_, ?_, hallowed⟩ <;>
                  simp only [linearMemorySize] <;> omega
              · rw [heq]
                exact ⟨h, rfl, le_refl _, trivial⟩
              · rw [heq]
                exact ⟨h, rfl, le_refl _, trivial⟩
          · case _ hallowed => exact ⟨h, rfl, le_refl _, Nat.le_of_not_lt hallowed⟩

/-- **Shrinking and the committed size**. -/
theorem shrink_committed (h : m.Committed) (minimumLength : UInt32) :
    (m.shrink cfg os minimumLength).2.Committed := by
  rw [shrink]
  split
  · exact h
  · case _ hdata =>
      rw [Option.isNone_iff_eq_none, ← ne_eq, ← Option.isSome_iff_ne_none] at hdata
      rw [linMemCommitedSize_eq h hdata]
      split
      · exact h
      · case _ hle =>
          obtain ⟨hlow, hhigh⟩ := h hdata
          have hdown := roundDown_le cfg minimumLength.toNat
          rw [linearMemorySize] at hle
          obtain heq | heq | heq := m.commit_cases os
            (m.pagedBasedataSize + cfg.roundDown minimumLength.toNat)
          · rw [heq]
            refine fun _ => ⟨Nat.le_add_right _ _, ?_⟩
            simp only
            omega
          · rw [heq]
            exact h
          · rw [heq]
            exact h

/-- The new allowed size is not below the usable size, or an eager build commits exactly the
new allowed size. -/
def ExtendMeets (cfg : MemoryConfig) (os : SystemCalls) (m : LinearMemoryAllocator)
    (newTotalLinMemPages : UInt32) : Prop :=
  m.linearMemorySize ≤ newTotalLinMemPages.toNat * wasmPageSize ∨
    cfg.eagerAllocation = true ∧
      (commit os { m with linMemPages := newTotalLinMemPages }
        (m.pagedBasedataSize + newTotalLinMemPages.toNat * wasmPageSize)).1 = some true

/-- **Extending and the committed size**. -/
theorem extend_committed (h : m.Committed) {newTotalLinMemPages : UInt32}
    (hmeets : m.virtualMemoryAllocator.data.isSome = true →
      m.ExtendMeets cfg os newTotalLinMemPages) :
    (m.extend cfg os newTotalLinMemPages).2.Committed := by
  have hkept : m.linearMemorySize ≤ newTotalLinMemPages.toNat * wasmPageSize →
      Committed { m with linMemPages := newTotalLinMemPages } := by
    intro hle hdata
    obtain ⟨hlow, -⟩ := h hdata
    rw [linearMemorySize] at hle
    exact ⟨hlow, by simp only; omega⟩
  simp only [extend]
  split
  · case _ heager =>
      obtain heq | heq | heq := commit_cases os { m with linMemPages := newTotalLinMemPages }
        (m.pagedBasedataSize + newTotalLinMemPages.toNat * wasmPageSize)
      · rw [heq]
        exact fun _ => ⟨Nat.le_add_right _ _, le_refl _⟩
      · obtain hle | ⟨-, hcommit⟩ := hmeets heager.2
        · rw [heq]
          exact hkept hle
        · simp [heq] at hcommit
      · obtain hle | ⟨-, hcommit⟩ := hmeets heager.2
        · rw [heq]
          exact hkept hle
        · simp [heq] at hcommit
  · case _ hlazy =>
      intro hdata
      obtain hle | ⟨heager, -⟩ := hmeets hdata
      · exact hkept hle hdata
      · exact absurd ⟨heager, hdata⟩ hlazy

/-- There is no memory, or the system gives the bytes that are committed at first. -/
def InitMeets (cfg : MemoryConfig) (os : SystemCalls) (m : LinearMemoryAllocator)
    (basedataSize initialLinMemPages : UInt32) : Prop :=
  (os.allocVirtualMemory = none ∧ m.virtualMemoryAllocator.data = none) ∨
    (os.allocVirtualMemory.isSome = true ∧
      initialCommit cfg basedataSize initialLinMemPages ≤ m.pagedMemoryLimit ∧
      (initialCommit cfg basedataSize initialLinMemPages = 0 ∨ os.commitVirtualMemory = true))

/-- What is committed at first covers the basedata and stays within the allowed size. -/
theorem initialCommit_bounds (cfg : MemoryConfig) (basedataSize initialLinMemPages : UInt32) :
    cfg.roundUp basedataSize.toNat ≤ initialCommit cfg basedataSize initialLinMemPages ∧
      initialCommit cfg basedataSize initialLinMemPages ≤
        cfg.roundUp basedataSize.toNat + initialLinMemPages.toNat * wasmPageSize := by
  rw [initialCommit]
  split <;> omega

/-- **Setting up and the committed size**: if it succeeds. -/
theorem init_committed_of_ok {basedataSize initialLinMemPages : UInt32}
    (hok : (m.init cfg os basedataSize initialLinMemPages).1 = true) :
    (m.init cfg os basedataSize initialLinMemPages).2.Committed := by
  simp only [init] at hok ⊢
  split at hok
  · simp at hok
  · case _ address haddress =>
      obtain heq | heq | heq := (reserved cfg { m with
          basedataStart := none
          pagedBasedataSize := cfg.roundUp basedataSize.toNat
          linMemPages := initialLinMemPages } address).commit_cases os
        (initialCommit cfg basedataSize initialLinMemPages)
      · rw [heq]
        exact fun _ => initialCommit_bounds cfg basedataSize initialLinMemPages
      · simp [heq] at hok
      · simp [heq] at hok

/-- Setting up leads to such a state when the system gives what it has to. -/
theorem init_committed (hpage : cfg.DividesWasmPage) {basedataSize initialLinMemPages : UInt32}
    (hpages : initialLinMemPages.toNat ≤ maxWasmPages)
    (hmeets : m.InitMeets cfg os basedataSize initialLinMemPages) :
    (m.init cfg os basedataSize initialLinMemPages).2.Committed := by
  rcases hmeets with ⟨hnone, hdata⟩ | ⟨hsome, hlimit, hcommit⟩
  · rw [init, hnone]
    intro hdata'
    simp [hdata] at hdata'
  · refine init_committed_of_ok ?_
    obtain ⟨address, haddress⟩ := Option.isSome_iff_exists.mp hsome
    obtain ⟨-, hhigh⟩ := initialCommit_bounds cfg basedataSize initialLinMemPages
    have htotal := le_roundUp hpage.1
      (cfg.roundUp basedataSize.toNat + maxWasmPages * wasmPageSize + offsetGuardRegionSize)
    have hmul := Nat.mul_le_mul_right wasmPageSize hpages
    have hgrow := commit_of_grow (m := reserved cfg { m with
        basedataStart := none
        pagedBasedataSize := cfg.roundUp basedataSize.toNat
        linMemPages := initialLinMemPages } address)
      (Nat.zero_le _) hlimit (by simp only [reserved]; omega) hcommit
    simp only [init, haddress]
    rw [hgrow]

/-! ### The allowed size -/

/-- A commit leaves the allowed size. -/
theorem linMemPages_of_commit {m' : LinearMemoryAllocator} {newPagedSize : ℕ}
    {result : Option Bool} (h : m.commit os newPagedSize = (result, m')) :
    m'.linMemPages = m.linMemPages := by
  obtain heq | heq | heq := m.commit_cases os newPagedSize <;>
    · rw [h] at heq
      cases heq
      rfl

/-- Setting up sets the allowed size, also if it fails. -/
theorem init_linMemPages (cfg : MemoryConfig) (os : SystemCalls) (m : LinearMemoryAllocator)
    (basedataSize initialLinMemPages : UInt32) :
    (m.init cfg os basedataSize initialLinMemPages).2.linMemPages = initialLinMemPages := by
  rw [init]
  split
  · rfl
  · split
    · case _ heq => exact linMemPages_of_commit heq
    · case _ heq => exact linMemPages_of_commit heq

/-- Extending sets the allowed size, also if it fails. -/
theorem extend_linMemPages (newTotalLinMemPages : UInt32) :
    (m.extend cfg os newTotalLinMemPages).2.linMemPages = newTotalLinMemPages := by
  simp only [extend]
  split
  · split
    · case _ heq => exact linMemPages_of_commit heq
    · case _ heq => exact linMemPages_of_commit heq
  · rfl

/-- Shrinking leaves the allowed size. -/
theorem shrink_linMemPages (minimumLength : UInt32) :
    (m.shrink cfg os minimumLength).2.linMemPages = m.linMemPages := by
  rw [shrink]
  split
  · rfl
  · split
    · rfl
    · split
      · case _ heq => exact linMemPages_of_commit heq
      · case _ heq => exact linMemPages_of_commit heq

/-- The memory limit is set, or nothing happens. -/
theorem setMemoryLimit_eq (cfg : MemoryConfig) (m : LinearMemoryAllocator)
    (memoryLimit : UInt64) :
    ∃ limit, (m.setMemoryLimit cfg memoryLimit).2 = { m with pagedMemoryLimit := limit } := by
  rw [setMemoryLimit]
  split
  · exact ⟨m.pagedMemoryLimit, rfl⟩
  · exact ⟨_, rfl⟩

end LinearMemoryAllocator

end WasmCompiler
