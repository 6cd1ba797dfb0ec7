import WasmCompiler.ConditionFlags

/-!
# Linked Memory

The builtins that read the memory of a linked module: ten typed loads and the copy into the
own linear memory, as the x86-64 and the AArch64 backend emit them. The checks run on 32-bit
registers and branch on condition codes; what a builtin does is the list of accesses it makes
and whether it ends in a trap. Single bytes of the own linear memory that are read only to
provoke a fault, and are thrown away, are no accesses here.

The linear memory is protected in one of three ways (`LINEAR_MEMORY_BOUNDS_CHECKS`, faulting
pages, or faulting pages with `EAGER_ALLOCATION`).

## Main results

* `CopiesRange.emitMemcpyNoBoundsCheck_x86_64`, `CopiesRange.emitMemcpyNoBoundsCheck_aarch64`:
  both copy loops read and write the whole range and nothing else.
* `linkedMemory_isolated_iff`: a builtin accesses linked memory exactly for the requests in
  range, unless one of the listed hazards applies.
-/

namespace WasmCompiler

/-! ### Memories and executions -/

/-- The backends with linked-memory builtins. -/
inductive CompilerTarget where
  | x86_64
  | aarch64
  deriving DecidableEq, Repr

/-- How accesses outside of the linear memory are caught. -/
inductive MemoryProtection where
  /-- `LINEAR_MEMORY_BOUNDS_CHECKS`: by emitted comparisons. -/
  | boundsChecks
  /-- By page faults; pages are committed on demand. -/
  | lazyPages
  /-- By page faults; `EAGER_ALLOCATION` commits the formal size up front. -/
  | eagerAllocation
  deriving DecidableEq, Repr

/-- The extent of a linear memory in bytes: its size for WebAssembly, what is committed when
the builtin starts, and what the host is able to commit on request. -/
structure LinMemExtent where
  protection : MemoryProtection
  formalSize : ℕ
  committedSize : ℕ
  providedSize : ℕ
  committed_lt : committedSize < 2 ^ 32
  committed_le : committedSize ≤ providedSize
  provided_le : providedSize ≤ formalSize
  formal_le : formalSize ≤ 2 ^ 32
  provided_of_eager : protection = .eagerAllocation → providedSize = formalSize
  provided_aligned : protection = .lazyPages → 4096 ∣ providedSize

/-- An access to a range of bytes, by offsets from the start of the memory. -/
inductive MemoryAccess where
  | readLinked (offset width : ℕ)
  | writeLinear (offset width : ℕ)
  deriving DecidableEq, Repr

/-- What a builtin did: its accesses in order, and whether it ended in a trap. -/
structure Execution where
  accesses : List MemoryAccess
  trapped : Bool
  deriving DecidableEq, Repr

namespace Execution

/-- A trap without an access. -/
def trap : Execution := ⟨[], true⟩

/-- The end of the builtin. -/
def finish : Execution := ⟨[], false⟩

/-- The load of a typed load builtin. -/
def load (offset width : ℕ) : Execution := ⟨[.readLinked offset width], false⟩

/-- The byte of the linked memory is read. -/
def ReadsLinked (run : Execution) (a : ℕ) : Prop :=
  ∃ offset width, .readLinked offset width ∈ run.accesses ∧ offset ≤ a ∧ a < offset + width

/-- The byte of the linear memory is written. -/
def WritesLinear (run : Execution) (a : ℕ) : Prop :=
  ∃ offset width, .writeLinear offset width ∈ run.accesses ∧ offset ≤ a ∧ a < offset + width

/-- A finished load reads its range. -/
@[simp] theorem readsLinked_load {offset width a : ℕ} :
    (load offset width).ReadsLinked a ↔ offset ≤ a ∧ a < offset + width := by
  simp [ReadsLinked, load]

end Execution

/-- A store of `width` bytes raises a page fault. -/
def LinMemExtent.StoreFaults (mem : LinMemExtent) (offset width : ℕ) : Prop :=
  mem.protection ≠ .boundsChecks ∧ 0 < width ∧ mem.providedSize < offset + width

instance (mem : LinMemExtent) (offset width : ℕ) : Decidable (mem.StoreFaults offset width) :=
  inferInstanceAs (Decidable (_ ∧ _ ∧ _))

/-! ### Copy loops -/

/-- One chunk of a copy: read from linked memory, then stored. -/
def transfer (mem : LinMemExtent) (dst src width : ℕ) (rest : Execution) : Execution :=
  if mem.StoreFaults dst width then ⟨[.readLinked src width], true⟩
  else ⟨.readLinked src width :: .writeLinear dst width :: rest.accesses, rest.trapped⟩

/-- A chunk whose store succeeds adds its bytes to the reads. -/
theorem readsLinked_transfer {mem : LinMemExtent} {dst src width a : ℕ} {rest : Execution}
    (h : ¬ mem.StoreFaults dst width) :
    (transfer mem dst src width rest).ReadsLinked a ↔
      (src ≤ a ∧ a < src + width) ∨ rest.ReadsLinked a := by
  rw [transfer, if_neg h]
  simp only [Execution.ReadsLinked, List.mem_cons, reduceCtorEq, false_or,
    MemoryAccess.readLinked.injEq]
  constructor
  · rintro ⟨offset, w, ⟨rfl, rfl⟩ | hmem, hin⟩
    · exact .inl hin
    · exact .inr ⟨offset, w, hmem, hin⟩
  · rintro (hin | ⟨offset, w, hmem, hin⟩)
    · exact ⟨src, width, .inl ⟨rfl, rfl⟩, hin⟩
    · exact ⟨offset, w, .inr hmem, hin⟩

/-- A chunk whose store succeeds adds its bytes to the writes. -/
theorem writesLinear_transfer {mem : LinMemExtent} {dst src width a : ℕ} {rest : Execution}
    (h : ¬ mem.StoreFaults dst width) :
    (transfer mem dst src width rest).WritesLinear a ↔
      (dst ≤ a ∧ a < dst + width) ∨ rest.WritesLinear a := by
  rw [transfer, if_neg h]
  simp only [Execution.WritesLinear, List.mem_cons, reduceCtorEq, false_or,
    MemoryAccess.writeLinear.injEq]
  constructor
  · rintro ⟨offset, w, ⟨rfl, rfl⟩ | hmem, hin⟩
    · exact .inl hin
    · exact .inr ⟨offset, w, hmem, hin⟩
  · rintro (hin | ⟨offset, w, hmem, hin⟩)
    · exact ⟨dst, width, .inl ⟨rfl, rfl⟩, hin⟩
    · exact ⟨offset, w, .inr hmem, hin⟩

namespace X86_64

/-- The label `copy1InReverse`. -/
def copy1InReverse (mem : LinMemExtent) (dst src : ℕ) : ℕ → Execution
  | 0 => .finish
  | size + 1 => transfer mem (dst + size) (src + size) 1 (copy1InReverse mem dst src size)

/-- `emitMemcpyNoBoundsCheck` without overlap, from the end to the begin. `sizeReg` counts down
and is compared unsigned. -/
def emitMemcpyNoBoundsCheck (mem : LinMemExtent) (dst src size : ℕ) : Execution :=
  if _h : size < 8 then
    copy1InReverse mem dst src size
  else
    transfer mem (dst + size - 8) (src + size - 8) 8
      (emitMemcpyNoBoundsCheck mem dst src (size - 8))
termination_by size

end X86_64

namespace AArch64

/-- The label `copy1Forward`. -/
def copy1Forward (mem : LinMemExtent) (dst src : ℕ) : ℕ → Execution
  | 0 => .finish
  | size + 1 => transfer mem dst src 1 (copy1Forward mem (dst + 1) (src + 1) size)

/-- `SUBS` by 16 without `MI` means that 16 bytes are left. -/
theorem le_of_not_MI {size : BitVec 32} (h : ¬ Aarch64CC.MI.holds (subsFlags size 16)) :
    16 ≤ size.toNat := by
  have hlt := size.isLt
  simp only [Aarch64CC.holds_MI, BitVec.msb_eq_decide, BitVec.toNat_sub, decide_eq_true_eq] at h
  simp at h
  omega

/-- `emitMemcpyNoBoundsCheck` without overlap, from the begin to the end. The size register
holds 16 less than the remaining size while 16 bytes are copied at a time. -/
def emitMemcpyNoBoundsCheck (mem : LinMemExtent) (dst src : ℕ) (size : BitVec 32) : Execution :=
  if _h : Aarch64CC.MI.holds (subsFlags size 16) then
    copy1Forward mem dst src (size - 16 + 16).toNat
  else
    transfer mem dst src 16 (emitMemcpyNoBoundsCheck mem (dst + 16) (src + 16) (size - 16))
termination_by size.toNat
decreasing_by
  have hle := le_of_not_MI ‹_›
  rw [BitVec.toNat_sub_of_le (by simpa [BitVec.le_def] using hle)]
  simp
  omega

end AArch64

/-- A copy run over `size` bytes: it traps exactly on a page fault, starts with an access
unless there is nothing to copy, and otherwise accesses the two ranges. -/
structure CopiesRange (mem : LinMemExtent) (dst src size : ℕ) (run : Execution) : Prop where
  trapped_iff : run.trapped = true ↔ mem.StoreFaults dst size
  accesses_ne : 0 < size → run.accesses ≠ []
  reads : run.trapped = false → ∀ a, run.ReadsLinked a ↔ src ≤ a ∧ a < src + size
  writes : run.trapped = false → ∀ a, run.WritesLinear a ↔ dst ≤ a ∧ a < dst + size

namespace CopiesRange

variable {mem : LinMemExtent} {dst src size width : ℕ} {rest : Execution}

/-- Nothing is left to copy. -/
theorem finish : CopiesRange mem dst src 0 .finish where
  trapped_iff := by simp [Execution.finish, LinMemExtent.StoreFaults]
  accesses_ne := by simp
  reads := by
    intro _ a
    simp [Execution.finish, Execution.ReadsLinked]
  writes := by
    intro _ a
    simp [Execution.finish, Execution.WritesLinear]

/-- A chunk in front of the remaining range, or behind it. -/
theorem chunk {dst' src' chunkDst chunkSrc : ℕ} (hrest : CopiesRange mem dst' src' size rest)
    (hwidth : 0 < width)
    (hplace : (dst' = dst + width ∧ src' = src + width ∧ chunkDst = dst ∧ chunkSrc = src) ∨
      (dst' = dst ∧ src' = src ∧ chunkDst = dst + size ∧ chunkSrc = src + size)) :
    CopiesRange mem dst src (width + size) (transfer mem chunkDst chunkSrc width rest) := by
  by_cases hfault : mem.StoreFaults chunkDst width
  · have hwhole : mem.StoreFaults dst (width + size) := by
      obtain ⟨hprot, -, hlt⟩ := hfault
      exact ⟨hprot, by omega, by omega⟩
    rw [transfer, if_pos hfault]
    exact ⟨by simpa using hwhole, by simp, by simp, by simp⟩
  · have hwhole : mem.StoreFaults dst' size ↔ mem.StoreFaults dst (width + size) := by
      simp only [LinMemExtent.StoreFaults, not_and, Nat.not_lt] at hfault ⊢
      constructor
      · rintro ⟨hprot, -, hlt⟩
        exact ⟨hprot, by omega, by omega⟩
      · rintro ⟨hprot, -, hlt⟩
        have hchunk := hfault hprot hwidth
        exact ⟨hprot, by omega, by omega⟩
    have htrapped : (transfer mem chunkDst chunkSrc width rest).trapped = rest.trapped := by
      rw [transfer, if_neg hfault]
    constructor
    · rw [htrapped]
      exact hrest.trapped_iff.trans hwhole
    · simp [transfer, hfault]
    · intro hrun a
      rw [readsLinked_transfer hfault, hrest.reads (htrapped ▸ hrun)]
      omega
    · intro hrun a
      rw [writesLinear_transfer hfault, hrest.writes (htrapped ▸ hrun)]
      omega

/-- Byte by byte from the end. -/
theorem copy1InReverse (mem : LinMemExtent) (dst src size : ℕ) :
    CopiesRange mem dst src size (X86_64.copy1InReverse mem dst src size) := by
  induction size with
  | zero => exact finish
  | succ size ih =>
      rw [X86_64.copy1InReverse, Nat.add_comm size 1]
      exact chunk ih Nat.one_pos (.inr ⟨rfl, rfl, rfl, rfl⟩)

/-- The copy loop of x86-64. -/
theorem emitMemcpyNoBoundsCheck_x86_64 (mem : LinMemExtent) (dst src size : ℕ) :
    CopiesRange mem dst src size (X86_64.emitMemcpyNoBoundsCheck mem dst src size) := by
  induction size using Nat.strong_induction_on with
  | _ size ih =>
      rw [X86_64.emitMemcpyNoBoundsCheck]
      split
      · exact copy1InReverse mem dst src size
      · have hrest := ih (size - 8) (by omega)
        obtain ⟨n, rfl⟩ : ∃ n, size = 8 + n := ⟨size - 8, by omega⟩
        rw [Nat.add_sub_cancel_left] at hrest ⊢
        exact chunk hrest (by omega) (.inr ⟨rfl, rfl, by omega, by omega⟩)

/-- Byte by byte from the begin. -/
theorem copy1Forward (mem : LinMemExtent) (dst src size : ℕ) :
    CopiesRange mem dst src size (AArch64.copy1Forward mem dst src size) := by
  induction size generalizing dst src with
  | zero => exact finish
  | succ size ih =>
      rw [AArch64.copy1Forward, Nat.add_comm size 1]
      exact chunk (ih (dst + 1) (src + 1)) Nat.one_pos (.inl ⟨rfl, rfl, rfl, rfl⟩)

/-- The copy loop of AArch64. -/
theorem emitMemcpyNoBoundsCheck_aarch64 (mem : LinMemExtent) (dst src : ℕ) (size : BitVec 32) :
    CopiesRange mem dst src size.toNat (AArch64.emitMemcpyNoBoundsCheck mem dst src size) := by
  induction h : size.toNat using Nat.strong_induction_on generalizing dst src size with
  | _ n ih =>
      subst h
      rw [AArch64.emitMemcpyNoBoundsCheck]
      split
      · rw [BitVec.sub_add_cancel]
        exact copy1Forward mem dst src size.toNat
      · rename_i hMI
        have hle := AArch64.le_of_not_MI hMI
        have hsub : (size - 16).toNat = size.toNat - 16 := by
          rw [BitVec.toNat_sub_of_le (by simpa [BitVec.le_def] using hle)]
          rfl
        have hrest := ih (size - 16).toNat (by omega) (dst + 16) (src + 16) (size - 16) rfl
        rw [hsub] at hrest
        rw [show size.toNat = 16 + (size.toNat - 16) by omega]
        exact chunk hrest (by omega) (.inl ⟨rfl, rfl, rfl, rfl⟩)

end CopiesRange

/-! ### Typed loads -/

/-- The typed loads. -/
inductive LinkedMemoryLoad where
  | GETU8 | GETI8 | GETU16 | GETI16 | GETU32 | GETI32 | GETU64 | GETI64 | GETF32 | GETF64
  deriving DecidableEq, Repr

/-- `dataSizes`. -/
def LinkedMemoryLoad.dataSize : LinkedMemoryLoad → ℕ
  | GETU8 | GETI8 => 1
  | GETU16 | GETI16 => 2
  | GETU32 | GETI32 | GETF32 => 4
  | GETU64 | GETI64 | GETF64 => 8

/-- A load accesses between one and eight bytes. -/
theorem LinkedMemoryLoad.dataSize_bounds (builtin : LinkedMemoryLoad) :
    0 < builtin.dataSize ∧ builtin.dataSize ≤ 8 := by
  cases builtin <;> decide

/-- The offset operand, as a constant or as a value known at run time only. -/
inductive OffsetElement where
  | constant (value : BitVec 32)
  | runtime (value : BitVec 32)
  deriving DecidableEq, Repr

/-- The offset the builtin is called with. -/
def OffsetElement.value : OffsetElement → BitVec 32
  | constant value => value
  | runtime value => value

namespace X86_64

/-- The code for an offset in a register: the end of the range is compared. -/
def loadAtOffsetReg (linkedMemLen : BitVec 32) (dataSize : ℕ) (offset : BitVec 32) :
    Execution :=
  if X86CC.B.holds (addFlags offset (BitVec.ofNat 32 dataSize)) then
    .trap
  else
    let offsetReg := offset + BitVec.ofNat 32 dataSize
    if X86CC.AE.holds (subFlags linkedMemLen offsetReg) then
      .load (offsetReg.toNat - dataSize) dataSize
    else
      .trap

/-- The typed loads of `execBuiltinFncCall`. -/
def execGetFromLinkedMemory (linkedMemLen : BitVec 32) (builtin : LinkedMemoryLoad) :
    OffsetElement → Execution
  | .constant offset =>
      if offset.toNat + builtin.dataSize ≤ 0x7FFFFFFF then
        if X86CC.B.holds (subFlags linkedMemLen (offset + BitVec.ofNat 32 builtin.dataSize)) then
          .trap
        else
          .load offset.toNat builtin.dataSize
      else
        loadAtOffsetReg linkedMemLen builtin.dataSize offset
  | .runtime offset => loadAtOffsetReg linkedMemLen builtin.dataSize offset

end X86_64

namespace AArch64

/-- The constant offsets that are encoded into the load instruction, unscaled (`imm9`) or
scaled by the data size (`imm12`). -/
def ConstEncoded (builtin : LinkedMemoryLoad) (offset : BitVec 32) : Prop :=
  (0 ≤ offset.toInt ∧ offset.toInt ≤ 255) ∨
    (offset.toNat % builtin.dataSize = 0 ∧ offset.toNat < 2 ^ 12 ∧
      offset.toNat + builtin.dataSize ≤ 4095)

instance (builtin : LinkedMemoryLoad) (offset : BitVec 32) :
    Decidable (ConstEncoded builtin offset) :=
  inferInstanceAs (Decidable (_ ∨ _))

/-- The code for an offset in a register: the data size is subtracted from the length. -/
def loadAtOffsetReg (linkedMemLen : BitVec 32) (dataSize : ℕ) (offset : BitVec 32) :
    Execution :=
  if Aarch64CC.MI.holds (subsFlags linkedMemLen (BitVec.ofNat 32 dataSize)) then
    .trap
  else if Aarch64CC.LS.holds (subsFlags offset (linkedMemLen - BitVec.ofNat 32 dataSize)) then
    .load offset.toNat dataSize
  else
    .trap

/-- The typed loads of `execBuiltinFncCall`. -/
def execGetFromLinkedMemory (linkedMemLen : BitVec 32) (builtin : LinkedMemoryLoad) :
    OffsetElement → Execution
  | .constant offset =>
      if ConstEncoded builtin offset then
        if Aarch64CC.LO.holds
            (subsFlags linkedMemLen (BitVec.ofNat 32 (offset.toNat + builtin.dataSize))) then
          .trap
        else
          .load offset.toNat builtin.dataSize
      else
        loadAtOffsetReg linkedMemLen builtin.dataSize offset
  | .runtime offset => loadAtOffsetReg linkedMemLen builtin.dataSize offset

end AArch64

/-- The typed loads of a backend. -/
def execGetFromLinkedMemory : CompilerTarget → BitVec 32 → LinkedMemoryLoad → OffsetElement →
    Execution
  | .x86_64 => X86_64.execGetFromLinkedMemory
  | .aarch64 => AArch64.execGetFromLinkedMemory

/-- A typed load behaves as isolation asks: a request in range reads exactly its range, any
other traps without an access. -/
structure LoadIsolated (linkedMemLen offset size : ℕ) (run : Execution) : Prop where
  granted : offset + size ≤ linkedMemLen →
    run.trapped = false ∧ ∀ a, run.ReadsLinked a ↔ offset ≤ a ∧ a < offset + size
  refused : ¬ offset + size ≤ linkedMemLen → run.trapped = true ∧ run.accesses = []

/-- The offset is not a constant of the loads that AArch64 compares without a subtraction. -/
def AArch64.SubtractsDataSize (builtin : LinkedMemoryLoad) : OffsetElement → Prop
  | .constant offset => ¬ ConstEncoded builtin offset
  | .runtime _ => True

/-- What makes a typed load trap for a request in range: the difference AArch64 forms has its
sign bit set although nothing was borrowed. -/
def LoadHazard (target : CompilerTarget) (linkedMemLen : ℕ) (builtin : LinkedMemoryLoad)
    (offset : OffsetElement) : Prop :=
  target = .aarch64 ∧ AArch64.SubtractsDataSize builtin offset ∧
    offset.value.toNat + builtin.dataSize ≤ linkedMemLen ∧
    builtin.dataSize + 2 ^ 31 ≤ linkedMemLen

/-- A load that is made exactly when the request is in range. -/
theorem loadIsolated_of_check {linkedMemLen offset size : ℕ} :
    LoadIsolated linkedMemLen offset size
      (if offset + size ≤ linkedMemLen then .load offset size else .trap) := by
  constructor
  · intro h
    rw [if_pos h]
    exact ⟨rfl, fun a => Execution.readsLinked_load⟩
  · intro h
    rw [if_neg h]
    exact ⟨rfl, rfl⟩

/-- A trap is right exactly for the requests that are out of range. -/
theorem loadIsolated_trap_iff {linkedMemLen offset size : ℕ} :
    LoadIsolated linkedMemLen offset size .trap ↔ ¬ offset + size ≤ linkedMemLen := by
  constructor
  · intro h hin
    exact Bool.noConfusion (h.granted hin).1
  · intro h
    exact ⟨fun hin => absurd hin h, fun _ => ⟨rfl, rfl⟩⟩

/-- The comparison of the end is exact on x86-64. -/
theorem X86_64.loadAtOffsetReg_eq (linkedMemLen offset : BitVec 32) {dataSize : ℕ}
    (h : dataSize ≤ 8) :
    loadAtOffsetReg linkedMemLen dataSize offset =
      if offset.toNat + dataSize ≤ linkedMemLen.toNat then .load offset.toNat dataSize
      else .trap := by
  have hlen := linkedMemLen.isLt
  have hds : (BitVec.ofNat 32 dataSize).toNat = dataSize := by
    rw [BitVec.toNat_ofNat, Nat.mod_eq_of_lt (by omega)]
  simp only [loadAtOffsetReg, X86CC.holds_B_add, X86CC.holds_AE, hds]
  split
  · rw [if_neg (by omega)]
  · have hend : (offset + BitVec.ofNat 32 dataSize).toNat = offset.toNat + dataSize := by
      rw [BitVec.toNat_add, hds, Nat.mod_eq_of_lt (by omega)]
    rw [hend, Nat.add_sub_cancel]

/-- On x86-64 every load is made exactly when it is in range. -/
theorem X86_64.execGetFromLinkedMemory_eq (linkedMemLen : BitVec 32)
    (builtin : LinkedMemoryLoad) (offset : OffsetElement) :
    execGetFromLinkedMemory linkedMemLen builtin offset =
      if offset.value.toNat + builtin.dataSize ≤ linkedMemLen.toNat then
        .load offset.value.toNat builtin.dataSize
      else .trap := by
  obtain ⟨hpos, hle⟩ := builtin.dataSize_bounds
  cases offset with
  | runtime offset => exact loadAtOffsetReg_eq linkedMemLen offset hle
  | constant offset =>
      rw [show (OffsetElement.constant offset).value = offset from rfl]
      simp only [execGetFromLinkedMemory, X86CC.holds_B]
      split
      · rename_i hsmall
        have hend : (offset + BitVec.ofNat 32 builtin.dataSize).toNat =
            offset.toNat + builtin.dataSize := by
          rw [BitVec.toNat_add, BitVec.toNat_ofNat,
            Nat.mod_eq_of_lt (show builtin.dataSize < 2 ^ 32 by omega),
            Nat.mod_eq_of_lt (by omega)]
        rw [hend]
        by_cases hin : offset.toNat + builtin.dataSize ≤ linkedMemLen.toNat
        · rw [if_neg (by omega), if_pos hin]
        · rw [if_pos (by omega), if_neg hin]
      · exact loadAtOffsetReg_eq linkedMemLen offset hle

/-- On AArch64 a difference with its sign bit set is taken for a borrow. -/
theorem AArch64.loadAtOffsetReg_eq (linkedMemLen offset : BitVec 32) {dataSize : ℕ}
    (h : dataSize ≤ 8) :
    loadAtOffsetReg linkedMemLen dataSize offset =
      if linkedMemLen.toNat < dataSize + 2 ^ 31 ∧
          offset.toNat + dataSize ≤ linkedMemLen.toNat then .load offset.toNat dataSize
      else .trap := by
  have hlen := linkedMemLen.isLt
  have hds : (BitVec.ofNat 32 dataSize).toNat = dataSize := by
    rw [BitVec.toNat_ofNat, Nat.mod_eq_of_lt (by omega)]
  have hsub : (linkedMemLen - BitVec.ofNat 32 dataSize).toNat =
      (2 ^ 32 - dataSize + linkedMemLen.toNat) % 2 ^ 32 := by
    rw [BitVec.toNat_sub, hds]
  simp only [loadAtOffsetReg, Aarch64CC.holds_MI, Aarch64CC.holds_LS, BitVec.msb_eq_decide,
    decide_eq_true_eq, hsub]
  split
  · rw [if_neg (by omega)]
  · by_cases hin : offset.toNat + dataSize ≤ linkedMemLen.toNat
    · rw [if_pos (by omega), if_pos (by omega)]
    · rw [if_neg (by omega), if_neg (by omega)]

/-- The typed loads are isolated unless the length is so large that AArch64 mistakes it. -/
theorem execGetFromLinkedMemory_isolated_iff (target : CompilerTarget)
    (linkedMemLen : BitVec 32) (builtin : LinkedMemoryLoad) (offset : OffsetElement) :
    LoadIsolated linkedMemLen.toNat offset.value.toNat builtin.dataSize
        (execGetFromLinkedMemory target linkedMemLen builtin offset) ↔
      ¬ LoadHazard target linkedMemLen.toNat builtin offset := by
  obtain ⟨hpos, hle⟩ := builtin.dataSize_bounds
  have hreg : ∀ value : BitVec 32,
      LoadIsolated linkedMemLen.toNat value.toNat builtin.dataSize
          (AArch64.loadAtOffsetReg linkedMemLen builtin.dataSize value) ↔
        ¬ (value.toNat + builtin.dataSize ≤ linkedMemLen.toNat ∧
          builtin.dataSize + 2 ^ 31 ≤ linkedMemLen.toNat) := by
    intro value
    rw [AArch64.loadAtOffsetReg_eq linkedMemLen value hle]
    by_cases hlen : linkedMemLen.toNat < builtin.dataSize + 2 ^ 31
    · simp only [hlen, true_and]
      exact iff_of_true loadIsolated_of_check (by omega)
    · rw [if_neg (fun hand => hlen hand.1), loadIsolated_trap_iff]
      omega
  cases target with
  | x86_64 =>
      rw [execGetFromLinkedMemory, X86_64.execGetFromLinkedMemory_eq]
      exact iff_of_true loadIsolated_of_check (fun h => CompilerTarget.noConfusion h.1)
  | aarch64 =>
      cases offset with
      | runtime value =>
          rw [execGetFromLinkedMemory, AArch64.execGetFromLinkedMemory, OffsetElement.value, hreg]
          simp [LoadHazard, AArch64.SubtractsDataSize, OffsetElement.value]
      | constant value =>
          rw [execGetFromLinkedMemory, AArch64.execGetFromLinkedMemory, OffsetElement.value]
          by_cases henc : AArch64.ConstEncoded builtin value
          · rw [if_pos henc]
            refine iff_of_true ?_ (fun h => h.2.1 henc)
            have hsmall : value.toNat + builtin.dataSize < 2 ^ 32 := by
              rcases henc with ⟨hnonneg, hlt⟩ | ⟨-, hlt, -⟩
              · rw [BitVec.toInt_eq_toNat_cond] at hlt hnonneg
                split at hlt <;> omega
              · omega
            simp only [Aarch64CC.holds_LO, BitVec.toNat_ofNat, Nat.mod_eq_of_lt hsmall,
              ← Nat.not_le, ite_not]
            exact loadIsolated_of_check
          · rw [if_neg henc, hreg]
            simp [LoadHazard, AArch64.SubtractsDataSize, OffsetElement.value, henc]

/-! ### Copying from linked memory -/

/-- The register that caches eight less than the committed size. -/
def LinMemExtent.memSize (mem : LinMemExtent) : BitVec 64 :=
  BitVec.ofNat 64 mem.committedSize - 8

/-- `CMP` of 64-bit registers, then `GE`. -/
def compareGE : CompilerTarget → BitVec 64 → BitVec 64 → Bool
  | .x86_64, a, b => X86CC.GE.holds (subFlags a b)
  | .aarch64, a, b => Aarch64CC.GE.holds (subsFlags a b)

/-- `emitExtensionRequestFunction`: within the committed size, or the host provides it. -/
def extensionRequest (target : CompilerTarget) (mem : LinMemExtent) (needed : BitVec 64) :
    Bool :=
  compareGE target (mem.memSize + 8) needed || decide (needed.toNat ≤ mem.providedSize)

/-- `emitLinMemBoundsCheck` of a register, with an access size of zero; `false` is a trap. -/
def emitLinMemBoundsCheck (target : CompilerTarget) (mem : LinMemExtent) (addr : BitVec 32) :
    Bool :=
  compareGE target mem.memSize (addr.setWidth 64) ||
    extensionRequest target mem (addr.setWidth 64)

/-- A byte of the linear memory is read to see whether that faults. -/
def LinMemExtent.probeFaults (mem : LinMemExtent) (offset : ℕ) : Bool :=
  decide (mem.providedSize ≤ offset)

/-- The size of the pages AArch64 probes. -/
def pageSize : ℕ := 4096

/-- `COPYFROMLINKEDMEMORY` on x86-64. -/
def X86_64.execCopyFromLinkedMemory (mem : LinMemExtent) (linkedMemLen dst src size : BitVec 32) :
    Execution :=
  -- `dstReg` is the end of the destination first
  if X86CC.B.holds (addFlags dst size) then
    .trap
  else if mem.protection = .boundsChecks ∧
      emitLinMemBoundsCheck .x86_64 mem (dst + size) = false then
    .trap
  else
    let dstReg := dst + size - size
    if mem.protection ≠ .boundsChecks ∧ mem.probeFaults dstReg.toNat = true then
      .trap
    else
      let scratchReg := linkedMemLen - size
      if X86CC.B.holds (subFlags linkedMemLen size) then
        .trap
      else if X86CC.BE.holds (subFlags src scratchReg) then
        emitMemcpyNoBoundsCheck mem dstReg.toNat src.toNat size.toNat
      else
        .trap

namespace AArch64

/-- The label `tryNextPage`: a byte of every page below the end is read; `false` is a trap. -/
def tryNextPage (mem : LinMemExtent) (page dstEnd : ℕ) : Bool :=
  if _h : dstEnd ≤ page then
    true
  else if mem.probeFaults page then
    false
  else
    tryNextPage mem (page + pageSize) dstEnd
termination_by dstEnd - page
decreasing_by
  rw [pageSize]
  omega

/-- The probing of the destination; the linear memory starts at a page boundary. -/
def probeDestination (mem : LinMemExtent) (dst size : ℕ) : Bool :=
  let page := dst / pageSize * pageSize
  !mem.probeFaults page && tryNextPage mem page (dst + size)

/-- `COPYFROMLINKEDMEMORY` on AArch64. -/
def execCopyFromLinkedMemory (mem : LinMemExtent) (linkedMemLen dst src size : BitVec 32) :
    Execution :=
  -- `dstReg` is the end of the destination first
  if Aarch64CC.CS.holds (addFlags dst size) then
    .trap
  else if mem.protection = .boundsChecks ∧
      emitLinMemBoundsCheck .aarch64 mem (dst + size) = false then
    .trap
  else
    let dstReg := dst + size - size
    let scratchReg := linkedMemLen - size
    if Aarch64CC.MI.holds (subsFlags linkedMemLen size) then
      .trap
    else if Aarch64CC.LS.holds (subsFlags src scratchReg) then
      if mem.protection = .lazyPages ∧
          probeDestination mem dstReg.toNat size.toNat = false then
        .trap
      else
        emitMemcpyNoBoundsCheck mem dstReg.toNat src.toNat size
    else
      .trap

end AArch64

/-- The copy of a backend. -/
def execCopyFromLinkedMemory : CompilerTarget → LinMemExtent → BitVec 32 → BitVec 32 →
    BitVec 32 → BitVec 32 → Execution
  | .x86_64 => X86_64.execCopyFromLinkedMemory
  | .aarch64 => AArch64.execCopyFromLinkedMemory

/-- The request of a copy, as numbers, so that no end of a range wraps around. -/
structure CopyRequest where
  linkedMemLen : ℕ
  dst : ℕ
  src : ℕ
  size : ℕ

/-- Both ranges of a request lie within their memories. -/
def CopyRequest.InRange (request : CopyRequest) (mem : LinMemExtent) : Prop :=
  request.src + request.size ≤ request.linkedMemLen ∧
    request.dst + request.size ≤ mem.formalSize

/-- A copy behaves as isolation asks: a request in range is carried out, any other traps
without an access. -/
structure CopyIsolated (mem : LinMemExtent) (request : CopyRequest) (run : Execution) :
    Prop where
  granted : request.InRange mem → run.trapped = false ∧
    (∀ a, run.ReadsLinked a ↔ request.src ≤ a ∧ a < request.src + request.size) ∧
    (∀ a, run.WritesLinear a ↔ request.dst ≤ a ∧ a < request.dst + request.size)
  refused : ¬ request.InRange mem → run.trapped = true ∧ run.accesses = []

/-- The destination passes what is checked before the first chunk. -/
def DestinationChecked (target : CompilerTarget) (mem : LinMemExtent) (request : CopyRequest) :
    Prop :=
  request.dst + request.size < 2 ^ 32 ∧
    match mem.protection, target with
    | .boundsChecks, _ => request.dst + request.size ≤ mem.providedSize
    | _, .x86_64 => request.dst < mem.providedSize
    | .lazyPages, .aarch64 =>
        request.dst < mem.providedSize ∧ request.dst + request.size ≤ mem.providedSize
    | .eagerAllocation, .aarch64 => True

/-- The source passes the check: on AArch64 a difference with its sign bit set is refused, and
a borrow whose difference has it clear is not noticed. -/
def SourceAccepted (target : CompilerTarget) (request : CopyRequest) : Prop :=
  match target with
  | .x86_64 => request.src + request.size ≤ request.linkedMemLen
  | .aarch64 =>
      (request.linkedMemLen < request.size + 2 ^ 31 ∧
        request.src + request.size ≤ request.linkedMemLen) ∨
      (request.linkedMemLen + 2 ^ 31 < request.size ∧
        request.src + request.size ≤ request.linkedMemLen + 2 ^ 32)

/-- What makes a copy differ from isolation. -/
def CopyHazard (target : CompilerTarget) (mem : LinMemExtent) (request : CopyRequest) : Prop :=
  -- the destination ends at 4 GiB, so its end is zero in the register
  (request.InRange mem ∧ request.dst + request.size = 2 ^ 32) ∨
  -- the host does not provide the memory it announced
  (request.InRange mem ∧ mem.providedSize < request.dst + request.size) ∨
  -- an empty copy to the very end, where the byte that is probed does not exist
  (request.InRange mem ∧ request.size = 0 ∧ mem.providedSize ≤ request.dst ∧
    (target = .x86_64 ∧ mem.protection ≠ .boundsChecks ∨ mem.protection = .lazyPages)) ∨
  -- the linked memory exceeds the size by 2 GiB, so the difference looks negative
  (request.InRange mem ∧ target = .aarch64 ∧ request.size + 2 ^ 31 ≤ request.linkedMemLen) ∨
  -- the size exceeds the linked memory by more than 2 GiB, so the difference looks positive
  (target = .aarch64 ∧ request.linkedMemLen + 2 ^ 31 < request.size ∧
    request.src + request.size ≤ request.linkedMemLen + 2 ^ 32 ∧
    request.dst + request.size < 2 ^ 32 ∧
    (mem.protection = .eagerAllocation ∨ request.dst + request.size ≤ mem.providedSize)) ∨
  -- the destination leaves the memory and only the stores of the copy loop notice
  (request.src + request.size ≤ request.linkedMemLen ∧
    mem.formalSize < request.dst + request.size ∧ request.dst + request.size < 2 ^ 32 ∧
    (target = .x86_64 ∧ mem.protection ≠ .boundsChecks ∧ request.dst < mem.providedSize ∨
      target = .aarch64 ∧ mem.protection = .eagerAllocation ∧
        request.linkedMemLen < request.size + 2 ^ 31))

/-- The cached size of the memory, as a signed number. -/
theorem LinMemExtent.memSize_toInt (mem : LinMemExtent) :
    mem.memSize.toInt = mem.committedSize - 8 := by
  have hlt := mem.committed_lt
  change (BitVec.ofNat 64 mem.committedSize - BitVec.ofNat 64 8).toInt = _
  simp only [BitVec.toInt, BitVec.toNat_sub, BitVec.toNat_ofNat]
  omega

/-- The bounds check lets pass exactly what the host provides. -/
theorem emitLinMemBoundsCheck_iff (target : CompilerTarget) (mem : LinMemExtent)
    (addr : BitVec 32) :
    emitLinMemBoundsCheck target mem addr = true ↔ addr.toNat ≤ mem.providedSize := by
  have hlt := mem.committed_lt
  have hle := mem.committed_le
  have haddr := addr.isLt
  have hwide : (addr.setWidth 64).toNat = addr.toNat := by
    rw [BitVec.toNat_setWidth, Nat.mod_eq_of_lt (by omega)]
  have hint : (addr.setWidth 64).toInt = addr.toNat := by
    rw [BitVec.toInt_eq_toNat_cond, hwide, if_pos (by omega)]
  have hsize := mem.memSize_toInt
  have hfull : (mem.memSize + 8).toInt = mem.committedSize := by
    rw [LinMemExtent.memSize, BitVec.sub_add_cancel, BitVec.toInt_eq_toNat_cond,
      BitVec.toNat_ofNat, Nat.mod_eq_of_lt (by omega), if_pos (by omega)]
  have hcompare : ∀ a b, compareGE target a b = true ↔ b.toInt ≤ a.toInt := by
    intro a b
    cases target with
    | x86_64 => exact X86CC.holds_GE a b
    | aarch64 => exact Aarch64CC.holds_GE a b
  simp only [emitLinMemBoundsCheck, extensionRequest, Bool.or_eq_true, hcompare,
    decide_eq_true_eq, hwide, hint, hsize, hfull]
  omega

/-- Probing from a page boundary on reaches the end unless a page below it is missing. -/
theorem AArch64.tryNextPage_iff {mem : LinMemExtent} (haligned : pageSize ∣ mem.providedSize)
    {page dstEnd : ℕ} (hpage : pageSize ∣ page) :
    tryNextPage mem page dstEnd = true ↔ dstEnd ≤ page ∨ dstEnd ≤ mem.providedSize := by
  induction h : dstEnd - page using Nat.strong_induction_on generalizing page with
  | _ n ih =>
      subst h
      rw [tryNextPage]
      split
      · rename_i hend
        simp [hend]
      · rename_i hend
        by_cases hprobe : mem.providedSize ≤ page
        · simp only [LinMemExtent.probeFaults, hprobe, decide_true, if_true, Bool.false_eq_true,
            false_iff]
          omega
        · have hnext := ih (dstEnd - (page + pageSize)) (by rw [pageSize]; omega)
            (Nat.dvd_add hpage dvd_rfl) rfl
          simp only [LinMemExtent.probeFaults, hprobe, decide_false, Bool.false_eq_true, if_false,
            hnext]
          -- the next page starts below the provided size, or exactly at its end
          have hgap : page + pageSize ≤ mem.providedSize := by
            obtain ⟨k, hk⟩ := hpage
            obtain ⟨l, hl⟩ := haligned
            rw [hk, hl, pageSize] at hprobe ⊢
            omega
          omega

/-- Probing succeeds exactly when the destination exists, its first byte included. -/
theorem AArch64.probeDestination_iff {mem : LinMemExtent}
    (haligned : pageSize ∣ mem.providedSize) {dst size : ℕ} :
    probeDestination mem dst size = true ↔
      dst < mem.providedSize ∧ dst + size ≤ mem.providedSize := by
  have hpage : dst / pageSize * pageSize < mem.providedSize ↔ dst < mem.providedSize := by
    obtain ⟨l, hl⟩ := haligned
    rw [hl, pageSize]
    omega
  have hle := Nat.div_mul_le_self dst pageSize
  simp only [probeDestination, Bool.and_eq_true, Bool.not_eq_true', LinMemExtent.probeFaults,
    decide_eq_false_iff_not, Nat.not_le, hpage, tryNextPage_iff haligned (Nat.dvd_mul_left _ _)]
  omega

/-- On x86-64 the copy loop runs exactly behind the two checks. -/
theorem X86_64.execCopyFromLinkedMemory_eq (mem : LinMemExtent)
    (linkedMemLen dst src size : BitVec 32) :
    let request : CopyRequest := ⟨linkedMemLen.toNat, dst.toNat, src.toNat, size.toNat⟩
    (DestinationChecked .x86_64 mem request ∧ SourceAccepted .x86_64 request ∧
      execCopyFromLinkedMemory mem linkedMemLen dst src size =
        emitMemcpyNoBoundsCheck mem dst.toNat src.toNat size.toNat) ∨
    (¬ (DestinationChecked .x86_64 mem request ∧ SourceAccepted .x86_64 request) ∧
      execCopyFromLinkedMemory mem linkedMemLen dst src size = .trap) := by
  intro request
  have hlen := linkedMemLen.isLt
  simp only [execCopyFromLinkedMemory, X86CC.holds_B_add, X86CC.holds_B, X86CC.holds_BE,
    BitVec.add_sub_cancel, ← Bool.not_eq_true, emitLinMemBoundsCheck_iff,
    LinMemExtent.probeFaults, decide_eq_true_eq]
  by_cases hcarry : 2 ^ 32 ≤ dst.toNat + size.toNat
  · rw [if_pos hcarry]
    exact .inr ⟨fun h => by have := h.1.1; simp only [request] at this; omega, rfl⟩
  · have hend : (dst + size).toNat = dst.toNat + size.toNat := by
      rw [BitVec.toNat_add, Nat.mod_eq_of_lt (by omega)]
    rw [if_neg hcarry, hend]
    have hdest : DestinationChecked .x86_64 mem request ↔
        ¬ (mem.protection = .boundsChecks ∧ ¬ dst.toNat + size.toNat ≤ mem.providedSize) ∧
        ¬ (mem.protection ≠ .boundsChecks ∧ mem.providedSize ≤ dst.toNat) := by
      simp only [DestinationChecked, request]
      cases mem.protection <;> simp <;> omega
    have hsrc : SourceAccepted .x86_64 request ↔
        ¬ linkedMemLen.toNat < size.toNat ∧ src.toNat ≤ (linkedMemLen - size).toNat := by
      simp only [SourceAccepted, request, BitVec.toNat_sub]
      omega
    rw [hdest, hsrc]
    split_ifs with h1 h2 h3 h4
    · exact .inr ⟨fun h => h.1.1 h1, rfl⟩
    · exact .inr ⟨fun h => h.1.2 h2, rfl⟩
    · exact .inr ⟨fun h => h.2.1 h3, rfl⟩
    · exact .inl ⟨⟨h1, h2⟩, ⟨h3, h4⟩, rfl⟩
    · exact .inr ⟨fun h => h4 h.2.2, rfl⟩

/-- On AArch64 the copy loop runs exactly behind the two checks. -/
theorem AArch64.execCopyFromLinkedMemory_eq (mem : LinMemExtent)
    (linkedMemLen dst src size : BitVec 32) :
    let request : CopyRequest := ⟨linkedMemLen.toNat, dst.toNat, src.toNat, size.toNat⟩
    (DestinationChecked .aarch64 mem request ∧ SourceAccepted .aarch64 request ∧
      execCopyFromLinkedMemory mem linkedMemLen dst src size =
        emitMemcpyNoBoundsCheck mem dst.toNat src.toNat size) ∨
    (¬ (DestinationChecked .aarch64 mem request ∧ SourceAccepted .aarch64 request) ∧
      execCopyFromLinkedMemory mem linkedMemLen dst src size = .trap) := by
  intro request
  have hlen := linkedMemLen.isLt
  have hsize := size.isLt
  simp only [execCopyFromLinkedMemory, Aarch64CC.holds_CS, Aarch64CC.holds_MI,
    Aarch64CC.holds_LS, BitVec.add_sub_cancel, ← Bool.not_eq_true, emitLinMemBoundsCheck_iff]
  by_cases hcarry : 2 ^ 32 ≤ dst.toNat + size.toNat
  · rw [if_pos hcarry]
    exact .inr ⟨fun h => by have := h.1.1; simp only [request] at this; omega, rfl⟩
  · have hend : (dst + size).toNat = dst.toNat + size.toNat := by
      rw [BitVec.toNat_add, Nat.mod_eq_of_lt (by omega)]
    rw [if_neg hcarry, hend]
    have hdest : DestinationChecked .aarch64 mem request ↔
        ¬ (mem.protection = .boundsChecks ∧ ¬ dst.toNat + size.toNat ≤ mem.providedSize) ∧
        ¬ (mem.protection = .lazyPages ∧ ¬ probeDestination mem dst.toNat size.toNat = true) := by
      cases hprot : mem.protection with
      | boundsChecks => simp [DestinationChecked, request, hprot]; omega
      | eagerAllocation => simp [DestinationChecked, request, hprot]; omega
      | lazyPages =>
          rw [probeDestination_iff (mem.provided_aligned hprot)]
          simp [DestinationChecked, request, hprot]
          omega
    have hsrc : SourceAccepted .aarch64 request ↔
        ¬ (linkedMemLen - size).msb = true ∧ src.toNat ≤ (linkedMemLen - size).toNat := by
      simp only [SourceAccepted, request, BitVec.msb_eq_decide, BitVec.toNat_sub,
        decide_eq_true_eq]
      omega
    rw [hdest, hsrc]
    split_ifs with h1 h2 h3 h4
    · exact .inr ⟨fun h => h.1.1 h1, rfl⟩
    · exact .inr ⟨fun h => h.2.1 h2, rfl⟩
    · exact .inr ⟨fun h => h.1.2 h4, rfl⟩
    · exact .inl ⟨⟨h1, h4⟩, ⟨h2, h3⟩, rfl⟩
    · exact .inr ⟨fun h => h3 h.2.2, rfl⟩

/-- Of either backend, the copy runs over the whole range behind the two checks and traps
otherwise. -/
theorem execCopyFromLinkedMemory_cases (target : CompilerTarget) (mem : LinMemExtent)
    (linkedMemLen dst src size : BitVec 32) :
    let request : CopyRequest := ⟨linkedMemLen.toNat, dst.toNat, src.toNat, size.toNat⟩
    let run := execCopyFromLinkedMemory target mem linkedMemLen dst src size
    (DestinationChecked target mem request ∧ SourceAccepted target request ∧
      CopiesRange mem dst.toNat src.toNat size.toNat run) ∨
    (¬ (DestinationChecked target mem request ∧ SourceAccepted target request) ∧
      run = .trap) := by
  intro request run
  cases target with
  | x86_64 =>
      rcases X86_64.execCopyFromLinkedMemory_eq mem linkedMemLen dst src size with
        ⟨hdest, hsrc, heq⟩ | hrefused
      · refine .inl ⟨hdest, hsrc, ?_⟩
        simp only [run, execCopyFromLinkedMemory, heq]
        exact CopiesRange.emitMemcpyNoBoundsCheck_x86_64 mem _ _ _
      · exact .inr hrefused
  | aarch64 =>
      rcases AArch64.execCopyFromLinkedMemory_eq mem linkedMemLen dst src size with
        ⟨hdest, hsrc, heq⟩ | hrefused
      · refine .inl ⟨hdest, hsrc, ?_⟩
        simp only [run, execCopyFromLinkedMemory, heq]
        exact CopiesRange.emitMemcpyNoBoundsCheck_aarch64 mem _ _ _
      · exact .inr hrefused

/-- The copy is isolated iff the requests it carries out without a fault are those in range. -/
theorem copyIsolated_iff_checks (target : CompilerTarget) (mem : LinMemExtent)
    (linkedMemLen dst src size : BitVec 32) :
    let request : CopyRequest := ⟨linkedMemLen.toNat, dst.toNat, src.toNat, size.toNat⟩
    CopyIsolated mem request (execCopyFromLinkedMemory target mem linkedMemLen dst src size) ↔
      (request.InRange mem → DestinationChecked target mem request ∧
        SourceAccepted target request ∧ ¬ mem.StoreFaults dst.toNat size.toNat) ∧
      (¬ request.InRange mem →
        ¬ (DestinationChecked target mem request ∧ SourceAccepted target request)) := by
  intro request
  rcases execCopyFromLinkedMemory_cases target mem linkedMemLen dst src size with
    ⟨hdest, hsrc, hcopy⟩ | ⟨hrefused, hrun⟩
  · constructor
    · intro h
      refine ⟨fun hin => ⟨hdest, hsrc, fun hfault => ?_⟩, fun hout => ?_⟩
      · exact Bool.noConfusion ((hcopy.trapped_iff.mpr hfault).symm.trans (h.granted hin).1)
      · obtain ⟨htrapped, hnone⟩ := h.refused hout
        -- a page fault needs a byte to store, and that byte has been read
        have hfault := hcopy.trapped_iff.mp htrapped
        exact absurd hnone (hcopy.accesses_ne hfault.2.1)
    · rintro ⟨hgrant, hrefuse⟩
      refine ⟨fun hin => ?_, fun hout => absurd ⟨hdest, hsrc⟩ (hrefuse hout)⟩
      have htrapped : (execCopyFromLinkedMemory target mem linkedMemLen dst src size).trapped =
          false := by
        rw [← Bool.not_eq_true, hcopy.trapped_iff]
        exact (hgrant hin).2.2
      exact ⟨htrapped, hcopy.reads htrapped, hcopy.writes htrapped⟩
  · rw [hrun]
    constructor
    · intro h
      exact ⟨fun hin => Bool.noConfusion (h.granted hin).1, fun _ => hrefused⟩
    · rintro ⟨hgrant, -⟩
      exact ⟨fun hin => absurd ⟨(hgrant hin).1, (hgrant hin).2.1⟩ hrefused,
        fun _ => ⟨rfl, rfl⟩⟩

/-- The copy is isolated unless one of the hazards applies. -/
theorem execCopyFromLinkedMemory_isolated_iff (target : CompilerTarget) (mem : LinMemExtent)
    (linkedMemLen dst src size : BitVec 32) :
    let request : CopyRequest := ⟨linkedMemLen.toNat, dst.toNat, src.toNat, size.toNat⟩
    CopyIsolated mem request (execCopyFromLinkedMemory target mem linkedMemLen dst src size) ↔
      ¬ CopyHazard target mem request := by
  intro request
  refine (copyIsolated_iff_checks target mem linkedMemLen dst src size).trans ?_
  have hlen := linkedMemLen.isLt
  have hformal := mem.formal_le
  have hprovided := mem.provided_le
  have heager := mem.provided_of_eager
  simp only [CopyHazard, CopyRequest.InRange, SourceAccepted, DestinationChecked,
    LinMemExtent.StoreFaults, request]
  generalize mem.protection = protection at heager ⊢
  cases target <;> cases protection <;>
    simp only [ne_eq, reduceCtorEq, not_true_eq_false, not_false_eq_true, false_and, true_and,
      and_false, or_false, false_or, and_true, true_or, forall_const, IsEmpty.forall_iff] at heager ⊢ <;>
    omega

/-- Linked-memory isolation of both backends and all builtins, up to the hazards. -/
theorem linkedMemory_isolated_iff (target : CompilerTarget) (linkedMemLen : BitVec 32) :
    (∀ builtin offset,
      LoadIsolated linkedMemLen.toNat offset.value.toNat builtin.dataSize
          (execGetFromLinkedMemory target linkedMemLen builtin offset) ↔
        ¬ LoadHazard target linkedMemLen.toNat builtin offset) ∧
    (∀ mem dst src size,
      CopyIsolated mem ⟨linkedMemLen.toNat, dst.toNat, src.toNat, size.toNat⟩
          (execCopyFromLinkedMemory target mem linkedMemLen dst src size) ↔
        ¬ CopyHazard target mem ⟨linkedMemLen.toNat, dst.toNat, src.toNat, size.toNat⟩) :=
  ⟨execGetFromLinkedMemory_isolated_iff target linkedMemLen, fun mem dst src size =>
    execCopyFromLinkedMemory_isolated_iff target mem linkedMemLen dst src size⟩

/-- A linked memory of 4 GiB less a page, of which AArch64 refuses the first byte. -/
theorem largeLinkedMemory_refused :
    (AArch64.execGetFromLinkedMemory 0xFFFFF000 .GETU8 (.runtime 0)).trapped = true ∧
    ¬ LoadIsolated (0xFFFFF000 : BitVec 32).toNat (0 : BitVec 32).toNat
        LinkedMemoryLoad.GETU8.dataSize
        (execGetFromLinkedMemory .aarch64 0xFFFFF000 .GETU8 (.runtime 0)) := by
  refine ⟨by decide, fun h => ?_⟩
  exact absurd (h.granted (by decide)).1 (by decide)

end WasmCompiler
