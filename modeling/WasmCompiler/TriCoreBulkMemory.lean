import WasmCompiler.TriCoreMemoryFill

/-!
# Bulk Memory Instructions on TriCore

`executeLinearMemoryFill` and `executeLinearMemoryCopy` move the addresses to address registers,
check the end of the ranges, with a request for an extension of the memory if it is beyond the
part that is there, and fill or copy.

## Main results

* `runBulk_checkRange`: the check traps exactly for an end beyond the memory, and keeps the
  memory otherwise.
* `fillExact_fillRangeCode`, `copyExact_copyRangeCode`: filling and copying a range is exact, and
  every loop ends within as many iterations as there are bytes, unless no bytes are filled at an
  odd address.
* `runBulk_fillRangeCode_of_odd`: filling no bytes at an odd address does not end.
-/

namespace WasmCompiler

namespace TriCore

open ByteMemory Machine

/-! ### The linear memory -/

/-- The linear memory in the memory of the machine: the part that is there is not larger than the
memory, which is aligned and does not reach the end of the address space. -/
structure HasMemory (memorySize : ℕ) (m : Machine) : Prop where
  noWrap : (m.regs linMem).toNat + memorySize < 2 ^ 32
  even : isOdd (m.regs linMem) = false
  actual_le : (m.regs memSize).toNat ≤ memorySize

/-- The linear memory has the same bytes, perhaps elsewhere. -/
def SameMemory (memorySize : ℕ) (m m' : Machine) : Prop :=
  ∀ i < memorySize, m'.mem (m'.regs linMem + BitVec.ofNat 32 i) =
    m.mem (m.regs linMem + BitVec.ofNat 32 i)

/-- The helper function `extensionRequest`, with a host that provides the whole memory: it traps
if the end of an access is beyond the memory, and otherwise keeps the memory and the registers,
besides those for the memory. -/
structure ExtensionRequest (memorySize : ℕ) where
  run : Machine → Option Machine
  run_eq_none_iff : ∀ {m}, HasMemory memorySize m →
    (run m = none ↔ memorySize < (m.regs memLdStReg).toNat)
  hasMemory : ∀ {m m'}, HasMemory memorySize m → run m = some m' → HasMemory memorySize m'
  sameMemory : ∀ {m m'}, HasMemory memorySize m → run m = some m' → SameMemory memorySize m m'
  kept : ∀ {m m'}, HasMemory memorySize m → run m = some m' → ∀ r, r ≠ linMem → r ≠ memSize →
    m'.regs r = m.regs r

/-- The linear memory is where it was, or an extension was requested; nothing else was written. -/
structure ExtensionRequest.Extends {memorySize : ℕ} (request : ExtensionRequest memorySize)
    (m m' : Machine) : Prop where
  sameMemory : SameMemory memorySize m m'
  mem : m'.mem = m.mem ∨ ∃ m0 : Machine, m0.mem = m.mem ∧ request.run m0 = some m'

/-- Same memory is kept step by step. -/
theorem SameMemory.trans {memorySize : ℕ} {m m' m'' : Machine} (h : SameMemory memorySize m m')
    (h' : SameMemory memorySize m' m'') : SameMemory memorySize m m'' :=
  fun i hi => (h' i hi).trans (h i hi)

/-- The memory does not depend on other registers. -/
theorem SameMemory.of_eq {memorySize : ℕ} {m m' : Machine} (hmem : m'.mem = m.mem)
    (hlinMem : m'.regs linMem = m.regs linMem) : SameMemory memorySize m m' := fun i _ => by
  rw [hmem, hlinMem]

/-- Registers that are not for the memory were written before. -/
theorem ExtensionRequest.Extends.of_eq {memorySize : ℕ} {request : ExtensionRequest memorySize}
    {m m' m'' : Machine} (h : request.Extends m' m'') (hmem : m'.mem = m.mem)
    (hlinMem : m'.regs linMem = m.regs linMem) : request.Extends m m'' := by
  refine ⟨(SameMemory.of_eq hmem hlinMem).trans h.sameMemory, ?_⟩
  rw [← hmem]
  exact h.mem

/-- The memory does not depend on other registers. -/
theorem HasMemory.of_eq {memorySize : ℕ} {m m' : Machine} (h : HasMemory memorySize m)
    (hlinMem : m'.regs linMem = m.regs linMem) (hmemSize : m'.regs memSize = m.regs memSize) :
    HasMemory memorySize m' := by
  refine ⟨?_, ?_, ?_⟩
  · rw [hlinMem]
    exact h.noWrap
  · rw [hlinMem]
    exact h.even
  · rw [hmemSize]
    exact h.actual_le

/-! ### The check -/

/-- `emitLinMemBoundsCheck`. -/
def emitLinMemBoundsCheck (tempDReg : REG) : List BulkInstr :=
  [.op (.GEA_Dc_Aa_Ab tempDReg memSize memLdStReg), .jump (.JNZ_Db_disp4zx2 tempDReg) 1,
    .fcallExtensionRequest]

/-- `prepareLinMemAddr` with a register that has the address, and `emitLinMemBoundsCheck` behind
it. -/
def checkRange (tempDReg addressDReg : REG) (offset : BitVec 32) : List BulkInstr :=
  let add := (addImmToReg memLdStReg offset memLdStReg).map fun i => BulkInstr.op (.plain i)
  .jump (.JLTZ_Db_disp4zx2 addressDReg) (add.length + 2) ::
    (add ++ emitLinMemBoundsCheck tempDReg)

section Check

variable {memorySize : ℕ} (limit : ℕ) {m : Machine}

/-- Execution checked a range. -/
structure Checked {memorySize : ℕ} (request : ExtensionRequest memorySize) (tempDReg : REG)
    (m m' : Machine) : Prop where
  hasMemory : HasMemory memorySize m'
  extend : request.Extends m m'
  kept : ∀ r, r ≠ tempDReg → r ≠ linMem → r ≠ memSize → m'.regs r = m.regs r

/-- The request for an extension. -/
theorem runBulk_request (request : ExtensionRequest memorySize) (h : HasMemory memorySize m) :
    (memorySize < (m.regs memLdStReg).toNat ∧ ∀ code,
      runBulk request.run limit (.fcallExtensionRequest :: code) m =
        .error (.trap .linMemOutOfBoundsAccess)) ∨
    ((m.regs memLdStReg).toNat ≤ memorySize ∧ ∃ m', request.run m = some m' ∧ ∀ code,
      runBulk request.run limit (.fcallExtensionRequest :: code) m =
        runBulk request.run limit code m') := by
  cases hrun : request.run m with
  | none =>
      refine .inl ⟨(request.run_eq_none_iff h).mp hrun, fun code => ?_⟩
      have hexec : BulkInstr.exec request.run limit .fcallExtensionRequest m =
          (.trap (.trap .linMemOutOfBoundsAccess), m) := by
        rw [BulkInstr.exec, hrun]
      exact ForwardCode.run_cons_of_trap (by rw [hexec]) code
  | some m' =>
      have hle : ¬ memorySize < (m.regs memLdStReg).toNat := fun hlt => by
        rw [(request.run_eq_none_iff h).mpr hlt] at hrun
        cases hrun
      refine .inr ⟨Nat.le_of_not_lt hle, m', rfl, fun code => ?_⟩
      have hexec : BulkInstr.exec request.run limit .fcallExtensionRequest m = (.next, m') := by
        rw [BulkInstr.exec, hrun]
      rw [runBulk, ForwardCode.run_cons_of_next (by rw [hexec]), hexec]
      rfl

/-- **The check of a range** traps exactly if the end is beyond the memory. -/
theorem runBulk_checkRange (request : ExtensionRequest memorySize) (h : HasMemory memorySize m)
    {tempDReg : REG} (htemp : tempDReg.isDATA = true) (addressDReg : REG) :
    (memorySize < (m.regs memLdStReg).toNat ∧ ∀ code,
      runBulk request.run limit (checkRange tempDReg addressDReg 0 ++ code) m =
        .error (.trap .linMemOutOfBoundsAccess)) ∨
    ((m.regs memLdStReg).toNat ≤ memorySize ∧ ∃ m', Checked request tempDReg m m' ∧ ∀ code,
      runBulk request.run limit (checkRange tempDReg addressDReg 0 ++ code) m =
        runBulk request.run limit code m') := by
  have hne : ∀ r : REG, r.isDATA = false → r ≠ tempDReg := fun r hr => ne_of_isDATA hr htemp
  -- the request, behind the jump to it or behind the comparison
  have hrequest : ∀ m1, m1.mem = m.mem → (∀ r, r ≠ tempDReg → m1.regs r = m.regs r) →
      (∀ code, runBulk request.run limit (checkRange tempDReg addressDReg 0 ++ code) m =
        runBulk request.run limit (.fcallExtensionRequest :: code) m1) →
      (memorySize < (m.regs memLdStReg).toNat ∧ ∀ code,
        runBulk request.run limit (checkRange tempDReg addressDReg 0 ++ code) m =
          .error (.trap .linMemOutOfBoundsAccess)) ∨
      ((m.regs memLdStReg).toNat ≤ memorySize ∧ ∃ m', Checked request tempDReg m m' ∧ ∀ code,
        runBulk request.run limit (checkRange tempDReg addressDReg 0 ++ code) m =
          runBulk request.run limit code m') := by
    intro m1 hmem hkept hcode
    have hlinMem := hkept linMem (hne _ rfl)
    have h1 := h.of_eq hlinMem (hkept memSize (hne _ rfl))
    rcases runBulk_request limit request h1 with ⟨hlt, htrap⟩ | ⟨hle, m', hrun, hpass⟩
    · rw [hkept memLdStReg (hne _ rfl)] at hlt
      exact .inl ⟨hlt, fun code => (hcode code).trans (htrap code)⟩
    · rw [hkept memLdStReg (hne _ rfl)] at hle
      refine .inr ⟨hle, m', ⟨request.hasMemory h1 hrun,
        ⟨(SameMemory.of_eq hmem hlinMem).trans (request.sameMemory h1 hrun),
          .inr ⟨m1, hmem, hrun⟩⟩, fun r hr hr' hr'' =>
          (request.kept h1 hrun r hr' hr'').trans (hkept r hr)⟩,
        fun code => (hcode code).trans (hpass code)⟩
  cases hsign : (m.regs addressDReg).getLsbD 31 with
  | true =>
      have hjump : (CondJump.JLTZ_Db_disp4zx2 addressDReg).taken m = true := hsign
      refine hrequest m rfl (fun _ _ => rfl) fun code => ?_
      exact runBulk_jump hjump [.op (.GEA_Dc_Aa_Ab tempDReg memSize memLdStReg),
        .jump (.JNZ_Db_disp4zx2 tempDReg) 1] (.fcallExtensionRequest :: code)
  | false =>
      have hjump : (CondJump.JLTZ_Db_disp4zx2 addressDReg).taken m = false := hsign
      let m1 := (BulkOp.GEA_Dc_Aa_Ab tempDReg memSize memLdStReg).exec m
      have hkept1 : ∀ r, r ≠ tempDReg → m1.regs r = m.regs r := fun r hr =>
        Function.update_of_ne hr _ _
      have htemp1 : m1.regs tempDReg = if m.regs memLdStReg ≤ m.regs memSize then 1 else 0 :=
        Function.update_self _ _ _
      have hfirst : ∀ code, runBulk request.run limit
          (checkRange tempDReg addressDReg 0 ++ code) m =
          runBulk request.run limit (.jump (.JNZ_Db_disp4zx2 tempDReg) 1 ::
            ([.fcallExtensionRequest] ++ code)) m1 := fun code =>
        (runBulk_jump_of_not hjump 2 _).trans (runBulk_op rfl _)
      by_cases hle : m.regs memLdStReg ≤ m.regs memSize
      · have htaken : (CondJump.JNZ_Db_disp4zx2 tempDReg).taken m1 = true := by
          rw [CondJump.taken, htemp1, if_pos hle]
          rfl
        rw [BitVec.le_def] at hle
        have hlinMem := hkept1 linMem (hne _ rfl)
        refine .inr ⟨hle.trans h.actual_le, m1,
          ⟨h.of_eq hlinMem (hkept1 memSize (hne _ rfl)), ⟨.of_eq rfl hlinMem, .inl rfl⟩,
            fun r hr _ _ => hkept1 r hr⟩, fun code => ?_⟩
        rw [hfirst]
        exact runBulk_jump htaken [.fcallExtensionRequest] code
      · have htaken : (CondJump.JNZ_Db_disp4zx2 tempDReg).taken m1 = false := by
          rw [CondJump.taken, htemp1, if_neg hle]
          rfl
        refine hrequest m1 rfl hkept1 fun code => ?_
        rw [hfirst, runBulk_jump_of_not htaken]
        rfl

end Check

/-- The check of the end of a range, from the address of the range in a register on. -/
def checkEnd (scratch size : REG) : List BulkInstr :=
  [.op (.plain (.ADD_Da_Db scratch size)), .cTRAP .linMemOutOfBoundsAccess scratch size,
    .op (.MOVA_Aa_Db memLdStReg scratch)] ++ checkRange scratch scratch 0

/-- Execution checked the end of a range. -/
structure CheckedEnd {memorySize : ℕ} (request : ExtensionRequest memorySize) (scratch : REG)
    (m m' : Machine) : Prop where
  hasMemory : HasMemory memorySize m'
  extend : request.Extends m m'
  kept : ∀ r, r ≠ scratch → r ≠ memLdStReg → r ≠ linMem → r ≠ memSize → m'.regs r = m.regs r

/-- **The check of the end of a range** traps exactly if the end is beyond the memory. -/
theorem runBulk_checkEnd {memorySize : ℕ} (limit : ℕ) {m : Machine}
    (request : ExtensionRequest memorySize) (h : HasMemory memorySize m) {scratch size : REG}
    (hscratch : scratch.isDATA = true) (hne : size ≠ scratch) :
    (memorySize < (m.regs scratch).toNat + (m.regs size).toNat ∧ ∀ code,
      runBulk request.run limit (checkEnd scratch size ++ code) m =
        .error (.trap .linMemOutOfBoundsAccess)) ∨
    ((m.regs scratch).toNat + (m.regs size).toNat ≤ memorySize ∧
      ∃ m', CheckedEnd request scratch m m' ∧ ∀ code,
        runBulk request.run limit (checkEnd scratch size ++ code) m =
          runBulk request.run limit code m') := by
  have hsize32 := (m.regs size).isLt
  have hscratch32 := (m.regs scratch).isLt
  have hlt32 : memorySize < 2 ^ 32 := (Nat.le_add_left _ _).trans_lt h.noWrap
  let m1 := m.add scratch (m.regs scratch) (m.regs size)
  have hscratch1 : m1.regs scratch = m.regs scratch + m.regs size := Function.update_self _ _ _
  have hkept1 : ∀ r, r ≠ scratch → m1.regs r = m.regs r := fun r hr =>
    Function.update_of_ne hr _ _
  have hfirst : ∀ code, runBulk request.run limit (checkEnd scratch size ++ code) m =
      runBulk request.run limit (.cTRAP .linMemOutOfBoundsAccess scratch size ::
        .op (.MOVA_Aa_Db memLdStReg scratch) :: (checkRange scratch scratch 0 ++ code)) m1 :=
    fun code => runBulk_op rfl _
  have hsum : (m1.regs scratch).toNat =
      ((m.regs scratch).toNat + (m.regs size).toNat) % 2 ^ 32 := by
    rw [hscratch1, BitVec.toNat_add]
  have hwraps : m1.regs scratch < m1.regs size ↔
      2 ^ 32 ≤ (m.regs scratch).toNat + (m.regs size).toNat := by
    rw [BitVec.lt_def, hsum, hkept1 size hne]
    omega
  by_cases hwrap : m1.regs scratch < m1.regs size
  · have hle := hwraps.mp hwrap
    exact .inl ⟨by omega, fun code => (hfirst code).trans (runBulk_cTRAP hwrap _ _)⟩
  · have hlt : (m.regs scratch).toNat + (m.regs size).toNat < 2 ^ 32 :=
      Nat.lt_of_not_le fun hle => hwrap (hwraps.mpr hle)
    rw [Nat.mod_eq_of_lt hlt] at hsum
    let m2 := m1.setReg memLdStReg (m1.regs scratch)
    have hmemLdSt2 : m2.regs memLdStReg = m1.regs scratch := by
      rw [setReg_regs, Function.update_self]
    have hkept2 : ∀ r, r ≠ scratch → r ≠ memLdStReg → m2.regs r = m.regs r := fun r hr hr' =>
      (Function.update_of_ne hr' _ _).trans (hkept1 r hr)
    have hlinMem2 := hkept2 linMem (ne_of_isDATA rfl hscratch) (by decide)
    have hmem2 : HasMemory memorySize m2 :=
      h.of_eq hlinMem2 (hkept2 memSize (ne_of_isDATA rfl hscratch) (by decide))
    have hsecond : ∀ code, runBulk request.run limit (checkEnd scratch size ++ code) m =
        runBulk request.run limit (checkRange scratch scratch 0 ++ code) m2 := fun code =>
      (hfirst code).trans ((runBulk_cTRAP_of_not hwrap _ _).trans (runBulk_op rfl _))
    rcases runBulk_checkRange limit request hmem2 hscratch scratch with
      ⟨hbeyond, htrap⟩ | ⟨hle, m', hchecked, hpass⟩
    · rw [hmemLdSt2, hsum] at hbeyond
      exact .inl ⟨hbeyond, fun code => (hsecond code).trans (htrap code)⟩
    · rw [hmemLdSt2, hsum] at hle
      refine .inr ⟨hle, m', ⟨hchecked.hasMemory, hchecked.extend.of_eq rfl hlinMem2,
          fun r hr hr' hr'' hr''' => (hchecked.kept r hr hr'' hr''').trans (hkept2 r hr hr')⟩,
        fun code => (hsecond code).trans (hpass code)⟩

/-! ### Filling -/

/-- `executeLinearMemoryFill` behind the moves of its operands to registers. -/
def fillRangeCode (regs : FillRegs) : List BulkInstr :=
  .op (.MOVD_Da_Ab regs.scratch regs.dst) ::
    (checkEnd regs.scratch regs.size ++
      (.op (.ADDA_Aa_Ab regs.dst linMem) :: fillCode regs))

/-- What filling should do: trap if the range is beyond the memory, and otherwise fill exactly the
range, in as many iterations of a loop as there are bytes at most. -/
def FillExact {memorySize : ℕ} (request : ExtensionRequest memorySize) (dst size : BitVec 32)
    (b : BitVec 8) (m : Machine) (result : Except BulkEnd Machine) : Prop :=
  match result with
  | .error e => e = .trap .linMemOutOfBoundsAccess ∧ memorySize < dst.toNat + size.toNat
  | .ok m' => dst.toNat + size.toNat ≤ memorySize ∧ ∃ m1, request.Extends m m1 ∧
      m'.mem = fillRange m1.mem (m1.regs linMem + dst) size.toNat b ∧
      m'.regs linMem = m1.regs linMem

/-- The pointer is not one of the registers for the memory. -/
def NotReserved (r : REG) : Prop := r ≠ linMem ∧ r ≠ memSize ∧ r ≠ memLdStReg

section Fill

variable {memorySize : ℕ} {m : Machine} {regs : FillRegs}

/-- An address in the linear memory. -/
theorem toNat_linMem_add (h : HasMemory memorySize m) {a : BitVec 32}
    (ha : a.toNat ≤ memorySize) :
    (m.regs linMem + a).toNat = (m.regs linMem).toNat + a.toNat := by
  have hlt := h.noWrap
  rw [BitVec.toNat_add, Nat.mod_eq_of_lt (by omega)]

/-- An address in the linear memory is odd if its offset is. -/
theorem isOdd_linMem_add (h : HasMemory memorySize m) (a : BitVec 32) :
    isOdd (m.regs linMem + a) = isOdd a := by
  have heven := h.even
  rw [isOdd_eq, decide_eq_false_iff_not] at heven
  rw [isOdd_eq, isOdd_eq, BitVec.toNat_add]
  congr 1
  exact propext (by omega)

/-- The check and the address for filling. -/
structure FillStart {memorySize : ℕ} (request : ExtensionRequest memorySize) (regs : FillRegs)
    (m m2 m3 : Machine) : Prop where
  extend : request.Extends m m2
  hasMemory : HasMemory memorySize m2
  mem : m3.mem = m2.mem
  linMem : m3.regs linMem = m2.regs linMem
  dst : m3.regs regs.dst = m2.regs TriCore.linMem + m.regs regs.dst
  size : m3.regs regs.size = m.regs regs.size
  value : m3.regs regs.value = m.regs regs.value

/-- Execution of the code up to the fill itself. -/
theorem runBulk_fillRangeCode (limit : ℕ) (request : ExtensionRequest memorySize)
    (h : HasMemory memorySize m) (hregs : regs.Valid) (hdst : NotReserved regs.dst) :
    (memorySize < (m.regs regs.dst).toNat + (m.regs regs.size).toNat ∧
      runBulk request.run limit (fillRangeCode regs) m =
        .error (.trap .linMemOutOfBoundsAccess)) ∨
    ((m.regs regs.dst).toNat + (m.regs regs.size).toNat ≤ memorySize ∧
      ∃ m2 m3, FillStart request regs m m2 m3 ∧
        runBulk request.run limit (fillRangeCode regs) m =
          runBulk request.run limit (fillCode regs) m3) := by
  have hdstScratch : regs.dst ≠ regs.scratch := ne_of_isDATA hregs.dst_address hregs.scratch_data
  let m1 := m.setReg regs.scratch (m.regs regs.dst)
  have hkept1 : ∀ r, r ≠ regs.scratch → m1.regs r = m.regs r := fun r hr =>
    Function.update_of_ne hr _ _
  have hscratch1 : m1.regs regs.scratch = m.regs regs.dst := Function.update_self _ _ _
  have hsize1 : m1.regs regs.size = m.regs regs.size := hkept1 _ hregs.size_ne_scratch
  have hlinMem1 : m1.regs linMem = m.regs linMem :=
    hkept1 linMem (ne_of_isDATA rfl hregs.scratch_data)
  have hmem1 : HasMemory memorySize m1 :=
    h.of_eq hlinMem1 (hkept1 memSize (ne_of_isDATA rfl hregs.scratch_data))
  have hfirst : runBulk request.run limit (fillRangeCode regs) m =
      runBulk request.run limit (checkEnd regs.scratch regs.size ++
        (.op (.ADDA_Aa_Ab regs.dst linMem) :: fillCode regs)) m1 := runBulk_op rfl _
  have hcheck := runBulk_checkEnd limit request hmem1 hregs.scratch_data hregs.size_ne_scratch
  rw [hscratch1, hsize1] at hcheck
  rw [hfirst]
  rcases hcheck with ⟨hbeyond, htrap⟩ | ⟨hle, m2, hchecked, hpass⟩
  · exact .inl ⟨hbeyond, htrap _⟩
  · have hkept2 : ∀ r, r ≠ regs.scratch → NotReserved r → m2.regs r = m.regs r :=
      fun r hr hr' => (hchecked.kept r hr hr'.2.2 hr'.1 hr'.2.1).trans (hkept1 r hr)
    have hdata : ∀ r : REG, r.isDATA = true → NotReserved r := fun r hr =>
      ⟨(ne_of_isDATA rfl hr).symm, (ne_of_isDATA rfl hr).symm, (ne_of_isDATA rfl hr).symm⟩
    let m3 := m2.setReg regs.dst (m2.regs linMem + m.regs regs.dst)
    have hexec : (BulkOp.ADDA_Aa_Ab regs.dst linMem).exec m2 = m3 := by
      rw [BulkOp.exec, hkept2 _ hdstScratch hdst, BitVec.add_comm]
    have hkept3 : ∀ r, r ≠ regs.dst → m3.regs r = m2.regs r := fun r hr =>
      Function.update_of_ne hr _ _
    refine .inr ⟨hle, m2, m3, ⟨hchecked.extend.of_eq rfl hlinMem1, hchecked.hasMemory, rfl,
      hkept3 _ hdst.1.symm, Function.update_self _ _ _, ?_, ?_⟩, ?_⟩
    · exact (hkept3 _ (ne_of_isDATA hregs.dst_address hregs.size_data).symm).trans
        (hkept2 _ hregs.size_ne_scratch (hdata _ hregs.size_data))
    · exact (hkept3 _ (ne_of_isDATA hregs.dst_address hregs.value_data).symm).trans
        (hkept2 _ hregs.value_ne_scratch (hdata _ hregs.value_data))
    · rw [hpass, ← hexec]
      exact runBulk_op rfl _

/-- **Filling a range** does what it should unless no bytes are filled at an odd address of the
memory. -/
theorem fillExact_fillRangeCode (request : ExtensionRequest memorySize)
    (h : HasMemory memorySize m) (hregs : regs.Valid) (hdst : NotReserved regs.dst)
    (hsafe : memorySize < (m.regs regs.dst).toNat ∨ m.regs regs.size ≠ 0 ∨
      isOdd (m.regs regs.dst) = false) :
    FillExact request (m.regs regs.dst) (m.regs regs.size) ((m.regs regs.value).setWidth 8) m
      (runBulk request.run (m.regs regs.size).toNat (fillRangeCode regs) m) := by
  rcases runBulk_fillRangeCode (m.regs regs.size).toNat request h hregs hdst with
    ⟨hbeyond, htrap⟩ | ⟨hle, m2, m3, hstart, hrest⟩
  · rw [htrap]
    exact ⟨rfl, hbeyond⟩
  · have hbase := toNat_linMem_add hstart.hasMemory (a := m.regs regs.dst) (by omega)
    have hodd := isOdd_linMem_add hstart.hasMemory (m.regs regs.dst)
    have hnoWrap := hstart.hasMemory.noWrap
    have hsafe3 : 0 < (m.regs regs.size).toNat ∨
        isOdd (m2.regs linMem + m.regs regs.dst) = false := by
      rcases hsafe with hbeyond | hne | heven
      · omega
      · refine .inl (Nat.pos_of_ne_zero fun hzero => hne (BitVec.eq_of_toNat_eq hzero))
      · exact .inr (hodd.trans heven)
    have hlinMemNot : ¬ regs.Written linMem := by
      rintro (heq | heq | heq | heq)
      · exact hdst.1 heq.symm
      · exact ne_of_isDATA rfl hregs.size_data heq
      · exact ne_of_isDATA rfl hregs.value_data heq
      · exact ne_of_isDATA rfl hregs.scratch_data heq
    have hofNat : m.regs regs.size = BitVec.ofNat 32 (m.regs regs.size).toNat := by
      rw [BitVec.ofNat_toNat, BitVec.setWidth_eq]
    obtain ⟨m', hrun, hfilled⟩ := runBulk_fillCode request.run hregs (by rw [hbase]; omega)
      (m.regs regs.size).isLt le_rfl hstart.dst (hstart.size.trans hofNat) hsafe3
    rw [hrest, hrun]
    refine ⟨hle, m2, hstart.extend, ?_, ?_⟩
    · rw [hfilled.mem, hstart.value, hstart.mem]
    · rw [hfilled.kept _ hlinMemNot, hstart.linMem]

/-- Filling no bytes at an odd address of the memory does not end within its limit. -/
theorem runBulk_fillRangeCode_of_odd (request : ExtensionRequest memorySize)
    (h : HasMemory memorySize m) (hregs : regs.Valid) (hdst : NotReserved regs.dst)
    (hle : (m.regs regs.dst).toNat ≤ memorySize) (hsize : m.regs regs.size = 0)
    (hodd : isOdd (m.regs regs.dst) = true) :
    runBulk request.run 0 (fillRangeCode regs) m = .error .unfinished := by
  rcases runBulk_fillRangeCode 0 request h hregs hdst with
    ⟨hbeyond, -⟩ | ⟨-, m2, m3, hstart, hrest⟩
  · rw [hsize] at hbeyond
    exact absurd hle hbeyond.not_ge
  · rw [hrest]
    refine runBulk_fillCode_of_zero request.run hregs ?_ (hstart.size.trans hsize)
    rw [hstart.dst, isOdd_linMem_add hstart.hasMemory]
    exact hodd

end Fill

/-! ### Copying -/

/-- The copy, with the size if it is a constant. -/
def emitMemcpy (regs : CopyRegs) : Option (BitVec 32) → List BulkInstr
  | some sizeValue => emitMemcpyWithConstSizeNoBoundsCheck regs sizeValue
  | none => emitMemcpyNoBoundsCheck regs

/-- `executeLinearMemoryCopy` behind the moves of its operands to registers, with the size if it is
a constant. -/
def copyRangeCode (regs : CopyRegs) (sizeValue : Option (BitVec 32)) : List BulkInstr :=
  [.op (.MOVD_Da_Ab regs.scratch regs.src), .op (.MOVD_Da_Ab regs.extScratch regs.dst),
    .op (.MAXU_Dc_Da_Db regs.scratch regs.scratch regs.extScratch)] ++
    (checkEnd regs.scratch regs.size ++
      (.op (.ADDA_Aa_Ab regs.src linMem) :: .op (.ADDA_Aa_Ab regs.dst linMem) ::
        emitMemcpy regs sizeValue))

/-- What copying should do: trap if one of the ranges is beyond the memory, and otherwise copy
exactly the range, in as many iterations of a loop as there are bytes at most. -/
def CopyExact {memorySize : ℕ} (request : ExtensionRequest memorySize)
    (dst src size : BitVec 32) (m : Machine) (result : Except BulkEnd Machine) : Prop :=
  match result with
  | .error e => e = .trap .linMemOutOfBoundsAccess ∧
      (memorySize < dst.toNat + size.toNat ∨ memorySize < src.toNat + size.toNat)
  | .ok m' => dst.toNat + size.toNat ≤ memorySize ∧ src.toNat + size.toNat ≤ memorySize ∧
      ∃ m1, request.Extends m m1 ∧
        m'.mem = copyRange m1.mem (m1.regs linMem + dst) (m1.regs linMem + src) 0 size.toNat ∧
        m'.regs linMem = m1.regs linMem

section Copy

variable {memorySize : ℕ} {m : Machine} {regs : CopyRegs}

/-- The larger one of the addresses is in a register. -/
theorem runOps_max (hregs : regs.Valid) (m : Machine) :
    ∃ m', runOps [.MOVD_Da_Ab regs.scratch regs.src, .MOVD_Da_Ab regs.extScratch regs.dst,
        .MAXU_Dc_Da_Db regs.scratch regs.scratch regs.extScratch] m = some m' ∧
      (m'.regs regs.scratch).toNat = max (m.regs regs.src).toNat (m.regs regs.dst).toNat ∧
      (∀ r, r ≠ regs.scratch → r ≠ regs.extScratch → m'.regs r = m.regs r) ∧
      m'.mem = m.mem := by
  have hdstScratch : regs.dst ≠ regs.scratch := ne_of_isDATA hregs.dst_address hregs.scratch_data
  have hscratchExt : regs.scratch ≠ regs.extScratch := (REG.getOtherExtReg_ne _).symm
  let m1 := m.setReg regs.scratch (m.regs regs.src)
  let m2 := m1.setReg regs.extScratch (m1.regs regs.dst)
  have hscratch2 : m2.regs regs.scratch = m.regs regs.src := by
    rw [setReg_regs, Function.update_of_ne hscratchExt, setReg_regs, Function.update_self]
  have hext2 : m2.regs regs.extScratch = m.regs regs.dst := by
    rw [setReg_regs, Function.update_self, setReg_regs, Function.update_of_ne hdstScratch]
  refine ⟨(BulkOp.MAXU_Dc_Da_Db regs.scratch regs.scratch regs.extScratch).exec m2, rfl, ?_,
    fun r hr hr' => ?_, rfl⟩
  · rw [BulkOp.exec, setReg_regs, Function.update_self, hscratch2, hext2]
    split
    · case _ hlt =>
        rw [BitVec.lt_def] at hlt
        exact (max_eq_right hlt.le).symm
    · case _ hle =>
        rw [BitVec.lt_def, not_lt] at hle
        exact (max_eq_left hle).symm
  · rw [BulkOp.exec, setReg_regs, Function.update_of_ne hr, setReg_regs,
      Function.update_of_ne hr', setReg_regs, Function.update_of_ne hr]

/-- **Copying a range** does what it should. -/
theorem copyExact_copyRangeCode (request : ExtensionRequest memorySize)
    (h : HasMemory memorySize m) (hregs : regs.Valid) (hdst : NotReserved regs.dst)
    (hsrc : NotReserved regs.src) {sizeValue : Option (BitVec 32)}
    (hconst : ∀ value, sizeValue = some value → m.regs regs.size = value) :
    CopyExact request (m.regs regs.dst) (m.regs regs.src) (m.regs regs.size) m
      (runBulk request.run (m.regs regs.size).toNat (copyRangeCode regs sizeValue) m) := by
  have hextData : regs.extScratch.isDATA = true := by
    rw [CopyRegs.extScratch, REG.isDATA_getOtherExtReg, hregs.scratch_data]
  have hdata : ∀ r : REG, r.isDATA = true → NotReserved r := fun r hr =>
    ⟨(ne_of_isDATA rfl hr).symm, (ne_of_isDATA rfl hr).symm, (ne_of_isDATA rfl hr).symm⟩
  generalize hn : m.regs regs.size = n at hconst ⊢
  generalize hd : m.regs regs.dst = d
  generalize hs : m.regs regs.src = s
  obtain ⟨m1, hrun1, hmax1, hkept1, hmem1⟩ := runOps_max hregs m
  have haddress : ∀ r : REG, r.isDATA = false → m1.regs r = m.regs r := fun r hr =>
    hkept1 r (ne_of_isDATA hr hregs.scratch_data) (ne_of_isDATA hr hextData)
  have hlinMem1 : m1.regs linMem = m.regs linMem := haddress linMem rfl
  have hhas1 : HasMemory memorySize m1 := h.of_eq hlinMem1 (haddress memSize rfl)
  have hsize1 : m1.regs regs.size = n := (hkept1 _ hregs.size_ne.1 hregs.size_ne.2).trans hn
  have hcheck := runBulk_checkEnd n.toNat request hhas1 hregs.scratch_data hregs.size_ne.1
  rw [hmax1, hsize1, hd, hs] at hcheck
  have hfirst : runBulk request.run n.toNat (copyRangeCode regs sizeValue) m =
      runBulk request.run n.toNat (checkEnd regs.scratch regs.size ++
        (.op (.ADDA_Aa_Ab regs.src linMem) :: .op (.ADDA_Aa_Ab regs.dst linMem) ::
          emitMemcpy regs sizeValue)) m1 := runBulk_ops hrun1 _
  rw [hfirst]
  rcases hcheck with ⟨hbeyond, htrap⟩ | ⟨hle, m2, hchecked, hpass⟩
  · rw [htrap]
    refine ⟨rfl, ?_⟩
    rcases le_total s.toNat d.toNat with hsd | hds
    · rw [max_eq_right hsd] at hbeyond
      exact .inl hbeyond
    · rw [max_eq_left hds] at hbeyond
      exact .inr hbeyond
  · have hsEnd : s.toNat + n.toNat ≤ memorySize :=
      (Nat.add_le_add_right (le_max_left _ _) _).trans hle
    have hdEnd : d.toNat + n.toNat ≤ memorySize :=
      (Nat.add_le_add_right (le_max_right _ _) _).trans hle
    have hkept2 : ∀ r, r ≠ regs.scratch → NotReserved r → m2.regs r = m1.regs r :=
      fun r hr hr' => hchecked.kept r hr hr'.2.2 hr'.1 hr'.2.1
    let base := m2.regs linMem
    have hdst2 : m2.regs regs.dst = d :=
      (hkept2 _ (ne_of_isDATA hregs.dst_address hregs.scratch_data) hdst).trans
        ((haddress _ hregs.dst_address).trans hd)
    have hsrc2 : m2.regs regs.src = s :=
      (hkept2 _ (ne_of_isDATA hregs.src_address hregs.scratch_data) hsrc).trans
        ((haddress _ hregs.src_address).trans hs)
    have hsize2 : m2.regs regs.size = n :=
      (hkept2 _ hregs.size_ne.1 (hdata _ hregs.size_data)).trans hsize1
    let m3 := (m2.setReg regs.src (base + s)).setReg regs.dst (base + d)
    have hrun3 : runOps [.ADDA_Aa_Ab regs.src linMem, .ADDA_Aa_Ab regs.dst linMem] m2 =
        some m3 := by
      change some _ = some m3
      rw [BulkOp.exec, BulkOp.exec, setReg_regs, Function.update_of_ne hregs.dst_ne_src, hdst2,
        Function.update_of_ne hsrc.1.symm, hsrc2, BitVec.add_comm s, BitVec.add_comm d]
    have hkept3 : ∀ r, r ≠ regs.src → r ≠ regs.dst → m3.regs r = m2.regs r := fun r hr hr' =>
      (Function.update_of_ne hr' _ _).trans (Function.update_of_ne hr _ _)
    have hdst3 : m3.regs regs.dst = base + d := Function.update_self _ _ _
    have hsrc3 : m3.regs regs.src = base + s := by
      rw [setReg_regs, Function.update_of_ne hregs.dst_ne_src.symm, setReg_regs,
        Function.update_self]
    have hsize3 : m3.regs regs.size = n :=
      (hkept3 _ (ne_of_isDATA hregs.src_address hregs.size_data).symm
        (ne_of_isDATA hregs.dst_address hregs.size_data).symm).trans hsize2
    have hnoWrap := hchecked.hasMemory.noWrap
    have hbaseD := toNat_linMem_add hchecked.hasMemory (a := d) (by omega)
    have hbaseS := toNat_linMem_add hchecked.hasMemory (a := s) (by omega)
    have hlinMemNot : ¬ regs.Written linMem := by
      rintro (heq | heq | heq | heq | heq)
      · exact hdst.1 heq.symm
      · exact hsrc.1 heq.symm
      · exact ne_of_isDATA rfl hregs.size_data heq
      · exact ne_of_isDATA rfl hregs.scratch_data heq
      · exact ne_of_isDATA rfl hextData heq
    have hcopied : ∃ m', runBulk request.run n.toNat (emitMemcpy regs sizeValue) m3 = .ok m' ∧
        Copied regs (base + d) (base + s) n.toNat m3 m' := by
      have hdstEnd : (base + d).toNat + n.toNat ≤ 2 ^ 32 := by rw [hbaseD]; omega
      have hsrcEnd : (base + s).toNat + n.toNat ≤ 2 ^ 32 := by rw [hbaseS]; omega
      cases sizeValue with
      | some value =>
          obtain rfl := hconst value rfl
          exact runBulk_emitMemcpyWithConstSizeNoBoundsCheck request.run hregs le_rfl hdstEnd
            hsrcEnd hdst3 hsrc3 hsize3
      | none =>
          have hofNat : n = BitVec.ofNat 32 n.toNat := by
            rw [BitVec.ofNat_toNat, BitVec.setWidth_eq]
          exact runBulk_emitMemcpyNoBoundsCheck request.run hregs n.isLt le_rfl hdstEnd hsrcEnd
            hdst3 hsrc3 (hsize3.trans hofNat)
    obtain ⟨m', hrun, hmem⟩ := hcopied
    have hresult : runBulk request.run n.toNat (checkEnd regs.scratch regs.size ++
        (.op (.ADDA_Aa_Ab regs.src linMem) :: .op (.ADDA_Aa_Ab regs.dst linMem) ::
          emitMemcpy regs sizeValue)) m1 = .ok m' :=
      (hpass _).trans ((runBulk_ops hrun3 _).trans hrun)
    rw [hresult]
    refine ⟨hdEnd, hsEnd, m2, ?_, hmem.mem, ?_⟩
    · exact hchecked.extend.of_eq hmem1 hlinMem1
    · rw [hmem.kept _ hlinMemNot, hkept3 _ hsrc.1.symm hdst.1.symm]

end Copy

end TriCore

end WasmCompiler
