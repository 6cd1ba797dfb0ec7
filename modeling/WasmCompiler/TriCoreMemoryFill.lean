import WasmCompiler.TriCoreMemcpy

/-!
# Filling Bytes on TriCore

`executeLinearMemoryFill` fills one byte if the pointer is odd, then words, then single bytes. The
byte for an odd pointer is filled before the number of bytes is compared with zero.

## Main results

* `runBulk_fillCode`: filling is exact, and no loop takes more iterations than there are bytes, if
  there is a byte or the pointer is even.
* `runBulk_fillCode_of_zero`: for no bytes and an odd pointer the loop over words does not end
  within that limit.
-/

namespace WasmCompiler

namespace TriCore

open ByteMemory Machine

/-! ### The code -/

/-- The registers for filling: the pointer, the number of bytes that are left, the byte, and a
register for the loop over words. -/
structure FillRegs where
  dst : REG
  size : REG
  value : REG
  scratch : REG
  deriving DecidableEq, Repr

/-- `andWordDcDaConst9zx`. -/
def andWordDcDaConst9zx (dc da : REG) (const9zx : BitVec 9) : BulkOp :=
  if dc = .D15 ∧ da = .D15 ∧ const9zx.toNat < 2 ^ 8 then
    .AND_D15_const8zx (const9zx.setWidth 8)
  else .AND_Dc_Da_const9zx dc da const9zx

/-- Fill a byte. -/
def fillByte (regs : FillRegs) : BulkOp := .STB_deref_Ab_Da_postinc regs.dst regs.value

/-- Fill a word. -/
def fillWord (regs : FillRegs) : BulkOp := .STW_deref_Ab_Da_postinc regs.dst regs.value

/-- Fill a byte if the pointer is odd. -/
def alignFill (regs : FillRegs) : List BulkInstr :=
  [.op (.MOVD_Da_Ab regs.scratch regs.dst), .jump (.JZT_Da_n_disp15sx2 regs.scratch 0) 2,
    .op (.plain (.ADDI_Dc_Da_const16sx regs.size regs.size (-1))), .op (fillByte regs)]

/-- The loop over words. -/
def wordsLoop (regs : FillRegs) : List BulkInstr :=
  [.op (.COPY_BYTE_TO_ALL_Dc_Da regs.value regs.value),
    .loop [fillWord regs] (.JNED_Da_const4sx_disp15sx2 regs.scratch 1),
    .op (andWordDcDaConst9zx regs.size regs.size 3)]

/-- Fill words. -/
def fillWords (regs : FillRegs) : List BulkInstr :=
  [.op (.SH_Dc_Da_const9sx regs.scratch regs.size (-2)),
    .jump (.JEQ_Da_const4sx_disp15sx2 regs.scratch 0) (wordsLoop regs).length] ++ wordsLoop regs

/-- Fill the bytes that are left. -/
def fillBytes (regs : FillRegs) : List BulkInstr :=
  [.jump (.JEQ_Da_const4sx_disp15sx2 regs.size 0) 1,
    .loop [fillByte regs] (.JNED_Da_const4sx_disp15sx2 regs.size 1)]

/-- The code behind the check of the range. -/
def fillCode (regs : FillRegs) : List BulkInstr :=
  alignFill regs ++ (fillWords regs ++ fillBytes regs)

/-! ### What was filled so far -/

/-- The registers are of the right kinds, and different ones. -/
structure FillRegs.Valid (regs : FillRegs) : Prop where
  dst_address : regs.dst.isDATA = false
  size_data : regs.size.isDATA = true
  value_data : regs.value.isDATA = true
  scratch_data : regs.scratch.isDATA = true
  size_ne_value : regs.size ≠ regs.value
  size_ne_scratch : regs.size ≠ regs.scratch
  value_ne_scratch : regs.value ≠ regs.scratch

/-- The registers that filling writes. -/
def FillRegs.Written (regs : FillRegs) (r : REG) : Prop :=
  r = regs.dst ∨ r = regs.size ∨ r = regs.value ∨ r = regs.scratch

/-- The pointer and the memory when some bytes are left. -/
structure FillState (regs : FillRegs) (start : Machine) (dst : BitVec 32) (b : BitVec 8)
    (n left : ℕ) (m : Machine) : Prop where
  le : left ≤ n
  dstReg : m.regs regs.dst = dst + BitVec.ofNat 32 (n - left)
  valueReg : (m.regs regs.value).setWidth 8 = b
  memory : m.mem = fillRange start.mem dst (n - left) b
  kept : ∀ r, ¬ regs.Written r → m.regs r = start.regs r

/-- Execution filled a range, and wrote no register besides those for that. -/
structure Filled (regs : FillRegs) (dst : BitVec 32) (b : BitVec 8) (n : ℕ) (m m' : Machine) :
    Prop where
  mem : m'.mem = fillRange m.mem dst n b
  kept : ∀ r, ¬ regs.Written r → m'.regs r = m.regs r

section States

variable {regs : FillRegs} {start : Machine} {dst : BitVec 32} {b : BitVec 8} {n left w : ℕ}
  {m m' : Machine}

/-- Nothing is left. -/
theorem FillState.filled (h : FillState regs start dst b n 0 m) : Filled regs dst b n start m :=
  ⟨h.memory, h.kept⟩

/-- Writing a register other than the pointer and the value. -/
theorem FillState.setReg {r : REG} (hr : regs.Written r) (hdst : regs.dst ≠ r)
    (hvalue : regs.value ≠ r) (h : FillState regs start dst b n left m) (value : BitVec 32) :
    FillState regs start dst b n left (m.setReg r value) := by
  refine ⟨h.le, ?_, ?_, h.memory, fun r' hr' => ?_⟩
  · rw [setReg_regs, Function.update_of_ne hdst, h.dstReg]
  · rw [setReg_regs, Function.update_of_ne hvalue, h.valueReg]
  · have hne : r' ≠ r := by
      rintro rfl
      exact hr' hr
    rw [setReg_regs, Function.update_of_ne hne, h.kept r' hr']

/-- **The next bytes are filled**, and fewer bytes are left. -/
theorem FillState.step (hend : dst.toNat + n ≤ 2 ^ 32) (h : regs.Valid)
    (hstate : FillState regs start dst b n (left + w) m)
    (hdst : m'.regs regs.dst = m.regs regs.dst + BitVec.ofNat 32 w)
    (hkept : ∀ r, r ≠ regs.dst → m'.regs r = m.regs r)
    (hmem : m'.mem = fillRange m.mem (m.regs regs.dst) w b) :
    FillState regs start dst b n left m' := by
  have hle := hstate.le
  have hsum : n - (left + w) + w = n - left := by omega
  refine ⟨by omega, ?_, ?_, ?_, fun r hr => ?_⟩
  · rw [hdst, hstate.dstReg, BitVec.add_assoc, ← BitVec.ofNat_add, hsum]
  · rw [hkept _ (ne_of_isDATA h.dst_address h.value_data).symm, hstate.valueReg]
  · have hlen : dst.toNat + (n - (left + w) + w) ≤ 2 ^ 32 := by omega
    have happend := fillRange_append start.mem b hlen
    rw [hmem, hstate.memory, hstate.dstReg, happend, hsum]
  · have hne : r ≠ regs.dst := fun heq => hr (.inl heq)
    exact (hkept r hne).trans (hstate.kept r hr)

/-- Filling a byte. -/
theorem FillState.fillByte (hend : dst.toNat + n ≤ 2 ^ 32) (h : regs.Valid)
    (hstate : FillState regs start dst b n (left + 1) m) :
    FillState regs start dst b n left ((fillByte regs).exec m) := by
  refine hstate.step hend h (Function.update_self _ _ _)
    (fun r hr => Function.update_of_ne hr _ _) ?_
  rw [TriCore.fillByte, BulkOp.exec, setReg_mem, Machine.storeByte, hstate.valueReg,
    storeByte_eq_fillRange]

/-- Filling a word whose bytes are all the same. -/
theorem FillState.fillWord (hend : dst.toNat + n ≤ 2 ^ 32) (h : regs.Valid)
    (hbytes : ∀ i < 4, byteOf (m.regs regs.value) i = b)
    (hstate : FillState regs start dst b n (left + 4) m) :
    FillState regs start dst b n left ((fillWord regs).exec m) := by
  have hle := hstate.le
  refine hstate.step hend h (Function.update_self _ _ _)
    (fun r hr => Function.update_of_ne hr _ _) ?_
  rw [TriCore.fillWord, BulkOp.exec, setReg_mem, store_mem]
  refine storeWord_eq_fillRange m.mem hbytes ?_
  rw [hstate.dstReg, toNat_add_ofNat (by omega)]
  omega

/-- The counter of a loop is one for its last iteration. -/
theorem ofNat_succ_bne_one {k : ℕ} (hk : k + 1 < 2 ^ 32) :
    (BitVec.ofNat 32 (k + 1) != (1 : BitVec 4).signExtend 32) = true ↔ k ≠ 0 := by
  have hiff := ofNat_succ_ne_one hk
  rwa [show BitVec.ofNat 32 (k + 1) + 0 = BitVec.ofNat 32 (k + 1) from BitVec.add_zero _] at hiff

/-- Counting by one. -/
theorem ofNat_succ_sub_one' (k : ℕ) : BitVec.ofNat 32 (k + 1) - 1 = BitVec.ofNat 32 k := by
  have hsub := ofNat_succ_sub_one k
  rwa [show BitVec.ofNat 32 (k + 1) + 0 = BitVec.ofNat 32 (k + 1) from BitVec.add_zero _] at hsub

/-- **The loop over single bytes** fills what is left. -/
theorem runLoop_fillByte (h : regs.Valid) (hend : dst.toNat + n ≤ 2 ^ 32) (hn : n < 2 ^ 32)
    {limit : ℕ} (hleft : 0 < left) (hlimit : left ≤ limit)
    (hstate : FillState regs start dst b n left m)
    (hsize : m.regs regs.size = BitVec.ofNat 32 left) :
    ∃ m', runLoop [fillByte regs] (.JNED_Da_const4sx_disp15sx2 regs.size 1) limit m = .ok m' ∧
      Filled regs dst b n start m' := by
  have hsizeDst : regs.size ≠ regs.dst := (ne_of_isDATA h.dst_address h.size_data).symm
  let P : ℕ → Machine → Prop := fun k m =>
    FillState regs start dst b n k m ∧ m.regs regs.size = BitVec.ofNat 32 k
  have hloop : ∃ m', runLoop [fillByte regs] (.JNED_Da_const4sx_disp15sx2 regs.size 1) limit m =
      .ok m' ∧ P 0 m' := by
    refine runLoop_of_steps (fun k m hP => ?_) hleft hlimit ⟨hstate, hsize⟩
    obtain ⟨hfill, hk⟩ := hP
    have hle := hfill.le
    have hk' : ((fillByte regs).exec m).regs regs.size = BitVec.ofNat 32 (k + 1) :=
      (Function.update_of_ne hsizeDst _ _).trans hk
    refine ⟨(fillByte regs).exec m, rfl, ?_, ?_, ?_⟩
    · rw [BackJump.taken, hk']
      exact ofNat_succ_bne_one (by omega)
    · exact (hfill.fillByte hend h).setReg (.inr (.inl rfl)) hsizeDst.symm h.size_ne_value.symm _
    · rw [BackJump.exec, setReg_regs, Function.update_self, hk', ofNat_succ_sub_one']
  obtain ⟨m', hrun, hP⟩ := hloop
  exact ⟨m', hrun, hP.1.filled⟩

/-- The bytes of a word with the lowest byte everywhere. -/
theorem byteOf_copyByteToAll (value : BitVec 32) {i : ℕ} (hi : i < 4) :
    byteOf (copyByteToAll value) i = value.setWidth 8 := by
  rw [copyByteToAll]
  interval_cases i <;> grind [byteOf]

/-- **The loop over words** fills all of them. -/
theorem runLoop_fillWord (h : regs.Valid) (hend : dst.toNat + n ≤ 2 ^ 32) (hn : n < 2 ^ 32)
    {limit count : ℕ} (hcount : 0 < count) (hlimit : count ≤ limit)
    (hstate : FillState regs start dst b n (left + 4 * count) m)
    (hbytes : ∀ i < 4, byteOf (m.regs regs.value) i = b)
    (heven : isOdd (m.regs regs.dst) = false)
    (hscratch : m.regs regs.scratch = BitVec.ofNat 32 count) :
    ∃ m', runLoop [fillWord regs] (.JNED_Da_const4sx_disp15sx2 regs.scratch 1) limit m = .ok m' ∧
      FillState regs start dst b n left m' ∧ m'.regs regs.size = m.regs regs.size := by
  have hscratchDst : regs.scratch ≠ regs.dst := (ne_of_isDATA h.dst_address h.scratch_data).symm
  have hvalueDst : regs.value ≠ regs.dst := (ne_of_isDATA h.dst_address h.value_data).symm
  have hsizeDst : regs.size ≠ regs.dst := (ne_of_isDATA h.dst_address h.size_data).symm
  let P : ℕ → Machine → Prop := fun k m' =>
    FillState regs start dst b n (left + 4 * k) m' ∧ m'.regs regs.scratch = BitVec.ofNat 32 k ∧
      (∀ i < 4, byteOf (m'.regs regs.value) i = b) ∧ isOdd (m'.regs regs.dst) = false ∧
      m'.regs regs.size = m.regs regs.size
  have hloop : ∃ m', runLoop [fillWord regs] (.JNED_Da_const4sx_disp15sx2 regs.scratch 1) limit
      m = .ok m' ∧ P 0 m' := by
    refine runLoop_of_steps (fun k m' hP => ?_) hcount hlimit
      ⟨hstate, hscratch, hbytes, heven, rfl⟩
    obtain ⟨hfill, hk, hbytes', heven', hsize'⟩ := hP
    have hle := hfill.le
    let m'' := (fillWord regs).exec m'
    have hkept : ∀ r, r ≠ regs.dst → m''.regs r = m'.regs r := fun r hr =>
      Function.update_of_ne hr _ _
    have hdst : m''.regs regs.dst = m'.regs regs.dst + 4 := Function.update_self _ _ _
    have hk' := (hkept _ hscratchDst).trans hk
    have hrun : runOps [fillWord regs] m' = some m'' := by
      have haligned : (fillWord regs).isAligned m' = true := by
        rw [isOdd] at heven'
        rw [fillWord, BulkOp.isAligned, BulkOp.wideAddress?, Option.all_some, heven']
        rfl
      rw [runOps, if_pos haligned, runOps]
    have hnext : FillState regs start dst b n (left + 4 * k) m'' :=
      hfill.fillWord hend h hbytes'
    refine ⟨m'', hrun, ?_, ?_, ?_, ?_, ?_, ?_⟩
    · rw [BackJump.taken, hk']
      exact ofNat_succ_bne_one (by omega)
    · exact hnext.setReg (.inr (.inr (.inr rfl))) hscratchDst.symm h.value_ne_scratch _
    · rw [BackJump.exec, setReg_regs, Function.update_self, hk', ofNat_succ_sub_one']
    · rw [BackJump.exec, setReg_regs, Function.update_of_ne h.value_ne_scratch, hkept _ hvalueDst]
      exact hbytes'
    · have hstep : (4 : BitVec 32).toNat % 2 = 0 := rfl
      rw [isOdd_eq, decide_eq_false_iff_not] at heven'
      rw [BackJump.exec, setReg_regs, Function.update_of_ne hscratchDst.symm, hdst, isOdd_eq,
        decide_eq_false_iff_not, BitVec.toNat_add]
      omega
    · rw [BackJump.exec, setReg_regs, Function.update_of_ne h.size_ne_scratch, hkept _ hsizeDst]
      exact hsize'
  obtain ⟨m', hrun, hP⟩ := hloop
  exact ⟨m', hrun, hP.1, hP.2.2.2.2⟩

end States

/-! ### The pieces -/

section Pieces

variable (extensionRequest : Machine → Option Machine) {limit : ℕ} {regs : FillRegs}
  {start : Machine} {dst : BitVec 32} {b : BitVec 8} {n left : ℕ} {m : Machine}

/-- The number of bytes that are left is compared with zero. -/
theorem eqZero_taken {r : REG} {k : ℕ} (hk : k < 2 ^ 32) (h : m.regs r = BitVec.ofNat 32 k) :
    (CondJump.JEQ_Da_const4sx_disp15sx2 r 0).taken m = decide (k = 0) := by
  have hzero : (0 : BitVec 4).signExtend 32 = BitVec.ofNat 32 0 := by decide
  rw [CondJump.taken, h, hzero]
  by_cases hk0 : k = 0
  · subst hk0
    rfl
  · rw [decide_eq_false hk0, beq_eq_false_iff_ne]
    intro heq
    have hnat := congrArg BitVec.toNat heq
    rw [BitVec.toNat_ofNat, BitVec.toNat_ofNat, Nat.mod_eq_of_lt hk] at hnat
    exact hk0 hnat

/-- The bytes that are left are filled. -/
theorem runBulk_fillBytes (h : regs.Valid) (hend : dst.toNat + n ≤ 2 ^ 32) (hn : n < 2 ^ 32)
    (hlimit : left ≤ limit) (hstate : FillState regs start dst b n left m)
    (hsize : m.regs regs.size = BitVec.ofNat 32 left) :
    ∃ m', runBulk extensionRequest limit (fillBytes regs) m = .ok m' ∧
      Filled regs dst b n start m' := by
  have hle := hstate.le
  have htaken := eqZero_taken (m := m) (r := regs.size) (by omega) hsize
  rcases Nat.eq_zero_or_pos left with rfl | hpos
  · refine ⟨m, ?_, hstate.filled⟩
    exact runBulk_jump htaken [.loop [fillByte regs] (.JNED_Da_const4sx_disp15sx2 regs.size 1)] []
  · obtain ⟨m', hrun, hfilled⟩ := runLoop_fillByte h hend hn hpos hlimit hstate hsize
    have hnot : (CondJump.JEQ_Da_const4sx_disp15sx2 regs.size 0).taken m = false := by
      rw [htaken]
      exact decide_eq_false hpos.ne'
    refine ⟨m', ?_, hfilled⟩
    rw [fillBytes, runBulk_jump_of_not hnot, runBulk_loop hrun]
    rfl

/-- A logical shift to the right by two. -/
theorem logicalShift_ofNat {k : ℕ} (hk : k < 2 ^ 32) :
    logicalShift (BitVec.ofNat 32 k) (-2) = BitVec.ofNat 32 (k / 4) := by
  have hcount : ((-2 : BitVec 9).setWidth 6).toInt = -2 := by decide
  rw [logicalShift, hcount, if_neg (by decide)]
  refine BitVec.eq_of_toNat_eq ?_
  rw [BitVec.toNat_ushiftRight, BitVec.toNat_ofNat, BitVec.toNat_ofNat, Nat.mod_eq_of_lt hk,
    Nat.mod_eq_of_lt (by omega), Nat.shiftRight_eq_div_pow]
  rfl

/-- The number of bytes behind the last word. -/
theorem exec_andWord (r : REG) (m : Machine) :
    (andWordDcDaConst9zx r r 3).exec m = m.setReg r (m.regs r &&& 3) := by
  rw [andWordDcDaConst9zx]
  split
  · case _ h =>
      obtain ⟨rfl, -, -⟩ := h
      rfl
  · rfl

/-- The remainder of a division by four. -/
theorem ofNat_and_three {k : ℕ} (hk : k < 2 ^ 32) :
    BitVec.ofNat 32 k &&& 3 = BitVec.ofNat 32 (k % 4) := by
  refine BitVec.eq_of_toNat_eq ?_
  have hthree : (3 : BitVec 32).toNat = 2 ^ 2 - 1 := rfl
  have hmod : k % 4 < 2 ^ 32 := by omega
  rw [BitVec.toNat_and, hthree, Nat.and_two_pow_sub_one_eq_mod, BitVec.toNat_ofNat,
    BitVec.toNat_ofNat, Nat.mod_eq_of_lt hk, Nat.mod_eq_of_lt hmod]

/-- Writing the same byte everywhere in the register for the value. -/
theorem FillState.copyByte (h : regs.Valid) (hstate : FillState regs start dst b n left m) :
    let m' := m.setReg regs.value (copyByteToAll (m.regs regs.value))
    FillState regs start dst b n left m' ∧ ∀ i < 4, byteOf (m'.regs regs.value) i = b := by
  have hbytes : ∀ i < 4, byteOf (copyByteToAll (m.regs regs.value)) i = b := fun i hi => by
    rw [byteOf_copyByteToAll _ hi, hstate.valueReg]
  refine ⟨⟨hstate.le, ?_, ?_, hstate.memory, fun r hr => ?_⟩, ?_⟩
  · rw [setReg_regs, Function.update_of_ne (ne_of_isDATA h.dst_address h.value_data),
      hstate.dstReg]
  · rw [setReg_regs, Function.update_self, ← hbytes 0 (by decide)]
    grind [byteOf]
  · have hne : r ≠ regs.value := fun heq => hr (.inr (.inr (.inl heq)))
    rw [setReg_regs, Function.update_of_ne hne, hstate.kept r hr]
  · rw [setReg_regs, Function.update_self]
    exact hbytes

/-- **Words are filled**, and fewer than four bytes are left. -/
theorem runBulk_fillWords (h : regs.Valid) (hend : dst.toNat + n ≤ 2 ^ 32) (hn : n < 2 ^ 32)
    (hlimit : left ≤ limit) (hstate : FillState regs start dst b n left m)
    (heven : isOdd (m.regs regs.dst) = false)
    (hsize : m.regs regs.size = BitVec.ofNat 32 left) :
    ∃ m', (∀ code, runBulk extensionRequest limit (fillWords regs ++ code) m =
        runBulk extensionRequest limit code m') ∧
      FillState regs start dst b n (left % 4) m' ∧
      m'.regs regs.size = BitVec.ofNat 32 (left % 4) := by
  have hle := hstate.le
  have hscratchDst : regs.dst ≠ regs.scratch := ne_of_isDATA h.dst_address h.scratch_data
  have hvalueDst : regs.dst ≠ regs.value := ne_of_isDATA h.dst_address h.value_data
  have hsizeDst : regs.dst ≠ regs.size := ne_of_isDATA h.dst_address h.size_data
  let m1 := m.setReg regs.scratch (BitVec.ofNat 32 (left / 4))
  have hexec : (BulkOp.SH_Dc_Da_const9sx regs.scratch regs.size (-2)).exec m = m1 := by
    rw [BulkOp.exec, hsize, logicalShift_ofNat (by omega)]
  have hstate1 : FillState regs start dst b n left m1 :=
    hstate.setReg (.inr (.inr (.inr rfl))) hscratchDst h.value_ne_scratch _
  have hscratch1 : m1.regs regs.scratch = BitVec.ofNat 32 (left / 4) :=
    Function.update_self _ _ _
  have hsize1 : m1.regs regs.size = BitVec.ofNat 32 left :=
    (Function.update_of_ne h.size_ne_scratch _ _).trans hsize
  have htaken := eqZero_taken (m := m1) (r := regs.scratch) (by omega) hscratch1
  have hfirst : ∀ code, runBulk extensionRequest limit (fillWords regs ++ code) m =
      runBulk extensionRequest limit (.jump (.JEQ_Da_const4sx_disp15sx2 regs.scratch 0)
        (wordsLoop regs).length :: (wordsLoop regs ++ code)) m1 := fun code => by
    rw [← hexec]
    exact runBulk_op rfl _
  rcases Nat.eq_zero_or_pos (left / 4) with hzero | hpos
  · have hmod : left % 4 = left := by omega
    rw [hmod]
    refine ⟨m1, fun code => ?_, hstate1, hsize1⟩
    rw [hfirst, runBulk_jump (by rw [htaken]; exact decide_eq_true hzero)]
  · obtain ⟨hstate2, hbytes⟩ := hstate1.copyByte h
    let m2 := m1.setReg regs.value (copyByteToAll (m1.regs regs.value))
    have hkept2 : ∀ r, r ≠ regs.value → m2.regs r = m1.regs r := fun r hr =>
      Function.update_of_ne hr _ _
    have hleft : left % 4 + 4 * (left / 4) = left := Nat.mod_add_div left 4
    have hstate2' : FillState regs start dst b n (left % 4 + 4 * (left / 4)) m2 := by
      rw [hleft]
      exact hstate2
    have heven2 : isOdd (m2.regs regs.dst) = false := by
      rw [hkept2 _ hvalueDst, setReg_regs, Function.update_of_ne hscratchDst]
      exact heven
    obtain ⟨m3, hrun, hstate3, hsize3⟩ := runLoop_fillWord h hend hn hpos
      ((Nat.div_le_self left 4).trans hlimit) hstate2' hbytes heven2
      ((hkept2 _ h.value_ne_scratch.symm).trans hscratch1)
    have hsize3' : m3.regs regs.size = BitVec.ofNat 32 left :=
      hsize3.trans ((hkept2 _ h.size_ne_value).trans hsize1)
    have hnot : (CondJump.JEQ_Da_const4sx_disp15sx2 regs.scratch 0).taken m1 = false := by
      rw [htaken]
      exact decide_eq_false hpos.ne'
    have hand : (andWordDcDaConst9zx regs.size regs.size 3).isAligned m3 = true := by
      rw [andWordDcDaConst9zx]
      split <;> rfl
    refine ⟨m3.setReg regs.size (BitVec.ofNat 32 (left % 4)), fun code => ?_,
      hstate3.setReg (.inr (.inl rfl)) hsizeDst h.size_ne_value.symm _, Function.update_self _ _ _⟩
    rw [hfirst, runBulk_jump_of_not hnot, wordsLoop, List.cons_append]
    refine (runBulk_op rfl _).trans ?_
    rw [List.cons_append]
    refine (runBulk_loop hrun _).trans ?_
    rw [List.cons_append, runBulk_op hand, exec_andWord, hsize3', ofNat_and_three (by omega)]
    rfl

/-- Counting the byte that makes the pointer even. -/
def countByte (regs : FillRegs) (m : Machine) : Machine :=
  m.add regs.size (m.regs regs.size) ((-1 : BitVec 16).signExtend 32)

/-- **A byte is filled so that the pointer is even.** -/
theorem FillState.align (h : regs.Valid) (hend : dst.toNat + n ≤ 2 ^ 32)
    (hstate : FillState regs start dst b n (left + 1) m)
    (hsize : m.regs regs.size = BitVec.ofNat 32 (left + 1)) :
    let m' := (TriCore.fillByte regs).exec (countByte regs m)
    FillState regs start dst b n left m' ∧ m'.regs regs.size = BitVec.ofNat 32 left ∧
      m'.regs regs.dst = m.regs regs.dst + 1 := by
  have hsizeDst : regs.dst ≠ regs.size := ne_of_isDATA h.dst_address h.size_data
  have hset := hstate.setReg (.inr (.inl rfl)) hsizeDst h.size_ne_value.symm
    (m.regs regs.size + (-1 : BitVec 16).signExtend 32)
  have hcounted : FillState regs start dst b n (left + 1) (countByte regs m) :=
    ⟨hset.le, hset.dstReg, hset.valueReg, hset.memory, hset.kept⟩
  refine ⟨hcounted.fillByte hend h, ?_, ?_⟩
  · have hsum : BitVec.ofNat 32 1 + (-1 : BitVec 16).signExtend 32 = 0 := by decide
    rw [TriCore.fillByte, BulkOp.exec, setReg_regs, Function.update_of_ne hsizeDst.symm,
      Machine.storeByte, countByte, add_regs, Function.update_self, hsize, BitVec.ofNat_add,
      BitVec.add_assoc, hsum]
    exact BitVec.add_zero _
  · rw [TriCore.fillByte, BulkOp.exec, setReg_regs, Function.update_self, countByte, add_regs,
      Function.update_of_ne hsizeDst]

/-- **Filling is exact** if there is a byte or the pointer is even. -/
theorem runBulk_fillCode (h : regs.Valid) (hend : dst.toNat + n ≤ 2 ^ 32) (hn : n < 2 ^ 32)
    (hlimit : n ≤ limit) (hdst : m.regs regs.dst = dst)
    (hsize : m.regs regs.size = BitVec.ofNat 32 n) (hsafe : 0 < n ∨ isOdd dst = false) :
    ∃ m', runBulk extensionRequest limit (fillCode regs) m = .ok m' ∧
      Filled regs dst ((m.regs regs.value).setWidth 8) n m m' := by
  have hscratchDst : regs.dst ≠ regs.scratch := ne_of_isDATA h.dst_address h.scratch_data
  have hvalueDst : regs.dst ≠ regs.value := ne_of_isDATA h.dst_address h.value_data
  have hsizeDst : regs.dst ≠ regs.size := ne_of_isDATA h.dst_address h.size_data
  let b := (m.regs regs.value).setWidth 8
  have hstate : FillState regs m dst b n n m := by
    refine ⟨le_rfl, ?_, rfl, ?_, fun _ _ => rfl⟩
    · rw [Nat.sub_self, hdst]
      exact (BitVec.add_zero dst).symm
    · rw [Nat.sub_self, fillRange_zero]
  let m1 := m.setReg regs.scratch dst
  have hstate1 : FillState regs m dst b n n m1 :=
    hstate.setReg (.inr (.inr (.inr rfl))) hscratchDst h.value_ne_scratch _
  have hsize1 : m1.regs regs.size = BitVec.ofNat 32 n :=
    (Function.update_of_ne h.size_ne_scratch _ _).trans hsize
  have hdst1 : m1.regs regs.dst = dst := (Function.update_of_ne hscratchDst _ _).trans hdst
  have htaken : (CondJump.JZT_Da_n_disp15sx2 regs.scratch 0).taken m1 = !isOdd dst := by
    rw [CondJump.taken, setReg_regs, Function.update_self]
    rfl
  let align : List BulkInstr :=
    [.op (.plain (.ADDI_Dc_Da_const16sx regs.size regs.size (-1))), .op (fillByte regs)]
  have hfirst : runBulk extensionRequest limit (fillCode regs) m =
      runBulk extensionRequest limit (.jump (.JZT_Da_n_disp15sx2 regs.scratch 0) align.length ::
        (align ++ (fillWords regs ++ fillBytes regs))) m1 := by
    have hexec : (BulkOp.MOVD_Da_Ab regs.scratch regs.dst).exec m = m1 := by
      rw [BulkOp.exec, hdst]
    rw [← hexec]
    exact runBulk_op rfl _
  have hrest : ∀ left m2, left ≤ n → FillState regs m dst b n left m2 →
      isOdd (m2.regs regs.dst) = false → m2.regs regs.size = BitVec.ofNat 32 left →
      ∃ m', runBulk extensionRequest limit (fillWords regs ++ fillBytes regs) m2 = .ok m' ∧
        Filled regs dst b n m m' := by
    intro left m2 hleft hstate2 heven2 hsize2
    obtain ⟨m3, hwords, hstate3, hsize3⟩ := runBulk_fillWords extensionRequest h hend hn
      (hleft.trans hlimit) hstate2 heven2 hsize2
    obtain ⟨m4, hbytes, hfilled⟩ := runBulk_fillBytes extensionRequest h hend hn
      (((Nat.mod_le left 4).trans hleft).trans hlimit) hstate3 hsize3
    exact ⟨m4, (hwords _).trans hbytes, hfilled⟩
  cases hodd : isOdd dst with
  | false =>
      rw [hodd] at htaken
      obtain ⟨m', hrun, hfilled⟩ :=
        hrest n m1 le_rfl hstate1 (by rw [hdst1]; exact hodd) hsize1
      refine ⟨m', ?_, hfilled⟩
      rw [hfirst, runBulk_jump htaken]
      exact hrun
  | true =>
      have hpos : 0 < n := by
        rcases hsafe with hpos | heven
        · exact hpos
        · rw [hodd] at heven
          cases heven
      rw [hodd] at htaken
      obtain ⟨left, rfl⟩ : ∃ l, n = l + 1 := ⟨n - 1, by omega⟩
      obtain ⟨hstate3, hsize3, hdst3⟩ := hstate1.align h hend hsize1
      have heven3 :
          isOdd (((fillByte regs).exec (countByte regs m1)).regs regs.dst) = false := by
        have hstep := isOdd_step_byte .forward dst
        rw [hodd] at hstep
        rw [hdst3, hdst1]
        exact hstep
      obtain ⟨m', hrun, hfilled⟩ := hrest left _ (Nat.le_succ left) hstate3 heven3 hsize3
      refine ⟨m', ?_, hfilled⟩
      rw [hfirst, runBulk_jump_of_not htaken]
      exact (runBulk_op rfl _).trans ((runBulk_op rfl _).trans hrun)

/-- **No bytes and an odd pointer**: one byte is filled, the number of bytes wraps around, and the
loop over words does not end within as many iterations as there are bytes. -/
theorem runBulk_fillCode_of_zero (h : regs.Valid) (hodd : isOdd (m.regs regs.dst) = true)
    (hsize : m.regs regs.size = 0) :
    runBulk extensionRequest 0 (fillCode regs) m = .error .unfinished := by
  have hsizeDst : regs.size ≠ regs.dst := (ne_of_isDATA h.dst_address h.size_data).symm
  let m1 := m.setReg regs.scratch (m.regs regs.dst)
  have htaken : (CondJump.JZT_Da_n_disp15sx2 regs.scratch 0).taken m1 = false := by
    rw [isOdd] at hodd
    rw [CondJump.taken, setReg_regs, Function.update_self, hodd]
    rfl
  let m2 := m1.add regs.size (m1.regs regs.size) ((-1 : BitVec 16).signExtend 32)
  let m3 := (fillByte regs).exec m2
  have hsize3 : m3.regs regs.size = BitVec.ofNat 32 (2 ^ 32 - 1) := by
    have hkept : m3.regs regs.size = m2.regs regs.size := Function.update_of_ne hsizeDst _ _
    rw [hkept, add_regs, Function.update_self, setReg_regs,
      Function.update_of_ne h.size_ne_scratch, hsize]
    decide
  let m4 := m3.setReg regs.scratch (BitVec.ofNat 32 ((2 ^ 32 - 1) / 4))
  have hexec : (BulkOp.SH_Dc_Da_const9sx regs.scratch regs.size (-2)).exec m3 = m4 := by
    rw [BulkOp.exec, hsize3, logicalShift_ofNat (by decide)]
  have hscratch4 : m4.regs regs.scratch = BitVec.ofNat 32 ((2 ^ 32 - 1) / 4) :=
    Function.update_self _ _ _
  have hnot : (CondJump.JEQ_Da_const4sx_disp15sx2 regs.scratch 0).taken m4 = false := by
    rw [eqZero_taken (by decide) hscratch4]
    decide
  have hwords : runBulk extensionRequest 0 (fillWords regs ++ fillBytes regs) m3 =
      .error .unfinished := by
    refine (runBulk_op rfl _).trans ?_
    rw [hexec]
    refine (runBulk_jump_of_not hnot _ _).trans ?_
    exact (runBulk_op rfl _).trans (runBulk_loop_of_error rfl _)
  refine (runBulk_op rfl _).trans ?_
  refine (runBulk_jump_of_not htaken _ _).trans ?_
  exact (runBulk_op rfl _).trans ((runBulk_op rfl _).trans hwords)

end Pieces

end TriCore

end WasmCompiler
