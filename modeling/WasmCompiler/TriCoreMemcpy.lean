import WasmCompiler.TriCoreBulkCode
import WasmCompiler.TriCoreMoves

/-!
# Copying Bytes on TriCore

`emitMemcpyNoBoundsCheck` and `emitMemcpyWithConstSizeNoBoundsCheck` copy eight bytes at a time
while both pointers are even, and single bytes before and behind that. They copy from the front if
the source is not below the destination, and from the end otherwise.

## Main results

* `copiesOn_copyEights`, `runBulk_copyBytes`: the loops keep what was copied so far.
* `runBulk_emitMemcpyNoBoundsCheck`, `runBulk_emitMemcpyWithConstSizeNoBoundsCheck`: the copy is
  exact, for any overlap, and no loop takes more iterations than there are bytes.
-/

namespace WasmCompiler

namespace TriCore

open ByteMemory Machine

/-! ### The code -/

/-- The direction of a copy. -/
inductive CopyDirection where
  | forward
  | reverse
  deriving DecidableEq, Repr

/-- The registers of a copy: the pointers, the number of bytes that are left, and a pair of
registers for the data. -/
structure CopyRegs where
  dst : REG
  src : REG
  size : REG
  scratch : REG
  deriving DecidableEq, Repr

/-- `extScratchReg`. -/
def CopyRegs.extScratch (regs : CopyRegs) : REG := regs.scratch.getOtherExtReg

/-- Load a byte, or eight bytes. -/
def loadChunk (dir : CopyDirection) (eight : Bool) (regs : CopyRegs) : BulkOp :=
  match dir, eight with
  | .forward, false => .LDBU_Dc_deref_Ab_postinc regs.scratch regs.src
  | .forward, true => .LDD_Ea_deref_Ab_off10sx_postinc regs.scratch regs.src 8
  | .reverse, false => .LDBU_Da_deref_Ab_off10sx_preinc regs.scratch regs.src (-1)
  | .reverse, true => .LDD_Ea_deref_Ab_off10sx_preinc regs.scratch regs.src (-8)

/-- Store a byte, or eight bytes. -/
def storeChunk (dir : CopyDirection) (eight : Bool) (regs : CopyRegs) : BulkOp :=
  match dir, eight with
  | .forward, false => .STB_deref_Ab_Da_postinc regs.dst regs.scratch
  | .forward, true => .STD_deref_Ab_off10sx_Ea_postinc regs.dst 8 regs.scratch
  | .reverse, false => .STB_deref_Ab_off10sx_Da_preinc regs.dst (-1) regs.scratch
  | .reverse, true => .STD_deref_Ab_off10sx_Ea_preinc regs.dst (-8) regs.scratch

/-- Subtract from the number of bytes. -/
def subSize (regs : CopyRegs) (const16sx : BitVec 16) : BulkOp :=
  .plain (.ADDI_Dc_Da_const16sx regs.size regs.size const16sx)

/-- The body of the loop over single bytes. -/
def copyByte (dir : CopyDirection) (regs : CopyRegs) : List BulkOp :=
  [loadChunk dir false regs, storeChunk dir false regs]

/-- Copy a single byte so that the pointers are even. -/
def alignByte (dir : CopyDirection) (regs : CopyRegs) : List BulkOp :=
  [loadChunk dir false regs, subSize regs (-1), storeChunk dir false regs]

/-- The body of the loop over eight bytes. -/
def copyEight (dir : CopyDirection) (regs : CopyRegs) : List BulkOp :=
  [loadChunk dir true regs, subSize regs (-8), storeChunk dir true regs]

/-- Fewer than eight bytes are left. -/
def lessThan8 (regs : CopyRegs) : CondJump := .JLTU_Da_const4zx_disp15sx2 regs.size 8

/-- The loop over eight bytes. -/
def eightsLoop (dir : CopyDirection) (regs : CopyRegs) : List BulkInstr :=
  [.loop (copyEight dir regs) (.JGEU_Da_const4zx_disp15sx2 regs.size 8)]

/-- The byte that aligns the pointers, and the check behind it. -/
def alignCode (dir : CopyDirection) (checkAfter : Bool) (regs : CopyRegs) : List BulkInstr :=
  (alignByte dir regs).map .op ++
    (if checkAfter then [.jump (lessThan8 regs) (eightsLoop dir regs).length] else [])

/-- The code for pointers that are both even or both odd. -/
def sameAlignment (dir : CopyDirection) (checkAfter : Bool) (regs : CopyRegs) :
    List BulkInstr :=
  .jump (.JZT_Da_n_disp15sx2 regs.extScratch 0) (alignCode dir checkAfter regs).length ::
    (alignCode dir checkAfter regs ++ eightsLoop dir regs)

/-- The code for at least eight bytes. -/
def atLeast8 (dir : CopyDirection) (checkAfter : Bool) (regs : CopyRegs) : List BulkInstr :=
  .op (.XOR_Da_Db regs.scratch regs.extScratch) ::
    .jump (.JNZT_Da_n_disp15sx2 regs.scratch 0) (sameAlignment dir checkAfter regs).length ::
      sameAlignment dir checkAfter regs

/-- The code before the loop over single bytes. -/
def copyEights (dir : CopyDirection) (checkBefore checkAfter : Bool) (regs : CopyRegs) :
    List BulkInstr :=
  (if checkBefore then [.jump (lessThan8 regs) (atLeast8 dir checkAfter regs).length] else []) ++
    atLeast8 dir checkAfter regs

/-- No byte is left. -/
def noBytes (regs : CopyRegs) : CondJump := .JLTU_Da_const4zx_disp15sx2 regs.size 1

/-- The loop over single bytes. -/
def bytesLoop (dir : CopyDirection) (regs : CopyRegs) : BulkInstr :=
  .loop (copyByte dir regs) (.JNED_Da_const4sx_disp15sx2 regs.size 1)

/-- The code for a source below the destination. -/
def reverseCode (eights : List BulkInstr) (regs : CopyRegs) : List BulkInstr :=
  [.op (.plain (.ADD_Da_Db regs.scratch regs.size)), .op (.MOVA_Aa_Db regs.src regs.scratch),
    .op (.plain (.ADD_Da_Db regs.extScratch regs.size)),
    .op (.MOVA_Aa_Db regs.dst regs.extScratch)] ++
    (eights ++ [.jump (noBytes regs) 1, bytesLoop .reverse regs])

/-- The code for a source that is not below the destination, before that for one that is. -/
def forwardCode (eights reverse : List BulkInstr) (regs : CopyRegs) : List BulkInstr :=
  let finished : List BulkInstr := [.jump .J_disp24sx2 reverse.length]
  eights ++ (.jump (noBytes regs) (bytesLoop .forward regs :: (finished ++ reverse)).length ::
    bytesLoop .forward regs :: finished)

/-- A copy of ranges that may overlap, with the code for at least eight bytes. -/
def memcpyCode (eights : CopyDirection → List BulkInstr) (regs : CopyRegs) : List BulkInstr :=
  let reverse := reverseCode (eights .reverse) regs
  let forward := forwardCode (eights .forward) reverse regs
  [.op (.MOVD_Da_Ab regs.scratch regs.src), .op (.MOVD_Da_Ab regs.extScratch regs.dst)] ++
    (.jump (.JLTU_Da_Db_disp15sx2 regs.scratch regs.extScratch) forward.length ::
      (forward ++ reverse))

/-- `emitMemcpyNoBoundsCheck`, for ranges that may overlap. -/
def emitMemcpyNoBoundsCheck (regs : CopyRegs) : List BulkInstr :=
  memcpyCode (fun dir => copyEights dir true true regs) regs

/-- `emitMemcpyWithConstSizeNoBoundsCheck`, for ranges that may overlap. -/
def emitMemcpyWithConstSizeNoBoundsCheck (regs : CopyRegs) (sizeToCopy : BitVec 32) :
    List BulkInstr :=
  memcpyCode (fun dir =>
    if 8 ≤ sizeToCopy then copyEights dir false (sizeToCopy == 8) regs else []) regs

/-! ### Chunks -/

/-- The registers are of the right kinds, and different ones. -/
structure CopyRegs.Valid (regs : CopyRegs) : Prop where
  dst_address : regs.dst.isDATA = false
  src_address : regs.src.isDATA = false
  dst_ne_src : regs.dst ≠ regs.src
  size_data : regs.size.isDATA = true
  scratch_data : regs.scratch.isDATA = true
  size_ne : regs.size ≠ regs.scratch ∧ regs.size ≠ regs.extScratch

/-- The registers that a copy writes. -/
def CopyRegs.Written (regs : CopyRegs) (r : REG) : Prop :=
  r = regs.dst ∨ r = regs.src ∨ r = regs.size ∨ r = regs.scratch ∨ r = regs.extScratch

/-- An address register is no data register. -/
theorem ne_of_isDATA {r r' : REG} (h : r.isDATA = false) (h' : r'.isDATA = true) : r ≠ r' := by
  rintro rfl
  rw [h] at h'
  cases h'

/-- The number of bytes of a chunk. -/
def chunkSize (eight : Bool) : ℕ := if eight then 8 else 1

/-- What a pointer is moved by. -/
def CopyDirection.step (dir : CopyDirection) (eight : Bool) : BitVec 32 :=
  match dir, eight with
  | .forward, false => 1
  | .forward, true => (8 : BitVec 10).signExtend 32
  | .reverse, false => (-1 : BitVec 10).signExtend 32
  | .reverse, true => (-8 : BitVec 10).signExtend 32

/-- The address of the chunk at a pointer. -/
def CopyDirection.chunk (dir : CopyDirection) (eight : Bool) (pointer : BitVec 32) : BitVec 32 :=
  match dir with
  | .forward => pointer
  | .reverse => pointer + dir.step eight

/-- Execution copied a chunk and counted. -/
structure CopiedChunk (regs : CopyRegs) (dir : CopyDirection) (eight : Bool) (count : BitVec 32)
    (m m' : Machine) : Prop where
  size : m'.regs regs.size = m.regs regs.size + count
  src : m'.regs regs.src = m.regs regs.src + dir.step eight
  dst : m'.regs regs.dst = m.regs regs.dst + dir.step eight
  mem : m'.mem = copyRange m.mem (dir.chunk eight (m.regs regs.dst))
    (dir.chunk eight (m.regs regs.src)) 0 (chunkSize eight)
  kept : ∀ r, ¬ regs.Written r → m'.regs r = m.regs r

/-- The bit that tells whether an address is odd. -/
def isOdd (a : BitVec 32) : Bool := a.getLsbD 0

section Chunks

variable {regs : CopyRegs} {m : Machine}

/-- A pointer and data registers that were written. -/
structure LoadedChunk (regs : CopyRegs) (dir : CopyDirection) (eight : Bool) (m m' : Machine) :
    Prop where
  src : m'.regs regs.src = m.regs regs.src + dir.step eight
  mem : m'.mem = m.mem
  kept : ∀ r, r ≠ regs.src → r ≠ regs.scratch → r ≠ regs.extScratch → m'.regs r = m.regs r
  data : if eight then m'.regs regs.scratch = m.load (dir.chunk eight (m.regs regs.src)) ∧
      m'.regs regs.extScratch = m.load (dir.chunk eight (m.regs regs.src) + 4)
    else (m'.regs regs.scratch).setWidth 8 = m.mem (dir.chunk eight (m.regs regs.src))

/-- A byte in a register, and the pointer that was moved. -/
theorem loadedChunk_byte (h : regs.Valid) (dir : CopyDirection) {b : BitVec 32}
    (hb : b.setWidth 8 = m.mem (dir.chunk false (m.regs regs.src))) :
    LoadedChunk regs dir false m
      ((m.setReg regs.scratch b).setReg regs.src (m.regs regs.src + dir.step false)) := by
  have hscratch : regs.scratch ≠ regs.src := (ne_of_isDATA h.src_address h.scratch_data).symm
  refine ⟨Function.update_self _ _ _, rfl, fun r hsrc hr _ => ?_, ?_⟩
  · rw [setReg_regs, Function.update_of_ne hsrc, setReg_regs, Function.update_of_ne hr]
  · rw [if_neg Bool.false_ne_true, setReg_regs, Function.update_of_ne hscratch, setReg_regs,
      Function.update_self]
    exact hb

/-- Two words in a pair of registers, and the pointer that was moved. -/
theorem loadedChunk_eight (h : regs.Valid) (dir : CopyDirection) :
    LoadedChunk regs dir true m
      ((m.setPair regs.scratch (m.load (dir.chunk true (m.regs regs.src)))
        (m.load (dir.chunk true (m.regs regs.src) + 4))).setReg regs.src
          (m.regs regs.src + dir.step true)) := by
  have hscratch : regs.scratch ≠ regs.src := (ne_of_isDATA h.src_address h.scratch_data).symm
  have hext : regs.scratch.getOtherExtReg ≠ regs.src := by
    refine (ne_of_isDATA h.src_address ?_).symm
    rw [REG.isDATA_getOtherExtReg, h.scratch_data]
  obtain ⟨hlow, hhigh⟩ := m.setPair_regs regs.scratch
    (m.load (dir.chunk true (m.regs regs.src))) (m.load (dir.chunk true (m.regs regs.src) + 4))
  refine ⟨Function.update_self _ _ _, rfl, fun r hsrc hr hr' => ?_, ?_⟩
  · rw [setReg_regs, Function.update_of_ne hsrc]
    exact (setPair_changes m regs.scratch _ _).regs r (not_or.mpr ⟨hr, hr'⟩)
  · rw [if_pos rfl, setReg_regs, Function.update_of_ne hscratch, CopyRegs.extScratch,
      Function.update_of_ne hext]
    exact ⟨hlow, hhigh⟩

/-- Eight bytes at an even address are aligned. -/
theorem loadChunk_isAligned (dir : CopyDirection) (eight : Bool)
    (haligned : eight = true → isOdd (dir.chunk eight (m.regs regs.src)) = false) :
    (loadChunk dir eight regs).isAligned m = true := by
  cases eight with
  | false => cases dir <;> rfl
  | true =>
      have heven := haligned rfl
      rw [isOdd] at heven
      cases dir with
      | forward =>
          rw [CopyDirection.chunk] at heven
          rw [loadChunk, BulkOp.isAligned, BulkOp.wideAddress?, Option.all_some, heven]
          rfl
      | reverse =>
          rw [CopyDirection.chunk, CopyDirection.step] at heven
          rw [loadChunk, BulkOp.isAligned, BulkOp.wideAddress?, Option.all_some, heven]
          rfl

/-- **Loading a chunk.** -/
theorem loadChunk_spec (h : regs.Valid) (dir : CopyDirection) (eight : Bool) :
    LoadedChunk regs dir eight m ((loadChunk dir eight regs).exec m) := by
  have hbyte : ∀ b : BitVec 8, (b.setWidth 32).setWidth 8 = b := fun b => by simp
  cases eight with
  | false =>
      cases dir with
      | forward => exact loadedChunk_byte h .forward (hbyte _)
      | reverse => exact loadedChunk_byte h .reverse (hbyte _)
  | true =>
      cases dir with
      | forward => exact loadedChunk_eight h .forward
      | reverse => exact loadedChunk_eight h .reverse

/-- Eight bytes at an even address are aligned. -/
theorem storeChunk_isAligned (dir : CopyDirection) (eight : Bool)
    (haligned : eight = true → isOdd (dir.chunk eight (m.regs regs.dst)) = false) :
    (storeChunk dir eight regs).isAligned m = true := by
  cases eight with
  | false => cases dir <;> rfl
  | true =>
      have heven := haligned rfl
      rw [isOdd] at heven
      cases dir with
      | forward =>
          rw [CopyDirection.chunk] at heven
          rw [storeChunk, BulkOp.isAligned, BulkOp.wideAddress?, Option.all_some, heven]
          rfl
      | reverse =>
          rw [CopyDirection.chunk, CopyDirection.step] at heven
          rw [storeChunk, BulkOp.isAligned, BulkOp.wideAddress?, Option.all_some, heven]
          rfl

/-- A pointer that was moved, and the bytes that were stored at it. -/
structure StoredChunk (regs : CopyRegs) (dir : CopyDirection) (eight : Bool) (m m' : Machine) :
    Prop where
  dst : m'.regs regs.dst = m.regs regs.dst + dir.step eight
  kept : ∀ r, r ≠ regs.dst → m'.regs r = m.regs r
  mem : m'.mem = if eight then
      (m.storePair (dir.chunk eight (m.regs regs.dst)) (m.regs regs.scratch)
        (m.regs regs.extScratch)).mem
    else ByteMemory.storeByte m.mem (dir.chunk eight (m.regs regs.dst))
      ((m.regs regs.scratch).setWidth 8)

/-- **Storing a chunk.** -/
theorem storeChunk_spec (dir : CopyDirection) (eight : Bool) :
    StoredChunk regs dir eight m ((storeChunk dir eight regs).exec m) := by
  cases eight with
  | false =>
      cases dir with
      | forward =>
          refine ⟨Function.update_self _ _ _, fun r hr => Function.update_of_ne hr _ _, ?_⟩
          rw [if_neg Bool.false_ne_true, storeChunk, BulkOp.exec, setReg_mem,
            CopyDirection.chunk, Machine.storeByte]
      | reverse =>
          refine ⟨Function.update_self _ _ _, fun r hr => Function.update_of_ne hr _ _, ?_⟩
          rw [if_neg Bool.false_ne_true, storeChunk, BulkOp.exec, setReg_mem,
            CopyDirection.chunk, Machine.storeByte, CopyDirection.step]
  | true =>
      cases dir with
      | forward =>
          refine ⟨Function.update_self _ _ _, fun r hr => Function.update_of_ne hr _ _, ?_⟩
          rw [if_pos rfl, storeChunk, BulkOp.exec, setReg_mem, CopyDirection.chunk,
            CopyRegs.extScratch]
      | reverse =>
          refine ⟨Function.update_self _ _ _, fun r hr => Function.update_of_ne hr _ _, ?_⟩
          rw [if_pos rfl, storeChunk, BulkOp.exec, setReg_mem, CopyDirection.chunk,
            CopyRegs.extScratch, CopyDirection.step]

/-- **A chunk is copied**, with instructions in between that count. -/
theorem runOps_chunk (h : regs.Valid) (dir : CopyDirection) (eight : Bool) (mid : List BulkOp)
    {count : BitVec 32} (f : Machine → Machine)
    (hrun : ∀ m rest, runOps (mid ++ rest) m = runOps rest (f m))
    (hregs : ∀ m, (f m).regs =
      Function.update m.regs regs.size (m.regs regs.size + count))
    (hmem : ∀ m, (f m).mem = m.mem)
    (haligned : eight = true → isOdd (dir.chunk eight (m.regs regs.src)) = false ∧
      isOdd (dir.chunk eight (m.regs regs.dst)) = false)
    (hwrap : (dir.chunk eight (m.regs regs.dst)).toNat + chunkSize eight ≤ 2 ^ 32) :
    ∃ m', runOps (loadChunk dir eight regs :: (mid ++ [storeChunk dir eight regs])) m =
        some m' ∧ CopiedChunk regs dir eight count m m' := by
  have hloaded := loadChunk_spec (m := m) h dir eight
  let m1 := (loadChunk dir eight regs).exec m
  have hsrcNe : regs.src ≠ regs.size := ne_of_isDATA h.src_address h.size_data
  have hdstNe : regs.dst ≠ regs.size := ne_of_isDATA h.dst_address h.size_data
  have hdstScratch : regs.dst ≠ regs.scratch := ne_of_isDATA h.dst_address h.scratch_data
  have hdstExt : regs.dst ≠ regs.extScratch := by
    refine ne_of_isDATA h.dst_address ?_
    rw [CopyRegs.extScratch, REG.isDATA_getOtherExtReg, h.scratch_data]
  have hkept : ∀ r, r ≠ regs.size → (f m1).regs r = m1.regs r := fun r hr => by
    rw [hregs, Function.update_of_ne hr]
  have hdst : (f m1).regs regs.dst = m.regs regs.dst :=
    (hkept _ hdstNe).trans (hloaded.kept _ h.dst_ne_src hdstScratch hdstExt)
  have hsize : m1.regs regs.size = m.regs regs.size :=
    hloaded.kept _ hsrcNe.symm h.size_ne.1 h.size_ne.2
  have hstoreAligned : (storeChunk dir eight regs).isAligned (f m1) = true :=
    storeChunk_isAligned dir eight fun height => by
      rw [hdst]
      exact (haligned height).2
  have hstored : StoredChunk regs dir eight (f m1) ((storeChunk dir eight regs).exec (f m1)) :=
    storeChunk_spec dir eight
  refine ⟨(storeChunk dir eight regs).exec (f m1), ?_, ?_, ?_, ?_, ?_, fun r hr => ?_⟩
  · rw [runOps, if_pos (loadChunk_isAligned dir eight fun height => (haligned height).1), hrun,
      runOps, if_pos hstoreAligned, runOps]
  · rw [hstored.kept _ hdstNe.symm, hregs, Function.update_self, hsize]
  · rw [hstored.kept _ h.dst_ne_src.symm, hkept _ hsrcNe, hloaded.src]
  · rw [hstored.dst, hdst]
  · have hdata := hloaded.data
    have hlow : (f m1).regs regs.scratch = m1.regs regs.scratch := hkept _ h.size_ne.1.symm
    have hhigh : (f m1).regs regs.extScratch = m1.regs regs.extScratch :=
      hkept _ h.size_ne.2.symm
    rw [hstored.mem, hdst, hlow, hhigh]
    cases eight with
    | false =>
        rw [if_neg Bool.false_ne_true] at hdata ⊢
        rw [hdata, hmem, hloaded.mem, storeByte_eq_copyRange]
        rfl
    | true =>
        rw [if_pos rfl] at hdata ⊢
        have hwords := storePair_eq_copyRange m.mem (dir.chunk true (m.regs regs.src)) hwrap
        rw [hdata.1, hdata.2, storePair, store_mem, store_mem, hmem, hloaded.mem]
        exact hwords
  · simp only [CopyRegs.Written, not_or] at hr
    obtain ⟨hrDst, hrSrc, hrSize, hrScratch, hrExt⟩ := hr
    exact (hstored.kept r hrDst).trans ((hkept r hrSize).trans (hloaded.kept r hrSrc hrScratch
      hrExt))

/-- Subtracting from the number of bytes. -/
theorem runOps_subSize (const16sx : BitVec 16) (m : Machine) (rest : List BulkOp) :
    runOps ([subSize regs const16sx] ++ rest) m =
      runOps rest (m.add regs.size (m.regs regs.size) (const16sx.signExtend 32)) := rfl

/-- The body of the loop over single bytes. -/
theorem runOps_copyByte (h : regs.Valid) (dir : CopyDirection)
    (hwrap : (dir.chunk false (m.regs regs.dst)).toNat + 1 ≤ 2 ^ 32) :
    ∃ m', runOps (copyByte dir regs) m = some m' ∧ CopiedChunk regs dir false 0 m m' := by
  have hregs : ∀ m : Machine,
      m.regs = Function.update m.regs regs.size (m.regs regs.size + 0) := fun m => by
    rw [show m.regs regs.size + 0 = m.regs regs.size from BitVec.add_zero _,
      Function.update_eq_self]
  exact runOps_chunk h dir false [] id (fun _ _ => rfl) hregs (fun _ => rfl) nofun hwrap

/-- A byte is copied before the pointers are even. -/
theorem runOps_alignByte (h : regs.Valid) (dir : CopyDirection)
    (hwrap : (dir.chunk false (m.regs regs.dst)).toNat + 1 ≤ 2 ^ 32) :
    ∃ m', runOps (alignByte dir regs) m = some m' ∧
      CopiedChunk regs dir false ((-1 : BitVec 16).signExtend 32) m m' :=
  runOps_chunk h dir false [subSize regs (-1)] _ (runOps_subSize (-1)) (fun _ => rfl) (fun _ => rfl) nofun hwrap

/-- The body of the loop over eight bytes. -/
theorem runOps_copyEight (h : regs.Valid) (dir : CopyDirection)
    (hsrc : isOdd (dir.chunk true (m.regs regs.src)) = false)
    (hdst : isOdd (dir.chunk true (m.regs regs.dst)) = false)
    (hwrap : (dir.chunk true (m.regs regs.dst)).toNat + 8 ≤ 2 ^ 32) :
    ∃ m', runOps (copyEight dir regs) m = some m' ∧
      CopiedChunk regs dir true ((-8 : BitVec 16).signExtend 32) m m' :=
  runOps_chunk h dir true [subSize regs (-8)] _ (runOps_subSize (-8)) (fun _ => rfl) (fun _ => rfl)
    (fun _ => ⟨hsrc, hdst⟩) hwrap

end Chunks

/-! ### What was copied so far -/

/-- The ranges do not wrap around, and are copied in the right direction. -/
structure CopyRanges (dir : CopyDirection) (dst src : BitVec 32) (n : ℕ) : Prop where
  dst_le : dst.toNat + n ≤ 2 ^ 32
  src_le : src.toNat + n ≤ 2 ^ 32
  order : match dir with
    | .forward => dst.toNat ≤ src.toNat
    | .reverse => src.toNat < dst.toNat

/-- The offset of the pointers when some bytes are left. -/
def CopyDirection.offset (dir : CopyDirection) (n left : ℕ) : ℕ :=
  match dir with
  | .forward => n - left
  | .reverse => left

/-- The memory when some bytes are left. -/
def CopyDirection.copied (dir : CopyDirection) (m : ByteMemory) (dst src : BitVec 32)
    (n left : ℕ) : ByteMemory :=
  match dir with
  | .forward => copyRange m dst src 0 (n - left)
  | .reverse => copyRange m dst src left n

/-- The pointers and the memory when some bytes are left. -/
structure CopyState (regs : CopyRegs) (dir : CopyDirection) (start : Machine)
    (dst src : BitVec 32) (n left : ℕ) (m : Machine) : Prop where
  le : left ≤ n
  srcReg : m.regs regs.src = src + BitVec.ofNat 32 (dir.offset n left)
  dstReg : m.regs regs.dst = dst + BitVec.ofNat 32 (dir.offset n left)
  memory : m.mem = dir.copied start.mem dst src n left
  kept : ∀ r, ¬ regs.Written r → m.regs r = start.regs r

section States

variable {regs : CopyRegs} {dir : CopyDirection} {start : Machine} {dst src : BitVec 32}
  {n left : ℕ} {eight : Bool} {m m' : Machine}

/-- A chunk is not empty. -/
theorem chunkSize_pos (eight : Bool) : 0 < chunkSize eight := by
  cases eight <;> decide

/-- The steps of the pointers. -/
theorem step_eq (eight : Bool) :
    CopyDirection.forward.step eight = BitVec.ofNat 32 (chunkSize eight) ∧
      BitVec.ofNat 32 (chunkSize eight) + CopyDirection.reverse.step eight = 0 := by
  cases eight <;> decide

/-- The pointers behind a chunk. -/
theorem offset_step (a : BitVec 32) (hle : left + chunkSize eight ≤ n) :
    a + BitVec.ofNat 32 (dir.offset n (left + chunkSize eight)) + dir.step eight =
      a + BitVec.ofNat 32 (dir.offset n left) := by
  obtain ⟨hforward, hreverse⟩ := step_eq eight
  cases dir with
  | forward =>
      rw [hforward, CopyDirection.offset, CopyDirection.offset, BitVec.add_assoc,
        ← BitVec.ofNat_add]
      congr 2
      omega
  | reverse =>
      rw [CopyDirection.offset, CopyDirection.offset, BitVec.ofNat_add, BitVec.add_assoc,
        BitVec.add_assoc, hreverse]
      exact congrArg (a + ·) (BitVec.add_zero _)

/-- The address of the next chunk. -/
theorem chunk_offset (a : BitVec 32) (hle : left + chunkSize eight ≤ n) :
    dir.chunk eight (a + BitVec.ofNat 32 (dir.offset n (left + chunkSize eight))) =
      a + BitVec.ofNat 32 (match dir with
        | .forward => n - (left + chunkSize eight)
        | .reverse => left) := by
  cases dir with
  | forward => rfl
  | reverse =>
      have hstep : a + BitVec.ofNat 32 (CopyDirection.reverse.offset n (left + chunkSize eight)) +
          CopyDirection.reverse.step eight =
            a + BitVec.ofNat 32 (CopyDirection.reverse.offset n left) := offset_step a hle
      exact hstep

/-- The next chunk does not wrap around. -/
theorem chunk_le (eight : Bool) (hranges : CopyRanges dir dst src n)
    (h : CopyState regs dir start dst src n (left + chunkSize eight) m) :
    (dir.chunk eight (m.regs regs.dst)).toNat + chunkSize eight ≤ 2 ^ 32 := by
  have hle := h.le
  have hpos := chunkSize_pos eight
  have hdst := hranges.dst_le
  rw [h.dstReg, chunk_offset dst hle]
  cases dir with
  | forward =>
      dsimp only
      rw [toNat_add_ofNat (by omega)]
      omega
  | reverse =>
      dsimp only
      rw [toNat_add_ofNat (by omega)]
      omega

/-- **A chunk is copied**, and fewer bytes are left. -/
theorem CopyState.step (eight : Bool) {count : BitVec 32} (hranges : CopyRanges dir dst src n)
    (h : CopyState regs dir start dst src n (left + chunkSize eight) m)
    (hcopied : CopiedChunk regs dir eight count m m') :
    CopyState regs dir start dst src n left m' := by
  have hle := h.le
  refine ⟨by omega, ?_, ?_, ?_, fun r hr => (hcopied.kept r hr).trans (h.kept r hr)⟩
  · rw [hcopied.src, h.srcReg, offset_step src hle]
  · rw [hcopied.dst, h.dstReg, offset_step dst hle]
  · rw [hcopied.mem, h.memory, h.dstReg, h.srcReg, chunk_offset dst hle, chunk_offset src hle]
    have horder := hranges.order
    have hsrc := hranges.src_le
    have hdst := hranges.dst_le
    cases dir with
    | forward =>
        have hsum : n - (left + chunkSize eight) + chunkSize eight = n - left := by omega
        have hforward := copyRange_forward start.mem (i := n - (left + chunkSize eight))
          (w := chunkSize eight) horder (by omega)
        rw [hsum] at hforward
        exact hforward
    | reverse => exact copyRange_backward start.mem horder hdst hle

end States

/-! ### The loops -/

section Loops

variable {regs : CopyRegs} {dir : CopyDirection} {start : Machine} {dst src : BitVec 32}
  {n left limit : ℕ} {m : Machine}

/-- Writing another register of the copy keeps the pointers and the memory. -/
theorem CopyState.setReg {r : REG} (hr : regs.Written r) (hsrc : regs.src ≠ r)
    (hdst : regs.dst ≠ r)
    (h : CopyState regs dir start dst src n left m) (value : BitVec 32) :
    CopyState regs dir start dst src n left (m.setReg r value) := by
  refine ⟨h.le, ?_, ?_, h.memory, fun r' hr' => ?_⟩
  · rw [setReg_regs, Function.update_of_ne hsrc, h.srcReg]
  · rw [setReg_regs, Function.update_of_ne hdst, h.dstReg]
  · have hne : r' ≠ r := by
      rintro rfl
      exact hr' hr
    rw [setReg_regs, Function.update_of_ne hne, h.kept r' hr']

/-- The pointers and the memory, and the register for the number of bytes that are left. -/
def CopyLeft (regs : CopyRegs) (dir : CopyDirection) (start : Machine) (dst src : BitVec 32)
    (n left : ℕ) (m : Machine) : Prop :=
  CopyState regs dir start dst src n left m ∧ m.regs regs.size = BitVec.ofNat 32 left

/-- Counting by one. -/
theorem ofNat_succ_sub_one (k : ℕ) :
    BitVec.ofNat 32 (k + 1) + 0 - 1 = BitVec.ofNat 32 k := by
  rw [BitVec.ofNat_add]
  grind

/-- The counter of a loop is one for its last iteration. -/
theorem ofNat_succ_ne_one {k : ℕ} (hk : k + 1 < 2 ^ 32) :
    (BitVec.ofNat 32 (k + 1) + 0 != (1 : BitVec 4).signExtend 32) = true ↔ k ≠ 0 := by
  have hone : (1 : BitVec 4).signExtend 32 = BitVec.ofNat 32 1 := by decide
  have hzero : BitVec.ofNat 32 (k + 1) + 0 = BitVec.ofNat 32 (k + 1) := BitVec.add_zero _
  rw [hone, hzero, bne_iff_ne, not_iff_not]
  constructor
  · intro heq
    have hnat := congrArg BitVec.toNat heq
    rw [BitVec.toNat_ofNat, BitVec.toNat_ofNat, Nat.mod_eq_of_lt hk] at hnat
    omega
  · rintro rfl
    rfl

/-- **The loop over single bytes** copies what is left. -/
theorem runLoop_copyByte (h : regs.Valid) (hranges : CopyRanges dir dst src n)
    (hn : n < 2 ^ 32) (hleft : 0 < left) (hlimit : left ≤ limit)
    (hstate : CopyLeft regs dir start dst src n left m) :
    ∃ m', runLoop (copyByte dir regs) (.JNED_Da_const4sx_disp15sx2 regs.size 1) limit m = .ok m' ∧
      CopyLeft regs dir start dst src n 0 m' := by
  refine runLoop_of_steps (fun k m hP => ?_) hleft hlimit hstate
  obtain ⟨hcopy, hsize⟩ := hP
  have hle := hcopy.le
  obtain ⟨m', hrun, hcopied⟩ := runOps_copyByte h dir (chunk_le false hranges hcopy)
  have hsize' : m'.regs regs.size = BitVec.ofNat 32 (k + 1) + 0 := by
    rw [hcopied.size, hsize]
  refine ⟨m', hrun, ?_, ?_, ?_⟩
  · rw [BackJump.taken, hsize']
    exact ofNat_succ_ne_one (by omega)
  · exact (hcopy.step false hranges hcopied).setReg (.inr (.inr (.inl rfl)))
      (ne_of_isDATA h.src_address h.size_data) (ne_of_isDATA h.dst_address h.size_data) _
  · rw [BackJump.exec, setReg_regs, Function.update_self, hsize', ofNat_succ_sub_one]

/-- An address is odd as a number. -/
theorem isOdd_eq (a : BitVec 32) : isOdd a = decide (a.toNat % 2 = 1) := by
  rw [isOdd, BitVec.getLsbD, Nat.testBit_zero]

/-- Eight bytes further on. -/
theorem isOdd_step_eight (dir : CopyDirection) (a : BitVec 32) :
    isOdd (a + dir.step true) = isOdd a := by
  have hstep : (dir.step true).toNat % 2 = 0 := by cases dir <;> decide
  rw [isOdd_eq, isOdd_eq, BitVec.toNat_add]
  congr 1
  exact propext (by omega)

/-- One byte further on. -/
theorem isOdd_step_byte (dir : CopyDirection) (a : BitVec 32) :
    isOdd (a + dir.step false) = !isOdd a := by
  have hstep : (dir.step false).toNat % 2 = 1 := by cases dir <;> decide
  rw [isOdd_eq, isOdd_eq, BitVec.toNat_add, ← decide_not]
  congr 1
  exact propext (by omega)

/-- A chunk of eight bytes is aligned if the pointer is. -/
theorem isOdd_chunk_eight (dir : CopyDirection) (a : BitVec 32) :
    isOdd (dir.chunk true a) = isOdd a := by
  cases dir with
  | forward => rfl
  | reverse => exact isOdd_step_eight .reverse a

/-- Both pointers are even. -/
def EvenPointers (regs : CopyRegs) (m : Machine) : Prop :=
  isOdd (m.regs regs.src) = false ∧ isOdd (m.regs regs.dst) = false

/-- Counting by eight. -/
theorem ofNat_sub_eight (k : ℕ) :
    BitVec.ofNat 32 (k + 8) + (-8 : BitVec 16).signExtend 32 = BitVec.ofNat 32 k := by
  have hsum : BitVec.ofNat 32 8 + (-8 : BitVec 16).signExtend 32 = 0 := by decide
  rw [BitVec.ofNat_add, BitVec.add_assoc, hsum]
  exact BitVec.add_zero _

/-- A comparison with a constant. -/
theorem setWidth_le_ofNat_iff {k : ℕ} (c : ℕ) (hk : k < 2 ^ 32) (hc : c < 2 ^ 4) :
    (BitVec.ofNat 4 c).setWidth 32 ≤ BitVec.ofNat 32 k ↔ c ≤ k := by
  rw [BitVec.le_def, BitVec.toNat_setWidth, BitVec.toNat_ofNat, BitVec.toNat_ofNat,
    Nat.mod_eq_of_lt hk, Nat.mod_eq_of_lt hc, Nat.mod_eq_of_lt (by omega)]

/-- **The loop over eight bytes** leaves fewer than eight. -/
theorem runLoop_copyEight (h : regs.Valid) (hranges : CopyRanges dir dst src n)
    (hn : n < 2 ^ 32) (hleft : 8 ≤ left) (hlimit : left ≤ limit) (heven : EvenPointers regs m)
    (hstate : CopyLeft regs dir start dst src n left m) :
    ∃ m' left', runLoop (copyEight dir regs) (.JGEU_Da_const4zx_disp15sx2 regs.size 8) limit m =
        .ok m' ∧ left' ≤ left ∧ CopyLeft regs dir start dst src n left' m' := by
  let P : ℕ → Machine → Prop := fun k m => ∃ left', left' ≤ left ∧ left' / 8 = k ∧
    EvenPointers regs m ∧ CopyLeft regs dir start dst src n left' m
  have hcount : left / 8 ≤ limit := (Nat.div_le_self left 8).trans hlimit
  have hend : ∃ m', runLoop (copyEight dir regs) (.JGEU_Da_const4zx_disp15sx2 regs.size 8) limit m =
      .ok m' ∧ P 0 m' := by
    refine runLoop_of_steps (fun k m hP => ?_) (Nat.div_pos hleft (by decide)) hcount
      ⟨left, le_rfl, rfl, heven, hstate⟩
    obtain ⟨left', hle, hdiv, ⟨hsrcEven, hdstEven⟩, hcopy, hsize⟩ := hP
    obtain ⟨left'', rfl⟩ : ∃ l, left' = l + 8 := ⟨left' - 8, by omega⟩
    have hle' := hcopy.le
    have hwrap := chunk_le true hranges hcopy
    obtain ⟨m', hrun, hcopied⟩ := runOps_copyEight h dir
      ((isOdd_chunk_eight dir _).trans hsrcEven) ((isOdd_chunk_eight dir _).trans hdstEven) hwrap
    have hsize' : m'.regs regs.size = BitVec.ofNat 32 left'' := by
      rw [hcopied.size, hsize, ofNat_sub_eight]
    refine ⟨m', hrun, ?_, left'', by omega, by omega, ⟨?_, ?_⟩, ?_, hsize'⟩
    · rw [BackJump.taken, hsize', decide_eq_true_iff]
      have hlt : left'' < 2 ^ 32 := by omega
      have hiff := setWidth_le_ofNat_iff 8 hlt (by decide)
      rw [show BitVec.ofNat 4 8 = 8 from rfl] at hiff
      rw [hiff]
      omega
    · rw [BackJump.exec, hcopied.src, isOdd_step_eight, hsrcEven]
    · rw [BackJump.exec, hcopied.dst, isOdd_step_eight, hdstEven]
    · exact hcopy.step true hranges hcopied
  obtain ⟨m', hrun, left', hle, -, -, hstate'⟩ := hend
  exact ⟨m', left', hrun, hle, hstate'⟩

end Loops

/-! ### The code for at least eight bytes -/

/-- Behind a piece of code fewer bytes are left. -/
def CopiesOn (extensionRequest : Machine → Option Machine) (limit : ℕ) (regs : CopyRegs)
    (dir : CopyDirection) (start : Machine) (dst src : BitVec 32) (n left : ℕ)
    (piece : List BulkInstr) (m : Machine) : Prop :=
  ∃ m' left', (∀ code, runBulk extensionRequest limit (piece ++ code) m =
      runBulk extensionRequest limit code m') ∧
    left' ≤ left ∧ CopyLeft regs dir start dst src n left' m'

section Eights

variable (extensionRequest : Machine → Option Machine) {limit : ℕ} {regs : CopyRegs}
  {dir : CopyDirection} {start : Machine} {dst src : BitVec 32} {n left : ℕ} {m : Machine}

/-- The number of bytes that are left is compared with a constant. -/
theorem lessThan_taken {c : ℕ} (hc : c < 2 ^ 4) (hn : left < 2 ^ 32)
    (hsize : m.regs regs.size = BitVec.ofNat 32 left) :
    (CondJump.JLTU_Da_const4zx_disp15sx2 regs.size (BitVec.ofNat 4 c)).taken m =
      decide (left < c) := by
  have hiff := setWidth_le_ofNat_iff c hn hc
  rw [CondJump.taken, hsize, decide_eq_decide]
  rw [← BitVec.not_le, hiff]
  exact Nat.not_le

/-- The loop over eight bytes is executed. -/
theorem copiesOn_eightsLoop (h : regs.Valid) (hranges : CopyRanges dir dst src n)
    (hn : n < 2 ^ 32) (hleft : 8 ≤ left) (hlimit : left ≤ limit) (heven : EvenPointers regs m)
    (hstate : CopyLeft regs dir start dst src n left m) :
    CopiesOn extensionRequest limit regs dir start dst src n left (eightsLoop dir regs) m := by
  obtain ⟨m', left', hrun, hle, hstate'⟩ :=
    runLoop_copyEight h hranges hn hleft hlimit heven hstate
  exact ⟨m', left', fun code => runBulk_loop hrun code, hle, hstate'⟩

/-- Two odd pointers are made even, and the loop is executed unless fewer than eight bytes are
left. -/
theorem copiesOn_align (h : regs.Valid) (hranges : CopyRanges dir dst src n) (hn : n < 2 ^ 32)
    (hleft : 8 ≤ left) (hlimit : left ≤ limit) {checkAfter : Bool}
    (hcheck : checkAfter = false → 9 ≤ left)
    (hodd : isOdd (m.regs regs.src) = true ∧ isOdd (m.regs regs.dst) = true)
    (hstate : CopyLeft regs dir start dst src n left m) :
    CopiesOn extensionRequest limit regs dir start dst src n left
      (alignCode dir checkAfter regs ++ eightsLoop dir regs) m := by
  obtain ⟨left, rfl⟩ : ∃ l, left = l + 1 := ⟨left - 1, by omega⟩
  obtain ⟨hcopy, hsize⟩ := hstate
  have hle := hcopy.le
  obtain ⟨m1, hrun, hcopied⟩ := runOps_alignByte h dir (chunk_le false hranges hcopy)
  have hcopy1 := hcopy.step false hranges hcopied
  have hsize1 : m1.regs regs.size = BitVec.ofNat 32 left := by
    have hsum : BitVec.ofNat 32 1 + (-1 : BitVec 16).signExtend 32 = 0 := by decide
    rw [hcopied.size, hsize, BitVec.ofNat_add, BitVec.add_assoc, hsum]
    exact BitVec.add_zero _
  have heven1 : EvenPointers regs m1 := by
    refine ⟨?_, ?_⟩
    · rw [hcopied.src, isOdd_step_byte, hodd.1]
      rfl
    · rw [hcopied.dst, isOdd_step_byte, hodd.2]
      rfl
  have htaken : (lessThan8 regs).taken m1 = decide (left < 8) :=
    lessThan_taken (by decide) (by omega) hsize1
  have hloop : 8 ≤ left → CopiesOn extensionRequest limit regs dir start dst src n left
      (eightsLoop dir regs) m1 := fun hleft' =>
    copiesOn_eightsLoop extensionRequest h hranges hn hleft' (by omega) heven1 ⟨hcopy1, hsize1⟩
  by_cases hleft' : 8 ≤ left
  · obtain ⟨m', left', hrest, hle', hstate'⟩ := hloop hleft'
    refine ⟨m', left', fun code => ?_, by omega, hstate'⟩
    have hnot : (lessThan8 regs).taken m1 = false := by
      rw [htaken]
      exact decide_eq_false (by omega)
    rw [alignCode, List.append_assoc, List.append_assoc, runBulk_ops hrun]
    cases checkAfter with
    | false => exact hrest code
    | true =>
        rw [if_pos rfl, List.singleton_append, runBulk_jump_of_not hnot]
        exact hrest code
  · have hcheck' : checkAfter = true := by
      cases checkAfter with
      | true => rfl
      | false => exact absurd (hcheck rfl) (by omega)
    refine ⟨m1, left, fun code => ?_, by omega, hcopy1, hsize1⟩
    have hyes : (lessThan8 regs).taken m1 = true := by
      rw [htaken]
      exact decide_eq_true (by omega)
    rw [alignCode, List.append_assoc, List.append_assoc, runBulk_ops hrun, hcheck', if_pos rfl,
      List.singleton_append, runBulk_jump hyes]

/-- **The code for at least eight bytes.** -/
theorem copiesOn_atLeast8 (h : regs.Valid) (hranges : CopyRanges dir dst src n)
    (hn : n < 2 ^ 32) (hleft : 8 ≤ left) (hlimit : left ≤ limit) {checkAfter : Bool}
    (hcheck : checkAfter = false → 9 ≤ left)
    (hscratch : m.regs regs.scratch = m.regs regs.src)
    (hext : m.regs regs.extScratch = m.regs regs.dst)
    (hstate : CopyLeft regs dir start dst src n left m) :
    CopiesOn extensionRequest limit regs dir start dst src n left (atLeast8 dir checkAfter regs)
      m := by
  obtain ⟨hcopy, hsize⟩ := hstate
  let m1 := m.setReg regs.scratch (m.regs regs.src ^^^ m.regs regs.dst)
  have hsrcNe : regs.src ≠ regs.scratch := ne_of_isDATA h.src_address h.scratch_data
  have hdstNe : regs.dst ≠ regs.scratch := ne_of_isDATA h.dst_address h.scratch_data
  have hexec : (BulkOp.XOR_Da_Db regs.scratch regs.extScratch).exec m = m1 := by
    rw [BulkOp.exec, hscratch, hext]
  have hkept : ∀ r, r ≠ regs.scratch → m1.regs r = m.regs r := fun r hr =>
    Function.update_of_ne hr _ _
  have hstate1 : CopyLeft regs dir start dst src n left m1 :=
    ⟨hcopy.setReg (.inr (.inr (.inr (.inl rfl)))) hsrcNe hdstNe _, (hkept _ h.size_ne.1).trans hsize⟩
  have hsrc1 := hkept _ hsrcNe
  have hdst1 := hkept _ hdstNe
  have hext1 : m1.regs regs.extScratch = m.regs regs.dst :=
    (hkept _ (REG.getOtherExtReg_ne _)).trans hext
  have hxor : (CondJump.JNZT_Da_n_disp15sx2 regs.scratch 0).taken m1 =
      (isOdd (m.regs regs.src) ^^ isOdd (m.regs regs.dst)) := by
    rw [CondJump.taken, setReg_regs, Function.update_self, BitVec.getLsbD_xor]
    rfl
  have hzero : (CondJump.JZT_Da_n_disp15sx2 regs.extScratch 0).taken m1 =
      !isOdd (m.regs regs.dst) := by
    rw [CondJump.taken, hext1]
    rfl
  have hfirst : ∀ code, runBulk extensionRequest limit (atLeast8 dir checkAfter regs ++ code) m =
      runBulk extensionRequest limit (.jump (.JNZT_Da_n_disp15sx2 regs.scratch 0)
        (sameAlignment dir checkAfter regs).length ::
          (sameAlignment dir checkAfter regs ++ code)) m1 := fun code => by
    rw [← hexec]
    exact runBulk_op rfl _
  by_cases hsame : isOdd (m.regs regs.src) = isOdd (m.regs regs.dst)
  · rw [hsame, Bool.xor_self] at hxor
    cases hdstOdd : isOdd (m.regs regs.dst) with
    | false =>
        -- both are even, and the byte that aligns them is skipped
        have heven1 : EvenPointers regs m1 := by
          rw [EvenPointers, hsrc1, hdst1, hsame]
          exact ⟨hdstOdd, hdstOdd⟩
        rw [hdstOdd] at hzero
        obtain ⟨m', left', hrest, hle', hstate'⟩ :=
          copiesOn_eightsLoop extensionRequest h hranges hn hleft hlimit heven1 hstate1
        refine ⟨m', left', fun code => ?_, hle', hstate'⟩
        rw [hfirst, runBulk_jump_of_not hxor, sameAlignment, List.cons_append, List.append_assoc,
          runBulk_jump hzero]
        exact hrest code
    | true =>
        have hodd1 : isOdd (m1.regs regs.src) = true ∧ isOdd (m1.regs regs.dst) = true := by
          rw [hsrc1, hdst1, hsame]
          exact ⟨hdstOdd, hdstOdd⟩
        rw [hdstOdd] at hzero
        obtain ⟨m', left', hrest, hle', hstate'⟩ :=
          copiesOn_align extensionRequest h hranges hn hleft hlimit hcheck hodd1 hstate1
        refine ⟨m', left', fun code => ?_, hle', hstate'⟩
        rw [hfirst, runBulk_jump_of_not hxor, sameAlignment, List.cons_append,
          runBulk_jump_of_not hzero]
        exact hrest code
  · have htaken : (isOdd (m.regs regs.src) ^^ isOdd (m.regs regs.dst)) = true := by
      revert hsame
      cases isOdd (m.regs regs.src) <;> cases isOdd (m.regs regs.dst) <;> decide
    rw [htaken] at hxor
    exact ⟨m1, left, fun code => by rw [hfirst, runBulk_jump hxor], le_rfl, hstate1⟩

/-- **The code before the loop over single bytes**: fewer bytes are left. -/
theorem copiesOn_copyEights (h : regs.Valid) (hranges : CopyRanges dir dst src n)
    (hn : n < 2 ^ 32) (hlimit : left ≤ limit) {checkBefore checkAfter : Bool}
    (hbefore : checkBefore = false → 8 ≤ left) (hafter : checkAfter = false → 9 ≤ left)
    (hscratch : m.regs regs.scratch = m.regs regs.src)
    (hext : m.regs regs.extScratch = m.regs regs.dst)
    (hstate : CopyLeft regs dir start dst src n left m) :
    CopiesOn extensionRequest limit regs dir start dst src n left
      (copyEights dir checkBefore checkAfter regs) m := by
  have hle := hstate.1.le
  have htaken : (lessThan8 regs).taken m = decide (left < 8) :=
    lessThan_taken (by decide) (by omega) hstate.2
  by_cases hleft : 8 ≤ left
  · obtain ⟨m', left', hrest, hle', hstate'⟩ := copiesOn_atLeast8 extensionRequest h hranges hn
      hleft hlimit hafter hscratch hext hstate
    refine ⟨m', left', fun code => ?_, hle', hstate'⟩
    have hnot : (lessThan8 regs).taken m = false := by
      rw [htaken]
      exact decide_eq_false (by omega)
    cases checkBefore with
    | false => exact hrest code
    | true =>
        rw [copyEights, if_pos rfl, List.singleton_append, List.cons_append,
          runBulk_jump_of_not hnot]
        exact hrest code
  · have hcheck : checkBefore = true := by
      cases checkBefore with
      | true => rfl
      | false => exact absurd (hbefore rfl) hleft
    have hyes : (lessThan8 regs).taken m = true := by
      rw [htaken]
      exact decide_eq_true (by omega)
    refine ⟨m, left, fun code => ?_, le_rfl, hstate⟩
    rw [copyEights, hcheck, if_pos rfl, List.singleton_append, List.cons_append,
      runBulk_jump hyes]

end Eights

/-! ### The whole copy -/

section Memcpy

variable (extensionRequest : Machine → Option Machine) {limit : ℕ} {regs : CopyRegs}
  {dir : CopyDirection} {start : Machine} {dst src : BitVec 32} {n left : ℕ} {m : Machine}

/-- Execution copied a range, and wrote no register besides those of the copy. -/
structure Copied (regs : CopyRegs) (dst src : BitVec 32) (n : ℕ) (m m' : Machine) : Prop where
  mem : m'.mem = copyRange m.mem dst src 0 n
  kept : ∀ r, ¬ regs.Written r → m'.regs r = m.regs r

/-- Nothing is left. -/
theorem CopyState.copied (h : CopyState regs dir start dst src n 0 m) :
    Copied regs dst src n start m := by
  refine ⟨?_, h.kept⟩
  rw [h.memory]
  cases dir with
  | forward => rfl
  | reverse => rfl

/-- The single bytes that are left are copied, and the code behind the loop that is skipped if
there are none is left. -/
theorem runBulk_copyBytes (h : regs.Valid) (hranges : CopyRanges dir dst src n)
    (hn : n < 2 ^ 32) (hlimit : left ≤ limit)
    (hstate : CopyLeft regs dir start dst src n left m) {skipped code : List BulkInstr}
    (hcode : ∀ m, runBulk extensionRequest limit (skipped ++ code) m =
      runBulk extensionRequest limit code m) :
    ∃ m', runBulk extensionRequest limit
        (.jump (noBytes regs) (bytesLoop dir regs :: skipped).length ::
          (bytesLoop dir regs :: skipped ++ code)) m =
        runBulk extensionRequest limit code m' ∧ Copied regs dst src n start m' := by
  have hle := hstate.1.le
  have htaken : (noBytes regs).taken m = decide (left < 1) :=
    lessThan_taken (by decide) (by omega) hstate.2
  rcases Nat.eq_zero_or_pos left with rfl | hpos
  · exact ⟨m, runBulk_jump htaken (bytesLoop dir regs :: skipped) code, hstate.1.copied⟩
  · obtain ⟨m', hrun, hstate'⟩ := runLoop_copyByte h hranges hn hpos hlimit hstate
    have hnot : (noBytes regs).taken m = false := by
      rw [htaken]
      exact decide_eq_false (by omega)
    refine ⟨m', ?_, hstate'.1.copied⟩
    rw [runBulk_jump_of_not hnot, List.cons_append, bytesLoop, runBulk_loop hrun, hcode]

/-- The pointers of a copy from the end. -/
theorem runOps_reverse (h : regs.Valid) (hscratch : m.regs regs.scratch = src)
    (hext : m.regs regs.extScratch = dst) (hsize : m.regs regs.size = BitVec.ofNat 32 n)
    (hmem : m.mem = start.mem) (hkept : ∀ r, ¬ regs.Written r → m.regs r = start.regs r) :
    ∃ m', runOps [.plain (.ADD_Da_Db regs.scratch regs.size), .MOVA_Aa_Db regs.src regs.scratch,
        .plain (.ADD_Da_Db regs.extScratch regs.size), .MOVA_Aa_Db regs.dst regs.extScratch] m =
        some m' ∧
      m'.regs regs.scratch = m'.regs regs.src ∧ m'.regs regs.extScratch = m'.regs regs.dst ∧
      CopyLeft regs .reverse start dst src n n m' := by
  have hsrcScratch : regs.src ≠ regs.scratch := ne_of_isDATA h.src_address h.scratch_data
  have hdstScratch : regs.dst ≠ regs.scratch := ne_of_isDATA h.dst_address h.scratch_data
  have hextData : regs.extScratch.isDATA = true := by
    rw [CopyRegs.extScratch, REG.isDATA_getOtherExtReg, h.scratch_data]
  have hsrcExt : regs.src ≠ regs.extScratch := ne_of_isDATA h.src_address hextData
  have hdstExt : regs.dst ≠ regs.extScratch := ne_of_isDATA h.dst_address hextData
  have hscratchExt : regs.scratch ≠ regs.extScratch := (REG.getOtherExtReg_ne _).symm
  have hsrcSize : regs.src ≠ regs.size := ne_of_isDATA h.src_address h.size_data
  have hdstSize : regs.dst ≠ regs.size := ne_of_isDATA h.dst_address h.size_data
  obtain ⟨hsizeScratch, hsizeExt⟩ := h.size_ne
  have hdstSrc := h.dst_ne_src
  let srcEnd := src + BitVec.ofNat 32 n
  let dstEnd := dst + BitVec.ofNat 32 n
  let m1 := m.add regs.scratch (m.regs regs.scratch) (m.regs regs.size)
  let m2 := m1.setReg regs.src (m1.regs regs.scratch)
  let m3 := m2.add regs.extScratch (m2.regs regs.extScratch) (m2.regs regs.size)
  let m4 := m3.setReg regs.dst (m3.regs regs.extScratch)
  have hscratch1 : m1.regs regs.scratch = srcEnd := by
    rw [add_regs, Function.update_self, hscratch, hsize]
  have hext3 : m3.regs regs.extScratch = dstEnd := by
    rw [add_regs, Function.update_self, setReg_regs, Function.update_of_ne hsrcExt.symm,
      add_regs, Function.update_of_ne hscratchExt.symm, hext,
      Function.update_of_ne hsrcSize.symm, Function.update_of_ne hsizeScratch, hsize]
  have hsrc4 : m4.regs regs.src = srcEnd := by
    rw [setReg_regs, Function.update_of_ne hdstSrc.symm, add_regs, Function.update_of_ne hsrcExt,
      setReg_regs, Function.update_self, hscratch1]
  have hscratch4 : m4.regs regs.scratch = srcEnd := by
    rw [setReg_regs, Function.update_of_ne hdstScratch.symm, add_regs,
      Function.update_of_ne hscratchExt, setReg_regs, Function.update_of_ne hsrcScratch.symm,
      hscratch1]
  have hdst4 : m4.regs regs.dst = dstEnd := by
    rw [setReg_regs, Function.update_self, hext3]
  have hext4 : m4.regs regs.extScratch = dstEnd := by
    rw [setReg_regs, Function.update_of_ne hdstExt.symm, hext3]
  have hsize4 : m4.regs regs.size = BitVec.ofNat 32 n := by
    rw [setReg_regs, Function.update_of_ne hdstSize.symm, add_regs,
      Function.update_of_ne hsizeExt, setReg_regs, Function.update_of_ne hsrcSize.symm, add_regs,
      Function.update_of_ne hsizeScratch, hsize]
  refine ⟨m4, rfl, hscratch4.trans hsrc4.symm, hext4.trans hdst4.symm,
    ⟨le_rfl, hsrc4, hdst4, ?_, fun r hr => ?_⟩, hsize4⟩
  · rw [CopyDirection.copied, copyRange_self]
    exact hmem
  · have hkept4 : m4.regs r = m.regs r := by
      simp only [CopyRegs.Written, not_or] at hr
      obtain ⟨hrDst, hrSrc, -, hrScratch, hrExt⟩ := hr
      rw [setReg_regs, Function.update_of_ne hrDst, add_regs, Function.update_of_ne hrExt,
        setReg_regs, Function.update_of_ne hrSrc, add_regs, Function.update_of_ne hrScratch]
    exact hkept4.trans (hkept r hr)

/-- **The whole copy** is exact for ranges that do not wrap around, in the right direction for
any overlap. -/
theorem runBulk_memcpyCode (h : regs.Valid) {eights : CopyDirection → List BulkInstr}
    (hn : n < 2 ^ 32) (hlimit : n ≤ limit) (hdstEnd : dst.toNat + n ≤ 2 ^ 32)
    (hsrcEnd : src.toNat + n ≤ 2 ^ 32) (hdst : m.regs regs.dst = dst)
    (hsrc : m.regs regs.src = src) (hsize : m.regs regs.size = BitVec.ofNat 32 n)
    (heights : ∀ dir m', CopyRanges dir dst src n → m'.regs regs.scratch = m'.regs regs.src →
      m'.regs regs.extScratch = m'.regs regs.dst → CopyLeft regs dir m dst src n n m' →
      CopiesOn extensionRequest limit regs dir m dst src n n (eights dir) m') :
    ∃ m', runBulk extensionRequest limit (memcpyCode eights regs) m = .ok m' ∧
      Copied regs dst src n m m' := by
  have hsrcScratch : regs.src ≠ regs.scratch := ne_of_isDATA h.src_address h.scratch_data
  have hdstScratch : regs.dst ≠ regs.scratch := ne_of_isDATA h.dst_address h.scratch_data
  have hextData : regs.extScratch.isDATA = true := by
    rw [CopyRegs.extScratch, REG.isDATA_getOtherExtReg, h.scratch_data]
  have hsrcExt : regs.src ≠ regs.extScratch := ne_of_isDATA h.src_address hextData
  have hdstExt : regs.dst ≠ regs.extScratch := ne_of_isDATA h.dst_address hextData
  have hscratchExt : regs.scratch ≠ regs.extScratch := (REG.getOtherExtReg_ne _).symm
  let m1 := (m.setReg regs.scratch src).setReg regs.extScratch dst
  have hstart : runBulk extensionRequest limit (memcpyCode eights regs) m =
      runBulk extensionRequest limit (.jump
        (.JLTU_Da_Db_disp15sx2 regs.scratch regs.extScratch)
        (forwardCode (eights .forward) (reverseCode (eights .reverse) regs) regs).length ::
        (forwardCode (eights .forward) (reverseCode (eights .reverse) regs) regs ++
          reverseCode (eights .reverse) regs)) m1 := by
    have hexec : runOps [.MOVD_Da_Ab regs.scratch regs.src,
        .MOVD_Da_Ab regs.extScratch regs.dst] m = some m1 := by
      change some _ = some m1
      rw [BulkOp.exec, BulkOp.exec, hsrc, setReg_regs, Function.update_of_ne hdstScratch, hdst]
    exact runBulk_ops hexec _
  have hscratch1 : m1.regs regs.scratch = src := by
    rw [setReg_regs, Function.update_of_ne hscratchExt, setReg_regs, Function.update_self]
  have hext1 : m1.regs regs.extScratch = dst := Function.update_self _ _ _
  have hkept1 : ∀ r, r ≠ regs.scratch → r ≠ regs.extScratch → m1.regs r = m.regs r :=
    fun r hr hr' => by
      rw [setReg_regs, Function.update_of_ne hr', setReg_regs, Function.update_of_ne hr]
  have hwritten1 : ∀ r, ¬ regs.Written r → m1.regs r = m.regs r := fun r hr => by
    simp only [CopyRegs.Written, not_or] at hr
    exact hkept1 r hr.2.2.2.1 hr.2.2.2.2
  have hsrc1 : m1.regs regs.src = src := (hkept1 _ hsrcScratch hsrcExt).trans hsrc
  have hdst1 : m1.regs regs.dst = dst := (hkept1 _ hdstScratch hdstExt).trans hdst
  have hsize1 : m1.regs regs.size = BitVec.ofNat 32 n :=
    (hkept1 _ h.size_ne.1 h.size_ne.2).trans hsize
  have htaken : (CondJump.JLTU_Da_Db_disp15sx2 regs.scratch regs.extScratch).taken m1 =
      decide (src < dst) := by
    rw [CondJump.taken, hscratch1, hext1]
  rw [hstart]
  by_cases hlt : src < dst
  · have hranges : CopyRanges .reverse dst src n := ⟨hdstEnd, hsrcEnd, hlt⟩
    rw [runBulk_jump (by rw [htaken]; exact decide_eq_true hlt)]
    obtain ⟨m2, hrun2, hscratch2, hext2, hstate2⟩ :=
      runOps_reverse h hscratch1 hext1 hsize1 (show m1.mem = m.mem from rfl) hwritten1
    obtain ⟨m3, left', hrest, hle, hstate3⟩ := heights .reverse m2 hranges hscratch2 hext2 hstate2
    have hnone : ∀ m, runBulk extensionRequest limit ([] ++ []) m =
        runBulk extensionRequest limit [] m := fun _ => rfl
    obtain ⟨m4, hrun4, hmem⟩ := runBulk_copyBytes extensionRequest h hranges hn
      (hle.trans hlimit) hstate3 hnone
    refine ⟨m4, ?_, hmem⟩
    rw [reverseCode]
    exact (runBulk_ops hrun2 _).trans ((hrest _).trans hrun4)
  · have hranges : CopyRanges .forward dst src n :=
      ⟨hdstEnd, hsrcEnd, BitVec.not_lt.mp hlt⟩
    rw [runBulk_jump_of_not (by rw [htaken]; exact decide_eq_false hlt)]
    have hstate1 : CopyLeft regs .forward m dst src n n m1 := by
      refine ⟨⟨le_rfl, ?_, ?_, ?_, hwritten1⟩, hsize1⟩
      · rw [hsrc1, CopyDirection.offset, Nat.sub_self]
        exact (BitVec.add_zero src).symm
      · rw [hdst1, CopyDirection.offset, Nat.sub_self]
        exact (BitVec.add_zero dst).symm
      · rw [CopyDirection.copied, Nat.sub_self, copyRange_self]
        rfl
    obtain ⟨m2, left', hrest, hle, hstate2⟩ := heights .forward m1 hranges
      (hscratch1.trans hsrc1.symm) (hext1.trans hdst1.symm) hstate1
    have hjump : ∀ m, runBulk extensionRequest limit
        ([.jump .J_disp24sx2 (reverseCode (eights .reverse) regs).length] ++
          reverseCode (eights .reverse) regs ++ []) m =
        runBulk extensionRequest limit [] m := fun m => by
      rw [List.append_assoc, List.singleton_append]
      exact runBulk_jump rfl _ []
    obtain ⟨m3, hrun, hmem⟩ := runBulk_copyBytes extensionRequest h hranges hn (hle.trans hlimit)
      hstate2 hjump
    refine ⟨m3, ?_, hmem⟩
    rw [forwardCode, List.append_assoc, hrest]
    rw [List.append_nil] at hrun
    exact hrun

/-- **`emitMemcpyNoBoundsCheck`** is exact. -/
theorem runBulk_emitMemcpyNoBoundsCheck (h : regs.Valid) (hn : n < 2 ^ 32) (hlimit : n ≤ limit)
    (hdstEnd : dst.toNat + n ≤ 2 ^ 32) (hsrcEnd : src.toNat + n ≤ 2 ^ 32)
    (hdst : m.regs regs.dst = dst) (hsrc : m.regs regs.src = src)
    (hsize : m.regs regs.size = BitVec.ofNat 32 n) :
    ∃ m', runBulk extensionRequest limit (emitMemcpyNoBoundsCheck regs) m = .ok m' ∧
      Copied regs dst src n m m' :=
  runBulk_memcpyCode extensionRequest h hn hlimit hdstEnd hsrcEnd hdst hsrc hsize
    fun _ _ hranges hscratch hext hstate =>
      copiesOn_copyEights extensionRequest h hranges hn hlimit nofun nofun hscratch hext hstate

/-- **`emitMemcpyWithConstSizeNoBoundsCheck`** is exact for the constant size. -/
theorem runBulk_emitMemcpyWithConstSizeNoBoundsCheck (h : regs.Valid) {sizeToCopy : BitVec 32}
    (hlimit : sizeToCopy.toNat ≤ limit) (hdstEnd : dst.toNat + sizeToCopy.toNat ≤ 2 ^ 32)
    (hsrcEnd : src.toNat + sizeToCopy.toNat ≤ 2 ^ 32)
    (hdst : m.regs regs.dst = dst) (hsrc : m.regs regs.src = src)
    (hsize : m.regs regs.size = sizeToCopy) :
    ∃ m', runBulk extensionRequest limit (emitMemcpyWithConstSizeNoBoundsCheck regs sizeToCopy)
        m = .ok m' ∧
      Copied regs dst src sizeToCopy.toNat m m' := by
  have hsize' : m.regs regs.size = BitVec.ofNat 32 sizeToCopy.toNat := by
    rw [hsize, BitVec.ofNat_toNat, BitVec.setWidth_eq]
  refine runBulk_memcpyCode extensionRequest h sizeToCopy.isLt hlimit hdstEnd hsrcEnd hdst hsrc
    hsize' fun dir m' hranges hscratch hext hstate => ?_
  have hnat : (8 : BitVec 32).toNat = 8 := rfl
  split
  · case _ hle =>
      rw [BitVec.le_def, hnat] at hle
      refine copiesOn_copyEights extensionRequest h hranges sizeToCopy.isLt hlimit
        (fun _ => hle) (fun hne => ?_) hscratch hext hstate
      have hne' : sizeToCopy.toNat ≠ 8 := fun heq =>
        (beq_eq_false_iff_ne.mp hne) (BitVec.eq_of_toNat_eq (heq.trans hnat.symm))
      omega
  · exact ⟨m', sizeToCopy.toNat, fun _ => rfl, le_rfl, hstate⟩

end Memcpy

end TriCore

end WasmCompiler
