import Mathlib.Data.BitVec
import Mathlib.Logic.Function.Basic

/-!
# Byte Memory

A memory of bytes with 32-bit addresses, and words in it, the lowest byte first. Addresses wrap
around, so that a word may lie across the end of the address space.

## Main results

* `readWord_storeWord`: a word that was written is read.
* `readWord_storeWord_of_disjoint`, `storeWord_of_not_inBlock`: writing a word changes nothing
  else.
-/

namespace WasmCompiler

/-- The bytes of a memory. -/
abbrev ByteMemory : Type := BitVec 32 → BitVec 8

namespace ByteMemory

/-- An address is one of those that begin at `a` and are `size` many. -/
def InBlock (a : BitVec 32) (size : ℕ) (x : BitVec 32) : Prop := (x - a).toNat < size

instance (a : BitVec 32) (size : ℕ) (x : BitVec 32) : Decidable (InBlock a size x) :=
  inferInstanceAs (Decidable (_ < _))

/-- Two blocks have no address in common. -/
def Disjoint (a : BitVec 32) (size : ℕ) (b : BitVec 32) (size' : ℕ) : Prop :=
  ∀ x, InBlock a size x → ¬ InBlock b size' x

/-- Blocks are disjoint in either order. -/
theorem Disjoint.symm {a b : BitVec 32} {size size' : ℕ} (h : Disjoint a size b size') :
    Disjoint b size' a size :=
  fun x hb ha => h x ha hb

/-- An address in a block is at an offset from its beginning. -/
theorem inBlock_iff {a x : BitVec 32} {size : ℕ} :
    InBlock a size x ↔ ∃ i < size, x = a + BitVec.ofNat 32 i := by
  constructor
  · intro h
    refine ⟨(x - a).toNat, h, ?_⟩
    rw [BitVec.ofNat_toNat, BitVec.setWidth_eq, BitVec.add_comm, BitVec.sub_add_cancel]
  · rintro ⟨i, hi, rfl⟩
    rw [InBlock, BitVec.add_comm, BitVec.add_sub_cancel, BitVec.toNat_ofNat]
    exact lt_of_le_of_lt (Nat.mod_le _ _) hi

/-- The addresses at small offsets are in the block. -/
theorem inBlock_add {a : BitVec 32} {size i : ℕ} (hi : i < size) :
    InBlock a size (a + BitVec.ofNat 32 i) := by
  rw [InBlock, BitVec.add_comm, BitVec.add_sub_cancel, BitVec.toNat_ofNat]
  exact lt_of_le_of_lt (Nat.mod_le _ _) hi

/-- A part of a block. -/
theorem InBlock.of_add {a x : BitVec 32} {i n size : ℕ} (h : InBlock (a + BitVec.ofNat 32 i) n x)
    (hsize : i + n ≤ size) : InBlock a size x := by
  obtain ⟨j, hj, rfl⟩ := inBlock_iff.mp h
  refine inBlock_iff.mpr ⟨i + j, by omega, ?_⟩
  rw [BitVec.add_assoc, ← BitVec.ofNat_add]

/-! ### Words -/

/-- The word at an address. -/
def readWord (m : ByteMemory) (a : BitVec 32) : BitVec 32 :=
  m (a + 3) ++ m (a + 2) ++ m (a + 1) ++ m a

/-- A byte of a word. -/
def byteOf (w : BitVec 32) (i : ℕ) : BitVec 8 := w.extractLsb' (8 * i) 8

/-- Write a word to an address. -/
def storeWord (m : ByteMemory) (a : BitVec 32) (w : BitVec 32) : ByteMemory :=
  fun x => if (x - a).toNat < 4 then byteOf w (x - a).toNat else m x

/-- A word consists of its bytes. -/
theorem append_byteOf (w : BitVec 32) :
    byteOf w 3 ++ byteOf w 2 ++ byteOf w 1 ++ byteOf w 0 = w := by
  grind [byteOf]

/-- The bytes of a written word. -/
theorem storeWord_add (m : ByteMemory) (a w : BitVec 32) {i : ℕ} (hi : i < 4) :
    storeWord m a w (a + BitVec.ofNat 32 i) = byteOf w i := by
  have hsub : (a + BitVec.ofNat 32 i - a).toNat = i := by
    rw [BitVec.add_comm, BitVec.add_sub_cancel, BitVec.toNat_ofNat]
    omega
  rw [storeWord, hsub, if_pos hi]

/-- **Reading a word that was written.** -/
@[simp] theorem readWord_storeWord (m : ByteMemory) (a w : BitVec 32) :
    readWord (storeWord m a w) a = w := by
  have h0 := storeWord_add m a w (show 0 < 4 by decide)
  have h1 := storeWord_add m a w (show 1 < 4 by decide)
  have h2 := storeWord_add m a w (show 2 < 4 by decide)
  have h3 := storeWord_add m a w (show 3 < 4 by decide)
  rw [BitVec.add_zero] at h0
  refine Eq.trans ?_ (append_byteOf w)
  rw [readWord, h0]
  exact congrArg₂ _ (congrArg₂ _ (congrArg₂ _ h3 h2) h1) rfl

/-- Writing a word changes no other byte. -/
theorem storeWord_of_not_inBlock {m : ByteMemory} {a w x : BitVec 32} (h : ¬ InBlock a 4 x) :
    storeWord m a w x = m x :=
  if_neg h

/-- A word is read from its bytes. -/
theorem readWord_congr {m m' : ByteMemory} {a : BitVec 32}
    (h : ∀ x, InBlock a 4 x → m x = m' x) : readWord m a = readWord m' a := by
  have hbyte : ∀ i < 4, m (a + BitVec.ofNat 32 i) = m' (a + BitVec.ofNat 32 i) :=
    fun i hi => h _ (inBlock_add hi)
  have h0 := hbyte 0 (by decide)
  rw [BitVec.add_zero] at h0
  rw [readWord, readWord, h0]
  exact congrArg₂ _ (congrArg₂ _ (congrArg₂ _ (hbyte 3 (by decide)) (hbyte 2 (by decide)))
    (hbyte 1 (by decide))) rfl

/-- The words of a memory of zeros are zero. -/
theorem readWord_zero (a : BitVec 32) : readWord (fun _ => 0) a = 0 := by
  simp only [readWord]
  decide

/-- Writing a word elsewhere does not change a word. -/
theorem readWord_storeWord_of_disjoint {m : ByteMemory} {a b w : BitVec 32}
    (h : Disjoint a 4 b 4) : readWord (storeWord m b w) a = readWord m a :=
  readWord_congr fun x hx => storeWord_of_not_inBlock (h x hx)

end ByteMemory

end WasmCompiler
