import Mathlib.Tactic.IntervalCases
import WasmCompiler.ByteMemory

/-!
# Copied and Filled Ranges

Memory of which a range was copied from another range, or filled with a byte. A copy takes place
a few bytes at a time, from the front or from the end, while the ranges may overlap: what was
not copied yet is as it was, and so is what is read next.

## Main results

* `copyRange_forward`, `copyRange_backward`: the next bytes of a copy.
* `fillRange_append`: the next bytes that are filled.
* `storeByte_eq_copyRange`, `storeWord_eq_copyRange`, `storePair_eq_copyRange`: storing what was
  read is a copy.
-/

namespace WasmCompiler

namespace ByteMemory

/-- The bytes of a range are those of another range as it was before. -/
def copyRange (m : ByteMemory) (dst src : BitVec 32) (low high : ℕ) : ByteMemory :=
  fun x =>
    if dst.toNat + low ≤ x.toNat ∧ x.toNat < dst.toNat + high then m (src + (x - dst)) else m x

/-- The bytes of a range are all the same. -/
def fillRange (m : ByteMemory) (dst : BitVec 32) (size : ℕ) (b : BitVec 8) : ByteMemory :=
  fun x => if dst.toNat ≤ x.toNat ∧ x.toNat < dst.toNat + size then b else m x

/-- Write a byte to an address. -/
def storeByte (m : ByteMemory) (a : BitVec 32) (b : BitVec 8) : ByteMemory := Function.update m a b

/-- An address behind another one. -/
theorem toNat_add_ofNat {a : BitVec 32} {i : ℕ} (h : a.toNat + i < 2 ^ 32) :
    (a + BitVec.ofNat 32 i).toNat = a.toNat + i := by
  rw [BitVec.toNat_add, BitVec.toNat_ofNat, Nat.mod_eq_of_lt (show i < 2 ^ 32 by omega),
    Nat.mod_eq_of_lt h]

/-- No byte is copied. -/
theorem copyRange_self (m : ByteMemory) (dst src : BitVec 32) (low : ℕ) :
    copyRange m dst src low low = m := by
  funext x
  exact if_neg (by omega)

/-- No byte is filled. -/
theorem fillRange_zero (m : ByteMemory) (dst : BitVec 32) (b : BitVec 8) :
    fillRange m dst 0 b = m := by
  funext x
  exact if_neg (by omega)

/-- **The next bytes of a copy**, from the front: the source is not in front of the destination,
so that what was already copied is not read again. -/
theorem copyRange_forward (m : ByteMemory) {dst src : BitVec 32} {i w : ℕ}
    (hle : dst.toNat ≤ src.toNat) (hsrc : src.toNat + (i + w) ≤ 2 ^ 32) :
    copyRange (copyRange m dst src 0 i) (dst + BitVec.ofNat 32 i) (src + BitVec.ofNat 32 i) 0 w =
      copyRange m dst src 0 (i + w) := by
  rcases Nat.eq_zero_or_pos w with rfl | hw
  · rw [copyRange_self]
    rfl
  · have hdst : (dst + BitVec.ofNat 32 i).toNat = dst.toNat + i := toNat_add_ofNat (by omega)
    funext x
    have hsource : src + BitVec.ofNat 32 i + (x - (dst + BitVec.ofNat 32 i)) = src + (x - dst) := by
      grind
    simp only [copyRange, hdst, hsource, Nat.add_zero]
    by_cases hin : dst.toNat ≤ x.toNat ∧ x.toNat < dst.toNat + (i + w)
    · have hoffset : (x - dst).toNat = x.toNat - dst.toNat := BitVec.toNat_sub_of_le hin.1
      have haddress : (src + (x - dst)).toNat = src.toNat + (x.toNat - dst.toNat) := by
        rw [BitVec.toNat_add, hoffset, Nat.mod_eq_of_lt (by omega)]
      rw [if_pos hin]
      by_cases hnew : dst.toNat + i ≤ x.toNat
      · rw [if_pos (by omega), if_neg (by omega)]
      · rw [if_neg (by omega), if_pos (by omega)]
    · rw [if_neg hin, if_neg (by omega), if_neg (by omega)]

/-- **The next bytes of a copy**, from the end: the source is in front of the destination. -/
theorem copyRange_backward (m : ByteMemory) {dst src : BitVec 32} {low high w : ℕ}
    (hlt : src.toNat < dst.toNat) (hdst : dst.toNat + high ≤ 2 ^ 32) (hlow : low + w ≤ high) :
    copyRange (copyRange m dst src (low + w) high) (dst + BitVec.ofNat 32 low)
        (src + BitVec.ofNat 32 low) 0 w =
      copyRange m dst src low high := by
  rcases Nat.eq_zero_or_pos w with rfl | hw
  · rw [copyRange_self]
    rfl
  · have hdst' : (dst + BitVec.ofNat 32 low).toNat = dst.toNat + low := toNat_add_ofNat (by omega)
    funext x
    have hsource :
        src + BitVec.ofNat 32 low + (x - (dst + BitVec.ofNat 32 low)) = src + (x - dst) := by
      grind
    simp only [copyRange, hdst', hsource, Nat.add_zero]
    by_cases hin : dst.toNat + low ≤ x.toNat ∧ x.toNat < dst.toNat + high
    · have hoffset : (x - dst).toNat = x.toNat - dst.toNat :=
        BitVec.toNat_sub_of_le (by rw [BitVec.le_def]; omega)
      have haddress : (src + (x - dst)).toNat = src.toNat + (x.toNat - dst.toNat) := by
        rw [BitVec.toNat_add, hoffset, Nat.mod_eq_of_lt (by omega)]
      rw [if_pos hin]
      by_cases hnew : x.toNat < dst.toNat + (low + w)
      · rw [if_pos (by omega), if_neg (by omega)]
      · rw [if_neg (by omega), if_pos (by omega)]
    · rw [if_neg hin, if_neg (by omega), if_neg (by omega)]

/-- **The next bytes that are filled.** -/
theorem fillRange_append (m : ByteMemory) {dst : BitVec 32} {i w : ℕ} (b : BitVec 8)
    (hdst : dst.toNat + (i + w) ≤ 2 ^ 32) :
    fillRange (fillRange m dst i b) (dst + BitVec.ofNat 32 i) w b = fillRange m dst (i + w) b := by
  rcases Nat.eq_zero_or_pos w with rfl | hw
  · rw [fillRange_zero]
    rfl
  · have hdst' : (dst + BitVec.ofNat 32 i).toNat = dst.toNat + i := toNat_add_ofNat (by omega)
    funext x
    simp only [fillRange, hdst']
    by_cases hin : dst.toNat ≤ x.toNat ∧ x.toNat < dst.toNat + (i + w)
    · rw [if_pos hin]
      by_cases hnew : dst.toNat + i ≤ x.toNat
      · rw [if_pos (by omega)]
      · rw [if_neg (by omega), if_pos (by omega)]
    · rw [if_neg hin, if_neg (by omega), if_neg (by omega)]

/-- Storing a byte that was read copies it. -/
theorem storeByte_eq_copyRange (m : ByteMemory) (dst src : BitVec 32) :
    storeByte m dst (m src) = copyRange m dst src 0 1 := by
  funext x
  rw [storeByte, copyRange]
  by_cases hx : x = dst
  · subst hx
    rw [Function.update_self, if_pos (by omega), BitVec.sub_self, BitVec.add_zero]
  · have hne : x.toNat ≠ dst.toNat := fun h => hx (BitVec.eq_of_toNat_eq h)
    rw [Function.update_of_ne hx, if_neg (by omega)]

/-- Storing a byte fills one byte. -/
theorem storeByte_eq_fillRange (m : ByteMemory) (dst : BitVec 32) (b : BitVec 8) :
    storeByte m dst b = fillRange m dst 1 b := by
  funext x
  rw [storeByte, fillRange]
  by_cases hx : x = dst
  · subst hx
    rw [Function.update_self, if_pos (by omega)]
  · have hne : x.toNat ≠ dst.toNat := fun h => hx (BitVec.eq_of_toNat_eq h)
    rw [Function.update_of_ne hx, if_neg (by omega)]

/-- The bytes of a word that was read. -/
theorem byteOf_readWord (m : ByteMemory) (a : BitVec 32) {i : ℕ} (hi : i < 4) :
    byteOf (readWord m a) i = m (a + BitVec.ofNat 32 i) := by
  interval_cases i
  · rw [readWord, BitVec.add_zero]
    grind [byteOf]
  · rw [readWord]
    grind [byteOf]
  · rw [readWord]
    grind [byteOf]
  · rw [readWord]
    grind [byteOf]

/-- The offset in a block that does not wrap around. -/
theorem inBlock_iff_toNat {a x : BitVec 32} {size : ℕ} (h : a.toNat + size ≤ 2 ^ 32) :
    (x - a).toNat < size ↔ a.toNat ≤ x.toNat ∧ x.toNat < a.toNat + size := by
  rw [BitVec.toNat_sub]
  have hx := x.isLt
  omega

/-- Storing a word that was read copies four bytes. -/
theorem storeWord_eq_copyRange (m : ByteMemory) {dst : BitVec 32} (src : BitVec 32)
    (hdst : dst.toNat + 4 ≤ 2 ^ 32) :
    storeWord m dst (readWord m src) = copyRange m dst src 0 4 := by
  funext x
  simp only [storeWord, copyRange, Nat.add_zero]
  by_cases hin : (x - dst).toNat < 4
  · rw [if_pos hin, if_pos ((inBlock_iff_toNat hdst).mp hin), byteOf_readWord m src hin,
      BitVec.ofNat_toNat, BitVec.setWidth_eq]
  · rw [if_neg hin, if_neg (mt (inBlock_iff_toNat hdst).mpr hin)]

/-- Storing two words that were read copies eight bytes. -/
theorem storePair_eq_copyRange (m : ByteMemory) {dst : BitVec 32} (src : BitVec 32)
    (hdst : dst.toNat + 8 ≤ 2 ^ 32) :
    storeWord (storeWord m dst (readWord m src)) (dst + 4) (readWord m (src + 4)) =
      copyRange m dst src 0 8 := by
  have hhigh : (dst + 4).toNat = dst.toNat + 4 := toNat_add_ofNat (i := 4) (by omega)
  funext x
  rw [storeWord_eq_copyRange m src (by omega), storeWord, copyRange, copyRange]
  by_cases hin : (x - (dst + 4)).toNat < 4
  · have hrange := (inBlock_iff_toNat (by omega)).mp hin
    rw [if_pos hin, if_pos (by omega), byteOf_readWord m _ hin, BitVec.ofNat_toNat,
      BitVec.setWidth_eq]
    congr 1
    grind
  · have hrange := mt (inBlock_iff_toNat (by omega)).mpr hin
    rw [if_neg hin]
    by_cases hlow : dst.toNat + 0 ≤ x.toNat ∧ x.toNat < dst.toNat + 4
    · rw [if_pos hlow, if_pos (by omega)]
    · rw [if_neg hlow, if_neg (by omega)]

/-- Storing a word of equal bytes fills four bytes. -/
theorem storeWord_eq_fillRange (m : ByteMemory) {dst : BitVec 32} {w : BitVec 32} {b : BitVec 8}
    (hw : ∀ i < 4, byteOf w i = b) (hdst : dst.toNat + 4 ≤ 2 ^ 32) :
    storeWord m dst w = fillRange m dst 4 b := by
  funext x
  rw [storeWord, fillRange]
  by_cases hin : (x - dst).toNat < 4
  · rw [if_pos hin, if_pos ((inBlock_iff_toNat hdst).mp hin), hw _ hin]
  · rw [if_neg hin, if_neg (mt (inBlock_iff_toNat hdst).mpr hin)]

end ByteMemory

end WasmCompiler
