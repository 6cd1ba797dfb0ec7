import Mathlib.Algebra.Order.Ring.Int
import Mathlib.Data.BitVec
import Mathlib.Tactic.Linarith
import Mathlib.Tactic.NormNum
import Mathlib.Tactic.Positivity
import Mathlib.Tactic.Ring
import Mathlib.Tactic.Zify

/-!
# Bit Fields

Instruction formats put a number into a run of bits of a word. A field is described by its
lowest bit and its width; this file has the two ways a field is written, by clearing it first
or by an or alone, what is read from a word afterwards, and how a two's complement number
survives the way through a field.

## Main results

* `extract_insertBits`: what was inserted is what is read.
* `insertBits_agree`: the bits outside of the field are as before.
* `orBits_eq_insertBits`: an or alone inserts into a field that is zero.
* `setWidth_ofInt_ushiftRight`: a scaled number, shifted and truncated.
* `toInt_signExtend_shiftLeft`: a field that is sign-extended and scaled on reading.
-/

namespace WasmCompiler

namespace BitField

variable {w : ℕ}

/-! ### Masks -/

/-- The lowest `n` bits. -/
def lowBits (w n : ℕ) : BitVec w := (BitVec.allOnes n).setWidth w

/-- A bit of the mask. -/
@[simp] theorem getLsbD_lowBits (n i : ℕ) :
    (lowBits w n).getLsbD i = (decide (i < w) && decide (i < n)) := by
  simp [lowBits]

/-- The bits from `lo` on, `n` of them. -/
def fieldBits (w lo n : ℕ) : BitVec w := lowBits w n <<< lo

/-- A bit of the mask of a field. -/
@[simp] theorem getLsbD_fieldBits (lo n i : ℕ) :
    (fieldBits w lo n).getLsbD i = (decide (i < w) && decide (lo ≤ i ∧ i < lo + n)) := by
  simp only [fieldBits, BitVec.getLsbD_shiftLeft, getLsbD_lowBits]
  by_cases h : lo ≤ i
  · have : i - lo < n ↔ i < lo + n := by omega
    by_cases hi : i < w
    · have : i - lo < w := by omega
      simp_all
    · simp [hi]
  · simp only [h, false_and, decide_false, Bool.and_false]
    simp only [show i < lo by omega, decide_true, Bool.not_true, Bool.and_false, Bool.false_and]

/-! ### Words that agree outside of a field -/

/-- The words agree in all bits that are not in the mask. -/
def AgreeOutside (mask x y : BitVec w) : Prop :=
  ∀ i, mask.getLsbD i = false → y.getLsbD i = x.getLsbD i

namespace AgreeOutside

variable {mask mask' x y z : BitVec w}

/-- Nothing changed. -/
theorem refl (mask x : BitVec w) : AgreeOutside mask x x := fun _ _ => rfl

/-- One change after the other. -/
theorem trans (h : AgreeOutside mask x y) (h' : AgreeOutside mask y z) :
    AgreeOutside mask x z := fun i hi => (h' i hi).trans (h i hi)

/-- A larger mask. -/
theorem mono (h : AgreeOutside mask x y)
    (hmask : ∀ i, mask.getLsbD i = true → mask'.getLsbD i = true) :
    AgreeOutside mask' x y := by
  intro i hi
  refine h i ?_
  cases hm : mask.getLsbD i with
  | false => rfl
  | true => rw [hmask i hm] at hi; cases hi

/-- A test of bits that are not in the mask has the same result. -/
theorem and_eq (h : AgreeOutside mask x y) {bits : BitVec w} (hbits : bits &&& mask = 0#w) :
    y &&& bits = x &&& bits := by
  refine BitVec.eq_of_getLsbD_eq fun i _ => ?_
  have hi : (bits &&& mask).getLsbD i = false := by rw [hbits]; simp
  rw [BitVec.getLsbD_and] at hi
  rw [BitVec.getLsbD_and, BitVec.getLsbD_and]
  cases hb : bits.getLsbD i with
  | false => simp
  | true =>
      rw [hb, Bool.true_and] at hi
      rw [h i hi]

end AgreeOutside

/-! ### Writing a field -/

/-- Clear a field and put bits into it. -/
def insertBits (x v : BitVec w) (lo n : ℕ) : BitVec w :=
  (x &&& ~~~(fieldBits w lo n)) ||| ((v &&& lowBits w n) <<< lo)

/-- Put bits over what a field has. -/
def orBits (x v : BitVec w) (lo n : ℕ) : BitVec w :=
  x ||| ((v &&& lowBits w n) <<< lo)

/-- A bit after a field has been written. -/
theorem getLsbD_insertBits {x v : BitVec w} {lo n i : ℕ} (hi : i < w) :
    (insertBits x v lo n).getLsbD i =
      if lo ≤ i ∧ i < lo + n then v.getLsbD (i - lo) else x.getLsbD i := by
  simp only [insertBits, BitVec.getLsbD_or, BitVec.getLsbD_and, BitVec.getLsbD_not,
    getLsbD_fieldBits, BitVec.getLsbD_shiftLeft, getLsbD_lowBits, hi, decide_true, Bool.true_and]
  split
  · rename_i h
    have h1 : i - lo < w := by omega
    have h2 : i - lo < n := by omega
    simp [h, h1, h2]
  · rename_i h
    by_cases hlo : lo ≤ i
    · have : ¬ i - lo < n := by omega
      simp [this, h]
    · have : i < lo := by omega
      simp [this, h]

/-- A bit after an or. -/
theorem getLsbD_orBits {x v : BitVec w} {lo n i : ℕ} (hi : i < w) :
    (orBits x v lo n).getLsbD i =
      (x.getLsbD i || decide (lo ≤ i ∧ i < lo + n) && v.getLsbD (i - lo)) := by
  simp only [orBits, BitVec.getLsbD_or, BitVec.getLsbD_and, BitVec.getLsbD_shiftLeft,
    getLsbD_lowBits, hi, decide_true, Bool.true_and]
  by_cases hlo : lo ≤ i
  · have h1 : i - lo < w := by omega
    have h2 : i - lo < n ↔ i < lo + n := by omega
    have h3 : ¬ i < lo := by omega
    simp [hlo, h1, h2, h3, Bool.and_comm]
  · have : i < lo := by omega
    simp [hlo, this]

/-- The bits outside of the field are as before. -/
theorem insertBits_agree (x v : BitVec w) (lo n : ℕ) :
    AgreeOutside (fieldBits w lo n) x (insertBits x v lo n) := by
  intro i hi
  by_cases hw : i < w
  · rw [getLsbD_fieldBits] at hi
    simp only [hw, decide_true, Bool.true_and, decide_eq_false_iff_not] at hi
    rw [getLsbD_insertBits hw, if_neg hi]
  · rw [BitVec.getLsbD_of_ge _ _ (by omega), BitVec.getLsbD_of_ge _ _ (by omega)]

/-- The bits outside of the field are as before, also without clearing. -/
theorem orBits_agree (x v : BitVec w) (lo n : ℕ) :
    AgreeOutside (fieldBits w lo n) x (orBits x v lo n) := by
  intro i hi
  by_cases hw : i < w
  · rw [getLsbD_fieldBits, decide_eq_true hw, Bool.true_and] at hi
    rw [getLsbD_orBits hw, hi, Bool.false_and, Bool.or_false]
  · rw [BitVec.getLsbD_of_ge _ _ (by omega), BitVec.getLsbD_of_ge _ _ (by omega)]

/-- **An or alone inserts into a field that is zero.** -/
theorem orBits_eq_insertBits {x : BitVec w} {lo n : ℕ} (hzero : x &&& fieldBits w lo n = 0#w)
    (v : BitVec w) : orBits x v lo n = insertBits x v lo n := by
  refine BitVec.eq_of_getLsbD_eq fun i hi => ?_
  rw [getLsbD_orBits hi, getLsbD_insertBits hi]
  split
  · rename_i h
    have hx : (x &&& fieldBits w lo n).getLsbD i = false := by rw [hzero]; simp
    rw [BitVec.getLsbD_and, getLsbD_fieldBits] at hx
    simp only [hi, h, and_self, decide_true, Bool.and_true] at hx
    simp [hx, h]
  · rename_i h
    simp [h]

/-- Nothing to put over a field. -/
theorem orBits_of_and_eq_zero {v : BitVec w} {n : ℕ} (h : v &&& lowBits w n = 0#w)
    (x : BitVec w) (lo : ℕ) : orBits x v lo n = x := by
  rw [orBits, h, BitVec.zero_shiftLeft, BitVec.or_zero]

/-! ### Reading a field -/

/-- **What was inserted is what is read.** -/
theorem extract_insertBits {x v : BitVec w} {lo n : ℕ} (hfits : lo + n ≤ w) :
    (insertBits x v lo n).extractLsb' lo n = v.setWidth n := by
  refine BitVec.eq_of_getLsbD_eq fun i hi => ?_
  rw [BitVec.getLsbD_extractLsb', getLsbD_insertBits (by omega), if_pos (by omega),
    BitVec.getLsbD_setWidth, show lo + i - lo = i by omega]

/-- A field is as before if no bit of it has been written. -/
theorem AgreeOutside.extract_eq {mask x y : BitVec w} (h : AgreeOutside mask x y) {lo n : ℕ}
    (hdisjoint : ∀ i, lo ≤ i → i < lo + n → mask.getLsbD i = false) :
    y.extractLsb' lo n = x.extractLsb' lo n := by
  refine BitVec.eq_of_getLsbD_eq fun i hi => ?_
  rw [BitVec.getLsbD_extractLsb', BitVec.getLsbD_extractLsb',
    h (lo + i) (hdisjoint _ (by omega) (by omega))]

/-- A field of a word is zero. -/
theorem and_fieldBits_eq_zero {x : BitVec w} {lo n : ℕ} (hfits : lo + n ≤ w) :
    x &&& fieldBits w lo n = 0#w ↔ x.extractLsb' lo n = 0#n := by
  constructor
  · intro h
    refine BitVec.eq_of_getLsbD_eq fun i hi => ?_
    have hx : (x &&& fieldBits w lo n).getLsbD (lo + i) = false := by rw [h]; simp
    rw [BitVec.getLsbD_and, getLsbD_fieldBits] at hx
    have h1 : lo + i < w := by omega
    simpa [h1, hi] using hx
  · intro h
    refine BitVec.eq_of_getLsbD_eq fun i hi => ?_
    rw [BitVec.getLsbD_and, getLsbD_fieldBits, BitVec.getLsbD_zero]
    by_cases hin : lo ≤ i ∧ i < lo + n
    · have hx : (x.extractLsb' lo n).getLsbD (i - lo) = false := by rw [h]; simp
      rw [BitVec.getLsbD_extractLsb', show lo + (i - lo) = i by omega] at hx
      have h1 : i - lo < n := by omega
      simp only [h1, decide_true, Bool.true_and] at hx
      simp [hx]
    · simp [hin]

/-- A field that is not the one written is as before. -/
theorem extract_insertBits_of_disjoint {x v : BitVec w} {lo n lo' n' : ℕ}
    (h : lo + n ≤ lo' ∨ lo' + n' ≤ lo) :
    (insertBits x v lo' n').extractLsb' lo n = x.extractLsb' lo n := by
  refine (insertBits_agree x v lo' n').extract_eq fun i h1 h2 => ?_
  rw [getLsbD_fieldBits, Bool.and_eq_false_iff]
  exact .inr (decide_eq_false (by omega))

/-- A field that was set, over the bits that it had. -/
theorem extract_orBits {x v : BitVec w} {lo n : ℕ} (hfits : lo + n ≤ w) :
    (orBits x v lo n).extractLsb' lo n = x.extractLsb' lo n ||| v.setWidth n := by
  refine BitVec.eq_of_getLsbD_eq fun i hi => ?_
  have hin : lo ≤ lo + i ∧ lo + i < lo + n := by omega
  rw [BitVec.getLsbD_extractLsb', getLsbD_orBits (by omega), BitVec.getLsbD_or,
    BitVec.getLsbD_extractLsb', BitVec.getLsbD_setWidth, Nat.add_sub_cancel_left]
  simp [hin, hi]

/-- A field elsewhere. -/
theorem extract_orBits_of_disjoint {x v : BitVec w} {lo n lo' n' : ℕ}
    (h : lo + n ≤ lo' ∨ lo' + n' ≤ lo) :
    (orBits x v lo' n').extractLsb' lo n = x.extractLsb' lo n := by
  refine (orBits_agree x v lo' n').extract_eq fun i h1 h2 => ?_
  rw [getLsbD_fieldBits, Bool.and_eq_false_iff]
  right
  exact decide_eq_false (by omega)

/-- A shifted word, truncated. -/
theorem setWidth_ushiftRight (x : BitVec w) (lo n : ℕ) :
    (x >>> lo).setWidth n = x.extractLsb' lo n := by
  refine BitVec.eq_of_getLsbD_eq fun i hi => ?_
  rw [BitVec.getLsbD_setWidth, BitVec.getLsbD_ushiftRight, BitVec.getLsbD_extractLsb']

/-- Fields next to each other, read together. -/
theorem extract_append_extract (x : BitVec w) (lo n m : ℕ) :
    x.extractLsb' (lo + n) m ++ x.extractLsb' lo n = x.extractLsb' lo (m + n) := by
  refine BitVec.eq_of_getLsbD_eq fun i hi => ?_
  rw [BitVec.getLsbD_append, BitVec.getLsbD_extractLsb', BitVec.getLsbD_extractLsb',
    BitVec.getLsbD_extractLsb']
  by_cases h : i < n
  · have h1 : i < m + n := by omega
    simp [h, h1]
  · have h1 : i - n < m := by omega
    have h2 : lo + n + (i - n) = lo + i := by omega
    simp [h, h1, hi, h2]

/-! ### Two's complement -/

/-- A number that fits into `n` bits. -/
def Fits (n : ℕ) (k : ℤ) : Prop := -2 ^ (n - 1) ≤ k ∧ k < 2 ^ (n - 1)

instance (n : ℕ) (k : ℤ) : Decidable (Fits n k) :=
  inferInstanceAs (Decidable (_ ∧ _))

/-- A number that fits survives. -/
theorem toInt_ofInt_of_fits {n : ℕ} {k : ℤ} (hn : 0 < n) (h : Fits n k) :
    (BitVec.ofInt n k).toInt = k := by
  obtain ⟨m, rfl⟩ : ∃ m, n = m + 1 := ⟨n - 1, by omega⟩
  obtain ⟨h1, h2⟩ := h
  simp only [Nat.add_sub_cancel] at h1 h2
  rw [BitVec.toInt_ofInt]
  apply Int.bmod_eq_of_le
  · rw [Nat.pow_succ]; push_cast; omega
  · rw [Nat.pow_succ]; push_cast; omega

/-- Every number that is read fits. -/
theorem fits_toInt {n : ℕ} (x : BitVec n) : Fits n x.toInt :=
  ⟨x.le_toInt, x.toInt_lt⟩

/-- **A scaled number, shifted and truncated**, is the number. -/
theorem setWidth_ofInt_ushiftRight {n s : ℕ} (hfits : s + n ≤ w) (k : ℤ) :
    ((BitVec.ofInt w (2 ^ s * k)) >>> s).setWidth n = BitVec.ofInt n k := by
  have hsplit : (2 : ℤ) ^ w = 2 ^ s * 2 ^ (w - s) := by
    rw [← pow_add]; congr 1; omega
  have hmod : (2 ^ s * k) % (2 : ℤ) ^ w = 2 ^ s * (k % 2 ^ (w - s)) := by
    rw [hsplit, Int.mul_emod_mul_of_pos _ _ (by positivity)]
  have hdvd : (2 : ℤ) ^ n ∣ 2 ^ (w - s) := pow_dvd_pow 2 (by omega)
  apply BitVec.eq_of_toNat_eq
  rw [BitVec.toNat_setWidth, BitVec.toNat_ushiftRight, BitVec.toNat_ofInt, BitVec.toNat_ofInt,
    Nat.shiftRight_eq_div_pow]
  zify
  rw [Int.toNat_of_nonneg (Int.emod_nonneg _ (by positivity)),
    Int.toNat_of_nonneg (Int.emod_nonneg _ (by positivity)), hmod,
    Int.mul_ediv_cancel_left _ (by positivity), Int.emod_emod_of_dvd _ hdvd]

/-- A number, truncated. -/
theorem extract_ofInt {n : ℕ} (hfits : n ≤ w) (k : ℤ) :
    (BitVec.ofInt w k).extractLsb' 0 n = BitVec.ofInt n k := by
  have h := setWidth_ofInt_ushiftRight (s := 0) (by omega : 0 + n ≤ w) k
  rw [setWidth_ushiftRight, pow_zero, one_mul] at h
  exact h

/-- Sign extension by an or with the bits above the field, or by clearing them. -/
theorem ite_or_eq_signExtend {n : ℕ} (hn : 0 < n) (x : BitVec w) :
    (if x.getLsbD (n - 1) then x ||| ~~~(lowBits w n) else x &&& lowBits w n) =
      (x.setWidth n).signExtend w := by
  refine BitVec.eq_of_getLsbD_eq fun i hi => ?_
  rw [BitVec.getLsbD_signExtend]
  have hmsb : (x.setWidth n).msb = x.getLsbD (n - 1) := by
    rw [BitVec.msb_eq_getLsbD_last, BitVec.getLsbD_setWidth]
    simp [hn]
  have hbit : (lowBits w n).getLsbD i = decide (i < n) := by
    rw [getLsbD_lowBits, decide_eq_true hi, Bool.true_and]
  cases h : x.getLsbD (n - 1) with
  | true =>
      rw [if_pos rfl, BitVec.getLsbD_or, BitVec.getLsbD_not, hbit, hmsb, h]
      by_cases hin : i < n
      · simp [hin, hi]
      · simp only [hi, hin, decide_true, decide_false, Bool.not_false, Bool.and_true,
          Bool.or_true, if_false]
  | false =>
      rw [if_neg (by simp), BitVec.getLsbD_and, hbit, hmsb, h]
      by_cases hin : i < n
      · simp [hin, hi]
      · simp only [hin, decide_false, Bool.and_false, if_false]

/-- **A field that is sign-extended and scaled on reading.** -/
theorem toInt_signExtend_shiftLeft {n s : ℕ} (hn : 0 < n) (hfits : s + n ≤ w) (x : BitVec n) :
    ((x.signExtend w) <<< s).toInt = 2 ^ s * x.toInt := by
  obtain ⟨h1, h2⟩ := fits_toInt x
  obtain ⟨u, rfl⟩ : ∃ u, w = s + n + u := ⟨w - (s + n), by omega⟩
  have hmul : (x.signExtend (s + n + u)) <<< s =
      BitVec.ofInt (s + n + u) (2 ^ s * x.toInt) := by
    rw [BitVec.shiftLeft_eq_mul_twoPow, BitVec.signExtend, mul_comm, BitVec.ofInt_mul]
    congr 1
    apply BitVec.eq_of_toNat_eq
    rw [BitVec.toNat_twoPow, BitVec.toNat_ofInt]
    have hlt : s < s + n + u := by omega
    have : ((2 : ℤ) ^ s % ((2 ^ (s + n + u) : ℕ) : ℤ)).toNat = 2 ^ s % 2 ^ (s + n + u) := by
      rw [show (2 : ℤ) ^ s = ((2 ^ s : ℕ) : ℤ) by push_cast; rfl, ← Int.natCast_emod,
        Int.toNat_natCast]
    exact this.symm
  rw [hmul]
  apply toInt_ofInt_of_fits (by omega)
  have hpow : (2 : ℤ) ^ s * 2 ^ (n - 1) ≤ 2 ^ (s + n + u - 1) := by
    rw [← pow_add]
    exact pow_le_pow_right₀ (by norm_num) (by omega)
  have hs : (0 : ℤ) < 2 ^ s := by positivity
  constructor
  · nlinarith
  · nlinarith

/-- The lowest bit, tested by an and. -/
theorem and_one_ne_zero_iff (hw : 0 < w) (x : BitVec w) :
    x &&& 1#w ≠ 0#w ↔ x.getLsbD 0 = true := by
  constructor
  · intro h
    by_contra hx
    refine h (BitVec.eq_of_getLsbD_eq fun i hi => ?_)
    rw [BitVec.getLsbD_and, BitVec.getLsbD_one, BitVec.getLsbD_zero]
    by_cases h0 : i = 0
    · subst h0
      rw [Bool.eq_false_iff.mpr hx, Bool.false_and]
    · simp [h0]
  · intro h hx
    have hbit := congrArg (BitVec.getLsbD · 0) hx
    simp only [BitVec.getLsbD_and, h, BitVec.getLsbD_one, BitVec.getLsbD_zero, hw, decide_true,
      Bool.true_and] at hbit
    cases hbit

/-- **A field that is read with its sign**: the sign bit is tested, the bits above are set or
cleared, and the result is scaled. -/
theorem toInt_readSigned {n s : ℕ} (hn : 0 < n) (hfits : s + n ≤ w) (x : BitVec w) :
    ((if (x >>> (n - 1)) &&& 1#w ≠ 0#w then x ||| ~~~(lowBits w n) else x &&& lowBits w n) <<<
      s).toInt = 2 ^ s * (x.setWidth n).toInt := by
  have hcond : (x >>> (n - 1)) &&& 1#w ≠ 0#w ↔ x.getLsbD (n - 1) = true := by
    rw [and_one_ne_zero_iff (by omega), BitVec.getLsbD_ushiftRight, Nat.add_zero]
  simp only [hcond]
  rw [ite_or_eq_signExtend hn, toInt_signExtend_shiftLeft hn hfits]

/-- A number is even if its lowest bit is zero. -/
theorem ofInt_and_one_eq_zero_iff (hw : 0 < w) (k : ℤ) :
    BitVec.ofInt w k &&& 1#w = 0#w ↔ 2 ∣ k := by
  have hone : (1#w : BitVec w) = fieldBits w 0 1 := by
    refine BitVec.eq_of_getLsbD_eq fun i hi => ?_
    rw [BitVec.getLsbD_one, getLsbD_fieldBits]
    by_cases h0 : i = 0
    · simp [h0, hw]
    · simp [h0, show ¬ i < 1 by omega]
  rw [hone, and_fieldBits_eq_zero (by omega), extract_ofInt (by omega), ← BitVec.toNat_inj,
    BitVec.toNat_ofInt]
  simp only [BitVec.toNat_zero]
  omega

end BitField

end WasmCompiler
