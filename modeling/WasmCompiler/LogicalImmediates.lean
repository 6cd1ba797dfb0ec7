import Mathlib.Algebra.Order.Ring.Nat
import Mathlib.Data.Nat.Factorization.Basic
import Mathlib.Data.Nat.Log
import Mathlib.Tactic.Ring
import WasmCompiler.BitFields

/-!
# Logical Immediates of AArch64

The immediate of a logical instruction is a bit pattern: an element of 2, 4, 8, 16, 32 or 64
bits, which is a run of ones rotated by some distance, repeated to the width of the register.
`processLogicalImmediate` finds the encoding of a value or says that there is none.

## Main results

* `isShiftedMask_64_iff`: the test for a run of ones.
* `elementSize_spec`: the loop finds the shortest element.
* `processLogicalImmediate_decodes`: an encoding that is returned denotes the value.
* `processLogicalImmediate_complete`: a value that has an encoding is not refused.
-/

namespace WasmCompiler

open BitField

namespace LogicalImmediate

/-! ### The search for an encoding -/

/-- A run of ones that starts at the lowest bit. -/
def isMask_64 (value : BitVec 64) : Bool := value ≠ 0#64 ∧ (value + 1#64) &&& value = 0#64

/-- A run of ones. -/
def isShiftedMask_64 (value : BitVec 64) : Bool :=
  value ≠ 0#64 ∧ isMask_64 ((value - 1#64) ||| value)

/-- The loop that halves the element as long as both halves are equal. -/
def elementSize (imm : BitVec 64) : ℕ → ℕ → ℕ
  | 0, elemSize => elemSize
  | fuel + 1, elemSize =>
      if 2 < elemSize then
        let mask := (1#64 <<< (elemSize / 2)) - 1#64
        if imm &&& mask ≠ (imm >>> (elemSize / 2)) &&& mask then elemSize
        else elementSize imm fuel (elemSize / 2)
      else elemSize

/-- The encoding of an element, from its size, the position of its run of ones and the length of
the run. -/
def encodeElement (elemSize I CTO : ℕ) : BitVec 64 :=
  let Immr := BitVec.ofNat 64 (elemSize - I) &&& BitVec.ofNat 64 (elemSize - 1)
  let NImms := (~~~(BitVec.ofNat 64 (elemSize - 1)) <<< 1) ||| BitVec.ofNat 64 (CTO - 1)
  let N := ((NImms >>> 6) &&& 1#64) ^^^ 1#64
  ((N <<< 12) ||| (Immr <<< 6)) ||| (NImms &&& 0x3F#64)

/-- `processLogicalImmediate`; `none` is the result `false`. -/
def processLogicalImmediate (imm : BitVec 64) (is64 : Bool) : Option (BitVec 64) :=
  let maxRegValue := if is64 then 0xFFFFFFFFFFFFFFFF#64 else 0xFFFFFFFF#64
  if imm = 0#64 ∨ maxRegValue ≤ imm then none
  else
    let elemSize := elementSize imm 6 (if is64 then 64 else 32)
    let mask := if elemSize = 64 then 0xFFFFFFFFFFFFFFFF#64 else (1#64 <<< elemSize) - 1#64
    let imm := imm &&& mask
    if isShiftedMask_64 imm then
      let I := imm.ctz.toNat
      let CTO := (~~~(imm >>> I)).ctz.toNat
      some (encodeElement elemSize I CTO)
    else
      let imm := imm ||| ~~~mask
      if ¬ isShiftedMask_64 (~~~imm) then none
      else
        let CLO := (~~~imm).clz.toNat
        let I := 64 - CLO
        let CTOimm := (~~~imm).ctz.toNat
        let CTO := (CLO + CTOimm) - (64 - elemSize)
        some (encodeElement elemSize I CTO)

/-! ### The meaning of an encoding -/

/-- `ROR` of an element. -/
def rotateRight (esize x r : ℕ) : ℕ := (x >>> r) ||| ((x % 2 ^ r) <<< (esize - r))

/-- `Replicate`: copies of an element. -/
def replicate (esize x : ℕ) : ℕ → ℕ
  | 0 => 0
  | n + 1 => x ||| (replicate esize x n <<< esize)

/-- `DecodeBitMasks` for the immediate of a logical instruction with the fields `N`, `immr` and
`imms`; `none` are the reserved encodings. -/
def decodeBitMasks (is64 : Bool) (encoding : BitVec 13) : Option (BitVec 64) :=
  let datasize := if is64 then 64 else 32
  let N := (encoding.extractLsb' 12 1).toNat
  let immr := (encoding.extractLsb' 6 6).toNat
  let imms := (encoding.extractLsb' 0 6).toNat
  -- the highest set bit of N:NOT(imms)
  let len := (64 * N + (63 - imms)).log2
  if len < 1 ∨ (is64 = false ∧ N = 1) then none
  else
    let esize := 2 ^ len
    let S := imms % esize
    let R := immr % esize
    if S = esize - 1 then none
    else
      let welem := rotateRight esize (2 ^ (S + 1) - 1) R
      some (BitVec.ofNat 64 (replicate esize welem (datasize / esize)))

/-! ### Runs of ones -/

/-- The bits from `i` on and before `n` are ones. -/
def IsRun (x : BitVec 64) (i n : ℕ) : Prop := ∀ k, x.getLsbD k = decide (i ≤ k ∧ k < n)

/-- A bit of a difference of powers of two. -/
theorem testBit_pow_sub_pow {i n : ℕ} (h : i ≤ n) (k : ℕ) :
    (2 ^ n - 2 ^ i).testBit k = decide (i ≤ k ∧ k < n) := by
  have hsplit : 2 ^ n - 2 ^ i = 2 ^ i * (2 ^ (n - i) - 1) := by
    rw [Nat.mul_sub, ← pow_add, mul_one]
    congr 2
    omega
  rw [hsplit, Nat.testBit_two_pow_mul, Nat.testBit_two_pow_sub_one]
  by_cases hik : i ≤ k
  · have : k - i < n - i ↔ k < n := by omega
    simp [hik, this]
  · simp [hik]

/-- A run is a difference of powers of two. -/
theorem isRun_iff_toNat {x : BitVec 64} {i n : ℕ} (hin : i ≤ n) :
    IsRun x i n ↔ x.toNat = 2 ^ n - 2 ^ i := by
  constructor
  · intro h
    refine Nat.eq_of_testBit_eq fun k => ?_
    rw [testBit_pow_sub_pow hin]
    exact h k
  · intro h k
    rw [← BitVec.testBit_toNat, h, testBit_pow_sub_pow hin]

/-- The test for a run of ones at the lowest bit. -/
theorem isMask_64_iff {x : BitVec 64} :
    isMask_64 x = true ↔ ∃ n, 0 < n ∧ n ≤ 64 ∧ x.toNat = 2 ^ n - 1 := by
  have hlt := x.isLt
  simp only [isMask_64, decide_eq_true_eq]
  by_cases hmax : x.toNat = 2 ^ 64 - 1
  · have hx : x = 0xFFFFFFFFFFFFFFFF#64 := BitVec.eq_of_toNat_eq hmax
    subst hx
    exact ⟨fun _ => ⟨64, by omega, by omega, rfl⟩, fun _ => by decide⟩
  · have hsucc : (x + 1#64).toNat = x.toNat + 1 := by
      rw [BitVec.toNat_add]
      simp only [BitVec.toNat_ofNat]
      omega
    have hand : (x + 1#64) &&& x = 0#64 ↔ (x.toNat + 1) &&& (x.toNat + 1 - 1) = 0 := by
      rw [← BitVec.toNat_inj, BitVec.toNat_and, hsucc]
      rfl
    rw [hand, Nat.and_sub_one_eq_zero_iff_isPowerOfTwo (by omega)]
    constructor
    · rintro ⟨hx, n, hn⟩
      have hpos : x.toNat ≠ 0 := fun h => hx (BitVec.eq_of_toNat_eq h)
      refine ⟨n, ?_, ?_, by omega⟩
      · rcases Nat.eq_zero_or_pos n with rfl | h
        · simp only [pow_zero] at hn
          omega
        · exact h
      · by_contra h
        have : 2 ^ 65 ≤ 2 ^ n := Nat.pow_le_pow_right (by omega) (by omega)
        omega
    · rintro ⟨n, hn, -, hx⟩
      have h2 : 2 ^ 1 ≤ 2 ^ n := Nat.pow_le_pow_right (by omega) hn
      refine ⟨?_, n, by omega⟩
      rintro rfl
      simp only [BitVec.toNat_zero] at hx
      omega

/-- The number before a number that is not zero fills the zeros at its end with ones. -/
theorem pred_or_eq (i q : ℕ) :
    (2 ^ i * (2 * q + 1) - 1) ||| (2 ^ i * (2 * q + 1)) = 2 ^ i * (2 * q + 1) + 2 ^ i - 1 := by
  have hpos : 0 < 2 ^ i := Nat.two_pow_pos i
  have hpred : 2 ^ i * (2 * q + 1) - 1 = 2 ^ i * (2 * q) ||| (2 ^ i - 1) := by
    rw [← Nat.two_pow_add_eq_or_of_lt (by omega)]
    ring_nf
    omega
  have hself : 2 ^ i * (2 * q + 1) = 2 ^ i * (2 * q) ||| 2 ^ i := by
    have hfield : 2 ^ i * (2 * q) = 2 ^ (i + 1) * q := by ring
    rw [hfield, ← Nat.two_pow_add_eq_or_of_lt (Nat.pow_lt_pow_right (by omega) (by omega))]
    ring
  have hones : (2 ^ i - 1) ||| 2 ^ i = 2 ^ (i + 1) - 1 := by
    have h := Nat.two_pow_add_eq_or_of_lt (i := i) (b := 2 ^ i - 1) (by omega) 1
    rw [mul_one, Nat.or_comm] at h
    rw [← h, pow_succ]
    omega
  rw [hpred]
  conv_lhs => rw [hself]
  rw [show (2 ^ i * (2 * q) ||| (2 ^ i - 1)) ||| (2 ^ i * (2 * q) ||| 2 ^ i) =
      2 ^ i * (2 * q) ||| ((2 ^ i - 1) ||| 2 ^ i) by
    rw [Nat.or_assoc, ← Nat.or_assoc (2 ^ i - 1), Nat.or_comm (2 ^ i - 1), Nat.or_assoc,
      ← Nat.or_assoc, Nat.or_self], hones]
  have hfield : 2 ^ i * (2 * q) = 2 ^ (i + 1) * q := by ring
  have hpos' : 0 < 2 ^ (i + 1) := Nat.two_pow_pos _
  rw [hfield, ← Nat.two_pow_add_eq_or_of_lt (by omega), pow_succ]
  ring_nf
  omega

/-- **The test for a run of ones.** -/
theorem isShiftedMask_64_iff {x : BitVec 64} :
    isShiftedMask_64 x = true ↔ ∃ i n, i < n ∧ n ≤ 64 ∧ x.toNat = 2 ^ n - 2 ^ i := by
  simp only [isShiftedMask_64, decide_eq_true_eq, isMask_64_iff]
  have hor : ∀ i q, x.toNat = 2 ^ i * (2 * q + 1) →
      ((x - 1#64) ||| x).toNat = x.toNat + 2 ^ i - 1 := by
    intro i q hx
    have hpos : 0 < x.toNat := by
      rw [hx]
      positivity
    have hpred : (x - 1#64).toNat = x.toNat - 1 := by
      have hlt := x.isLt
      rw [BitVec.toNat_sub]
      simp only [BitVec.toNat_ofNat]
      omega
    rw [BitVec.toNat_or, hpred, hx]
    exact pred_or_eq i q
  constructor
  · rintro ⟨hx, n, hn, hn64, hmask⟩
    have hpos : x.toNat ≠ 0 := fun h => hx (BitVec.eq_of_toNat_eq h)
    obtain ⟨i, m, ⟨q, rfl⟩, hodd⟩ := Nat.exists_eq_two_pow_mul_odd hpos
    rw [hor i q hodd] at hmask
    have hi : 0 < 2 ^ i := Nat.two_pow_pos i
    refine ⟨i, n, ?_, hn64, by omega⟩
    by_contra h
    have hle : 2 ^ n ≤ 2 ^ i := Nat.pow_le_pow_right (by omega) (by omega)
    omega
  · rintro ⟨i, n, hin, hn64, hx⟩
    have hlt : 2 ^ i < 2 ^ n := Nat.pow_lt_pow_right (by omega) hin
    obtain ⟨d, rfl⟩ : ∃ d, n = i + (d + 1) := ⟨n - i - 1, by omega⟩
    have hodd : x.toNat = 2 ^ i * (2 * (2 ^ d - 1) + 1) := by
      have hd : 0 < 2 ^ d := Nat.two_pow_pos d
      have hfactor : 2 * (2 ^ d - 1) + 1 = 2 ^ (d + 1) - 1 := by
        rw [pow_succ]
        omega
      rw [hx, hfactor, Nat.mul_sub, ← pow_add, mul_one]
    refine ⟨?_, i + (d + 1), by omega, hn64, ?_⟩
    · rintro rfl
      simp only [BitVec.toNat_zero] at hx
      omega
    · rw [hor i _ hodd, hx]
      omega

/-- The lowest bit that is set. -/
theorem ctz_eq {x : BitVec 64} {i : ℕ} (hbit : x.getLsbD i = true)
    (hbelow : ∀ k, k < i → x.getLsbD k = false) : x.ctz.toNat = i := by
  have hx : x ≠ 0#64 := by
    rintro rfl
    simp at hbit
  rcases Nat.lt_trichotomy x.ctz.toNat i with h | h | h
  · have htrue := BitVec.getLsbD_true_ctz_of_ne_zero hx
    rw [hbelow _ h] at htrue
    cases htrue
  · exact h
  · rw [BitVec.getLsbD_false_of_lt_ctz h] at hbit
    cases hbit

/-- The number of bits above the highest bit that is set. -/
theorem clz_eq {x : BitVec 64} {n : ℕ} (hn : 0 < n) (hbit : x.getLsbD (n - 1) = true)
    (habove : ∀ k, n ≤ k → x.getLsbD k = false) : x.clz.toNat = 64 - n := by
  have hx : x ≠ 0#64 := by
    rintro rfl
    simp at hbit
  have hn64 : n ≤ 64 := by
    by_contra h
    rw [BitVec.getLsbD_of_ge _ _ (by omega)] at hbit
    cases hbit
  have htrue := BitVec.getLsbD_true_clz_of_ne_zero (by omega) hx
  have hlt := BitVec.toNat_lt_two_pow_sub_clz (x := x)
  have hge : 2 ^ (n - 1) ≤ x.toNat := Nat.ge_two_pow_of_testBit hbit
  have h1 : n - 1 < 64 - x.clz.toNat := (Nat.pow_lt_pow_iff_right (by omega)).mp (hge.trans_lt hlt)
  have h2 : 64 - 1 - x.clz.toNat < n := by
    by_contra h
    rw [habove _ (by omega)] at htrue
    cases htrue
  omega

/-! ### The element -/

/-- The lowest `w` bits repeat every `e` bits. -/
def Periodic (w e : ℕ) (x : BitVec 64) : Prop := ∀ k, k < w → x.getLsbD k = x.getLsbD (k % e)

/-- The mask of the source. -/
theorem shiftLeft_sub_one_eq_lowBits {n : ℕ} (hn : n < 64) :
    (1#64 <<< n) - 1#64 = lowBits 64 n := by
  have hlt : 2 ^ n < 2 ^ 64 := Nat.pow_lt_pow_right (by omega) hn
  have hpos : 0 < 2 ^ n := Nat.two_pow_pos n
  refine BitVec.eq_of_getLsbD_eq fun i hi => ?_
  have hnat : ((1#64 <<< n) - 1#64).toNat = 2 ^ n - 1 := by
    rw [BitVec.toNat_sub, BitVec.toNat_shiftLeft, Nat.shiftLeft_eq]
    simp only [BitVec.toNat_ofNat]
    omega
  rw [← BitVec.testBit_toNat, hnat, Nat.testBit_two_pow_sub_one, getLsbD_lowBits]
  simp [hi]

/-- Comparing the two halves of an element. -/
theorem halves_eq_iff {x : BitVec 64} {h : ℕ} (hh : h < 64) :
    x &&& ((1#64 <<< h) - 1#64) = (x >>> h) &&& ((1#64 <<< h) - 1#64) ↔
      ∀ k, k < h → x.getLsbD (h + k) = x.getLsbD k := by
  rw [shiftLeft_sub_one_eq_lowBits hh]
  constructor
  · intro heq k hk
    have hbit := congrArg (BitVec.getLsbD · k) heq
    simp only [BitVec.getLsbD_and, getLsbD_lowBits, BitVec.getLsbD_ushiftRight,
      decide_eq_true hk, decide_eq_true (hk.trans hh), Bool.and_true] at hbit
    exact hbit.symm
  · intro heq
    refine BitVec.eq_of_getLsbD_eq fun k hk => ?_
    simp only [BitVec.getLsbD_and, getLsbD_lowBits, BitVec.getLsbD_ushiftRight]
    by_cases hkh : k < h
    · rw [heq k hkh]
    · simp [hkh]

/-- Two equal halves: the half repeats. -/
theorem Periodic.half {w h : ℕ} {x : BitVec 64} (hx : Periodic w (2 * h) x)
    (heq : ∀ k, k < h → x.getLsbD (h + k) = x.getLsbD k) : Periodic w h x := by
  intro k hk
  rcases Nat.eq_zero_or_pos h with rfl | hpos
  · exact hx k hk
  have hmod : k % (2 * h) % h = k % h := Nat.mod_mod_of_dvd _ (Dvd.intro_left 2 rfl)
  rw [hx k hk]
  by_cases hlow : k % (2 * h) < h
  · rw [← hmod, Nat.mod_eq_of_lt hlow]
  · have hlt := Nat.mod_lt k (by omega : 0 < 2 * h)
    have hsub : k % (2 * h) % h = k % (2 * h) - h := by
      rw [Nat.mod_eq_sub_mod (Nat.not_lt.mp hlow), Nat.mod_eq_of_lt (by omega)]
    have hrest : k % (2 * h) = h + k % h := by omega
    rw [hrest, heq _ (Nat.mod_lt _ hpos)]

/-- Two different halves: the half does not repeat. -/
theorem not_periodic_half {w h : ℕ} {x : BitVec 64} (hw : 2 * h ≤ w)
    (hne : ¬ ∀ k, k < h → x.getLsbD (h + k) = x.getLsbD k) : ¬ Periodic w h x := by
  intro hx
  refine hne fun k hk => ?_
  rw [hx (h + k) (by omega), Nat.add_mod_left, Nat.mod_eq_of_lt hk]

/-- **The loop finds the shortest element**: what is found repeats, and its half does not,
unless the element has two bits. -/
theorem elementSize_spec {w fuel j : ℕ} {x : BitVec 64} (hfuel : j ≤ fuel) (hj : 1 ≤ j)
    (hj6 : j ≤ 6) (hw : 2 ^ j ≤ w) (hx : Periodic w (2 ^ j) x) :
    ∃ j', elementSize x fuel (2 ^ j) = 2 ^ j' ∧ 1 ≤ j' ∧ j' ≤ j ∧ Periodic w (2 ^ j') x ∧
      (j' = 1 ∨ ¬ Periodic w (2 ^ (j' - 1)) x) := by
  induction fuel generalizing j with
  | zero => omega
  | succ fuel ih =>
      rw [elementSize]
      by_cases htwo : 2 < 2 ^ j
      · obtain ⟨m, rfl⟩ : ∃ m, j = m + 1 := ⟨j - 1, by omega⟩
        have hhalf : 2 ^ (m + 1) / 2 = 2 ^ m := by
          rw [pow_succ]
          omega
        have hm : m ≠ 0 := by
          rintro rfl
          simp at htwo
        have hdouble : 2 ^ (m + 1) = 2 * 2 ^ m := by rw [pow_succ, mul_comm]
        have hm64 : 2 ^ m < 64 := by
          have : 2 ^ m ≤ 2 ^ 5 := Nat.pow_le_pow_right (by omega) (by omega)
          omega
        have hiff := halves_eq_iff (x := x) hm64
        rw [if_pos htwo]
        simp only [hhalf]
        rw [hdouble] at hx hw
        by_cases heq : ∀ k, k < 2 ^ m → x.getLsbD (2 ^ m + k) = x.getLsbD k
        · rw [if_neg (not_not_intro (hiff.mpr heq))]
          obtain ⟨j', hsize, h1, hle, hperiodic, hshortest⟩ :=
            ih (by omega) (by omega) (by omega) (by omega) (hx.half heq)
          exact ⟨j', hsize, h1, by omega, hperiodic, hshortest⟩
        · rw [if_pos (mt hiff.mp heq), hdouble]
          refine ⟨m + 1, hdouble.symm, by omega, Nat.le_refl _, ?_, .inr ?_⟩
          · rw [hdouble]
            exact hx
          · exact not_periodic_half hw heq
      · rw [if_neg htwo]
        have hj1 : j = 1 := by
          by_contra h
          have : 2 ^ 2 ≤ 2 ^ j := Nat.pow_le_pow_right (by omega) (by omega)
          omega
        exact ⟨j, rfl, hj, Nat.le_refl _, hx, .inl hj1⟩

/-! ### The meaning of an encoding, bit by bit -/

/-- A bit of a rotated run. -/
theorem testBit_rotateRight {e c r : ℕ} (hc : c ≤ e) (hr : r < e) {k : ℕ} (hk : k < e) :
    (rotateRight e (2 ^ c - 1) r).testBit k = decide ((k + r) % e < c) := by
  simp only [rotateRight, Nat.testBit_or, Nat.testBit_shiftRight, Nat.testBit_shiftLeft,
    Nat.testBit_mod_two_pow, Nat.testBit_two_pow_sub_one]
  rw [← Bool.decide_and, ← Bool.decide_and, ← Bool.decide_or, decide_eq_decide]
  by_cases hwrap : k + r < e
  · rw [Nat.mod_eq_of_lt hwrap]
    omega
  · rw [Nat.mod_eq_sub_mod (by omega), Nat.mod_eq_of_lt (by omega)]
    omega

/-- A rotated run is an element. -/
theorem rotateRight_lt {e c r : ℕ} (hc : c ≤ e) (hr : r ≤ e) :
    rotateRight e (2 ^ c - 1) r < 2 ^ e := by
  have hpos : 0 < 2 ^ c := Nat.two_pow_pos c
  have hle : 2 ^ c ≤ 2 ^ e := Nat.pow_le_pow_right (by omega) hc
  rw [rotateRight]
  refine Nat.or_lt_two_pow ?_ ?_
  · rw [Nat.shiftRight_eq_div_pow]
    exact lt_of_le_of_lt (Nat.div_le_self _ _) (by omega)
  · rw [Nat.shiftLeft_eq]
    calc (2 ^ c - 1) % 2 ^ r * 2 ^ (e - r)
        < 2 ^ r * 2 ^ (e - r) :=
          Nat.mul_lt_mul_of_pos_right (Nat.mod_lt _ (Nat.two_pow_pos r)) (Nat.two_pow_pos _)
      _ = 2 ^ e := by rw [← pow_add, Nat.add_sub_cancel' hr]

/-- A bit of copies of an element. -/
theorem testBit_replicate {e x : ℕ} (hx : x < 2 ^ e) {n k : ℕ} (hk : k < e * n) :
    (replicate e x n).testBit k = x.testBit (k % e) := by
  induction n generalizing k with
  | zero => simp at hk
  | succ n ih =>
      rw [replicate, Nat.testBit_or, Nat.testBit_shiftLeft]
      by_cases hlow : k < e
      · rw [Nat.mod_eq_of_lt hlow]
        simp [show ¬ e ≤ k by omega]
      · have hhigh : x.testBit k = false := by
          refine Nat.testBit_lt_two_pow (lt_of_lt_of_le hx ?_)
          exact Nat.pow_le_pow_right (by omega) (by omega)
        have hmod : k % e = (k - e) % e := Nat.mod_eq_sub_mod (Nat.not_lt.mp hlow)
        rw [Nat.mul_succ] at hk
        rw [hhigh, hmod, ih (by omega)]
        simp [Nat.not_lt.mp hlow]

/-- A value whose lowest `w` bits are copies of an element of `e` bits, which is a run of `c` ones
that was rotated to the right by `r`. -/
structure IsRotatedRun (w e c r : ℕ) (v : BitVec 64) : Prop where
  bit : ∀ k, k < w → v.getLsbD k = decide ((k % e + r) % e < c)
  above : ∀ k, w ≤ k → v.getLsbD k = false

/-- The run determines the value. -/
theorem IsRotatedRun.unique {w e c r : ℕ} {v v' : BitVec 64} (h : IsRotatedRun w e c r v)
    (h' : IsRotatedRun w e c r v') : v = v' := by
  refine BitVec.eq_of_getLsbD_eq fun k _ => ?_
  by_cases hk : k < w
  · rw [h.bit k hk, h'.bit k hk]
  · rw [h.above k (Nat.not_lt.mp hk), h'.above k (Nat.not_lt.mp hk)]

/-- The copies of an element end with the last copy. -/
theorem replicate_lt {e x : ℕ} (hx : x < 2 ^ e) (n : ℕ) : replicate e x n < 2 ^ (e * n) := by
  induction n with
  | zero => simp [replicate]
  | succ n ih =>
      rw [replicate, Nat.mul_succ]
      refine Nat.or_lt_two_pow ?_ ?_
      · exact lt_of_lt_of_le hx (Nat.pow_le_pow_right (by omega) (by omega))
      · rw [Nat.shiftLeft_eq, pow_add]
        exact Nat.mul_lt_mul_of_pos_right ih (Nat.two_pow_pos e)

/-- The value that copies of a rotated run make. -/
theorem isRotatedRun_replicate {w e c r : ℕ} (he : 0 < e) (hw : w ≤ 64) (hdvd : e ∣ w)
    (hc : c ≤ e) (hr : r < e) :
    IsRotatedRun w e c r
      (BitVec.ofNat 64 (replicate e (rotateRight e (2 ^ c - 1) r) (w / e))) := by
  have hlt := rotateRight_lt (r := r) hc hr.le
  have hcover : e * (w / e) = w := Nat.mul_div_cancel' hdvd
  have hcopies := replicate_lt hlt (w / e)
  rw [hcover] at hcopies
  constructor
  · intro k hk
    rw [BitVec.getLsbD_ofNat, decide_eq_true (hk.trans_le hw), Bool.true_and,
      testBit_replicate hlt (by omega), testBit_rotateRight hc hr (Nat.mod_lt _ he)]
  · intro k hk
    rw [BitVec.getLsbD_ofNat, Nat.testBit_lt_two_pow
      (hcopies.trans_le (Nat.pow_le_pow_right (by omega) hk)), Bool.and_false]

/-! ### The fields of an encoding -/

/-- The fields of an encoding. -/
def encodingOf (N immr imms : ℕ) : BitVec 13 := BitVec.ofNat 13 (N * 4096 + immr * 64 + imms)

/-- Reading the fields of an encoding. -/
theorem encodingOf_fields {N immr imms : ℕ} (hN : N < 2) (hr : immr < 64) (hs : imms < 64) :
    ((encodingOf N immr imms).extractLsb' 12 1).toNat = N ∧
      ((encodingOf N immr imms).extractLsb' 6 6).toNat = immr ∧
      ((encodingOf N immr imms).extractLsb' 0 6).toNat = imms := by
  simp only [encodingOf, BitVec.extractLsb'_toNat, BitVec.toNat_ofNat, Nat.shiftRight_eq_div_pow]
  refine ⟨?_, ?_, ?_⟩ <;> omega

/-- The size of an element as the encoding has it. -/
def sizeField (j : ℕ) : ℕ := if j = 6 then 0 else 64 - 2 ^ (j + 1)

/-- Keeping the low bits of a number. -/
theorem ofNat_and_mask {a j : ℕ} (ha : a < 2 ^ 64) (hj : j ≤ 6) :
    BitVec.ofNat 64 a &&& BitVec.ofNat 64 (2 ^ j - 1) = BitVec.ofNat 64 (a % 2 ^ j) := by
  have hle : 2 ^ j ≤ 2 ^ 6 := Nat.pow_le_pow_right (by omega) hj
  have hmod : a % 2 ^ j ≤ a := Nat.mod_le _ _
  refine BitVec.eq_of_toNat_eq ?_
  rw [BitVec.toNat_and]
  simp only [BitVec.toNat_ofNat]
  rw [Nat.mod_eq_of_lt ha, Nat.mod_eq_of_lt (show 2 ^ j - 1 < 2 ^ 64 by omega),
    Nat.and_two_pow_sub_one_eq_mod, Nat.mod_eq_of_lt (hmod.trans_lt ha)]

/-- The fields side by side. -/
theorem pack_fields {N immr imms : ℕ} (hN : N < 2) (hr : immr < 64) (hs : imms < 64) :
    ((BitVec.ofNat 64 N <<< 12) ||| (BitVec.ofNat 64 immr <<< 6)) ||| BitVec.ofNat 64 imms =
      BitVec.ofNat 64 (N * 4096 + immr * 64 + imms) := by
  refine BitVec.eq_of_toNat_eq ?_
  have hhigh : N * 2 ^ 12 ||| immr * 2 ^ 6 = 2 ^ 6 * (N * 64 + immr) := by
    rw [mul_comm N, ← Nat.two_pow_add_eq_or_of_lt (by omega)]
    ring
  simp only [BitVec.toNat_or, BitVec.toNat_shiftLeft, BitVec.toNat_ofNat, Nat.shiftLeft_eq]
  rw [Nat.mod_eq_of_lt (show N < 2 ^ 64 by omega), Nat.mod_eq_of_lt (show immr < 2 ^ 64 by omega),
    Nat.mod_eq_of_lt (show imms < 2 ^ 64 by omega),
    Nat.mod_eq_of_lt (show N * 2 ^ 12 < 2 ^ 64 by omega),
    Nat.mod_eq_of_lt (show immr * 2 ^ 6 < 2 ^ 64 by omega), hhigh,
    ← Nat.two_pow_add_eq_or_of_lt (by omega)]
  omega

/-- The size and the length of the run in one number. -/
theorem sizeAndLength_eq {j c : ℕ} (hj : 1 ≤ j) (hj6 : j ≤ 6) (hc : c < 2 ^ (j + 1)) :
    (~~~(BitVec.ofNat 64 (2 ^ j - 1)) <<< 1) ||| BitVec.ofNat 64 c =
      BitVec.ofNat 64 (2 ^ 64 - 2 ^ (j + 1) + c) := by
  have hle : 2 ^ (j + 1) ≤ 2 ^ 7 := Nat.pow_le_pow_right (by omega) (by omega)
  have hsucc : 2 ^ (j + 1) = 2 ^ j * 2 := pow_succ 2 j
  have hsize : (~~~(BitVec.ofNat 64 (2 ^ j - 1)) <<< 1).toNat = 2 ^ 64 - 2 ^ (j + 1) := by
    rw [BitVec.toNat_shiftLeft, BitVec.toNat_not, Nat.shiftLeft_eq]
    simp only [BitVec.toNat_ofNat]
    omega
  have hmult : 2 ^ 64 - 2 ^ (j + 1) = 2 ^ (j + 1) * (2 ^ (63 - j) - 1) := by
    rw [Nat.mul_sub, ← pow_add, mul_one]
    congr 2
    omega
  refine BitVec.eq_of_toNat_eq ?_
  rw [BitVec.toNat_or, hsize, hmult]
  simp only [BitVec.toNat_ofNat]
  rw [Nat.mod_eq_of_lt (show c < 2 ^ 64 by omega), ← Nat.two_pow_add_eq_or_of_lt hc,
    ← hmult, Nat.mod_eq_of_lt (by omega)]

/-- The fields that `encodeElement` writes. -/
theorem encodeElement_eq {j I c : ℕ} (hj : 1 ≤ j) (hj6 : j ≤ 6) (hc : 0 < c)
    (hce : c < 2 ^ j) :
    encodeElement (2 ^ j) I c = BitVec.ofNat 64
      ((if j = 6 then 1 else 0) * 4096 + (2 ^ j - I) % 2 ^ j * 64 +
        (sizeField j + (c - 1))) := by
  have hle : 2 ^ j ≤ 2 ^ 6 := Nat.pow_le_pow_right (by omega) hj6
  have hsucc : 2 ^ (j + 1) = 2 ^ j * 2 := pow_succ 2 j
  have hmod := Nat.mod_lt (2 ^ j - I) (Nat.two_pow_pos j)
  have hfield : sizeField j + (c - 1) < 64 ∧
      (2 ^ 64 - 2 ^ (j + 1) + (c - 1)) % 64 = sizeField j + (c - 1) ∧
      (2 ^ 64 - 2 ^ (j + 1) + (c - 1)) / 64 % 2 = if j = 6 then 0 else 1 := by
    rw [sizeField]
    obtain rfl | hlt := eq_or_lt_of_le hj6
    · norm_num at hce ⊢
      omega
    · have hle5 : 2 ^ j ≤ 2 ^ 5 := Nat.pow_le_pow_right (by omega) (by omega)
      rw [if_neg (by omega), if_neg (by omega)]
      omega
  obtain ⟨hs, hlow, hbit⟩ := hfield
  rw [encodeElement]
  rw [ofNat_and_mask (by omega) hj6, sizeAndLength_eq hj hj6 (by omega)]
  have himms : BitVec.ofNat 64 (2 ^ 64 - 2 ^ (j + 1) + (c - 1)) &&& 0x3F#64 =
      BitVec.ofNat 64 (sizeField j + (c - 1)) := by
    have h := ofNat_and_mask (a := 2 ^ 64 - 2 ^ (j + 1) + (c - 1)) (j := 6) (by omega) (by omega)
    rw [← hlow]
    exact h
  have hN : (BitVec.ofNat 64 (2 ^ 64 - 2 ^ (j + 1) + (c - 1)) >>> 6 &&& 1#64) ^^^ 1#64 =
      BitVec.ofNat 64 (if j = 6 then 1 else 0) := by
    have hshift : BitVec.ofNat 64 (2 ^ 64 - 2 ^ (j + 1) + (c - 1)) >>> 6 =
        BitVec.ofNat 64 ((2 ^ 64 - 2 ^ (j + 1) + (c - 1)) / 64) := by
      refine BitVec.eq_of_toNat_eq ?_
      rw [BitVec.toNat_ushiftRight, Nat.shiftRight_eq_div_pow]
      simp only [BitVec.toNat_ofNat]
      omega
    have hand := ofNat_and_mask (a := (2 ^ 64 - 2 ^ (j + 1) + (c - 1)) / 64) (j := 1)
      (by omega) (by omega)
    rw [pow_one, hbit] at hand
    rw [hshift]
    refine (congrArg (· ^^^ 1#64) hand).trans ?_
    split <;> rfl
  rw [himms, hN]
  refine pack_fields ?_ (by omega) hs
  split <;> omega

/-! ### Decoding -/

/-- The width of a register. -/
def regWidth (is64 : Bool) : ℕ := if is64 then 64 else 32

/-- The highest size of an element, as a power of two. -/
def maxSize (is64 : Bool) : ℕ := if is64 then 6 else 5

theorem two_pow_maxSize (is64 : Bool) : 2 ^ maxSize is64 = regWidth is64 := by
  cases is64 <;> rfl

theorem two_pow_dvd_regWidth {is64 : Bool} {j : ℕ} (hj : j ≤ maxSize is64) :
    2 ^ j ∣ regWidth is64 := by
  rw [← two_pow_maxSize]
  exact pow_dvd_pow 2 hj

/-- **What an encoding means**: a reserved encoding means nothing, every other encoding is a
rotated run of ones. -/
theorem decodeBitMasks_isRotatedRun {is64 : Bool} {encoding : BitVec 13} {v : BitVec 64}
    (h : decodeBitMasks is64 encoding = some v) :
    ∃ j c r, 1 ≤ j ∧ j ≤ maxSize is64 ∧ 0 < c ∧ c < 2 ^ j ∧ r < 2 ^ j ∧
      IsRotatedRun (regWidth is64) (2 ^ j) c r v := by
  have hN := (encoding.extractLsb' 12 1).isLt
  have hs := (encoding.extractLsb' 0 6).isLt
  rw [decodeBitMasks] at h
  simp only at h
  revert h
  generalize (encoding.extractLsb' 12 1).toNat = N at hN ⊢
  generalize (encoding.extractLsb' 6 6).toNat = immr
  generalize (encoding.extractLsb' 0 6).toNat = imms at hs ⊢
  intro h
  split at h
  · cases h
  · rename_i hlen
    split at h
    · cases h
    · rename_i hfull
      set len := (64 * N + (63 - imms)).log2 with hlog
      have hpos : 0 < 2 ^ len := Nat.two_pow_pos len
      have hne : 64 * N + (63 - imms) ≠ 0 := by
        intro hzero
        rw [hzero, Nat.log2_zero] at hlog
        omega
      have hmax : len ≤ maxSize is64 := by
        have hself := Nat.log2_self_le hne
        rw [← hlog] at hself
        cases is64 with
        | true =>
            by_contra hgt
            have hseven : 2 ^ 7 ≤ 2 ^ len := Nat.pow_le_pow_right (by omega) (Nat.not_le.mp hgt)
            omega
        | false =>
            have hzero : N ≠ 1 := fun h1 => hlen (.inr ⟨rfl, h1⟩)
            by_contra hgt
            have hsix : 2 ^ 6 ≤ 2 ^ len := Nat.pow_le_pow_right (by omega) (Nat.not_le.mp hgt)
            omega
      have hS := Nat.mod_lt imms hpos
      refine ⟨len, imms % 2 ^ len + 1, immr % 2 ^ len, by omega, hmax, by omega, by omega,
        Nat.mod_lt _ hpos, ?_⟩
      have hw : regWidth is64 ≤ 64 := by cases is64 <;> simp [regWidth]
      have hrun := isRotatedRun_replicate (c := imms % 2 ^ len + 1) (r := immr % 2 ^ len) hpos hw
        (two_pow_dvd_regWidth hmax) (by omega) (Nat.mod_lt _ hpos)
      obtain rfl := Option.some.inj h
      exact hrun

/-- The meaning of the encoding of an element. -/
theorem decodeBitMasks_encodingOf {is64 : Bool} {j c r : ℕ} (hj : 1 ≤ j) (hjm : j ≤ maxSize is64)
    (hc : 0 < c) (hce : c < 2 ^ j) (hr : r < 2 ^ j) :
    ∃ v, decodeBitMasks is64 (encodingOf (if j = 6 then 1 else 0) r (sizeField j + (c - 1))) =
        some v ∧ IsRotatedRun (regWidth is64) (2 ^ j) c r v := by
  have hj6 : j ≤ 6 := hjm.trans (by cases is64 <;> simp [maxSize])
  have hle : 2 ^ j ≤ 2 ^ 6 := Nat.pow_le_pow_right (by omega) hj6
  have hsucc : 2 ^ (j + 1) = 2 ^ j * 2 := pow_succ 2 j
  have hdvd : 2 ^ j ∣ 64 := pow_dvd_pow 2 hj6
  have hpos : 0 < 2 ^ j := Nat.two_pow_pos j
  have hw : regWidth is64 ≤ 64 := by cases is64 <;> simp [regWidth]
  have hsize : sizeField j % 2 ^ j = 0 ∧ sizeField j + (c - 1) < 64 ∧
      64 * (if j = 6 then 1 else 0) + (63 - (sizeField j + (c - 1))) = 2 * 2 ^ j - c := by
    rw [sizeField]
    obtain rfl | hlt := eq_or_lt_of_le hj6
    · norm_num at hce ⊢
      omega
    · have hle5 : 2 ^ j ≤ 2 ^ 5 := Nat.pow_le_pow_right (by omega) (by omega)
      rw [if_neg (by omega), if_neg (by omega)]
      refine ⟨Nat.mod_eq_zero_of_dvd (Nat.dvd_sub hdvd ⟨2, hsucc⟩), by omega, by omega⟩
  obtain ⟨hmod, hs, hlen⟩ := hsize
  have hlog : (2 * 2 ^ j - c).log2 = j := (Nat.log2_eq_iff (by omega)).mpr ⟨by omega, by omega⟩
  have hlow : (sizeField j + (c - 1)) % 2 ^ j = c - 1 := by
    rw [Nat.add_mod, hmod, zero_add, Nat.mod_mod, Nat.mod_eq_of_lt (by omega)]
  obtain ⟨hfN, hfr, hfs⟩ := encodingOf_fields
    (show (if j = 6 then 1 else 0) < 2 by split <;> omega) (show r < 64 by omega) hs
  have hrun := isRotatedRun_replicate (c := c) (r := r) hpos hw
        (two_pow_dvd_regWidth hjm) hce.le hr
  refine ⟨_, ?_, hrun⟩
  rw [decodeBitMasks]
  simp only [hfN, hfr, hfs, hlen, hlog, hlow, Nat.mod_eq_of_lt hr, Nat.sub_add_cancel hc]
  rw [if_neg, if_neg (by omega)]
  · rfl
  · rintro (h | ⟨rfl, h⟩)
    · omega
    · simp only [maxSize] at hjm
      simp at h
      simp at hjm
      omega

/-! ### The element of a value -/

/-- A run passes the test. -/
theorem isShiftedMask_of_isRun {x : BitVec 64} {i n : ℕ} (hin : i < n) (hn : n ≤ 64)
    (h : IsRun x i n) : isShiftedMask_64 x = true :=
  isShiftedMask_64_iff.mpr ⟨i, n, hin, hn, (isRun_iff_toNat hin.le).mp h⟩

/-- What passes the test is a run. -/
theorem isRun_of_isShiftedMask {x : BitVec 64} (h : isShiftedMask_64 x = true) :
    ∃ i n, i < n ∧ n ≤ 64 ∧ IsRun x i n := by
  obtain ⟨i, n, hin, hn, hx⟩ := isShiftedMask_64_iff.mp h
  exact ⟨i, n, hin, hn, (isRun_iff_toNat hin.le).mpr hx⟩

/-- The position of a run. -/
theorem IsRun.ctz {x : BitVec 64} {i n : ℕ} (h : IsRun x i n) (hin : i < n) :
    x.ctz.toNat = i := by
  refine ctz_eq ?_ fun k hk => ?_
  · rw [h i]
    simp [hin]
  · rw [h k]
    simp [hk]

/-- The length of a run. -/
theorem IsRun.ctz_shifted {x : BitVec 64} {i n : ℕ} (h : IsRun x i n) (hin : i < n)
    (hn : n - i < 64) : (~~~(x >>> i)).ctz.toNat = n - i := by
  refine ctz_eq ?_ fun k hk => ?_
  · rw [BitVec.getLsbD_not, BitVec.getLsbD_ushiftRight, h (i + (n - i))]
    simp only [decide_eq_true hn, Bool.true_and, Bool.not_eq_true', decide_eq_false_iff_not]
    omega
  · rw [BitVec.getLsbD_not, BitVec.getLsbD_ushiftRight, h (i + k)]
    have : i ≤ i + k ∧ i + k < n := by omega
    simp [this]

/-- The zeros above a run. -/
theorem IsRun.clz {x : BitVec 64} {i n : ℕ} (h : IsRun x i n) (hin : i < n) :
    x.clz.toNat = 64 - n := by
  refine clz_eq (by omega) ?_ fun k hk => ?_
  · rw [h (n - 1)]
    have : i ≤ n - 1 ∧ n - 1 < n := by omega
    simp [this]
  · rw [h k]
    simp only [decide_eq_false_iff_not]
    omega

/-- The mask of an element. -/
theorem elementMask_eq {j : ℕ} (hj : j ≤ 6) :
    (if 2 ^ j = 64 then 0xFFFFFFFFFFFFFFFF#64 else (1#64 <<< 2 ^ j) - 1#64) =
      lowBits 64 (2 ^ j) := by
  have hle : 2 ^ j ≤ 2 ^ 6 := Nat.pow_le_pow_right (by omega) hj
  by_cases h64 : 2 ^ j = 64
  · rw [if_pos h64, h64]
    rfl
  · rw [if_neg h64, shiftLeft_sub_one_eq_lowBits (by omega)]

/-- The values that the search refuses before it looks for an element. -/
theorem trivial_iff {imm : BitVec 64} {is64 : Bool} :
    (imm = 0#64 ∨ (if is64 then 0xFFFFFFFFFFFFFFFF#64 else 0xFFFFFFFF#64) ≤ imm) ↔
      imm.toNat = 0 ∨ 2 ^ regWidth is64 - 1 ≤ imm.toNat := by
  rw [← BitVec.toNat_inj, BitVec.le_def]
  cases is64 <;> rfl

/-- A value below the power of two of a width has no bits above. -/
theorem getLsbD_above {imm : BitVec 64} {w k : ℕ} (h : imm.toNat < 2 ^ w) (hk : w ≤ k) :
    imm.getLsbD k = false :=
  Nat.testBit_lt_two_pow (h.trans_le (Nat.pow_le_pow_right (by omega) hk))

/-- The full width is a period. -/
theorem periodic_full {is64 : Bool} (imm : BitVec 64) :
    Periodic (regWidth is64) (2 ^ maxSize is64) imm := by
  intro k hk
  rw [two_pow_maxSize, Nat.mod_eq_of_lt hk]

/-- What the search for the element returns. -/
theorem elementSize_of_register (is64 : Bool) (imm : BitVec 64) :
    ∃ j, elementSize imm 6 (if is64 then 64 else 32) = 2 ^ j ∧ 1 ≤ j ∧ j ≤ maxSize is64 ∧
      Periodic (regWidth is64) (2 ^ j) imm ∧
      (j = 1 ∨ ¬ Periodic (regWidth is64) (2 ^ (j - 1)) imm) := by
  have hstart : (if is64 then 64 else 32) = 2 ^ maxSize is64 := by cases is64 <;> rfl
  rw [hstart]
  refine elementSize_spec ?_ ?_ ?_ (two_pow_maxSize is64).le (periodic_full imm)
  all_goals cases is64 <;> simp [maxSize]

/-- **An element that is a run**: the value is the run, rotated. -/
theorem isRotatedRun_of_run {w e i n : ℕ} {imm : BitVec 64} (he : 0 < e) (hew : e ≤ 64)
    (himm : imm.toNat < 2 ^ w) (hperiodic : Periodic w e imm) (hin : i < n) (hn : n ≤ e)
    (hi : i < e) (hrun : IsRun (imm &&& lowBits 64 e) i n) :
    IsRotatedRun w e (n - i) ((e - i) % e) imm := by
  refine ⟨fun k hk => ?_, fun k hk => getLsbD_above himm hk⟩
  have hke := Nat.mod_lt k he
  have hbit := hrun (k % e)
  rw [BitVec.getLsbD_and, getLsbD_lowBits, decide_eq_true hke,
    decide_eq_true (hke.trans_le hew), Bool.and_true, Bool.and_true] at hbit
  rw [hperiodic k hk, hbit, decide_eq_decide, Nat.add_mod_mod]
  rcases Nat.lt_or_ge (k % e) i with hlow | hhigh
  · rw [Nat.mod_eq_of_lt (show k % e + (e - i) < e by omega)]
    omega
  · rw [show k % e + (e - i) = k % e - i + e by omega, Nat.add_mod_right,
      Nat.mod_eq_of_lt (show k % e - i < e by omega)]
    omega

/-- **An element whose zeros are a run**: the value is a run around the end of the element. -/
theorem isRotatedRun_of_zeros {w e i n : ℕ} {imm : BitVec 64} (he : 0 < e) (hew : e ≤ 64)
    (himm : imm.toNat < 2 ^ w) (hperiodic : Periodic w e imm) (hin : i < n) (hn : n < e)
    (hrun : IsRun (~~~((imm &&& lowBits 64 e) ||| ~~~lowBits 64 e)) i n) :
    IsRotatedRun w e (e - (n - i)) ((e - n) % e) imm := by
  refine ⟨fun k hk => ?_, fun k hk => getLsbD_above himm hk⟩
  have hke := Nat.mod_lt k he
  have hbit := hrun (k % e)
  simp only [BitVec.getLsbD_not, BitVec.getLsbD_or, BitVec.getLsbD_and, getLsbD_lowBits,
    decide_eq_true hke, decide_eq_true (hke.trans_le hew), Bool.and_true, Bool.true_and,
    Bool.not_true, Bool.or_false] at hbit
  have hbit' : imm.getLsbD (k % e) = decide ¬ (i ≤ k % e ∧ k % e < n) := by
    rw [decide_not, ← hbit, Bool.not_not]
  rw [hperiodic k hk, hbit', decide_eq_decide, Nat.add_mod_mod]
  rcases Nat.lt_or_ge (k % e) n with hlow | hhigh
  · rw [Nat.mod_eq_of_lt (show k % e + (e - n) < e by omega)]
    omega
  · rw [show k % e + (e - n) = k % e - n + e by omega, Nat.add_mod_right,
      Nat.mod_eq_of_lt (show k % e - n < e by omega)]
    omega

/-! ### Soundness -/

/-- The encoding of the element of a value. -/
theorem encodeElement_decodes {imm : BitVec 64} {is64 : Bool} {j I c : ℕ} (hj : 1 ≤ j)
    (hjm : j ≤ maxSize is64) (hc : 0 < c) (hce : c < 2 ^ j)
    (hrun : IsRotatedRun (regWidth is64) (2 ^ j) c ((2 ^ j - I) % 2 ^ j) imm) :
    (encodeElement (2 ^ j) I c).toNat < 2 ^ 13 ∧
      decodeBitMasks is64 ((encodeElement (2 ^ j) I c).setWidth 13) = some imm := by
  have hj6 : j ≤ 6 := hjm.trans (by cases is64 <;> simp [maxSize])
  have hle : 2 ^ j ≤ 2 ^ 6 := Nat.pow_le_pow_right (by omega) hj6
  have hr : (2 ^ j - I) % 2 ^ j < 2 ^ j := Nat.mod_lt _ (Nat.two_pow_pos j)
  have hs : sizeField j + (c - 1) < 64 := by
    rw [sizeField]
    split
    · omega
    · have hsucc : 2 ^ (j + 1) = 2 ^ j * 2 := pow_succ 2 j
      have hle5 : 2 ^ j ≤ 2 ^ 5 := Nat.pow_le_pow_right (by omega) (by omega)
      omega
  obtain ⟨v, hdecode, hv⟩ := decodeBitMasks_encodingOf hj hjm hc hce hr
  rw [encodeElement_eq hj hj6 hc hce]
  have hN : (if j = 6 then 1 else 0) ≤ 1 := by split <;> omega
  refine ⟨?_, ?_⟩
  · rw [BitVec.toNat_ofNat]
    omega
  · rw [hrun.unique hv, ← hdecode]
    congr 1
    refine BitVec.eq_of_toNat_eq ?_
    simp only [encodingOf, BitVec.toNat_setWidth, BitVec.toNat_ofNat]
    omega

/-- The bits of an element. -/
theorem getLsbD_element {e : ℕ} (he : e ≤ 64) (imm : BitVec 64) (k : ℕ) :
    (imm &&& lowBits 64 e).getLsbD k = (imm.getLsbD k && decide (k < e)) := by
  rw [BitVec.getLsbD_and, getLsbD_lowBits]
  by_cases hk : k < e
  · simp [hk, hk.trans_le he]
  · simp [hk]

/-- The zeros of an element. -/
theorem getLsbD_zeros {e : ℕ} (he : e ≤ 64) (imm : BitVec 64) (k : ℕ) :
    (~~~((imm &&& lowBits 64 e) ||| ~~~lowBits 64 e)).getLsbD k =
      (!imm.getLsbD k && decide (k < e)) := by
  rw [BitVec.getLsbD_not, BitVec.getLsbD_or, getLsbD_element he, BitVec.getLsbD_not,
    getLsbD_lowBits]
  by_cases hk : k < e
  · simp [hk, hk.trans_le he]
  · by_cases hk64 : k < 64 <;> simp [hk, hk64]

/-- The search after the size of the element is known. -/
theorem processLogicalImmediate_eq {imm : BitVec 64} {is64 : Bool} {j : ℕ} (hj : j ≤ 6)
    (htrivial : ¬ (imm.toNat = 0 ∨ 2 ^ regWidth is64 - 1 ≤ imm.toNat))
    (hsize : elementSize imm 6 (if is64 then 64 else 32) = 2 ^ j) :
    processLogicalImmediate imm is64 =
      let element := imm &&& lowBits 64 (2 ^ j)
      let zeros := ~~~(element ||| ~~~lowBits 64 (2 ^ j))
      if isShiftedMask_64 element then
        some (encodeElement (2 ^ j) element.ctz.toNat
          (~~~(element >>> element.ctz.toNat)).ctz.toNat)
      else if ¬ isShiftedMask_64 zeros then none
      else some (encodeElement (2 ^ j) (64 - zeros.clz.toNat)
        (zeros.clz.toNat + zeros.ctz.toNat - (64 - 2 ^ j))) := by
  rw [processLogicalImmediate, if_neg (mt trivial_iff.mp htrivial), hsize]
  simp only [elementMask_eq hj]

/-- A value that is not all ones has a zero in its element. -/
theorem IsRotatedRun.length_lt {w e c r : ℕ} {imm : BitVec 64} (h : IsRotatedRun w e c r imm)
    (he : 0 < e) (hmax : ¬ 2 ^ w - 1 ≤ imm.toNat) : c < e := by
  by_contra hfull
  refine hmax (Nat.le_of_eq (Nat.eq_of_testBit_eq fun k => ?_))
  rw [Nat.testBit_two_pow_sub_one, BitVec.testBit_toNat]
  by_cases hk : k < w
  · have hmod := Nat.mod_lt (k % e + r) he
    rw [h.bit k hk, decide_eq_decide]
    omega
  · rw [h.above k (Nat.not_lt.mp hk), decide_eq_false hk]

/-- When the zeros are a run and the ones are not, the zeros end before the element does. -/
theorem zeros_end_lt {w e i n : ℕ} {imm : BitVec 64} (hpos : 0 < e) (he : e ≤ 64)
    (himm : imm.toNat < 2 ^ w) (hperiodic : Periodic w e imm) (hzero : imm.toNat ≠ 0)
    (hmask : ¬ isShiftedMask_64 (imm &&& lowBits 64 e) = true) (hn : n ≤ e)
    (hzeros : ∀ k, (!imm.getLsbD k && decide (k < e)) = decide (i ≤ k ∧ k < n)) : n < e := by
  by_contra hfull
  have hne : ∀ k, k < e → imm.getLsbD k = decide (k < i) := by
    intro k hk
    have hbit := hzeros k
    rw [decide_eq_true hk, Bool.and_true, Bool.not_eq_eq_eq_not, ← decide_not] at hbit
    rw [hbit, decide_eq_decide]
    omega
  rcases Nat.eq_zero_or_pos i with rfl | hi
  · -- all bits of the element are zeros
    refine hzero (Nat.eq_of_testBit_eq fun k => ?_)
    rw [Nat.zero_testBit, BitVec.testBit_toNat]
    by_cases hk : k < w
    · rw [hperiodic k hk, hne _ (Nat.mod_lt k hpos)]
      rfl
    · exact getLsbD_above himm (Nat.not_lt.mp hk)
  · -- the ones are the run below the zeros
    have hones : IsRun (imm &&& lowBits 64 e) 0 (min i e) := by
      intro k
      rw [getLsbD_element he]
      by_cases hk : k < e
      · rw [hne k hk, decide_eq_true hk, Bool.and_true, decide_eq_decide]
        omega
      · have hki : ¬ k < min i e := by omega
        simp [hk, hki]
    exact hmask (isShiftedMask_of_isRun (by omega) (by omega) hones)

/-- **An encoding that is returned denotes the value.** -/
theorem processLogicalImmediate_decodes {imm encoding : BitVec 64} {is64 : Bool}
    (h : processLogicalImmediate imm is64 = some encoding) :
    encoding.toNat < 2 ^ 13 ∧ decodeBitMasks is64 (encoding.setWidth 13) = some imm := by
  by_cases htrivial : imm.toNat = 0 ∨ 2 ^ regWidth is64 - 1 ≤ imm.toNat
  · rw [processLogicalImmediate, if_pos (trivial_iff.mpr htrivial)] at h
    cases h
  · obtain ⟨hzero, hmax⟩ := not_or.mp htrivial
    obtain ⟨j, hsize, hj, hjm, hperiodic, -⟩ := elementSize_of_register is64 imm
    have hj6 : j ≤ 6 := hjm.trans (by cases is64 <;> simp [maxSize])
    have he : 2 ^ j ≤ 64 := Nat.pow_le_pow_right (by omega) hj6
    have hpos : 0 < 2 ^ j := Nat.two_pow_pos j
    have himm : imm.toNat < 2 ^ regWidth is64 := by omega
    rw [processLogicalImmediate_eq hj6 htrivial hsize] at h
    simp only at h
    by_cases hmask : isShiftedMask_64 (imm &&& lowBits 64 (2 ^ j)) = true
    · obtain ⟨i, n, hin, -, hrun⟩ := isRun_of_isShiftedMask hmask
      have hlast := getLsbD_element he imm (n - 1)
      rw [hrun (n - 1), decide_eq_true (show i ≤ n - 1 ∧ n - 1 < n by omega)] at hlast
      have hn : n ≤ 2 ^ j := by
        have := (Bool.and_eq_true _ _).mp hlast.symm
        have := of_decide_eq_true this.2
        omega
      have hi : i < 2 ^ j := by omega
      have hrotated := isRotatedRun_of_run hpos he himm hperiodic hin hn hi hrun
      have hce := hrotated.length_lt hpos hmax
      rw [if_pos hmask, hrun.ctz hin, hrun.ctz_shifted hin (by omega)] at h
      obtain rfl := Option.some.inj h
      exact encodeElement_decodes hj hjm (by omega) hce hrotated
    · rw [if_neg hmask] at h
      split at h
      · cases h
      · rename_i hzeros
        obtain ⟨i, n, hin, hn64, hrun⟩ := isRun_of_isShiftedMask (not_not.mp hzeros)
        have hzerosBit : ∀ k, (!imm.getLsbD k && decide (k < 2 ^ j)) =
            decide (i ≤ k ∧ k < n) := by
          intro k
          rw [← hrun k, getLsbD_zeros he]
        have hn' : n ≤ 2 ^ j := by
          have hlast := hzerosBit (n - 1)
          rw [decide_eq_true (show i ≤ n - 1 ∧ n - 1 < n by omega)] at hlast
          have := of_decide_eq_true ((Bool.and_eq_true _ _).mp hlast).2
          omega
        have hn : n < 2 ^ j := 
          zeros_end_lt hpos he himm hperiodic hzero hmask hn' hzerosBit
        have hrotated := isRotatedRun_of_zeros hpos he himm hperiodic hin hn hrun
        rw [hrun.clz hin, hrun.ctz hin] at h
        obtain rfl := Option.some.inj h
        rw [show 64 - (64 - n) = n by omega,
          show 64 - n + i - (64 - 2 ^ j) = 2 ^ j - (n - i) by omega]
        exact encodeElement_decodes hj hjm (by omega) (by omega) hrotated

/-! ### Completeness -/

/-- A period stays a period when it is doubled. -/
theorem Periodic.of_le {w j j' : ℕ} {imm : BitVec 64} (h : Periodic w (2 ^ j) imm)
    (hjj' : j ≤ j') : Periodic w (2 ^ j') imm := by
  intro k hk
  have hmod : k % 2 ^ j' % 2 ^ j = k % 2 ^ j := Nat.mod_mod_of_dvd k (pow_dvd_pow 2 hjj')
  rw [h k hk, h (k % 2 ^ j') ((Nat.mod_le _ _).trans_lt hk), hmod]

/-- The element repeats. -/
theorem IsRotatedRun.periodic {w e c r : ℕ} {imm : BitVec 64} (h : IsRotatedRun w e c r imm) :
    Periodic w e imm := by
  intro k hk
  rw [h.bit k hk, h.bit (k % e) ((Nat.mod_le _ _).trans_lt hk), Nat.mod_mod]

/-- The bit of an element at a distance from the start of the run. -/
theorem IsRotatedRun.bit_at {w e c r : ℕ} {imm : BitVec 64} (h : IsRotatedRun w e c r imm)
    (hr : r < e) (hew : e ≤ w) {m : ℕ} (hm : m < e) :
    imm.getLsbD ((m + (e - r)) % e) = decide (m < c) := by
  have hmod := Nat.mod_lt (m + (e - r)) (show 0 < e by omega)
  rw [h.bit _ (hmod.trans_le hew), Nat.mod_mod, Nat.mod_add_mod,
    show m + (e - r) + r = m + e by omega, Nat.add_mod_right, Nat.mod_eq_of_lt hm]

/-- Half of the element does not repeat. -/
theorem IsRotatedRun.not_periodic_half {w h c r : ℕ} {imm : BitVec 64}
    (hrun : IsRotatedRun w (2 * h) c r imm) (hc : 0 < c) (hce : c < 2 * h) (hr : r < 2 * h)
    (hew : 2 * h ≤ w) : ¬ Periodic w h imm := by
  intro hperiodic
  -- bits at the distance of the half agree
  have hagree : ∀ m, m < h → decide (m < c) = decide (m + h < c) := by
    intro m hm
    rw [← hrun.bit_at hr hew (show m < 2 * h by omega),
      ← hrun.bit_at hr hew (show m + h < 2 * h by omega)]
    have hmod : ∀ k, k % (2 * h) % h = k % h := fun k =>
      Nat.mod_mod_of_dvd k (Dvd.intro_left 2 rfl)
    have hlt : ∀ k, k % (2 * h) < w := fun k =>
      (Nat.mod_lt k (show 0 < 2 * h by omega)).trans_le hew
    rw [hperiodic _ (hlt _), hperiodic ((m + h + _) % (2 * h)) (hlt _), hmod, hmod,
      show m + h + (2 * h - r) = m + (2 * h - r) + h by omega, Nat.add_mod_right]
  have hfirst := decide_eq_decide.mp (hagree 0 (by omega))
  have hlast := decide_eq_decide.mp (hagree (h - 1) (by omega))
  omega

/-- The shortest element is the element of the encoding. -/
theorem IsRotatedRun.size_unique {w j j' c r : ℕ} {imm : BitVec 64}
    (h : IsRotatedRun w (2 ^ j) c r imm) (hj : 1 ≤ j) (hc : 0 < c) (hce : c < 2 ^ j)
    (hr : r < 2 ^ j) (hew : 2 ^ j ≤ w) (hperiodic : Periodic w (2 ^ j') imm)
    (hshortest : j' = 1 ∨ ¬ Periodic w (2 ^ (j' - 1)) imm) : j' = j := by
  obtain ⟨m, rfl⟩ : ∃ m, j = m + 1 := ⟨j - 1, by omega⟩
  rcases Nat.lt_trichotomy j' (m + 1) with hlt | heq | hgt
  · rw [pow_succ, mul_comm] at h hce hr hew
    exact absurd (hperiodic.of_le (by omega)) (h.not_periodic_half hc hce hr hew)
  · exact heq
  · rcases hshortest with h1 | hne
    · omega
    · exact absurd (h.periodic.of_le (by omega)) hne

/-- A rotated run is neither zero nor all ones. -/
theorem IsRotatedRun.not_trivial {w e c r : ℕ} {imm : BitVec 64} (h : IsRotatedRun w e c r imm)
    (hc : 0 < c) (hce : c < e) (hr : r < e) (hew : e ≤ w) :
    ¬ (imm.toNat = 0 ∨ 2 ^ w - 1 ≤ imm.toNat) := by
  rintro (hzero | hmax)
  · have hbit := h.bit_at hr hew (show 0 < e by omega)
    rw [← BitVec.testBit_toNat, hzero, Nat.zero_testBit] at hbit
    simp [hc] at hbit
  · have hlt : imm.toNat < 2 ^ w := by
      refine Nat.lt_pow_two_of_testBit _ fun k hk => ?_
      exact h.above k hk
    have hones : imm.toNat = 2 ^ w - 1 := by omega
    have hbit := h.bit_at hr hew (show e - 1 < e by omega)
    have hmod := Nat.mod_lt (e - 1 + (e - r)) (show 0 < e by omega)
    rw [← BitVec.testBit_toNat, hones, Nat.testBit_two_pow_sub_one,
      decide_eq_true (hmod.trans_le hew)] at hbit
    have := of_decide_eq_true hbit.symm
    omega

/-- When the ones of a rotated run are no run, its zeros are. -/
theorem IsRotatedRun.zeros_of_not_mask {w e c r : ℕ} {imm : BitVec 64}
    (h : IsRotatedRun w e c r imm) (he : e ≤ 64) (hc : 0 < c) (hce : c < e) (hr : r < e)
    (hew : e ≤ w) (hmask : ¬ isShiftedMask_64 (imm &&& lowBits 64 e) = true) :
    isShiftedMask_64 (~~~((imm &&& lowBits 64 e) ||| ~~~lowBits 64 e)) = true := by
  have hbits : ∀ k, k < e → imm.getLsbD k =
      decide (k + r < e ∧ k + r < c ∨ e ≤ k + r ∧ k + r - e < c) := by
    intro k hk
    rw [h.bit k (hk.trans_le hew), Nat.mod_eq_of_lt hk, decide_eq_decide]
    by_cases hwrap : k + r < e
    · rw [Nat.mod_eq_of_lt hwrap]
      omega
    · rw [Nat.mod_eq_sub_mod (Nat.not_lt.mp hwrap), Nat.mod_eq_of_lt (by omega)]
      omega
  -- a run that does not go around the end of the element
  have hrun : ∀ i, i + c ≤ e → (∀ k, k < e → (k + r < e ∧ k + r < c ∨
      e ≤ k + r ∧ k + r - e < c ↔ i ≤ k ∧ k < i + c)) →
      isShiftedMask_64 (imm &&& lowBits 64 e) = true := by
    intro i hi hiff
    refine isShiftedMask_of_isRun (i := i) (n := i + c) (by omega) (by omega) fun k => ?_
    rw [getLsbD_element he]
    by_cases hk : k < e
    · rw [hbits k hk, decide_eq_true hk, Bool.and_true, decide_eq_decide, hiff k hk]
    · have hki : ¬ k < i + c := by omega
      simp [hk, hki]
  rcases Nat.eq_zero_or_pos r with rfl | hr0
  · exact absurd (hrun 0 (by omega) (by omega)) hmask
  · by_cases hend : c ≤ r
    · exact absurd (hrun (e - r) (by omega) (by omega)) hmask
    · refine isShiftedMask_of_isRun (i := c - r) (n := e - r) (by omega) (by omega) fun k => ?_
      rw [getLsbD_zeros he]
      by_cases hk : k < e
      · rw [hbits k hk, decide_eq_true hk, Bool.and_true, ← decide_not, decide_eq_decide]
        omega
      · have hki : ¬ k < e - r := by omega
        simp [hk, hki]

/-- **A value that an encoding denotes is not refused.** -/
theorem processLogicalImmediate_complete {imm : BitVec 64} {encoding : BitVec 13} {is64 : Bool}
    (h : decodeBitMasks is64 encoding = some imm) :
    (processLogicalImmediate imm is64).isSome = true := by
  obtain ⟨j, c, r, hj, hjm, hc, hce, hr, hrun⟩ := decodeBitMasks_isRotatedRun h
  have hj6 : j ≤ 6 := hjm.trans (by cases is64 <;> simp [maxSize])
  have he : 2 ^ j ≤ 64 := Nat.pow_le_pow_right (by omega) hj6
  have hpos : 0 < 2 ^ j := Nat.two_pow_pos j
  have hew : 2 ^ j ≤ regWidth is64 := by
    rw [← two_pow_maxSize]
    exact Nat.pow_le_pow_right (by omega) hjm
  obtain ⟨j', hsize, -, -, hperiodic, hshortest⟩ := elementSize_of_register is64 imm
  obtain rfl := (hrun.size_unique hj hc hce hr hew hperiodic hshortest).symm
  rw [processLogicalImmediate_eq hj6 (hrun.not_trivial hc hce hr hew) hsize]
  simp only
  by_cases hmask : isShiftedMask_64 (imm &&& lowBits 64 (2 ^ j)) = true
  · rw [if_pos hmask]
    rfl
  · rw [if_neg hmask, if_neg (not_not_intro (hrun.zeros_of_not_mask he hc hce hr hew hmask))]
    rfl

end LogicalImmediate

end WasmCompiler
