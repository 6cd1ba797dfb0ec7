import Mathlib.Tactic
import Mathlib.Data.BitVec

/-!
# Condition Flags

The status flags two processor families compute for an addition and a subtraction of words,
and the condition codes that branch on them. The families differ in the meaning of the carry
of a subtraction: one sets it on a borrow, the other sets it when there is none. A condition
code is read here as a comparison of the operands as numbers, once for each code in use.

## Main results

* `Aarch64CC.holds_LS`, `X86CC.holds_BE`: unsigned comparisons of the operands.
* `Aarch64CC.holds_MI`: `MI` reads the sign of the difference, not its borrow.
* `Aarch64CC.holds_GE`, `X86CC.holds_GE`: signed comparisons of the operands.
-/

namespace WasmCompiler

/-- The status flags. -/
structure StatusFlags where
  negative : Bool
  zero : Bool
  carry : Bool
  overflow : Bool
  deriving DecidableEq, Repr

variable {w : ℕ}

/-- The flags `ADDS` and `ADD` set. -/
def addFlags (a b : BitVec w) : StatusFlags :=
  { negative := (a + b).msb
    zero := a + b == 0
    carry := decide (2 ^ w ≤ a.toNat + b.toNat)
    overflow := a.msb == b.msb && (a + b).msb != a.msb }

/-- The flags `SUB` and `CMP` set on x86: the carry is the borrow. -/
def subFlags (a b : BitVec w) : StatusFlags :=
  { negative := (a - b).msb
    zero := a - b == 0
    carry := decide (a.toNat < b.toNat)
    overflow := a.msb != b.msb && (a - b).msb != a.msb }

/-- The flags `SUBS` and `CMP` set on AArch64: the carry is set when there is no borrow. -/
def subsFlags (a b : BitVec w) : StatusFlags :=
  { subFlags a b with carry := decide (b.toNat ≤ a.toNat) }

/-- The condition codes of AArch64. -/
inductive Aarch64CC where
  | EQ | NE | CS | LO | MI | PL | HI | LS | GE | LT | GT | LE
  deriving DecidableEq, Repr

/-- The condition codes of x86. -/
inductive X86CC where
  | B | AE | E | NE | BE | A | L | GE | LE | G
  deriving DecidableEq, Repr

/-- When an AArch64 condition code holds. -/
def Aarch64CC.holds (flags : StatusFlags) : Aarch64CC → Bool
  | EQ => flags.zero
  | NE => !flags.zero
  | CS => flags.carry
  | LO => !flags.carry
  | MI => flags.negative
  | PL => !flags.negative
  | HI => flags.carry && !flags.zero
  | LS => !flags.carry || flags.zero
  | GE => flags.negative == flags.overflow
  | LT => flags.negative != flags.overflow
  | GT => !flags.zero && flags.negative == flags.overflow
  | LE => flags.zero || flags.negative != flags.overflow

/-- When an x86 condition code holds; `C` is another name of `B`. -/
def X86CC.holds (flags : StatusFlags) : X86CC → Bool
  | B => flags.carry
  | AE => !flags.carry
  | E => flags.zero
  | NE => !flags.zero
  | BE => flags.carry || flags.zero
  | A => !flags.carry && !flags.zero
  | L => flags.negative != flags.overflow
  | GE => flags.negative == flags.overflow
  | LE => flags.zero || flags.negative != flags.overflow
  | G => !flags.zero && flags.negative == flags.overflow

/-- A difference is zero exactly between equal numbers. -/
theorem sub_eq_zero_iff_toNat (a b : BitVec w) : a - b = 0 ↔ a.toNat = b.toNat := by
  rw [BitVec.toNat_inj]
  constructor
  · intro h
    have hb : a - b + b = 0 + b := by rw [h]
    simpa using hb
  · rintro rfl
    simp

/-- The sign of a difference against its overflow is the signed comparison. -/
theorem subFlags_signed (a b : BitVec w) :
    (subFlags a b).negative = (subFlags a b).overflow ↔ b.toInt ≤ a.toInt := by
  have ha := a.isLt
  have hb := b.isLt
  cases w with
  | zero =>
      obtain rfl : a = 0 := Subsingleton.elim _ _
      obtain rfl : b = 0 := Subsingleton.elim _ _
      simp [subFlags]
  | succ w =>
      have hp : 2 ^ (w + 1) = 2 * 2 ^ w := by rw [pow_succ, Nat.mul_comm]
      simp only [subFlags, BitVec.msb_eq_decide, BitVec.toInt_eq_toNat_cond, BitVec.toNat_sub,
        Nat.add_sub_cancel]
      rw [hp] at ha hb ⊢
      rcases Nat.lt_or_ge a.toNat b.toNat with hlt | hge
      · rw [Nat.mod_eq_of_lt (by omega)]
        grind
      · rw [show 2 * 2 ^ w - b.toNat + a.toNat = 2 * 2 ^ w + (a.toNat - b.toNat) by omega,
          Nat.add_mod_left, Nat.mod_eq_of_lt (by omega)]
        grind

namespace Aarch64CC

/-- `CS` after an addition: the sum leaves the word. -/
@[simp] theorem holds_CS (a b : BitVec w) :
    CS.holds (addFlags a b) ↔ 2 ^ w ≤ a.toNat + b.toNat := by
  simp only [holds, addFlags, decide_eq_true_eq]

/-- `LO` after a comparison. -/
@[simp] theorem holds_LO (a b : BitVec w) :
    LO.holds (subsFlags a b) ↔ a.toNat < b.toNat := by
  simp only [holds, subsFlags, Bool.not_eq_true', decide_eq_false_iff_not, Nat.not_le]

/-- `LS` after a comparison. -/
@[simp] theorem holds_LS (a b : BitVec w) :
    LS.holds (subsFlags a b) ↔ a.toNat ≤ b.toNat := by
  have hzero := sub_eq_zero_iff_toNat a b
  simp only [holds, subsFlags, subFlags, Bool.or_eq_true, Bool.not_eq_true', beq_iff_eq,
    decide_eq_false_iff_not, Nat.not_le, hzero]
  omega

/-- `MI` after a subtraction: the sign bit of the difference. -/
@[simp] theorem holds_MI (a b : BitVec w) :
    MI.holds (subsFlags a b) ↔ (a - b).msb := Iff.rfl

/-- `GE` after a comparison. -/
@[simp] theorem holds_GE (a b : BitVec w) :
    GE.holds (subsFlags a b) ↔ b.toInt ≤ a.toInt := by
  rw [← subFlags_signed a b]
  simp only [holds, subsFlags, beq_iff_eq]

end Aarch64CC

namespace X86CC

/-- `C` after an addition: the sum leaves the word. -/
@[simp] theorem holds_B_add (a b : BitVec w) :
    B.holds (addFlags a b) ↔ 2 ^ w ≤ a.toNat + b.toNat := by
  simp only [holds, addFlags, decide_eq_true_eq]

/-- `B` after a comparison. -/
@[simp] theorem holds_B (a b : BitVec w) :
    B.holds (subFlags a b) ↔ a.toNat < b.toNat := by
  simp only [holds, subFlags, decide_eq_true_eq]

/-- `AE` after a comparison. -/
@[simp] theorem holds_AE (a b : BitVec w) :
    AE.holds (subFlags a b) ↔ b.toNat ≤ a.toNat := by
  simp only [holds, subFlags, Bool.not_eq_true', decide_eq_false_iff_not, Nat.not_lt]

/-- `BE` after a comparison. -/
@[simp] theorem holds_BE (a b : BitVec w) :
    BE.holds (subFlags a b) ↔ a.toNat ≤ b.toNat := by
  have hzero := sub_eq_zero_iff_toNat a b
  simp only [holds, subFlags, Bool.or_eq_true, decide_eq_true_eq, beq_iff_eq, hzero]
  omega

/-- `GE` after a comparison. -/
@[simp] theorem holds_GE (a b : BitVec w) :
    GE.holds (subFlags a b) ↔ b.toInt ≤ a.toInt := by
  rw [← subFlags_signed a b]
  simp only [holds, beq_iff_eq]

end X86CC

end WasmCompiler
