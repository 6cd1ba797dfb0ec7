import Mathlib.Algebra.Order.Ring.Int
import Mathlib.Tactic.Positivity
import Mathlib.Tactic.Ring

/-!
# LEB128 Integers

The grammar of integers of variable length: seven bits per byte, the lowest ones first, and the
top bit of a byte says whether another one follows. An integer of `bits` bits may be padded with
zeros or with its sign, as long as the bytes hold at most `bits` bits and the sign.

## Main results

* `LEB128`: the bytes that encode an integer.
* `LEB128.fits`: only integers of the width are encoded.
* `LEB128.length_le`: how many bytes an encoding has at most.
-/

namespace WasmCompiler

/-- The integers of a width, unsigned or signed. -/
def FitsInteger (signed : Bool) (bits : ℕ) (value : ℤ) : Prop :=
  if signed then -2 ^ (bits - 1) ≤ value ∧ value < 2 ^ (bits - 1)
  else 0 ≤ value ∧ value < 2 ^ bits

instance (signed : Bool) (bits : ℕ) (value : ℤ) : Decidable (FitsInteger signed bits value) := by
  unfold FitsInteger
  infer_instance

/-- What a last byte stands for: its seven bits, the uppermost of which is the sign of a signed
integer. -/
def lastByteValue (signed : Bool) (byte : ℕ) : ℤ :=
  if signed ∧ 2 ^ 6 ≤ byte then (byte : ℤ) - 2 ^ 7 else byte

/-- The encodings of an integer of a width. Another byte may follow only if there are more than
seven bits left. -/
inductive LEB128 (signed : Bool) : ℕ → List UInt8 → ℤ → Prop
  | last {bits : ℕ} {byte : UInt8} (hlast : byte.toNat < 2 ^ 7)
      (hfits : FitsInteger signed bits (lastByteValue signed byte.toNat)) :
      LEB128 signed bits [byte] (lastByteValue signed byte.toNat)
  | more {bits : ℕ} {byte : UInt8} {bytes : List UInt8} {value : ℤ} (hmore : 2 ^ 7 ≤ byte.toNat)
      (hbits : 7 < bits) (hbytes : LEB128 signed (bits - 7) bytes value) :
      LEB128 signed bits (byte :: bytes) (2 ^ 7 * value + (byte.toNat - 2 ^ 7))

namespace LEB128

variable {signed : Bool} {bits : ℕ} {bytes : List UInt8} {value : ℤ}

/-- One byte in front of an integer of the width that is left. -/
theorem fits_cons {low : ℤ} (hlow : 0 ≤ low) (hlt : low < 2 ^ 7) (hbits : 7 < bits)
    (h : FitsInteger signed (bits - 7) value) :
    FitsInteger signed bits (2 ^ 7 * value + low) := by
  obtain ⟨rest, rfl⟩ : ∃ rest, bits = rest + 8 := ⟨bits - 8, by omega⟩
  have hpow : (2 : ℤ) ^ (rest + 7) = 2 ^ 7 * 2 ^ rest := by ring
  have hpow' : (2 : ℤ) ^ (rest + 8) = 2 ^ 7 * 2 ^ (rest + 1) := by ring
  cases signed with
  | false =>
      simp only [FitsInteger, Bool.false_eq_true, if_false,
        show rest + 8 - 7 = rest + 1 by omega] at h ⊢
      omega
  | true =>
      simp only [FitsInteger, if_true, show rest + 8 - 7 - 1 = rest by omega,
        show rest + 8 - 1 = rest + 7 by omega] at h ⊢
      omega

/-- Only integers of the width are encoded. -/
theorem fits (h : LEB128 signed bits bytes value) : FitsInteger signed bits value := by
  induction h with
  | last hlast hfits => exact hfits
  | @more bits byte bytes value hmore hbits hbytes ih =>
      have hbyte := byte.toNat_lt
      exact fits_cons (by omega) (by omega) hbits ih

/-- The encodings at the beginning of bytes, by the first byte. -/
theorem cases_of_append {byte : UInt8} {remaining rest : List UInt8}
    (hbytes : byte :: remaining = bytes ++ rest) (h : LEB128 signed bits bytes value) :
    (byte.toNat < 2 ^ 7 ∧ bytes = [byte] ∧ rest = remaining ∧
        value = lastByteValue signed byte.toNat ∧ FitsInteger signed bits value) ∨
      (2 ^ 7 ≤ byte.toNat ∧ 7 < bits ∧ ∃ bytes' value', bytes = byte :: bytes' ∧
        remaining = bytes' ++ rest ∧ LEB128 signed (bits - 7) bytes' value' ∧
        value = 2 ^ 7 * value' + (byte.toNat - 2 ^ 7)) := by
  cases h with
  | last hlast hfits =>
      obtain ⟨rfl, rfl⟩ := List.cons.inj hbytes
      exact Or.inl ⟨hlast, rfl, rfl, rfl, hfits⟩
  | more hmore hbits hrest =>
      obtain ⟨rfl, rfl⟩ := List.cons.inj hbytes
      exact Or.inr ⟨hmore, hbits, _, _, rfl, rfl, hrest, rfl⟩

/-- Seven bits fit a width of at least seven. -/
theorem fits_lastByteValue {byte : ℕ} (hlast : byte < 2 ^ 7) (hbits : 7 ≤ bits) :
    FitsInteger signed bits (lastByteValue signed byte) := by
  obtain ⟨rest, rfl⟩ : ∃ rest, bits = rest + 7 := ⟨bits - 7, by omega⟩
  have hpos : (1 : ℤ) ≤ 2 ^ rest := one_le_pow₀ (by omega)
  have hpow : (2 : ℤ) ^ (rest + 6) = 2 ^ 6 * 2 ^ rest := by ring
  have hpow' : (2 : ℤ) ^ (rest + 7) = 2 ^ 7 * 2 ^ rest := by ring
  cases signed with
  | false =>
      simp only [FitsInteger, lastByteValue, Bool.false_eq_true, if_false, false_and]
      omega
  | true =>
      simp only [FitsInteger, lastByteValue, if_true, true_and,
        show rest + 7 - 1 = rest + 6 by omega]
      split
      · omega
      · omega

/-- An encoding has no more bytes than needed for all bits. -/
theorem length_le (h : LEB128 signed bits bytes value) (hbits : 0 < bits) :
    bytes.length ≤ (bits + 6) / 7 := by
  induction h with
  | last hlast hfits =>
      rw [List.length_singleton]
      omega
  | more hmore hmoreBits hbytes ih =>
      have hle := ih (by omega)
      rw [List.length_cons]
      omega

/-! ### One encoding read in two ways -/

/-- Encodings at the beginning of the same bytes have the same length: the top bits end both. -/
theorem eq_of_append {signed' : Bool} {bits' : ℕ} {bytes' rest rest' : List UInt8} {value' : ℤ}
    (h : LEB128 signed bits bytes value) (h' : LEB128 signed' bits' bytes' value')
    (heq : bytes ++ rest = bytes' ++ rest') : bytes = bytes' ∧ rest = rest' := by
  induction h generalizing bits' bytes' value' with
  | last hlast hfits =>
      rcases h'.cases_of_append heq with ⟨-, rfl, rfl, -⟩ | ⟨hmore, -⟩
      · exact ⟨rfl, rfl⟩
      · omega
  | more hmore hbits hbytes ih =>
      rcases h'.cases_of_append heq with ⟨hlast, -⟩ | ⟨-, -, bytes₁, value₁, rfl, heq₁, h₁, -⟩
      · omega
      · obtain ⟨rfl, rfl⟩ := ih h₁ heq₁
        exact ⟨rfl, rfl⟩

/-- An encoding of a signed integer that is not negative encodes it as an unsigned one, too. -/
theorem unsigned_of_nonneg (h : LEB128 true bits bytes value) (hnonneg : 0 ≤ value) :
    LEB128 false bits bytes value := by
  induction h with
  | @last bits byte hlast hfits =>
      have hvalue : lastByteValue true byte.toNat = lastByteValue false byte.toNat := by
        simp only [lastByteValue, true_and, Bool.false_eq_true, false_and, if_false] at hnonneg ⊢
        split at hnonneg
        · omega
        · rw [if_neg (by assumption)]
      rw [hvalue] at hnonneg hfits ⊢
      refine .last hlast ⟨hnonneg, ?_⟩
      simp only [FitsInteger, if_true] at hfits
      exact hfits.2.trans_le (pow_le_pow_right₀ (by omega) (Nat.sub_le _ _))
  | @more bits byte bytes value hmore hbits hbytes ih =>
      have hbyte := byte.toNat_lt
      exact .more hmore hbits (ih (by omega))

/-- What an encoding encodes as an unsigned integer is not the signed one plus the number of all
integers, unless the last byte can be filled by the width. -/
theorem unsigned_ne {value' : ℤ} (h : LEB128 true bits bytes value)
    (h' : LEB128 false bits bytes value') (hbits : bits % 7 ≠ 0) :
    value' ≠ value + 2 ^ bits := by
  induction h generalizing value' with
  | @last bits byte hlast hfits =>
      have hseven : (2 : ℤ) ^ bits ≠ 2 ^ 7 := fun heq => by
        have := pow_right_injective₀ (by omega : (0 : ℤ) < 2) (by omega) heq
        omega
      have hpos : (0 : ℤ) < 2 ^ bits := by positivity
      cases h' with
      | last _ hfits' =>
          simp only [lastByteValue, true_and, Bool.false_eq_true, false_and, if_false]
          split
          · omega
          · omega
      | more _ _ hrest => cases hrest
  | @more bits byte bytes value hmore hleft hbytes ih =>
      have hpow : (2 : ℤ) ^ bits = 2 ^ 7 * 2 ^ (bits - 7) := by
        rw [← pow_add]
        congr 1
        omega
      cases h' with
      | last hlast' _ => omega
      | @more _ _ _ value₁ _ _ hrest =>
          have hne := ih hrest (by omega)
          omega

end LEB128

end WasmCompiler
