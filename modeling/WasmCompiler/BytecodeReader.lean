import Mathlib.Data.Nat.Bitwise
import WasmCompiler.BinaryImage
import WasmCompiler.Leb128

/-!
# The Reader of the Bytecode

`BytecodeReader`: a cursor in the bytecode that never leaves it, and the decoding of LEB128
integers in one loop for both widths and both signednesses. The loop collects seven bits a
byte, checks the unused bits of the byte with which it exceeds the width, and extends the sign
behind the last byte.

## Main results

* `readLEB128_eq_ok_iff`: what is read is the integer whose encoding stands at the cursor.
-/

namespace WasmCompiler

/-- The errors that the parsers throw. -/
inductive ParseError where
  | bytecodeOutOfRange
  | malformedLEB128IntegerOutOfBounds
  | malformedLEB128SignedIntegerWrongPadding
  | malformedLEB128UnsignedIntegerWrongPadding
  | unknownInstruction
  | simdFeatureNotImplemented
  | bulkMemoryOperationsFeatureNotImplemented
  | tableIndexOutOfBounds
  | tableElementIndexOutOfRange
  | functionIndexOutOfRange
  | malformedGlobalInitializationExpression
  | validationFailed
  | referenceTypeFeatureNotImplemented
  | tooManyTypes
  | malformedSection1WrongType
  | tooManyParams
  | invalidFunctionParameterType
  | tooManyResults
  | invalidFunctionReturnType
  | functionTypeOutOfBounds
  | exportNameTooLong
  | malformedUTF8Sequence
  | unknownExportType
  | functionOutOfRange
  | globalOutOfRange
  | memoryOutOfRange
  | tableOutOfRange
  | duplicateExportSymbol
  /-- What the functions throw that write the binary. -/
  | binary (error : BinaryError)
  deriving DecidableEq, Repr

/-- A check that throws was passed. -/
theorem of_ite_throw_eq_ok {ε α : Type} {p : Prop} [Decidable p] {e : ε} {x : Except ε α} {a : α}
    (h : (if p then .error e else x) = .ok a) : ¬p ∧ x = .ok a := by
  split at h
  · cases h
  · exact ⟨‹_›, h⟩

/-- A result that was mapped. -/
theorem exists_of_map_ok {ε α β : Type} {x : Except ε α} {f : α → β} {b : β}
    (h : x.map f = .ok b) : ∃ a, x = .ok a ∧ f a = b := by
  cases x with
  | error e => cases h
  | ok a => exact ⟨a, rfl, Except.ok.inj h⟩

/-- `BytecodeReader`: the bytes in front of the cursor and those behind it. -/
structure BytecodeReader where
  consumed : List UInt8
  remaining : List UInt8
  deriving DecidableEq, Repr

/-- The integer types that are read. -/
inductive IntegerType where
  | uint32
  | uint64
  | int32
  | int64
  deriving DecidableEq, Repr

namespace IntegerType

/-- `sizeof(Type) * 8`. -/
def bits : IntegerType → ℕ
  | uint32 | int32 => 32
  | uint64 | int64 => 64

/-- `std::is_signed`. -/
def isSigned : IntegerType → Bool
  | uint32 | uint64 => false
  | int32 | int64 => true

end IntegerType

namespace BytecodeReader

/-- The bytecode. -/
def bytecode (reader : BytecodeReader) : List UInt8 := reader.consumed ++ reader.remaining

/-- The cursor. -/
def ptr (reader : BytecodeReader) : ℕ := reader.consumed.length

/-- Set the cursor; it may stand behind the last byte. -/
def jumpTo (reader : BytecodeReader) (ptr : ℕ) : Except ParseError BytecodeReader :=
  if reader.bytecode.length < ptr then .error .bytecodeOutOfRange
  else .ok ⟨reader.bytecode.take ptr, reader.bytecode.drop ptr⟩

/-- Move the cursor on. -/
def step (reader : BytecodeReader) (count : ℕ) : Except ParseError BytecodeReader :=
  reader.jumpTo (reader.ptr + count)

/-- Read a byte. The cursor is moved first, which throws at the end. -/
def readByte (reader : BytecodeReader) : Except ParseError (UInt8 × BytecodeReader) :=
  match reader.remaining with
  | [] => .error .bytecodeOutOfRange
  | byte :: remaining => .ok (byte, ⟨reader.consumed ++ [byte], remaining⟩)

/-- Read a number of `width` bytes, the lowest one first. -/
def readLE (reader : BytecodeReader) (width : ℕ) : Except ParseError (ℕ × BytecodeReader) :=
  (reader.step width).map fun reader' => (ofBytesLE (reader.remaining.take width), reader')

/-- `hasNextByte`. -/
def hasNextByte (reader : BytecodeReader) : Bool := !reader.remaining.isEmpty

/-- The check of the bits of a byte with which `excess` bits more than allowed are written. -/
def checkPadding (signedInt : Bool) (byte excess : ℕ) : Except ParseError Unit :=
  let bitMask := (0xFF <<< ((6 - excess) + 1)) &&& 0x7F
  if signedInt ∧ byte &&& (1 <<< (6 - excess)) ≠ 0 then
    if byte &&& bitMask ≠ bitMask then .error .malformedLEB128SignedIntegerWrongPadding
    else .ok ()
  else if byte &&& bitMask ≠ 0 then .error .malformedLEB128UnsignedIntegerWrongPadding
  else .ok ()

/-- The end of the loop: a signed integer whose last byte has the sign set is extended. -/
def signExtend (signedInt : Bool) (byte bitsWritten result : ℕ) : ℕ :=
  if (signedInt ∧ byte &&& 0x40 ≠ 0) ∧ bitsWritten < 64 then
    result ||| ((0xFFFFFFFFFFFFFFFF <<< bitsWritten) % 2 ^ 64)
  else result

/-- The loop of `readLEB128`, which goes on as long as the top bit of the last byte is set. The
result has 64 bits. -/
def readLEB128Loop (signedInt : Bool) (maxBits : ℕ) :
    ℕ → ℕ → List UInt8 → List UInt8 → Except ParseError (ℕ × BytecodeReader)
  | _, _, _, [] => .error .bytecodeOutOfRange
  | result, bitsWritten, consumed, byte :: remaining =>
      if maxBits ≤ bitsWritten then .error .malformedLEB128IntegerOutOfBounds
      else
        let lowByte := byte.toNat &&& 0x7F
        let result := result ||| ((lowByte <<< bitsWritten) % 2 ^ 64)
        let bitsWritten := bitsWritten + 7
        (if maxBits < bitsWritten then checkPadding signedInt byte.toNat (bitsWritten - maxBits)
          else .ok ()) >>= fun _ =>
        if byte.toNat &&& 0x80 ≠ 0 then
          readLEB128Loop signedInt maxBits result bitsWritten (consumed ++ [byte]) remaining
        else
          .ok (signExtend signedInt byte.toNat bitsWritten result,
            ⟨consumed ++ [byte], remaining⟩)

/-- The value of 64 bits as one of the type. -/
def castTo (type : IntegerType) (result : ℕ) : ℤ :=
  if type.isSigned then (Int.bmod result (2 ^ 64)).bmod (2 ^ type.bits)
  else (result : ℤ) % 2 ^ type.bits

/-- `readLEB128`. -/
def readLEB128 (reader : BytecodeReader) (type : IntegerType) :
    Except ParseError (ℤ × BytecodeReader) :=
  (readLEB128Loop type.isSigned type.bits 0 0 reader.consumed reader.remaining).map
    fun (result, reader) => (castTo type result, reader)

/-- Read an unsigned integer of 32 bits. -/
def readUInt32 (reader : BytecodeReader) : Except ParseError (UInt32 × BytecodeReader) :=
  (reader.readLEB128 .uint32).map fun (value, reader) => (UInt32.ofNat value.toNat, reader)

/-! ### The cursor -/

variable {reader reader' : BytecodeReader}

/-! ### Bits -/

/-- The seven lower bits. -/
theorem and_0x7F (byte : ℕ) : byte &&& 0x7F = byte % 2 ^ 7 :=
  Nat.and_two_pow_sub_one_eq_mod byte 7

/-- The top bit. -/
theorem and_0x80_ne_zero_iff (byte : UInt8) : byte.toNat &&& 0x80 ≠ 0 ↔ 2 ^ 7 ≤ byte.toNat := by
  have hall : ∀ n : Fin 256, n.val &&& 0x80 ≠ 0 ↔ 2 ^ 7 ≤ n.val := by decide +kernel
  exact hall ⟨byte.toNat, byte.toNat_lt⟩

/-- The sign of seven bits. -/
theorem and_0x40_ne_zero_iff {byte : ℕ} (hlast : byte < 2 ^ 7) :
    byte &&& 0x40 ≠ 0 ↔ 2 ^ 6 ≤ byte := by
  have hall : ∀ n : Fin 128, n.val &&& 0x40 ≠ 0 ↔ 2 ^ 6 ≤ n.val := by decide +kernel
  exact hall ⟨byte, hlast⟩

/-- The check accepts a byte if what its seven bits stand for fits the bits that were left. -/
theorem checkPadding_eq_ok_iff (signedInt : Bool) {byte excess : ℕ} (hlast : byte < 2 ^ 7)
    (hexcess : excess ≤ 6) :
    checkPadding signedInt byte excess = .ok () ↔
      FitsInteger signedInt (7 - excess) (lastByteValue signedInt byte) := by
  have hall : ∀ (signedInt : Bool) (n : Fin 128) (e : Fin 7),
      checkPadding signedInt n.val e.val = .ok () ↔
        FitsInteger signedInt (7 - e.val) (lastByteValue signedInt n.val) := by
    decide +kernel
  exact hall signedInt ⟨byte, hlast⟩ ⟨excess, by omega⟩

/-- Bits are added above those that are there; what is above 64 bits is lost. -/
theorem or_shiftLeft {result shift value : ℕ} (hresult : result < 2 ^ shift) (hshift : shift < 64) :
    result ||| ((value <<< shift) % 2 ^ 64) = (result + 2 ^ shift * value) % 2 ^ 64 := by
  have hpow : 2 ^ 64 = 2 ^ shift * 2 ^ (64 - shift) := by
    rw [← Nat.pow_add]
    congr 1
    omega
  have hmod : (value <<< shift) % 2 ^ 64 = 2 ^ shift * (value % 2 ^ (64 - shift)) := by
    rw [Nat.shiftLeft_eq, Nat.mul_comm, hpow, Nat.mul_mod_mul_left]
  have hlow : result + 2 ^ shift * (value % 2 ^ (64 - shift)) < 2 ^ shift * 2 ^ (64 - shift) := by
    have hlt : value % 2 ^ (64 - shift) + 1 ≤ 2 ^ (64 - shift) :=
      Nat.mod_lt _ (Nat.two_pow_pos _)
    have hle := Nat.mul_le_mul_left (2 ^ shift) hlt
    rw [Nat.mul_add] at hle
    omega
  have hvalue : result + 2 ^ shift * value =
      result + 2 ^ shift * (value % 2 ^ (64 - shift)) +
        2 ^ shift * 2 ^ (64 - shift) * (value / 2 ^ (64 - shift)) := by
    conv_lhs => rw [← Nat.mod_add_div value (2 ^ (64 - shift))]
    ring
  rw [hmod, Nat.or_comm, ← Nat.two_pow_add_eq_or_of_lt hresult, hvalue, hpow,
    Nat.add_mul_mod_self_left, Nat.mod_eq_of_lt hlow, Nat.add_comm]

/-- Seven bits above those that are there. -/
theorem add_mul_lt {result shift value : ℕ} (hresult : result < 2 ^ shift)
    (hvalue : value < 2 ^ 7) : result + 2 ^ shift * value < 2 ^ (shift + 7) := by
  have hle := Nat.mul_le_mul_left (2 ^ shift) (Nat.succ_le_of_lt hvalue)
  rw [Nat.succ_eq_add_one, Nat.mul_add] at hle
  rw [Nat.pow_add]
  omega

/-- The value behind the last byte, in 64 bits. -/
theorem signExtend_eq (signedInt : Bool) {byte bitsWritten result : ℕ} (hlast : byte < 2 ^ 7)
    (hresult : result < 2 ^ bitsWritten) (hbits : bitsWritten < 64) :
    (signExtend signedInt byte (bitsWritten + 7)
        ((result + 2 ^ bitsWritten * byte) % 2 ^ 64) : ℤ) =
      (result + 2 ^ bitsWritten * lastByteValue signedInt byte) % 2 ^ 64 := by
  have hmod : (((result + 2 ^ bitsWritten * byte) % 2 ^ 64 : ℕ) : ℤ) =
      (result + 2 ^ bitsWritten * byte) % 2 ^ 64 := by
    push_cast
    rfl
  by_cases hneg : signedInt = true ∧ 2 ^ 6 ≤ byte
  · rw [lastByteValue, if_pos hneg]
    have hand : signedInt = true ∧ byte &&& 0x40 ≠ 0 :=
      ⟨hneg.1, (and_0x40_ne_zero_iff hlast).mpr hneg.2⟩
    by_cases hshort : bitsWritten + 7 < 64
    · -- the sign is extended from bit `bitsWritten + 7` on
      have hlt : result + 2 ^ bitsWritten * byte < 2 ^ (bitsWritten + 7) :=
        add_mul_lt hresult hlast
      have hlt' := hlt.trans (Nat.pow_lt_pow_right (by decide : 1 < 2) hshort)
      rw [signExtend, if_pos ⟨hand, hshort⟩, Nat.mod_eq_of_lt hlt', or_shiftLeft hlt hshort]
      simp only [Int.natCast_mod, Nat.cast_add, Nat.cast_mul, Nat.cast_pow, Nat.cast_ofNat]
      rw [show (result : ℤ) + 2 ^ bitsWritten * byte +
          2 ^ (bitsWritten + 7) * 0xFFFFFFFFFFFFFFFF =
          result + 2 ^ bitsWritten * (byte - 2 ^ 7) + 2 ^ 64 * 2 ^ (bitsWritten + 7) by
        rw [pow_add]; ring, Int.add_mul_emod_self_left]
    · -- the sign is the top bit
      obtain ⟨rest, hrest⟩ : ∃ rest, bitsWritten + 7 = 64 + rest :=
        ⟨bitsWritten + 7 - 64, by omega⟩
      rw [signExtend, if_neg fun h => hshort h.2, hmod]
      rw [show (result : ℤ) + 2 ^ bitsWritten * byte =
          result + 2 ^ bitsWritten * (byte - 2 ^ 7) + 2 ^ 64 * 2 ^ rest by
        rw [← pow_add, ← hrest, pow_add]; ring, Int.add_mul_emod_self_left]
  · rw [lastByteValue, if_neg hneg, signExtend, if_neg, hmod]
    rintro ⟨⟨hsigned, hand⟩, -⟩
    exact hneg ⟨hsigned, (and_0x40_ne_zero_iff hlast).mp hand⟩

/-! ### The loop -/

/-- A byte behind the last one that is allowed. -/
theorem readLEB128Loop_of_le (signedInt : Bool) {maxBits bitsWritten : ℕ}
    (hle : maxBits ≤ bitsWritten) (result : ℕ) (consumed remaining : List UInt8) :
    ∃ e, readLEB128Loop signedInt maxBits result bitsWritten consumed remaining = .error e := by
  cases remaining with
  | nil => exact ⟨_, rfl⟩
  | cons byte remaining => exact ⟨_, by rw [readLEB128Loop, if_pos hle]⟩

/-- The check of a last byte: what it stands for fits the bits that are left. -/
theorem checkPadding_last_iff (signedInt : Bool) {maxBits bitsWritten byte : ℕ}
    (hbits : bitsWritten < maxBits) (hlast : byte < 2 ^ 7) :
    (if maxBits < bitsWritten + 7 then checkPadding signedInt byte (bitsWritten + 7 - maxBits)
        else .ok ()) = .ok () ↔
      FitsInteger signedInt (maxBits - bitsWritten) (lastByteValue signedInt byte) := by
  split_ifs with hexcess
  · rw [checkPadding_eq_ok_iff signedInt hlast (by omega),
      show 7 - (bitsWritten + 7 - maxBits) = maxBits - bitsWritten by omega]
  · exact iff_of_true rfl (LEB128.fits_lastByteValue hlast (by omega))

/-- What the loop reads, from where it has got to. -/
theorem readLEB128Loop_eq_ok_iff (signedInt : Bool) {maxBits : ℕ} (hmax : maxBits ≤ 64)
    (remaining : List UInt8) :
    ∀ (consumed : List UInt8) (result bitsWritten : ℕ) (value : ℕ) (reader : BytecodeReader),
      bitsWritten < maxBits → result < 2 ^ bitsWritten →
      (readLEB128Loop signedInt maxBits result bitsWritten consumed remaining =
          .ok (value, reader) ↔
        ∃ encoding rest i, remaining = encoding ++ rest ∧
          LEB128 signedInt (maxBits - bitsWritten) encoding i ∧
          (value : ℤ) = (result + 2 ^ bitsWritten * i) % 2 ^ 64 ∧
          reader = ⟨consumed ++ encoding, rest⟩) := by
  induction remaining with
  | nil =>
      intro consumed result bitsWritten value reader hbits hresult
      constructor
      · intro h
        cases h
      · rintro ⟨encoding, rest, i, hnil, hencoding, -⟩
        obtain ⟨rfl, -⟩ := List.append_eq_nil_iff.mp hnil.symm
        cases hencoding
  | cons byte remaining ih =>
      intro consumed result bitsWritten value reader hbits hresult
      have hbyte := byte.toNat_lt
      rw [readLEB128Loop, if_neg (by omega)]
      simp only [and_0x7F, or_shiftLeft hresult (by omega : bitsWritten < 64)]
      by_cases hmore : 2 ^ 7 ≤ byte.toNat
      · rw [if_pos ((and_0x80_ne_zero_iff byte).mpr hmore)]
        by_cases hleft : bitsWritten + 7 < maxBits
        · have hresult' : result + 2 ^ bitsWritten * (byte.toNat % 2 ^ 7) <
              2 ^ (bitsWritten + 7) := add_mul_lt hresult (Nat.mod_lt _ (by decide))
          rw [if_neg (by omega), Nat.mod_eq_of_lt (hresult'.trans
            (Nat.pow_lt_pow_right (by decide : 1 < 2) (by omega)))]
          refine (ih (consumed ++ [byte]) _ (bitsWritten + 7) value reader hleft hresult').trans ?_
          have hvalue : ∀ i : ℤ,
              ((result + 2 ^ bitsWritten * (byte.toNat % 2 ^ 7) : ℕ) : ℤ) +
                2 ^ (bitsWritten + 7) * i =
              result + 2 ^ bitsWritten * (2 ^ 7 * i + (byte.toNat - 2 ^ 7)) := by
            intro i
            rw [show byte.toNat % 2 ^ 7 = byte.toNat - 2 ^ 7 by omega, Nat.cast_add, Nat.cast_mul,
              Nat.cast_sub hmore, Nat.cast_pow, Nat.cast_pow, pow_add]
            push_cast
            ring
          constructor
          · rintro ⟨encoding, rest, i, rfl, hencoding, hv, rfl⟩
            rw [hvalue] at hv
            exact ⟨byte :: encoding, rest, _, rfl, .more hmore (by omega)
              (by rwa [Nat.sub_sub]), hv, by simp⟩
          · rintro ⟨encoding, rest, i, hsplit, hencoding, hv, rfl⟩
            rcases hencoding.cases_of_append hsplit with
              ⟨hlast, -⟩ | ⟨-, -, encoding', i', rfl, rfl, hencoding', rfl⟩
            · omega
            · exact ⟨encoding', rest, i', rfl, by rwa [← Nat.sub_sub], by rw [hv, hvalue],
                by simp⟩
        · constructor
          · intro h
            obtain ⟨-, -, hloop⟩ := exists_of_bind_ok h
            obtain ⟨e, he⟩ := readLEB128Loop_of_le signedInt (Nat.not_lt.mp hleft)
              ((result + 2 ^ bitsWritten * (byte.toNat % 2 ^ 7)) % 2 ^ 64) (consumed ++ [byte])
              remaining
            rw [he] at hloop
            cases hloop
          · rintro ⟨encoding, rest, i, hsplit, hencoding, -⟩
            rcases hencoding.cases_of_append hsplit with ⟨hlast, -⟩ | ⟨-, hleft', -⟩
            · omega
            · omega
      · have hlast : byte.toNat < 2 ^ 7 := by omega
        rw [if_neg (fun h => hmore ((and_0x80_ne_zero_iff byte).mp h)), Nat.mod_eq_of_lt hlast]
        have hfits := checkPadding_last_iff signedInt hbits hlast
        have hvalue := signExtend_eq signedInt hlast hresult (by omega : bitsWritten < 64)
        constructor
        · intro h
          obtain ⟨_, hpadding, hok⟩ := exists_of_bind_ok h
          cases hok
          exact ⟨[byte], remaining, _, rfl, .last hlast (hfits.mp hpadding), hvalue, rfl⟩
        · rintro ⟨encoding, rest, i, hsplit, hencoding, hv, rfl⟩
          rcases hencoding.cases_of_append hsplit with
            ⟨-, rfl, rfl, rfl, hfit⟩ | ⟨hmore', -⟩
          · rw [hfits.mpr hfit]
            have hnat : value = signExtend signedInt byte.toNat (bitsWritten + 7)
                ((result + 2 ^ bitsWritten * byte.toNat) % 2 ^ 64) := by
              rw [← hvalue] at hv
              exact Int.ofNat.inj hv
            rw [hnat]
            rfl
          · omega

/-! ### The integers that are read -/

/-- An integer that fits the type is what the cast makes of its value in 64 bits. -/
theorem castTo_of_fits (type : IntegerType) {result : ℕ} {i : ℤ}
    (hresult : (result : ℤ) = i % 2 ^ 64) (hfits : FitsInteger type.isSigned type.bits i) :
    castTo type result = i := by
  rw [castTo, hresult]
  cases type with
  | uint32 =>
      simp only [FitsInteger, IntegerType.isSigned, IntegerType.bits, Bool.false_eq_true,
        if_false] at hfits ⊢
      omega
  | uint64 =>
      simp only [FitsInteger, IntegerType.isSigned, IntegerType.bits, Bool.false_eq_true,
        if_false] at hfits ⊢
      omega
  | int32 =>
      simp only [FitsInteger, IntegerType.isSigned, IntegerType.bits, if_true] at hfits ⊢
      have hwide : i.bmod (2 ^ 64) = i := Int.bmod_eq_of_le (by omega) (by omega)
      rw [show (2 : ℤ) ^ 64 = ((2 ^ 64 : ℕ) : ℤ) by norm_num, Int.emod_bmod, hwide]
      exact Int.bmod_eq_of_le (by omega) (by omega)
  | int64 =>
      simp only [FitsInteger, IntegerType.isSigned, IntegerType.bits, if_true] at hfits ⊢
      have hwide : i.bmod (2 ^ 64) = i := Int.bmod_eq_of_le (by omega) (by omega)
      rw [show (2 : ℤ) ^ 64 = ((2 ^ 64 : ℕ) : ℤ) by norm_num, Int.emod_bmod, hwide]
      exact Int.bmod_eq_of_le (by omega) (by omega)

/-- No type is wider than the 64 bits of the loop. -/
theorem bits_bounds (type : IntegerType) : 0 < type.bits ∧ type.bits ≤ 64 := by
  cases type <;> decide

/-- What an integer is read as: `readLEB128` succeeds if and only if an encoding of an integer
of the type stands at the cursor. Then it returns that integer and leaves the cursor behind the
encoding, which has as many bytes as the width has groups of seven bits at most. -/
theorem readLEB128_eq_ok_iff (reader : BytecodeReader) (type : IntegerType) (value : ℤ)
    (reader' : BytecodeReader) :
    reader.readLEB128 type = .ok (value, reader') ↔
      ∃ encoding rest, reader.remaining = encoding ++ rest ∧
        LEB128 type.isSigned type.bits encoding value ∧
        encoding.length ≤ (type.bits + 6) / 7 ∧
        reader' = ⟨reader.consumed ++ encoding, rest⟩ := by
  have hloop := readLEB128Loop_eq_ok_iff type.isSigned (bits_bounds type).2 reader.remaining
    reader.consumed 0 0
  constructor
  · intro h
    rw [readLEB128] at h
    cases hrun : readLEB128Loop type.isSigned type.bits 0 0 reader.consumed reader.remaining with
    | error e =>
        rw [hrun] at h
        cases h
    | ok result =>
        rw [hrun] at h
        cases h
        obtain ⟨encoding, rest, i, hsplit, hencoding, hvalue, hreader⟩ :=
          (hloop _ _ (bits_bounds type).1 (by decide)).mp hrun
        have hi : castTo type result.1 = i := by
          refine castTo_of_fits type ?_ hencoding.fits
          rw [hvalue]
          simp
        rw [hi]
        exact ⟨encoding, rest, hsplit, hencoding, hencoding.length_le (bits_bounds type).1, hreader⟩
  · rintro ⟨encoding, rest, hsplit, hencoding, -, rfl⟩
    have hresult : ((value % 2 ^ 64).toNat : ℤ) = value % 2 ^ 64 :=
      Int.toNat_of_nonneg (Int.emod_nonneg _ (by norm_num))
    have hrun := (hloop (value % 2 ^ 64).toNat ⟨reader.consumed ++ encoding, rest⟩
      (bits_bounds type).1 (by decide)).mpr
        ⟨encoding, rest, value, hsplit, hencoding, by rw [hresult]; simp, rfl⟩
    rw [readLEB128, hrun]
    exact congrArg (fun v => Except.ok (v, _)) (castTo_of_fits type hresult hencoding.fits)

/-- Reading an integer whose encoding stands at the cursor. -/
theorem readLEB128_append (type : IntegerType) {encoding : List UInt8} {value : ℤ}
    (h : LEB128 type.isSigned type.bits encoding value) (consumed rest : List UInt8) :
    readLEB128 ⟨consumed, encoding ++ rest⟩ type = .ok (value, ⟨consumed ++ encoding, rest⟩) :=
  (readLEB128_eq_ok_iff _ type value _).mpr
    ⟨encoding, rest, rfl, h, h.length_le (bits_bounds type).1, rfl⟩

/-- Reading an unsigned integer. -/
theorem readUInt32_append {encoding : List UInt8} {value : ℤ} (h : LEB128 false 32 encoding value)
    (consumed rest : List UInt8) :
    readUInt32 ⟨consumed, encoding ++ rest⟩ =
      .ok (UInt32.ofNat value.toNat, ⟨consumed ++ encoding, rest⟩) := by
  rw [readUInt32, readLEB128_append .uint32 h]
  rfl

/-- An unsigned integer that is read is encoded at the cursor. -/
theorem encoding_of_readUInt32 {value : UInt32} (h : reader.readUInt32 = .ok (value, reader')) :
    ∃ encoding rest, reader.remaining = encoding ++ rest ∧
      LEB128 false 32 encoding value.toNat ∧ reader' = ⟨reader.consumed ++ encoding, rest⟩ := by
  rw [readUInt32] at h
  cases hread : reader.readLEB128 .uint32 with
  | error e =>
      rw [hread] at h
      cases h
  | ok result =>
      obtain ⟨i, reader₁⟩ := result
      rw [hread] at h
      cases h
      obtain ⟨encoding, rest, hsplit, hencoding, -, rfl⟩ :=
        (readLEB128_eq_ok_iff _ _ _ _).mp hread
      have hfits := hencoding.fits
      simp only [FitsInteger, IntegerType.isSigned, IntegerType.bits, Bool.false_eq_true,
        if_false] at hfits
      have hvalue : ((UInt32.ofNat i.toNat).toNat : ℤ) = i := by
        rw [UInt32.toNat_ofNat']
        omega
      exact ⟨encoding, rest, hsplit, by rw [hvalue]; exact hencoding, rfl⟩

/-- A byte that is read stands at the cursor. -/
theorem remaining_of_readByte {byte : UInt8} (h : reader.readByte = .ok (byte, reader')) :
    reader.remaining = byte :: reader'.remaining ∧ reader'.consumed = reader.consumed ++ [byte] := by
  obtain ⟨consumed, remaining⟩ := reader
  cases remaining with
  | nil => cases h
  | cons first remaining =>
      cases h
      exact ⟨rfl, rfl⟩

end BytecodeReader

end WasmCompiler
