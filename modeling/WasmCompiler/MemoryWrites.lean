import Mathlib.Data.List.Basic
import Mathlib.Tactic.Ring

/-!
# Bytes, Streams and Overwriting

Numbers as little-endian bytes, streams that are written forwards and read backwards, and
memories that are overwritten range by range. Nothing here is specific to a binary format:
the compiled module and the memory of its runtime are instances.

## Main results

* `ofBytesLE_bytesLE`: the bytes of a number give the number back.
* `takeBack_append`: what was written last is read first.
* `overwriteAll_eq`: after a sequence of writes a cell holds the byte of the last write that
  covers it.
-/

namespace WasmCompiler

/-! ### Little-endian bytes -/

/-- The `width` low bytes of a number, least significant first. -/
def bytesLE : ℕ → ℕ → List UInt8
  | 0, _ => []
  | width + 1, n => UInt8.ofNat n :: bytesLE width (n / 256)

/-- The number with the given bytes, least significant first. -/
def ofBytesLE : List UInt8 → ℕ
  | [] => 0
  | b :: bs => b.toNat + 256 * ofBytesLE bs

/-- There are as many bytes as asked for. -/
@[simp] theorem length_bytesLE (width n : ℕ) : (bytesLE width n).length = width := by
  induction width generalizing n with
  | zero => rfl
  | succ width ih => simp [bytesLE, ih]

/-- The bytes of a number that fits give the number back. -/
theorem ofBytesLE_bytesLE {width n : ℕ} (h : n < 256 ^ width) :
    ofBytesLE (bytesLE width n) = n := by
  induction width generalizing n with
  | zero =>
      obtain rfl : n = 0 := by simpa using h
      rfl
  | succ width ih =>
      have hdiv : n / 256 < 256 ^ width := by
        rw [Nat.div_lt_iff_lt_mul (by decide)]
        simpa [pow_succ] using h
      have hlow : (UInt8.ofNat n).toNat = n % 256 := by simp
      simp only [bytesLE, ofBytesLE, hlow, ih hdiv]
      omega

/-! ### Reading from the end -/

/-- The last elements of a list and what is before them, if there are enough. -/
def takeBack {α : Type} (n : ℕ) (l : List α) : Option (List α × List α) :=
  if n ≤ l.length then some (l.drop (l.length - n), l.take (l.length - n)) else none

/-- What was written last is read first. -/
@[simp] theorem takeBack_append {α : Type} (before written : List α) :
    takeBack written.length (before ++ written) = some (written, before) := by
  simp [takeBack]

/-- What was written last is read first, with the length given. -/
theorem takeBack_append_of_length {α : Type} {before written : List α} {n : ℕ}
    (h : written.length = n) : takeBack n (before ++ written) = some (written, before) := by
  subst h
  exact takeBack_append before written

/-! ### Overwriting -/

/-- One write to a range of a memory. -/
structure RangeWrite (α : Type) where
  start : ℕ
  bytes : List α
  deriving Repr

namespace RangeWrite

variable {α : Type}

/-- What the write puts into a cell, if the range covers it. -/
def byteAt (w : RangeWrite α) (a : ℕ) : Option α :=
  if w.start ≤ a then w.bytes[a - w.start]? else none

/-- A cell behind the range is not covered. -/
theorem byteAt_of_le {w : RangeWrite α} {a : ℕ} (h : w.start + w.bytes.length ≤ a) :
    w.byteAt a = none := by
  rw [byteAt, if_pos (by omega)]
  exact List.getElem?_eq_none (by omega)

/-- Exactly the cells of the range are covered. -/
theorem byteAt_isSome_iff {w : RangeWrite α} {a : ℕ} :
    (w.byteAt a).isSome ↔ w.start ≤ a ∧ a < w.start + w.bytes.length := by
  simp only [byteAt]
  split
  · simp only [isSome_getElem?]
    omega
  · simp
    omega

/-- Write one range. -/
def overwrite (mem : ℕ → α) (w : RangeWrite α) : ℕ → α :=
  fun a => (w.byteAt a).getD (mem a)

/-- Write one range after the other. -/
def overwriteAll (mem : ℕ → α) (ws : List (RangeWrite α)) : ℕ → α :=
  ws.foldl overwrite mem

/-- **The last write wins**: after a sequence of writes a cell holds what the last write that
covers it put there. -/
theorem overwriteAll_eq (mem : ℕ → α) (ws : List (RangeWrite α)) (a : ℕ) :
    overwriteAll mem ws a = ((ws.filterMap (byteAt · a)).getLast?).getD (mem a) := by
  induction ws generalizing mem with
  | nil => rfl
  | cons w ws ih =>
      have hrec : overwriteAll mem (w :: ws) a = overwriteAll (overwrite mem w) ws a := rfl
      rw [hrec, ih]
      cases hw : w.byteAt a with
      | none => simp [overwrite, hw]
      | some b => simp [overwrite, hw, List.getLast?_cons]

/-- Written in the opposite order, the first write that covers a cell wins. -/
theorem overwriteAll_reverse_eq (mem : ℕ → α) (ws : List (RangeWrite α)) (a : ℕ) :
    overwriteAll mem ws.reverse a = ((ws.filterMap (byteAt · a)).head?).getD (mem a) := by
  rw [overwriteAll_eq, List.filterMap_reverse, List.getLast?_reverse]

/-- Where all writes that cover a cell agree, the cell holds what they put there. -/
theorem overwriteAll_of_agree {mem : ℕ → α} {ws : List (RangeWrite α)} {a : ℕ} {b : α}
    (h : ∃ w ∈ ws, w.byteAt a = some b)
    (hagree : ∀ w ∈ ws, ∀ b', w.byteAt a = some b' → b' = b) : overwriteAll mem ws a = b := by
  obtain ⟨w, hw, hb⟩ := h
  have hmem : b ∈ ws.filterMap (byteAt · a) := List.mem_filterMap.mpr ⟨w, hw, hb⟩
  rw [overwriteAll_eq, List.getLast?_eq_some_getLast (List.ne_nil_of_mem hmem),
    Option.getD_some]
  obtain ⟨w', hw', hb'⟩ := List.mem_filterMap.mp (List.getLast_mem (List.ne_nil_of_mem hmem))
  exact hagree w' hw' _ hb'

/-- A cell no write covers keeps its content. -/
theorem overwriteAll_of_none {mem : ℕ → α} {ws : List (RangeWrite α)} {a : ℕ}
    (h : ∀ w ∈ ws, w.byteAt a = none) : overwriteAll mem ws a = mem a := by
  rw [overwriteAll_eq, List.filterMap_eq_nil_iff.mpr h]
  rfl

end RangeWrite

end WasmCompiler
