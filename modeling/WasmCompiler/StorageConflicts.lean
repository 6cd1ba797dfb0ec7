import WasmCompiler.VariableStorage
import Mathlib.Data.Nat.Dist

/-!
# Storages that Overlap

A stack storage has the position of the end of its slot that is farther from the end of the frame,
and its bytes are at the addresses from there on. `overlapsWith` counts the bytes from the position
on, away from the end of the frame.

## Main results

* `intersects_stackMemory_iff`: when two slots have a byte in common.
* `overlapsWith_exact_iff`: `overlapsWith` is right exactly unless two slots of different sizes
  are at a distance that is enough for the smaller one, but not for the larger one, or a register
  is a part of the value in another one.
-/

namespace WasmCompiler

variable {TReg : Type}

/-! ### Places -/

/-- A register, or a byte of memory: on the stack at a distance from the end of the frame, which
is negative inside the frame. -/
inductive Place (TReg : Type) where
  | register (reg : TReg)
  | stackMemory (fromFrameTop : ℤ)
  | linkData (offset : ℤ)
  deriving DecidableEq, Repr

/-- Which registers a value in a register takes. -/
structure RegisterFile (TReg : Type) where
  takes : MachineType → TReg → TReg → Prop
  self : ∀ machineType reg, takes machineType reg reg

/-- Every value takes one register. -/
def RegisterFile.single : RegisterFile TReg := ⟨fun _ reg r => r = reg, fun _ _ => rfl⟩

variable (file : RegisterFile TReg)

/-- The places of a storage. -/
def VariableStorage.Occupies (s : VariableStorage TReg) : Place TReg → Prop
  | .register r => match s.location with
      | .register reg => file.takes s.machineType reg r
      | _ => False
  | .stackMemory x => match s.location with
      | .stackMemory p => -(p.toNat : ℤ) ≤ x ∧ x < -(p.toNat : ℤ) + s.machineType.getSize
      | _ => False
  | .linkData x => match s.location with
      | .linkData p => (p.toNat : ℤ) ≤ x ∧ x < p.toNat + s.machineType.getSize
      | _ => False

/-- Two storages have a place in common. -/
def VariableStorage.Intersects (a b : VariableStorage TReg) : Prop :=
  ∃ x, a.Occupies file x ∧ b.Occupies file x

/-! ### The test -/

/-- Whether ranges that begin at positions overlap. -/
def rangesOverlap (thisBegin : UInt32) (thisType : MachineType) (otherBegin : UInt32)
    (otherType : MachineType) : Bool :=
  let thisEnd := thisBegin + UInt32.ofNat thisType.getSize - 1
  let otherEnd := otherBegin + UInt32.ofNat otherType.getSize - 1
  decide (thisBegin ≤ otherEnd ∧ otherBegin ≤ thisEnd)

/-- `overlapsWith`. -/
def VariableStorage.overlapsWith [DecidableEq TReg] (s other : VariableStorage TReg) : Bool :=
  match s.location, other.location with
  | .register reg, .register reg' => reg == reg'
  | .stackMemory p, .stackMemory p' => rangesOverlap p s.machineType p' other.machineType
  | .linkData p, .linkData p' => rangesOverlap p s.machineType p' other.machineType
  | _, _ => false

/-- A storage has a type, and does not reach beyond the last position. -/
structure VariableStorage.InFrame (s : VariableStorage TReg) : Prop where
  machineType : s.machineType ≠ .invalid
  stackMemory : ∀ p, s.location = .stackMemory p → p.toNat + s.machineType.getSize ≤ 2 ^ 32
  linkData : ∀ p, s.location = .linkData p → p.toNat + s.machineType.getSize ≤ 2 ^ 32

/-- What is to be checked for a storage. -/
theorem VariableStorage.inFrame_iff {s : VariableStorage TReg} :
    s.InFrame ↔ s.machineType ≠ .invalid ∧
      (match s.location with
        | .stackMemory p => decide (p.toNat + s.machineType.getSize ≤ 2 ^ 32)
        | .linkData p => decide (p.toNat + s.machineType.getSize ≤ 2 ^ 32)
        | _ => true) = true := by
  obtain ⟨machineType, location⟩ := s
  constructor
  · rintro ⟨htype, hstack, hlink⟩
    refine ⟨htype, ?_⟩
    cases location with
    | stackMemory p => exact decide_eq_true (hstack p rfl)
    | linkData p => exact decide_eq_true (hlink p rfl)
    | _ => rfl
  · rintro ⟨htype, hle⟩
    refine ⟨htype, ?_, ?_⟩
    · rintro p rfl
      exact of_decide_eq_true hle
    · rintro p rfl
      exact of_decide_eq_true hle

instance (s : VariableStorage TReg) : Decidable s.InFrame :=
  decidable_of_iff _ VariableStorage.inFrame_iff.symm

/-- The value of a type takes some bytes. -/
theorem MachineType.getSize_pos {machineType : MachineType} (h : machineType ≠ .invalid) :
    0 < machineType.getSize := by
  cases machineType with
  | invalid => exact absurd rfl h
  | _ => decide

/-- No value is larger than eight bytes. -/
theorem MachineType.getSize_le (machineType : MachineType) : machineType.getSize ≤ 8 := by
  cases machineType <;> decide

/-- The last position of a range. -/
theorem toNat_rangeEnd {p : UInt32} {machineType : MachineType} (h : machineType ≠ .invalid)
    (hle : p.toNat + machineType.getSize ≤ 2 ^ 32) :
    (p + UInt32.ofNat machineType.getSize - 1).toNat = p.toNat + machineType.getSize - 1 := by
  have hpos := MachineType.getSize_pos h
  have hsize := machineType.getSize_le
  have hp := p.toNat_lt
  have hofNat : (UInt32.ofNat machineType.getSize).toNat = machineType.getSize := by
    rw [UInt32.toNat_ofNat', Nat.mod_eq_of_lt (by omega)]
  have hone : (1 : UInt32).toNat = 1 := rfl
  rw [UInt32.toNat_sub, UInt32.toNat_add, hofNat, hone]
  omega

/-- Ranges overlap if none of them ends before the other one. -/
theorem rangesOverlap_iff {p q : UInt32} {t u : MachineType} (ht : t ≠ .invalid)
    (hu : u ≠ .invalid) (hp : p.toNat + t.getSize ≤ 2 ^ 32) (hq : q.toNat + u.getSize ≤ 2 ^ 32) :
    rangesOverlap p t q u = true ↔
      p.toNat < q.toNat + u.getSize ∧ q.toNat < p.toNat + t.getSize := by
  have htpos := MachineType.getSize_pos ht
  have hupos := MachineType.getSize_pos hu
  rw [rangesOverlap, decide_eq_true_iff, UInt32.le_iff_toNat_le, UInt32.le_iff_toNat_le,
    toNat_rangeEnd ht hp, toNat_rangeEnd hu hq]
  omega

/-! ### When the test is right -/

section Intersects

variable {file} {a b : VariableStorage TReg} {p q : UInt32}

/-- Storages that intersect are in the same kind of location. -/
theorem VariableStorage.Intersects.cases (h : a.Intersects file b) :
    (∃ r r', a.location = .register r ∧ b.location = .register r') ∨
      (∃ p q, a.location = .stackMemory p ∧ b.location = .stackMemory q) ∨
      ∃ p q, a.location = .linkData p ∧ b.location = .linkData q := by
  obtain ⟨x, ha, hb⟩ := h
  obtain ⟨t, la⟩ := a
  obtain ⟨u, lb⟩ := b
  cases x with
  | register r =>
      cases la <;> cases lb <;> simp_all [Occupies]
  | stackMemory x =>
      cases la <;> cases lb <;> simp_all [Occupies]
  | linkData x =>
      cases la <;> cases lb <;> simp_all [Occupies]

/-- **Slots** have a byte in common if neither one is behind the other, seen from the end of the
frame. -/
theorem VariableStorage.intersects_stackMemory_iff (ha : a.location = .stackMemory p)
    (hb : b.location = .stackMemory q) (hta : a.machineType ≠ .invalid)
    (htb : b.machineType ≠ .invalid) :
    a.Intersects file b ↔
      p.toNat < q.toNat + a.machineType.getSize ∧ q.toNat < p.toNat + b.machineType.getSize := by
  have hpa := MachineType.getSize_pos hta
  have hpb := MachineType.getSize_pos htb
  constructor
  · rintro ⟨x, hxa, hxb⟩
    cases x with
    | stackMemory x =>
        rw [Occupies, ha] at hxa
        rw [Occupies, hb] at hxb
        dsimp only at hxa hxb
        omega
    | register r =>
        rw [Occupies, ha] at hxa
        exact hxa.elim
    | linkData x =>
        rw [Occupies, ha] at hxa
        exact hxa.elim
  · rintro ⟨hlt, hlt'⟩
    refine ⟨.stackMemory (max (-(p.toNat : ℤ)) (-(q.toNat : ℤ))), ?_, ?_⟩
    · rw [Occupies, ha]
      dsimp only
      omega
    · rw [Occupies, hb]
      dsimp only
      omega

/-- Cells of the link data have a byte in common if neither one is behind the other. -/
theorem VariableStorage.intersects_linkData_iff (ha : a.location = .linkData p)
    (hb : b.location = .linkData q) (hta : a.machineType ≠ .invalid)
    (htb : b.machineType ≠ .invalid) :
    a.Intersects file b ↔
      p.toNat < q.toNat + b.machineType.getSize ∧ q.toNat < p.toNat + a.machineType.getSize := by
  have hpa := MachineType.getSize_pos hta
  have hpb := MachineType.getSize_pos htb
  constructor
  · rintro ⟨x, hxa, hxb⟩
    cases x with
    | linkData x =>
        rw [Occupies, ha] at hxa
        rw [Occupies, hb] at hxb
        dsimp only at hxa hxb
        omega
    | register r =>
        rw [Occupies, ha] at hxa
        exact hxa.elim
    | stackMemory x =>
        rw [Occupies, ha] at hxa
        exact hxa.elim
  · rintro ⟨hlt, hlt'⟩
    refine ⟨.linkData (max (p.toNat : ℤ) (q.toNat : ℤ)), ?_, ?_⟩
    · rw [Occupies, ha]
      dsimp only
      omega
    · rw [Occupies, hb]
      dsimp only
      omega

/-- Two registers have a place in common if their values do. -/
theorem VariableStorage.intersects_register_iff {r r' : TReg} (ha : a.location = .register r)
    (hb : b.location = .register r') :
    a.Intersects file b ↔ ∃ x, file.takes a.machineType r x ∧ file.takes b.machineType r' x := by
  constructor
  · rintro ⟨x, hxa, hxb⟩
    cases x with
    | register x =>
        rw [Occupies, ha] at hxa
        rw [Occupies, hb] at hxb
        exact ⟨x, hxa, hxb⟩
    | stackMemory x =>
        rw [Occupies, ha] at hxa
        exact hxa.elim
    | linkData x =>
        rw [Occupies, ha] at hxa
        exact hxa.elim
  · rintro ⟨x, hxa, hxb⟩
    refine ⟨.register x, ?_, ?_⟩
    · rw [Occupies, ha]
      exact hxa
    · rw [Occupies, hb]
      exact hxb

end Intersects

/-- Slots of different sizes are not at a distance that is enough for the smaller one, but not
for the larger one. -/
def SlotsComparable (p : UInt32) (t : MachineType) (q : UInt32) (u : MachineType) : Prop :=
  t.getSize = u.getSize ∨ p.toNat.dist q.toNat < min t.getSize u.getSize ∨
    max t.getSize u.getSize ≤ p.toNat.dist q.toNat

/-- Two storages that `overlapsWith` is right about. -/
def VariableStorage.Comparable (a b : VariableStorage TReg) : Prop :=
  match a.location, b.location with
  | .stackMemory p, .stackMemory q => SlotsComparable p a.machineType q b.machineType
  | .register r, .register r' => r = r' ∨ ¬ a.Intersects file b
  | _, _ => True

/-- The test is right about slots exactly if they are comparable. -/
theorem slotsComparable_iff {p q : UInt32} {t u : MachineType} (ht : t ≠ .invalid)
    (hu : u ≠ .invalid) :
    ((p.toNat < q.toNat + u.getSize ∧ q.toNat < p.toNat + t.getSize) ↔
      (p.toNat < q.toNat + t.getSize ∧ q.toNat < p.toNat + u.getSize)) ↔
      SlotsComparable p t q u := by
  have htpos := MachineType.getSize_pos ht
  have hupos := MachineType.getSize_pos hu
  rw [SlotsComparable, Nat.dist]
  omega

variable [DecidableEq TReg] {file}

/-- **`overlapsWith` is right** exactly for storages that are comparable. -/
theorem VariableStorage.overlapsWith_exact_iff {a b : VariableStorage TReg} (ha : a.InFrame)
    (hb : b.InFrame) :
    (a.overlapsWith b = true ↔ a.Intersects file b) ↔ a.Comparable file b := by
  have hother : (∀ r r', ¬ (a.location = .register r ∧ b.location = .register r')) →
      (∀ p q, ¬ (a.location = .stackMemory p ∧ b.location = .stackMemory q)) →
      (∀ p q, ¬ (a.location = .linkData p ∧ b.location = .linkData q)) →
      ((a.overlapsWith b = true ↔ a.Intersects file b) ↔ a.Comparable file b) := by
    intro hregister hstack hlink
    have hnot : ¬ a.Intersects file b := by
      intro h
      rcases h.cases with ⟨r, r', h⟩ | ⟨p, q, h⟩ | ⟨p, q, h⟩
      · exact hregister r r' h
      · exact hstack p q h
      · exact hlink p q h
    obtain ⟨t, la⟩ := a
    obtain ⟨u, lb⟩ := b
    cases la <;> cases lb <;> simp_all [overlapsWith, Comparable]
  cases hla : a.location with
  | register r =>
      cases hlb : b.location with
      | register r' =>
          rw [overlapsWith, Comparable, hla, hlb]
          dsimp only
          rw [beq_iff_eq]
          constructor
          · intro hiff
            by_cases heq : r = r'
            · exact .inl heq
            · exact .inr fun h => heq (hiff.mpr h)
          · rintro (rfl | hnot)
            · refine iff_of_true rfl ((intersects_register_iff hla hlb).mpr ?_)
              exact ⟨r, file.self _ r, file.self _ r⟩
            · refine iff_of_false (fun heq => hnot ?_) hnot
              obtain rfl := heq
              exact (intersects_register_iff hla hlb).mpr ⟨r, file.self _ r, file.self _ r⟩
      | _ => exact hother (by simp [hla, hlb]) (by simp [hla]) (by simp [hla])
  | stackMemory p =>
      cases hlb : b.location with
      | stackMemory q =>
          rw [intersects_stackMemory_iff hla hlb ha.machineType hb.machineType, overlapsWith,
            Comparable, hla, hlb]
          dsimp only
          rw [rangesOverlap_iff ha.machineType hb.machineType (ha.stackMemory p hla)
            (hb.stackMemory q hlb)]
          exact slotsComparable_iff ha.machineType hb.machineType
      | _ => exact hother (by simp [hla]) (by simp [hla, hlb]) (by simp [hla])
  | linkData p =>
      cases hlb : b.location with
      | linkData q =>
          rw [intersects_linkData_iff hla hlb ha.machineType hb.machineType, overlapsWith,
            Comparable, hla, hlb]
          dsimp only
          rw [rangesOverlap_iff ha.machineType hb.machineType (ha.linkData p hla)
            (hb.linkData q hlb)]
          exact iff_of_true Iff.rfl trivial
      | _ => exact hother (by simp [hla]) (by simp [hla]) (by simp [hla, hlb])
  | constant c => exact hother (by simp [hla]) (by simp [hla]) (by simp [hla])
  | invalid => exact hother (by simp [hla]) (by simp [hla]) (by simp [hla])

end WasmCompiler
