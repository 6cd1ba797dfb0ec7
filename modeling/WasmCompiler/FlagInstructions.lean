import WasmCompiler.EmittedCode
import WasmCompiler.ConditionFlags
import Mathlib.Tactic

/-!
# Instructions and Flags

The instructions that may stand between a comparison and the instruction that reads its
flags, on x86-64 and on AArch64, and the flags each condition reads. Moves are single
instructions here; what matters of them is which ones set flags. The check of the stack fence
compares the stack pointer, so the backends save the flags around it: x86-64 with `LAHF` and
`SAHF`, which do not transfer the overflow flag, AArch64 with `MRS` and `MSR`.

## Main results

* `X86CC.holds_congr`, `Aarch64CC.holds_congr`: a condition code reads what is listed for it.
* `sahf_lahf`: what `SAHF` restores of what `LAHF` saved.
* `msr_mrs`: `MSR` restores what `MRS` saved.
* `FlagInstr.exec_flags`: an instruction that sets no flags leaves them as they were.
-/

namespace WasmCompiler

variable {TReg : Type}

/-! ### Flags and conditions -/

/-- The status flags, with the parity flag of x86. -/
structure CPUFlags extends StatusFlags where
  parity : Bool
  deriving DecidableEq, Repr

/-- The name of a flag. -/
inductive Flag where
  | negative | zero | carry | overflow | parity
  deriving DecidableEq, Repr

/-- The flag of a name. -/
def CPUFlags.get (flags : CPUFlags) : Flag → Bool
  | .negative => flags.negative
  | .zero => flags.zero
  | .carry => flags.carry
  | .overflow => flags.overflow
  | .parity => flags.parity

/-- The flags an x86 condition code reads. -/
def X86CC.flagsRead : X86CC → List Flag
  | B | AE => [.carry]
  | E | NE => [.zero]
  | BE | A => [.carry, .zero]
  | L | GE => [.negative, .overflow]
  | LE | G => [.zero, .negative, .overflow]

/-- The flags an AArch64 condition code reads. -/
def Aarch64CC.flagsRead : Aarch64CC → List Flag
  | EQ | NE => [.zero]
  | CS | LO => [.carry]
  | MI | PL => [.negative]
  | HI | LS => [.carry, .zero]
  | GE | LT => [.negative, .overflow]
  | GT | LE => [.zero, .negative, .overflow]

/-- An x86 condition code depends on the flags it reads only. -/
theorem X86CC.holds_congr {cc : X86CC} {flags flags' : CPUFlags}
    (h : ∀ flag ∈ cc.flagsRead, flags.get flag = flags'.get flag) :
    cc.holds flags.toStatusFlags = cc.holds flags'.toStatusFlags := by
  cases cc <;> simp_all [flagsRead, holds, CPUFlags.get]

/-- An AArch64 condition code depends on the flags it reads only. -/
theorem Aarch64CC.holds_congr {cc : Aarch64CC} {flags flags' : CPUFlags}
    (h : ∀ flag ∈ cc.flagsRead, flags.get flag = flags'.get flag) :
    cc.holds flags.toStatusFlags = cc.holds flags'.toStatusFlags := by
  cases cc <;> simp_all [flagsRead, holds, CPUFlags.get]

/-- A condition of a branch. -/
inductive BranchCondition where
  | NEQZ | EQZ | EQ | NE | LT_S | LT_U | GT_S | GT_U | LE_S | LE_U | GE_S | GE_U
  | EQ_F | NE_F | LT_F | GT_F | LE_F | GE_F
  | UNCONDITIONAL
  deriving DecidableEq, Repr

namespace BranchCondition

/-- `bcIsFloat`: the condition is one of a comparison of floating point numbers. -/
def isFloat : BranchCondition → Bool
  | EQ_F | NE_F | LT_F | GT_F | LE_F | GE_F => true
  | _ => false

/-- `CCforBC` on x86-64. -/
def x86CC : BranchCondition → Option X86CC
  | NEQZ => some .NE | EQZ => some .E | EQ => some .E | NE => some .NE
  | LT_S => some .L | LT_U => some .B | GT_S => some .G | GT_U => some .A
  | LE_S => some .LE | LE_U => some .BE | GE_S => some .GE | GE_U => some .AE
  | EQ_F => some .E | NE_F => some .NE | LT_F => some .B | GT_F => some .A
  | LE_F => some .BE | GE_F => some .AE
  | UNCONDITIONAL => none

/-- `CCforBC` on AArch64; `HS` is another name of `CS`. -/
def aarch64CC : BranchCondition → Option Aarch64CC
  | NEQZ => some .NE | EQZ => some .EQ | EQ => some .EQ | NE => some .NE
  | LT_S => some .LT | LT_U => some .LO | GT_S => some .GT | GT_U => some .HI
  | LE_S => some .LE | LE_U => some .LS | GE_S => some .GE | GE_U => some .CS
  | EQ_F => some .EQ | NE_F => some .NE | LT_F => some .LO | GT_F => some .GT
  | LE_F => some .LS | GE_F => some .GE
  | UNCONDITIONAL => none

end BranchCondition

/-! ### Saving flags in a register -/

/-- Whether the low byte has an even number of ones. -/
def evenParity (w : Word) : Bool :=
  ((List.range 8).filter fun i => w.getLsbD i).length % 2 == 0

/-- The flags `CMP` sets on x86. -/
def x86CompareFlags {w : ℕ} (a b : BitVec w) : CPUFlags :=
  { subFlags a b with parity := evenParity ((a - b).setWidth 64) }

/-- A word with one bit set or not. -/
def bitAt (b : Bool) (i : ℕ) : Word := (BitVec.ofBool b).setWidth 64 <<< i

/-- `LAHF`: the sign, zero, parity and carry flags go to the second byte of `A`. -/
def lahf (flags : CPUFlags) (a : Word) : Word :=
  (a &&& 0xFFFFFFFFFFFF00FF) ||| bitAt flags.negative 15 ||| bitAt flags.zero 14 |||
    bitAt flags.parity 10 ||| bitAt true 9 ||| bitAt flags.carry 8

/-- `SAHF`: the same flags come back from there; the overflow flag is not changed. -/
def sahf (a : Word) (flags : CPUFlags) : CPUFlags :=
  { flags with
    negative := a.getLsbD 15
    zero := a.getLsbD 14
    parity := a.getLsbD 10
    carry := a.getLsbD 8 }

/-- `MRS` from `NZCV`. -/
def mrsNZCV (flags : CPUFlags) : Word :=
  bitAt flags.negative 31 ||| bitAt flags.zero 30 ||| bitAt flags.carry 29 |||
    bitAt flags.overflow 28

/-- `MSR` to `NZCV`. -/
def msrNZCV (a : Word) (flags : CPUFlags) : CPUFlags :=
  { flags with
    negative := a.getLsbD 31
    zero := a.getLsbD 30
    carry := a.getLsbD 29
    overflow := a.getLsbD 28 }

/-- A bit of a word with one bit. -/
theorem bitAt_getLsbD (b : Bool) {i j : ℕ} (hj : j < 64) :
    (bitAt b i).getLsbD j = (b && decide (j = i)) := by
  simp only [bitAt, BitVec.getLsbD_shiftLeft, BitVec.getLsbD_setWidth, BitVec.getLsbD_ofBool]
  cases b
  · simp
  · rcases Nat.lt_trichotomy j i with h | rfl | h
    · simp [h, h.ne]
    · simp [hj]
    · have hne : j - i ≠ 0 := by omega
      simp [hne, h.ne']

/-- The same bit, by index. -/
theorem bitAt_getElem (b : Bool) {i j : ℕ} (hj : j < 64) :
    (bitAt b i)[j] = (b && decide (j = i)) := by
  rw [← BitVec.getLsbD_eq_getElem hj, bitAt_getLsbD b hj]

/-- **`SAHF` after `LAHF`** restores all flags but the overflow flag. -/
theorem sahf_lahf (flags flags' : CPUFlags) (a : Word) :
    sahf (lahf flags a) flags' = { flags with overflow := flags'.overflow } := by
  simp [sahf, lahf, bitAt_getElem]

/-- **`MSR` after `MRS`** restores all flags. -/
theorem msr_mrs (flags flags' : CPUFlags) :
    msrNZCV (mrsNZCV flags) flags' = { flags with parity := flags'.parity } := by
  simp [msrNZCV, mrsNZCV, bitAt_getElem]

/-! ### The instructions -/

/-- An instruction between a comparison and its consumer. -/
inductive FlagInstr (TReg : Type) where
  | move (dst src : VariableStorage TReg)
  /-- `AND` of a memory operand with zero. -/
  | andZero (dst : VariableStorage TReg)
  /-- `LEA` of the stack pointer on x86-64, `ADD` or `SUB` on AArch64. -/
  | addToSP (delta : Word)
  | moveReg (dst src : TReg)
  /-- A word of the spill region of the job memory. -/
  | storeSpill (i : Fin 2) (src : TReg)
  | loadSpill (i : Fin 2) (dst : TReg)
  | lahf (a : TReg)
  | sahf (a : TReg)
  /-- `CMP` of the stack pointer with the stack fence in the job memory. -/
  | compareSPStackFence
  | loadStackFence (dst : TReg)
  /-- `CMP` of the stack pointer with a register. -/
  | compareSP (src : TReg)
  /-- `TRAP(STACKFENCEBREACHED)`, jumped over if the condition code holds. -/
  | trapUnlessAE
  | trapUnlessHS
  | mrs (dst : TReg)
  | msr (src : TReg)
  deriving DecidableEq, Repr

namespace FlagInstr

/-- Whether an instruction sets flags. -/
def setsFlags : FlagInstr TReg → Bool
  | andZero _ | sahf _ | compareSPStackFence | compareSP _ | msr _ => true
  | _ => false

/-- Whether an instruction can end the execution with a trap. -/
def traps : FlagInstr TReg → Bool
  | trapUnlessAE | trapUnlessHS => true
  | _ => false

end FlagInstr

/-- The machine state that code in the window of a comparison works on. -/
structure FlagMachine (TReg : Type) where
  cells : MachineState TReg
  spillRegion : Fin 2 → Word
  stackPointer : Word
  stackFence : Word
  flags : CPUFlags
  trapped : Bool

variable [DecidableEq TReg]

namespace FlagMachine

/-- The content of a register. -/
def reg (m : FlagMachine TReg) (r : TReg) : Word := m.cells (.register r)

/-- Write a register. -/
def setReg (m : FlagMachine TReg) (r : TReg) (w : Word) : FlagMachine TReg :=
  { m with cells := Function.update m.cells (.register r) w }

/-- A written register holds the word. -/
@[simp] theorem reg_setReg_self (m : FlagMachine TReg) (r : TReg) (w : Word) :
    (m.setReg r w).reg r = w := by
  simp [reg, setReg]

/-- Other registers are not written. -/
theorem reg_setReg_of_ne (m : FlagMachine TReg) {r r' : TReg} (h : r' ≠ r) (w : Word) :
    (m.setReg r w).reg r' = m.reg r' := by
  simp [reg, setReg, h]

/-- Execute one instruction; nothing is executed after a trap. -/
def exec (m : FlagMachine TReg) (instr : FlagInstr TReg) : FlagMachine TReg :=
  if m.trapped then m
  else match instr with
  | .move dst src => { m with cells := dst.assign m.cells (src.value m.cells) }
  | .andZero dst =>
      { m with
        cells := dst.assign m.cells 0
        flags := ⟨⟨false, true, false, false⟩, true⟩ }
  | .addToSP delta => { m with stackPointer := m.stackPointer + delta }
  | .moveReg dst src => m.setReg dst (m.reg src)
  | .storeSpill i src => { m with spillRegion := Function.update m.spillRegion i (m.reg src) }
  | .loadSpill i dst => m.setReg dst (m.spillRegion i)
  | .lahf a => m.setReg a (lahf m.flags (m.reg a))
  | .sahf a => { m with flags := sahf (m.reg a) m.flags }
  | .compareSPStackFence => { m with flags := x86CompareFlags m.stackPointer m.stackFence }
  | .loadStackFence dst => m.setReg dst m.stackFence
  | .compareSP src =>
      { m with flags := { m.flags with
          toStatusFlags := subsFlags m.stackPointer (m.reg src) } }
  | .trapUnlessAE => { m with trapped := !X86CC.AE.holds m.flags.toStatusFlags }
  | .trapUnlessHS => { m with trapped := !Aarch64CC.CS.holds m.flags.toStatusFlags }
  | .mrs dst => m.setReg dst (mrsNZCV m.flags)
  | .msr src => { m with flags := msrNZCV (m.reg src) m.flags }

/-- Execute a sequence of instructions. -/
def execAll (m : FlagMachine TReg) (code : List (FlagInstr TReg)) : FlagMachine TReg :=
  code.foldl exec m

/-- Nothing is executed for no code. -/
@[simp] theorem execAll_nil (m : FlagMachine TReg) : m.execAll [] = m := rfl

/-- The first instruction is executed first. -/
@[simp] theorem execAll_cons (m : FlagMachine TReg) (i : FlagInstr TReg)
    (code : List (FlagInstr TReg)) : m.execAll (i :: code) = (m.exec i).execAll code := rfl

/-- Code is executed in order. -/
@[simp] theorem execAll_append (m : FlagMachine TReg) (code code' : List (FlagInstr TReg)) :
    m.execAll (code ++ code') = (m.execAll code).execAll code' := by
  simp [execAll]

/-- After a trap an instruction changes nothing. -/
theorem exec_of_trapped {m : FlagMachine TReg} (h : m.trapped = true) (i : FlagInstr TReg) :
    m.exec i = m := by
  simp [exec, h]

/-- After a trap code changes nothing. -/
theorem execAll_of_trapped {m : FlagMachine TReg} (h : m.trapped = true)
    (code : List (FlagInstr TReg)) : m.execAll code = m := by
  induction code with
  | nil => rfl
  | cons i code ih => rw [execAll_cons, exec_of_trapped h, ih]

/-- Code that ends without a trap was entered without one. -/
theorem not_trapped_of_execAll {m : FlagMachine TReg} {code : List (FlagInstr TReg)}
    (h : (m.execAll code).trapped = false) : m.trapped = false := by
  cases hm : m.trapped with
  | false => rfl
  | true =>
      rw [execAll_of_trapped hm, hm] at h
      exact absurd h (by decide)

/-- An instruction never writes the stack fence. -/
@[simp] theorem exec_stackFence (m : FlagMachine TReg) (i : FlagInstr TReg) :
    (m.exec i).stackFence = m.stackFence := by
  simp only [exec]
  split
  · rfl
  · cases i <;> rfl

end FlagMachine

/-- An instruction that sets no flags leaves them as they were. -/
theorem FlagInstr.exec_flags {i : FlagInstr TReg} (h : i.setsFlags = false)
    (m : FlagMachine TReg) : (m.exec i).flags = m.flags := by
  simp only [FlagMachine.exec]
  split
  · rfl
  · cases i <;> first | rfl | simp [setsFlags] at h

/-- An instruction that is no trap does not trap. -/
theorem FlagInstr.exec_trapped {i : FlagInstr TReg} (h : i.traps = false)
    (m : FlagMachine TReg) : (m.exec i).trapped = m.trapped := by
  simp only [FlagMachine.exec]
  split
  · rfl
  · cases i <;> first | rfl | simp [traps] at h

end WasmCompiler
