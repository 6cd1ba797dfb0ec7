import WasmCompiler.ByteMemory

/-!
# The TriCore Machine

The registers of TriCore, its memory, and the instructions without jumps that the code of this
development uses. An instruction has the name of its template in the encoder and the operands
that are set in it; an immediate is the field of the instruction word.

A 64-bit value is in two data registers, or two address registers, of which the first is even
and has the lower word.

## Main results

* `Machine.Changes`: execution changed nothing but the given registers and bytes.
* `Machine.setReg_changes`, `Machine.setPair_changes`, `Machine.store_changes`,
  `Machine.storePair_changes`: what the basic operations change.
-/

namespace WasmCompiler

namespace TriCore

open ByteMemory

/-! ### Registers -/

/-- The registers: sixteen data registers and sixteen address registers. -/
inductive REG where
  | D (index : Fin 16)
  | A (index : Fin 16)
  deriving DecidableEq, Repr

/-- There are registers. -/
scoped instance neZeroSixteen : NeZero 16 := ⟨by decide⟩

/-- There are scratch registers. -/
scoped instance neZeroThree : NeZero 3 := ⟨by decide⟩

namespace REG

/-- The stack pointer. -/
def SP : REG := .A 10

/-- The first data register of the two forms with an implicit register. -/
def D15 : REG := .D 15

/-- `isDATA`. -/
def isDATA : REG → Bool
  | D _ => true
  | A _ => false

/-- `canBeExtReg`: the register is even. -/
def canBeExtReg : REG → Bool
  | D i => i.val % 2 == 0
  | A i => i.val % 2 == 0

/-- `getOtherExtReg` and `getOtherExtAddrReg`: the other register of the pair. -/
def getOtherExtReg : REG → REG
  | D i => D (i ^^^ 1)
  | A i => A (i ^^^ 1)

/-- The other register is another one. -/
@[simp] theorem getOtherExtReg_ne (r : REG) : r.getOtherExtReg ≠ r := by
  cases r with
  | D i => revert i; decide
  | A i => revert i; decide

/-- The other register of the other register is the register. -/
@[simp] theorem getOtherExtReg_getOtherExtReg (r : REG) :
    r.getOtherExtReg.getOtherExtReg = r := by
  cases r with
  | D i => revert i; decide
  | A i => revert i; decide

/-- The registers of a pair are of one kind. -/
@[simp] theorem isDATA_getOtherExtReg (r : REG) : r.getOtherExtReg.isDATA = r.isDATA := by
  cases r <;> rfl

/-- One register of a pair is even. -/
@[simp] theorem canBeExtReg_getOtherExtReg (r : REG) :
    r.getOtherExtReg.canBeExtReg = !r.canBeExtReg := by
  cases r with
  | D i => revert i; decide
  | A i => revert i; decide

/-- Two pairs are the same or have no register in common. -/
theorem getOtherExtReg_ne_of_even {r r' : REG} (hr : r.canBeExtReg = true)
    (hr' : r'.canBeExtReg = true) : r.getOtherExtReg ≠ r' := by
  rintro rfl
  simp [hr] at hr'

end REG

/-! ### The machine -/

/-- The program status word: the flags and the other bits. -/
structure PSW where
  carry : Bool
  overflow : Bool
  stickyOverflow : Bool
  advanceOverflow : Bool
  stickyAdvanceOverflow : Bool
  others : BitVec 27
  deriving DecidableEq, Repr

/-- The word itself. -/
def PSW.toBitVec (psw : PSW) : BitVec 32 :=
  BitVec.ofBool psw.carry ++ BitVec.ofBool psw.overflow ++ BitVec.ofBool psw.stickyOverflow ++
    BitVec.ofBool psw.advanceOverflow ++ BitVec.ofBool psw.stickyAdvanceOverflow ++ psw.others

/-- Bit 30 is the overflow flag. -/
theorem PSW.getLsbD_toBitVec (psw : PSW) : psw.toBitVec.getLsbD 30 = psw.overflow := by
  grind [toBitVec]

/-- The number of the program status word among the core registers. -/
def pswCROffset : BitVec 16 := 0xFE04

/-- The registers, the memory, the program status word and the other core registers. -/
structure Machine where
  regs : REG → BitVec 32
  mem : ByteMemory
  psw : PSW
  otherCoreRegs : BitVec 16 → BitVec 32

namespace Machine

/-- Write a register. -/
def setReg (m : Machine) (r : REG) (value : BitVec 32) : Machine :=
  { m with regs := Function.update m.regs r value }

/-- Write a pair of registers. -/
def setPair (m : Machine) (r : REG) (low high : BitVec 32) : Machine :=
  (m.setReg r low).setReg r.getOtherExtReg high

/-- The word at an address. -/
def load (m : Machine) (address : BitVec 32) : BitVec 32 := readWord m.mem address

/-- Write a word. -/
def store (m : Machine) (address value : BitVec 32) : Machine :=
  { m with mem := storeWord m.mem address value }

/-- Write two words. -/
def storePair (m : Machine) (address low high : BitVec 32) : Machine :=
  (m.store address low).store (address + 4) high

/-- A core register. -/
def coreReg (m : Machine) (offset : BitVec 16) : BitVec 32 :=
  if offset = pswCROffset then m.psw.toBitVec else m.otherCoreRegs offset

/-- The flags of an addition. -/
def setArithmeticFlags (m : Machine) (result : BitVec 32) (overflow : Bool) : Machine :=
  let advance := result.getLsbD 31 ^^ result.getLsbD 30
  { m with psw :=
    { m.psw with
      overflow := overflow
      stickyOverflow := m.psw.stickyOverflow || overflow
      advanceOverflow := advance
      stickyAdvanceOverflow := m.psw.stickyAdvanceOverflow || advance } }

/-- Write the sum of two words, and the flags. -/
def add (m : Machine) (dst : REG) (a b : BitVec 32) : Machine :=
  (m.setReg dst (a + b)).setArithmeticFlags (a + b) (BitVec.saddOverflow a b)

@[simp] theorem setReg_mem (m : Machine) (r : REG) (v : BitVec 32) : (m.setReg r v).mem = m.mem :=
  rfl

@[simp] theorem setReg_regs (m : Machine) (r : REG) (v : BitVec 32) :
    (m.setReg r v).regs = Function.update m.regs r v := rfl

@[simp] theorem store_regs (m : Machine) (a v : BitVec 32) : (m.store a v).regs = m.regs := rfl

@[simp] theorem store_mem (m : Machine) (a v : BitVec 32) :
    (m.store a v).mem = storeWord m.mem a v := rfl

@[simp] theorem add_mem (m : Machine) (r : REG) (a b : BitVec 32) : (m.add r a b).mem = m.mem :=
  rfl

@[simp] theorem add_regs (m : Machine) (r : REG) (a b : BitVec 32) :
    (m.add r a b).regs = Function.update m.regs r (a + b) := rfl

@[simp] theorem add_overflow (m : Machine) (r : REG) (a b : BitVec 32) :
    (m.add r a b).psw.overflow = BitVec.saddOverflow a b := rfl

@[simp] theorem setReg_psw (m : Machine) (r : REG) (v : BitVec 32) : (m.setReg r v).psw = m.psw :=
  rfl

end Machine

/-! ### What execution changes -/

/-- Execution changed no register and no byte but the given ones. -/
structure Machine.Changes (regs : REG → Prop) (bytes : BitVec 32 → Prop) (m m' : Machine) :
    Prop where
  regs : ∀ r, ¬ regs r → m'.regs r = m.regs r
  mem : ∀ a, ¬ bytes a → m'.mem a = m.mem a

namespace Machine

variable {regs regs' : REG → Prop} {bytes bytes' : BitVec 32 → Prop} {m m' m'' : Machine}

/-- Nothing changes. -/
theorem Changes.refl (regs : REG → Prop) (bytes : BitVec 32 → Prop) (m : Machine) :
    Changes regs bytes m m :=
  ⟨fun _ _ => rfl, fun _ _ => rfl⟩

/-- One piece of code behind another. -/
theorem Changes.trans (h : Changes regs bytes m m') (h' : Changes regs bytes m' m'') :
    Changes regs bytes m m'' :=
  ⟨fun r hr => (h'.regs r hr).trans (h.regs r hr), fun a ha => (h'.mem a ha).trans (h.mem a ha)⟩

/-- More may be given. -/
theorem Changes.mono (h : Changes regs bytes m m') (hregs : ∀ r, regs r → regs' r)
    (hbytes : ∀ a, bytes a → bytes' a) : Changes regs' bytes' m m' :=
  ⟨fun r hr => h.regs r fun hr' => hr (hregs r hr'), fun a ha => h.mem a fun ha' => ha (hbytes a ha')⟩

/-- No byte is changed. -/
def NoBytes (_ : BitVec 32) : Prop := False

/-- No register is changed. -/
def NoRegs (_ : REG) : Prop := False

/-- Writing a register. -/
theorem setReg_changes (m : Machine) (r : REG) (v : BitVec 32) :
    Changes (· = r) NoBytes m (m.setReg r v) :=
  ⟨fun _ hr => Function.update_of_ne hr _ _, fun _ _ => rfl⟩

/-- Writing a pair of registers. -/
theorem setPair_changes (m : Machine) (r : REG) (low high : BitVec 32) :
    Changes (fun r' => r' = r ∨ r' = r.getOtherExtReg) NoBytes m (m.setPair r low high) :=
  ((m.setReg_changes r low).mono (fun _ => .inl) fun _ => id).trans
    ((setReg_changes _ r.getOtherExtReg high).mono (fun _ => .inr) fun _ => id)

/-- The registers of a pair after it was written. -/
theorem setPair_regs (m : Machine) (r : REG) (low high : BitVec 32) :
    (m.setPair r low high).regs r = low ∧ (m.setPair r low high).regs r.getOtherExtReg = high := by
  refine ⟨?_, Function.update_self _ _ _⟩
  rw [setPair, setReg_regs, Function.update_of_ne (REG.getOtherExtReg_ne r).symm]
  exact Function.update_self _ _ _

/-- Writing a word. -/
theorem store_changes (m : Machine) (a v : BitVec 32) :
    Changes NoRegs (InBlock a 4) m (m.store a v) :=
  ⟨fun _ _ => rfl, fun _ ha => storeWord_of_not_inBlock ha⟩

/-- The second word of two is in the block of both. -/
theorem inBlock_of_add_four {a x : BitVec 32} (h : InBlock (a + 4) 4 x) : InBlock a 8 x :=
  InBlock.of_add (i := 4) h (by decide)

/-- Writing two words. -/
theorem storePair_changes (m : Machine) (a low high : BitVec 32) :
    Changes NoRegs (InBlock a 8) m (m.storePair a low high) := by
  refine ((m.store_changes a low).mono (fun _ => id) fun x hx => ?_).trans
    ((store_changes _ (a + 4) high).mono (fun _ => id) fun x hx => inBlock_of_add_four hx)
  exact lt_of_lt_of_le hx (by decide)

/-- The words at an address and behind it do not overlap. -/
theorem disjoint_add_four (a : BitVec 32) : Disjoint a 4 (a + 4) 4 := by
  intro x hx hx'
  have hfour : (4 : BitVec 32).toNat = 4 := rfl
  simp only [InBlock, BitVec.toNat_sub, BitVec.toNat_add, hfour] at hx hx'
  omega

/-- Two words that were written are read. -/
theorem load_storePair (m : Machine) (a low high : BitVec 32) :
    (m.storePair a low high).load a = low ∧ (m.storePair a low high).load (a + 4) = high := by
  refine ⟨?_, readWord_storeWord _ _ _⟩
  exact (readWord_storeWord_of_disjoint (disjoint_add_four a)).trans (readWord_storeWord _ _ _)

end Machine

/-! ### Instructions -/

/-- The value of an immediate that is shifted left. -/
def shifted {n : ℕ} (c : BitVec n) (shift : ℕ) : BitVec 32 := c.setWidth 32 <<< shift

/-- The instructions without jumps. -/
inductive Instr where
  | MOV_Da_Db (da db : REG)
  | MOV_Da_const4sx (da : REG) (const4sx : BitVec 4)
  | MOV_D15_const8zx (const8zx : BitVec 8)
  | MOVU_Dc_const16zx (dc : REG) (const16zx : BitVec 16)
  | MOVH_Dc_const16 (dc : REG) (const16 : BitVec 16)
  | MOV_Dc_const16sx (dc : REG) (const16sx : BitVec 16)
  | MOV_Ea_const4sx (ea : REG) (const4sx : BitVec 4)
  | MOV_Ec_const16sx (ec : REG) (const16sx : BitVec 16)
  | IMASK_Pos_Width_const4zx (dc : REG) (const4zx : BitVec 4) (pos width : BitVec 5)
  | ADD_Da_Db (da db : REG)
  | ADD_Da_const4sx (da : REG) (const4sx : BitVec 4)
  | ADD_Da_D15_const4sx (da : REG) (const4sx : BitVec 4)
  | ADD_D15_Da_const4sx (da : REG) (const4sx : BitVec 4)
  | ADDI_Dc_Da_const16sx (dc da : REG) (const16sx : BitVec 16)
  | ADDIH_Dc_Da_const16 (dc da : REG) (const16 : BitVec 16)
  | MOVAA_Aa_Ab (aa ab : REG)
  | MOVA_Aa_const4zx (aa : REG) (const4zx : BitVec 4)
  | MOVHA_Ac_const16 (ac : REG) (const16 : BitVec 16)
  | ADDA_Aa_const4sx (aa : REG) (const4sx : BitVec 4)
  | ADDIHA_Ac_Aa_const16 (ac aa : REG) (const16 : BitVec 16)
  | LEA_Aa_deref_Ab_off16sx (aa ab : REG) (off16sx : BitVec 16)
  | SUBA_A10_const8zx (const8zx : BitVec 8)
  | LDW_Dc_deref_Ab (dc ab : REG)
  | LDW_D15_deref_A10_const8zxls2 (const8zxls2 : BitVec 8)
  | LDW_D15_deref_Ab_off4srozxls2 (ab : REG) (off4srozxls2 : BitVec 4)
  | LDW_Dc_deref_A15_off4zxls2 (dc : REG) (off4zxls2 : BitVec 4)
  | LDW_Da_deref_Ab_off16sx (da ab : REG) (off16sx : BitVec 16)
  | LDD_Ea_deref_Ab_off10sx (ea ab : REG) (off10sx : BitVec 10)
  | LDDA_Pa_deref_Ab_off10sx (pa ab : REG) (off10sx : BitVec 10)
  | LDA_Ac_deref_Ab (ac ab : REG)
  | LDA_Aa_deref_Ab_off16sx (aa ab : REG) (off16sx : BitVec 16)
  | STW_deref_Ab_Da (ab da : REG)
  | STW_deref_A10_const8zxls2_D15 (const8zxls2 : BitVec 8)
  | STW_deref_Ab_off4srozxls2_D15 (ab : REG) (off4srozxls2 : BitVec 4)
  | STW_deref_A15_off4zxls2_Da (off4zxls2 : BitVec 4) (da : REG)
  | STW_deref_Ab_off16sx_Da (ab : REG) (off16sx : BitVec 16) (da : REG)
  | STD_deref_Ab_off10sx_Ea (ab : REG) (off10sx : BitVec 10) (ea : REG)
  | STDA_deref_Ab_off10sx_Pa (ab : REG) (off10sx : BitVec 10) (pa : REG)
  | STA_deref_Ab_Aa (ab aa : REG)
  | STA_deref_Ab_off16sx_Aa (ab : REG) (off16sx : BitVec 16) (aa : REG)
  | MFCR_Dc_const16 (dc : REG) (const16 : BitVec 16)
  deriving DecidableEq, Repr

namespace Instr

/-- Execute an instruction. -/
def exec (i : Instr) (m : Machine) : Machine :=
  match i with
  | MOV_Da_Db da db => m.setReg da (m.regs db)
  | MOV_Da_const4sx da c => m.setReg da (c.signExtend 32)
  | MOV_D15_const8zx c => m.setReg .D15 (c.setWidth 32)
  | MOVU_Dc_const16zx dc c => m.setReg dc (c.setWidth 32)
  | MOVH_Dc_const16 dc c => m.setReg dc (shifted c 16)
  | MOV_Dc_const16sx dc c => m.setReg dc (c.signExtend 32)
  | MOV_Ea_const4sx ea c =>
      m.setPair ea ((c.signExtend 64).setWidth 32) ((c.signExtend 64).extractLsb' 32 32)
  | MOV_Ec_const16sx ec c =>
      m.setPair ec ((c.signExtend 64).setWidth 32) ((c.signExtend 64).extractLsb' 32 32)
  | IMASK_Pos_Width_const4zx dc c pos width =>
      m.setPair dc (shifted c pos.toNat)
        ((BitVec.ofNat 32 (2 ^ width.toNat - 1)) <<< pos.toNat)
  | ADD_Da_Db da db => m.add da (m.regs da) (m.regs db)
  | ADD_Da_const4sx da c => m.add da (m.regs da) (c.signExtend 32)
  | ADD_Da_D15_const4sx da c => m.add da (m.regs .D15) (c.signExtend 32)
  | ADD_D15_Da_const4sx da c => m.add .D15 (m.regs da) (c.signExtend 32)
  | ADDI_Dc_Da_const16sx dc da c => m.add dc (m.regs da) (c.signExtend 32)
  | ADDIH_Dc_Da_const16 dc da c => m.add dc (m.regs da) (shifted c 16)
  | MOVAA_Aa_Ab aa ab => m.setReg aa (m.regs ab)
  | MOVA_Aa_const4zx aa c => m.setReg aa (c.setWidth 32)
  | MOVHA_Ac_const16 ac c => m.setReg ac (shifted c 16)
  | ADDA_Aa_const4sx aa c => m.setReg aa (m.regs aa + c.signExtend 32)
  | ADDIHA_Ac_Aa_const16 ac aa c => m.setReg ac (m.regs aa + shifted c 16)
  | LEA_Aa_deref_Ab_off16sx aa ab c => m.setReg aa (m.regs ab + c.signExtend 32)
  | SUBA_A10_const8zx c => m.setReg .SP (m.regs .SP - c.setWidth 32)
  | LDW_Dc_deref_Ab dc ab => m.setReg dc (m.load (m.regs ab))
  | LDW_D15_deref_A10_const8zxls2 c => m.setReg .D15 (m.load (m.regs .SP + shifted c 2))
  | LDW_D15_deref_Ab_off4srozxls2 ab c => m.setReg .D15 (m.load (m.regs ab + shifted c 2))
  | LDW_Dc_deref_A15_off4zxls2 dc c => m.setReg dc (m.load (m.regs (.A 15) + shifted c 2))
  | LDW_Da_deref_Ab_off16sx da ab c => m.setReg da (m.load (m.regs ab + c.signExtend 32))
  | LDD_Ea_deref_Ab_off10sx ea ab c | LDDA_Pa_deref_Ab_off10sx ea ab c =>
      let address := m.regs ab + c.signExtend 32
      m.setPair ea (m.load address) (m.load (address + 4))
  | LDA_Ac_deref_Ab ac ab => m.setReg ac (m.load (m.regs ab))
  | LDA_Aa_deref_Ab_off16sx aa ab c => m.setReg aa (m.load (m.regs ab + c.signExtend 32))
  | STW_deref_Ab_Da ab da => m.store (m.regs ab) (m.regs da)
  | STW_deref_A10_const8zxls2_D15 c => m.store (m.regs .SP + shifted c 2) (m.regs .D15)
  | STW_deref_Ab_off4srozxls2_D15 ab c => m.store (m.regs ab + shifted c 2) (m.regs .D15)
  | STW_deref_A15_off4zxls2_Da c da => m.store (m.regs (.A 15) + shifted c 2) (m.regs da)
  | STW_deref_Ab_off16sx_Da ab c da => m.store (m.regs ab + c.signExtend 32) (m.regs da)
  | STD_deref_Ab_off10sx_Ea ab c ea | STDA_deref_Ab_off10sx_Pa ab c ea =>
      m.storePair (m.regs ab + c.signExtend 32) (m.regs ea) (m.regs ea.getOtherExtReg)
  | STA_deref_Ab_Aa ab aa => m.store (m.regs ab) (m.regs aa)
  | STA_deref_Ab_off16sx_Aa ab c aa => m.store (m.regs ab + c.signExtend 32) (m.regs aa)
  | MFCR_Dc_const16 dc c => m.setReg dc (m.coreReg c)

end Instr

/-- Execute code without jumps. -/
def execAll (code : List Instr) (m : Machine) : Machine :=
  code.foldl (fun m i => i.exec m) m

/-- Nothing is executed for no code. -/
@[simp] theorem execAll_nil (m : Machine) : execAll [] m = m := rfl

/-- The first instruction comes first. -/
@[simp] theorem execAll_cons (i : Instr) (code : List Instr) (m : Machine) :
    execAll (i :: code) m = execAll code (i.exec m) := rfl

/-- One piece of code behind another. -/
@[simp] theorem execAll_append (code code' : List Instr) (m : Machine) :
    execAll (code ++ code') m = execAll code' (execAll code m) := by
  simp [execAll]

end TriCore

end WasmCompiler
