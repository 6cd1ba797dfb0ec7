import WasmCompiler.ByteCopies
import WasmCompiler.CompilerObject
import WasmCompiler.ForwardCode
import WasmCompiler.TriCoreAddressing

/-!
# Code with Loops on TriCore

The code for bulk memory instructions jumps forward, and backward only to the first instruction of
a loop whose last instruction is the jump. An access to more than one byte has to be aligned to
two bytes. Execution gets a limit for the iterations of every loop, and the code is unfinished if
a loop takes more.

## Main results

* `runLoop_of_steps`: a loop whose steps count down ends within its limit.
* `runBulk_op`, `runBulk_jump`, `runBulk_loop`: executing code instruction by instruction.
-/

namespace WasmCompiler

namespace TriCore

open ByteMemory Machine

/-- `WasmABI::REGS::memSize`. -/
def memSize : REG := .A 3

/-- `WasmABI::REGS::memLdStReg`. -/
def memLdStReg : REG := .A 15

/-! ### Instructions -/

/-- The instructions that do not jump. -/
inductive BulkOp where
  | plain (i : Instr)
  | MOVD_Da_Ab (da ab : REG)
  | MOVA_Aa_Db (aa db : REG)
  | ADDA_Aa_Ab (aa ab : REG)
  | MAXU_Dc_Da_Db (dc da db : REG)
  | XOR_Da_Db (da db : REG)
  | AND_D15_const8zx (const8zx : BitVec 8)
  | AND_Dc_Da_const9zx (dc da : REG) (const9zx : BitVec 9)
  | SH_Dc_Da_const9sx (dc da : REG) (const9sx : BitVec 9)
  | COPY_BYTE_TO_ALL_Dc_Da (dc da : REG)
  | GEA_Dc_Aa_Ab (dc aa ab : REG)
  | LDBU_Dc_deref_Ab_postinc (dc ab : REG)
  | LDBU_Da_deref_Ab_off10sx_preinc (da ab : REG) (off10sx : BitVec 10)
  | STB_deref_Ab_Da_postinc (ab da : REG)
  | STB_deref_Ab_off10sx_Da_preinc (ab : REG) (off10sx : BitVec 10) (da : REG)
  | STW_deref_Ab_Da_postinc (ab da : REG)
  | LDD_Ea_deref_Ab_off10sx_postinc (ea ab : REG) (off10sx : BitVec 10)
  | LDD_Ea_deref_Ab_off10sx_preinc (ea ab : REG) (off10sx : BitVec 10)
  | STD_deref_Ab_off10sx_Ea_postinc (ab : REG) (off10sx : BitVec 10) (ea : REG)
  | STD_deref_Ab_off10sx_Ea_preinc (ab : REG) (off10sx : BitVec 10) (ea : REG)
  deriving DecidableEq, Repr

/-- Write a byte. -/
def Machine.storeByte (m : Machine) (address : BitVec 32) (b : BitVec 8) : Machine :=
  { m with mem := ByteMemory.storeByte m.mem address b }

/-- A logical shift, to the right for a negative count. -/
def logicalShift (value : BitVec 32) (const9sx : BitVec 9) : BitVec 32 :=
  let count := (const9sx.setWidth 6).toInt
  if 0 ≤ count then value <<< count.toNat else value >>> (-count).toNat

/-- The lowest byte in all bytes of a word. -/
def copyByteToAll (value : BitVec 32) : BitVec 32 :=
  let b := value.setWidth 8
  b ++ b ++ b ++ b

namespace BulkOp

/-- Execute an instruction. -/
def exec (o : BulkOp) (m : Machine) : Machine :=
  match o with
  | plain i => i.exec m
  | MOVD_Da_Ab da ab => m.setReg da (m.regs ab)
  | MOVA_Aa_Db aa db => m.setReg aa (m.regs db)
  | ADDA_Aa_Ab aa ab => m.setReg aa (m.regs aa + m.regs ab)
  | MAXU_Dc_Da_Db dc da db =>
      m.setReg dc (if m.regs da < m.regs db then m.regs db else m.regs da)
  | XOR_Da_Db da db => m.setReg da (m.regs da ^^^ m.regs db)
  | AND_D15_const8zx c => m.setReg .D15 (m.regs .D15 &&& c.setWidth 32)
  | AND_Dc_Da_const9zx dc da c => m.setReg dc (m.regs da &&& c.setWidth 32)
  | SH_Dc_Da_const9sx dc da c => m.setReg dc (logicalShift (m.regs da) c)
  | COPY_BYTE_TO_ALL_Dc_Da dc da => m.setReg dc (copyByteToAll (m.regs da))
  | GEA_Dc_Aa_Ab dc aa ab => m.setReg dc (if m.regs ab ≤ m.regs aa then 1 else 0)
  | LDBU_Dc_deref_Ab_postinc dc ab =>
      (m.setReg dc ((m.mem (m.regs ab)).setWidth 32)).setReg ab (m.regs ab + 1)
  | LDBU_Da_deref_Ab_off10sx_preinc da ab c =>
      let address := m.regs ab + c.signExtend 32
      (m.setReg da ((m.mem address).setWidth 32)).setReg ab address
  | STB_deref_Ab_Da_postinc ab da =>
      (m.storeByte (m.regs ab) ((m.regs da).setWidth 8)).setReg ab (m.regs ab + 1)
  | STB_deref_Ab_off10sx_Da_preinc ab c da =>
      let address := m.regs ab + c.signExtend 32
      (m.storeByte address ((m.regs da).setWidth 8)).setReg ab address
  | STW_deref_Ab_Da_postinc ab da =>
      (m.store (m.regs ab) (m.regs da)).setReg ab (m.regs ab + 4)
  | LDD_Ea_deref_Ab_off10sx_postinc ea ab c =>
      let address := m.regs ab
      (m.setPair ea (m.load address) (m.load (address + 4))).setReg ab
        (address + c.signExtend 32)
  | LDD_Ea_deref_Ab_off10sx_preinc ea ab c =>
      let address := m.regs ab + c.signExtend 32
      (m.setPair ea (m.load address) (m.load (address + 4))).setReg ab address
  | STD_deref_Ab_off10sx_Ea_postinc ab c ea =>
      let address := m.regs ab
      (m.storePair address (m.regs ea) (m.regs ea.getOtherExtReg)).setReg ab
        (address + c.signExtend 32)
  | STD_deref_Ab_off10sx_Ea_preinc ab c ea =>
      let address := m.regs ab + c.signExtend 32
      (m.storePair address (m.regs ea) (m.regs ea.getOtherExtReg)).setReg ab address

/-- The address of an access to more than one byte. -/
def wideAddress? (o : BulkOp) (m : Machine) : Option (BitVec 32) :=
  match o with
  | STW_deref_Ab_Da_postinc ab _ => some (m.regs ab)
  | LDD_Ea_deref_Ab_off10sx_postinc _ ab _ | STD_deref_Ab_off10sx_Ea_postinc ab _ _ =>
      some (m.regs ab)
  | LDD_Ea_deref_Ab_off10sx_preinc _ ab c | STD_deref_Ab_off10sx_Ea_preinc ab c _ =>
      some (m.regs ab + c.signExtend 32)
  | _ => none

/-- An access to more than one byte is aligned to two bytes. -/
def isAligned (o : BulkOp) (m : Machine) : Bool :=
  (o.wideAddress? m).all fun address => !address.getLsbD 0

end BulkOp

/-- The jumps to instructions further on. -/
inductive CondJump where
  | JZT_Da_n_disp15sx2 (da : REG) (n : ℕ)
  | JNZT_Da_n_disp15sx2 (da : REG) (n : ℕ)
  | JEQ_Da_const4sx_disp15sx2 (da : REG) (const4sx : BitVec 4)
  | JLTU_Da_const4zx_disp15sx2 (da : REG) (const4zx : BitVec 4)
  | JLTU_Da_Db_disp15sx2 (da db : REG)
  | JLTZ_Db_disp4zx2 (db : REG)
  | JNZ_Db_disp4zx2 (db : REG)
  | J_disp24sx2
  deriving DecidableEq, Repr

/-- A jump is taken. -/
def CondJump.taken (j : CondJump) (m : Machine) : Bool :=
  match j with
  | JZT_Da_n_disp15sx2 da n => !(m.regs da).getLsbD n
  | JNZT_Da_n_disp15sx2 da n => (m.regs da).getLsbD n
  | JEQ_Da_const4sx_disp15sx2 da c => m.regs da == c.signExtend 32
  | JLTU_Da_const4zx_disp15sx2 da c => decide (m.regs da < c.setWidth 32)
  | JLTU_Da_Db_disp15sx2 da db => decide (m.regs da < m.regs db)
  | JLTZ_Db_disp4zx2 db => (m.regs db).getLsbD 31
  | JNZ_Db_disp4zx2 db => m.regs db != 0
  | J_disp24sx2 => true

/-- The jumps back to the start of a loop. -/
inductive BackJump where
  | JNED_Da_const4sx_disp15sx2 (da : REG) (const4sx : BitVec 4)
  | JGEU_Da_const4zx_disp15sx2 (da : REG) (const4zx : BitVec 4)
  deriving DecidableEq, Repr

namespace BackJump

/-- A jump is taken. -/
def taken (back : BackJump) (m : Machine) : Bool :=
  match back with
  | JNED_Da_const4sx_disp15sx2 da c => m.regs da != c.signExtend 32
  | JGEU_Da_const4zx_disp15sx2 da c => decide (c.setWidth 32 ≤ m.regs da)

/-- `JNED` decrements the register after the comparison. -/
def exec (back : BackJump) (m : Machine) : Machine :=
  match back with
  | JNED_Da_const4sx_disp15sx2 da _ => m.setReg da (m.regs da - 1)
  | JGEU_Da_const4zx_disp15sx2 _ _ => m

end BackJump

/-- The instructions; a jump names the number of instructions that it skips, and a loop is one
instruction. -/
inductive BulkInstr where
  | op (o : BulkOp)
  | jump (j : CondJump) (skipped : ℕ)
  /-- `cTRAP` with `JumpCondition::u32LtReg`. -/
  | cTRAP (trapCode : TrapCode) (regA regB : REG)
  /-- `FCALL_disp24sx2` of the helper function `extensionRequest`. -/
  | fcallExtensionRequest
  | loop (body : List BulkOp) (back : BackJump)
  deriving DecidableEq, Repr

/-- Execution did not end behind the code. -/
inductive BulkEnd where
  | trap (trapCode : TrapCode)
  | misaligned
  /-- A loop took more iterations than its limit. -/
  | unfinished
  deriving DecidableEq, Repr

/-! ### Execution -/

/-- Execute the body of a loop. -/
def runOps : List BulkOp → Machine → Option Machine
  | [], m => some m
  | o :: body, m => if o.isAligned m then runOps body (o.exec m) else none

/-- Execute a loop. -/
def runLoop (body : List BulkOp) (back : BackJump) : ℕ → Machine → Except BulkEnd Machine
  | 0, _ => .error .unfinished
  | limit + 1, m =>
      match runOps body m with
      | none => .error .misaligned
      | some m' =>
          if back.taken m' then runLoop body back limit (back.exec m') else .ok (back.exec m')

/-- Execute an instruction, with the helper function for extension requests, which traps for
`none`. -/
def BulkInstr.exec (extensionRequest : Machine → Option Machine) (limit : ℕ) (i : BulkInstr)
    (m : Machine) : ForwardCode.Control BulkEnd × Machine :=
  match i with
  | op o => if o.isAligned m then (.next, o.exec m) else (.trap .misaligned, m)
  | jump j skipped => (if j.taken m then .skip skipped else .next, m)
  | cTRAP trapCode regA regB =>
      (if m.regs regA < m.regs regB then .trap (.trap trapCode) else .next, m)
  | fcallExtensionRequest =>
      match extensionRequest m with
      | none => (.trap (.trap .linMemOutOfBoundsAccess), m)
      | some m' => (.next, m')
  | loop body back =>
      match runLoop body back limit m with
      | .error e => (.trap e, m)
      | .ok m' => (.next, m')

/-- Execute code. -/
def runBulk (extensionRequest : Machine → Option Machine) (limit : ℕ) (code : List BulkInstr)
    (m : Machine) : Except BulkEnd Machine :=
  ForwardCode.run (BulkInstr.exec extensionRequest limit) 0 code m

/-! ### Loops -/

/-- **A loop whose steps count down** ends after as many iterations. -/
theorem runLoop_of_steps {body : List BulkOp} {back : BackJump} {P : ℕ → Machine → Prop}
    (hstep : ∀ k m, P (k + 1) m → ∃ m', runOps body m = some m' ∧
      (back.taken m' = true ↔ k ≠ 0) ∧ P k (back.exec m'))
    {count limit : ℕ} {m : Machine} (hcount : 0 < count) (hlimit : count ≤ limit)
    (h : P count m) : ∃ m', runLoop body back limit m = .ok m' ∧ P 0 m' := by
  induction count generalizing limit m with
  | zero => exact absurd hcount (lt_irrefl 0)
  | succ count ih =>
      obtain ⟨limit, rfl⟩ : ∃ l, limit = l + 1 := ⟨limit - 1, by omega⟩
      obtain ⟨m', hrun, htaken, hP⟩ := hstep count m h
      rw [runLoop, hrun]
      dsimp only
      cases count with
      | zero =>
          have hnot : ¬ back.taken m' = true := fun ht => htaken.mp ht rfl
          rw [if_neg hnot]
          exact ⟨_, rfl, hP⟩
      | succ count =>
          rw [if_pos (htaken.mpr (Nat.succ_ne_zero count))]
          exact ih (Nat.zero_lt_succ count) (by omega) hP

/-! ### Instruction by instruction -/

section Steps

variable {extensionRequest : Machine → Option Machine} {limit : ℕ} {m : Machine}

/-- An instruction that is aligned. -/
theorem runBulk_op {o : BulkOp} (h : o.isAligned m = true) (code : List BulkInstr) :
    runBulk extensionRequest limit (.op o :: code) m =
      runBulk extensionRequest limit code (o.exec m) := by
  have hexec : BulkInstr.exec extensionRequest limit (.op o) m = (.next, o.exec m) := if_pos h
  rw [runBulk, ForwardCode.run_cons_of_next (by rw [hexec]), hexec]
  rfl

/-- Instructions that are aligned. -/
theorem runBulk_ops {body : List BulkOp} {m' : Machine} (h : runOps body m = some m')
    (code : List BulkInstr) :
    runBulk extensionRequest limit (body.map .op ++ code) m =
      runBulk extensionRequest limit code m' := by
  induction body generalizing m with
  | nil =>
      obtain rfl : m = m' := Option.some.inj h
      rfl
  | cons o body ih =>
      rw [runOps] at h
      split at h
      · case _ haligned => exact (runBulk_op haligned _).trans (ih h)
      · cases h

/-- A jump that is not taken. -/
theorem runBulk_jump_of_not {j : CondJump} (h : j.taken m = false) (skipped : ℕ)
    (code : List BulkInstr) :
    runBulk extensionRequest limit (.jump j skipped :: code) m =
      runBulk extensionRequest limit code m := by
  have hexec : BulkInstr.exec extensionRequest limit (.jump j skipped) m = (.next, m) := by
    rw [BulkInstr.exec, h]
    rfl
  rw [runBulk, ForwardCode.run_cons_of_next (by rw [hexec]), hexec]
  rfl

/-- A jump that is taken, over a piece of code. -/
theorem runBulk_jump {j : CondJump} (h : j.taken m = true) (skipped code : List BulkInstr) :
    runBulk extensionRequest limit (.jump j skipped.length :: (skipped ++ code)) m =
      runBulk extensionRequest limit code m := by
  have hexec : BulkInstr.exec extensionRequest limit (.jump j skipped.length) m =
      (.skip skipped.length, m) := by
    rw [BulkInstr.exec, h]
    rfl
  rw [runBulk, ForwardCode.run_cons_of_skip (by rw [hexec]), hexec,
    ForwardCode.run_skip_append]
  rfl

/-- A loop that ends. -/
theorem runBulk_loop {body : List BulkOp} {back : BackJump} {m' : Machine}
    (h : runLoop body back limit m = .ok m') (code : List BulkInstr) :
    runBulk extensionRequest limit (.loop body back :: code) m =
      runBulk extensionRequest limit code m' := by
  have hexec : BulkInstr.exec extensionRequest limit (.loop body back) m = (.next, m') := by
    rw [BulkInstr.exec, h]
  rw [runBulk, ForwardCode.run_cons_of_next (by rw [hexec]), hexec]
  rfl

/-- A loop that does not end within the limit, or is not aligned. -/
theorem runBulk_loop_of_error {body : List BulkOp} {back : BackJump} {e : BulkEnd}
    (h : runLoop body back limit m = .error e) (code : List BulkInstr) :
    runBulk extensionRequest limit (.loop body back :: code) m = .error e := by
  have hexec : BulkInstr.exec extensionRequest limit (.loop body back) m = (.trap e, m) := by
    rw [BulkInstr.exec, h]
  exact ForwardCode.run_cons_of_trap (by rw [hexec]) code

/-- A trap that is not taken. -/
theorem runBulk_cTRAP_of_not {regA regB : REG} (h : ¬ m.regs regA < m.regs regB)
    (trapCode : TrapCode) (code : List BulkInstr) :
    runBulk extensionRequest limit (.cTRAP trapCode regA regB :: code) m =
      runBulk extensionRequest limit code m := by
  have hexec : BulkInstr.exec extensionRequest limit (.cTRAP trapCode regA regB) m =
      (.next, m) := by
    rw [BulkInstr.exec, if_neg h]
  rw [runBulk, ForwardCode.run_cons_of_next (by rw [hexec]), hexec]
  rfl

/-- A trap that is taken. -/
theorem runBulk_cTRAP {regA regB : REG} (h : m.regs regA < m.regs regB) (trapCode : TrapCode)
    (code : List BulkInstr) :
    runBulk extensionRequest limit (.cTRAP trapCode regA regB :: code) m =
      .error (.trap trapCode) := by
  have hexec : BulkInstr.exec extensionRequest limit (.cTRAP trapCode regA regB) m =
      (.trap (.trap trapCode), m) := by
    rw [BulkInstr.exec, if_pos h]
  exact ForwardCode.run_cons_of_trap (by rw [hexec]) code

/-- Code that ended. -/
@[simp] theorem runBulk_nil : runBulk extensionRequest limit [] m = .ok m := rfl

end Steps

end TriCore

end WasmCompiler
