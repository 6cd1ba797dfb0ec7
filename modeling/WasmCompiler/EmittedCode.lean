import WasmCompiler.CompilerFrame

/-!
# Emitted Code

The instructions the code generator emits while it delivers branch operands, dispatches a
branch table or grows the memory, and their effect on the machine. Stack slots are addressed
relative to the stack pointer: an instruction carries the frame size that was recorded when
it was emitted, and reaches the recorded slot only if the stack pointer agrees with that
size. Moves between two storages are one instruction here, although the assembler may need
two and a helper register that holds no variable.

## Main results

* `Relocates.trans`: pieces of code that keep the recorded values compose.
-/

namespace WasmCompiler

variable {TReg : Type}

/-- A register or an immediate. -/
inductive RegOrImm (TReg : Type) where
  | reg (r : TReg)
  | imm (value : BitVec 32)
  deriving DecidableEq, Repr

/-- The CPU flags, by the operation that set them last. -/
inductive Flags where
  | unset
  | sum (a b : BitVec 32)
  | comparison (a b : BitVec 32)
  deriving DecidableEq, Repr

namespace Flags

end Flags

/-- One emitted instruction. -/
inductive MachineInstr (TReg : Type) where
  /-- `emitMoveImpl`, emitted while the frame had the given size. -/
  | move (stackFrameSize : UInt32) (dst src : VariableStorage TReg)
  /-- Change the stack pointer so that the frame is larger by `delta` bytes. -/
  | growFrame (delta : UInt32)
  | moveReg (dst : TReg) (src : RegOrImm TReg)
  | addSettingFlags (dst : TReg) (src : RegOrImm TReg)
  | compare (a : TReg) (b : RegOrImm TReg)
  /-- Select the first source if the first operand of the comparison was lower. -/
  | selectLower (dst a b : TReg)
  | loadLinMemWasmSize (dst : TReg)
  | storeLinMemWasmSize (src : TReg)
  | exchangeLinMemWasmSize (reg : TReg)
  deriving DecidableEq, Repr

/-- The state of the machine: `cells` are the contents of registers, link data and stack
slots by their distance from the base of the frame, `stackPointer` is the distance of the
stack pointer from there. -/
structure Machine (TReg : Type) where
  cells : MachineState TReg
  stackPointer : UInt32
  linMemWasmSize : BitVec 32
  flags : Flags

namespace Machine

/-- The 32-bit value of an operand. -/
def operand (m : Machine TReg) : RegOrImm TReg → BitVec 32
  | .reg r => (m.cells (.register r)).setWidth 32
  | .imm value => value

end Machine

/-- The storage an access reaches when the stack pointer is `shift` bytes further from the
base than the recorded frame size. -/
def VariableStorage.displaced (shift : UInt32) (s : VariableStorage TReg) :
    VariableStorage TReg :=
  match s.location with
  | .stackMemory stackFramePosition => ⟨s.machineType, .stackMemory (stackFramePosition + shift)⟩
  | _ => s

/-- Without a shift an access reaches the recorded storage. -/
@[simp] theorem VariableStorage.displaced_zero (s : VariableStorage TReg) :
    s.displaced 0 = s := by
  obtain ⟨mt, loc⟩ := s
  cases loc <;> simp [displaced]

/-- The values of elements in a machine state, at the storages recorded for them. -/
def FrameContext.values (ctx : FrameContext TReg) (σ : MachineState TReg)
    (es : List (LocatedElement TReg)) : List Word :=
  es.map fun e => (ctx.getStorage e).value σ

/-- Replacing elements of a list pointwise keeps the value lists when each replacement does. -/
theorem values_mapIdx {ctx : FrameContext TReg} {es : List (LocatedElement TReg)}
    {f : ℕ → LocatedElement TReg → LocatedElement TReg} {σ σ' : MachineState TReg}
    (h : ∀ i e, es[i]? = some e →
      (ctx.getStorage (f i e)).value σ' = (ctx.getStorage e).value σ) :
    ctx.values σ' (es.mapIdx f) = ctx.values σ es := by
  apply List.ext_getElem?
  intro i
  simp only [FrameContext.values, List.getElem?_map, List.getElem?_mapIdx, Option.map_map]
  cases he : es[i]? with
  | none => rfl
  | some e => simpa using h i e he

variable [DecidableEq TReg]

/-- Write a value to a storage, at the storage's type. -/
def VariableStorage.assign (s : VariableStorage TReg) (σ : MachineState TReg) (w : Word) :
    MachineState TReg :=
  match s.cell? with
  | some c => Function.update σ c (s.machineType.carried w)
  | Option.none => σ

namespace Machine

/-- Write a 32-bit value to a register; the upper half of the register becomes zero. -/
def setReg (m : Machine TReg) (r : TReg) (value : BitVec 32) : Machine TReg :=
  { m with cells := Function.update m.cells (.register r) (value.setWidth 64) }

/-- Execute one instruction. -/
def exec (m : Machine TReg) : MachineInstr TReg → Machine TReg
  | .move stackFrameSize dst src =>
      let shift := m.stackPointer - stackFrameSize
      { m with
        cells := (dst.displaced shift).assign m.cells ((src.displaced shift).value m.cells) }
  | .growFrame delta => { m with stackPointer := m.stackPointer + delta }
  | .moveReg dst src => m.setReg dst (m.operand src)
  | .addSettingFlags dst src =>
      let a := m.operand (.reg dst)
      let b := m.operand src
      { m.setReg dst (a + b) with flags := .sum a b }
  | .compare a b => { m with flags := .comparison (m.operand (.reg a)) (m.operand b) }
  | .selectLower dst a b =>
      match m.flags with
      | .comparison x y => m.setReg dst (m.operand (.reg (if x < y then a else b)))
      | _ => m
  | .loadLinMemWasmSize dst => m.setReg dst m.linMemWasmSize
  | .storeLinMemWasmSize src => { m with linMemWasmSize := m.operand (.reg src) }
  | .exchangeLinMemWasmSize reg =>
      { m.setReg reg m.linMemWasmSize with linMemWasmSize := m.operand (.reg reg) }

/-- Execute a sequence of instructions. -/
def execAll (m : Machine TReg) (code : List (MachineInstr TReg)) : Machine TReg :=
  code.foldl exec m

/-- Nothing is executed for no code. -/
@[simp] theorem execAll_nil (m : Machine TReg) : m.execAll [] = m := rfl

/-- The first instruction is executed first. -/
@[simp] theorem execAll_cons (m : Machine TReg) (i : MachineInstr TReg)
    (code : List (MachineInstr TReg)) : m.execAll (i :: code) = (m.exec i).execAll code := rfl

/-- Code is executed in the order it was emitted. -/
@[simp] theorem execAll_append (m : Machine TReg) (code code' : List (MachineInstr TReg)) :
    m.execAll (code ++ code') = (m.execAll code).execAll code' := by
  simp [execAll]

/-- With the stack pointer where the frame size says it is, a move reaches the recorded
storages. -/
theorem exec_move {m : Machine TReg} {stackFrameSize : UInt32}
    (h : m.stackPointer = stackFrameSize) (dst src : VariableStorage TReg) :
    m.exec (.move stackFrameSize dst src) =
      { m with cells := dst.assign m.cells (src.value m.cells) } := by
  simp [exec, h]

end Machine

namespace VariableStorage

/-- Assigning to a storage with a cell writes the cell. -/
theorem assign_of_cell {s : VariableStorage TReg} {c : Cell TReg} (h : s.cell? = some c)
    (σ : MachineState TReg) (w : Word) :
    s.assign σ w = Function.update σ c (s.machineType.carried w) := by
  simp [assign, h]

/-- Assigning leaves the other cells alone. -/
theorem assign_of_ne {s : VariableStorage TReg} {c : Cell TReg} (h : s.cell? ≠ some c)
    (σ : MachineState TReg) (w : Word) : s.assign σ w c = σ c := by
  cases hs : s.cell? with
  | none => simp [assign, hs]
  | some d =>
      have hne : c ≠ d := fun he => h (he ▸ hs)
      rw [s.assign_of_cell hs, Function.update_of_ne hne]

end VariableStorage

/-! ### Code that keeps the recorded values -/

/-- A set of registers that may not be used. -/
inductive RegMask (TReg : Type) where
  | all
  | regs (rs : List TReg)
  deriving Repr

/-- Whether the mask marks the register. -/
def RegMask.contains : RegMask TReg → TReg → Bool
  | all, _ => true
  | regs rs, r => r ∈ rs

/-- The cells that relocating elements never writes: registers that are protected or not
handed out, and everything outside the region of temporary slots. -/
def Kept (ctx : FrameContext TReg) (protRegs : RegMask TReg) : Cell TReg → Prop
  | .register reg => protRegs.contains reg ∨ (reg ∉ ctx.gpr ∧ reg ∉ ctx.fpr)
  | .stackMemory stackFramePosition =>
      stackFramePosition ≤ ctx.minimalStackFrameSize ∨ maxStackFrameSize < stackFramePosition
  | .linkData _ => True

/-- **Code that keeps the recorded values**: the compiler state goes from `st` to `st'`
while `code` is emitted, and executing the code from a stack pointer that agrees with the
recorded frame size ends with one that agrees with the new size and with every element's
value in its new place; nothing else is written but unprotected scratch registers and
temporary slots. -/
structure Relocates (ctx : FrameContext TReg) (protRegs : RegMask TReg)
    (st : CompilerState TReg) (code : List (MachineInstr TReg)) (st' : CompilerState TReg) :
    Prop where
  wellFormed : st'.WellFormed ctx
  length_eq : st'.stack.length = st.stack.length
  stackPointer_eq : ∀ m : Machine TReg, m.stackPointer = st.stackFrameSize →
    (m.execAll code).stackPointer = st'.stackFrameSize
  values_eq : ∀ m : Machine TReg, m.stackPointer = st.stackFrameSize →
    ctx.values (m.execAll code).cells st'.stack = ctx.values m.cells st.stack
  kept : ∀ m : Machine TReg, m.stackPointer = st.stackFrameSize →
    ∀ c, Kept ctx protRegs c → (m.execAll code).cells c = m.cells c
  linMemWasmSize_eq : ∀ m : Machine TReg, m.stackPointer = st.stackFrameSize →
    (m.execAll code).linMemWasmSize = m.linMemWasmSize
  flags_eq : ∀ m : Machine TReg, m.stackPointer = st.stackFrameSize →
    (m.execAll code).flags = m.flags

namespace Relocates

variable {ctx : FrameContext TReg} {protRegs : RegMask TReg} {st st' st'' : CompilerState TReg}
  {code code' : List (MachineInstr TReg)}

/-- No code keeps all values. -/
theorem refl (h : st.WellFormed ctx) : Relocates ctx protRegs st [] st :=
  ⟨h, rfl, fun _ hm => hm, fun _ _ => rfl, fun _ _ _ _ => rfl, fun _ _ => rfl,
    fun _ _ => rfl⟩

/-- Pieces of code that keep the recorded values compose. -/
theorem trans (h : Relocates ctx protRegs st code st')
    (h' : Relocates ctx protRegs st' code' st'') :
    Relocates ctx protRegs st (code ++ code') st'' where
  wellFormed := h'.wellFormed
  length_eq := h'.length_eq.trans h.length_eq
  stackPointer_eq m hm := by
    rw [Machine.execAll_append]
    exact h'.stackPointer_eq _ (h.stackPointer_eq m hm)
  values_eq m hm := by
    rw [Machine.execAll_append, h'.values_eq _ (h.stackPointer_eq m hm), h.values_eq m hm]
  kept m hm c hc := by
    rw [Machine.execAll_append, h'.kept _ (h.stackPointer_eq m hm) c hc, h.kept m hm c hc]
  linMemWasmSize_eq m hm := by
    rw [Machine.execAll_append, h'.linMemWasmSize_eq _ (h.stackPointer_eq m hm),
      h.linMemWasmSize_eq m hm]
  flags_eq m hm := by
    rw [Machine.execAll_append, h'.flags_eq _ (h.stackPointer_eq m hm), h.flags_eq m hm]

/-- The element at an index keeps its value. -/
theorem value_eq (h : Relocates ctx protRegs st code st') {m : Machine TReg}
    (hm : m.stackPointer = st.stackFrameSize) {i : ℕ} {e e' : LocatedElement TReg}
    (he : st.stack[i]? = some e) (he' : st'.stack[i]? = some e') :
    (ctx.getStorage e').value (m.execAll code).cells = (ctx.getStorage e).value m.cells := by
  have hi := congrArg (·[i]?) (h.values_eq m hm)
  simpa [FrameContext.values, he, he'] using hi

end Relocates

end WasmCompiler
