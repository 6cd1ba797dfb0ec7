import WasmCompiler.TriCoreAccessCode
import WasmCompiler.LinkedMemory

/-!
# Loads from the Linked Memory on TriCore

The typed loads from the linked memory compare the offset with the length, compute the address and
load the bytes, for an odd address behind a jump to other code. For four and eight bytes that code
needs another register, or another pair, and requests it behind the jump: what the register
allocator emits to provide it is executed for odd addresses only, while its record of the frame is
that it was executed.

## Main results

* `runAccess_pointerCode`: the checks trap exactly for bytes beyond the linked memory.
* `loads_even`, `loads_odd`: the value of the bytes is loaded at even and at odd addresses.
* `linkedLoad_exact_iff`: when the recorded places hold the values behind the load.
-/

namespace WasmCompiler

/-- `machineType` of a typed load. -/
def LinkedMemoryLoad.machineType : LinkedMemoryLoad → MachineType
  | GETU8 | GETI8 | GETU16 | GETI16 | GETU32 | GETI32 => .i32
  | GETU64 | GETI64 => .i64
  | GETF32 => .f32
  | GETF64 => .f64

/-- `signExtends` of a typed load. -/
def LinkedMemoryLoad.signExtend : LinkedMemoryLoad → Bool
  | GETI8 | GETI16 => true
  | _ => false

namespace TriCore

open ByteMemory Machine

/-! ### The code -/

/-- Distances of data in the job memory from the linear memory, `BD::FromEnd`. -/
structure FromEnd where
  linkedMemLen : BitVec 16
  linkedMemPtr : BitVec 16
  stackFence : BitVec 16
  deriving DecidableEq, Repr

/-- A load, with the registers that the allocator provides and what it does to provide them: for
the offset, for the length, for the result, and for the code for odd addresses. -/
structure LinkedLoad where
  builtin : LinkedMemoryLoad
  offset : VariableStorage REG
  lifts : List AllocStep
  offsetReg : REG
  bufLenSpills : List AllocStep
  bufLenReg : REG
  targetSpills : List AllocStep
  targetReg : REG
  extraSpills : List AllocStep
  extraReg : REG
  deriving DecidableEq, Repr

/-- Code for even and for odd addresses in `memLdStReg`, with a jump to the latter. -/
def ifUnaligned (reg : REG) (aligned unaligned : List AccessInstr) : List AccessInstr :=
  .op (.bulk (.MOVD_Da_Ab reg memLdStReg)) ::
    .jump (.JNZT_Da_n_disp15sx2 reg 0) (aligned.length + 1) ::
      (aligned ++ .jump .J_disp24sx2 unaligned.length :: unaligned)

namespace LinkedLoad

/-- What the allocator does before the jump. -/
def before (l : LinkedLoad) : List AllocStep := l.lifts ++ (l.bufLenSpills ++ l.targetSpills)

/-- What the allocator does behind the jump. -/
def behind (l : LinkedLoad) : List AllocStep :=
  if l.builtin.dataSize ≤ 2 then [] else l.extraSpills

/-- The checks and the address. -/
def pointerCode (b : FromEnd) (l : LinkedLoad) : List AccessInstr :=
  [.op (.transfer .loadWord l.bufLenReg linMem (0 - b.linkedMemLen)),
    .cTRAP .linkedMemoryOutOfBounds (.i32LtConst4sx l.offsetReg 0),
    .op (.bulk (.plain (.ADDI_Dc_Da_const16sx l.bufLenReg l.bufLenReg
      (BitVec.ofInt 16 (-l.builtin.dataSize))))),
    .cTRAP .linkedMemoryOutOfBounds (.i32LtReg l.bufLenReg l.offsetReg),
    .op (.bulk (.plain (.LDA_Aa_deref_Ab_off16sx (addrScrReg 1) linMem (0 - b.linkedMemPtr)))),
    .op (.ADDSCA_Ac_Ab_Da_nSc memLdStReg (addrScrReg 1) l.offsetReg 0)]

/-- The access to the bytes, with the code that the allocator emits behind the jump. -/
def accessCode (l : LinkedLoad) (extra : List AccessInstr) : List AccessInstr :=
  if l.builtin.dataSize = 1 then
    if l.builtin.signExtend then [.op (.LDB_Da_deref_Ab_off16sx l.targetReg memLdStReg 0)]
    else [.op (.transfer .loadByteUnsigned l.targetReg memLdStReg 0)]
  else if l.builtin.dataSize = 2 then
    ifUnaligned l.targetReg
      (if l.builtin.signExtend then [.op (.transfer .loadHalfword l.targetReg memLdStReg 0)]
        else [.op (.LDHU_Da_deref_Ab_off16sx l.targetReg memLdStReg 0)])
      -- overflow by 1
      [.op (.transfer .loadWord l.targetReg memLdStReg (-1)),
        .op (if l.builtin.signExtend then .EXTR_Dc_Da_pos_width l.targetReg l.targetReg 8 16
          else .EXTRU_Dc_Da_pos_width l.targetReg l.targetReg 8 16)]
  else if l.builtin.dataSize = 4 then
    ifUnaligned l.targetReg
      [.op (.transfer .loadWord l.targetReg memLdStReg 0)]
      (extra ++
        [.op (.transfer .loadWord l.targetReg memLdStReg (-1)),
          .op (.transfer .loadByteUnsigned l.extraReg memLdStReg 3),
          .op (.DEXTR_Dc_Da_Db_pos l.targetReg l.extraReg l.targetReg 24)])
  else
    ifUnaligned l.targetReg
      [.op (.transfer .loadDword l.targetReg memLdStReg 0)]
      (extra ++
        [.op (.transfer .loadDword l.extraReg memLdStReg (-1)),
          .op (.DEXTR_Dc_Da_Db_pos l.targetReg l.extraReg.getOtherExtReg l.extraReg 24),
          .op (.transfer .loadDword l.extraReg memLdStReg 1),
          .op (.DEXTR_Dc_Da_Db_pos l.targetReg.getOtherExtReg l.extraReg.getOtherExtReg
            l.extraReg 8)])

/-- `execBuiltinFncCall` for a typed load. -/
def emit (b : FromEnd) (s : FrameState) (l : LinkedLoad) :
    Option (List AccessInstr × FrameState) := do
  let (lifts, s1) ← emitSteps b.stackFence s l.lifts
  let (bufLen, s2) ← emitSteps b.stackFence s1 l.bufLenSpills
  let (target, s3) ← emitSteps b.stackFence s2 l.targetSpills
  let (extra, s4) ← emitSteps b.stackFence s3 l.behind
  return (lifts.map .window ++ (bufLen.map .window ++ (l.pointerCode b ++
    (target.map .window ++ l.accessCode (extra.map .window)))), s4)

/-- The storage of the result. -/
def target (l : LinkedLoad) : VariableStorage REG :=
  ⟨l.builtin.machineType, .register l.targetReg⟩

/-- The storage of the other register. -/
def extra (l : LinkedLoad) : VariableStorage REG :=
  ⟨if l.builtin.dataSize = 8 then .i64 else .i32, .register l.extraReg⟩

end LinkedLoad

/-! ### What is loaded -/

/-- The length of the linked memory. -/
def linkedLength (b : FromEnd) (m : Machine) : BitVec 32 :=
  m.load (m.regs linMem + (0 - b.linkedMemLen).signExtend 32)

/-- The address of the linked memory. -/
def linkedPointer (b : FromEnd) (m : Machine) : BitVec 32 :=
  m.load (m.regs linMem + (0 - b.linkedMemPtr).signExtend 32)

/-- **The value of the bytes at an address**, the lowest byte first. -/
def loadedValue (builtin : LinkedMemoryLoad) (m : ByteMemory) (a : BitVec 32) : Word :=
  match builtin with
  | .GETU8 => (m a).setWidth 64
  | .GETI8 => ((m a).signExtend 32).setWidth 64
  | .GETU16 => (readHalfword m a).setWidth 64
  | .GETI16 => ((readHalfword m a).signExtend 32).setWidth 64
  | .GETU32 | .GETI32 | .GETF32 => (ByteMemory.readWord m a).setWidth 64
  | .GETU64 | .GETI64 | .GETF64 => ByteMemory.readWord m (a + 4) ++ ByteMemory.readWord m a

namespace LinkedLoad

variable (l : LinkedLoad) (b : FromEnd) (jobMemory frameTop : BitVec 32)

/-- The offset. -/
def offsetValue (m : Machine) : BitVec 32 := operandValue jobMemory frameTop m l.offset

/-- The address of the bytes. -/
def address (m : Machine) : BitVec 32 := linkedPointer b m + l.offsetValue jobMemory frameTop m

/-- The bytes are in the linked memory. -/
def InBounds (m : Machine) : Prop :=
  (l.offsetValue jobMemory frameTop m).toNat + l.builtin.dataSize ≤ (linkedLength b m).toNat

/-- What the allocator provides, while the values in the storages `live` are needed: the offset is
lifted to its register, no register that is provided holds such a value behind the spills for it,
and the slots are at none of the values, neither at the data that the load reads nor at each
other's. -/
structure Allocated (live : List (VariableStorage REG)) (m : Machine) : Prop where
  validLive : ∀ t ∈ live, ValidStorage t
  valid : ∀ step ∈ l.before ++ l.behind, step.Valid
  spills : ∀ step ∈ l.bufLenSpills ++ l.targetSpills ++ l.behind,
    ∃ source newOffset, step = .spill source newOffset
  offset : WordOperand l.offset
  lifted : (l.offset.location = .register l.offsetReg ∧ l.lifts = []) ∨
    ∃ spills, l.lifts = spills ++ [.lift l.offsetReg l.offset] ∧
      (∀ step ∈ spills, ∃ source newOffset, step = .spill source newOffset) ∧
      AvoidsAll jobMemory frameTop spills l.offset ∧ relocateAll spills l.offset = l.offset
  avoids : ∀ t ∈ live, AvoidsAll jobMemory frameTop (l.before ++ l.behind) t
  bufLenReg : l.bufLenReg.isDATA = true ∧ l.bufLenReg ≠ l.offsetReg
  bufLenFree : ∀ t ∈ live, ¬ StorageReg (relocateAll (l.lifts ++ l.bufLenSpills) t) l.bufLenReg
  target : ValidStorage l.target
  targetFree : ∀ t ∈ live, ∀ r, StorageReg l.target r → ¬ StorageReg (relocateAll l.before t) r
  extra : ValidStorage l.extra
  extraFree : ∀ r, StorageReg l.extra r → ¬ StorageReg l.target r ∧
    ∀ t ∈ live, ¬ StorageReg (relocateAll (l.before ++ l.behind) t) r
  bytes : ∀ x, SlotByte jobMemory frameTop (l.before ++ l.behind) x →
    ¬ InBlock (l.address b jobMemory frameTop m) l.builtin.dataSize x
  length : ∀ x, SlotByte jobMemory frameTop l.before x →
    ¬ InBlock (m.regs linMem + (0 - b.linkedMemLen).signExtend 32) 4 x ∧
      ¬ InBlock (m.regs linMem + (0 - b.linkedMemPtr).signExtend 32) 4 x
  lengthAligned : (m.regs linMem + (0 - b.linkedMemLen).signExtend 32).getLsbD 0 = false
  slots : ∀ x, SlotByte jobMemory frameTop l.behind x → ¬ SlotByte jobMemory frameTop l.before x

/-- **A load is exact**: it traps exactly for bytes beyond the linked memory, and otherwise the
result is their value, the values that are needed are where they are recorded, and the stack
pointer is where the recorded size of the frame says. -/
def Exact (s' : FrameState) (live : List (VariableStorage REG)) (m : Machine) :
    Except BulkEnd Machine → Prop
  | .error e => e = .trap .linkedMemoryOutOfBounds ∧ ¬ l.InBounds b jobMemory frameTop m
  | .ok m' => l.InBounds b jobMemory frameTop m ∧
      storageValue jobMemory frameTop m' l.target =
        loadedValue l.builtin m.mem (l.address b jobMemory frameTop m) ∧
      (∀ t ∈ live, storageValue jobMemory frameTop m' (relocateAll (l.before ++ l.behind) t) =
        storageValue jobMemory frameTop m t) ∧
      m'.Frame s'.ctx jobMemory frameTop

/-- Providing the other register changes nothing that matters: the frame keeps its size, and the
slots that are recorded hold the values already. -/
def Idle (s : FrameState) (live : List (VariableStorage REG)) (m : Machine) : Prop :=
  (stateAfter s (l.before ++ l.behind)).ctx.stackFrameSize =
      (stateAfter s l.before).ctx.stackFrameSize ∧
    ∀ t ∈ live, relocateAll (l.before ++ l.behind) t ≠ relocateAll l.before t →
      storageValue jobMemory frameTop m (relocateAll (l.before ++ l.behind) t) =
        storageValue jobMemory frameTop m t

end LinkedLoad

/-! ### The checks -/

namespace LinkedLoad

variable {l : LinkedLoad} {b : FromEnd} {jobMemory frameTop : BitVec 32} {s s1 s2 s3 s4 : FrameState}
  {live : List (VariableStorage REG)} {m m1 m2 m3 m4 m' : Machine} {helpers : Helpers}

/-- The register of the offset is a data register. -/
theorem Allocated.isDATA_offsetReg (h : l.Allocated b jobMemory frameTop live m) :
    l.offsetReg.isDATA = true := by
  rcases h.lifted with ⟨hreg, -⟩ | ⟨spills, hlifts, -⟩
  · exact h.offset.1.isDATA (by rw [StorageReg, hreg]; exact .inl rfl)
  · have hstep : (AllocStep.lift l.offsetReg l.offset).Valid := h.valid _ (by
      rw [before, hlifts]
      simp)
    exact hstep.2.isDATA (.inl rfl)

/-- **The offset is lifted** to its register. -/
theorem Allocated.runWindow_lifts (h : l.Allocated b jobMemory frameTop live m)
    {stackFence : BitVec 16} {code : List WindowInstr}
    (hcode : emitSteps stackFence s l.lifts = some (code, s1))
    (hm : m.Frame s.ctx jobMemory frameTop) :
    runWindow code m = .error (.trap .stackFenceBreached) ∨
      ∃ m1, runWindow code m = .ok m1 ∧ StepsDone jobMemory frameTop s1 l.lifts m m1 ∧
        m1.regs l.offsetReg = l.offsetValue jobMemory frameTop m := by
  have hvalid : ∀ step ∈ l.lifts, step.Valid := fun step hstep =>
    h.valid step (by simp [before, hstep])
  rcases runWindow_emitSteps hvalid hcode hm with htrap | ⟨m1, hrun, hdone⟩
  · exact .inl htrap
  refine .inr ⟨m1, hrun, hdone, ?_⟩
  rcases h.lifted with ⟨hreg, hlifts⟩ | ⟨spills, hlifts, hspills, havoids, hsame⟩
  · have hvalue := hdone.values l.offset h.offset.1 (by rw [hlifts]; trivial)
    rw [hlifts] at hvalue
    rw [offsetValue, operandValue, ← hvalue]
    change _ = (storageValue jobMemory frameTop m1 l.offset).setWidth 32
    rw [storageValue, hreg, h.offset.2]
    exact (setWidth_regValue m1 l.offsetReg).symm
  · rw [hlifts] at hcode
    have hvalue := runWindow_spills_lift (by rwa [← hlifts]) hcode hm h.offset.1 havoids hsame hrun
    rw [offsetValue, operandValue, ← hvalue, storageValue, h.offset.2]
    exact (setWidth_regValue m1 l.offsetReg).symm

/-- The comparisons of the checks hold exactly for bytes beyond a length below 2^31. -/
theorem inBounds_iff_compare {length offset : BitVec 32} (hlength : length.toNat < 2 ^ 31)
    (builtin : LinkedMemoryLoad) :
    offset.toNat + builtin.dataSize ≤ length.toNat ↔
      ¬ offset.toInt < 0 ∧
        ¬ (length + (BitVec.ofInt 16 (-builtin.dataSize)).signExtend 32).toInt < offset.toInt := by
  have hoffset := offset.isLt
  have hrest : (length + (BitVec.ofInt 16 (-builtin.dataSize)).signExtend 32).toInt =
      length.toNat - builtin.dataSize := by
    have hconst : ((BitVec.ofInt 16 (-builtin.dataSize)).signExtend 32).toInt =
        -(builtin.dataSize : ℤ) := by
      cases builtin <;> decide
    have hsize := builtin.dataSize_bounds
    rw [BitVec.toInt_add, hconst, BitVec.toInt_eq_toNat_of_lt (by omega)]
    refine Int.bmod_eq_of_le ?_ ?_ <;> omega
  rw [hrest, BitVec.toInt_eq_toNat_cond]
  split <;> omega

/-- **The checks trap exactly for bytes beyond the linked memory**, and otherwise the address is in
`memLdStReg`. -/
theorem runAccess_pointerCode (hlength : (linkedLength b m).toNat < 2 ^ 31)
    (hregs : l.bufLenReg.isDATA = true ∧ l.bufLenReg ≠ l.offsetReg)
    (hoffsetReg : l.offsetReg.isDATA = true)
    (haligned : (m.regs linMem + (0 - b.linkedMemLen).signExtend 32).getLsbD 0 = false)
    (code : List AccessInstr) :
    (¬ (m.regs l.offsetReg).toNat + l.builtin.dataSize ≤ (linkedLength b m).toNat ∧
      runAccess helpers (l.pointerCode b ++ code) m = .error (.trap .linkedMemoryOutOfBounds)) ∨
    ((m.regs l.offsetReg).toNat + l.builtin.dataSize ≤ (linkedLength b m).toNat ∧
      ∃ m', runAccess helpers (l.pointerCode b ++ code) m = runAccess helpers code m' ∧
        m'.regs memLdStReg = linkedPointer b m + m.regs l.offsetReg ∧
        m.Changes (fun r => r = l.bufLenReg ∨ r = addrScrReg 1 ∨ r = memLdStReg) NoBytes m') := by
  rw [inBounds_iff_compare hlength]
  have haddress : ∀ r : REG, r.isDATA = false → r ≠ l.bufLenReg := fun r hr =>
    ne_of_isDATA hr hregs.1
  let ma := (AccessOp.transfer .loadWord l.bufLenReg linMem (0 - b.linkedMemLen)).exec m
  let mb := (AccessOp.bulk (.plain (.ADDI_Dc_Da_const16sx l.bufLenReg l.bufLenReg
    (BitVec.ofInt 16 (-l.builtin.dataSize))))).exec ma
  let mc := (AccessOp.bulk (.plain (.LDA_Aa_deref_Ab_off16sx (addrScrReg 1) linMem
    (0 - b.linkedMemPtr)))).exec mb
  let md := (AccessOp.ADDSCA_Ac_Ab_Da_nSc memLdStReg (addrScrReg 1) l.offsetReg 0).exec mc
  have ha : m.Changes (· = l.bufLenReg) NoBytes ma := setReg_changes m _ _
  have hb : m.Changes (· = l.bufLenReg) NoBytes mb :=
    ha.trans ⟨fun r hr => Function.update_of_ne hr _ _, fun _ _ => rfl⟩
  have hlen : ma.regs l.bufLenReg = linkedLength b m := Function.update_self _ _ _
  have hrest : mb.regs l.bufLenReg =
      linkedLength b m + (BitVec.ofInt 16 (-l.builtin.dataSize)).signExtend 32 := by
    rw [← hlen]
    exact Function.update_self _ _ _
  have hoffa : ma.regs l.offsetReg = m.regs l.offsetReg := ha.regs _ hregs.2.symm
  have hoffb : mb.regs l.offsetReg = m.regs l.offsetReg := hb.regs _ hregs.2.symm
  have hfirst : (AccessOp.transfer .loadWord l.bufLenReg linMem (0 - b.linkedMemLen)).isAligned m =
      true := AccessOp.isAligned_transfer haligned _ _
  by_cases hneg : (m.regs l.offsetReg).toInt < 0
  · refine .inl ⟨fun h => h.1 hneg, ?_⟩
    rw [pointerCode, List.cons_append, runAccess_op hfirst]
    refine runAccess_cTRAP ?_ _ _
    rw [JumpCondition.holds, hoffa]
    exact decide_eq_true hneg
  have hpass : ∀ rest, runAccess helpers (.op (.transfer .loadWord l.bufLenReg linMem
      (0 - b.linkedMemLen)) :: .cTRAP .linkedMemoryOutOfBounds (.i32LtConst4sx l.offsetReg 0) ::
      .op (.bulk (.plain (.ADDI_Dc_Da_const16sx l.bufLenReg l.bufLenReg
        (BitVec.ofInt 16 (-l.builtin.dataSize))))) :: rest) m = runAccess helpers rest mb := by
    intro rest
    rw [runAccess_op hfirst, runAccess_cTRAP_of_not, runAccess_op rfl]
    rw [JumpCondition.holds, hoffa]
    exact decide_eq_false hneg
  by_cases hout : (mb.regs l.bufLenReg).toInt < (m.regs l.offsetReg).toInt
  · rw [hrest] at hout
    refine .inl ⟨fun h => h.2 hout, ?_⟩
    refine (hpass _).trans (runAccess_cTRAP ?_ _ _)
    rw [JumpCondition.holds, hoffb, hrest]
    exact decide_eq_true hout
  · refine .inr ⟨⟨hneg, by rwa [hrest] at hout⟩, md, ?_, ?_, ?_⟩
    · refine (hpass _).trans ((runAccess_cTRAP_of_not ?_ _ _).trans
        ((runAccess_op rfl _).trans (runAccess_op rfl _)))
      rw [JumpCondition.holds, hoffb]
      exact decide_eq_false hout
    · have hpointer : mc.regs (addrScrReg 1) = linkedPointer b m := by
        have hlinMem : mb.regs linMem = m.regs linMem := hb.regs _ (haddress _ rfl)
        have hload : mc.regs (addrScrReg 1) =
            mb.load (mb.regs linMem + (0 - b.linkedMemPtr).signExtend 32) := by
          change Function.update mb.regs (addrScrReg 1) _ (addrScrReg 1) = _
          exact Function.update_self _ _ _
        rw [hload, hlinMem, hb.load]
        rfl
      have hoffc : mc.regs l.offsetReg = m.regs l.offsetReg := by
        change Function.update mb.regs (addrScrReg 1) _ l.offsetReg = _
        rw [Function.update_of_ne (ne_of_isDATA rfl hoffsetReg).symm, hoffb]
      have hsum : md.regs memLdStReg = mc.regs (addrScrReg 1) + mc.regs l.offsetReg <<< 0 := by
        change Function.update mc.regs memLdStReg _ memLdStReg = _
        exact Function.update_self _ _ _
      rw [hsum, BitVec.shiftLeft_zero, hpointer, hoffc]
    · refine (hb.mono (fun _ => .inl) fun _ => id).trans ⟨fun r hr => ?_, fun _ _ => rfl⟩
      rw [not_or, not_or] at hr
      change Function.update (Function.update mb.regs (addrScrReg 1) _) memLdStReg _ r = _
      rw [Function.update_of_ne hr.2.2, Function.update_of_ne hr.2.1]

end LinkedLoad

/-! ### The access -/

section Access

variable {helpers : Helpers} {m m1 : Machine} {reg : REG} {aligned unaligned : List AccessInstr}

/-- At an even address the first code is executed. -/
theorem runAccess_ifUnaligned_even (heven : (m.regs memLdStReg).getLsbD 0 = false) {m' : Machine}
    (hrun : ∀ rest, runAccess helpers (aligned ++ rest) (m.setReg reg (m.regs memLdStReg)) =
      runAccess helpers rest m') :
    runAccess helpers (ifUnaligned reg aligned unaligned) m = .ok m' := by
  have hnot : (CondJump.JNZT_Da_n_disp15sx2 reg 0).taken (m.setReg reg (m.regs memLdStReg)) =
      false := by
    rw [CondJump.taken, setReg_regs, Function.update_self, heven]
  rw [ifUnaligned, runAccess_op rfl]
  refine (runAccess_jump_of_not hnot _ _).trans ((hrun _).trans ?_)
  have hjump : runAccess helpers (.jump .J_disp24sx2 unaligned.length :: (unaligned ++ [])) m' =
      runAccess helpers [] m' := runAccess_jump rfl unaligned []
  rwa [List.append_nil] at hjump

/-- At an odd address the other code is executed. -/
theorem runAccess_ifUnaligned_odd (hodd : (m.regs memLdStReg).getLsbD 0 = true) :
    runAccess helpers (ifUnaligned reg aligned unaligned) m =
      runAccess helpers unaligned (m.setReg reg (m.regs memLdStReg)) := by
  have htaken : (CondJump.JNZT_Da_n_disp15sx2 reg 0).taken (m.setReg reg (m.regs memLdStReg)) =
      true := by
    rw [CondJump.taken, setReg_regs, Function.update_self, hodd]
  have hcode : ifUnaligned reg aligned unaligned = .op (.bulk (.MOVD_Da_Ab reg memLdStReg)) ::
      .jump (.JNZT_Da_n_disp15sx2 reg 0)
        (aligned ++ [AccessInstr.jump .J_disp24sx2 unaligned.length]).length ::
        ((aligned ++ [.jump .J_disp24sx2 unaligned.length]) ++ unaligned) := by
    simp [ifUnaligned]
  rw [hcode, runAccess_op rfl]
  exact runAccess_jump htaken _ _

variable {jobMemory frameTop : BitVec 32} {t : VariableStorage REG}

/-- A word was written to the register of a storage. -/
theorem storageValue_setReg (ht : t.location = .register reg) (h64 : t.machineType.is64 = false)
    (hchanges : m.Changes (StorageReg t) NoBytes m1) (v : BitVec 32) :
    m.Changes (StorageReg t) NoBytes (m1.setReg reg v) ∧
      storageValue jobMemory frameTop (m1.setReg reg v) t = v.setWidth 64 := by
  refine ⟨hchanges.trans ((setReg_changes m1 reg v).mono (fun r hr => ?_) fun _ => id), ?_⟩
  · rw [StorageReg, ht]
    exact .inl hr
  · rw [storageValue, ht, h64]
    dsimp only
    rw [regValue, if_neg (by decide), setReg_regs, Function.update_self]

/-- Two words were written to the registers of a storage. -/
theorem storageValue_setPair (ht : t.location = .register reg) (h64 : t.machineType.is64 = true)
    (hchanges : m.Changes (StorageReg t) NoBytes m1) (low high : BitVec 32) :
    m.Changes (StorageReg t) NoBytes (m1.setPair reg low high) ∧
      storageValue jobMemory frameTop (m1.setPair reg low high) t = high ++ low := by
  obtain ⟨hlow, hhigh⟩ := setPair_regs m1 reg low high
  refine ⟨hchanges.trans ((setPair_changes m1 reg low high).mono (fun r hr => ?_) fun _ => id), ?_⟩
  · rw [StorageReg, ht]
    exact hr.imp_right fun h => ⟨h64, h⟩
  · rw [storageValue, ht, h64]
    dsimp only
    rw [regValue, if_pos rfl, hlow, hhigh]

end Access

namespace LinkedLoad

variable {l : LinkedLoad} {jobMemory frameTop : BitVec 32} {m m' : Machine} {helpers : Helpers}

/-- The register of the result is a data register. -/
theorem isDATA_targetReg (h : ValidStorage l.target) : l.targetReg.isDATA = true :=
  h.isDATA (.inl rfl)

/-- **At even addresses** the value of the bytes is loaded, and single bytes at any address. -/
theorem loads_even (helpers : Helpers) (jobMemory frameTop : BitVec 32)
    (htarget : ValidStorage l.target)
    (heven : l.builtin.dataSize = 1 ∨ (m.regs memLdStReg).getLsbD 0 = false) (extra : List AccessInstr) :
    ∃ m', runAccess helpers (l.accessCode extra) m = .ok m' ∧
      m.Changes (StorageReg l.target) NoBytes m' ∧
      storageValue jobMemory frameTop m' l.target =
        loadedValue l.builtin m.mem (m.regs memLdStReg) := by
  have hdata := isDATA_targetReg htarget
  let a := m.regs memLdStReg
  let m1 := m.setReg l.targetReg a
  have hchanges : m.Changes (StorageReg l.target) NoBytes m1 :=
    (setReg_changes m l.targetReg a).mono (fun _ => .inl) fun _ => id
  have haddr : m1.regs memLdStReg + (0 : BitVec 16).signExtend 32 = a := by
    rw [setReg_regs, Function.update_of_ne (ne_of_isDATA rfl hdata)]
    exact BitVec.add_zero _
  have haddr0 : m.regs memLdStReg + (0 : BitVec 16).signExtend 32 = a := BitVec.add_zero _
  have haligned : ∀ t, (m.regs memLdStReg).getLsbD 0 = false →
      (AccessOp.transfer t l.targetReg memLdStReg 0).isAligned m1 = true := fun t h =>
    AccessOp.isAligned_transfer (by rwa [haddr]) t _
  -- one instruction behind the jump
  have hone : ∀ {o : AccessOp} {unaligned : List AccessInstr}, o.isAligned m1 = true →
      (m.regs memLdStReg).getLsbD 0 = false →
      runAccess helpers (ifUnaligned l.targetReg [.op o] unaligned) m = .ok (o.exec m1) :=
    fun ho heven => runAccess_ifUnaligned_even heven fun rest => runAccess_op ho rest
  have hword : ∀ (o : AccessOp) {m0 : Machine} {v : BitVec 32} {value : Word},
      m.Changes (StorageReg l.target) NoBytes m0 → l.target.machineType.is64 = false →
      o.exec m0 = m0.setReg l.targetReg v → v.setWidth 64 = value →
      runAccess helpers (l.accessCode extra) m = .ok (o.exec m0) → ∃ m',
        runAccess helpers (l.accessCode extra) m = .ok m' ∧
        m.Changes (StorageReg l.target) NoBytes m' ∧
        storageValue jobMemory frameTop m' l.target = value := by
    intro o m0 v value h0 h64 hexec hv hrun
    obtain ⟨hdone, hvalue⟩ := storageValue_setReg rfl h64 h0 v
    exact ⟨_, hrun.trans (congrArg _ hexec), hdone, hvalue.trans hv⟩
  have hnarrow : ∀ {w : ℕ} (x : BitVec w), w ≤ 32 → (x.setWidth 32).setWidth 64 = x.setWidth 64 :=
    fun x hw => by
      rw [BitVec.setWidth_setWidth]
      omega
  have hcode : ∀ builtin, l.builtin = builtin → l.accessCode extra =
      LinkedLoad.accessCode { l with builtin := builtin } extra := by
    rintro builtin rfl
    rfl
  have htype : ∀ builtin, l.builtin = builtin → l.target.machineType = builtin.machineType := by
    rintro builtin rfl
    rfl
  have hhalf : ∀ builtin, l.builtin = builtin → builtin.dataSize ≠ 1 →
      (m.regs memLdStReg).getLsbD 0 = false := by
    rintro builtin rfl hne
    exact heven.resolve_left hne
  cases hb : l.builtin with
  | GETU8 =>
      refine hword (.transfer .loadByteUnsigned l.targetReg memLdStReg 0) (.refl _ _ m)
        (by rw [htype _ hb]; rfl) (by rw [AccessOp.exec, haddr0, Transfer.exec])
        (hnarrow (m.mem a) (by decide)) ?_
      rw [hcode _ hb]
      exact runAccess_op (o := .transfer .loadByteUnsigned l.targetReg memLdStReg 0) rfl []
  | GETI8 =>
      refine hword (.LDB_Da_deref_Ab_off16sx l.targetReg memLdStReg 0) (.refl _ _ m)
        (by rw [htype _ hb]; rfl) (by rw [AccessOp.exec, haddr0]) rfl ?_
      rw [hcode _ hb]
      exact runAccess_op (o := .LDB_Da_deref_Ab_off16sx l.targetReg memLdStReg 0) rfl []
  | GETU16 =>
      have heven := hhalf _ hb (by decide)
      refine hword (.LDHU_Da_deref_Ab_off16sx l.targetReg memLdStReg 0) hchanges
        (by rw [htype _ hb]; rfl) (by rw [AccessOp.exec, haddr]; rfl)
        (hnarrow (readHalfword m.mem a) (by decide)) ?_
      rw [hcode _ hb]
      refine hone ?_ heven
      rw [AccessOp.isAligned, AccessOp.wideAddress?, haddr, Option.all_some, heven]
      rfl
  | GETI16 =>
      have heven := hhalf _ hb (by decide)
      refine hword (.transfer .loadHalfword l.targetReg memLdStReg 0) hchanges
        (by rw [htype _ hb]; rfl) (by rw [AccessOp.exec, haddr, Transfer.exec]; rfl) rfl ?_
      rw [hcode _ hb]
      exact hone (haligned .loadHalfword heven) heven
  | GETU32 | GETI32 | GETF32 =>
      have heven := hhalf _ hb (by decide)
      refine hword (.transfer .loadWord l.targetReg memLdStReg 0) hchanges
        (by rw [htype _ hb]; rfl) (by rw [AccessOp.exec, haddr, Transfer.exec]; rfl) rfl ?_
      rw [hcode _ hb]
      exact hone (haligned .loadWord heven) heven
  | GETU64 | GETI64 | GETF64 =>
      have heven := hhalf _ hb (by decide)
      obtain ⟨hdone, hvalue⟩ := storageValue_setPair (t := l.target) rfl (by rw [htype _ hb]; rfl)
        hchanges (m1.load a) (m1.load (a + 4))
      have hexec : (AccessOp.transfer .loadDword l.targetReg memLdStReg 0).exec m1 =
          m1.setPair l.targetReg (m1.load a) (m1.load (a + 4)) := by
        rw [AccessOp.exec, haddr, Transfer.exec]
      refine ⟨_, ?_, hdone, hvalue⟩
      rw [hcode _ hb, ← hexec]
      exact hone (haligned .loadDword heven) heven

end LinkedLoad

/-- The lowest byte of a word. -/
theorem setWidth_readWord (m : ByteMemory) (a : BitVec 32) :
    (ByteMemory.readWord m a).setWidth 8 = m a := by
  rw [ByteMemory.readWord, BitVec.setWidth_append_eq_right]

/-- The lowest bit of a sum. -/
theorem getLsbD_zero_add (a b : BitVec 32) :
    (a + b).getLsbD 0 = (a.getLsbD 0 ^^ b.getLsbD 0) := by
  rw [BitVec.getLsbD_add (by decide), BitVec.carry_zero, Bool.xor_false]

namespace LinkedLoad

variable {l : LinkedLoad} {jobMemory frameTop : BitVec 32} {m m2 m' : Machine}

/-- The value at odd addresses of a 32-bit load. -/
theorem loads_odd_word (helpers : Helpers) (htarget : ValidStorage l.target)
    (hextra : ValidStorage l.extra) (hne : l.extraReg ≠ l.targetReg)
    (hodd : (m2.regs memLdStReg).getLsbD 0 = true) :
    ∃ m', runAccess helpers
        [.op (.transfer .loadWord l.targetReg memLdStReg (-1)),
          .op (.transfer .loadByteUnsigned l.extraReg memLdStReg 3),
          .op (.DEXTR_Dc_Da_Db_pos l.targetReg l.extraReg l.targetReg 24)] m2 = .ok m' ∧
      m2.Changes (fun r => StorageReg l.target r ∨ StorageReg l.extra r) NoBytes m' ∧
      m'.regs l.targetReg = ByteMemory.readWord m2.mem (m2.regs memLdStReg) := by
  have htargetData := isDATA_targetReg htarget
  have hextraData : l.extraReg.isDATA = true := hextra.isDATA (.inl rfl)
  let a := m2.regs memLdStReg
  let m3 := m2.setReg l.targetReg (m2.load (a - 1))
  let m4 := m3.setReg l.extraReg ((m2.mem (a + 3)).setWidth 32)
  let m5 := m4.setReg l.targetReg
    (extractDouble ((m2.mem (a + 3)).setWidth 32) (m2.load (a - 1)) 24)
  have hone : m2.regs memLdStReg + (-1 : BitVec 16).signExtend 32 = a - 1 := by
    rw [BitVec.sub_eq_add_neg]
    rfl
  have haddr3 : m3.regs memLdStReg + (3 : BitVec 16).signExtend 32 = a + 3 := by
    rw [setReg_regs, Function.update_of_ne (ne_of_isDATA rfl htargetData)]
    rfl
  have h3 : (AccessOp.transfer .loadWord l.targetReg memLdStReg (-1)).exec m2 = m3 := by
    rw [AccessOp.exec, hone, Transfer.exec]
  have h4 : (AccessOp.transfer .loadByteUnsigned l.extraReg memLdStReg 3).exec m3 = m4 := by
    rw [AccessOp.exec, haddr3, Transfer.exec]
    rfl
  have h5 : (AccessOp.DEXTR_Dc_Da_Db_pos l.targetReg l.extraReg l.targetReg 24).exec m4 = m5 := by
    rw [AccessOp.exec]
    simp only [m5, m4, m3, setReg_regs, Function.update_self, Function.update_of_ne hne.symm]
  have haligned : (AccessOp.transfer .loadWord l.targetReg memLdStReg (-1)).isAligned m2 = true := by
    refine AccessOp.isAligned_transfer ?_ _ _
    rw [getLsbD_zero_add, hodd]
    rfl
  refine ⟨m5, ?_, ⟨fun r hr => ?_, fun _ _ => rfl⟩, ?_⟩
  · rw [runAccess_op haligned, h3, runAccess_op rfl, h4, runAccess_op rfl, h5, runAccess_nil]
  · rw [not_or] at hr
    have hne1 : r ≠ l.targetReg := fun h => hr.1 (.inl h)
    have hne2 : r ≠ l.extraReg := fun h => hr.2 (.inl h)
    simp only [m5, m4, m3, setReg_regs, Function.update_of_ne hne1, Function.update_of_ne hne2]
  · rw [setReg_regs, Function.update_self]
    exact extractDouble_eq_readWord m2.mem a (BitVec.setWidth_setWidth_of_le _ (by decide))

/-- The value at odd addresses of a 64-bit load. -/
theorem loads_odd_pair (helpers : Helpers) (hsize : l.builtin.dataSize = 8)
    (htarget : ValidStorage l.target) (hextra : ValidStorage l.extra)
    (hfree : ∀ r, StorageReg l.extra r → ¬ StorageReg l.target r)
    (hodd : (m2.regs memLdStReg).getLsbD 0 = true) :
    ∃ m', runAccess helpers
        [.op (.transfer .loadDword l.extraReg memLdStReg (-1)),
          .op (.DEXTR_Dc_Da_Db_pos l.targetReg l.extraReg.getOtherExtReg l.extraReg 24),
          .op (.transfer .loadDword l.extraReg memLdStReg 1),
          .op (.DEXTR_Dc_Da_Db_pos l.targetReg.getOtherExtReg l.extraReg.getOtherExtReg
            l.extraReg 8)] m2 = .ok m' ∧
      m2.Changes (fun r => StorageReg l.target r ∨ StorageReg l.extra r) NoBytes m' ∧
      m'.regs l.targetReg = ByteMemory.readWord m2.mem (m2.regs memLdStReg) ∧
      m'.regs l.targetReg.getOtherExtReg =
        ByteMemory.readWord m2.mem (m2.regs memLdStReg + 4) := by
  have htargetData := isDATA_targetReg htarget
  have hextraData : l.extraReg.isDATA = true := hextra.isDATA (.inl rfl)
  have hextra64 : l.extra.machineType.is64 = true := by
    rw [extra, hsize]
    rfl
  have htarget64 : l.target.machineType.is64 = true := by
    rw [target]
    cases hb : l.builtin <;> rw [hb] at hsize <;> first | rfl | cases hsize
  have hx1 : StorageReg l.extra l.extraReg := .inl rfl
  have hx2 : StorageReg l.extra l.extraReg.getOtherExtReg := .inr ⟨hextra64, rfl⟩
  have ht1 : StorageReg l.target l.targetReg := .inl rfl
  have ht2 : StorageReg l.target l.targetReg.getOtherExtReg := .inr ⟨htarget64, rfl⟩
  let a := m2.regs memLdStReg
  let m3 := m2.setPair l.extraReg (m2.load (a - 1)) (m2.load (a - 1 + 4))
  let m4 := m3.setReg l.targetReg (extractDouble (m2.load (a - 1 + 4)) (m2.load (a - 1)) 24)
  let m5 := m4.setPair l.extraReg (m2.load (a + 1)) (m2.load (a + 1 + 4))
  let m6 := m5.setReg l.targetReg.getOtherExtReg
    (extractDouble (m2.load (a + 1 + 4)) (m2.load (a + 1)) 8)
  have hother := REG.getOtherExtReg_ne l.extraReg
  have hne11 : l.extraReg ≠ l.targetReg := fun h => hfree _ hx1 (h ▸ ht1)
  have hne21 : l.extraReg.getOtherExtReg ≠ l.targetReg := fun h => hfree _ hx2 (h ▸ ht1)
  have hkeep : ∀ (n : Machine) (low high : BitVec 32) {r : REG}, r.isDATA = false →
      (n.setPair l.extraReg low high).regs r = n.regs r := by
    intro n low high r hr
    refine (setPair_changes n l.extraReg low high).regs r ?_
    rintro (rfl | rfl)
    · rw [hextraData] at hr
      cases hr
    · rw [REG.isDATA_getOtherExtReg, hextraData] at hr
      cases hr
  have hone : m2.regs memLdStReg + (-1 : BitVec 16).signExtend 32 = a - 1 := by
    rw [BitVec.sub_eq_add_neg]
    rfl
  have h4A15 : m4.regs memLdStReg = a := by
    rw [setReg_regs, Function.update_of_ne (ne_of_isDATA rfl htargetData)]
    exact hkeep m2 _ _ rfl
  have hplus : m4.regs memLdStReg + (1 : BitVec 16).signExtend 32 = a + 1 := by
    rw [h4A15]
    rfl
  have h3 : (AccessOp.transfer .loadDword l.extraReg memLdStReg (-1)).exec m2 = m3 := by
    rw [AccessOp.exec, hone, Transfer.exec]
  have h4 : (AccessOp.DEXTR_Dc_Da_Db_pos l.targetReg l.extraReg.getOtherExtReg l.extraReg
      24).exec m3 = m4 := by
    obtain ⟨hlow, hhigh⟩ := setPair_regs m2 l.extraReg (m2.load (a - 1)) (m2.load (a - 1 + 4))
    rw [AccessOp.exec, hlow, hhigh]
  have h5 : (AccessOp.transfer .loadDword l.extraReg memLdStReg 1).exec m4 = m5 := by
    rw [AccessOp.exec, hplus, Transfer.exec]
    rfl
  have h6 : (AccessOp.DEXTR_Dc_Da_Db_pos l.targetReg.getOtherExtReg l.extraReg.getOtherExtReg
      l.extraReg 8).exec m5 = m6 := by
    obtain ⟨hlow, hhigh⟩ := setPair_regs m4 l.extraReg (m2.load (a + 1)) (m2.load (a + 1 + 4))
    rw [AccessOp.exec, hlow, hhigh]
  have haligned3 : (AccessOp.transfer .loadDword l.extraReg memLdStReg (-1)).isAligned m2 =
      true := by
    refine AccessOp.isAligned_transfer ?_ _ _
    rw [getLsbD_zero_add, hodd]
    rfl
  have haligned5 : (AccessOp.transfer .loadDword l.extraReg memLdStReg 1).isAligned m4 = true := by
    refine AccessOp.isAligned_transfer ?_ _ _
    rw [getLsbD_zero_add, h4A15, hodd]
    rfl
  refine ⟨m6, ?_, ?_, ?_, ?_⟩
  · rw [runAccess_op haligned3, h3, runAccess_op rfl, h4, runAccess_op haligned5, h5,
      runAccess_op rfl, h6, runAccess_nil]
  · have hpair : ∀ (n : Machine) (low high : BitVec 32), n.Changes
        (fun r => StorageReg l.target r ∨ StorageReg l.extra r) NoBytes
        (n.setPair l.extraReg low high) := fun n low high =>
      (setPair_changes n l.extraReg low high).mono
        (fun r hr => .inr (hr.imp_right fun h => ⟨hextra64, h⟩)) fun _ => id
    exact (((hpair m2 _ _).trans ((setReg_changes m3 l.targetReg _).mono
      (fun r hr => .inl (hr ▸ ht1)) fun _ => id)).trans (hpair m4 _ _)).trans
      ((setReg_changes m5 _ _).mono (fun r hr => .inl (hr ▸ ht2)) fun _ => id)
  · have hkept : m5.regs l.targetReg = m4.regs l.targetReg := by
      refine (setPair_changes m4 l.extraReg _ _).regs _ ?_
      rintro (h | h)
      · exact hne11 h.symm
      · exact hne21 h.symm
    rw [setReg_regs, Function.update_of_ne (REG.getOtherExtReg_ne _).symm, hkept, setReg_regs,
      Function.update_self]
    refine extractDouble_eq_readWord m2.mem a ?_
    have hnext : a - 1 + 4 = a + 3 := by grind
    rw [hnext]
    exact setWidth_readWord m2.mem (a + 3)
  · rw [setReg_regs, Function.update_self]
    have hnext : a + 1 + 4 = a + 5 := by grind
    rw [hnext]
    exact extractDouble_eq_readWord_add_four m2.mem a

end LinkedLoad

/-- The value of one register. -/
theorem storageValue_register {jobMemory frameTop : BitVec 32} {m : Machine}
    {t : VariableStorage REG} {reg : REG} (ht : t.location = .register reg)
    (h64 : t.machineType.is64 = false) :
    storageValue jobMemory frameTop m t = (m.regs reg).setWidth 64 := by
  rw [storageValue, ht, h64]
  dsimp only
  rw [regValue, if_neg (by decide)]

/-- The value of a pair of registers. -/
theorem storageValue_pair {jobMemory frameTop : BitVec 32} {m : Machine} {t : VariableStorage REG}
    {reg : REG} (ht : t.location = .register reg) (h64 : t.machineType.is64 = true) :
    storageValue jobMemory frameTop m t = m.regs reg.getOtherExtReg ++ m.regs reg := by
  rw [storageValue, ht, h64]
  dsimp only
  rw [regValue, if_pos rfl]

namespace LinkedLoad

variable {l : LinkedLoad} {jobMemory frameTop : BitVec 32} {m m2 m' : Machine} {helpers : Helpers}

/-- The halfword at odd addresses. -/
theorem loads_odd_halfword (helpers : Helpers) (hodd : (m.regs memLdStReg).getLsbD 0 = true) (signExtend : Bool) :
    ∃ m', runAccess helpers
        [.op (.transfer .loadWord l.targetReg memLdStReg (-1)),
          .op (if signExtend then .EXTR_Dc_Da_pos_width l.targetReg l.targetReg 8 16
            else .EXTRU_Dc_Da_pos_width l.targetReg l.targetReg 8 16)] m = .ok m' ∧
      m.Changes (StorageReg l.target) NoBytes m' ∧
      m'.regs l.targetReg =
        if signExtend then (readHalfword m.mem (m.regs memLdStReg)).signExtend 32
        else (readHalfword m.mem (m.regs memLdStReg)).setWidth 32 := by
  let a := m.regs memLdStReg
  let m1 := m.setReg l.targetReg (m.load (a - 1))
  let half := if signExtend then (readHalfword m.mem a).signExtend 32
    else (readHalfword m.mem a).setWidth 32
  have hone : m.regs memLdStReg + (-1 : BitVec 16).signExtend 32 = a - 1 := by
    rw [BitVec.sub_eq_add_neg]
    rfl
  have h1 : (AccessOp.transfer .loadWord l.targetReg memLdStReg (-1)).exec m = m1 := by
    rw [AccessOp.exec, hone, Transfer.exec]
  have hhalf : (m1.regs l.targetReg).extractLsb' 8 16 = readHalfword m.mem a := by
    rw [setReg_regs, Function.update_self]
    exact extractLsb'_readWord m.mem a
  have h2 : (if signExtend then AccessOp.EXTR_Dc_Da_pos_width l.targetReg l.targetReg 8 16
      else .EXTRU_Dc_Da_pos_width l.targetReg l.targetReg 8 16).exec m1 =
      m1.setReg l.targetReg half := by
    cases signExtend with
    | true => exact congrArg (fun x : BitVec 16 => m1.setReg l.targetReg (x.signExtend 32)) hhalf
    | false => exact congrArg (fun x : BitVec 16 => m1.setReg l.targetReg (x.setWidth 32)) hhalf
  have haligned : (AccessOp.transfer .loadWord l.targetReg memLdStReg (-1)).isAligned m = true := by
    refine AccessOp.isAligned_transfer ?_ _ _
    rw [getLsbD_zero_add, hodd]
    rfl
  have haligned2 : (if signExtend then AccessOp.EXTR_Dc_Da_pos_width l.targetReg l.targetReg 8 16
      else .EXTRU_Dc_Da_pos_width l.targetReg l.targetReg 8 16).isAligned m1 = true := by
    cases signExtend <;> rfl
  have hset : ∀ (n : Machine) (v : BitVec 32),
      n.Changes (StorageReg l.target) NoBytes (n.setReg l.targetReg v) := fun n v =>
    (setReg_changes n l.targetReg v).mono (fun _ => .inl) fun _ => id
  refine ⟨m1.setReg l.targetReg half, ?_, (hset m _).trans (hset m1 _), ?_⟩
  · rw [runAccess_op haligned, h1, runAccess_op haligned2, h2, runAccess_nil]
  · rw [setReg_regs, Function.update_self]

/-- **At odd addresses** the value of the bytes is loaded behind the code of the allocator. -/
theorem loads_odd (helpers : Helpers) (jobMemory frameTop : BitVec 32)
    (htarget : ValidStorage l.target) (hextra : ValidStorage l.extra)
    (hfree : ∀ r, StorageReg l.extra r → ¬ StorageReg l.target r)
    (hsize : l.builtin.dataSize ≠ 1) (hodd : (m.regs memLdStReg).getLsbD 0 = true)
    {window : List WindowInstr} (hnone : l.builtin.dataSize ≤ 2 → window = [])
    (hrun : runWindow window (m.setReg l.targetReg (m.regs memLdStReg)) = .ok m2)
    (hpointer : m2.regs memLdStReg = m.regs memLdStReg) :
    ∃ m', runAccess helpers (l.accessCode (window.map .window)) m = .ok m' ∧
      m2.Changes (fun r => StorageReg l.target r ∨ StorageReg l.extra r) NoBytes m' ∧
      storageValue jobMemory frameTop m' l.target =
        loadedValue l.builtin m2.mem (m.regs memLdStReg) := by
  have hcode : ∀ builtin, l.builtin = builtin → l.accessCode (window.map .window) =
      LinkedLoad.accessCode { l with builtin := builtin } (window.map .window) := by
    rintro builtin rfl
    rfl
  have htype : ∀ builtin, l.builtin = builtin → l.target.machineType = builtin.machineType := by
    rintro builtin rfl
    rfl
  have hne : l.extraReg ≠ l.targetReg := fun h => hfree _ (.inl rfl) (.inl h)
  have hodd2 : (m2.regs memLdStReg).getLsbD 0 = true := by rwa [hpointer]
  have hnarrow : (((readHalfword m2.mem (m.regs memLdStReg)).setWidth 32).setWidth 64 : Word) =
      (readHalfword m2.mem (m.regs memLdStReg)).setWidth 64 :=
    by rw [BitVec.setWidth_setWidth (by decide)]
  cases hb : l.builtin with
  | GETU8 | GETI8 =>
      rw [hb] at hsize
      exact absurd rfl hsize
  | GETU16 =>
      obtain ⟨m', hrun', hchanges, hvalue⟩ :=
        loads_odd_halfword helpers (l := l) hodd2 false
      obtain rfl := hnone (by rw [hb]; decide)
      obtain rfl := Except.ok.inj hrun
      refine ⟨m', ?_, hchanges.mono (fun _ => .inl) fun _ => id, ?_⟩
      · rw [hcode _ hb]
        exact (runAccess_ifUnaligned_odd hodd).trans hrun'
      · rw [storageValue_register rfl (by rw [htype _ hb]; rfl), hvalue, hpointer]
        exact hnarrow
  | GETI16 =>
      obtain ⟨m', hrun', hchanges, hvalue⟩ :=
        loads_odd_halfword helpers (l := l) hodd2 true
      obtain rfl := hnone (by rw [hb]; decide)
      obtain rfl := Except.ok.inj hrun
      refine ⟨m', ?_, hchanges.mono (fun _ => .inl) fun _ => id, ?_⟩
      · rw [hcode _ hb]
        exact (runAccess_ifUnaligned_odd hodd).trans hrun'
      · rw [storageValue_register rfl (by rw [htype _ hb]; rfl), hvalue, hpointer]
        rfl
  | GETU32 | GETI32 | GETF32 =>
      obtain ⟨m', hrun', hchanges, hvalue⟩ :=
        loads_odd_word helpers htarget hextra hne hodd2
      refine ⟨m', ?_, hchanges, ?_⟩
      · rw [hcode _ hb]
        exact (runAccess_ifUnaligned_odd hodd).trans ((runAccess_window hrun _).trans hrun')
      · rw [storageValue_register rfl (by rw [htype _ hb]; rfl), hvalue, hpointer]
        rfl
  | GETU64 | GETI64 | GETF64 =>
      obtain ⟨m', hrun', hchanges, hlow, hhigh⟩ :=
        loads_odd_pair helpers (by rw [hb]; rfl) htarget hextra hfree hodd2
      refine ⟨m', ?_, hchanges, ?_⟩
      · rw [hcode _ hb]
        exact (runAccess_ifUnaligned_odd hodd).trans ((runAccess_window hrun _).trans hrun')
      · rw [storageValue_pair rfl (by rw [htype _ hb]; rfl)]
        rw [hlow, hhigh, hpointer]
        rfl

/-- At odd addresses the code of the allocator may end the execution. -/
theorem loads_odd_of_error (hsize : ¬ l.builtin.dataSize ≤ 2)
    (hodd : (m.regs memLdStReg).getLsbD 0 = true) {window : List WindowInstr} {e : BulkEnd}
    (hrun : runWindow window (m.setReg l.targetReg (m.regs memLdStReg)) = .error e) :
    runAccess helpers (l.accessCode (window.map .window)) m = .error e := by
  rw [accessCode, if_neg (by omega), if_neg (by omega)]
  split <;> exact (runAccess_ifUnaligned_odd hodd).trans (runAccess_window_of_error hrun _)

end LinkedLoad

/-! ### Loads -/

namespace LinkedLoad

variable {l : LinkedLoad} {b : FromEnd} {jobMemory frameTop : BitVec 32} {s s' : FrameState}
  {live : List (VariableStorage REG)} {m m' : Machine} {helpers : Helpers}

/-- The address is in `memLdStReg`, and the values are where they are recorded. -/
structure Reached (l : LinkedLoad) (b : FromEnd) (jobMemory frameTop : BitVec 32)
    (s' : FrameState) (live : List (VariableStorage REG)) (m m' : Machine) : Prop where
  pointer : m'.regs memLdStReg = l.address b jobMemory frameTop m
  frame : m'.Frame s'.ctx jobMemory frameTop
  values : ∀ t ∈ live, storageValue jobMemory frameTop m' (relocateAll l.before t) =
    storageValue jobMemory frameTop m t
  mem : ∀ x, ¬ SlotByte jobMemory frameTop l.before x → m'.mem x = m.mem x

/-- The offset and the length are there for the checks, behind the code that lifts the offset and
provides the register of the length. -/
structure Prepared (l : LinkedLoad) (b : FromEnd) (jobMemory frameTop : BitVec 32)
    (s' : FrameState) (m m' : Machine) : Prop where
  done : StepsDone jobMemory frameTop s' (l.lifts ++ l.bufLenSpills) m m'
  linMem : m'.regs linMem = m.regs linMem
  offset : m'.regs l.offsetReg = l.offsetValue jobMemory frameTop m
  length : linkedLength b m' = linkedLength b m
  pointer : linkedPointer b m' = linkedPointer b m

/-- The steps before the access, in their order. -/
theorem before_eq (l : LinkedLoad) : l.before = (l.lifts ++ l.bufLenSpills) ++ l.targetSpills :=
  (List.append_assoc _ _ _).symm

/-- The steps before the access are valid. -/
theorem Allocated.valid_before (h : l.Allocated b jobMemory frameTop live m) :
    (∀ step ∈ l.lifts ++ l.bufLenSpills, step.Valid) ∧ ∀ step ∈ l.targetSpills, step.Valid := by
  refine ⟨fun step hstep => h.valid step (List.mem_append_left _ ?_), fun step hstep =>
    h.valid step (List.mem_append_left _ ?_)⟩
  · rw [before_eq]
    exact List.mem_append_left _ hstep
  · rw [before_eq]
    exact List.mem_append_right _ hstep

/-- **The offset and the length are prepared**, or execution ends at the stack fence. -/
theorem Allocated.prepares (h : l.Allocated b jobMemory frameTop live m)
    (hm : m.Frame s.ctx jobMemory frameTop) {lifts bufLen : List WindowInstr} {s1 s2 : FrameState}
    (h1 : emitSteps b.stackFence s l.lifts = some (lifts, s1))
    (h2 : emitSteps b.stackFence s1 l.bufLenSpills = some (bufLen, s2))
    (rest : List AccessInstr) :
    runAccess helpers (lifts.map .window ++ (bufLen.map .window ++ rest)) m =
        .error (.trap .stackFenceBreached) ∨
      ∃ m', runAccess helpers (lifts.map .window ++ (bufLen.map .window ++ rest)) m =
        runAccess helpers rest m' ∧ l.Prepared b jobMemory frameTop s2 m m' := by
  have hvalid := h.valid_before.1
  have hliftsValid : ∀ step ∈ l.lifts, step.Valid := fun step hstep =>
    hvalid step (List.mem_append_left _ hstep)
  have hbufLenValid : ∀ step ∈ l.bufLenSpills, step.Valid := fun step hstep =>
    hvalid step (List.mem_append_right _ hstep)
  have hspills : ∀ step ∈ l.bufLenSpills, ∃ source newOffset, step = .spill source newOffset :=
    fun step hstep => h.spills step (by simp [hstep])
  rcases h.runWindow_lifts h1 hm with htrap | ⟨m1, hrun1, hdone1, hoffset1⟩
  · exact .inl (runAccess_window_of_error htrap _)
  rw [runAccess_window hrun1]
  rcases runWindow_emitSteps hbufLenValid h2 hdone1.frame with htrap | ⟨m2, hrun2, hdone2⟩
  · exact .inl (runAccess_window_of_error htrap _)
  rw [runAccess_window hrun2]
  have hdone := hdone1.append hliftsValid hdone2
  have hlinMem : m2.regs TriCore.linMem = m.regs TriCore.linMem :=
    hdone.regs_of_address hvalid rfl not_scratchReg_frame.2 (by decide)
  have hslot : ∀ x, SlotByte jobMemory frameTop (l.lifts ++ l.bufLenSpills) x →
      SlotByte jobMemory frameTop l.before x := by
    rintro x ⟨step, hstep, hx⟩
    refine ⟨step, ?_, hx⟩
    rw [before_eq]
    exact List.mem_append_left _ hstep
  refine .inr ⟨m2, rfl, hdone, hlinMem, ?_, ?_, ?_⟩
  · exact (hdone2.regs_of_spills hspills h.isDATA_offsetReg).trans hoffset1
  · rw [linkedLength, linkedLength, hlinMem]
    exact hdone.load_eq fun x hx => (h.length x (hslot x hx)).1
  · rw [linkedPointer, linkedPointer, hlinMem]
    exact hdone.load_eq fun x hx => (h.length x (hslot x hx)).2

/-- **The access is reached** behind the checks, or execution ends at the stack fence. -/
theorem Prepared.reaches (h : l.Allocated b jobMemory frameTop live m) {s2 s3 : FrameState}
    {m2 m3 : Machine} (h2 : l.Prepared b jobMemory frameTop s2 m m2)
    (haddr : m3.regs memLdStReg = l.address b jobMemory frameTop m)
    (hchanges : m2.Changes (fun r => r = l.bufLenReg ∨ r = addrScrReg 1 ∨ r = memLdStReg) NoBytes
      m3) {target : List WindowInstr}
    (h3 : emitSteps b.stackFence s2 l.targetSpills = some (target, s3)) (rest : List AccessInstr) :
    runAccess helpers (target.map .window ++ rest) m3 = .error (.trap .stackFenceBreached) ∨
      ∃ m', runAccess helpers (target.map .window ++ rest) m3 = runAccess helpers rest m' ∧
        l.Reached b jobMemory frameTop s3 live m m' := by
  obtain ⟨hfirstValid, htargetValid⟩ := h.valid_before
  have haddress : ∀ r : REG, r.isDATA = false → r ≠ addrScrReg 1 → r ≠ memLdStReg →
      m3.regs r = m2.regs r := fun r hr h1 h2 => by
    refine hchanges.regs r ?_
    rintro (rfl | heq | heq)
    · rw [h.bufLenReg.1] at hr
      cases hr
    · exact h1 heq
    · exact h2 heq
  have hframe : m3.Frame s2.ctx jobMemory frameTop :=
    ⟨(haddress TriCore.linMem rfl (by decide) (by decide)).trans h2.done.frame.linMem,
      (haddress .SP rfl (by decide) (by decide)).trans h2.done.frame.stackPointer⟩
  rcases runWindow_emitSteps htargetValid h3 hframe with htrap | ⟨m4, hrun4, hdone4⟩
  · exact .inl (runAccess_window_of_error htrap _)
  rw [runAccess_window hrun4]
  refine .inr ⟨m4, rfl, ?_, hdone4.frame, fun t ht => ?_, fun x hx => ?_⟩
  · exact (hdone4.regs_of_address htargetValid rfl (by rintro ⟨i, hi⟩; revert hi; revert i; decide)
      (by decide)).trans haddr
  · have havoids := (avoidsAll_append.mp (h.avoids t ht)).1
    rw [before_eq] at havoids ⊢
    obtain ⟨hfirst, hsecond⟩ := avoidsAll_append.mp havoids
    have hvalid := validStorage_relocateAll hfirstValid (h.validLive t ht)
    rw [relocateAll_append, hdone4.values _ hvalid hsecond,
      ← h2.done.values t (h.validLive t ht) hfirst]
    refine storageValue_congr hchanges (fun r hr => ?_) jobMemory frameTop
    rintro (rfl | heq | heq)
    · exact h.bufLenFree t ht hr
    · exact not_storageReg_of_address hvalid (heq ▸ rfl) hr
    · exact not_storageReg_of_address hvalid (heq ▸ rfl) hr
  · rw [before_eq] at hx
    rw [hdone4.changes.mem x (not_slotByte_right hx), hchanges.mem x id,
      h2.done.changes.mem x (not_slotByte_left hx)]

end LinkedLoad

/-! ### At an even address -/

namespace LinkedLoad

variable {l : LinkedLoad} {b : FromEnd} {jobMemory frameTop : BitVec 32} {s s' : FrameState}
  {live : List (VariableStorage REG)} {m m' : Machine} {helpers : Helpers}

/-- The value depends on the bytes only. -/
theorem loadedValue_congr {builtin : LinkedMemoryLoad} {mem mem' : ByteMemory} {a : BitVec 32}
    (h : ∀ x, InBlock a builtin.dataSize x → mem x = mem' x) :
    loadedValue builtin mem a = loadedValue builtin mem' a := by
  have hbyte : ∀ i, i < builtin.dataSize →
      mem (a + BitVec.ofNat 32 i) = mem' (a + BitVec.ofNat 32 i) := fun i hi => h _ (inBlock_add hi)
  cases builtin with
  | GETU8 | GETI8 =>
      have h0 := hbyte 0 (by decide)
      rw [BitVec.add_zero] at h0
      rw [loadedValue, loadedValue, h0]
  | GETU16 | GETI16 =>
      have h0 := hbyte 0 (by decide)
      have h1 := hbyte 1 (by decide)
      rw [BitVec.add_zero] at h0
      have hhalf : readHalfword mem a = readHalfword mem' a := by
        rw [readHalfword, readHalfword, h0]
        exact congrArg (· ++ mem' a) h1
      rw [loadedValue, loadedValue, hhalf]
  | GETU32 | GETI32 | GETF32 =>
      rw [loadedValue, loadedValue, ByteMemory.readWord_congr h]
  | GETU64 | GETI64 | GETF64 =>
      have hlow : ∀ x, InBlock a 4 x → mem x = mem' x := fun x hx =>
        h x (lt_of_lt_of_le hx (by decide))
      have hhigh : ∀ x, InBlock (a + 4) 4 x → mem x = mem' x := fun x hx =>
        h x (inBlock_of_add_four hx)
      rw [loadedValue, loadedValue, ByteMemory.readWord_congr hlow,
        ByteMemory.readWord_congr hhigh]

/-- The bytes are those at the beginning. -/
theorem Reached.loadedValue_eq (h : l.Allocated b jobMemory frameTop live m)
    (hreached : l.Reached b jobMemory frameTop s' live m m') {m2 : Machine}
    (hmem : ∀ x, ¬ SlotByte jobMemory frameTop l.behind x → m2.mem x = m'.mem x) :
    loadedValue l.builtin m2.mem (m'.regs memLdStReg) =
      loadedValue l.builtin m.mem (l.address b jobMemory frameTop m) := by
  rw [hreached.pointer]
  refine loadedValue_congr fun x hx => ?_
  have hslot : ¬ SlotByte jobMemory frameTop (l.before ++ l.behind) x := fun hs => h.bytes x hs hx
  rw [hmem x (not_slotByte_right hslot), hreached.mem x (not_slotByte_left hslot)]

/-- A value that is recorded elsewhere is recorded in a slot. -/
theorem relocateAll_cases (steps : List AllocStep) (t : VariableStorage REG) :
    relocateAll steps t = t ∨ ∃ step ∈ steps, relocateAll steps t = step.target ∧
      InMemory step.target := by
  induction steps generalizing t with
  | nil => exact .inl rfl
  | cons step steps ih =>
      have hlater : ∀ u, (∃ a ∈ steps, relocateAll steps u = a.target ∧ InMemory a.target) →
          ∃ a ∈ step :: steps, relocateAll steps u = a.target ∧ InMemory a.target := by
        rintro u ⟨a, ha, heq⟩
        exact ⟨a, List.mem_cons_of_mem _ ha, heq⟩
      rcases ih (step.relocate t) with hsame | hslot
      · cases step with
        | lift dstReg source => exact .inl hsame
        | spill source newOffset =>
            by_cases heq : t = source
            · refine .inr ⟨_, List.mem_cons_self, hsame.trans (if_pos heq), newOffset, .inr rfl⟩
            · exact .inl (hsame.trans (if_neg heq))
      · exact .inr (hlater _ hslot)

/-- A slot has no registers. -/
theorem storageReg_of_relocateAll {steps : List AllocStep} {t : VariableStorage REG} {r : REG}
    (h : StorageReg (relocateAll steps t) r) : StorageReg t r := by
  rcases relocateAll_cases steps t with hsame | ⟨step, -, heq, p, hp | hp⟩
  · rwa [hsame] at h
  · rw [heq, StorageReg, hp] at h
    exact h.elim
  · rw [heq, StorageReg, hp] at h
    exact h.elim

/-- Steps do not move the linear memory. -/
theorem basedataLength_stateAfter (s : FrameState) (steps : List AllocStep) :
    (stateAfter s steps).ctx.basedataLength = s.ctx.basedataLength := by
  induction steps generalizing s with
  | nil => rfl
  | cons step steps ih =>
      refine (ih (step.next s)).trans ?_
      cases step with
      | lift dstReg source => rfl
      | spill source newOffset =>
          rw [AllocStep.next]
          split <;> rfl

/-- Two sizes of a frame put the stack pointer at one place only if they are the same. -/
theorem frame_iff_stackFrameSize {s : FrameState} {steps steps' : List AllocStep} {m : Machine}
    (h : m.Frame (stateAfter s steps).ctx jobMemory frameTop) :
    m.Frame (stateAfter s steps').ctx jobMemory frameTop ↔
      (stateAfter s steps').ctx.stackFrameSize = (stateAfter s steps).ctx.stackFrameSize := by
  constructor
  · intro h'
    have hsub := h'.stackPointer.symm.trans h.stackPointer
    have hsizes : (stateAfter s steps').ctx.stackFrameSize.toBitVec =
        (stateAfter s steps).ctx.stackFrameSize.toBitVec := by grind
    exact UInt32.toBitVec_inj.mp hsizes
  · intro hsize
    refine ⟨h.linMem.trans ?_, h.stackPointer.trans ?_⟩
    · rw [basedataLength_stateAfter, basedataLength_stateAfter]
    · rw [hsize]

/-- **At even addresses** the load is exact if and only if the code behind the jump is idle. -/
theorem Reached.exact_even (h : l.Allocated b jobMemory frameTop live m)
    {s3 s4 : FrameState} (hreached : l.Reached b jobMemory frameTop s3 live m m')
    (hs3 : s3 = stateAfter s l.before) (hs4 : s4 = stateAfter s (l.before ++ l.behind))
    (hin : l.InBounds b jobMemory frameTop m)
    (heven : l.builtin.dataSize = 1 ∨ (m'.regs memLdStReg).getLsbD 0 = false)
    (extra : List AccessInstr) :
    l.Exact b jobMemory frameTop s4 live m (runAccess helpers (l.accessCode extra) m') ↔
      l.Idle jobMemory frameTop s live m := by
  obtain ⟨m2, hrun, hchanges, hvalue⟩ := loads_even helpers jobMemory frameTop h.target heven extra
  subst hs3 hs4
  have hregs : ∀ r, StorageReg l.target r → r.isDATA = true := fun r hr => h.target.isDATA hr
  have hframe : m2.Frame (stateAfter s l.before).ctx jobMemory frameTop :=
    hreached.frame.of_changes hchanges (fun hr => absurd (hregs _ hr) (by decide))
      fun hr => absurd (hregs _ hr) (by decide)
  have hloaded : loadedValue l.builtin m'.mem (m'.regs memLdStReg) =
      loadedValue l.builtin m.mem (l.address b jobMemory frameTop m) :=
    hreached.loadedValue_eq h fun _ _ => rfl
  have hkept : ∀ t ∈ live, storageValue jobMemory frameTop m2 (relocateAll l.before t) =
      storageValue jobMemory frameTop m t := fun t ht =>
    (storageValue_congr hchanges (fun r hr htarget => h.targetFree t ht r htarget hr) _ _).trans
      (hreached.values t ht)
  have hslots : ∀ t, relocateAll (l.before ++ l.behind) t ≠ relocateAll l.before t →
      storageValue jobMemory frameTop m2 (relocateAll (l.before ++ l.behind) t) =
        storageValue jobMemory frameTop m (relocateAll (l.before ++ l.behind) t) := by
    intro t hne
    rw [relocateAll_append] at hne ⊢
    rcases relocateAll_cases l.behind (relocateAll l.before t) with
      hsame | ⟨step, hstep, heq, hmem⟩
    · exact absurd hsame hne
    · rw [heq]
      have hm2 : m.Changes (fun _ => True) (SlotByte jobMemory frameTop l.before) m2 :=
        ⟨fun r hr => absurd trivial hr, fun x hx =>
          (hchanges.mem x id).trans (hreached.mem x hx)⟩
      have hvalid : (step.target).machineType ≠ .invalid := by
        have hstepValid := h.valid step (List.mem_append_right _ hstep)
        cases step with
        | lift dstReg source => exact hstepValid.2.1
        | spill source newOffset => exact hstepValid.1.1
      refine storageValue_of_changes hm2 hvalid (fun r hr => ?_) fun x hx =>
        h.slots x ⟨step, hstep, hx⟩
      obtain ⟨p, hp | hp⟩ := hmem <;> rw [StorageReg, hp] at hr <;> exact hr.elim
  rw [hrun]
  constructor
  · rintro ⟨-, -, hvalues, hframe'⟩
    refine ⟨(frame_iff_stackFrameSize hframe).mp hframe', fun t ht hne => ?_⟩
    rw [← hslots t hne]
    exact hvalues t ht
  · rintro ⟨hsize, hidle⟩
    refine ⟨hin, hvalue.trans hloaded, fun t ht => ?_, (frame_iff_stackFrameSize hframe).mpr hsize⟩
    by_cases hne : relocateAll (l.before ++ l.behind) t = relocateAll l.before t
    · rw [hne]
      exact hkept t ht
    · exact (hslots t hne).trans (hidle t ht hne)

end LinkedLoad

/-! ### At an odd address -/

namespace LinkedLoad

variable {l : LinkedLoad} {b : FromEnd} {jobMemory frameTop : BitVec 32} {s s' : FrameState}
  {live : List (VariableStorage REG)} {m m' : Machine} {helpers : Helpers}

/-- **At odd addresses** the load is exact, or execution ends at the stack fence. -/
theorem Reached.exact_odd (h : l.Allocated b jobMemory frameTop live m) {s3 s4 : FrameState}
    (hreached : l.Reached b jobMemory frameTop s3 live m m')
    (hin : l.InBounds b jobMemory frameTop m) (hsize : l.builtin.dataSize ≠ 1)
    (hodd : (m'.regs memLdStReg).getLsbD 0 = true) {extra : List WindowInstr}
    (h4 : emitSteps b.stackFence s3 l.behind = some (extra, s4)) :
    runAccess helpers (l.accessCode (extra.map .window)) m' = .error (.trap .stackFenceBreached) ∨
      l.Exact b jobMemory frameTop s4 live m
        (runAccess helpers (l.accessCode (extra.map .window)) m') := by
  have hvalid : ∀ step ∈ l.behind, step.Valid := fun step hstep =>
    h.valid step (List.mem_append_right _ hstep)
  have hbeforeValid : ∀ step ∈ l.before, step.Valid := fun step hstep =>
    h.valid step (List.mem_append_left _ hstep)
  have hspills : ∀ step ∈ l.behind, ∃ source newOffset, step = .spill source newOffset :=
    fun step hstep => h.spills step (List.mem_append_right _ hstep)
  let m1 := m'.setReg l.targetReg (m'.regs memLdStReg)
  have hdata := isDATA_targetReg h.target
  have hchanges1 : m'.Changes (StorageReg l.target) NoBytes m1 :=
    (setReg_changes m' _ _).mono (fun _ => .inl) fun _ => id
  have hregs : ∀ r, StorageReg l.target r ∨ StorageReg l.extra r → r.isDATA = true :=
    fun r hr => hr.elim h.target.isDATA h.extra.isDATA
  have hframe1 : m1.Frame s3.ctx jobMemory frameTop :=
    hreached.frame.of_changes hchanges1 (fun hr => absurd (hregs _ (.inl hr)) (by decide))
      fun hr => absurd (hregs _ (.inl hr)) (by decide)
  have hnone : l.builtin.dataSize ≤ 2 → l.behind = [] := fun hle => if_pos hle
  rcases runWindow_emitSteps hvalid h4 hframe1 with htrap | ⟨m2, hrun2, hdone⟩
  · refine .inl (loads_odd_of_error (fun hle => ?_) hodd htrap)
    rw [hnone hle] at h4
    obtain ⟨rfl, -⟩ := Prod.mk.inj (Option.some.inj h4)
    cases htrap
  have hpointer : m2.regs memLdStReg = m'.regs memLdStReg := by
    refine (hdone.regs_of_address hvalid rfl ?_ (by decide)).trans
      (Function.update_of_ne (ne_of_isDATA rfl hdata) _ _)
    rintro ⟨i, hi⟩
    revert hi
    revert i
    decide
  have hwindow : l.builtin.dataSize ≤ 2 → extra = [] := fun hle => by
    rw [hnone hle] at h4
    exact (Prod.mk.inj (Option.some.inj h4)).1.symm
  obtain ⟨m3, hrun3, hchanges3, hvalue⟩ := loads_odd helpers jobMemory frameTop h.target h.extra
    (fun r hr => (h.extraFree r hr).1) hsize hodd hwindow hrun2 hpointer
  rw [hrun3]
  refine .inr ⟨hin, hvalue.trans (hreached.loadedValue_eq h fun x hx => ?_), fun t ht => ?_, ?_⟩
  · exact hdone.changes.mem x hx
  · have havoids := (avoidsAll_append.mp (h.avoids t ht)).2
    have hvalidBefore := validStorage_relocateAll hbeforeValid (h.validLive t ht)
    have h1 : storageValue jobMemory frameTop m1 (relocateAll l.before t) =
        storageValue jobMemory frameTop m t :=
      (storageValue_congr hchanges1 (fun r hr htarget => h.targetFree t ht r htarget hr) _ _).trans
        (hreached.values t ht)
    have h2 := (hdone.values _ hvalidBefore havoids).trans h1
    rw [← relocateAll_append] at h2
    refine (storageValue_congr hchanges3 (fun r hr => ?_) _ _).trans h2
    rintro (htarget | hextra)
    · rw [relocateAll_append] at hr
      exact h.targetFree t ht r htarget (storageReg_of_relocateAll hr)
    · exact (h.extraFree r hextra).2 t ht hr
  · exact hdone.frame.of_changes hchanges3 (fun hr => absurd (hregs _ hr) (by decide))
      fun hr => absurd (hregs _ hr) (by decide)

end LinkedLoad

/-! ### A load under register pressure -/

/-- The distances of a job memory. -/
def linkedFromEnd : FromEnd := ⟨8, 4, 0x60⟩

/-- A load of a word, whose other register holds a value. -/
def pressedLoad : LinkedLoad where
  builtin := .GETU32
  offset := ⟨.i32, .register (.D 1)⟩
  lifts := []
  offsetReg := .D 1
  bufLenSpills := []
  bufLenReg := .D 3
  targetSpills := []
  targetReg := .D 0
  extraSpills := [.spill ⟨.i32, .register (.D 4)⟩ 16]
  extraReg := .D 4

/-- The value in the other register. -/
def pressedValue : VariableStorage REG := ⟨.i32, .register (.D 4)⟩

/-- A machine with linked memory of five bytes, and with an offset and a value in registers. -/
def linkedMachine (offset : BitVec 32) : Machine where
  regs r := if r = linMem then 0x1000 else if r = .SP then 0x7FE0
    else if r = .D 1 then offset else if r = .D 4 then 7 else 0
  mem x := if x = 0xFF8 then 5 else if x = 0xFFD then 0x20 else 0
  psw := ⟨false, false, false, false, false, 0⟩
  otherCoreRegs _ := 0

/-- The frame has 32 bytes. -/
theorem frame_linkedMachine (offset : BitVec 32) :
    (linkedMachine offset).Frame smallFrame.ctx 0xF00 0x8000 :=
  ⟨show (0x1000 : BitVec 32) = 0xF00 + 0x100 by decide,
    show (0x7FE0 : BitVec 32) = 0x8000 - 32 by decide⟩


/-- The allocator provides the registers. -/
theorem allocated_pressedLoad :
    pressedLoad.Allocated linkedFromEnd 0xF00 0x8000 [pressedValue] (linkedMachine 1) := by
  have hnone : ∀ x, ¬ SlotByte 0xF00 0x8000 pressedLoad.before x := by
    rintro x ⟨step, hstep, -⟩
    exact absurd hstep List.not_mem_nil
  have hdata : ∀ n : Fin 16, ValidStorage (⟨.i32, .register (.D n)⟩ : VariableStorage REG) :=
    fun _ => ⟨nofun, rfl, nofun⟩
  have hreg : ∀ {n : Fin 16} {r : REG},
      StorageReg (⟨.i32, .register (.D n)⟩ : VariableStorage REG) r → r = .D n := by
    rintro n r (rfl | ⟨⟨⟩, -⟩)
    rfl
  have hslot : ∀ {r : REG}, ¬ StorageReg (VariableStorage.stackMemory .i32 16) r := id
  constructor
  case validLive =>
    rintro t ht
    obtain rfl := List.mem_singleton.mp ht
    exact hdata 4
  case valid =>
    rintro step hstep
    obtain rfl := List.mem_singleton.mp hstep
    exact ⟨hdata 4, .D 4, rfl⟩
  case spills =>
    rintro step hstep
    obtain rfl := List.mem_singleton.mp hstep
    exact ⟨_, _, rfl⟩
  case offset => exact ⟨hdata 1, rfl⟩
  case lifted => exact .inl ⟨rfl, rfl⟩
  case avoids =>
    rintro t ht
    obtain rfl := List.mem_singleton.mp ht
    refine ⟨⟨fun r _ => hslot, ?_⟩, trivial⟩
    rintro x ⟨a, ha, -⟩
    cases ha
  case bufLenReg => exact ⟨rfl, by decide⟩
  case bufLenFree =>
    rintro t ht h
    obtain rfl := List.mem_singleton.mp ht
    exact absurd (hreg h) (by decide)
  case target => exact hdata 0
  case targetFree =>
    rintro t ht r htarget h
    obtain rfl := List.mem_singleton.mp ht
    exact absurd ((hreg htarget).symm.trans (hreg h)) (by decide)
  case extra => exact hdata 4
  case extraFree =>
    rintro r hr
    refine ⟨fun htarget => absurd ((hreg hr).symm.trans (hreg htarget)) (by decide), ?_⟩
    rintro t ht
    obtain rfl := List.mem_singleton.mp ht
    exact hslot
  case bytes =>
    rintro x ⟨step, hstep, a, ha, hx⟩
    obtain rfl := List.mem_singleton.mp hstep
    obtain rfl := Option.some.inj ha
    change (x - 0x7FF0).toNat < 4 at hx
    change ¬ (x - 0x2001).toNat < 4
    bv_omega
  case length => exact fun x hx => absurd hx (hnone x)
  case lengthAligned => decide
  case slots => exact fun x _ => hnone x

end TriCore

end WasmCompiler
