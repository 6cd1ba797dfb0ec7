import WasmCompiler.RelPatchTriCore
import WasmCompiler.TriCoreConstants

/-!
# The Memory Forms of TriCore

Loads and stores have up to five forms: without a displacement, with a scaled unsigned
displacement for an implicit register `D15`, `A10` or `A15`, and the generic form with a signed
displacement of 16 bits. The assembler sets the operands in the word of an instruction, and the
processor reads them from there, so the forms are compared by their words.

## Main results

* `decode_register`, `decode_implicitD15`, `decode_implicitA15`, `decode_stack`, `decode_off16`,
  `decode_off10`: what the processor reads from the words of the forms.
* `memoryForms_exact_iff`: when the chosen form has the effect of the generic one.
-/

namespace WasmCompiler

namespace TriCore

open BitField ByteMemory

/-! ### Instruction words -/

/-- The value of a register in the enumeration. -/
def REG.value : REG → BitVec 32
  | D i => BitVec.ofNat 32 i
  | A i => 0b10000 + BitVec.ofNat 32 i

/-- The templates of the loads and stores. -/
inductive OPCodeTemplate where
  | LDBU_Da_deref_Ab_off16sx
  | LDBU_Dc_deref_Ab
  | LDBU_D15_deref_Ab_off4srozx
  | LDBU_Dc_deref_A15_off4zx
  | LDH_Da_deref_Ab_off16sx
  | LDH_D15_deref_Ab_off4srozxls1
  | LDH_Dc_deref_A15_off4zxls1
  | LDH_Dc_deref_Ab
  | LDW_Da_deref_Ab_off16sx
  | LDW_Dc_deref_Ab
  | LDW_Dc_deref_A15_off4zxls2
  | LDW_D15_deref_A10_const8zxls2
  | LDW_D15_deref_Ab_off4srozxls2
  | LDD_Ea_deref_Ab_off10sx
  | STB_deref_Ab_off16sx_Da
  | STB_deref_Ab_Da
  | STB_deref_A15_off4zx_Da
  | STB_deref_Ab_off4srozx_D15
  | STH_deref_Ab_Da
  | STH_deref_Ab_off16sx_Da
  | STH_deref_A15_off4zxls1_Da
  | STH_deref_Ab_off4srozxls1_D15
  | STW_deref_Ab_off16sx_Da
  | STW_deref_A10_const8zxls2_D15
  | STW_deref_Ab_off4srozxls2_D15
  | STW_deref_Ab_Da
  | STW_deref_A15_off4zxls2_Da
  | STD_deref_Ab_off10sx_Ea
  deriving DecidableEq, Repr

namespace OPCodeTemplate

/-- The word of a template. -/
def opcode : OPCodeTemplate → BitVec 32
  | LDBU_Da_deref_Ab_off16sx => 0x39
  | LDBU_Dc_deref_Ab => 0x14
  | LDBU_D15_deref_Ab_off4srozx => 0x0C
  | LDBU_Dc_deref_A15_off4zx => 0x08
  | LDH_Da_deref_Ab_off16sx => 0xC9
  | LDH_D15_deref_Ab_off4srozxls1 => 0x8C
  | LDH_Dc_deref_A15_off4zxls1 => 0x88
  | LDH_Dc_deref_Ab => 0x94
  | LDW_Da_deref_Ab_off16sx => 0x19
  | LDW_Dc_deref_Ab => 0x54
  | LDW_Dc_deref_A15_off4zxls2 => 0x48
  | LDW_D15_deref_A10_const8zxls2 => 0x58
  | LDW_D15_deref_Ab_off4srozxls2 => 0x4C
  | LDD_Ea_deref_Ab_off10sx => (0x25 <<< 22) ||| 0x09
  | STB_deref_Ab_off16sx_Da => 0xE9
  | STB_deref_Ab_Da => 0x34
  | STB_deref_A15_off4zx_Da => 0x28
  | STB_deref_Ab_off4srozx_D15 => 0x2C
  | STH_deref_Ab_Da => 0xB4
  | STH_deref_Ab_off16sx_Da => 0xF9
  | STH_deref_A15_off4zxls1_Da => 0xA8
  | STH_deref_Ab_off4srozxls1_D15 => 0xAC
  | STW_deref_Ab_off16sx_Da => 0x59
  | STW_deref_A10_const8zxls2_D15 => 0x78
  | STW_deref_Ab_off4srozxls2_D15 => 0x6C
  | STW_deref_Ab_Da => 0x74
  | STW_deref_A15_off4zxls2_Da => 0x68
  | STD_deref_Ab_off10sx_Ea => 0x09400089

end OPCodeTemplate

/-- The word of an instruction whose operands are being set. -/
structure Instruction where
  opcode : BitVec 32
  deriving DecidableEq, Repr

/-- An instruction begins with its template. -/
def INSTR (template : OPCodeTemplate) : Instruction := ⟨template.opcode⟩

namespace Instruction

/-- The setters put the bits of an operand over the bits of a field. -/
def setField (i : Instruction) (v : BitVec 32) (lo n : ℕ) : Instruction :=
  ⟨orBits i.opcode v lo n⟩

/-- `setDa`, `setEa`. -/
def setDa (i : Instruction) (reg : REG) : Instruction := i.setField reg.value 8 4

/-- `setAb`. -/
def setAb (i : Instruction) (reg : REG) : Instruction := i.setField reg.value 12 4

/-- `setDc`, which does not look at the kind of the register. -/
def setDc (i : Instruction) (reg : REG) : Instruction :=
  i.setField reg.value (if is16BitInstr i.opcode then 8 else 28) 4

/-- `setConst8zxls2`. -/
def setConst8zxls2 (i : Instruction) (constant : BitVec 32) : Instruction :=
  i.setField (constant >>> 2) 8 8

/-- `setOff4zx`. -/
def setOff4zx (i : Instruction) (offset : BitVec 32) : Instruction :=
  i.setField (offset >>> 0) 12 4

/-- `setOff4zxls1`. -/
def setOff4zxls1 (i : Instruction) (offset : BitVec 32) : Instruction :=
  i.setField (offset >>> 1) 12 4

/-- `setOff4zxls2`. -/
def setOff4zxls2 (i : Instruction) (offset : BitVec 32) : Instruction :=
  i.setField (offset >>> 2) 12 4

/-- `setOff4srozx`. -/
def setOff4srozx (i : Instruction) (offset : BitVec 32) : Instruction :=
  i.setField (offset >>> 0) 8 4

/-- `setOff4srozxls1`. -/
def setOff4srozxls1 (i : Instruction) (offset : BitVec 32) : Instruction :=
  i.setField (offset >>> 1) 8 4

/-- `setOff4srozxls2`. -/
def setOff4srozxls2 (i : Instruction) (offset : BitVec 32) : Instruction :=
  i.setField (offset >>> 2) 8 4

/-- `setOff10sx`. -/
def setOff10sx (i : Instruction) (convOff : BitVec 32) : Instruction :=
  (i.setField convOff 16 6).setField (convOff >>> 6) 28 4

/-- `setOff16sx`. -/
def setOff16sx (i : Instruction) (convOff : BitVec 32) : Instruction :=
  ((i.setField convOff 16 6).setField (convOff >>> 6) 28 4).setField (convOff >>> 10) 22 6

end Instruction

/-! ### The helpers of the assembler -/

namespace Assembler

open OPCodeTemplate

/-- The choice among the forms for bytes and halfwords. -/
def chooseForm (dataReg addrReg : REG) (disp : BitVec 16) (inRange : Bool)
    (noDisp implicitD15 implicitA15 generic : Instruction) : List Instruction :=
  if disp = 0 then [noDisp]
  else if dataReg = .D15 ∧ inRange then [implicitD15]
  else if addrReg = .A 15 ∧ inRange then [implicitA15]
  else [generic]

/-- The condition of the short forms for bytes. -/
def byteInRange (disp : BitVec 16) : Bool :=
  decide (0 ≤ disp.toInt) && unsignedInRange 4 (disp.signExtend 32)

/-- The condition of the short forms for halfwords. -/
def halfwordInRange (disp : BitVec 16) : Bool :=
  unsignedInRange 5 (disp.signExtend 32) && decide (0 ≤ disp.toInt ∧ disp.toInt % 2 = 0)

/-- `loadByteUnsignedDRegDerefARegDisp16sx`. -/
def loadByteUnsignedDRegDerefARegDisp16sx (dataReg addrReg : REG) (disp : BitVec 16) :
    List Instruction :=
  let value := disp.signExtend 32
  chooseForm dataReg addrReg disp (byteInRange disp)
    (((INSTR LDBU_Dc_deref_Ab).setDc dataReg).setAb addrReg)
    (((INSTR LDBU_D15_deref_Ab_off4srozx).setAb addrReg).setOff4srozx value)
    (((INSTR LDBU_Dc_deref_A15_off4zx).setDc dataReg).setOff4zx value)
    ((((INSTR LDBU_Da_deref_Ab_off16sx).setDa dataReg).setAb addrReg).setOff16sx value)

/-- `loadHalfwordDRegDerefARegDisp16sx`. -/
def loadHalfwordDRegDerefARegDisp16sx (dataReg addrReg : REG) (disp : BitVec 16) :
    List Instruction :=
  let value := disp.signExtend 32
  chooseForm dataReg addrReg disp (halfwordInRange disp)
    (((INSTR LDH_Dc_deref_Ab).setDc dataReg).setAb addrReg)
    (((INSTR LDH_D15_deref_Ab_off4srozxls1).setAb addrReg).setOff4srozxls1 value)
    (((INSTR LDH_Dc_deref_A15_off4zxls1).setDc dataReg).setOff4zxls1 value)
    ((((INSTR LDH_Da_deref_Ab_off16sx).setDa dataReg).setAb addrReg).setOff16sx value)

/-- `storeByteDerefARegDisp16sxDReg`. -/
def storeByteDerefARegDisp16sxDReg (dataReg addrReg : REG) (disp : BitVec 16) :
    List Instruction :=
  let value := disp.signExtend 32
  chooseForm dataReg addrReg disp (byteInRange disp)
    (((INSTR STB_deref_Ab_Da).setAb addrReg).setDa dataReg)
    (((INSTR STB_deref_Ab_off4srozx_D15).setAb addrReg).setOff4srozx value)
    (((INSTR STB_deref_A15_off4zx_Da).setDa dataReg).setOff4zx value)
    ((((INSTR STB_deref_Ab_off16sx_Da).setAb addrReg).setDa dataReg).setOff16sx value)

/-- `storeHalfwordDerefARegDisp16sxDReg`. -/
def storeHalfwordDerefARegDisp16sxDReg (dataReg addrReg : REG) (disp : BitVec 16) :
    List Instruction :=
  let value := disp.signExtend 32
  chooseForm dataReg addrReg disp (halfwordInRange disp)
    (((INSTR STH_deref_Ab_Da).setAb addrReg).setDa dataReg)
    (((INSTR STH_deref_Ab_off4srozxls1_D15).setAb addrReg).setOff4srozxls1 value)
    (((INSTR STH_deref_A15_off4zxls1_Da).setDa dataReg).setOff4zxls1 value)
    ((((INSTR STH_deref_Ab_off16sx_Da).setAb addrReg).setDa dataReg).setOff16sx value)

/-- `loadWordDRegDerefARegDisp16sx`. The form for `A15` has its register from the address
register, where the other loads have it from the data register. -/
def loadWordDRegDerefARegDisp16sx (dataReg addrReg : REG) (disp : BitVec 16) :
    List Instruction :=
  let value := disp.signExtend 32
  if disp = 0 then [((INSTR LDW_Dc_deref_Ab).setDc dataReg).setAb addrReg]
  else if dataReg = .D15 ∧ addrReg = .SP ∧ unsignedInRange 10 value ∧ dispMod4Equal0 disp then
    [(INSTR LDW_D15_deref_A10_const8zxls2).setConst8zxls2 value]
  else if dataReg = .D15 ∧ unsignedInRange 6 value ∧ dispMod4Equal0 disp then
    [((INSTR LDW_D15_deref_Ab_off4srozxls2).setAb addrReg).setOff4srozxls2 value]
  else if addrReg = .A 15 ∧ unsignedInRange 6 value ∧ dispMod4Equal0 disp then
    [((INSTR LDW_Dc_deref_A15_off4zxls2).setDc addrReg).setOff4zxls2 value]
  else [(((INSTR LDW_Da_deref_Ab_off16sx).setDa dataReg).setAb addrReg).setOff16sx value]

/-- `storeWordDerefARegDisp16sxDReg`. -/
def storeWordDerefARegDisp16sxDReg (dataReg addrReg : REG) (disp : BitVec 16) :
    List Instruction :=
  let value := disp.signExtend 32
  if disp = 0 then [((INSTR STW_deref_Ab_Da).setAb addrReg).setDa dataReg]
  else if dataReg = .D15 ∧ addrReg = .SP ∧ unsignedInRange 10 value ∧ dispMod4Equal0 disp then
    [(INSTR STW_deref_A10_const8zxls2_D15).setConst8zxls2 value]
  else if dataReg = .D15 ∧ unsignedInRange 6 value ∧ dispMod4Equal0 disp then
    [((INSTR STW_deref_Ab_off4srozxls2_D15).setAb addrReg).setOff4srozxls2 value]
  else if addrReg = .A 15 ∧ unsignedInRange 6 value ∧ dispMod4Equal0 disp then
    [((INSTR STW_deref_A15_off4zxls2_Da).setOff4zxls2 value).setDa dataReg]
  else [(((INSTR STW_deref_Ab_off16sx_Da).setAb addrReg).setOff16sx value).setDa dataReg]

/-- `loadDwordERegDerefARegDisp16sx`. -/
def loadDwordERegDerefARegDisp16sx (extReg addrReg : REG) (disp : BitVec 16) :
    List Instruction :=
  if signedInRange 10 disp.toInt then
    [(((INSTR LDD_Ea_deref_Ab_off10sx).setDa extReg).setAb addrReg).setOff10sx
      (disp.signExtend 32)]
  else
    loadWordDRegDerefARegDisp16sx extReg addrReg disp ++
      loadWordDRegDerefARegDisp16sx extReg.getOtherExtReg addrReg (disp + 4)

/-- `storeDwordDerefARegDisp16sxEReg`. -/
def storeDwordDerefARegDisp16sxEReg (extReg addrReg : REG) (disp : BitVec 16) :
    List Instruction :=
  if signedInRange 10 disp.toInt then
    [(((INSTR STD_deref_Ab_off10sx_Ea).setAb addrReg).setOff10sx (disp.signExtend 32)).setDa
      extReg]
  else
    storeWordDerefARegDisp16sxDReg extReg addrReg disp ++
      storeWordDerefARegDisp16sxDReg extReg.getOtherExtReg addrReg (disp + 4)

end Assembler

/-! ### What the processor does -/

/-- What is transferred between the memory and the data registers. -/
inductive Transfer where
  | loadByteUnsigned
  | loadHalfword
  | loadWord
  | loadDword
  | storeByte
  | storeHalfword
  | storeWord
  | storeDword
  deriving DecidableEq, Repr

/-- An access to the memory: a data register, or the first of a pair, and an address register
with a displacement. -/
structure MemoryAccess where
  transfer : Transfer
  dataReg : Fin 16
  addrReg : Fin 16
  disp : BitVec 32
  deriving DecidableEq, Repr

/-- The halfword at an address. -/
def readHalfword (m : ByteMemory) (a : BitVec 32) : BitVec 16 := m (a + 1) ++ m a

/-- Write a halfword to an address. -/
def storeHalfword (m : ByteMemory) (a : BitVec 32) (h : BitVec 16) : ByteMemory :=
  Function.update (Function.update m a (h.setWidth 8)) (a + 1) (h.extractLsb' 8 8)

/-- **The effect of an access.** -/
def MemoryAccess.exec (a : MemoryAccess) (m : Machine) : Machine :=
  let address := m.regs (.A a.addrReg) + a.disp
  let dataReg := REG.D a.dataReg
  match a.transfer with
  | .loadByteUnsigned => m.setReg dataReg ((m.mem address).setWidth 32)
  | .loadHalfword => m.setReg dataReg ((readHalfword m.mem address).signExtend 32)
  | .loadWord => m.setReg dataReg (m.load address)
  | .loadDword => m.setPair dataReg (m.load address) (m.load (address + 4))
  | .storeByte => { m with mem := Function.update m.mem address ((m.regs dataReg).setWidth 8) }
  | .storeHalfword =>
      { m with mem := storeHalfword m.mem address ((m.regs dataReg).setWidth 16) }
  | .storeWord => m.store address (m.regs dataReg)
  | .storeDword => m.storePair address (m.regs dataReg) (m.regs dataReg.getOtherExtReg)

/-- Where the words of the forms have their operands: two registers (`SLR`, `SSR`), a register
and an unsigned displacement for `A15` (`SLRO`, `SSRO`) or for `D15` (`SRO`) that is scaled, a
displacement for `D15` and `A10` (`SC`), or registers and a signed displacement (`BOL`, `BO`). -/
inductive Format where
  | register
  | implicitA15 (scale : ℕ)
  | implicitD15 (scale : ℕ)
  | stack
  | off16
  | off10
  deriving DecidableEq, Repr

/-- The primary opcodes of the processor. -/
def primaryOpcode : BitVec 8 → Option (Transfer × Format)
  | 0x39#8 => some (.loadByteUnsigned, .off16)
  | 0x14#8 => some (.loadByteUnsigned, .register)
  | 0x0C#8 => some (.loadByteUnsigned, .implicitD15 0)
  | 0x08#8 => some (.loadByteUnsigned, .implicitA15 0)
  | 0xC9#8 => some (.loadHalfword, .off16)
  | 0x94#8 => some (.loadHalfword, .register)
  | 0x8C#8 => some (.loadHalfword, .implicitD15 1)
  | 0x88#8 => some (.loadHalfword, .implicitA15 1)
  | 0x19#8 => some (.loadWord, .off16)
  | 0x54#8 => some (.loadWord, .register)
  | 0x4C#8 => some (.loadWord, .implicitD15 2)
  | 0x48#8 => some (.loadWord, .implicitA15 2)
  | 0x58#8 => some (.loadWord, .stack)
  | 0x09#8 => some (.loadDword, .off10)
  | 0xE9#8 => some (.storeByte, .off16)
  | 0x34#8 => some (.storeByte, .register)
  | 0x2C#8 => some (.storeByte, .implicitD15 0)
  | 0x28#8 => some (.storeByte, .implicitA15 0)
  | 0xF9#8 => some (.storeHalfword, .off16)
  | 0xB4#8 => some (.storeHalfword, .register)
  | 0xAC#8 => some (.storeHalfword, .implicitD15 1)
  | 0xA8#8 => some (.storeHalfword, .implicitA15 1)
  | 0x59#8 => some (.storeWord, .off16)
  | 0x74#8 => some (.storeWord, .register)
  | 0x6C#8 => some (.storeWord, .implicitD15 2)
  | 0x68#8 => some (.storeWord, .implicitA15 2)
  | 0x78#8 => some (.storeWord, .stack)
  | 0x89#8 => some (.storeDword, .off10)
  | _ => none

/-- The operands in a word: the data register, the address register and the displacement. -/
def Format.operands (f : Format) (w : BitVec 32) : Option (Fin 16 × Fin 16 × BitVec 32) :=
  let first : Fin 16 := (w.extractLsb' 8 4).toFin
  let second : Fin 16 := (w.extractLsb' 12 4).toFin
  match f with
  | register => some (first, second, 0)
  | implicitA15 scale => some (first, 15, shifted (w.extractLsb' 12 4) scale)
  | implicitD15 scale => some (15, second, shifted (w.extractLsb' 8 4) scale)
  | stack => some (15, 10, shifted (w.extractLsb' 8 8) 2)
  | off16 =>
      some (first, second,
        (w.extractLsb' 22 6 ++ (w.extractLsb' 28 4 ++ w.extractLsb' 16 6)).signExtend 32)
  | off10 =>
      -- the opcode `0x25` of a form without an increment
      if w.extractLsb' 22 6 = 0x25 then
        some (first, second, (w.extractLsb' 28 4 ++ w.extractLsb' 16 6).signExtend 32)
      else none

/-- The access that a word means. -/
def decode (i : Instruction) : Option MemoryAccess := do
  let (transfer, format) ← primaryOpcode (i.opcode.extractLsb' 0 8)
  let (dataReg, addrReg, disp) ← format.operands i.opcode
  return ⟨transfer, dataReg, addrReg, disp⟩

/-- Execute the words of loads and stores. -/
def execWords (code : List Instruction) (m : Machine) : Option Machine :=
  code.foldlM (fun m i => do return (← decode i).exec m) m

/-! ### The fields of a word -/

/-- The number of a data register. -/
theorem REG.toFin_value_D (i : Fin 16) : ((REG.D i).value.setWidth 4).toFin = i := by
  revert i
  decide

/-- The number of an address register, without its kind. -/
theorem REG.toFin_value_A (i : Fin 16) : ((REG.A i).value.setWidth 4).toFin = i := by
  revert i
  decide

namespace OPCodeTemplate

/-- What an instruction transfers. -/
def transfer : OPCodeTemplate → Transfer
  | LDBU_Da_deref_Ab_off16sx | LDBU_Dc_deref_Ab | LDBU_D15_deref_Ab_off4srozx
  | LDBU_Dc_deref_A15_off4zx => .loadByteUnsigned
  | LDH_Da_deref_Ab_off16sx | LDH_D15_deref_Ab_off4srozxls1 | LDH_Dc_deref_A15_off4zxls1
  | LDH_Dc_deref_Ab => .loadHalfword
  | LDW_Da_deref_Ab_off16sx | LDW_Dc_deref_Ab | LDW_Dc_deref_A15_off4zxls2
  | LDW_D15_deref_A10_const8zxls2 | LDW_D15_deref_Ab_off4srozxls2 => .loadWord
  | LDD_Ea_deref_Ab_off10sx => .loadDword
  | STB_deref_Ab_off16sx_Da | STB_deref_Ab_Da | STB_deref_A15_off4zx_Da
  | STB_deref_Ab_off4srozx_D15 => .storeByte
  | STH_deref_Ab_Da | STH_deref_Ab_off16sx_Da | STH_deref_A15_off4zxls1_Da
  | STH_deref_Ab_off4srozxls1_D15 => .storeHalfword
  | STW_deref_Ab_off16sx_Da | STW_deref_A10_const8zxls2_D15 | STW_deref_Ab_off4srozxls2_D15
  | STW_deref_Ab_Da | STW_deref_A15_off4zxls2_Da => .storeWord
  | STD_deref_Ab_off10sx_Ea => .storeDword

/-- Where an instruction has its operands. -/
def format : OPCodeTemplate → Format
  | LDBU_Da_deref_Ab_off16sx | LDH_Da_deref_Ab_off16sx | LDW_Da_deref_Ab_off16sx
  | STB_deref_Ab_off16sx_Da | STH_deref_Ab_off16sx_Da | STW_deref_Ab_off16sx_Da => .off16
  | LDBU_Dc_deref_Ab | LDH_Dc_deref_Ab | LDW_Dc_deref_Ab | STB_deref_Ab_Da | STH_deref_Ab_Da
  | STW_deref_Ab_Da => .register
  | LDBU_D15_deref_Ab_off4srozx | STB_deref_Ab_off4srozx_D15 => .implicitD15 0
  | LDH_D15_deref_Ab_off4srozxls1 | STH_deref_Ab_off4srozxls1_D15 => .implicitD15 1
  | LDW_D15_deref_Ab_off4srozxls2 | STW_deref_Ab_off4srozxls2_D15 => .implicitD15 2
  | LDBU_Dc_deref_A15_off4zx | STB_deref_A15_off4zx_Da => .implicitA15 0
  | LDH_Dc_deref_A15_off4zxls1 | STH_deref_A15_off4zxls1_Da => .implicitA15 1
  | LDW_Dc_deref_A15_off4zxls2 | STW_deref_A15_off4zxls2_Da => .implicitA15 2
  | LDW_D15_deref_A10_const8zxls2 | STW_deref_A10_const8zxls2_D15 => .stack
  | LDD_Ea_deref_Ab_off10sx | STD_deref_Ab_off10sx_Ea => .off10

/-- The processor knows the primary opcode of a template. -/
theorem primaryOpcode_opcode (t : OPCodeTemplate) :
    primaryOpcode (t.opcode.extractLsb' 0 8) = some (t.transfer, t.format) := by
  cases t <;> rfl

/-- No operand is set in a template. -/
theorem operands_clear (t : OPCodeTemplate) :
    t.opcode.extractLsb' 8 4 = 0 ∧ t.opcode.extractLsb' 12 4 = 0 ∧
      t.opcode.extractLsb' 8 8 = 0 ∧ t.opcode.extractLsb' 16 6 = 0 ∧
      t.opcode.extractLsb' 28 4 = 0 ∧
      t.opcode.extractLsb' 22 6 = if t.format = .off10 then 0x25 else 0 := by
  cases t <;> decide

end OPCodeTemplate

/-- The order in which fields are set does not matter. -/
theorem Instruction.setField_comm (i : Instruction) (v v' : BitVec 32) (lo n lo' n' : ℕ) :
    (i.setField v lo n).setField v' lo' n' = (i.setField v' lo' n').setField v lo n := by
  simp only [setField, orBits, BitVec.or_assoc, BitVec.or_comm ((v &&& _) <<< lo)]

/-- In a word of 16 bits `setDc` sets the field of `setDa`. -/
theorem setDc_eq_setDa {t : OPCodeTemplate} (h : t.format ≠ .off16 ∧ t.format ≠ .off10)
    (reg : REG) : (INSTR t).setDc reg = (INSTR t).setDa reg := by
  have h16 : is16BitInstr t.opcode = true := by
    revert h
    cases t <;> decide
  simp only [Instruction.setDc, Instruction.setDa, INSTR, h16, if_true]

/-! ### Decoding the forms -/

/-- A word with the opcode of a template means what its operands say. -/
theorem decode_eq {t : OPCodeTemplate} {i : Instruction} {dataReg addrReg : Fin 16}
    {disp : BitVec 32} (hopcode : i.opcode.extractLsb' 0 8 = t.opcode.extractLsb' 0 8)
    (hoperands : t.format.operands i.opcode = some (dataReg, addrReg, disp)) :
    decode i = some ⟨t.transfer, dataReg, addrReg, disp⟩ := by
  rw [decode, hopcode, t.primaryOpcode_opcode]
  simp [hoperands]

/-- Two registers. -/
theorem decode_register {t : OPCodeTemplate} (h : t.format = .register) (i j : Fin 16) :
    decode (((INSTR t).setDa (.D i)).setAb (.A j)) = some ⟨t.transfer, i, j, 0⟩ := by
  obtain ⟨hfirst, hsecond, -⟩ := t.operands_clear
  have hopcode : (((INSTR t).setDa (.D i)).setAb (.A j)).opcode.extractLsb' 0 8 =
      t.opcode.extractLsb' 0 8 := by
    simp (disch := omega) only [Instruction.setDa, Instruction.setAb, Instruction.setField, INSTR,
      extract_orBits_of_disjoint]
  refine decode_eq hopcode ?_
  rw [h]
  simp (disch := omega) only [Format.operands, Instruction.setDa, Instruction.setAb,
    Instruction.setField, INSTR, extract_orBits, extract_orBits_of_disjoint, hfirst, hsecond,
    BitVec.ofNat_eq_ofNat, BitVec.zero_or, REG.toFin_value_D, REG.toFin_value_A]

/-- A register and a displacement for `A15`. -/
theorem decode_implicitA15 {t : OPCodeTemplate} {scale : ℕ} (h : t.format = .implicitA15 scale)
    (i : Fin 16) (v : BitVec 32) :
    decode (((INSTR t).setDa (.D i)).setField v 12 4) =
      some ⟨t.transfer, i, 15, shifted (v.setWidth 4) scale⟩ := by
  obtain ⟨hfirst, hsecond, -⟩ := t.operands_clear
  have hopcode : (((INSTR t).setDa (.D i)).setField v 12 4).opcode.extractLsb' 0 8 =
      t.opcode.extractLsb' 0 8 := by
    simp (disch := omega) only [Instruction.setDa, Instruction.setField, INSTR,
      extract_orBits_of_disjoint]
  refine decode_eq hopcode ?_
  rw [h]
  simp (disch := omega) only [Format.operands, Instruction.setDa, Instruction.setField, INSTR,
    extract_orBits, extract_orBits_of_disjoint, hfirst, hsecond, BitVec.ofNat_eq_ofNat,
    BitVec.zero_or, REG.toFin_value_D]

/-- A displacement for `D15`. -/
theorem decode_implicitD15 {t : OPCodeTemplate} {scale : ℕ} (h : t.format = .implicitD15 scale)
    (j : Fin 16) (v : BitVec 32) :
    decode (((INSTR t).setAb (.A j)).setField v 8 4) =
      some ⟨t.transfer, 15, j, shifted (v.setWidth 4) scale⟩ := by
  obtain ⟨hfirst, hsecond, -⟩ := t.operands_clear
  have hopcode : (((INSTR t).setAb (.A j)).setField v 8 4).opcode.extractLsb' 0 8 =
      t.opcode.extractLsb' 0 8 := by
    simp (disch := omega) only [Instruction.setAb, Instruction.setField, INSTR,
      extract_orBits_of_disjoint]
  refine decode_eq hopcode ?_
  rw [h]
  simp (disch := omega) only [Format.operands, Instruction.setAb, Instruction.setField, INSTR,
    extract_orBits, extract_orBits_of_disjoint, hfirst, hsecond, BitVec.ofNat_eq_ofNat,
    BitVec.zero_or, REG.toFin_value_A]

/-- A displacement for `D15` and `A10`. -/
theorem decode_stack {t : OPCodeTemplate} (h : t.format = .stack) (v : BitVec 32) :
    decode ((INSTR t).setField v 8 8) =
      some ⟨t.transfer, 15, 10, shifted (v.setWidth 8) 2⟩ := by
  obtain ⟨-, -, hconst, -⟩ := t.operands_clear
  have hopcode : ((INSTR t).setField v 8 8).opcode.extractLsb' 0 8 =
      t.opcode.extractLsb' 0 8 := by
    simp (disch := omega) only [Instruction.setField, INSTR, extract_orBits_of_disjoint]
  refine decode_eq hopcode ?_
  rw [h]
  simp (disch := omega) only [Format.operands, Instruction.setField, INSTR, extract_orBits, hconst,
    BitVec.ofNat_eq_ofNat, BitVec.zero_or]

/-- The parts of a displacement of 16 bits. -/
theorem signExtend_append_off16 (disp : BitVec 16) :
    (((disp.signExtend 32) >>> 10).setWidth 6 ++
      (((disp.signExtend 32) >>> 6).setWidth 4 ++ (disp.signExtend 32).setWidth 6)).signExtend 32 =
      disp.signExtend 32 := by
  have hparts : ((disp.signExtend 32) >>> 10).setWidth 6 ++
      (((disp.signExtend 32) >>> 6).setWidth 4 ++ (disp.signExtend 32).setWidth 6) = disp := by
    grind
  exact congrArg (BitVec.signExtend 32) hparts

/-- The parts of a displacement of 10 bits. -/
theorem signExtend_append_off10 {disp : BitVec 16} (h : signedInRange 10 disp.toInt = true) :
    (((disp.signExtend 32) >>> 6).setWidth 4 ++ (disp.signExtend 32).setWidth 6).signExtend 32 =
      disp.signExtend 32 := by
  have hparts : ((disp.signExtend 32) >>> 6).setWidth 4 ++ (disp.signExtend 32).setWidth 6 =
      (disp.signExtend 32).setWidth 10 := by
    grind
  have hint : (disp.signExtend 32).toInt = disp.toInt := BitVec.toInt_signExtend_of_le (by decide)
  rw [← hint] at h
  exact (congrArg (BitVec.signExtend 32) hparts).trans
    (signExtend_setWidth_of_signedInRange (by decide) (by decide) h)

/-- Two registers and a signed displacement: **the generic form**. -/
theorem decode_off16 {t : OPCodeTemplate} (h : t.format = .off16) (i j : Fin 16)
    (disp : BitVec 16) :
    decode ((((INSTR t).setDa (.D i)).setAb (.A j)).setOff16sx (disp.signExtend 32)) =
      some ⟨t.transfer, i, j, disp.signExtend 32⟩ := by
  obtain ⟨hfirst, hsecond, -, hlow, hmiddle, hhigh⟩ := t.operands_clear
  rw [h, if_neg (by decide)] at hhigh
  have hopcode : ((((INSTR t).setDa (.D i)).setAb (.A j)).setOff16sx
      (disp.signExtend 32)).opcode.extractLsb' 0 8 = t.opcode.extractLsb' 0 8 := by
    simp (disch := omega) only [Instruction.setDa, Instruction.setAb, Instruction.setOff16sx,
      Instruction.setField, INSTR, extract_orBits_of_disjoint]
  refine decode_eq hopcode ?_
  rw [h]
  simp (disch := omega) only [Format.operands, Instruction.setDa, Instruction.setAb,
    Instruction.setOff16sx, Instruction.setField, INSTR, extract_orBits,
    extract_orBits_of_disjoint, hfirst, hsecond, hlow, hmiddle, hhigh, BitVec.ofNat_eq_ofNat,
    BitVec.zero_or, REG.toFin_value_D, REG.toFin_value_A, signExtend_append_off16]

/-- A pair, a register and a signed displacement in range. -/
theorem decode_off10 {t : OPCodeTemplate} (h : t.format = .off10) (i j : Fin 16)
    {disp : BitVec 16} (hrange : signedInRange 10 disp.toInt = true) :
    decode ((((INSTR t).setDa (.D i)).setAb (.A j)).setOff10sx (disp.signExtend 32)) =
      some ⟨t.transfer, i, j, disp.signExtend 32⟩ := by
  obtain ⟨hfirst, hsecond, -, hlow, hmiddle, hhigh⟩ := t.operands_clear
  rw [h, if_pos rfl] at hhigh
  have hopcode : ((((INSTR t).setDa (.D i)).setAb (.A j)).setOff10sx
      (disp.signExtend 32)).opcode.extractLsb' 0 8 = t.opcode.extractLsb' 0 8 := by
    simp (disch := omega) only [Instruction.setDa, Instruction.setAb, Instruction.setOff10sx,
      Instruction.setField, INSTR, extract_orBits_of_disjoint]
  refine decode_eq hopcode ?_
  rw [h]
  simp (disch := omega) only [Format.operands, Instruction.setDa, Instruction.setAb,
    Instruction.setOff10sx, Instruction.setField, INSTR, extract_orBits,
    extract_orBits_of_disjoint, hfirst, hsecond, hlow, hmiddle, hhigh, BitVec.ofNat_eq_ofNat,
    BitVec.zero_or, REG.toFin_value_D, REG.toFin_value_A, if_true, signExtend_append_off10 hrange]

/-! ### The choices -/

/-- A displacement that the unsigned forms of bytes keep. -/
theorem shifted_of_byteInRange {disp : BitVec 16} (h : Assembler.byteInRange disp = true) :
    shifted (((disp.signExtend 32) >>> 0).setWidth 4) 0 = disp.signExtend 32 :=
  shifted_of_mod 4 0 (Bool.and_eq_true_iff.mp h).2 (Nat.mod_one _)

/-- A displacement that the unsigned forms of halfwords keep. -/
theorem shifted_of_halfwordInRange {disp : BitVec 16}
    (h : Assembler.halfwordInRange disp = true) :
    shifted (((disp.signExtend 32) >>> 1).setWidth 4) 1 = disp.signExtend 32 := by
  obtain ⟨hrange, hmod⟩ := Bool.and_eq_true_iff.mp h
  have hdisp := of_decide_eq_true hmod
  refine shifted_of_mod 4 1 hrange ?_
  have hint : (disp.signExtend 32).toInt = disp.toInt := BitVec.toInt_signExtend_of_le (by decide)
  have hnat := BitVec.toInt_eq_toNat_cond (disp.signExtend 32)
  split at hnat <;> omega

/-- A displacement of zero. -/
theorem signExtend_of_eq_zero {disp : BitVec 16} (h : disp = 0) : disp.signExtend 32 = 0 := by
  rw [h]
  rfl

/-- **The choice for bytes and halfwords** means the access. -/
theorem map_decode_chooseForm {transfer : Transfer} {scale : ℕ}
    {noDisp implicitD15 implicitA15 generic : OPCodeTemplate}
    (hnoDisp : noDisp.format = .register ∧ noDisp.transfer = transfer)
    (hD15 : implicitD15.format = .implicitD15 scale ∧ implicitD15.transfer = transfer)
    (hA15 : implicitA15.format = .implicitA15 scale ∧ implicitA15.transfer = transfer)
    (hgeneric : generic.format = .off16 ∧ generic.transfer = transfer)
    (i j : Fin 16) {disp : BitVec 16} {inRange : Bool}
    (hrange : inRange = true →
      shifted (((disp.signExtend 32) >>> scale).setWidth 4) scale = disp.signExtend 32) :
    (Assembler.chooseForm (.D i) (.A j) disp inRange
      (((INSTR noDisp).setDa (.D i)).setAb (.A j))
      (((INSTR implicitD15).setAb (.A j)).setField ((disp.signExtend 32) >>> scale) 8 4)
      (((INSTR implicitA15).setDa (.D i)).setField ((disp.signExtend 32) >>> scale) 12 4)
      ((((INSTR generic).setDa (.D i)).setAb (.A j)).setOff16sx (disp.signExtend 32))).map
        decode = [some ⟨transfer, i, j, disp.signExtend 32⟩] := by
  rw [Assembler.chooseForm]
  split
  · case _ hzero =>
      rw [List.map_singleton, decode_register hnoDisp.1, hnoDisp.2, signExtend_of_eq_zero hzero]
  · split
    · case _ h =>
        obtain rfl : i = 15 := REG.D.inj h.1
        rw [List.map_singleton, decode_implicitD15 hD15.1, hD15.2, hrange h.2]
    · split
      · case _ h =>
          obtain rfl : j = 15 := REG.A.inj h.1
          rw [List.map_singleton, decode_implicitA15 hA15.1, hA15.2, hrange h.2]
      · rw [List.map_singleton, decode_off16 hgeneric.1, hgeneric.2]

namespace Assembler

/-- Loading an unsigned byte. -/
theorem map_decode_loadByteUnsigned (i j : Fin 16) (disp : BitVec 16) :
    (loadByteUnsignedDRegDerefARegDisp16sx (.D i) (.A j) disp).map decode =
      [some ⟨.loadByteUnsigned, i, j, disp.signExtend 32⟩] := by
  rw [loadByteUnsignedDRegDerefARegDisp16sx, setDc_eq_setDa (by decide),
    setDc_eq_setDa (by decide)]
  refine map_decode_chooseForm ?_ ?_ ?_ ?_ i j shifted_of_byteInRange <;> exact ⟨rfl, rfl⟩

/-- Loading a halfword. -/
theorem map_decode_loadHalfword (i j : Fin 16) (disp : BitVec 16) :
    (loadHalfwordDRegDerefARegDisp16sx (.D i) (.A j) disp).map decode =
      [some ⟨.loadHalfword, i, j, disp.signExtend 32⟩] := by
  rw [loadHalfwordDRegDerefARegDisp16sx, setDc_eq_setDa (by decide),
    setDc_eq_setDa (by decide)]
  refine map_decode_chooseForm ?_ ?_ ?_ ?_ i j shifted_of_halfwordInRange <;> exact ⟨rfl, rfl⟩

/-- The registers of a store are set in the other order. -/
theorem setAb_setDa (i : Instruction) (dataReg addrReg : REG) :
    (i.setAb addrReg).setDa dataReg = (i.setDa dataReg).setAb addrReg :=
  i.setField_comm _ _ _ _ _ _

/-- The displacement and the register of a store are set in the other order. -/
theorem setOff16sx_setDa (i : Instruction) (v : BitVec 32) (reg : REG) :
    (i.setOff16sx v).setDa reg = (i.setDa reg).setOff16sx v := by
  simp only [Instruction.setOff16sx, Instruction.setDa,
    Instruction.setField_comm _ _ reg.value _ _ 8 4]

/-- Storing a byte. -/
theorem map_decode_storeByte (i j : Fin 16) (disp : BitVec 16) :
    (storeByteDerefARegDisp16sxDReg (.D i) (.A j) disp).map decode =
      [some ⟨.storeByte, i, j, disp.signExtend 32⟩] := by
  rw [storeByteDerefARegDisp16sxDReg, setAb_setDa, setAb_setDa]
  refine map_decode_chooseForm ?_ ?_ ?_ ?_ i j shifted_of_byteInRange <;> exact ⟨rfl, rfl⟩

/-- Storing a halfword. -/
theorem map_decode_storeHalfword (i j : Fin 16) (disp : BitVec 16) :
    (storeHalfwordDerefARegDisp16sxDReg (.D i) (.A j) disp).map decode =
      [some ⟨.storeHalfword, i, j, disp.signExtend 32⟩] := by
  rw [storeHalfwordDerefARegDisp16sxDReg, setAb_setDa, setAb_setDa]
  refine map_decode_chooseForm ?_ ?_ ?_ ?_ i j shifted_of_halfwordInRange <;> exact ⟨rfl, rfl⟩

/-- The form for `A15` of the load of a word is chosen for another register than `D15`. -/
def LoadsD15 (dataReg addrReg : REG) (disp : BitVec 16) : Prop :=
  addrReg = .A 15 ∧ dataReg ≠ .D15 ∧ disp ≠ 0 ∧ 0 ≤ disp.toInt ∧ disp.toInt < 64 ∧
    disp.toInt % 4 = 0

instance (dataReg addrReg : REG) (disp : BitVec 16) :
    Decidable (LoadsD15 dataReg addrReg disp) :=
  inferInstanceAs (Decidable (_ ∧ _))

/-- The condition of the forms with a displacement of six bits. -/
theorem range6_iff (disp : BitVec 16) :
    (unsignedInRange 6 (disp.signExtend 32) = true ∧ dispMod4Equal0 disp = true) ↔
      0 ≤ disp.toInt ∧ disp.toInt < 64 ∧ disp.toInt % 4 = 0 := by
  have hint : (disp.signExtend 32).toInt = disp.toInt := BitVec.toInt_signExtend_of_le (by decide)
  have hnat := BitVec.toInt_eq_toNat_cond (disp.signExtend 32)
  have hle := disp.le_toInt
  have hlt := disp.toInt_lt
  simp only [unsignedInRange, dispMod4Equal0, decide_eq_true_eq]
  split at hnat <;> omega

/-- **Loading a word**: to the register, or to `D15` instead. -/
theorem map_decode_loadWord (i j : Fin 16) (disp : BitVec 16) :
    (loadWordDRegDerefARegDisp16sx (.D i) (.A j) disp).map decode =
      [some ⟨.loadWord, if LoadsD15 (.D i) (.A j) disp then 15 else i, j,
        disp.signExtend 32⟩] := by
  have hrange6 := range6_iff disp
  rw [loadWordDRegDerefARegDisp16sx, setDc_eq_setDa (by decide), setDc_eq_setDa (by decide)]
  split
  · case _ hzero =>
      have hright : ¬ LoadsD15 (.D i) (.A j) disp := fun h => h.2.2.1 hzero
      rw [List.map_singleton, decode_register rfl, if_neg hright, signExtend_of_eq_zero hzero]
      rfl
  · case _ hdisp =>
      split
      · case _ h =>
          obtain ⟨hdata, haddr, hrange, hmod⟩ := h
          obtain rfl : i = 15 := REG.D.inj hdata
          obtain rfl : j = 10 := REG.A.inj haddr
          rw [List.map_singleton, Instruction.setConst8zxls2, decode_stack rfl,
            shifted_of_mod_four 8 hrange (mod_four_of_dispMod4Equal0 hmod), ite_self]
          rfl
      · split
        · case _ h =>
            obtain ⟨hdata, hrange, hmod⟩ := h
            obtain rfl : i = 15 := REG.D.inj hdata
            rw [List.map_singleton, Instruction.setOff4srozxls2, decode_implicitD15 rfl,
              shifted_of_mod_four 4 hrange (mod_four_of_dispMod4Equal0 hmod), ite_self]
            rfl
        · case _ hD15 =>
            split
            · case _ h =>
                obtain ⟨haddr, hrange⟩ := h
                obtain rfl : j = 15 := REG.A.inj haddr
                have hwrong : LoadsD15 (.D i) (.A 15) disp :=
                  ⟨rfl, fun hdata => hD15 ⟨hdata, hrange⟩, hdisp, hrange6.mp hrange⟩
                have hregister : (INSTR .LDW_Dc_deref_A15_off4zxls2).setDa (.A 15) =
                    (INSTR .LDW_Dc_deref_A15_off4zxls2).setDa (.D 15) := by decide
                rw [List.map_singleton, Instruction.setOff4zxls2, hregister,
                  decode_implicitA15 rfl,
                  shifted_of_mod_four 4 hrange.1 (mod_four_of_dispMod4Equal0 hrange.2),
                  if_pos hwrong]
                rfl
            · case _ hA15 =>
                have hright : ¬ LoadsD15 (.D i) (.A j) disp := fun h =>
                  hA15 ⟨h.1, hrange6.mpr h.2.2.2⟩
                rw [List.map_singleton, decode_off16 rfl, if_neg hright]
                rfl

/-- **Storing a word.** -/
theorem map_decode_storeWord (i j : Fin 16) (disp : BitVec 16) :
    (storeWordDerefARegDisp16sxDReg (.D i) (.A j) disp).map decode =
      [some ⟨.storeWord, i, j, disp.signExtend 32⟩] := by
  rw [storeWordDerefARegDisp16sxDReg, setAb_setDa]
  split
  · case _ hzero =>
      rw [List.map_singleton, decode_register rfl, signExtend_of_eq_zero hzero]
      rfl
  · split
    · case _ h =>
        obtain ⟨hdata, haddr, hrange, hmod⟩ := h
        obtain rfl : i = 15 := REG.D.inj hdata
        obtain rfl : j = 10 := REG.A.inj haddr
        rw [List.map_singleton, Instruction.setConst8zxls2, decode_stack rfl,
          shifted_of_mod_four 8 hrange (mod_four_of_dispMod4Equal0 hmod)]
        rfl
    · split
      · case _ h =>
          obtain ⟨hdata, hrange, hmod⟩ := h
          obtain rfl : i = 15 := REG.D.inj hdata
          rw [List.map_singleton, Instruction.setOff4srozxls2, decode_implicitD15 rfl,
            shifted_of_mod_four 4 hrange (mod_four_of_dispMod4Equal0 hmod)]
          rfl
      · split
        · case _ h =>
            obtain ⟨haddr, hrange, hmod⟩ := h
            obtain rfl : j = 15 := REG.A.inj haddr
            rw [List.map_singleton, Instruction.setOff4zxls2, Instruction.setDa,
              Instruction.setField_comm]
            exact (congrArg (fun a => [a]) (decode_implicitA15 rfl i _)).trans (by
              rw [shifted_of_mod_four 4 hrange (mod_four_of_dispMod4Equal0 hmod)]
              rfl)
        · rw [List.map_singleton, setOff16sx_setDa, setAb_setDa, decode_off16 rfl]
          rfl

end Assembler

/-! ### The effects -/

/-- A word that means an access executes it. -/
theorem execWords_of_map_decode {code : List Instruction} {a : MemoryAccess}
    (h : code.map decode = [some a]) (m : Machine) : execWords code m = some (a.exec m) := by
  obtain ⟨i, rfl, hi⟩ := List.map_eq_singleton_iff.mp h
  rw [execWords, List.foldlM_cons, hi]
  rfl

/-- One piece of code behind another. -/
theorem execWords_append (code code' : List Instruction) (m : Machine) :
    execWords (code ++ code') m = (execWords code m).bind (execWords code') :=
  List.foldlM_append

/-- `helper` is the function of the assembler for a transfer. -/
def Transfer.helper : Transfer → REG → REG → BitVec 16 → List Instruction
  | .loadByteUnsigned => Assembler.loadByteUnsignedDRegDerefARegDisp16sx
  | .loadHalfword => Assembler.loadHalfwordDRegDerefARegDisp16sx
  | .loadWord => Assembler.loadWordDRegDerefARegDisp16sx
  | .loadDword => Assembler.loadDwordERegDerefARegDisp16sx
  | .storeByte => Assembler.storeByteDerefARegDisp16sxDReg
  | .storeHalfword => Assembler.storeHalfwordDerefARegDisp16sxDReg
  | .storeWord => Assembler.storeWordDerefARegDisp16sxDReg
  | .storeDword => Assembler.storeDwordDerefARegDisp16sxEReg

/-- The transfer has a pair of registers and two words of memory. -/
def Transfer.isDword : Transfer → Bool
  | .loadDword | .storeDword => true
  | _ => false

/-- The displacement of the second word. -/
theorem toInt_add_four {disp : BitVec 16} (h : disp.toInt + 4 < 2 ^ 15) :
    (disp + 4).toInt = disp.toInt + 4 := by
  have hle := disp.le_toInt
  have hfour : (4 : BitVec 16).toInt = 4 := rfl
  rw [BitVec.toInt_add, hfour]
  refine Int.bmod_eq_of_le ?_ ?_ <;> omega

/-- The displacement of the second word, extended. -/
theorem signExtend_add_four {disp : BitVec 16} (h : disp.toInt + 4 < 2 ^ 15) :
    (disp + 4).signExtend 32 = disp.signExtend 32 + 4 := by
  have hle := disp.le_toInt
  have hfour : (4 : BitVec 32).toInt = 4 := rfl
  refine BitVec.eq_of_toInt_eq ?_
  rw [BitVec.toInt_signExtend_of_le (by decide), toInt_add_four h, BitVec.toInt_add,
    BitVec.toInt_signExtend_of_le (by decide), hfour]
  symm
  refine Int.bmod_eq_of_le ?_ ?_ <;> omega

/-- Two words beyond the short form load the pair. -/
theorem exec_loadDword (i j : Fin 16) (d : BitVec 32) (m : Machine) :
    (MemoryAccess.mk .loadWord (i ^^^ 1) j (d + 4)).exec
        ((MemoryAccess.mk .loadWord i j d).exec m) =
      (MemoryAccess.mk .loadDword i j d).exec m := by
  simp only [MemoryAccess.exec, Machine.setPair, Machine.setReg, Machine.load,
    REG.getOtherExtReg, ne_eq, reduceCtorEq, not_false_eq_true, Function.update_of_ne,
    BitVec.add_assoc]

/-- Two words beyond the short form store the pair. -/
theorem exec_storeDword (i j : Fin 16) (d : BitVec 32) (m : Machine) :
    (MemoryAccess.mk .storeWord (i ^^^ 1) j (d + 4)).exec
        ((MemoryAccess.mk .storeWord i j d).exec m) =
      (MemoryAccess.mk .storeDword i j d).exec m := by
  simp only [MemoryAccess.exec, Machine.storePair, Machine.store, REG.getOtherExtReg,
    BitVec.add_assoc]

/-- A displacement beyond the short form of doublewords, or the next word, is not in the short
form of words. -/
theorem not_loadsD15_of_not_range10 {disp : BitVec 16}
    (h : ¬ signedInRange 10 disp.toInt = true) (i j : Fin 16) {d : BitVec 16}
    (hd : d.toInt = disp.toInt ∨ d.toInt = disp.toInt + 4) :
    ¬ Assembler.LoadsD15 (.D i) (.A j) d := by
  rintro ⟨-, -, -, hle, hlt, -⟩
  refine h (decide_eq_true ?_)
  omega

/-- **What a helper does**: a load of a word may go to `D15` instead. -/
theorem execWords_helper (transfer : Transfer) (i j : Fin 16) (disp : BitVec 16)
    (hnext : transfer.isDword = true → disp.toInt + 4 < 2 ^ 15) (m : Machine) :
    execWords (transfer.helper (.D i) (.A j) disp) m =
      some ((MemoryAccess.mk transfer
        (if transfer = .loadWord ∧ Assembler.LoadsD15 (.D i) (.A j) disp then 15 else i) j
        (disp.signExtend 32)).exec m) := by
  cases transfer with
  | loadByteUnsigned =>
      exact execWords_of_map_decode (Assembler.map_decode_loadByteUnsigned i j disp) m
  | loadHalfword => exact execWords_of_map_decode (Assembler.map_decode_loadHalfword i j disp) m
  | loadWord =>
      rw [if_congr (and_iff_right rfl) rfl rfl]
      exact execWords_of_map_decode (Assembler.map_decode_loadWord i j disp) m
  | storeByte => exact execWords_of_map_decode (Assembler.map_decode_storeByte i j disp) m
  | storeHalfword => exact execWords_of_map_decode (Assembler.map_decode_storeHalfword i j disp) m
  | storeWord => exact execWords_of_map_decode (Assembler.map_decode_storeWord i j disp) m
  | loadDword =>
      rw [if_neg (by simp), Transfer.helper, Assembler.loadDwordERegDerefARegDisp16sx]
      split
      · case _ hrange =>
          refine execWords_of_map_decode ?_ m
          rw [List.map_singleton, decode_off10 rfl i j hrange]
          rfl
      · case _ hrange =>
          have hadd := signExtend_add_four (hnext rfl)
          have hfirst := Assembler.map_decode_loadWord i j disp
          have hsecond := Assembler.map_decode_loadWord (i ^^^ 1) j (disp + 4)
          rw [if_neg (not_loadsD15_of_not_range10 hrange i j (.inl rfl))] at hfirst
          rw [if_neg (not_loadsD15_of_not_range10 hrange _ j
            (.inr (toInt_add_four (hnext rfl)))), hadd] at hsecond
          rw [execWords_append, execWords_of_map_decode hfirst, Option.bind_some]
          exact (execWords_of_map_decode hsecond _).trans
            (congrArg some (exec_loadDword i j _ m))
  | storeDword =>
      rw [if_neg (by simp), Transfer.helper, Assembler.storeDwordDerefARegDisp16sxEReg]
      split
      · case _ hrange =>
          have hcomm : ∀ (w : Instruction) (v : BitVec 32),
              (w.setOff10sx v).setDa (.D i) = (w.setDa (.D i)).setOff10sx v := by
            intro w v
            simp only [Instruction.setOff10sx, Instruction.setDa,
              Instruction.setField_comm _ _ (REG.D i).value _ _ 8 4]
          refine execWords_of_map_decode ?_ m
          rw [List.map_singleton, hcomm, Assembler.setAb_setDa, decode_off10 rfl i j hrange]
          rfl
      · have hadd := signExtend_add_four (hnext rfl)
        have hfirst := Assembler.map_decode_storeWord i j disp
        have hsecond := Assembler.map_decode_storeWord (i ^^^ 1) j (disp + 4)
        rw [hadd] at hsecond
        rw [execWords_append, execWords_of_map_decode hfirst, Option.bind_some]
        exact (execWords_of_map_decode hsecond _).trans (congrArg some (exec_storeDword i j _ m))

/-- A machine whose memory has a byte other than zero at each address. -/
def onesMachine : Machine := { clearedMachine with mem := fun _ => 1 }

/-- The words of a memory of ones are not zero. -/
theorem readWord_ones (a : BitVec 32) : ByteMemory.readWord (fun _ => 1) a ≠ 0 := by
  simp only [ByteMemory.readWord]
  decide

/-- **The forms are exact** if and only if no load of a word for `A15` goes to `D15` instead. -/
theorem memoryForms_exact_iff (transfer : Transfer) (dataReg addrReg : Fin 16) (disp : BitVec 16)
    (hpair : transfer.isDword = true → dataReg.val % 2 = 0 ∧ disp.toInt + 4 < 2 ^ 15) :
    (∀ m, execWords (transfer.helper (.D dataReg) (.A addrReg) disp) m =
      some ((MemoryAccess.mk transfer dataReg addrReg (disp.signExtend 32)).exec m)) ↔
      ¬ (transfer = .loadWord ∧ addrReg = 15 ∧ dataReg ≠ 15 ∧ disp ≠ 0 ∧ 0 ≤ disp.toInt ∧
        disp.toInt < 64 ∧ disp.toInt % 4 = 0) := by
  have hhelper := execWords_helper transfer dataReg addrReg disp fun h => (hpair h).2
  have hcondition : Assembler.LoadsD15 (.D dataReg) (.A addrReg) disp ↔
      addrReg = 15 ∧ dataReg ≠ 15 ∧ disp ≠ 0 ∧ 0 ≤ disp.toInt ∧ disp.toInt < 64 ∧
        disp.toInt % 4 = 0 := by
    rw [Assembler.LoadsD15, REG.A.injEq, REG.D15, ne_eq, REG.D.injEq]
  rw [← hcondition]
  constructor
  · rintro hexact ⟨rfl, hwrong⟩
    have hsame := (hexact onesMachine).symm.trans (hhelper onesMachine)
    rw [if_pos ⟨rfl, hwrong⟩, Option.some.injEq] at hsame
    have hreg := congrArg (fun m : Machine => m.regs (.D dataReg)) hsame
    have hother : dataReg ≠ 15 := (hcondition.mp hwrong).2.1
    refine readWord_ones (0 + disp.signExtend 32) ?_
    simpa [MemoryAccess.exec, Machine.setReg, Machine.load, onesMachine, clearedMachine,
      hother] using hreg
  · intro hright m
    rw [hhelper m, if_neg hright]

/-- A doubleword beyond its short form is stored by two words. -/
theorem memoryForms_exact_dword :
    execWords (Transfer.storeDword.helper (.D 4) (.A 15) 512) onesMachine =
      some ((MemoryAccess.mk .storeDword 4 15 512).exec onesMachine) :=
  (memoryForms_exact_iff .storeDword 4 15 512 (by decide)).mpr (by decide) onesMachine

/-- The word at `A15 + 4` is not loaded to `D0`. -/
theorem not_memoryForms_exact_loadWord :
    ¬ ∀ m, execWords (Transfer.loadWord.helper (.D 0) (.A 15) 4) m =
      some ((MemoryAccess.mk .loadWord 0 15 4).exec m) := by
  intro hexact
  have hword : execWords (Transfer.loadWord.helper (.D 0) (.A 15) 4) onesMachine =
      some ((MemoryAccess.mk .loadWord 15 15 4).exec onesMachine) :=
    execWords_helper .loadWord 0 15 4 (by decide) onesMachine
  have hsame := Option.some.inj ((hexact onesMachine).symm.trans hword)
  have hreg := congrArg (fun m : Machine => m.regs (.D 0)) hsame
  refine readWord_ones 4 ?_
  simpa [MemoryAccess.exec, Machine.setReg, Machine.load, onesMachine, clearedMachine] using hreg

end TriCore

end WasmCompiler
