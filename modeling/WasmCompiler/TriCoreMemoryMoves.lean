import WasmCompiler.TriCoreMoves

/-!
# Moves from Memory to Memory

For a move from memory to memory, `emitMoveImpl` reaches both operands with the third address
scratch register. The part of the destination's displacement that it holds is overwritten with
the part of the source's, if neither displacement fits.

## Main results

* `moveCorrect_memory_memory`: a move from memory to memory is correct if one of the
  displacements fits, or both operands are at the same location.
* `not_moveCorrect_memory_memory`: otherwise it writes to the wrong address.
* `moveCorrect_iff`: a move is correct exactly unless both operands are in memory, at different
  locations, and neither displacement fits.
-/

namespace WasmCompiler

namespace TriCore

open ByteMemory Machine

/-! ### Bytes -/

/-- A memory with a single byte. -/
def singleByte (a : BitVec 32) : ByteMemory := fun x => if x = a then 1 else 0

/-- The word at the single byte. -/
theorem readWord_singleByte (a : BitVec 32) : ByteMemory.readWord (singleByte a) a = 1 := by
  have h1 : a + 1 ≠ a := by grind
  have h2 : a + 2 ≠ a := by grind
  have h3 : a + 3 ≠ a := by grind
  simp only [ByteMemory.readWord, singleByte, if_neg h1, if_neg h2, if_neg h3]
  decide

/-- The word behind it. -/
theorem readWord_singleByte_add_four (a : BitVec 32) :
    ByteMemory.readWord (singleByte a) (a + 4) = 0 := by
  have h0 : a + 4 ≠ a := by grind
  have h1 : a + 4 + 1 ≠ a := by grind
  have h2 : a + 4 + 2 ≠ a := by grind
  have h3 : a + 4 + 3 ≠ a := by grind
  simp only [ByteMemory.readWord, singleByte, if_neg h0, if_neg h1, if_neg h2, if_neg h3]
  decide

/-- Writing the word `1` elsewhere leaves a byte zero. -/
theorem storeWord_one_eq_zero {m : ByteMemory} {a x : BitVec 32} (hx : m x = 0) (hne : x ≠ a) :
    storeWord m a 1 x = 0 := by
  rw [storeWord]
  split
  · case _ hin =>
      have hpos : (x - a).toNat ≠ 0 := fun h => hne (by
        have hzero : x - a = 0 := BitVec.eq_of_toNat_eq h
        rw [← BitVec.sub_add_cancel x a, hzero, zero_add])
      obtain hi | hi | hi : (x - a).toNat = 1 ∨ (x - a).toNat = 2 ∨ (x - a).toNat = 3 := by omega
      all_goals rw [hi]; decide
  · exact hx

/-- Writing the word `0` leaves a byte zero. -/
theorem storeWord_zero_eq_zero {m : ByteMemory} {a x : BitVec 32} (hx : m x = 0) :
    storeWord m a 0 x = 0 := by
  rw [storeWord]
  split
  · simp [byteOf]
  · exact hx

/-- The low byte of a value. -/
theorem setWidth_loadValue (m : Machine) (is64 : Bool) (a : BitVec 32) :
    (loadValue m is64 a).setWidth 8 = m.mem a := by
  cases is64 <;> grind [loadValue, Machine.load, ByteMemory.readWord]

/-! ### The transfer -/

/-- Execution transferred the words at one address to another, through the scratch registers. -/
structure Transfers (is64 : Bool) (source target : BitVec 32) (m m' : Machine) : Prop where
  regs : ∀ r, ¬ ScratchReg r → m'.regs r = m.regs r
  mem : m'.mem =
    let low := storeWord m.mem target (m.load source)
    if is64 then storeWord low (target + 4) (m.load (source + 4)) else low

/-- Two words are transferred. -/
theorem transfers_pair {srcReg dstReg : REG} (hdst : dstReg ≠ addrScrReg 0 ∧ dstReg ≠ addrScrReg 1)
    (srcDisp dstDisp : BitVec 10) (m : Machine) :
    Transfers true (m.regs srcReg + srcDisp.signExtend 32) (m.regs dstReg + dstDisp.signExtend 32)
      m (execAll [.LDDA_Pa_deref_Ab_off10sx (addrScrReg 0) srcReg srcDisp,
        .STDA_deref_Ab_off10sx_Pa dstReg dstDisp (addrScrReg 0)] m) := by
  have hother : (addrScrReg 0).getOtherExtReg = addrScrReg 1 := rfl
  refine ⟨fun r hr => ?_, ?_⟩
  · have hne : r ≠ addrScrReg 0 ∧ r ≠ addrScrReg 1 :=
      ⟨fun h => hr ⟨0, h⟩, fun h => hr ⟨1, h⟩⟩
    refine (setPair_changes m (addrScrReg 0) _ _).regs r ?_
    rw [hother]
    exact not_or.mpr hne
  · have hbase : ∀ low high, (m.setPair (addrScrReg 0) low high).regs dstReg = m.regs dstReg :=
      fun low high => (setPair_changes m (addrScrReg 0) low high).regs dstReg (by
        rw [hother]
        exact not_or.mpr hdst)
    simp only [execAll_cons, execAll_nil, Instr.exec, hbase]
    obtain ⟨hlow, hhigh⟩ := m.setPair_regs (addrScrReg 0)
      (m.load (m.regs srcReg + srcDisp.signExtend 32))
      (m.load (m.regs srcReg + srcDisp.signExtend 32 + 4))
    rw [hlow, hhigh]
    rfl

/-- One word is transferred. -/
theorem transfers_word {srcReg dstReg : REG} (hdst : dstReg ≠ addrScrReg 0)
    (srcDisp dstDisp : BitVec 16) (m : Machine) :
    Transfers false (m.regs srcReg + srcDisp.signExtend 32) (m.regs dstReg + dstDisp.signExtend 32)
      m (execAll (emitLoadDerefOff16sx (addrScrReg 0) srcReg srcDisp ++
        emitStoreDerefOff16sx dstReg (addrScrReg 0) dstDisp) m) := by
  have hload := execAll_emitLoadDerefOff16sx (addrScrReg 0) srcReg srcDisp m
  have hstore := execAll_emitStoreDerefOff16sx dstReg (addrScrReg 0) dstDisp
    (execAll (emitLoadDerefOff16sx (addrScrReg 0) srcReg srcDisp) m)
  rw [execAll_append]
  refine ⟨fun r hr => ?_, ?_⟩
  · rw [hstore.regs]
    exact hload.changes.regs r fun h => hr ⟨0, h⟩
  · rw [hstore.mem, hload.regs, Function.update_self, Function.update_of_ne hdst, hload.mem]
    rfl

section Transfer

variable {jobMemory frameTop : BitVec 32} {dst src : VariableStorage REG} {m m1 m' : Machine}
  {source target : BitVec 32}

/-- The transfer between the addresses of the storages is the move. -/
theorem moved_of_transfers (hdst : InMemory dst) (hsrc : InMemory src) (hvalid : ValidStorage dst)
    (htype : dst.machineType = src.machineType) (hm1 : m.Changes ScratchReg NoBytes m1)
    (hsource : cellAddress? jobMemory frameTop src = some source)
    (htarget : cellAddress? jobMemory frameTop dst = some target)
    (h : Transfers dst.machineType.is64 source target m1 m') :
    Moved jobMemory frameTop dst src m m' := by
  have hchanges : m.Changes ScratchReg NoBytes { m' with mem := m1.mem } :=
    hm1.trans ⟨h.regs, fun _ _ => rfl⟩
  refine moved_of_stores (m1.load source) (m1.load (source + 4)) hdst hvalid htarget hchanges
    (fun h64 => ?_) (fun h64 => ?_) ?_
  · have hmem := h.mem
    rw [h64] at hmem
    simp only [if_true] at hmem
    simp only [Machine.storePair, Machine.store, ← hmem]
  · have hmem := h.mem
    rw [h64] at hmem
    exact ⟨rfl, by simpa using hmem⟩
  · rw [storageValue_of_cell hsrc hsource, htype, hm1.load, hm1.load, wordsValue_load]

/-- A transfer to another address is not the move. -/
theorem not_moved_of_transfers {a : BitVec 32} (hdst : InMemory dst) (hsrc : InMemory src)
    (hmem : m.mem = singleByte source) (hmem1 : m1.mem = singleByte source)
    (hsource : cellAddress? jobMemory frameTop src = some source)
    (htarget : cellAddress? jobMemory frameTop dst = some target)
    (hne : target ≠ source) (hwrong : target ≠ a)
    (h : Transfers dst.machineType.is64 source a m1 m') :
    ¬ Moved jobMemory frameTop dst src m m' := by
  rintro ⟨hvalue, -⟩
  rw [storageValue_of_cell hdst htarget, storageValue_of_cell hsrc hsource] at hvalue
  have hbyte := congrArg (BitVec.setWidth 8) hvalue
  rw [setWidth_loadValue, setWidth_loadValue, hmem, h.mem] at hbyte
  have hlow : m1.load source = 1 := by rw [Machine.load, hmem1, readWord_singleByte]
  have hhigh : m1.load (source + 4) = 0 := by
    rw [Machine.load, hmem1, readWord_singleByte_add_four]
  have hzero : m1.mem target = 0 := by rw [hmem1, singleByte, if_neg hne]
  have hstored := storeWord_one_eq_zero hzero hwrong
  rw [hlow, hhigh] at hbyte
  have hone : singleByte source source = 1 := if_pos rfl
  rw [hone] at hbyte
  cases h64 : dst.machineType.is64 with
  | true =>
      rw [h64] at hbyte
      simp only [if_true, storeWord_zero_eq_zero hstored] at hbyte
      exact absurd hbyte (by decide)
  | false =>
      rw [h64] at hbyte
      simp only [Bool.false_eq_true, if_false, hstored] at hbyte
      exact absurd hbyte (by decide)

end Transfer

/-! ### The code of a move from memory to memory -/

/-- The code reaches the destination, then the source, and then it transfers the value. -/
structure MemoryMove (ctx : AddressingContext) (dst src : VariableStorage REG) {bits : ℕ}
    (dstCode srcCode transfer : List Instr) (dstReg srcReg : REG) (dstDisp srcDisp : BitVec bits) :
    Prop where
  getDst : getMemRegDisp bits ctx dst (addrScrReg 2) = some (dstCode, dstReg, dstDisp)
  getSrc : getMemRegDisp bits ctx src (addrScrReg 2) = some (srcCode, srcReg, srcDisp)
  reachesDst : Reaches ctx dst dstCode dstReg dstDisp
  reachesSrc : Reaches ctx src srcCode srcReg srcDisp
  transfers : ∀ m, Transfers dst.machineType.is64 (m.regs srcReg + srcDisp.signExtend 32)
    (m.regs dstReg + dstDisp.signExtend 32) m (execAll transfer m)

section MemoryMove

variable {ctx : AddressingContext} {dst src : VariableStorage REG} {unconditional : Bool}

/-- Both operands are reached and the value is transferred. -/
theorem emitMoveImpl_memory_memory (ctx : AddressingContext) (hdst : InMemory dst)
    (hsrc : InMemory src) (hne : ¬ (!unconditional ∧ dst = src)) :
    ∃ dstCode srcCode transfer dstReg srcReg,
      ∃ dstDisp srcDisp : BitVec (dispBits dst.machineType.is64),
        MemoryMove ctx dst src dstCode srcCode transfer dstReg srcReg dstDisp srcDisp ∧
          emitMoveImpl ctx dst src unconditional =
            some (dstCode ++ (srcCode ++ transfer)) := by
  cases h64 : dst.machineType.is64 with
  | true =>
      obtain ⟨dstCode, dstReg, dstDisp, hgetDst, hreachDst⟩ :=
        hdst.reaches ctx 10 (by decide) (by decide)
      obtain ⟨srcCode, srcReg, srcDisp, hgetSrc, hreachSrc⟩ :=
        hsrc.reaches ctx 10 (by decide) (by decide)
      refine ⟨dstCode, srcCode, _, dstReg, srcReg, dstDisp, srcDisp,
        ⟨hgetDst, hgetSrc, hreachDst, hreachSrc, fun m => h64 ▸ transfers_pair
          ⟨hreachDst.reg_ne.1, hreachDst.reg_ne.2.1⟩ srcDisp dstDisp m⟩, ?_⟩
      rw [emitMoveImpl, if_neg hne]
      obtain ⟨p, hp | hp⟩ := hdst <;> obtain ⟨p', hp' | hp'⟩ := hsrc <;>
        simp [h64, hp, hp', hgetDst, hgetSrc]
  | false =>
      obtain ⟨dstCode, dstReg, dstDisp, hgetDst, hreachDst⟩ :=
        hdst.reaches ctx 16 (by decide) (by decide)
      obtain ⟨srcCode, srcReg, srcDisp, hgetSrc, hreachSrc⟩ :=
        hsrc.reaches ctx 16 (by decide) (by decide)
      refine ⟨dstCode, srcCode, _, dstReg, srcReg, dstDisp, srcDisp,
        ⟨hgetDst, hgetSrc, hreachDst, hreachSrc, fun m => h64 ▸ transfers_word
          hreachDst.reg_ne.1 srcDisp dstDisp m⟩, ?_⟩
      rw [emitMoveImpl, if_neg hne]
      obtain ⟨p, hp | hp⟩ := hdst <;> obtain ⟨p', hp' | hp'⟩ := hsrc <;>
        simp [h64, hp, hp', hgetDst, hgetSrc]

/-- Both displacements of a 64-bit value, and of a 32-bit value, have bits. -/
theorem dispBits_pos (is64 : Bool) : 1 < dispBits is64 ∧ dispBits is64 ≤ 32 := by
  cases is64 <;> decide

variable {bits : ℕ} {dstCode srcCode transfer : List Instr} {dstReg srcReg : REG}
  {dstDisp srcDisp : BitVec bits}

/-- The move is correct if the register of the destination is kept while the source is
reached. -/
theorem MemoryMove.moved
    (h : MemoryMove ctx dst src dstCode srcCode transfer dstReg srcReg dstDisp srcDisp)
    (hdst : InMemory dst) (hsrc : InMemory src) (hvalid : ValidStorage dst)
    (htype : dst.machineType = src.machineType) {jobMemory frameTop : BitVec 32} {m : Machine}
    (hm : m.Frame ctx jobMemory frameTop)
    (hkept : (execAll srcCode (execAll dstCode m)).regs dstReg =
      (execAll dstCode m).regs dstReg) :
    Moved jobMemory frameTop dst src m (execAll (dstCode ++ (srcCode ++ transfer)) m) := by
  have hdstChanges := h.reachesDst.changes m
  have hsrcChanges := h.reachesSrc.changes (execAll dstCode m)
  have hchanges : m.Changes ScratchReg NoBytes (execAll srcCode (execAll dstCode m)) :=
    (hdstChanges.trans hsrcChanges).mono (fun r hr => ⟨2, hr⟩) fun _ => id
  have hsource := h.reachesSrc.address jobMemory frameTop _
    (hm.of_changes hdstChanges (by decide) (by decide))
  have htarget := h.reachesDst.address jobMemory frameTop m hm
  rw [← hkept] at htarget
  rw [execAll_append, execAll_append]
  exact moved_of_transfers hdst hsrc hvalid htype hchanges hsource htarget (h.transfers _)

/-- **A move from memory to memory is correct** if one of the displacements fits, or both
operands are at the same location. -/
theorem moveCorrect_memory_memory (hdst : InMemory dst) (hsrc : InMemory src)
    (hvalid : ValidStorage dst) (htype : dst.machineType = src.machineType)
    (hne : ¬ (!unconditional ∧ dst = src))
    (hfits : ¬ OutOfRange ctx dst ∨ ¬ OutOfRange ctx src ∨ dst.location = src.location) :
    MoveCorrect ctx dst src unconditional := by
  obtain ⟨dstCode, srcCode, transfer, dstReg, srcReg, dstDisp, srcDisp, hmove, hcode⟩ :=
    emitMoveImpl_memory_memory ctx hdst hsrc hne
  refine ⟨_, hcode, fun jobMemory frameTop m hm => ?_⟩
  refine hmove.moved hdst hsrc hvalid htype hm ?_
  obtain ⟨dstBase, dstD, hdstBase, -⟩ := hdst.baseDisp? ctx
  obtain ⟨srcBase, srcD, hsrcBase, -⟩ := hsrc.baseDisp? ctx
  have hinRange : ∀ {s : VariableStorage REG} {base d}, baseDisp? ctx s = some (base, d) →
      s.machineType = dst.machineType → ¬ OutOfRange ctx s →
      signedInRange (dispBits dst.machineType.is64) d.toBitVec.toInt = true := by
    intro s base d hs hst hout
    by_contra hfalse
    exact hout ⟨base, d, hs, by rw [hst]; simpa using hfalse⟩
  rcases hfits with hdstFits | hsrcFits | hsame
  · have hreg := (hmove.reachesDst.inRange _ _ hdstBase (hinRange hdstBase rfl hdstFits)).2
    exact (hmove.reachesSrc.changes _).regs dstReg hreg
  · have hnil := (hmove.reachesSrc.inRange _ _ hsrcBase (hinRange hsrcBase htype.symm hsrcFits)).1
    rw [hnil, execAll_nil]
  · have hget := hmove.getSrc
    -- the source is reached with the same code, which leads to the same address
    have heq : getMemRegDisp (dispBits dst.machineType.is64) ctx src (addrScrReg 2) =
        getMemRegDisp (dispBits dst.machineType.is64) ctx dst (addrScrReg 2) := by
      rw [getMemRegDisp, getMemRegDisp, baseDisp?, baseDisp?, hsame]
    rw [heq, hmove.getDst] at hget
    obtain ⟨rfl, hrest⟩ := Prod.mk.inj (Option.some.inj hget)
    obtain ⟨rfl, rfl⟩ := Prod.mk.inj hrest
    have hm' := hm.of_changes (hmove.reachesDst.changes m) (by decide) (by decide)
    have hfirst := hmove.reachesDst.address jobMemory frameTop m hm
    have hsecond := hmove.reachesDst.address jobMemory frameTop _ hm'
    exact add_right_cancel (Option.some.inj (hsecond.symm.trans hfirst))

end MemoryMove

/-! ### Where a move goes wrong -/

/-- The part of a displacement that does not fit that is added to the base. -/
def toAdd (bits : ℕ) (disp : BitVec 32) : BitVec 32 :=
  BitVec.ofInt 32 (disp.toInt - splitRest bits disp.toInt)

/-- Different displacements that do not fit have different parts that are added. -/
theorem toAdd_ne {bits : ℕ} (hbits : 1 < bits) (hle : bits ≤ 32) {d s : BitVec 32}
    (hd : signedInRange bits d.toInt = false) (hs : signedInRange bits s.toInt = false)
    (hne : d ≠ s) : toAdd bits d ≠ toAdd bits s := by
  obtain ⟨n, rfl⟩ : ∃ n, bits = n + 1 := ⟨bits - 1, by omega⟩
  have hpow : (2 : ℤ) ^ n ≤ 2 ^ 31 := pow_le_pow_right₀ (by decide) (by omega)
  have hpow' : (2 : ℤ) ^ 1 ≤ 2 ^ n := pow_le_pow_right₀ (by decide) (by omega)
  have hout : ∀ v : BitVec 32, signedInRange (n + 1) v.toInt = false →
      v.toInt < -2 ^ n ∨ 2 ^ n ≤ v.toInt := by
    intro v hv
    have h : ¬ (-2 ^ n ≤ v.toInt ∧ v.toInt < 2 ^ n) := by simpa [signedInRange] using hv
    omega
  have hvalue : ∀ v : BitVec 32, signedInRange (n + 1) v.toInt = false →
      (toAdd (n + 1) v).toInt = v.toInt - splitRest (n + 1) v.toInt := by
    intro v hv
    have hlow := v.two_mul_toInt_lt
    have hhigh := v.le_two_mul_toInt
    have hv' := hout v hv
    rw [toAdd, BitVec.toInt_ofInt, splitRest, upperBound, Nat.add_sub_cancel]
    refine Int.bmod_eq_of_le ?_ ?_
    · split <;> push_cast <;> omega
    · split <;> push_cast <;> omega
  intro h
  have hints := congrArg BitVec.toInt h
  rw [hvalue d hd, hvalue s hs] at hints
  refine hne (BitVec.eq_of_toInt_eq ?_)
  have hd' := hout d hd
  have hs' := hout s hs
  simp only [splitRest, upperBound, Nat.add_sub_cancel] at hints
  split at hints <;> split at hints <;> omega

/-- Displacements from registers lead to different addresses in some state of the machine. -/
theorem exists_regs_separated (bd bs : REG) (dd ds td ts : BitVec 32)
    (hsame : bd = bs → dd ≠ ds ∧ td ≠ ts) :
    ∃ regs : REG → BitVec 32, regs bd + dd ≠ regs bs + ds ∧ regs bd + td ≠ regs bs + ts := by
  by_cases h : bd = bs
  · obtain ⟨hd, ht⟩ := hsame h
    subst h
    exact ⟨fun _ => 0, fun h => hd (add_left_cancel h), fun h => ht (add_left_cancel h)⟩
  · -- two values of the first register are excluded
    have hchoice : ∃ x : BitVec 32, x + dd ≠ ds ∧ x + td ≠ ts := by
      by_contra hnone
      have hall : ∀ x : BitVec 32, x = ds - dd ∨ x = ts - td := by
        intro x
        by_contra hx
        obtain ⟨h1, h2⟩ := not_or.mp hx
        exact hnone ⟨x, fun h => h1 (eq_sub_of_add_eq h), fun h => h2 (eq_sub_of_add_eq h)⟩
      have h0 := hall 0
      have h1 := hall 1
      have h2 := hall 2
      grind
    obtain ⟨x, h1, h2⟩ := hchoice
    refine ⟨fun r => if r = bd then x else 0, ?_, ?_⟩
    · simpa [Ne.symm h] using h1
    · simpa [Ne.symm h] using h2

section MemoryMove

variable {ctx : AddressingContext} {dst src : VariableStorage REG} {unconditional : Bool}

/-- Storages at different locations have different displacements, or different bases. -/
theorem baseDisp?_ne {dstBase srcBase : REG} {dstD srcD : UInt32}
    (hdst : baseDisp? ctx dst = some (dstBase, dstD))
    (hsrc : baseDisp? ctx src = some (srcBase, srcD)) (hne : dst.location ≠ src.location)
    (hbase : dstBase = srcBase) : dstD.toBitVec ≠ srcD.toBitVec := by
  intro hd
  have hd' : dstD = srcD := UInt32.toBitVec_inj.mp hd
  obtain ⟨dstType, dstLocation⟩ := dst
  obtain ⟨srcType, srcLocation⟩ := src
  cases dstLocation with
  | linkData p =>
      obtain ⟨rfl, rfl⟩ := Prod.mk.inj (Option.some.inj hdst)
      cases srcLocation with
      | linkData p' =>
          obtain ⟨-, rfl⟩ := Prod.mk.inj (Option.some.inj hsrc)
          exact hne (congrArg _ (by grind))
      | stackMemory p' =>
          obtain ⟨rfl, -⟩ := Prod.mk.inj (Option.some.inj hsrc)
          exact absurd hbase (by decide)
      | register r => cases hsrc
      | constant c => cases hsrc
      | invalid => cases hsrc
  | stackMemory p =>
      obtain ⟨rfl, rfl⟩ := Prod.mk.inj (Option.some.inj hdst)
      cases srcLocation with
      | linkData p' =>
          obtain ⟨rfl, -⟩ := Prod.mk.inj (Option.some.inj hsrc)
          exact absurd hbase (by decide)
      | stackMemory p' =>
          obtain ⟨-, rfl⟩ := Prod.mk.inj (Option.some.inj hsrc)
          exact hne (congrArg _ (by grind))
      | register r => cases hsrc
      | constant c => cases hsrc
      | invalid => cases hsrc
  | register r => cases hdst
  | constant c => cases hdst
  | invalid => cases hdst

/-- A displacement that does not fit leads to code that writes the third scratch register. -/
theorem address_of_outOfRange {bits : ℕ} {code : List Instr} {reg base : REG}
    {s : VariableStorage REG} {disp : BitVec bits} {d : UInt32}
    (hget : getMemRegDisp bits ctx s (addrScrReg 2) = some (code, reg, disp))
    (hbase : baseDisp? ctx s = some (base, d))
    (hout : signedInRange bits d.toBitVec.toInt = false) :
    reg = addrScrReg 2 ∧ ∀ m : Machine,
      (execAll code m).regs (addrScrReg 2) = m.regs base + toAdd bits d.toBitVec := by
  rcases getMemRegDisp_cases hget hbase with ⟨hrange, -⟩ | ⟨-, hreg, hcode, -⟩
  · rw [hout] at hrange
    cases hrange
  · refine ⟨hreg, fun m => ?_⟩
    have hadd := execAll_addImmToReg base (toAdd bits d.toBitVec) (addrScrReg 2) m
    rw [hcode]
    exact (congrFun hadd.regs _).trans (Function.update_self _ _ _)

/-- **A move from memory to memory writes to the wrong address** if neither displacement fits
and the operands are at different locations. -/
theorem not_moveCorrect_memory_memory (hdst : InMemory dst) (hsrc : InMemory src)
    (htype : dst.machineType = src.machineType) (hne : dst.location ≠ src.location)
    (hdstOut : OutOfRange ctx dst) (hsrcOut : OutOfRange ctx src) :
    ¬ MoveCorrect ctx dst src unconditional := by
  rintro ⟨code, hcode, hmoved⟩
  obtain ⟨dstCode, srcCode, transfer, dstReg, srcReg, dstDisp, srcDisp, hmove, hcode'⟩ :=
    emitMoveImpl_memory_memory ctx hdst hsrc (fun h : !unconditional ∧ dst = src =>
      hne (congrArg _ h.2))
  obtain rfl : code = dstCode ++ (srcCode ++ transfer) := Option.some.inj (hcode.symm.trans hcode')
  obtain ⟨hbits, hle⟩ := dispBits_pos dst.machineType.is64
  obtain ⟨dstBase, dstD, hdstBase, hdstD⟩ := hdstOut
  obtain ⟨srcBase, srcD, hsrcBase, hsrcD⟩ := hsrcOut
  rw [← htype] at hsrcD
  obtain ⟨rfl, hdstReg⟩ := address_of_outOfRange hmove.getDst hdstBase hdstD
  obtain ⟨rfl, hsrcReg⟩ := address_of_outOfRange hmove.getSrc hsrcBase hsrcD
  obtain ⟨regs, hcells, hparts⟩ := exists_regs_separated dstBase srcBase
    dstD.toBitVec srcD.toBitVec (toAdd (dispBits dst.machineType.is64) dstD.toBitVec)
    (toAdd (dispBits dst.machineType.is64) srcD.toBitVec) (fun hbase => by
      have hd := baseDisp?_ne hdstBase hsrcBase hne hbase
      exact ⟨hd, toAdd_ne hbits hle hdstD hsrcD hd⟩)
  let m : Machine :=
    { regs := regs
      mem := singleByte (regs srcBase + srcD.toBitVec)
      psw := ⟨false, false, false, false, false, 0⟩
      otherCoreRegs := fun _ => 0 }
  obtain ⟨jobMemory, frameTop, hm⟩ := m.exists_frame ctx
  have hdstChanges := hmove.reachesDst.changes m
  have hsrcChanges := hmove.reachesSrc.changes (execAll dstCode m)
  have hm' := hm.of_changes hdstChanges (by decide) (by decide)
  have hmem : (execAll srcCode (execAll dstCode m)).mem = m.mem :=
    funext fun a => (hdstChanges.trans hsrcChanges).mem a id
  have hsource := hmove.reachesSrc.address jobMemory frameTop _ hm'
  have hsourceCell := base_add_disp hsrcBase hm
  have htarget := hmove.reachesDst.address jobMemory frameTop m hm
  have htargetCell := base_add_disp hdstBase hm
  have hsourceEq := Option.some.inj (hsource.symm.trans hsourceCell)
  have htransfers := hmove.transfers (execAll srcCode (execAll dstCode m))
  rw [hsourceEq] at htransfers
  refine not_moved_of_transfers hdst hsrc rfl hmem hsourceCell htargetCell hcells ?_
    (by simpa only [execAll_append] using htransfers) (hmoved jobMemory frameTop m hm)
  -- the destination is at the part of its own displacement, the target at that of the source
  rw [← Option.some.inj (htarget.symm.trans htargetCell), hdstReg, hsrcReg]
  intro h
  refine hparts ?_
  have hbase : (execAll dstCode m).regs srcBase = regs srcBase := by
    refine hdstChanges.regs srcBase ?_
    obtain ⟨base, d, hbase, hkind⟩ := hsrc.baseDisp? ctx
    obtain ⟨rfl, -⟩ := Prod.mk.inj (Option.some.inj (hbase.symm.trans hsrcBase))
    rcases hkind with rfl | rfl <;> decide
  rw [hbase] at h
  exact add_right_cancel h

end MemoryMove

/-! ### Moves -/

/-- A displacement that does not fit belongs to a storage in memory. -/
theorem OutOfRange.inMemory {ctx : AddressingContext} {s : VariableStorage REG}
    (h : OutOfRange ctx s) : InMemory s := by
  obtain ⟨base, disp, hbase, -⟩ := h
  cases hs : s.location with
  | linkData p => exact ⟨p, .inl hs⟩
  | stackMemory p => exact ⟨p, .inr hs⟩
  | register r => rw [baseDisp?, hs] at hbase; cases hbase
  | constant c => rw [baseDisp?, hs] at hbase; cases hbase
  | invalid => rw [baseDisp?, hs] at hbase; cases hbase

/-- A move of a storage to itself may be left out. -/
theorem moveCorrect_self (ctx : AddressingContext) (s : VariableStorage REG) :
    MoveCorrect ctx s s false :=
  ⟨[], by rw [emitMoveImpl, if_pos (by simp)], fun _ _ m _ => ⟨rfl, .refl _ _ m⟩⟩

/-- **Moves**: the destination has the value of the source, and nothing but the destination and
the address scratch registers is changed, exactly unless both operands are in memory, at
different locations, and neither displacement fits. -/
theorem moveCorrect_iff (ctx : AddressingContext) (dst src : VariableStorage REG)
    (unconditional : Bool) (hdst : ValidStorage dst) (hsrc : ValidStorage src)
    (hconst : ∀ c, dst.location ≠ .constant c) (htype : dst.machineType = src.machineType) :
    MoveCorrect ctx dst src unconditional ↔
      ¬ (OutOfRange ctx dst ∧ OutOfRange ctx src ∧ dst.location ≠ src.location) := by
  constructor
  · rintro hcorrect ⟨hdstOut, hsrcOut, hne⟩
    exact not_moveCorrect_memory_memory hdstOut.inMemory hsrcOut.inMemory htype hne hdstOut
      hsrcOut hcorrect
  · intro hfits
    by_cases hself : !unconditional ∧ dst = src
    · obtain ⟨hcond, rfl⟩ := hself
      obtain rfl : unconditional = false := by simpa using hcond
      exact moveCorrect_self ctx dst
    · rcases hdst.cases with ⟨r, hr⟩ | ⟨c, hc⟩ | hmem
      · rcases hsrc.cases with ⟨r', hr'⟩ | ⟨c, hc⟩ | hmem
        · exact moveCorrect_register_register hr hr' hdst hsrc htype hself
        · exact moveCorrect_register_constant hr hc hdst htype
        · exact moveCorrect_register_memory hr hmem htype
      · exact absurd hc (hconst c)
      · rcases hsrc.cases with ⟨r', hr'⟩ | ⟨c, hc⟩ | hmem'
        · exact moveCorrect_memory_register hmem hr' hdst hsrc htype
        · exact moveCorrect_memory_constant hmem hc hdst htype
        · refine moveCorrect_memory_memory hmem hmem' hdst htype hself ?_
          tauto

/-- A move between two slots of a frame of 800 bytes. -/
theorem moveCorrect_of_word_slots :
    MoveCorrect ⟨256, 800⟩ ⟨.i32, .stackMemory 16⟩ ⟨.i32, .stackMemory 24⟩ false := by
  refine (moveCorrect_iff ⟨256, 800⟩ ⟨.i32, .stackMemory 16⟩ ⟨.i32, .stackMemory 24⟩ false
    ⟨by decide, trivial⟩ ⟨by decide, trivial⟩ (fun _ h => by cases h) rfl).mpr ?_
  rintro ⟨⟨base, disp, hbase, hout⟩, -⟩
  obtain ⟨-, rfl⟩ := Prod.mk.inj (Option.some.inj hbase)
  revert hout
  decide

/-- A 64-bit move between the same two slots goes to the wrong address. -/
theorem not_moveCorrect_of_pair_slots :
    ¬ MoveCorrect ⟨256, 800⟩ ⟨.i64, .stackMemory 16⟩ ⟨.i64, .stackMemory 24⟩ false :=
  not_moveCorrect_memory_memory ⟨16, .inr rfl⟩ ⟨24, .inr rfl⟩ rfl (fun h => by cases h)
    ⟨.SP, 784, rfl, by decide⟩ ⟨.SP, 776, rfl, by decide⟩

end TriCore

end WasmCompiler
