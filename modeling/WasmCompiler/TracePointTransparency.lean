import WasmCompiler.TracePoints

/-!
# Transparency of Trace Points

What a trace point leaves unchanged in every state the code generator can reach. The live
registers are those of the dedicated values, of the variables, and of elements of the compiler
stack; the live slots are those of elements and locals, the return address, and what belongs
to the callers.

The registers that the handler needs are saved at fixed offsets from the new end of the frame.
Both backends make the frame larger by less than the largest offset, so that the last saved
registers may lie in the old part of the frame.

## Main results

* `X86_64.transparent_iff`, `AArch64.transparent_iff`: a trace point is transparent exactly if
  no slot that registers are saved in is live.
* `X86_64.saveAreaOverlaps_iff`, `AArch64.saveAreaOverlaps_iff`: the slots in question, if the
  frame is aligned.
* `tracePoint_transparent_iff`: both backends.
-/

namespace WasmCompiler

open ForwardCode (run execAll Passes Traps)

variable {TReg : Type} [DecidableEq TReg]

/-! ### Live values -/

/-- The registers that hold a live value. -/
inductive LiveRegister (dedicated : List TReg) (ctx : FrameContext TReg)
    (st : CompilerState TReg) : TReg → Prop
  | dedicated {r : TReg} : r ∈ dedicated → LiveRegister dedicated ctx st r
  | scratch {r : TReg} : st.unreferenced r = false → LiveRegister dedicated ctx st r
  | variable_ {r : TReg} {v : Reference TReg} : variableIn ctx r = some v →
      LiveRegister dedicated ctx st r

/-- The slots that hold a live value. The slots of callers are at positions that are not above
zero, as signed numbers. -/
inductive LiveSlot (ctx : FrameContext TReg) (st : CompilerState TReg) : UInt32 → Prop
  | element {e : LocatedElement TReg} {p : UInt32} : e ∈ st.stack →
      e.stackFramePosition? = some p → LiveSlot ctx st p
  | local_ {s : VariableStorage TReg} {p : UInt32} : s ∈ ctx.localDefs →
      s.location = .stackMemory p → LiveSlot ctx st p
  | returnAddress {p : UInt32} : p ≤ ctx.fixedStackFrameWidth →
      p ≤ ctx.paramWidth + ctx.returnAddrWidth → LiveSlot ctx st p
  | caller {p : UInt32} : 0x80000000 ≤ p → LiveSlot ctx st p

/-- The cells that hold a live value. -/
def LiveCell (dedicated : List TReg) (ctx : FrameContext TReg) (st : CompilerState TReg) :
    Cell TReg → Prop
  | .register r => LiveRegister dedicated ctx st r
  | .stackMemory p => LiveSlot ctx st p
  | .linkData _ => True

/-- The state without the identifier. -/
def CompilerState.dropIdentifier (st : CompilerState TReg) : CompilerState TReg :=
  { st with stack := st.stack.dropLast }

/-- The code of a trace point leaves all live values and the stack pointer unchanged. -/
def TracePointTransparent (handler : List (HandlerInstr TReg)) (dedicated : List TReg)
    (ctx : FrameContext TReg) (st : CompilerState TReg)
    (prepared : TracingMachine TReg → Prop) (code : List (TraceInstr TReg)) : Prop :=
  ∀ m m', m.stackPointer = st.stackFrameSize → prepared m →
    run (TraceInstr.exec handler) 0 code m = .ok m' →
    m'.stackPointer = m.stackPointer ∧
      ∀ c, LiveCell dedicated ctx st.dropIdentifier c → m'.cells c = m.cells c

/-- A slot that a register is saved in is live. -/
def SaveAreaOverlaps (ctx : FrameContext TReg) (st : CompilerState TReg)
    (saved : List (UInt32 × TReg)) (newStackFrameSize : UInt32) : Prop :=
  ∃ s ∈ saved, LiveSlot ctx st (newStackFrameSize - s.1)

omit [DecidableEq TReg] in
/-- A live slot is in the frame or belongs to a caller. -/
theorem LiveSlot.le {ctx : FrameContext TReg} {st : CompilerState TReg} {p : UInt32}
    (h : LiveSlot ctx st p) (hst : st.WellFormed ctx) :
    p ≤ st.stackFrameSize ∨ 0x80000000 ≤ p := by
  have hmin := hst.minimal_le
  have hfixed := ctx.fixed_le_minimal
  cases h with
  | @element e p he hp =>
      cases e with
      | tempResult storage =>
          obtain ⟨mt, loc⟩ := storage
          have hfits := hst.fits _ he
          cases loc with
          | stackMemory q =>
              obtain rfl : q = p := Option.some.inj hp
              exact .inl hfits.2
          | _ => cases hp
      | _ => cases hp
  | @local_ s p hs hp =>
      have hfits := ctx.localDefs_fixed s hs
      simp only [FixedStorage, hp] at hfits
      exact .inl (by grind)
  | returnAddress hle _ => exact .inl (by grind)
  | caller hle => exact .inr hle

omit [DecidableEq TReg] in
/-- Without the identifier the state is still well formed. -/
theorem CompilerState.WellFormed.dropIdentifier {ctx : FrameContext TReg}
    {st : CompilerState TReg} (h : st.WellFormed ctx) : st.dropIdentifier.WellFormed ctx where
  minimal_le := h.minimal_le
  le_max := h.le_max
  fits e he := h.fits e (List.dropLast_subset _ he)
  one_type r t t' ht ht' := h.one_type r t t' (List.dropLast_subset _ ht)
    (List.dropLast_subset _ ht')
  below e he := by
    refine h.below e ?_
    simp only [CompilerState.dropIdentifier, List.dropLast_eq_take, List.take_take] at he
    exact List.take_subset_take_left _ (by omega) he

/-- A register that an element refers to is a scratch register. -/
theorem mem_of_referenced {ctx : FrameContext TReg} {st : CompilerState TReg}
    (hst : st.WellFormed ctx) {r : TReg} (h : st.unreferenced r = false) :
    r ∈ ctx.gpr ∨ r ∈ ctx.fpr := by
  simp only [CompilerState.unreferenced, List.all_eq_false, decide_eq_true_eq, not_not] at h
  obtain ⟨e, he, hreference⟩ := h
  obtain ⟨machineType, rfl⟩ := LocatedElement.eq_of_reference? hreference
  exact FrameContext.mem_of_allocable (hst.fits _ he)

omit [DecidableEq TReg] in
/-- The register of a variable is a register of the calling convention. -/
theorem CompiledFunction.mem_of_register? {f : CompiledFunction TReg}
    {v : StaticRegisters.Variable} {r : TReg} (h : f.regs.register? f.abi v = some r) :
    r ∈ f.abi.gpr ∨ r ∈ f.abi.fpr := by
  cases v with
  | local_ localIdx =>
      rcases f.regs_valid.local_given h with ⟨k, -, hk⟩ | ⟨k, -, hk⟩
      · exact .inl (List.mem_of_getElem? hk)
      · exact .inr (List.mem_of_getElem? hk)
  | global =>
      simp only [StaticRegisters.register?, StaticRegisters.globalReg?] at h
      split at h
      · cases h
      · exact .inl (List.mem_of_getElem? h)

/-- A live register that is not dedicated is a register of the calling convention; if it is a
scratch register, an element refers to it. -/
theorem LiveRegister.cases_of_describes {f : CompiledFunction TReg} {ctx : FrameContext TReg}
    {st : CompilerState TReg} {dedicated : List TReg} {r : TReg}
    (h : LiveRegister dedicated ctx st r) (hdescribes : f.Describes ctx)
    (hst : st.WellFormed ctx) :
    r ∈ dedicated ∨
      (r ∈ f.abi.gpr ∨ r ∈ f.abi.fpr) ∧ (r ∈ ctx.gpr → st.unreferenced r = false) := by
  cases h with
  | dedicated h => exact .inl h
  | scratch h => exact .inr ⟨hdescribes.mem_abi (mem_of_referenced hst h), fun _ => h⟩
  | variable_ h =>
      refine .inr ⟨?_, fun hr => absurd hr (not_mem_of_variableIn h).1⟩
      rcases variableIn_cases h with ⟨localIdx, -, hloc⟩ | ⟨globalIdx, -, hloc⟩
      · exact f.mem_of_register? (hdescribes.locals localIdx r hloc)
      · exact f.mem_of_register? (hdescribes.globals globalIdx r hloc).2

/-! ### Aligned frames -/

/-- The lower bits of a sum with a multiple of sixteen. -/
theorem add_and_mask {value : UInt32} (h : value &&& 15 = 0) (x : UInt32) :
    (value + x) &&& 15 = x &&& 15 := by
  have hnat : ∀ y : UInt32, (y &&& 15).toNat = y.toNat % 16 := fun y =>
    (UInt32.toNat_and y 15).trans (Nat.and_two_pow_sub_one_eq_mod y.toNat 4)
  have hvalue : value.toNat % 16 = 0 := by rw [← hnat, h]; rfl
  refine UInt32.toNat_inj.mp ?_
  rw [hnat, hnat, UInt32.toNat_add]
  omega

/-- Rounding up a sum with a multiple of sixteen. -/
theorem roundUpToPow2_add {value : UInt32} (h : value &&& 15 = 0) (x : UInt32) :
    roundUpToPow2 (value + x) 4 = value + roundUpToPow2 x 4 := by
  have hmask : ((1 : UInt32) <<< 4) - 1 = 15 := by decide
  have hsum : value + x + 16 = value + (x + 16) := by grind
  have hhigh : ∀ y : UInt32, (y &&& ~~~15) = y - (y &&& 15) := by
    intro y
    have hsplit := and_not_add_and y 15
    grind
  simp only [roundUpToPow2, hmask, show (15 : UInt32) + 1 = 16 by decide, hsum, hhigh,
    add_and_mask h]
  split <;> grind

/-- The frame has a size that aligning does not change. -/
def AlignedFrame (ctx : FrameContext TReg) (st : CompilerState TReg) : Prop :=
  (st.stackFrameSize - ctx.paramWidth) &&& 15 = 0

omit [DecidableEq TReg] in
/-- Aligning a sum, if the frame is aligned. -/
theorem AlignedFrame.alignStackFrameSize_add {ctx : FrameContext TReg} {st : CompilerState TReg}
    (h : AlignedFrame ctx st) (x : UInt32) :
    ctx.alignStackFrameSize (st.stackFrameSize + x) = st.stackFrameSize + roundUpToPow2 x 4 := by
  have hsub : st.stackFrameSize + x - ctx.paramWidth =
      (st.stackFrameSize - ctx.paramWidth) + x := by grind
  rw [FrameContext.alignStackFrameSize, hsub, roundUpToPow2_add h]
  grind

omit [DecidableEq TReg] in
/-- No slot above the end of the frame is live. -/
theorem not_liveSlot_add {ctx : FrameContext TReg} {st : CompilerState TReg}
    (hst : st.WellFormed ctx) {x : UInt32} (hpos : 0 < x) (hle : x ≤ 64) :
    ¬ LiveSlot ctx st (st.stackFrameSize + x) := by
  intro hlive
  have hmax : st.stackFrameSize ≤ 0x800000 := hst.le_max
  rcases hlive.le hst with h | h
  · grind
  · grind

/-! ### x86-64 -/

namespace X86_64

variable {cfg : BackendConfig} (handler : List (HandlerInstr REG))

/-- The check of the stack fence continues or traps. -/
theorem passes_checkStackFence (m : TracingMachine REG) :
    (∃ m', Passes (TraceInstr.exec handler) checkStackFence m m' ∧
        m.Resized m.stackPointer m') ∨
      (m.stackFence ≠ 0 ∧
        Traps (TraceInstr.exec handler) checkStackFence m .stackFenceBreached) := by
  by_cases hbelow : m.stackPointerAddress < m.stackFence
  · refine .inr ⟨?_, fun code => ?_⟩
    · rintro hzero
      rw [hzero] at hbelow
      exact BitVec.not_lt_zero hbelow
    · simp [checkStackFence, run, TraceInstr.exec, TracingMachine.compare, hbelow]
  · refine .inl ⟨m.compare m.stackPointerAddress m.stackFence, fun code => ?_,
      rfl, rfl, rfl, rfl⟩
    simp [checkStackFence, run, TraceInstr.exec, TracingMachine.compare, hbelow]

/-- The frame size is changed, unless the stack fence is breached. -/
theorem passes_updateStackFrameSizeHelper {st st' : CompilerState REG}
    {checked checked' newSize : UInt32} {code : List (TraceInstr REG)}
    (h : updateStackFrameSizeHelper cfg st checked newSize = some (st', checked', code)) :
    st' = { st with stackFrameSize := newSize } ∧
      ∀ m : TracingMachine REG, m.stackPointer = st.stackFrameSize →
        (∃ m', Passes (TraceInstr.exec handler) code m m' ∧ m.Resized newSize m') ∨
          (m.stackFence ≠ 0 ∧ ∃ t, Traps (TraceInstr.exec handler) code m t) := by
  rw [updateStackFrameSizeHelper, Option.map_eq_some_iff] at h
  obtain ⟨⟨st1, resize⟩, hset, h⟩ := h
  obtain ⟨hst1, hresize⟩ := passes_setStackFrameSize handler hset
  simp only at h
  split at h
  · obtain ⟨rfl, hrest⟩ := Prod.mk.inj h
    obtain ⟨-, rfl⟩ := Prod.mk.inj hrest
    refine ⟨hst1, fun m hm => ?_⟩
    obtain ⟨m1, hpass, hresized⟩ := hresize m hm
    rcases passes_checkStackFence handler m1 with ⟨m2, hcheck, hsame⟩ | ⟨hfence, htrap⟩
    · refine .inl ⟨m2, hpass.append hcheck, hsame.cells.trans hresized.cells,
        hsame.stackPointer.trans hresized.stackPointer, hsame.stackFence.trans hresized.stackFence,
        hsame.actualLinMemByteSize.trans hresized.actualLinMemByteSize⟩
    · exact .inr ⟨hresized.stackFence ▸ hfence, _, hpass.append_traps htrap⟩
  · obtain ⟨rfl, hrest⟩ := Prod.mk.inj h
    obtain ⟨-, rfl⟩ := Prod.mk.inj hrest
    exact ⟨hst1, fun m hm => .inl (hresize m hm)⟩

/-- The saved registers are those of the three that elements refer to. -/
theorem savedRegs_snd (st : CompilerState REG) :
    (savedRegs st).map Prod.snd = [REG.A, .D, .C].filter fun r => !st.unreferenced r := by
  cases hA : st.unreferenced .A <;> cases hD : st.unreferenced .D <;>
    cases hC : st.unreferenced .C <;> simp [savedRegs, hA, hD, hC]

/-- The offsets are different, and at most 24. -/
theorem savedRegs_fst (st : CompilerState REG) :
    (savedRegs st).map Prod.fst <+: [8, 16, 24] := by
  rw [savedRegs]
  split
  · exact ⟨[8, 16, 24], rfl⟩
  · exact ⟨[16, 24], rfl⟩
  · exact ⟨[24], rfl⟩
  · exact ⟨[], rfl⟩

/-- The call writes the slot of the return address and the registers of the handler. -/
theorem exec_call (returnAddress : Word) (m : TracingMachine REG) :
    ∃ m', TraceInstr.exec builtinTracePointHandler (.call returnAddress) m = (.next, m') ∧
      m.Leaves (fun c => c = .stackMemory (m.stackPointer + 8) ∨ OfRegs [.A, .D, .C] c) m' := by
  obtain ⟨m', hrun, hleaves⟩ := HandlerInstr.run_leaves
    (show ∀ i ∈ builtinTracePointHandler, ∀ r ∈ i.writes, r ∈ [REG.A, .D, .C] by decide)
    (m.setCell (.stackMemory (m.stackPointer + 8)) returnAddress)
  refine ⟨m', by simp [TraceInstr.exec, hrun], ?_⟩
  exact .trans ((TracingMachine.Leaves.setCell m _ _).mono fun c hc => .inl hc)
    (hleaves.mono fun c hc => .inr hc)

/-- The size of the frame while the handler runs. -/
def tracingFrameSize (ctx : FrameContext REG) (st : CompilerState REG) : UInt32 :=
  ctx.alignStackFrameSize (st.stackFrameSize + 8 * UInt32.ofNat (savedRegs st).length)

/-- What a trace point does that runs to its end: saved registers and the slots they are saved
in have what the registers had, and few other cells are written. -/
structure Traced (ctx : FrameContext REG) (st : CompilerState REG)
    (m m' : TracingMachine REG) : Prop where
  stackPointer : m'.stackPointer = m.stackPointer
  restored : ∀ s ∈ savedRegs st, m'.reg s.2 = m.reg s.2
  slots : ∀ s ∈ savedRegs st,
    m'.cells (.stackMemory (tracingFrameSize ctx st - s.1)) = m.reg s.2
  others : ∀ c, c ≠ .stackMemory (tracingFrameSize ctx st + 8) →
    ¬ SavedIn (tracingFrameSize ctx st) (savedRegs st) c →
    ¬ OfRegs [.A, .D, .C, moveHelper] c → m'.cells c = m.cells c

/-- A saved register is one of the three. -/
theorem mem_of_mem_savedRegs {st : CompilerState REG} {s : UInt32 × REG}
    (hs : s ∈ savedRegs st) : s.1 ∈ [8, 16, 24] ∧ s.2 ∈ [REG.A, .D, .C] := by
  refine ⟨(savedRegs_fst st).subset (List.mem_map_of_mem hs), ?_⟩
  have hmem := List.mem_map_of_mem (f := Prod.snd) hs
  rw [savedRegs_snd] at hmem
  exact List.mem_of_mem_filter hmem

/-- The frame is made larger, by not too much. -/
theorem tracingFrameSize_bounds {ctx : FrameContext REG} {st : CompilerState REG}
    (hst : st.WellFormed ctx) :
    st.stackFrameSize ≤ tracingFrameSize ctx st ∧ tracingFrameSize ctx st ≤ 0x800040 := by
  have hmin := hst.minimal_le
  have hmax : st.stackFrameSize ≤ 0x800000 := hst.le_max
  have hfixed := ctx.fixed_le_minimal
  have hparam := ctx.paramWidth_le
  have hsaved : UInt32.ofNat (savedRegs st).length ≤ 3 := by
    have hlength := (savedRegs_fst st).length_le
    rw [List.length_map] at hlength
    generalize (savedRegs st).length = n at hlength
    simp only [List.length_cons, List.length_nil] at hlength
    interval_cases n <;> decide
  rw [tracingFrameSize]
  generalize UInt32.ofNat (savedRegs st).length = n at hsaved
  obtain ⟨hle, hge⟩ := ctx.le_alignStackFrameSize
    (show ctx.paramWidth ≤ st.stackFrameSize + 8 * n by grind) (by grind)
  generalize ctx.alignStackFrameSize (st.stackFrameSize + 8 * n) = new at hle hge
  exact ⟨by grind, by grind⟩

/-- The code of a trace point runs to its end, unless the stack fence is breached. -/
theorem run_emitTracePoint {ctx : FrameContext REG} {st : CompilerState REG}
    {checked : UInt32} {returnAddress : Word} {code : List (TraceInstr REG)}
    (hemit : emitTracePoint cfg ctx st checked returnAddress = some code)
    (m : TracingMachine REG) (hm : m.stackPointer = st.stackFrameSize) :
    (m.stackFence ≠ 0 ∧
        ∃ t, run (TraceInstr.exec builtinTracePointHandler) 0 code m = .error t) ∨
      ∃ m', run (TraceInstr.exec builtinTracePointHandler) 0 code m = .ok m' ∧
        Traced ctx st.dropIdentifier m m' := by
  simp only [emitTracePoint, Option.bind_eq_bind, Option.bind_eq_some_iff, Option.pure_def,
    Option.some.injEq] at hemit
  obtain ⟨element, -, identifier, hidentifier, ⟨st1, checked1, grow⟩, hgrow,
    ⟨st2, checked2, shrink⟩, hshrink, rfl⟩ := hemit
  obtain ⟨rfl, hgrows⟩ := passes_updateStackFrameSizeHelper builtinTracePointHandler
    hgrow
  obtain ⟨-, hshrinks⟩ := passes_updateStackFrameSizeHelper builtinTracePointHandler
    hshrink
  obtain ⟨m1, hpass1, hleaves1⟩ := passes_emitIdentifier builtinTracePointHandler
    hidentifier m hm
  have hsp1 : m1.stackPointer = st.stackFrameSize := hleaves1.stackPointer.trans hm
  rcases hgrows m1 hsp1 with ⟨m2, hpass2, hresized2⟩ | ⟨hfence, t, htrap⟩
  · have hsp2 : m2.stackPointer = tracingFrameSize ctx st.dropIdentifier := hresized2.stackPointer
    obtain ⟨m3, hpass3, hframed⟩ := passes_savedCall (m := m2) builtinTracePointHandler
      (savedRegs st.dropIdentifier) (savedRegs st.dropIdentifier).reverse (.call returnAddress)
      (fun c => c = .stackMemory (m2.stackPointer + 8) ∨ OfRegs [.A, .D, .C] c)
      ((savedRegs_fst _).sublist.nodup (by decide))
      (by
        rw [List.map_reverse, List.nodup_reverse, savedRegs_snd]
        exact List.Nodup.filter _ (by decide))
      (fun s => List.mem_reverse)
      (fun s hs => hs ▸ exec_call returnAddress s)
      (by
        rintro s hs (heq | ⟨r, -, heq⟩)
        · have hoffset := (mem_of_mem_savedRegs hs).1
          have hsub := Cell.stackMemory.inj heq
          simp only [List.mem_cons, List.not_mem_nil, or_false] at hoffset
          rcases hoffset with h | h | h <;> rw [h] at hsub <;> grind
        · cases heq)
    have hsp3 : m3.stackPointer = tracingFrameSize ctx st.dropIdentifier :=
      hframed.leaves.stackPointer.trans hsp2
    have hfence3 : m3.stackFence = m.stackFence :=
      hframed.leaves.stackFence.trans (hresized2.stackFence.trans hleaves1.stackFence)
    have hbefore : ∀ c, c ≠ .register moveHelper → m2.cells c = m.cells c := by
      intro c hc
      rw [hresized2.cells]
      refine hleaves1.cells c ?_
      rintro ⟨r, hr, rfl⟩
      exact hc (by rw [List.mem_singleton.mp hr])
    have hsource : ∀ s ∈ savedRegs st.dropIdentifier, m2.reg s.2 = m.reg s.2 := by
      intro s hs
      refine hbefore _ fun heq => ?_
      have hmem := (mem_of_mem_savedRegs hs).2
      rw [Cell.register.inj heq] at hmem
      exact absurd hmem (by decide)
    rcases hshrinks m3 hsp3 with ⟨m4, hpass4, hresized4⟩ | ⟨hfence, t, htrap⟩
    · refine .inr ⟨m4, ?_, hresized4.stackPointer.trans hm.symm, fun s hs => ?_, fun s hs => ?_,
        fun c hpushed hslot hreg => ?_⟩
      · exact (hpass1.append (hpass2.append (hpass3.append hpass4))).run_eq
      · exact (congrFun hresized4.cells _).trans ((hframed.restored s hs).trans (hsource s hs))
      · rw [hresized4.cells, ← hsp2, hframed.slots s hs]
        exact hsource s hs
      · rw [hresized4.cells, hframed.leaves.cells c ?_]
        · exact hbefore c fun heq => hreg ⟨moveHelper, by decide, heq⟩
        · rintro ((heq | ⟨r, hr, heq⟩) | hsaved | ⟨r, hr, heq⟩)
          · exact hpushed (hsp2 ▸ heq)
          · exact hreg ⟨r, List.mem_append_left [moveHelper] hr, heq⟩
          · exact hslot (hsp2 ▸ hsaved)
          · obtain ⟨s, hs, rfl⟩ := List.mem_map.mp hr
            exact hreg ⟨s.2, List.mem_append_left [moveHelper] (mem_of_mem_savedRegs hs).2, heq⟩
    · refine .inl ⟨hfence3 ▸ hfence, t, ?_⟩
      exact (hpass1.append_traps (hpass2.append_traps (hpass3.append_traps htrap))).run_eq
  · refine .inl ⟨hleaves1.stackFence ▸ hfence, t, ?_⟩
    exact (hpass1.append_traps (htrap.append _)).run_eq

/-- The dedicated registers. -/
def dedicatedRegs (cfg : BackendConfig) : List REG :=
  if cfg.linearMemoryBoundsChecks then [linMem, memSize] else [linMem]

variable {f : CompiledFunction REG} {ctx : FrameContext REG} {st : CompilerState REG}

/-- A live register is saved, or it is none of those that the code writes. -/
theorem saved_of_live (habi : f.abi = wasmABI cfg.linearMemoryBoundsChecks)
    (hdescribes : f.Describes ctx) (hst : st.WellFormed ctx) {r : REG}
    (h : LiveRegister (dedicatedRegs cfg) ctx st r) :
    (∃ s ∈ savedRegs st, s.2 = r) ∨ r ∉ [REG.A, .D, .C, moveHelper] := by
  rcases h.cases_of_describes hdescribes hst with hded | ⟨habi', hscratch⟩
  · refine .inr fun hr => ?_
    revert hded hr
    rw [dedicatedRegs]
    split <;> cases r <;> decide
  · rw [habi] at habi'
    have hne := dedicated_not_mem cfg.linearMemoryBoundsChecks habi'
    by_cases hr : r ∈ [REG.A, .D, .C]
    · have hgpr : r ∈ ctx.gpr := by
        refine hdescribes.reserved_mem ?_
        rw [habi]
        change r ∈ (gpr cfg.linearMemoryBoundsChecks).drop
          ((gpr cfg.linearMemoryBoundsChecks).length - 4)
        rw [drop_gpr]
        exact List.mem_append_left [REG.R8] hr
      have hmem : r ∈ (savedRegs st).map Prod.snd := by
        rw [savedRegs_snd, List.mem_filter]
        exact ⟨hr, by simp [hscratch hgpr]⟩
      obtain ⟨s, hs, rfl⟩ := List.mem_map.mp hmem
      exact .inl ⟨s, hs, rfl⟩
    · refine .inr fun hr' => ?_
      rcases List.mem_append.mp (show r ∈ [REG.A, .D, .C] ++ [moveHelper] from hr') with h | h
      · exact hr h
      · exact hne.2.1 (List.mem_singleton.mp h)

/-- **Transparency of trace points on x86-64**: exactly if no slot that registers are saved in
is live. -/
theorem transparent_iff (habi : f.abi = wasmABI cfg.linearMemoryBoundsChecks)
    (hreach : Reachable f ctx st) {checked : UInt32} {returnAddress : Word}
    {code : List (TraceInstr REG)}
    (hemit : emitTracePoint cfg ctx st checked returnAddress = some code) :
    TracePointTransparent builtinTracePointHandler (dedicatedRegs cfg) ctx st (fun _ => True)
        code ↔
      ¬ SaveAreaOverlaps ctx st.dropIdentifier (savedRegs st.dropIdentifier)
        (tracingFrameSize ctx st.dropIdentifier) := by
  obtain ⟨hdescribes, hwellFormed, -⟩ := hreach.compiling
  have hst := hwellFormed.dropIdentifier
  constructor
  · rintro htransparent ⟨s, hs, hlive⟩
    -- every register holds one, every slot two
    let m : TracingMachine REG :=
      { cells := fun | .register _ => 1 | _ => 2
        stackPointer := st.stackFrameSize
        linMemWasmSize := 0
        flags := .unset
        zero := false
        below := false
        spillRegion := 0
        actualLinMemByteSize := 0
        stackFence := 0
        traceBufferPtr := 0
        frameBaseAddress := 0
        hostMemory := fun _ => 0
        timeStampCounter := 0 }
    rcases run_emitTracePoint hemit m rfl with ⟨hfence, -⟩ | ⟨m', hrun, htraced⟩
    · exact hfence rfl
    · have hkept := (htransparent m m' rfl trivial hrun).2 (.stackMemory _) hlive
      rw [htraced.slots s hs] at hkept
      exact absurd (show (1 : Word) = 2 from hkept) (by decide)
  · intro hoverlaps m m' hm _ hrun
    rcases run_emitTracePoint hemit m hm with ⟨-, t, htrap⟩ | ⟨m'', hrun', htraced⟩
    · rw [hrun] at htrap
      cases htrap
    · obtain rfl := Except.ok.inj (hrun.symm.trans hrun')
      refine ⟨htraced.stackPointer, fun c hc => ?_⟩
      cases c with
      | register r =>
          rcases saved_of_live habi hdescribes hst hc with ⟨s, hs, rfl⟩ | hr
          · exact htraced.restored s hs
          · refine htraced.others _ (fun heq => by cases heq) ?_ ?_
            · rintro ⟨s, -, heq⟩
              cases heq
            · rintro ⟨r', hr', heq⟩
              exact hr (Cell.register.inj heq ▸ hr')
      | linkData offset =>
          refine htraced.others _ (fun heq => by cases heq) ?_ ?_
          · rintro ⟨s, -, heq⟩
            cases heq
          · rintro ⟨r', -, heq⟩
            cases heq
      | stackMemory p =>
          refine htraced.others _ (fun heq => ?_) ?_ ?_
          · obtain rfl := Cell.stackMemory.inj heq
            have hlive := LiveSlot.le hc hst
            obtain ⟨hle, hge⟩ := tracingFrameSize_bounds hst
            generalize tracingFrameSize ctx st.dropIdentifier = new at hlive hle hge
            grind
          · rintro ⟨s, hs, heq⟩
            exact hoverlaps ⟨s, hs, Cell.stackMemory.inj heq ▸ hc⟩
          · rintro ⟨r', -, heq⟩
            cases heq

/-- **In an aligned frame** a saved register overlaps a live slot exactly if two of the three
registers are live and the slot at the end of the frame is. -/
theorem saveAreaOverlaps_iff (hst : st.WellFormed ctx) (haligned : AlignedFrame ctx st) :
    SaveAreaOverlaps ctx st (savedRegs st) (tracingFrameSize ctx st) ↔
      ([REG.A, .D, .C].filter fun r => !st.unreferenced r).length = 2 ∧
        LiveSlot ctx st st.stackFrameSize := by
  have habove := fun x => not_liveSlot_add (x := x) hst
  have hsub : ∀ x y : UInt32, st.stackFrameSize + x - y = st.stackFrameSize + (x - y) := by
    intro x y
    grind
  have hlength : (savedRegs st).length =
      ([REG.A, .D, .C].filter fun r => !st.unreferenced r).length := by
    rw [← savedRegs_snd, List.length_map]
  have hthree := List.length_filter_le (fun r => !st.unreferenced r) [REG.A, .D, .C]
  have hround8 : roundUpToPow2 8 4 = 16 := by decide
  have hround16 : roundUpToPow2 16 4 = 16 := by decide
  have hround24 : roundUpToPow2 24 4 = 32 := by decide
  rw [SaveAreaOverlaps, tracingFrameSize, haligned.alignStackFrameSize_add, hlength, savedRegs]
  rcases hregs : [REG.A, .D, .C].filter fun r => !st.unreferenced r with
    _ | ⟨r1, _ | ⟨r2, _ | ⟨r3, _ | ⟨r4, rest⟩⟩⟩⟩
  · simp
  · have h8 := habove 8 (by decide) (by decide)
    simp [hround8, hsub, h8]
  · have h8 := habove 8 (by decide) (by decide)
    simp [hround16, hsub, h8]
  · have h8 := habove 8 (by decide) (by decide)
    have h16 := habove 16 (by decide) (by decide)
    have h24 := habove 24 (by decide) (by decide)
    simp [hround24, hsub, h8, h16, h24]
  · rw [hregs] at hthree
    simp at hthree
    omega

end X86_64

/-! ### AArch64 -/

namespace AArch64

variable {cfg : BackendConfig}

/-- The registers that hold no value and may be used for the check of the stack fence. -/
def FreeRegister (ctx : FrameContext REG) (st : CompilerState REG) (c : Cell REG) : Prop :=
  ∃ r, c = .register r ∧ r ∈ ctx.gpr ∧ st.unreferenced r = true

section Passes

variable (cfg) (handler : List (HandlerInstr REG))

/-- The check of the stack fence continues or traps; the scratch register has the fence. -/
theorem passes_checkStackFenceWith (scratchReg : REG) (m : TracingMachine REG) :
    (∃ m', Passes (TraceInstr.exec handler) (checkStackFenceWith scratchReg) m m' ∧
        m.Leaves (OfRegs [scratchReg]) m' ∧ m'.spillRegion = m.spillRegion ∧
        m'.reg scratchReg = m.stackFence) ∨
      (m.stackFence ≠ 0 ∧
        Traps (TraceInstr.exec handler) (checkStackFenceWith scratchReg) m
          .stackFenceBreached) := by
  have haddress : (m.setReg64 scratchReg m.stackFence).stackPointerAddress =
      m.stackPointerAddress := rfl
  by_cases hbelow : m.stackPointerAddress < m.stackFence
  · refine .inr ⟨?_, fun code => ?_⟩
    · rintro hzero
      rw [hzero] at hbelow
      exact BitVec.not_lt_zero hbelow
    · simp [checkStackFenceWith, run, TraceInstr.exec, TracingMachine.compare, haddress, hbelow]
  · have hleaves := TracingMachine.Leaves.setReg64 m scratchReg m.stackFence
    refine .inl ⟨(m.setReg64 scratchReg m.stackFence).compare m.stackPointerAddress m.stackFence,
      fun code => ?_, ⟨hleaves.1, hleaves.2, hleaves.3, hleaves.4, hleaves.5⟩, rfl,
      m.reg_setReg64 scratchReg _⟩
    simp [checkStackFenceWith, run, TraceInstr.exec, TracingMachine.compare, haddress, hbelow]

/-- The check of the stack fence writes free registers only, with the fence. -/
theorem passes_checkStackFence (ctx : FrameContext REG) (st : CompilerState REG)
    (checked newSize : UInt32) (protRegs : RegMask REG) (m : TracingMachine REG) :
    (∃ m', Passes (TraceInstr.exec handler) (checkStackFence cfg ctx st checked newSize protRegs)
          m m' ∧
        m.Leaves (FreeRegister ctx st) m' ∧
        ∀ c, m'.cells c = m.cells c ∨ m'.cells c = m.stackFence) ∨
      (m.stackFence ≠ 0 ∧ ∃ t,
        Traps (TraceInstr.exec handler) (checkStackFence cfg ctx st checked newSize protRegs)
          m t) := by
  rw [checkStackFence]
  split
  · cases hfree : reqFreeScratchRegProt ctx st .i32 protRegs with
    | some scratchReg =>
        obtain ⟨hmem, -, hunref⟩ := reqFreeScratchRegProt_spec hfree
        rcases passes_checkStackFenceWith handler scratchReg m with
          ⟨m', hpass, hleaves, -, hreg⟩ | ⟨hfence, htrap⟩
        · refine .inl ⟨m', hpass, hleaves.mono ?_, fun c => ?_⟩
          · rintro c ⟨r, hr, rfl⟩
            obtain rfl := List.mem_singleton.mp hr
            exact ⟨r, rfl, hmem, hunref⟩
          · by_cases hc : c = .register scratchReg
            · exact .inr (hc ▸ hreg)
            · refine .inl (hleaves.cells c ?_)
              rintro ⟨r, hr, rfl⟩
              exact hc (by rw [List.mem_singleton.mp hr])
        · exact .inr ⟨hfence, _, htrap⟩
    | none =>
        have hstore : Passes (TraceInstr.exec handler) [.storeSpillRegion REG.R9] m
            { m with spillRegion := m.reg .R9 } := ForwardCode.passes_singleton rfl
        rcases passes_checkStackFenceWith handler .R9
          { m with spillRegion := m.reg .R9 } with
          ⟨m', hpass, hleaves, hspill, hreg⟩ | ⟨hfence, htrap⟩
        · have hload : Passes (TraceInstr.exec handler) [.loadSpillRegion REG.R9] m'
              (m'.setReg64 .R9 m'.spillRegion) := ForwardCode.passes_singleton rfl
          have hcells : ∀ c, (m'.setReg64 .R9 m'.spillRegion).cells c = m.cells c := by
            intro c
            by_cases hc : c = .register .R9
            · rw [hc, hspill]
              exact m'.reg_setReg64 .R9 _
            · refine (Function.update_of_ne hc _ _).trans (hleaves.cells c ?_)
              rintro ⟨r, hr, rfl⟩
              exact hc (by rw [List.mem_singleton.mp hr])
          exact .inl ⟨_, hstore.append (hpass.append hload),
            ⟨fun c _ => hcells c, hleaves.2, hleaves.3, hleaves.4, hleaves.5⟩,
            fun c => .inl (hcells c)⟩
        · exact .inr ⟨hfence, _, hstore.append_traps (htrap.append _)⟩
  · exact .inl ⟨m, fun _ => rfl, .refl _ m, fun _ => .inl rfl⟩

/-- The dedicated register is set up again. -/
theorem passes_recoverTempGPRs (m : TracingMachine REG) :
    ∃ m', Passes (TraceInstr.exec handler) (recoverTempGPRs cfg) m m' ∧
      m.Leaves (OfRegs [memSize]) m' ∧
      (cfg.linearMemoryBoundsChecks = true →
        m'.reg memSize = m.actualLinMemByteSize.setWidth 64 - 8) := by
  rw [recoverTempGPRs]
  split
  · have hload := ForwardCode.passes_singleton
      (show TraceInstr.exec handler (.loadActualLinMemByteSize memSize) m = (.next, _) from rfl)
    refine ⟨_, hload.append (ForwardCode.passes_singleton rfl),
      .trans (.setReg64 m memSize _) (.setReg64 _ memSize _), fun _ => ?_⟩
    simp [TracingMachine.setReg32]
  · case _ hchecks => exact ⟨m, fun _ => rfl, .refl _ m, fun h => absurd h hchecks⟩

end Passes

/-- The call writes the link register and the registers of the handler. -/
theorem exec_branchLink (returnAddress : Word) (m : TracingMachine REG) :
    ∃ m', TraceInstr.exec builtinTracePointHandler (.branchLink .LR returnAddress) m =
        (.next, m') ∧
      m.Leaves (OfRegs [tmpReg1, tmpReg2, tmpReg3, .LR]) m' := by
  obtain ⟨m', hrun, hleaves⟩ := HandlerInstr.run_leaves
    (show ∀ i ∈ builtinTracePointHandler, ∀ r ∈ i.writes, r ∈ [tmpReg1, tmpReg2, tmpReg3]
      by decide)
    (m.setReg64 .LR returnAddress)
  refine ⟨m', by simp [TraceInstr.exec, hrun], ?_⟩
  refine .trans ((TracingMachine.Leaves.setReg64 m .LR _).mono ?_) (hleaves.mono ?_)
  · rintro c ⟨r, hr, rfl⟩
    exact ⟨r, List.mem_append_right [tmpReg1, tmpReg2, tmpReg3] hr, rfl⟩
  · rintro c ⟨r, hr, rfl⟩
    exact ⟨r, List.mem_append_left [REG.LR] hr, rfl⟩

/-- The registers are saved at different offsets. -/
theorem savedRegs_nodup (st : CompilerState REG) :
    ((savedRegs st).map Prod.fst).Nodup ∧ ((savedRegs st).map Prod.snd).Nodup := by
  rw [savedRegs]
  split <;> decide

/-- The saved registers are those of the handler and the link register. -/
theorem mem_of_mem_savedRegs {st : CompilerState REG} {s : UInt32 × REG}
    (hs : s ∈ savedRegs st) : s.2 ∈ [tmpReg1, tmpReg2, tmpReg3, .LR] := by
  have hmem := List.mem_map_of_mem (f := Prod.snd) hs
  revert hmem
  rw [savedRegs]
  split <;> cases s.2 <;> decide

/-- The size of the frame while the handler runs. -/
def tracingFrameSize (ctx : FrameContext REG) (st : CompilerState REG) : UInt32 :=
  ctx.alignStackFrameSize (st.stackFrameSize + 32)

/-- What a trace point does that runs to its end. A register is restored unless the stack
fence was loaded to it before it was saved. -/
structure Traced (cfg : BackendConfig) (ctx : FrameContext REG) (st : CompilerState REG)
    (m m' : TracingMachine REG) : Prop where
  stackPointer : m'.stackPointer = m.stackPointer
  restored : ∀ s ∈ savedRegs st, ¬ FreeRegister ctx st (.register s.2) →
    m'.reg s.2 = m.reg s.2
  slots : ∀ s ∈ savedRegs st,
    m'.cells (.stackMemory (tracingFrameSize ctx st - s.1)) = m.reg s.2 ∨
      m'.cells (.stackMemory (tracingFrameSize ctx st - s.1)) = m.stackFence
  memSize : cfg.linearMemoryBoundsChecks = true →
    m'.reg memSize = m.actualLinMemByteSize.setWidth 64 - 8
  others : ∀ c, ¬ SavedIn (tracingFrameSize ctx st) (savedRegs st) c → ¬ FreeRegister ctx st c →
    ¬ OfRegs [tmpReg1, tmpReg2, tmpReg3, .LR, tempGPR] c → m'.cells c = m.cells c

/-- The code of a trace point runs to its end, unless the stack fence is breached. -/
theorem run_emitTracePoint {ctx : FrameContext REG} {st : CompilerState REG}
    {checked : UInt32} {returnAddress : Word} {code : List (TraceInstr REG)}
    (hemit : emitTracePoint cfg ctx st checked returnAddress = some code)
    (m : TracingMachine REG) (hm : m.stackPointer = st.stackFrameSize) :
    (m.stackFence ≠ 0 ∧
        ∃ t, run (TraceInstr.exec builtinTracePointHandler) 0 code m = .error t) ∨
      ∃ m', run (TraceInstr.exec builtinTracePointHandler) 0 code m = .ok m' ∧
        Traced cfg ctx st.dropIdentifier m m' := by
  simp only [emitTracePoint, Option.bind_eq_bind, Option.bind_eq_some_iff, Option.pure_def,
    Option.some.injEq] at hemit
  obtain ⟨element, -, identifier, hidentifier, ⟨st1, grow⟩, hgrow, ⟨st2, shrink⟩, hshrink,
    rfl⟩ := hemit
  obtain ⟨rfl, hgrows⟩ := passes_setStackFrameSize builtinTracePointHandler hgrow
  obtain ⟨-, hshrinks⟩ := passes_setStackFrameSize builtinTracePointHandler hshrink
  obtain ⟨m1, hpass1, hleaves1⟩ := passes_emitIdentifier builtinTracePointHandler
    hidentifier m hm
  obtain ⟨m2, hpass2, hresized2⟩ := hgrows m1 (hleaves1.stackPointer.trans hm)
  have hsp2 : m2.stackPointer = tracingFrameSize ctx st.dropIdentifier := hresized2.stackPointer
  have hbefore2 : ∀ c, c ≠ .register tempGPR → m2.cells c = m.cells c := by
    intro c hc
    rw [hresized2.cells]
    refine hleaves1.cells c ?_
    rintro ⟨r, hr, rfl⟩
    exact hc (by rw [List.mem_singleton.mp hr])
  have hfence2 : m2.stackFence = m.stackFence := hresized2.stackFence.trans hleaves1.stackFence
  rcases passes_checkStackFence cfg builtinTracePointHandler ctx
    { st.dropIdentifier with stackFrameSize := tracingFrameSize ctx st.dropIdentifier } checked
    (tracingFrameSize ctx st.dropIdentifier) (.mask tempGPR) m2 with
    ⟨m3, hpass3, hleaves3, hfences3⟩ | ⟨hfence, t, htrap⟩
  · have hsp3 : m3.stackPointer = tracingFrameSize ctx st.dropIdentifier :=
      hleaves3.stackPointer.trans hsp2
    have hsource : ∀ s ∈ savedRegs st.dropIdentifier, s.2 ≠ tempGPR := by
      intro s hs heq
      have hmem := mem_of_mem_savedRegs hs
      rw [heq] at hmem
      exact absurd hmem (by decide)
    obtain ⟨m4, hpass4, hframed⟩ := passes_savedCall (m := m3) builtinTracePointHandler
      (savedRegs st.dropIdentifier) (savedRegs st.dropIdentifier) (.branchLink .LR returnAddress)
      (OfRegs [tmpReg1, tmpReg2, tmpReg3, .LR])
      (savedRegs_nodup _).1 (savedRegs_nodup _).2 (fun _ => Iff.rfl)
      (fun s _ => exec_branchLink returnAddress s)
      (by
        rintro s hs ⟨r, -, heq⟩
        cases heq)
    obtain ⟨m5, hpass5, hresized5⟩ := hshrinks m4 (hframed.leaves.stackPointer.trans hsp3)
    obtain ⟨m6, hpass6, hleaves6, hmemSize⟩ := passes_recoverTempGPRs cfg
      builtinTracePointHandler m5
    have hafter : ∀ c, c ≠ .register tempGPR → m6.cells c = m4.cells c := by
      intro c hc
      rw [hleaves6.cells c ?_, hresized5.cells]
      rintro ⟨r, hr, rfl⟩
      exact hc (by rw [List.mem_singleton.mp hr]; rfl)
    refine .inr ⟨m6, ?_, hleaves6.stackPointer.trans (hresized5.stackPointer.trans hm.symm),
      fun s hs hfree => ?_, fun s hs => ?_, fun hchecks => ?_, fun c hslot hfree hreg => ?_⟩
    · exact (hpass1.append (hpass2.append (hpass3.append (hpass4.append
        (hpass5.append hpass6))))).run_eq
    · have hne : (Cell.register s.2 : Cell REG) ≠ .register tempGPR :=
        fun heq => hsource s hs (Cell.register.inj heq)
      exact (hafter _ hne).trans ((hframed.restored s hs).trans
        ((hleaves3.cells _ hfree).trans (hbefore2 _ hne)))
    · have hne : (Cell.register s.2 : Cell REG) ≠ .register tempGPR :=
        fun heq => hsource s hs (Cell.register.inj heq)
      rw [hafter _ (fun heq => by cases heq), ← hsp3, hframed.slots s hs]
      rcases hfences3 (.register s.2) with h | h
      · exact .inl (h.trans (hbefore2 _ hne))
      · exact .inr (h.trans hfence2)
    · rw [hmemSize hchecks, hresized5.actualLinMemByteSize, hframed.leaves.actualLinMemByteSize,
        hleaves3.actualLinMemByteSize, hresized2.actualLinMemByteSize,
        hleaves1.actualLinMemByteSize]
    · have hne : c ≠ .register tempGPR := fun heq => hreg ⟨tempGPR, by decide, heq⟩
      rw [hafter c hne, hframed.leaves.cells c ?_, hleaves3.cells c hfree, hbefore2 c hne]
      rintro (⟨r, hr, heq⟩ | hsaved | ⟨r, hr, heq⟩)
      · exact hreg ⟨r, List.mem_append_left [tempGPR] hr, heq⟩
      · exact hslot (hsp3 ▸ hsaved)
      · obtain ⟨s, hs, rfl⟩ := List.mem_map.mp hr
        exact hreg ⟨s.2, List.mem_append_left [tempGPR] (mem_of_mem_savedRegs hs), heq⟩
  · refine .inl ⟨hfence2 ▸ hfence, t, ?_⟩
    exact (hpass1.append_traps (hpass2.append_traps (htrap.append _))).run_eq

/-- The dedicated registers. -/
def dedicatedRegs (cfg : BackendConfig) : List REG :=
  if cfg.linearMemoryBoundsChecks then [linMem, jobMem, .LR, memSize] else [linMem, jobMem, .LR]

/-- In a build with bounds checks `memSize` has the size of the memory less 8. -/
def Prepared (cfg : BackendConfig) (m : TracingMachine REG) : Prop :=
  cfg.linearMemoryBoundsChecks = true →
    m.reg memSize = m.actualLinMemByteSize.setWidth 64 - 8

variable {f : CompiledFunction REG} {ctx : FrameContext REG} {st : CompilerState REG}

/-- A live register is saved, or set up again, or it is none of those that the code writes. -/
theorem saved_of_live (habi : f.abi = wasmABI cfg.linux) (hdescribes : f.Describes ctx)
    (hst : st.WellFormed ctx) {r : REG} (h : LiveRegister (dedicatedRegs cfg) ctx st r) :
    ¬ FreeRegister ctx st (.register r) ∧ ((∃ s ∈ savedRegs st, s.2 = r) ∨
      (cfg.linearMemoryBoundsChecks = true ∧ r = memSize) ∨
      r ∉ [tmpReg1, tmpReg2, tmpReg3, .LR, tempGPR]) := by
  have hLR : ∃ s ∈ savedRegs st, s.2 = .LR := ⟨(24, .LR), by simp [savedRegs], rfl⟩
  have hgpr : ∀ r, r ∈ ctx.gpr → r ∈ gpr cfg.linux ∨ r ∈ fpr := by
    intro r hr
    have hmem := hdescribes.mem_abi (.inl hr)
    rwa [habi] at hmem
  rcases h.cases_of_describes hdescribes hst with hded | ⟨habi', hscratch⟩
  · refine ⟨?_, ?_⟩
    · rintro ⟨r', heq, hr', -⟩
      obtain rfl := Cell.register.inj heq
      have hne := dedicated_not_mem cfg.linux (hgpr r hr')
      revert hded
      rw [dedicatedRegs]
      split <;> simp [hne]
    · rw [dedicatedRegs] at hded
      split at hded
      · case _ hchecks =>
          simp only [List.mem_cons, List.not_mem_nil, or_false] at hded
          rcases hded with rfl | rfl | rfl | rfl
          · exact .inr (.inr (by decide))
          · exact .inr (.inr (by decide))
          · exact .inl hLR
          · exact .inr (.inl ⟨hchecks, rfl⟩)
      · simp only [List.mem_cons, List.not_mem_nil, or_false] at hded
        rcases hded with rfl | rfl | rfl
        · exact .inr (.inr (by decide))
        · exact .inr (.inr (by decide))
        · exact .inl hLR
  · rw [habi] at habi'
    have hne := dedicated_not_mem cfg.linux habi'
    have hreserved : ∀ r', r' ∈ [REG.R0, .R26, .R9, .R10, .R11] → r' ∈ ctx.gpr := by
      intro r' hr'
      refine hdescribes.reserved_mem ?_
      rw [habi]
      change r' ∈ (gpr cfg.linux).drop ((gpr cfg.linux).length - 5)
      rwa [drop_gpr]
    refine ⟨?_, ?_⟩
    · rintro ⟨r', heq, hr', hunref⟩
      obtain rfl := Cell.register.inj heq
      rw [hscratch hr'] at hunref
      cases hunref
    · by_cases hr : r ∈ [tmpReg1, tmpReg2, tmpReg3, .LR, tempGPR]
      · simp only [List.mem_cons, List.not_mem_nil, or_false] at hr
        refine .inl ?_
        rcases hr with rfl | rfl | rfl | rfl | rfl
        · have hunref := hscratch (hreserved tmpReg1 (by decide))
          exact ⟨(32, tmpReg1), by simp [savedRegs, needPushTempReg1And2ToStack, hunref], rfl⟩
        · have hunref := hscratch (hreserved tmpReg2 (by decide))
          exact ⟨(40, tmpReg2), by simp [savedRegs, needPushTempReg1And2ToStack, hunref], rfl⟩
        · exact ⟨(16, tmpReg3), by simp [savedRegs], rfl⟩
        · exact hLR
        · exact absurd rfl hne.2.2.1
      · exact .inr (.inr hr)

/-- **Transparency of trace points on AArch64**: exactly if no slot that registers are saved in
is live. -/
theorem transparent_iff (habi : f.abi = wasmABI cfg.linux) (hreach : Reachable f ctx st)
    {checked : UInt32} {returnAddress : Word} {code : List (TraceInstr REG)}
    (hemit : emitTracePoint cfg ctx st checked returnAddress = some code) :
    TracePointTransparent builtinTracePointHandler (dedicatedRegs cfg) ctx st (Prepared cfg)
        code ↔
      ¬ SaveAreaOverlaps ctx st.dropIdentifier (savedRegs st.dropIdentifier)
        (tracingFrameSize ctx st.dropIdentifier) := by
  obtain ⟨hdescribes, hwellFormed, -⟩ := hreach.compiling
  have hst := hwellFormed.dropIdentifier
  constructor
  · rintro htransparent ⟨s, hs, hlive⟩
    -- every register holds one, every slot two, and the fence is zero
    let m : TracingMachine REG :=
      { cells := fun | .register _ => 1 | _ => 2
        stackPointer := st.stackFrameSize
        linMemWasmSize := 0
        flags := .unset
        zero := false
        below := false
        spillRegion := 0
        actualLinMemByteSize := 9
        stackFence := 0
        traceBufferPtr := 0
        frameBaseAddress := 0
        hostMemory := fun _ => 0
        timeStampCounter := 0 }
    rcases run_emitTracePoint hemit m rfl with ⟨hfence, -⟩ | ⟨m', hrun, htraced⟩
    · exact hfence rfl
    · have hprepared : Prepared cfg m := fun _ =>
        show (1 : Word) = BitVec.setWidth 64 (9 : BitVec 32) - 8 by decide
      have hkept := (htransparent m m' rfl hprepared hrun).2 (.stackMemory _) hlive
      rcases htraced.slots s hs with h | h <;> rw [h] at hkept
      · exact absurd (show (1 : Word) = 2 from hkept) (by decide)
      · exact absurd (show (0 : Word) = 2 from hkept) (by decide)
  · intro hoverlaps m m' hm hprepared hrun
    rcases run_emitTracePoint hemit m hm with ⟨-, t, htrap⟩ | ⟨m'', hrun', htraced⟩
    · rw [hrun] at htrap
      cases htrap
    · obtain rfl := Except.ok.inj (hrun.symm.trans hrun')
      refine ⟨htraced.stackPointer, fun c hc => ?_⟩
      cases c with
      | register r =>
          obtain ⟨hfree, ⟨s, hs, rfl⟩ | ⟨hchecks, rfl⟩ | hr⟩ :=
            saved_of_live habi hdescribes hst hc
          · exact htraced.restored s hs hfree
          · exact (htraced.memSize hchecks).trans (hprepared hchecks).symm
          · refine htraced.others _ ?_ hfree ?_
            · rintro ⟨s, -, heq⟩
              cases heq
            · rintro ⟨r', hr', heq⟩
              exact hr (Cell.register.inj heq ▸ hr')
      | linkData offset =>
          refine htraced.others _ ?_ ?_ ?_
          · rintro ⟨s, -, heq⟩
            cases heq
          · rintro ⟨r', heq, -⟩
            cases heq
          · rintro ⟨r', -, heq⟩
            cases heq
      | stackMemory p =>
          refine htraced.others _ ?_ ?_ ?_
          · rintro ⟨s, hs, heq⟩
            exact hoverlaps ⟨s, hs, Cell.stackMemory.inj heq ▸ hc⟩
          · rintro ⟨r', heq, -⟩
            cases heq
          · rintro ⟨r', -, heq⟩
            cases heq

/-- **In an aligned frame** a saved register overlaps a live slot exactly if one of the first two
temporary registers is live and one of the last two slots of the frame is. -/
theorem saveAreaOverlaps_iff (hst : st.WellFormed ctx) (haligned : AlignedFrame ctx st) :
    SaveAreaOverlaps ctx st (savedRegs st) (tracingFrameSize ctx st) ↔
      needPushTempReg1And2ToStack st = true ∧
        (LiveSlot ctx st st.stackFrameSize ∨ LiveSlot ctx st (st.stackFrameSize - 8)) := by
  have hsub : ∀ y : UInt32, st.stackFrameSize + 32 - y = st.stackFrameSize + (32 - y) := by
    intro y
    grind
  have h8 := not_liveSlot_add hst (show (0 : UInt32) < 8 by decide) (by decide)
  have h16 := not_liveSlot_add hst (show (0 : UInt32) < 16 by decide) (by decide)
  have hlast : st.stackFrameSize - 8 = st.stackFrameSize + 4294967288 := by grind
  have hround : roundUpToPow2 32 4 = 32 := by decide
  rw [SaveAreaOverlaps, tracingFrameSize, haligned.alignStackFrameSize_add, hround, savedRegs]
  split
  · case _ hneed => simp [hneed, hsub, h8, h16, hlast]
  · case _ hneed => simp [hneed, hsub, h8, h16]

end AArch64

/-! ### Both backends -/

/-- **Trace points**: in every reachable state, the code of a trace point leaves live values and
the stack pointer unchanged exactly if no slot that registers are saved in is live. In an
aligned frame these are the slots at its end: on x86-64 the last one, if exactly two of the
registers of the handler are live; on AArch64 the last two, if one of the first two temporary
registers is live. -/
theorem tracePoint_transparent_iff (cfg : BackendConfig) (checkedStackFrameSize : UInt32)
    (returnAddress : Word) :
    (∀ (f : CompiledFunction X86_64.REG) (ctx : FrameContext X86_64.REG)
      (st : CompilerState X86_64.REG) (code : List (TraceInstr X86_64.REG)),
      f.abi = X86_64.wasmABI cfg.linearMemoryBoundsChecks → Reachable f ctx st →
      X86_64.emitTracePoint cfg ctx st checkedStackFrameSize returnAddress = some code →
      (TracePointTransparent X86_64.builtinTracePointHandler (X86_64.dedicatedRegs cfg) ctx st
          (fun _ => True) code ↔
        ¬ SaveAreaOverlaps ctx st.dropIdentifier (X86_64.savedRegs st.dropIdentifier)
          (X86_64.tracingFrameSize ctx st.dropIdentifier)) ∧
      (AlignedFrame ctx st →
        (TracePointTransparent X86_64.builtinTracePointHandler (X86_64.dedicatedRegs cfg) ctx st
            (fun _ => True) code ↔
          ¬ (([X86_64.REG.A, .D, .C].filter fun r =>
              !st.dropIdentifier.unreferenced r).length = 2 ∧
            LiveSlot ctx st.dropIdentifier st.stackFrameSize)))) ∧
    (∀ (f : CompiledFunction AArch64.REG) (ctx : FrameContext AArch64.REG)
      (st : CompilerState AArch64.REG) (code : List (TraceInstr AArch64.REG)),
      f.abi = AArch64.wasmABI cfg.linux → Reachable f ctx st →
      AArch64.emitTracePoint cfg ctx st checkedStackFrameSize returnAddress = some code →
      (TracePointTransparent AArch64.builtinTracePointHandler (AArch64.dedicatedRegs cfg) ctx st
          (AArch64.Prepared cfg) code ↔
        ¬ SaveAreaOverlaps ctx st.dropIdentifier (AArch64.savedRegs st.dropIdentifier)
          (AArch64.tracingFrameSize ctx st.dropIdentifier)) ∧
      (AlignedFrame ctx st →
        (TracePointTransparent AArch64.builtinTracePointHandler (AArch64.dedicatedRegs cfg) ctx st
            (AArch64.Prepared cfg) code ↔
          ¬ ((!st.dropIdentifier.unreferenced AArch64.tmpReg1 ||
              !st.dropIdentifier.unreferenced AArch64.tmpReg2) = true ∧
            (LiveSlot ctx st.dropIdentifier st.stackFrameSize ∨
              LiveSlot ctx st.dropIdentifier (st.stackFrameSize - 8)))))) := by
  refine ⟨fun f ctx st code habi hreach hemit => ?_, fun f ctx st code habi hreach hemit => ?_⟩
  · have hiff := X86_64.transparent_iff habi hreach hemit
    refine ⟨hiff, fun haligned => hiff.trans (not_congr ?_)⟩
    exact X86_64.saveAreaOverlaps_iff hreach.compiling.wellFormed.dropIdentifier haligned
  · have hiff := AArch64.transparent_iff habi hreach hemit
    refine ⟨hiff, fun haligned => hiff.trans (not_congr ?_)⟩
    exact AArch64.saveAreaOverlaps_iff hreach.compiling.wellFormed.dropIdentifier haligned

/-! ### A function without variables -/

section Plain

variable {TReg : Type} [DecidableEq TReg]

/-- A function without locals, in a module without globals. -/
def plainFunction (abi : WasmABI TReg) : CompiledFunction TReg where
  abi := abi
  globalInRegister := false
  mustOnStack := false
  locals := []
  forceHighRegisterPressureForTesting := false

/-- Its storages: 48 bytes of the frame are always in use. -/
def plainContext (abi : WasmABI TReg) : FrameContext TReg where
  gpr := abi.gpr
  fpr := abi.fpr
  gpRetRegs := []
  fpRetRegs := []
  localDefs := []
  globals := []
  paramWidth := 0
  returnAddrWidth := 8
  fixedStackFrameWidth := 48
  minimalStackFrameSize := 48
  frameBase := 0
  gpr_disjoint_fpr := abi.gpr_disjoint_fpr
  gpRetRegs_subset := by simp
  fpRetRegs_subset := by simp
  gpRetRegs_nodup := by simp
  fpRetRegs_nodup := by simp
  paramWidth_le := by decide
  fixed_le_minimal := by decide
  localDefs_fixed := by simp
  globals_fixed := by simp

omit [DecidableEq TReg] in
/-- The storages are those of the function. -/
theorem plainContext_describes (abi : WasmABI TReg) :
    (plainFunction abi).Describes (plainContext abi) := by
  refine ⟨rfl, rfl, fun localIdx reg h => ?_, fun globalIdx reg h => ?_,
    fun globalIdx reg h => ?_⟩
  · cases h
  · cases h
  · cases h

/-- A temporary result in the last slot of a frame of 64 bytes, two registers of which elements
have the first, and an identifier. -/
def tracedState (reg1 reg2 : TReg) : CompilerState TReg :=
  ⟨[.tempResult ⟨.i32, .stackMemory 64⟩, .scratchReg reg1 .i32, .scratchReg reg2 .i32,
    .constant .i32 7], 64⟩

/-- The state is reached by pushing the elements. -/
theorem tracedState_reachable (abi : WasmABI TReg) {reg1 reg2 : TReg} (h1 : reg1 ∈ abi.gpr)
    (h2 : reg2 ∈ abi.gpr) (hne : reg1 ≠ reg2) :
    Reachable (plainFunction abi) (plainContext abi) (tracedState reg1 reg2) := by
  have hentered : Reachable (plainFunction abi) (plainContext abi) ⟨[], 64⟩ :=
    .enteredFunction (plainContext_describes abi) rfl
      (show (48 : UInt32) ≤ 64 by decide) (show (64 : UInt32) ≤ maxStackFrameSize by decide)
  have hslot : Reachable (plainFunction abi) (plainContext abi)
      ⟨[.tempResult ⟨.i32, .stackMemory 64⟩], 64⟩ :=
    hentered.step (.push ⟨⟨show (48 : UInt32) < 64 by decide, show (64 : UInt32) ≤ 64 by decide⟩,
      fun _ _ heq => by cases heq⟩)
  have hfirst : Reachable (plainFunction abi) (plainContext abi)
      ⟨[.tempResult ⟨.i32, .stackMemory 64⟩, .scratchReg reg1 .i32], 64⟩ := by
    refine hslot.step (.push ⟨h1, fun r t heq j e _ he hr => ?_⟩)
    have hmem := List.mem_of_getElem? he
    rw [List.mem_singleton.mp hmem] at hr
    cases hr
  have hsecond : Reachable (plainFunction abi) (plainContext abi)
      ⟨[.tempResult ⟨.i32, .stackMemory 64⟩, .scratchReg reg1 .i32, .scratchReg reg2 .i32],
        64⟩ := by
    refine hfirst.step (.push ⟨h2, fun r t heq j e _ he hr => ?_⟩)
    have hmem := List.mem_of_getElem? he
    simp only [List.mem_cons, List.not_mem_nil, or_false] at hmem
    rcases hmem with rfl | rfl
    · cases hr
    · obtain ⟨rfl, -⟩ := LocatedElement.scratchReg.inj heq
      exact hne (Reference.scratchReg.inj (Option.some.inj hr))
  exact hsecond.step (.push ⟨trivial, fun _ _ heq => by cases heq⟩)

end Plain

/-- A build without checks. -/
def uncheckedConfig : BackendConfig := ⟨false, false, true⟩

/-- With one register of the handler live on x86-64, and with two other registers live on
AArch64, a trace point leaves the slot at the end of the frame unchanged. -/
theorem tracePoint_transparent_of_one_live :
    (∃ code, X86_64.emitTracePoint uncheckedConfig (plainContext (X86_64.wasmABI false))
        (tracedState .A .R8) 64 0 = some code ∧
      TracePointTransparent X86_64.builtinTracePointHandler
        (X86_64.dedicatedRegs uncheckedConfig) (plainContext (X86_64.wasmABI false))
        (tracedState .A .R8) (fun _ => True) code) ∧
    (∃ code, AArch64.emitTracePoint uncheckedConfig (plainContext (AArch64.wasmABI true))
        (tracedState .R9 .R26) 64 0 = some code ∧
      TracePointTransparent AArch64.builtinTracePointHandler
        (AArch64.dedicatedRegs uncheckedConfig) (plainContext (AArch64.wasmABI true))
        (tracedState .R9 .R26) (AArch64.Prepared uncheckedConfig) code) := by
  refine ⟨⟨_, rfl, ?_⟩, ⟨_, rfl, ?_⟩⟩
  · refine (((tracePoint_transparent_iff uncheckedConfig 64 0).1
      (plainFunction (X86_64.wasmABI false)) _ _ _ rfl
      (tracedState_reachable _ (by decide) (by decide) (by decide)) rfl).2
      (show ((64 : UInt32) - 0) &&& 15 = 0 by decide)).mpr ?_
    rintro ⟨hlength, -⟩
    exact absurd hlength (by decide)
  · refine (((tracePoint_transparent_iff uncheckedConfig 64 0).2
      (plainFunction (AArch64.wasmABI true)) _ _ _ rfl
      (tracedState_reachable _ (by decide) (by decide) (by decide)) rfl).2
      (show ((64 : UInt32) - 0) &&& 15 = 0 by decide)).mpr ?_
    rintro ⟨hneed, -⟩
    exact absurd hneed (by decide)

/-- With two registers of the handler live on x86-64, the second is saved over a live slot. -/
theorem tracePoint_overwrites_last_slot :
    Reachable (plainFunction (X86_64.wasmABI false)) (plainContext (X86_64.wasmABI false))
        (tracedState .A .D) ∧
      ∃ code, X86_64.emitTracePoint uncheckedConfig (plainContext (X86_64.wasmABI false))
          (tracedState .A .D) 64 0 = some code ∧
        ¬ TracePointTransparent X86_64.builtinTracePointHandler
          (X86_64.dedicatedRegs uncheckedConfig) (plainContext (X86_64.wasmABI false))
          (tracedState .A .D) (fun _ => True) code := by
  have hreach : Reachable (plainFunction (X86_64.wasmABI false))
      (plainContext (X86_64.wasmABI false)) (tracedState .A .D) :=
    tracedState_reachable _ (by decide) (by decide) (by decide)
  obtain ⟨code, hemit⟩ : ∃ code, X86_64.emitTracePoint uncheckedConfig
      (plainContext (X86_64.wasmABI false)) (tracedState .A .D) 64 0 = some code := ⟨_, rfl⟩
  refine ⟨hreach, code, hemit, fun htransparent => ?_⟩
  refine (X86_64.transparent_iff rfl hreach hemit).mp htransparent ⟨(16, .D), by decide, ?_⟩
  exact .element (e := .tempResult ⟨.i32, .stackMemory 64⟩) (by decide) rfl

end WasmCompiler
