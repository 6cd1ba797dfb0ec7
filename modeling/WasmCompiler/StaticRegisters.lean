import WasmCompiler.VariableStorage
import Mathlib.Data.List.Nodup
import Mathlib.Tactic

/-!
# Statically Allocated Registers

Which registers the global and the locals of a function get before its body is compiled
(`Backend::allocateRegForGlobal`, `Backend::allocateLocal`), and which registers are left to
be handed out as scratch registers (`getNumStaticallyAllocatedGPRs`,
`getNumStaticallyAllocatedFPRs`). The arrays of the calling convention are taken from the
front for the global, then for the locals, and never further than the registers reserved as
scratch registers at their end.

## Main results

* `StaticRegisters.not_mem_scratch`: a register of a variable is no scratch register.
* `StaticRegisters.register_injective`: no two variables share a register.
-/

namespace WasmCompiler

variable {TReg : Type}

/-- The registers of the calling convention for WebAssembly functions. -/
structure WasmABI (TReg : Type) where
  gpr : List TReg
  fpr : List TReg
  /-- The number of registers at the end of `gpr` that no variable gets. -/
  resScratchRegsGPR : ℕ
  /-- The number of registers at the end of `fpr` that no variable gets. -/
  resScratchRegsFPR : ℕ
  regsForParams : ℕ
  gpr_nodup : gpr.Nodup
  fpr_nodup : fpr.Nodup
  gpr_disjoint_fpr : ∀ r ∈ gpr, r ∉ fpr
  params_fit_gpr : 1 + regsForParams + resScratchRegsGPR ≤ gpr.length
  params_fit_fpr : regsForParams + resScratchRegsFPR ≤ fpr.length

/-- What allocation has given out: the number of globals in registers, the numbers of locals
in registers of each kind, and the register of each local. -/
structure StaticRegisters (TReg : Type) where
  numGlobalsInGPR : ℕ
  numLocalsInGPR : ℕ
  numLocalsInFPR : ℕ
  localRegs : List (Option TReg)
  deriving DecidableEq, Repr

namespace StaticRegisters

/-- `allocateRegForGlobal`, called for the first global if it is mutable and an `i32`. -/
def allocateGlobals (inRegister : Bool) : StaticRegisters TReg :=
  ⟨if inRegister then 1 else 0, 0, 0, []⟩

/-- The register of the global. -/
def globalReg? (abi : WasmABI TReg) (regs : StaticRegisters TReg) : Option TReg :=
  if regs.numGlobalsInGPR = 0 then none else abi.gpr[0]?

/-- `getMaxNumsLocalsInGPRs`, or the limit for parameters. -/
def maxLocalsInGPRs (abi : WasmABI TReg) (regs : StaticRegisters TReg) (isParam : Bool) : ℕ :=
  if isParam then abi.regsForParams
  else abi.gpr.length - (abi.resScratchRegsGPR + regs.numGlobalsInGPR)

/-- `getMaxNumsLocalsInFPRs`, or the limit for parameters. -/
def maxLocalsInFPRs (abi : WasmABI TReg) (isParam : Bool) : ℕ :=
  if isParam then abi.regsForParams else abi.fpr.length - abi.resScratchRegsFPR

/-- `allocateLocal` of one local: a register if one is left and the local may be in one. -/
def allocateLocal (abi : WasmABI TReg) (mustOnStack : Bool) (regs : StaticRegisters TReg)
    (type : MachineType) (isParam : Bool) : StaticRegisters TReg :=
  if mustOnStack then { regs with localRegs := regs.localRegs ++ [none] }
  else if type.isInt then
    if regs.numLocalsInGPR < regs.maxLocalsInGPRs abi isParam then
      { regs with
        numLocalsInGPR := regs.numLocalsInGPR + 1
        localRegs := regs.localRegs ++ [abi.gpr[regs.numGlobalsInGPR + regs.numLocalsInGPR]?] }
    else { regs with localRegs := regs.localRegs ++ [none] }
  else
    if regs.numLocalsInFPR < maxLocalsInFPRs abi isParam then
      { regs with
        numLocalsInFPR := regs.numLocalsInFPR + 1
        localRegs := regs.localRegs ++ [abi.fpr[regs.numLocalsInFPR]?] }
    else { regs with localRegs := regs.localRegs ++ [none] }

/-- The allocation of all locals of a function, the parameters first. -/
def allocateLocals (abi : WasmABI TReg) (mustOnStack : Bool) (regs : StaticRegisters TReg)
    (locals : List (MachineType × Bool)) : StaticRegisters TReg :=
  locals.foldl (fun regs l => regs.allocateLocal abi mustOnStack l.1 l.2) regs

/-- `getNumStaticallyAllocatedGPRs`. -/
def numStaticallyAllocatedGPRs (abi : WasmABI TReg) (regs : StaticRegisters TReg)
    (forceHighRegisterPressureForTesting : Bool) : ℕ :=
  if forceHighRegisterPressureForTesting then abi.gpr.length - abi.resScratchRegsGPR
  else regs.numGlobalsInGPR + regs.numLocalsInGPR

/-- `getNumStaticallyAllocatedFPRs`. -/
def numStaticallyAllocatedFPRs (abi : WasmABI TReg) (regs : StaticRegisters TReg)
    (forceHighRegisterPressureForTesting : Bool) : ℕ :=
  if forceHighRegisterPressureForTesting then abi.fpr.length - abi.resScratchRegsFPR
  else regs.numLocalsInFPR

/-- The general purpose registers that are handed out as scratch registers. -/
def scratchGPRs (abi : WasmABI TReg) (regs : StaticRegisters TReg) (force : Bool) :
    List TReg :=
  abi.gpr.drop (regs.numStaticallyAllocatedGPRs abi force)

/-- The floating point registers that are handed out as scratch registers. -/
def scratchFPRs (abi : WasmABI TReg) (regs : StaticRegisters TReg) (force : Bool) :
    List TReg :=
  abi.fpr.drop (regs.numStaticallyAllocatedFPRs abi force)

/-! ### The invariant of allocation -/

/-- The register was given to a local of either kind. -/
def GivenToLocal (abi : WasmABI TReg) (regs : StaticRegisters TReg) (r : TReg) : Prop :=
  (∃ k < regs.numLocalsInGPR, abi.gpr[regs.numGlobalsInGPR + k]? = some r) ∨
    ∃ k < regs.numLocalsInFPR, abi.fpr[k]? = some r

/-- What allocation keeps: the reserved registers are left, the locals are in registers that
were given to locals, and no two of them share a register. -/
structure Valid (abi : WasmABI TReg) (regs : StaticRegisters TReg) : Prop where
  globals_le : regs.numGlobalsInGPR ≤ 1
  gpr_le : regs.numGlobalsInGPR + regs.numLocalsInGPR + abi.resScratchRegsGPR ≤ abi.gpr.length
  fpr_le : regs.numLocalsInFPR + abi.resScratchRegsFPR ≤ abi.fpr.length
  given : ∀ (i : ℕ) r, regs.localRegs[i]? = some (some r) → regs.GivenToLocal abi r
  injective : ∀ (i j : ℕ) r, regs.localRegs[i]? = some (some r) →
    regs.localRegs[j]? = some (some r) → i = j

/-- Before the locals are allocated. -/
theorem Valid.allocateGlobals (abi : WasmABI TReg) (inRegister : Bool) :
    (allocateGlobals inRegister : StaticRegisters TReg).Valid abi := by
  have hgpr := abi.params_fit_gpr
  have hfpr := abi.params_fit_fpr
  refine ⟨?_, ?_, ?_, fun i r hi => ?_, fun i j r hi => ?_⟩
  · cases inRegister <;> simp [StaticRegisters.allocateGlobals]
  · cases inRegister <;> simp [StaticRegisters.allocateGlobals] <;> omega
  · simp [StaticRegisters.allocateGlobals]
    omega
  · simp [StaticRegisters.allocateGlobals] at hi
  · simp [StaticRegisters.allocateGlobals] at hi

variable {abi : WasmABI TReg} {regs : StaticRegisters TReg}

/-- A local without a register. -/
theorem Valid.onStack (h : regs.Valid abi) :
    ({ regs with localRegs := regs.localRegs ++ [none] } : StaticRegisters TReg).Valid abi := by
  have hold : ∀ (i : ℕ) r, (regs.localRegs ++ [none])[i]? = some (some r) →
      regs.localRegs[i]? = some (some r) := by
    intro i r hi
    rw [List.getElem?_append] at hi
    split at hi
    · exact hi
    · rw [List.getElem?_singleton] at hi
      split at hi <;> simp at hi
  exact ⟨h.globals_le, h.gpr_le, h.fpr_le, fun i r hi => h.given i r (hold i r hi),
    fun i j r hi hj => h.injective i j r (hold i r hi) (hold j r hj)⟩

/-- A local in a register that was given to no other local. -/
theorem Valid.inRegister {regs' : StaticRegisters TReg} {r : TReg} (h : regs.Valid abi)
    (hlocals : regs'.localRegs = regs.localRegs ++ [some r])
    (hmono : ∀ r', regs.GivenToLocal abi r' → regs'.GivenToLocal abi r')
    (hgiven : regs'.GivenToLocal abi r) (hnew : ¬ regs.GivenToLocal abi r)
    (hglobals : regs'.numGlobalsInGPR ≤ 1)
    (hgpr : regs'.numGlobalsInGPR + regs'.numLocalsInGPR + abi.resScratchRegsGPR ≤
      abi.gpr.length)
    (hfpr : regs'.numLocalsInFPR + abi.resScratchRegsFPR ≤ abi.fpr.length) :
    regs'.Valid abi := by
  have hcases : ∀ (i : ℕ) r', regs'.localRegs[i]? = some (some r') →
      regs.localRegs[i]? = some (some r') ∨ (i = regs.localRegs.length ∧ r' = r) := by
    intro i r' hi
    rw [hlocals, List.getElem?_append] at hi
    split at hi
    · exact .inl hi
    · case _ hge =>
        rw [List.getElem?_singleton] at hi
        split at hi
        · case _ hzero =>
            obtain rfl : r = r' := by simpa using hi
            exact .inr ⟨by omega, rfl⟩
        · simp at hi
  refine ⟨hglobals, hgpr, hfpr, fun i r' hi => ?_, fun i j r' hi hj => ?_⟩
  · rcases hcases i r' hi with hold | ⟨-, rfl⟩
    · exact hmono r' (h.given i r' hold)
    · exact hgiven
  · rcases hcases i r' hi with hi | ⟨rfl, rfl⟩ <;> rcases hcases j r' hj with hj | ⟨rfl, heq⟩
    · exact h.injective i j r' hi hj
    · exact absurd (h.given i r' hi) (heq ▸ hnew)
    · exact absurd (h.given j r' hj) hnew
    · rfl

/-- **Allocating a local** keeps the invariant. -/
theorem Valid.allocateLocal (h : regs.Valid abi) (mustOnStack : Bool) (type : MachineType)
    (isParam : Bool) : (regs.allocateLocal abi mustOnStack type isParam).Valid abi := by
  have hglobals := h.globals_le
  have hgpr := h.gpr_le
  have hfpr := h.fpr_le
  have hparamsGPR := abi.params_fit_gpr
  have hparamsFPR := abi.params_fit_fpr
  simp only [StaticRegisters.allocateLocal]
  split
  · exact h.onStack
  · split
    · split
      · case _ hlt =>
          have hle : regs.numGlobalsInGPR + (regs.numLocalsInGPR + 1) + abi.resScratchRegsGPR ≤
              abi.gpr.length := by
            simp only [maxLocalsInGPRs] at hlt
            split at hlt <;> omega
          have hlast : regs.numGlobalsInGPR + regs.numLocalsInGPR < abi.gpr.length := by omega
          have hget := List.getElem?_eq_getElem hlast
          refine h.inRegister (congrArg _ (congrArg ([·]) hget)) ?_ ?_ ?_ hglobals hle hfpr
          · rintro r' (⟨k, hk, hr⟩ | hr)
            · exact .inl ⟨k, by simp only; omega, hr⟩
            · exact .inr hr
          · exact .inl ⟨regs.numLocalsInGPR, by simp, hget⟩
          · rintro (⟨k, hk, hr⟩ | ⟨k, hk, hr⟩)
            · -- the register at another index of the array is another one
              have hkne := (List.Nodup.getElem_inj_iff abi.gpr_nodup).mp
                ((List.getElem?_eq_some_iff.mp hr).2)
              omega
            · exact abi.gpr_disjoint_fpr _ (List.getElem_mem hlast) (List.mem_of_getElem? hr)
      · exact h.onStack
    · split
      · case _ hlt =>
          have hle : regs.numLocalsInFPR + 1 + abi.resScratchRegsFPR ≤ abi.fpr.length := by
            simp only [maxLocalsInFPRs] at hlt
            split at hlt <;> omega
          have hlast : regs.numLocalsInFPR < abi.fpr.length := by omega
          have hget := List.getElem?_eq_getElem hlast
          refine h.inRegister (congrArg _ (congrArg ([·]) hget)) ?_ ?_ ?_ hglobals hgpr hle
          · rintro r' (hr | ⟨k, hk, hr⟩)
            · exact .inl hr
            · exact .inr ⟨k, by simp only; omega, hr⟩
          · exact .inr ⟨regs.numLocalsInFPR, by simp, hget⟩
          · rintro (⟨k, hk, hr⟩ | ⟨k, hk, hr⟩)
            · exact abi.gpr_disjoint_fpr _ (List.mem_of_getElem? hr) (List.getElem_mem hlast)
            · have hkne := (List.Nodup.getElem_inj_iff abi.fpr_nodup).mp
                ((List.getElem?_eq_some_iff.mp hr).2)
              omega
      · exact h.onStack

/-- Allocating all locals keeps the invariant. -/
theorem Valid.allocateLocals (h : regs.Valid abi) (mustOnStack : Bool)
    (locals : List (MachineType × Bool)) :
    (regs.allocateLocals abi mustOnStack locals).Valid abi := by
  induction locals generalizing regs with
  | nil => exact h
  | cons l locals ih => exact ih (h.allocateLocal mustOnStack l.1 l.2)

/-! ### Registers of variables -/

/-- A variable of the function. -/
inductive Variable where
  | global
  | local_ (localIdx : ℕ)
  deriving DecidableEq, Repr

/-- The register of a variable. -/
def register? (abi : WasmABI TReg) (regs : StaticRegisters TReg) : Variable → Option TReg
  | .global => regs.globalReg? abi
  | .local_ localIdx => (regs.localRegs[localIdx]?).join

/-- The register of a local was given to it. -/
theorem Valid.local_given (h : regs.Valid abi) {localIdx : ℕ} {r : TReg}
    (hr : regs.register? abi (.local_ localIdx) = some r) : regs.GivenToLocal abi r :=
  h.given localIdx r (Option.join_eq_some_iff.mp hr)

/-- The register of the global is the first of the array, and the locals start behind it. -/
theorem globalReg?_eq (h : regs.Valid abi) {r : TReg}
    (hr : regs.register? abi .global = some r) :
    regs.numGlobalsInGPR = 1 ∧ abi.gpr[0]? = some r := by
  have hle := h.globals_le
  simp only [register?, globalReg?] at hr
  split at hr
  · simp at hr
  · exact ⟨by omega, hr⟩

/-- A register in front of an index of a list without duplicates is not behind it. -/
theorem not_mem_drop {l : List TReg} (h : l.Nodup) {k n : ℕ} {r : TReg} (hk : k < n)
    (hr : l[k]? = some r) : r ∉ l.drop n := by
  intro hmem
  obtain ⟨i, hi⟩ := List.mem_iff_getElem?.mp hmem
  rw [List.getElem?_drop] at hi
  obtain ⟨hlt, hr⟩ := List.getElem?_eq_some_iff.mp hr
  obtain ⟨hlt', hi⟩ := List.getElem?_eq_some_iff.mp hi
  have := (List.Nodup.getElem_inj_iff h).mp (hr.trans hi.symm)
  omega

/-- **A register of a variable is no scratch register.** -/
theorem not_mem_scratch (h : regs.Valid abi) {v : Variable} {r : TReg}
    (hr : regs.register? abi v = some r) (force : Bool) :
    r ∉ regs.scratchGPRs abi force ∧ r ∉ regs.scratchFPRs abi force := by
  have hgpr := h.gpr_le
  have hfpr := h.fpr_le
  have hleGPR : regs.numGlobalsInGPR + regs.numLocalsInGPR ≤
      regs.numStaticallyAllocatedGPRs abi force := by
    simp only [numStaticallyAllocatedGPRs]
    split <;> omega
  have hleFPR : regs.numLocalsInFPR ≤ regs.numStaticallyAllocatedFPRs abi force := by
    simp only [numStaticallyAllocatedFPRs]
    split <;> omega
  have hin : (∃ k < regs.numGlobalsInGPR + regs.numLocalsInGPR, abi.gpr[k]? = some r) ∨
      ∃ k < regs.numLocalsInFPR, abi.fpr[k]? = some r := by
    cases v with
    | global =>
        obtain ⟨hone, hzero⟩ := globalReg?_eq h hr
        exact .inl ⟨0, by omega, hzero⟩
    | local_ localIdx =>
        rcases h.local_given hr with ⟨k, hk, hk'⟩ | hk
        · exact .inl ⟨_, by omega, hk'⟩
        · exact .inr hk
  rcases hin with ⟨k, hk, hk'⟩ | ⟨k, hk, hk'⟩
  · exact ⟨not_mem_drop abi.gpr_nodup (by omega) hk', fun hmem =>
      abi.gpr_disjoint_fpr r (List.mem_of_getElem? hk') (List.mem_of_mem_drop hmem)⟩
  · exact ⟨fun hmem =>
      abi.gpr_disjoint_fpr r (List.mem_of_mem_drop hmem) (List.mem_of_getElem? hk'),
      not_mem_drop abi.fpr_nodup (by omega) hk'⟩

/-- The register of the global was given to no local. -/
theorem Valid.global_not_given (h : regs.Valid abi) {r : TReg}
    (hr : regs.register? abi .global = some r) : ¬ regs.GivenToLocal abi r := by
  obtain ⟨hone, hzero⟩ := globalReg?_eq h hr
  obtain ⟨hlt, hr0⟩ := List.getElem?_eq_some_iff.mp hzero
  rintro (⟨k, hk, hk'⟩ | ⟨k, hk, hk'⟩)
  · obtain ⟨hlt', hk'⟩ := List.getElem?_eq_some_iff.mp hk'
    have := (List.Nodup.getElem_inj_iff abi.gpr_nodup).mp (hr0.trans hk'.symm)
    omega
  · exact abi.gpr_disjoint_fpr r (List.mem_of_getElem? hzero) (List.mem_of_getElem? hk')

/-- **No two variables share a register.** -/
theorem register_injective (h : regs.Valid abi) {v v' : Variable} {r : TReg}
    (hr : regs.register? abi v = some r) (hr' : regs.register? abi v' = some r) : v = v' := by
  cases v with
  | global =>
      cases v' with
      | global => rfl
      | local_ localIdx => exact absurd (h.local_given hr') (h.global_not_given hr)
  | local_ localIdx =>
      cases v' with
      | global => exact absurd (h.local_given hr) (h.global_not_given hr')
      | local_ localIdx' =>
          exact congrArg _ (h.injective _ _ r (Option.join_eq_some_iff.mp hr)
            (Option.join_eq_some_iff.mp hr'))

end StaticRegisters

end WasmCompiler
