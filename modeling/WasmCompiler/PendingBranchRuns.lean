import Mathlib.Logic.Function.Basic
import Mathlib.Logic.Relation
import WasmCompiler.PendingBranches

/-!
# Runs with Pending Branches

Code is emitted, other instructions are patched, link variables are opened for the ends of
blocks and for functions, branches are registered on any of them, and variables are finalized,
in any order. In every state of such a run the list of every open variable is the list of the
branches registered on it, so that finalizing a variable makes exactly those go to the current
position and leaves the others alone.

## Main results

* `ChainStep.invariant`: every step keeps the lists.
* `finalizeBranch_of_run`: what finalizing does in every state of a run.
* `farConditionalBranch_refused`: a branch that cannot reach the current position.
-/

namespace WasmCompiler

open BitField PatchSite ThreadedList PatchedInstruction

/-! ### States and steps -/

/-- The output with its size and the link variables that are open; `registered` has the
branches that have been registered on a variable, the last one first. -/
structure ChainState (V : Type) where
  out : Output
  size : ℕ
  links : V → Option UInt32
  registered : V → List PatchedInstruction

/-- Nothing has been emitted. -/
def ChainState.initial {V : Type} (out : Output) : ChainState V where
  out := out
  size := 0
  links _ := none
  registered _ := []

variable {V : Type} [DecidableEq V]

/-- One step of the compiler, as far as pending branches go. -/
inductive ChainStep (backend : PatchBackend) : ChainState V → ChainState V → Prop where
  /-- Code is emitted at the end of the output. -/
  | emit (s : ChainState V) (out : Output) (size : ℕ) (hout : ∀ a, a < s.size → out a = s.out a)
      (hsize : s.size ≤ size) (hmax : size ≤ backend.maxOutput) :
      ChainStep backend s { s with out, size }
  /-- Code is patched that is not an instruction of a registered branch. -/
  | patchOther (s : ChainState V) (out : Output)
      (hout : ∀ a, (∀ v, ∀ i ∈ s.registered v, ¬ i.Covers a) ∨ out a = s.out a) :
      ChainStep backend s { s with out }
  /-- `prepareCondJMPAndMergeWithCMPIfPossible` of AArch64: if the last instruction is a
  comparison with zero it is replaced, whatever else has been emitted. -/
  | mergeWithCMP (s : ChainState V) (op : BitVec 32) (hbackend : backend = .aarch64)
      (haligned : 4 ∣ s.size) (hlast : 4 ≤ s.size)
      (hcompare : readWord s.out (s.size - 4) &&& ~~~(0x1F#32 <<< 5) = 0x7100001F#32) :
      ChainStep backend s { s with out := writeWord s.out (s.size - 4) op }
  /-- A variable is opened. -/
  | openVariable (s : ChainState V) (v : V) (hv : s.links v = none) :
      ChainStep backend s { s with links := Function.update s.links v (some noPendingBranch) }
  /-- A branch that has been emitted is registered. -/
  | register (s : ChainState V) (v : V) (x : UInt32) (hv : s.links v = some x)
      (i : PatchedInstruction) (hi : i.IsPendingOn backend) (hout : i.site.Encodes s.out)
      (hwithin : i.behind ≤ s.size)
      (hnew : ∀ w, ∀ j ∈ s.registered w, PatchedInstruction.Apart i j) (y : UInt32)
      (out : Output)
      (hregister : registerPendingBranch backend i.ownPosition x s.out = .ok y out) :
      ChainStep backend s
        { s with
          out
          links := Function.update s.links v (some y)
          registered := Function.update s.registered v (i :: s.registered v) }
  /-- A variable is finalized; it is not a link variable any more. -/
  | finalize (s : ChainState V) (v : V) (x : UInt32) (hv : s.links v = some x) (fuel : ℕ)
      (out : Output)
      (hfinalize : finalizeBranch backend (UInt32.ofNat s.size) x fuel s.out = .ok true out) :
      ChainStep backend s
        { s with
          out
          links := Function.update s.links v none
          registered := Function.update s.registered v [] }

/-! ### The invariant -/

/-- The list of every open variable is the list of the branches registered on it. -/
structure ChainInvariant (backend : PatchBackend) (s : ChainState V) : Prop where
  size_le : s.size ≤ backend.maxOutput
  registered : ∀ v, Registered backend s.size s.out (s.registered v)
  apart : ∀ v w, v ≠ w → ∀ i ∈ s.registered v, ∀ j ∈ s.registered w, PatchedInstruction.Apart i j
  chain : ∀ v x, s.links v = some x → ChainFrom backend s.out x (s.registered v)
  closed : ∀ v, s.links v = none → s.registered v = []

variable {backend : PatchBackend} {size size' : ℕ} {out out' : Output}
  {l : List PatchedInstruction} {s s' : ChainState V}

omit [DecidableEq V] in
/-- The invariant holds at the start. -/
theorem ChainInvariant.initial (backend : PatchBackend) (out : Output) :
    ChainInvariant backend (ChainState.initial out : ChainState V) where
  size_le := Nat.zero_le _
  registered _ :=
    ⟨fun _ h => absurd h List.not_mem_nil, fun _ h => absurd h List.not_mem_nil,
      fun _ h => absurd h List.not_mem_nil, .nil⟩
  apart _ _ _ _ h := absurd h List.not_mem_nil
  chain _ _ h := by cases h
  closed _ _ := rfl

/-- Branches whose bytes are as before are still registered. -/
theorem Registered.congr (h : Registered backend size out l)
    (hsame : ∀ i ∈ l, i.SameBytes out out') (hsize : size ≤ size') :
    Registered backend size' out' l where
  pending := h.pending
  encodes i hi := ((h.pending i hi).congr (hsame i hi)).1 (h.encodes i hi)
  within i hi := (h.within i hi).trans hsize
  apart := h.apart

/-- A list whose branches have the bytes they had is as before. -/
theorem ChainFrom.congr {x : UInt32} (h : ChainFrom backend out x l)
    (hregistered : Registered backend size out l) (hsame : ∀ i ∈ l, i.SameBytes out out') :
    ChainFrom backend out' x l where
  first := h.first
  threaded := by
    refine h.threaded.congr fun position hposition => ?_
    obtain ⟨i, hi, rfl⟩ := List.mem_map.mp hposition
    have hpending := hregistered.pending i hi
    rw [hpending.getLinkedAt_eq, hpending.getLinkedAt_eq]
    exact (hpending.congr (hsame i hi)).2.2

omit [DecidableEq V] in
/-- A step that keeps the bytes of all registered branches. -/
theorem ChainInvariant.of_sameBytes (h : ChainInvariant backend s)
    (hsame : ∀ v, ∀ i ∈ s.registered v, i.SameBytes s.out out') (hsize : s.size ≤ size')
    (hmax : size' ≤ backend.maxOutput) :
    ChainInvariant backend { s with out := out', size := size' } where
  size_le := hmax
  registered v := (h.registered v).congr (hsame v) hsize
  apart := h.apart
  chain v x hv := (h.chain v x hv).congr (h.registered v) (hsame v)
  closed := h.closed

/-! ### The steps -/

omit [DecidableEq V] in
/-- A comparison with zero is not a registered branch, nor does it overlap with one. -/
theorem sameBytes_of_mergeWithCMP (h : ChainInvariant .aarch64 s) (haligned : 4 ∣ s.size)
    (hlast : 4 ≤ s.size)
    (hcompare : readWord s.out (s.size - 4) &&& ~~~(0x1F#32 <<< 5) = 0x7100001F#32)
    (op : BitVec 32) (v : V) (i : PatchedInstruction) (hi : i ∈ s.registered v) :
    i.SameBytes s.out (writeWord s.out (s.size - 4) op) := by
  intro a ha
  refine writeWord_outside ?_
  have hpending := (h.registered v).pending i hi
  have hencodes := (h.registered v).encodes i hi
  cases i with
  | aarch64Branch b position hposition =>
      have hne : position.toNat ≠ s.size - 4 := by
        intro heq
        have hmatches : b.form.Matches (readWord s.out (s.size - 4)) := by
          rw [← heq]
          exact hencodes
        have hbit : ∀ k, (~~~(0x1F#32 <<< 5)).getLsbD k = true →
            (readWord s.out (s.size - 4)).getLsbD k = (0x7100001F#32).getLsbD k := by
          intro k hk
          rw [← hcompare, BitVec.getLsbD_and, hk, Bool.and_true]
        cases b with
        | branch =>
            have h29 := hmatches.getLsbD (i := 29) (by decide)
            rw [hbit 29 (by decide)] at h29
            exact absurd h29 (by decide)
        | conditional =>
            have h29 := hmatches.getLsbD (i := 29) (by decide)
            rw [hbit 29 (by decide)] at h29
            exact absurd h29 (by decide)
        | compare =>
            have h30 := hmatches.getLsbD (i := 30) (by decide)
            rw [hbit 30 (by decide)] at h30
            exact absurd h30 (by decide)
      obtain ⟨h1, h2⟩ := ha
      simp only [first, behind] at h1 h2
      omega
  | x86_64 _ _ _ => cases hpending.1
  | tricoreJump _ _ _ => cases hpending
  | aarch64Address _ _ _ | tricoreShort _ _ _ | tricoreLea _ _ => exact hpending.elim

/-- What a registration has done. -/
theorem registerPendingBranch_ok {position x y : UInt32}
    (h : registerPendingBranch backend position x out = .ok y out') :
    y = position ∧
      linkAt backend position (if x = noPendingBranch then position else x) out = .ok () out' := by
  simp only [registerPendingBranch, bind, EStateM.bind] at h
  cases hlink : linkAt backend position (if x = noPendingBranch then position else x) out with
  | error e out₁ => rw [hlink] at h; cases h
  | ok _ out₁ =>
      rw [hlink] at h
      cases h
      exact ⟨rfl, rfl⟩

/-- The target a branch is registered with is the first branch of the list, or the branch
itself. -/
theorem ChainFrom.registerTarget {x : UInt32} (h : ChainFrom backend out x l)
    (hregistered : Registered backend size out l) (hsize : size ≤ backend.maxOutput)
    (position : UInt32) :
    (if x = noPendingBranch then position else x) = successor position (l.map ownPosition) := by
  cases l with
  | nil =>
      obtain rfl : x = noPendingBranch := h.first
      rfl
  | cons i l =>
      obtain rfl : x = i.ownPosition := h.first
      have hne := (hregistered.pending i (List.mem_cons_self ..)).ownPosition_ne_noPendingBranch
        ((hregistered.within i (List.mem_cons_self ..)).trans hsize)
      rw [if_neg hne]
      rfl

/-- **Registering a branch** puts it in front of the list and leaves the others. -/
theorem ChainInvariant.register (h : ChainInvariant backend s) {v : V} {x : UInt32}
    (hv : s.links v = some x) {i : PatchedInstruction} (hi : i.IsPendingOn backend)
    (hout : i.site.Encodes s.out) (hwithin : i.behind ≤ s.size)
    (hnew : ∀ w, ∀ j ∈ s.registered w, PatchedInstruction.Apart i j) {y : UInt32}
    (hregister : registerPendingBranch backend i.ownPosition x s.out = .ok y out) :
    ChainInvariant backend
      { s with
        out
        links := Function.update s.links v (some y)
        registered := Function.update s.registered v (i :: s.registered v) } := by
  obtain ⟨rfl, hlink⟩ := registerPendingBranch_ok hregister
  have hchain := h.chain v x hv
  rw [hchain.registerTarget (h.registered v) h.size_le, hi.linkAt_eq] at hlink
  have hsame : ∀ w, ∀ j ∈ s.registered w, j.SameBytes s.out out := fun w j hj =>
    sameBytes_of_link hi hout (hnew w j hj) hlink
  have hlinked := ((relinkable hi.clearsField).law s.out hout _).linked out hlink
  have hread := readsBack hout (.inl hi.clearsField)
    (hi.isReadBack (hwithin.trans h.size_le) _) out hlink
  constructor
  · exact h.size_le
  · intro w
    have hother := (h.registered w).congr (hsame w) (Nat.le_refl _)
    by_cases hw : w = v
    · subst hw
      simp only [Function.update_self]
      constructor
      · rintro j hj
        rcases List.mem_cons.mp hj with rfl | hj
        · exact hi
        · exact hother.pending j hj
      · rintro j hj
        rcases List.mem_cons.mp hj with rfl | hj
        · exact hlinked.encodes
        · exact hother.encodes j hj
      · rintro j hj
        rcases List.mem_cons.mp hj with rfl | hj
        · exact hwithin
        · exact hother.within j hj
      · exact List.pairwise_cons.mpr ⟨hnew w, hother.apart⟩
    · simp only [Function.update_of_ne hw]
      exact hother
  · intro w w' hne j hj j' hj'
    by_cases hw : w = v
    · subst hw
      simp only [Function.update_self, Function.update_of_ne (Ne.symm hne)] at hj hj'
      rcases List.mem_cons.mp hj with rfl | hj
      · exact hnew w' j' hj'
      · exact h.apart w w' hne j hj j' hj'
    · by_cases hw' : w' = v
      · subst hw'
        simp only [Function.update_self, Function.update_of_ne hne] at hj hj'
        rcases List.mem_cons.mp hj' with rfl | hj'
        · exact (hnew w j hj).symm
        · exact h.apart w w' hne j hj j' hj'
      · simp only [Function.update_of_ne hw, Function.update_of_ne hw'] at hj hj'
        exact h.apart w w' hne j hj j' hj'
  · intro w x' hw
    by_cases hwv : w = v
    · subst hwv
      simp only [Function.update_self, Option.some.injEq] at hw ⊢
      subst hw
      refine ⟨rfl, Threaded.cons ?_ (hchain.congr (h.registered w) (hsame w)).threaded⟩
      rw [hi.getLinkedAt_eq]
      exact hread
    · simp only [Function.update_of_ne hwv] at hw ⊢
      exact (h.chain w x' hw).congr (h.registered w) (hsame w)
  · intro w hw
    by_cases hwv : w = v
    · subst hwv
      simp only [Function.update_self, reduceCtorEq] at hw
    · simp only [Function.update_of_ne hwv] at hw ⊢
      exact h.closed w hw

omit [DecidableEq V] in
/-- The branches of the other variables do not notice that the branches of one are linked. -/
theorem ChainInvariant.sameBytes_of_ne (h : ChainInvariant backend s) {v w : V} (hne : w ≠ v)
    (hbytes : ∀ a, (∀ i ∈ s.registered v, ¬ i.Covers a) → out a = s.out a) :
    ∀ j ∈ s.registered w, j.SameBytes s.out out := by
  intro j hj a ha
  exact hbytes a fun i hi => (h.apart w v hne j hj i hi).not_covers ha

/-- **Finalizing a variable** leaves the lists of the others. -/
theorem ChainInvariant.finalize (h : ChainInvariant backend s) {v : V} {x : UInt32}
    (hv : s.links v = some x) {fuel : ℕ}
    (hfinalize : finalizeBranch backend (UInt32.ofNat s.size) x fuel s.out = .ok true out) :
    ChainInvariant backend
      { s with
        out
        links := Function.update s.links v none
        registered := Function.update s.registered v [] } := by
  have hspec := finalizeBranch_spec (h.registered v) h.size_le (h.chain v x hv)
    (Nat.le_max_right fuel _)
  rw [finalizeBranch_of_le hfinalize (Nat.le_max_left _ _)] at hspec
  have hsame : ∀ w, w ≠ v → ∀ j ∈ s.registered w, j.SameBytes s.out out := fun w hne =>
    h.sameBytes_of_ne hne hspec.2.bytes
  constructor
  · exact h.size_le
  · intro w
    by_cases hw : w = v
    · subst hw
      simp only [Function.update_self]
      exact (ChainInvariant.initial (V := V) backend out).registered w |>.congr
        (fun _ hj => absurd hj List.not_mem_nil) (Nat.zero_le _)
    · simp only [Function.update_of_ne hw]
      exact (h.registered w).congr (hsame w hw) (Nat.le_refl _)
  · intro w w' hne j hj j' hj'
    by_cases hw : w = v
    · subst hw
      simp only [Function.update_self] at hj
      exact absurd hj List.not_mem_nil
    · by_cases hw' : w' = v
      · subst hw'
        simp only [Function.update_self] at hj'
        exact absurd hj' List.not_mem_nil
      · simp only [Function.update_of_ne hw, Function.update_of_ne hw'] at hj hj'
        exact h.apart w w' hne j hj j' hj'
  · intro w x' hw
    by_cases hwv : w = v
    · subst hwv
      simp only [Function.update_self, reduceCtorEq] at hw
    · simp only [Function.update_of_ne hwv] at hw ⊢
      exact (h.chain w x' hw).congr (h.registered w) (hsame w hwv)
  · intro w hw
    by_cases hwv : w = v
    · subst hwv
      simp only [Function.update_self]
    · simp only [Function.update_of_ne hwv] at hw ⊢
      exact h.closed w hw

/-- **Every step keeps the lists.** -/
theorem ChainStep.invariant (hstep : ChainStep backend s s') (h : ChainInvariant backend s) :
    ChainInvariant backend s' := by
  cases hstep with
  | emit out size hout hsize hmax =>
      refine h.of_sameBytes (fun v i hi a ha => hout a ?_) hsize hmax
      exact lt_of_lt_of_le ha.2 ((h.registered v).within i hi)
  | patchOther out hout =>
      refine h.of_sameBytes (fun v i hi a ha => ?_) (Nat.le_refl _) h.size_le
      exact (hout a).resolve_left fun hnot => hnot v i hi ha
  | mergeWithCMP op hbackend haligned hlast hcompare =>
      subst hbackend
      exact h.of_sameBytes (sameBytes_of_mergeWithCMP h haligned hlast hcompare op)
        (Nat.le_refl _) h.size_le
  | openVariable v hv =>
      refine ⟨h.size_le, h.registered, h.apart, fun w x hw => ?_, fun w hw => ?_⟩
      · by_cases hwv : w = v
        · subst hwv
          simp only [Function.update_self, Option.some.injEq] at hw
          subst hw
          simp only [h.closed w hv]
          exact ⟨rfl, trivial⟩
        · simp only [Function.update_of_ne hwv] at hw
          exact h.chain w x hw
      · by_cases hwv : w = v
        · subst hwv
          simp only [Function.update_self, reduceCtorEq] at hw
        · simp only [Function.update_of_ne hwv] at hw
          exact h.closed w hw
  | register v x hv i hi hout hwithin hnew y out hregister =>
      exact h.register hv hi hout hwithin hnew hregister
  | finalize v x hv fuel out hfinalize => exact h.finalize hv hfinalize

/-- The lists are kept in every run. -/
theorem ChainInvariant.of_run {out₀ : Output}
    (hrun : Relation.ReflTransGen (ChainStep backend) (ChainState.initial out₀) s) :
    ChainInvariant backend s := by
  induction hrun with
  | refl => exact ChainInvariant.initial backend out₀
  | tail _ hstep ih => exact hstep.invariant ih

/-- The lists of the variables other than the one that is finalized: each is still the list of
its branches, and all of them are where they were and go where they went. -/
structure OthersIntact (backend : PatchBackend) (s : ChainState V) (v : V) (out : Output) :
    Prop where
  chain : ∀ w, w ≠ v → ∀ y, s.links w = some y → ChainFrom backend out y (s.registered w)
  sameBytes : ∀ w, w ≠ v → ∀ j ∈ s.registered w, j.SameBytes s.out out

/-- **Finalizing in any state of any run** ends. Either exactly the branches registered on the
variable go to the current position, nothing but their displacements has changed and the lists
of the other variables are intact; or one of the branches cannot be linked to the current
position, and what has changed are the branches of the variable. -/
theorem finalizeBranch_of_run {out₀ : Output}
    (hrun : Relation.ReflTransGen (ChainStep backend) (ChainState.initial out₀) s) {v : V}
    {x : UInt32} (hv : s.links v = some x) {fuel : ℕ}
    (hfuel : (s.registered v).length ≤ fuel) :
    match finalizeBranch backend (UInt32.ofNat s.size) x fuel s.out with
    | .ok ended out =>
        ended = true ∧ Retargeted s.out out (UInt32.ofNat s.size) (s.registered v) ∧
          OthersIntact backend s v out
    | .error _ out =>
        (∃ i ∈ s.registered v,
          ¬ (i.site.inRange (UInt32.ofNat s.size) ∧ i.site.Asserted (UInt32.ofNat s.size))) ∧
          (∀ a, (∀ i ∈ s.registered v, ¬ i.Covers a) → out a = s.out a) ∧
          OthersIntact backend s v out := by
  have h := ChainInvariant.of_run hrun
  have hspec := finalizeBranch_spec (h.registered v) h.size_le (h.chain v x hv) hfuel
  have hothers : ∀ out, (∀ a, (∀ i ∈ s.registered v, ¬ i.Covers a) → out a = s.out a) →
      OthersIntact backend s v out := by
    intro out hbytes
    have hsame : ∀ w, w ≠ v → ∀ j ∈ s.registered w, j.SameBytes s.out out := fun w hne =>
      h.sameBytes_of_ne hne hbytes
    exact ⟨fun w hne y hw => (h.chain w y hw).congr (h.registered w) (hsame w hne), hsame⟩
  cases hresult : finalizeBranch backend (UInt32.ofNat s.size) x fuel s.out with
  | ok ended out =>
      rw [hresult] at hspec
      exact ⟨hspec.1, hspec.2, hothers out hspec.2.bytes⟩
  | error e out =>
      rw [hresult] at hspec
      exact ⟨hspec.1, hspec.2, hothers out hspec.2⟩

/-! ### A conditional branch of AArch64 -/

/-- The start of the output is aligned. -/
theorem start_aligned : 4 ∣ (0 : UInt32).toNat := by decide

/-- B.EQ at the start of the output. -/
def conditionalBranch : PatchedInstruction := aarch64Branch .conditional 0 start_aligned

/-- The output with B.EQ as it is emitted. -/
def conditionalOutput : Output := fun a => if a = 3 then 0x54 else 0

/-- The output after the branch has been linked to itself. -/
def conditionalLinked : Output :=
  writeWord conditionalOutput 0
    (AArch64.BranchForm.conditional.linkedWord (readWord conditionalOutput 0) 0)

/-- The branch has been registered, and code has been emitted up to a size. -/
def conditionalRegistered (size : ℕ) : ChainState Unit where
  out := conditionalLinked
  size := size
  links _ := some 0
  registered _ := [conditionalBranch]

/-- Such a state is reached: the branch is emitted, a variable is opened, the branch is
registered on it, and code is emitted. -/
theorem conditionalRegistered_reached {size : ℕ} (hmin : 4 ≤ size) (hmax : size ≤ 0xFFFFFFFF) :
    Relation.ReflTransGen (ChainStep .aarch64) (ChainState.initial conditionalOutput)
      (conditionalRegistered size) := by
  have hemit := @ChainStep.emit Unit _ .aarch64
    (ChainState.initial conditionalOutput : ChainState Unit) conditionalOutput 4
    (fun _ _ => rfl) (Nat.zero_le _) (by decide)
  have hopen := @ChainStep.openVariable Unit _ .aarch64
    { (ChainState.initial conditionalOutput : ChainState Unit) with size := 4 } () rfl
  have hregister := @ChainStep.register Unit _ .aarch64
    { (ChainState.initial conditionalOutput : ChainState Unit) with
      size := 4
      links := Function.update (fun _ => none) () (some noPendingBranch) }
    () noPendingBranch rfl conditionalBranch rfl
    (rfl : readWord conditionalOutput 0 &&& AArch64.conditionalForm.mask =
      AArch64.conditionalForm.value)
    (Nat.le_refl 4) (fun _ _ hj => absurd hj List.not_mem_nil) 0 conditionalLinked rfl
  have hfar := @ChainStep.emit Unit _ .aarch64 (conditionalRegistered 4) conditionalLinked
    size (fun _ _ => rfl) hmin hmax
  have hstate : ({
      out := conditionalLinked
      size := 4
      links := Function.update (Function.update (fun _ => none) () (some noPendingBranch)) ()
        (some 0)
      registered := Function.update (fun _ => []) () [conditionalBranch] } : ChainState Unit) =
      conditionalRegistered 4 := by
    simp only [conditionalRegistered, ChainState.mk.injEq, true_and]
    exact ⟨funext fun _ => rfl, funext fun _ => rfl⟩
  exact ((((Relation.ReflTransGen.refl).tail hemit).tail hopen).tail (hstate ▸ hregister)).tail hfar

/-- Eight bytes are near: finalizing makes the branch go there. -/
theorem finalizeBranch_of_run_near :
    match finalizeBranch .aarch64 (UInt32.ofNat 8) 0 1 conditionalLinked with
    | .ok ended out =>
        ended = true ∧ Retargeted conditionalLinked out (UInt32.ofNat 8) [conditionalBranch] ∧
          OthersIntact .aarch64 (conditionalRegistered 8) () out
    | .error _ out =>
        (∃ i ∈ [conditionalBranch],
          ¬ (i.site.inRange (UInt32.ofNat 8) ∧ i.site.Asserted (UInt32.ofNat 8))) ∧
          (∀ a, (∀ i ∈ [conditionalBranch], ¬ i.Covers a) → out a = conditionalLinked a) ∧
          OthersIntact .aarch64 (conditionalRegistered 8) () out :=
  finalizeBranch_of_run (s := conditionalRegistered 8)
    (conditionalRegistered_reached (by decide) (by decide)) (v := ()) (x := 0) rfl
    (Nat.le_refl 1)

/-- **A branch that is too far away**: when a megabyte of code has been emitted behind it, a
conditional branch of AArch64 cannot be made to go to the current position, and finalizing
throws. -/
theorem farConditionalBranch_refused :
    Relation.ReflTransGen (ChainStep .aarch64) (ChainState.initial conditionalOutput)
        (conditionalRegistered (2 ^ 20)) ∧
      (conditionalRegistered (2 ^ 20)).links () = some 0 ∧
      finalizeBranch .aarch64 (UInt32.ofNat (2 ^ 20)) 0 1 (conditionalRegistered (2 ^ 20)).out =
        .error .conditionalBranchesOrAdr1MB conditionalLinked ∧
      ¬ ∃ ended out, finalizeBranch .aarch64 (UInt32.ofNat (2 ^ 20)) 0 1
          (conditionalRegistered (2 ^ 20)).out = .ok ended out ∧
        Retargeted conditionalLinked out (UInt32.ofNat (2 ^ 20)) [conditionalBranch] := by
  have hrefused : finalizeBranch .aarch64 (UInt32.ofNat (2 ^ 20)) 0 1
      (conditionalRegistered (2 ^ 20)).out =
        .error .conditionalBranchesOrAdr1MB conditionalLinked := rfl
  refine ⟨conditionalRegistered_reached (by decide) (by decide), rfl, hrefused, ?_⟩
  rintro ⟨ended, out, hok, -⟩
  rw [hrefused] at hok
  cases hok

end WasmCompiler
