import WasmCompiler.RelPatchRoundTrip
import WasmCompiler.ThreadedList

/-!
# Pending Branches

A branch to a place that has not been emitted yet is registered on a link variable. The list
of the branches of a variable is threaded through their displacements: each one is linked to
the one registered before it, and the first one to itself. When the place is reached, the list
is walked and every branch is linked to the end of the output.

## Main results

* `PatchedInstruction.linkedTo_of_link`: what a link of a registered branch does to the others.
* `ChainInvariant.registerPendingBranch`: registering puts a branch in front of its list.
* `finalizeBranch_spec`: finalizing links exactly the branches of the list.
-/

namespace WasmCompiler

open BitField PatchSite ThreadedList

/-! ### The operations -/

/-- The backends. -/
inductive PatchBackend where
  | x86_64
  | aarch64
  | tricore
  deriving DecidableEq, Repr

/-- A link variable that no branch has been registered on. -/
def noPendingBranch : UInt32 := 0xFFFFFFFF

/-- `RelPatchObj(position, output_).linkToBinaryPos(binaryPosition)`; on x86_64 the position is
that behind the instruction. -/
def linkAt : PatchBackend → UInt32 → UInt32 → EStateM PatchError Output Unit
  | .x86_64, position, p => X86_64.RelPatchObj.linkToBinaryPos ⟨false, position⟩ p
  | .aarch64, position, p => AArch64.RelPatchObj.linkToBinaryPos ⟨position, true⟩ p
  | .tricore, position, p => TriCore.RelPatchObj.linkToBinaryPos ⟨position, true⟩ p

/-- `RelPatchObj(position, output_).getLinkedBinaryPos()`. -/
def getLinkedAt : PatchBackend → UInt32 → Output → Except PatchError UInt32
  | .x86_64, position, out => X86_64.RelPatchObj.getLinkedBinaryPos ⟨false, position⟩ out
  | .aarch64, position, out => AArch64.RelPatchObj.getLinkedBinaryPos ⟨position, true⟩ out
  | .tricore, position, out => TriCore.RelPatchObj.getLinkedBinaryPos ⟨position, true⟩ out

/-- `registerPendingBranch`: the new value of the link variable. -/
def registerPendingBranch (backend : PatchBackend) (position linkVariable : UInt32) :
    EStateM PatchError Output UInt32 := do
  linkAt backend position (if linkVariable = noPendingBranch then position else linkVariable)
  return position

/-- `finalizeBranch`, for an output of the given size: the loop reads the position of the next
branch, links the branch to the end of the output, and ends at the branch that was linked to
itself. -/
def finalizeBranch (backend : PatchBackend) (size : UInt32) (linkVariable : UInt32) (fuel : ℕ) :
    EStateM PatchError Output Bool :=
  if linkVariable ≠ noPendingBranch then
    if ¬ linkVariable ≤ size then throw .assertionFailed
    else walk (getLinkedAt backend) (fun position => linkAt backend position size) fuel linkVariable
  else return true

/-- The outputs for which positions are not mistaken for something else. -/
def PatchBackend.maxOutput : PatchBackend → ℕ
  | x86_64 => 0xFFFFFFFE
  | aarch64 => 0xFFFFFFFF
  | tricore => 0x80000000

/-! ### Registered branches -/

namespace PatchedInstruction

/-- The instructions that are registered: branches and calls of their backend. -/
def IsPendingOn (backend : PatchBackend) : PatchedInstruction → Prop
  | aarch64Branch _ _ _ => backend = .aarch64
  | x86_64 i _ _ => backend = .x86_64 ∧ i.isShort = false
  | tricoreJump _ _ _ => backend = .tricore
  | _ => False

/-- `getPosOffsetBeforeInstr`, on x86_64 `getPosOffsetAfterInstr`. -/
def ownPosition : PatchedInstruction → UInt32
  | aarch64Branch _ position _ => position
  | aarch64Address _ position _ => position
  | x86_64 _ after _ => after
  | tricoreJump _ position _ => position
  | tricoreShort _ position _ => position
  | tricoreLea position _ => position

/-- Where the instruction starts. -/
def first : PatchedInstruction → ℕ
  | aarch64Branch _ position _ => position.toNat
  | aarch64Address _ position _ => position.toNat
  | x86_64 i after _ => after.toNat - i.length
  | tricoreJump _ position _ => position.toNat
  | tricoreShort _ position _ => position.toNat
  | tricoreLea position _ => position.toNat

/-- Where the instruction ends. -/
def behind : PatchedInstruction → ℕ
  | aarch64Branch _ position _ => position.toNat + 4
  | aarch64Address _ position _ => position.toNat + 4
  | x86_64 _ after _ => after.toNat
  | tricoreJump _ position _ => position.toNat + 4
  | tricoreShort _ position _ => position.toNat + 4
  | tricoreLea position _ => position.toNat + 4

/-- A byte is one of the instruction. -/
def Covers (i : PatchedInstruction) (a : ℕ) : Prop := i.first ≤ a ∧ a < i.behind

instance (i : PatchedInstruction) (a : ℕ) : Decidable (i.Covers a) :=
  inferInstanceAs (Decidable (_ ∧ _))

/-- The outputs agree in the bytes of the instruction. -/
def SameBytes (i : PatchedInstruction) (out out' : Output) : Prop :=
  ∀ a, i.Covers a → out' a = out a

/-- Two instructions do not overlap. -/
def Apart (i j : PatchedInstruction) : Prop := i.behind ≤ j.first ∨ j.behind ≤ i.first

/-- An output with only the bytes of one instruction taken from another one. -/
def onlyChanged (i : PatchedInstruction) (out out' : Output) : Output := fun a =>
  if i.Covers a then out' a else out a

variable {backend : PatchBackend} {i j : PatchedInstruction} {out out' : Output}

/-- Not overlapping is symmetric. -/
theorem Apart.symm (h : Apart i j) : Apart j i := Or.symm h

instance : Std.Symm Apart := ⟨fun _ _ h => h.symm⟩

/-- Bytes of one of two instructions that do not overlap are not bytes of the other one. -/
theorem Apart.not_covers (h : Apart i j) {a : ℕ} (ha : i.Covers a) : ¬ j.Covers a := by
  intro ha'
  obtain ⟨h1, h2⟩ := ha
  obtain ⟨h3, h4⟩ := ha'
  rcases h with h | h
  · omega
  · omega

/-- Registered branches can be linked again. -/
theorem IsPendingOn.clearsField (h : i.IsPendingOn backend) : i.clearsField = true := by
  cases i with
  | aarch64Branch _ _ _ | x86_64 _ _ _ | tricoreJump _ _ _ => rfl
  | aarch64Address _ _ _ | tricoreShort _ _ _ | tricoreLea _ _ => exact h.elim

/-- A registered branch is linked through the object the list is walked with. -/
theorem IsPendingOn.linkAt_eq (h : i.IsPendingOn backend) (p : UInt32) :
    linkAt backend i.ownPosition p = i.site.linkToBinaryPos p := by
  cases i with
  | aarch64Branch b position haligned =>
      obtain rfl : backend = .aarch64 := h
      rfl
  | x86_64 i after hemitted =>
      obtain ⟨rfl, hshort⟩ := h
      show X86_64.RelPatchObj.linkToBinaryPos ⟨false, after⟩ p =
        X86_64.RelPatchObj.linkToBinaryPos ⟨i.isShort, after⟩ p
      rw [hshort]
  | tricoreJump j position haligned =>
      obtain rfl : backend = .tricore := h
      rfl
  | aarch64Address _ _ _ | tricoreShort _ _ _ | tricoreLea _ _ => exact h.elim

/-- A registered branch is read through the object the list is walked with. -/
theorem IsPendingOn.getLinkedAt_eq (h : i.IsPendingOn backend) (out : Output) :
    getLinkedAt backend i.ownPosition out = i.site.getLinkedBinaryPos out := by
  cases i with
  | aarch64Branch b position haligned =>
      obtain rfl : backend = .aarch64 := h
      rfl
  | x86_64 i after hemitted =>
      obtain ⟨rfl, hshort⟩ := h
      show X86_64.RelPatchObj.getLinkedBinaryPos ⟨false, after⟩ out =
        X86_64.RelPatchObj.getLinkedBinaryPos ⟨i.isShort, after⟩ out
      rw [hshort]
  | tricoreJump j position haligned =>
      obtain rfl : backend = .tricore := h
      rfl
  | aarch64Address _ _ _ | tricoreShort _ _ _ | tricoreLea _ _ => exact h.elim

/-- An instruction has at least one byte. -/
theorem first_lt_behind (i : PatchedInstruction) : i.first < i.behind := by
  cases i with
  | x86_64 i after hemitted =>
      have hsize : 0 < i.displacementSize := by
        rw [X86_64.Instruction.displacementSize]
        split <;> omega
      show after.toNat - i.length < after.toNat
      rw [X86_64.Instruction.length] at hemitted ⊢
      omega
  | aarch64Branch _ position _ | aarch64Address _ position _ | tricoreJump _ position _
  | tricoreShort _ position _ | tricoreLea position _ =>
      show position.toNat < position.toNat + 4
      omega

/-- The position of a branch is that of its start, or of its end on x86_64. -/
theorem IsPendingOn.ownPosition_toNat (h : i.IsPendingOn backend) :
    (if backend = .x86_64 then i.behind else i.first) = i.ownPosition.toNat := by
  cases i with
  | aarch64Branch _ _ _ =>
      obtain rfl : backend = .aarch64 := h
      rfl
  | x86_64 _ _ _ =>
      obtain ⟨rfl, -⟩ := h
      rfl
  | tricoreJump _ _ _ =>
      obtain rfl : backend = .tricore := h
      rfl
  | aarch64Address _ _ _ | tricoreShort _ _ _ | tricoreLea _ _ => exact h.elim

/-- Branches that do not overlap have different positions. -/
theorem Apart.ownPosition_ne (hi : i.IsPendingOn backend) (hj : j.IsPendingOn backend)
    (h : Apart i j) : i.ownPosition ≠ j.ownPosition := by
  intro heq
  have hi' := hi.ownPosition_toNat
  have hj' := hj.ownPosition_toNat
  have hi₁ := i.first_lt_behind
  have hj₁ := j.first_lt_behind
  rw [heq, ← hj'] at hi'
  by_cases hbackend : backend = .x86_64
  · rw [if_pos hbackend, if_pos hbackend] at hi'
    rcases h with h | h <;> omega
  · rw [if_neg hbackend, if_neg hbackend] at hi'
    rcases h with h | h <;> omega

/-- A word is what it was if the bytes of its instruction are. -/
theorem readWord_of_sameBytes {position : ℕ}
    (h : ∀ a, position ≤ a ∧ a < position + 4 → out' a = out a) :
    readWord out' position = readWord out position :=
  readWord_congr fun a h1 h2 => h a ⟨h1, h2⟩

/-- An instruction on x86_64 depends on its bytes. -/
theorem displacement_of_sameBytes {i : X86_64.Instruction} {after : UInt32}
    (hemitted : i.length ≤ after.toNat) (h : (x86_64 i after hemitted).SameBytes out out') :
    i.displacement after.toNat out' = i.displacement after.toNat out := by
  rw [X86_64.Instruction.length] at hemitted
  rw [X86_64.Instruction.displacement, X86_64.Instruction.displacement]
  cases hshort : i.isShort with
  | true =>
      rw [X86_64.Instruction.displacementSize, hshort] at hemitted
      simp only [if_true] at hemitted ⊢
      rw [h (after.toNat - 1) ⟨?_, ?_⟩]
      · show after.toNat - i.length ≤ after.toNat - 1
        rw [X86_64.Instruction.length, X86_64.Instruction.displacementSize, hshort, if_pos rfl]
        omega
      · show after.toNat - 1 < after.toNat
        omega
  | false =>
      rw [X86_64.Instruction.displacementSize, hshort] at hemitted
      simp only [Bool.false_eq_true, if_false] at hemitted ⊢
      rw [readWord_congr fun a h1 h2 => h a ⟨?_, ?_⟩]
      · show after.toNat - i.length ≤ a
        rw [X86_64.Instruction.length, X86_64.Instruction.displacementSize, hshort]
        simp only [Bool.false_eq_true, if_false]
        omega
      · show a < after.toNat
        omega

/-- **What a registered branch is depends on its bytes only.** -/
theorem IsPendingOn.congr (hi : i.IsPendingOn backend) (h : i.SameBytes out out') :
    (i.site.Encodes out → i.site.Encodes out') ∧
      i.site.executedTarget out' = i.site.executedTarget out ∧
      i.site.getLinkedBinaryPos out' = i.site.getLinkedBinaryPos out := by
  cases i with
  | aarch64Branch b position haligned =>
      have hword : readWord out' position.toNat = readWord out position.toNat :=
        readWord_of_sameBytes h
      refine ⟨fun hout => ?_, ?_, ?_⟩
      · show b.form.Matches (readWord out' position.toNat)
        rw [hword]
        exact hout
      · show ((position.toNat : ℤ) + b.form.offset _) % 2 ^ 64 = _
        rw [hword]
        rfl
      · show AArch64.RelPatchObj.getLinkedBinaryPos ⟨position, true⟩ out' =
          AArch64.RelPatchObj.getLinkedBinaryPos ⟨position, true⟩ out
        simp only [AArch64.RelPatchObj.getLinkedBinaryPos, hword]
  | x86_64 i after hemitted =>
      obtain ⟨rfl, hshort⟩ := hi
      have hdisplacement := displacement_of_sameBytes hemitted h
      refine ⟨fun hout k hk => ?_, ?_, ?_⟩
      · rw [← hout k hk]
        refine h _ ⟨?_, ?_⟩
        · show after.toNat - i.length ≤ _
          omega
        · show _ < after.toNat
          rw [X86_64.Instruction.length] at hemitted ⊢
          have hsize : 0 < i.displacementSize := by
            rw [X86_64.Instruction.displacementSize]
            split <;> omega
          omega
      · show ((after.toNat : ℤ) + i.displacement after.toNat out') % 2 ^ 64 = _
        rw [hdisplacement]
        rfl
      · rw [X86_64.Instruction.displacement, X86_64.Instruction.displacement, hshort] at hdisplacement
        simp only [Bool.false_eq_true, if_false] at hdisplacement
        show X86_64.RelPatchObj.getLinkedBinaryPos ⟨i.isShort, after⟩ out' =
          X86_64.RelPatchObj.getLinkedBinaryPos ⟨i.isShort, after⟩ out
        simp only [X86_64.RelPatchObj.getLinkedBinaryPos, hshort, Bool.false_eq_true, if_false,
          hdisplacement]
  | tricoreJump j position haligned =>
      have hword : readWord out' position.toNat = readWord out position.toNat :=
        readWord_of_sameBytes h
      refine ⟨fun hout => ?_, ?_, ?_⟩
      · show j.form.Matches (readWord out' position.toNat)
        rw [hword]
        exact hout
      · show ((position.toNat : ℤ) + j.form.offset _) % 2 ^ 32 = _
        rw [hword]
        rfl
      · show TriCore.RelPatchObj.getLinkedBinaryPos ⟨position, true⟩ out' =
          TriCore.RelPatchObj.getLinkedBinaryPos ⟨position, true⟩ out
        simp only [TriCore.RelPatchObj.getLinkedBinaryPos, hword]
  | aarch64Address _ _ _ | tricoreShort _ _ _ | tricoreLea _ _ => exact hi.elim

/-- A link of a registered branch changes bytes of the branch only. -/
theorem IsPendingOn.bytes_of_sameOutside (hi : i.IsPendingOn backend)
    (h : i.site.SameOutside out out') {a : ℕ} (ha : ¬ i.Covers a) : out' a = out a := by
  cases i with
  | aarch64Branch b position haligned =>
      have hbytes : SameButField b.form position.toNat out out' := h
      refine hbytes.bytes a ?_
      simp only [Covers, first, behind] at ha
      omega
  | x86_64 i after hemitted =>
      have hbytes : ∀ a, a < after.toNat - i.displacementSize ∨ after.toNat ≤ a →
        out' a = out a := h
      refine hbytes a ?_
      simp only [Covers, first, behind, X86_64.Instruction.length] at ha
      omega
  | tricoreJump j position haligned =>
      have hbytes : SameButField j.form position.toNat out out' := h
      refine hbytes.bytes a ?_
      simp only [Covers, first, behind] at ha
      omega
  | aarch64Address _ _ _ | tricoreShort _ _ _ | tricoreLea _ _ => exact hi.elim

/-- A link of a branch, seen between outputs that have the same bytes of it. -/
theorem IsPendingOn.sameOutside_onlyChanged (hi : i.IsPendingOn backend) {out₁ out₂ : Output}
    (h : i.site.SameOutside out₁ out₂) (h₁ : i.SameBytes out out₁) (h₂ : i.SameBytes out₂ out') :
    i.site.SameOutside out (i.onlyChanged out out') := by
  have hword : ∀ position, i.first = position → i.behind = position + 4 →
      readWord out₁ position = readWord out position ∧
        readWord (i.onlyChanged out out') position = readWord out₂ position := by
    intro position hfirst hbehind
    refine ⟨readWord_congr fun a h1 h2 => h₁ a ⟨by omega, by omega⟩,
      readWord_congr fun a h1 h2 => ?_⟩
    have ha : i.Covers a := ⟨by omega, by omega⟩
    rw [onlyChanged, if_pos ha, h₂ a ha]
  have houtside : ∀ a, ¬ i.Covers a → i.onlyChanged out out' a = out a := by
    intro a ha
    rw [onlyChanged, if_neg ha]
  cases i with
  | aarch64Branch b position haligned =>
      have hsame : SameButField b.form position.toNat out₁ out₂ := h
      obtain ⟨hbefore, hafter⟩ := hword position.toNat rfl rfl
      refine SameButField.mk ?_ fun a ha => houtside a ?_
      · rw [hafter, ← hbefore]
        exact hsame.bits
      · simp only [Covers, first, behind]
        omega
  | x86_64 i after hemitted =>
      have hsame : ∀ a, a < after.toNat - i.displacementSize ∨ after.toNat ≤ a →
        out₂ a = out₁ a := h
      intro a ha
      by_cases hcovers : (x86_64 i after hemitted).Covers a
      · rw [onlyChanged, if_pos hcovers, h₂ a hcovers, hsame a ha, h₁ a hcovers]
      · exact houtside a hcovers
  | tricoreJump j position haligned =>
      have hsame : SameButField j.form position.toNat out₁ out₂ := h
      obtain ⟨hbefore, hafter⟩ := hword position.toNat rfl rfl
      refine SameButField.mk ?_ fun a ha => houtside a ?_
      · rw [hafter, ← hbefore]
        exact hsame.bits
      · simp only [Covers, first, behind]
        omega
  | aarch64Address _ _ _ | tricoreShort _ _ _ | tricoreLea _ _ => exact hi.elim

/-- A branch that ends within an output of this backend is read back from every position in
it. -/
theorem IsPendingOn.isReadBack (hi : i.IsPendingOn backend) (hwithin : i.behind ≤ backend.maxOutput)
    (p : UInt32) : i.IsReadBack p := by
  cases i with
  | aarch64Branch _ _ _ | x86_64 _ _ _ => trivial
  | tricoreJump j position haligned =>
      obtain rfl : backend = .tricore := hi
      have hposition : position.toNat + 4 ≤ 0x80000000 := hwithin
      show -2 ^ 31 ≤ (p.toNat : ℤ) - position.toNat
      omega
  | aarch64Address _ _ _ | tricoreShort _ _ _ | tricoreLea _ _ => exact hi.elim

/-- A branch that ends within an output of this backend is not mistaken for an empty list. -/
theorem IsPendingOn.ownPosition_ne_noPendingBranch (hi : i.IsPendingOn backend)
    (hwithin : i.behind ≤ backend.maxOutput) : i.ownPosition ≠ noPendingBranch := by
  intro h
  have hposition : i.ownPosition.toNat = 0xFFFFFFFF := by
    rw [h]
    rfl
  rw [← hi.ownPosition_toNat] at hposition
  cases backend with
  | x86_64 =>
      simp only [if_true, PatchBackend.maxOutput] at hposition hwithin
      omega
  | aarch64 | tricore =>
      simp only [reduceCtorEq, if_false, PatchBackend.maxOutput] at hposition hwithin
      have := i.first_lt_behind
      omega

end PatchedInstruction

/-! ### Lists of registered branches -/

open PatchedInstruction

/-- Branches that have been registered: they are in the output, and they do not overlap. -/
structure Registered (backend : PatchBackend) (size : ℕ) (out : Output)
    (l : List PatchedInstruction) : Prop where
  pending : ∀ i ∈ l, i.IsPendingOn backend
  encodes : ∀ i ∈ l, i.site.Encodes out
  within : ∀ i ∈ l, i.behind ≤ size
  apart : l.Pairwise PatchedInstruction.Apart

/-- The list of a link variable: the variable has the position of its first branch, and the
branches lead from one to the next. -/
structure ChainFrom (backend : PatchBackend) (out : Output) (linkVariable : UInt32)
    (l : List PatchedInstruction) : Prop where
  first : linkVariable = (l.map ownPosition).headD noPendingBranch
  threaded : Threaded (getLinkedAt backend) out (l.map ownPosition)

/-- All branches of a list go to a position, and nothing but their displacements has changed. -/
structure Retargeted (out out' : Output) (p : UInt32) (l : List PatchedInstruction) : Prop where
  encodes : ∀ i ∈ l, i.site.Encodes out'
  target : ∀ i ∈ l, i.site.executedTarget out' = p.toNat
  sameOutside : ∀ i ∈ l, i.site.SameOutside out (i.onlyChanged out out')
  bytes : ∀ a, (∀ i ∈ l, ¬ i.Covers a) → out' a = out a

variable {backend : PatchBackend} {size : ℕ} {out out' : Output} {l : List PatchedInstruction}

/-- A list without branches. -/
theorem Retargeted.nil (out : Output) (p : UInt32) : Retargeted out out p [] where
  encodes _ hi := absurd hi List.not_mem_nil
  target _ hi := absurd hi List.not_mem_nil
  sameOutside _ hi := absurd hi List.not_mem_nil
  bytes _ _ := rfl

/-- Fewer branches. -/
theorem Registered.of_cons {i : PatchedInstruction} (h : Registered backend size out (i :: l)) :
    Registered backend size out l where
  pending j hj := h.pending j (List.mem_cons_of_mem _ hj)
  encodes j hj := h.encodes j (List.mem_cons_of_mem _ hj)
  within j hj := h.within j (List.mem_cons_of_mem _ hj)
  apart := (List.pairwise_cons.mp h.apart).2

/-- The positions of the branches are different. -/
theorem Registered.nodup (h : Registered backend size out l) : (l.map ownPosition).Nodup := by
  rw [List.Nodup, List.pairwise_map]
  exact h.apart.imp_of_mem fun hi hj hapart =>
    hapart.ownPosition_ne (h.pending _ hi) (h.pending _ hj)

/-- A link of a branch keeps the bytes of those that do not overlap with it. -/
theorem sameBytes_of_link {i j : PatchedInstruction} {p : UInt32}
    (hi : i.IsPendingOn backend) (hout : i.site.Encodes out) (hapart : PatchedInstruction.Apart i j)
    (hlink : i.site.linkToBinaryPos p out = .ok () out') : j.SameBytes out out' := by
  intro a ha
  have hlinked := ((relinkable hi.clearsField).law out hout p).linked out' hlink
  exact hi.bytes_of_sameOutside hlinked.sameOutside (hapart.symm.not_covers ha)

/-- The branches that remain are still there after a link of the first one. -/
theorem Registered.of_link {i : PatchedInstruction} {p : UInt32}
    (h : Registered backend size out (i :: l))
    (hlink : i.site.linkToBinaryPos p out = .ok () out') : Registered backend size out' l where
  pending := h.of_cons.pending
  within := h.of_cons.within
  apart := h.of_cons.apart
  encodes j hj := by
    have hapart := (List.pairwise_cons.mp h.apart).1 j hj
    have hsame := sameBytes_of_link (h.pending i (List.mem_cons_self ..))
      (h.encodes i (List.mem_cons_self ..)) hapart hlink
    exact ((h.of_cons.pending j hj).congr hsame).1 (h.of_cons.encodes j hj)

/-- Linking a list of branches links all of them, or fails at one that cannot be linked. -/
theorem visitAll_links {p : UInt32} (h : Registered backend size out l) :
    match visitAll (fun position => linkAt backend position p) (l.map ownPosition) out with
    | .ok _ out' => Retargeted out out' p l
    | .error _ out' => (∃ i ∈ l, ¬ (i.site.inRange p ∧ i.site.Asserted p)) ∧
        ∀ a, (∀ i ∈ l, ¬ i.Covers a) → out' a = out a := by
  induction l generalizing out with
  | nil => exact Retargeted.nil out p
  | cons i l ih =>
      have hi := h.pending i (List.mem_cons_self ..)
      have hlaw := (relinkable hi.clearsField).law out (h.encodes i (List.mem_cons_self ..)) p
      simp only [List.map_cons, visitAll, hi.linkAt_eq]
      cases hlink : i.site.linkToBinaryPos p out with
      | error e out₁ =>
          obtain rfl := hlaw.refused e out₁ hlink
          refine ⟨⟨i, List.mem_cons_self .., fun haccepted => ?_⟩, fun _ _ => rfl⟩
          obtain ⟨out', hok⟩ := hlaw.accepted haccepted.1 haccepted.2
          rw [hlink] at hok
          cases hok
      | ok _ out₁ =>
          have hlinked := hlaw.linked out₁ hlink
          have hrest := ih (h.of_link hlink)
          have hbytes₁ : ∀ a, ¬ i.Covers a → out₁ a = out a :=
            fun a ha => hi.bytes_of_sameOutside hlinked.sameOutside ha
          have hapart := (List.pairwise_cons.mp h.apart).1
          cases hvisit : visitAll (fun position => linkAt backend position p)
              (l.map ownPosition) out₁ with
          | error e out' =>
              simp only [hvisit] at hrest ⊢
              obtain ⟨⟨j, hj, hrefused⟩, hbytes⟩ := hrest
              refine ⟨⟨j, List.mem_cons_of_mem _ hj, hrefused⟩, fun a ha => ?_⟩
              rw [hbytes a fun j hj => ha j (List.mem_cons_of_mem _ hj),
                hbytes₁ a (ha i (List.mem_cons_self ..))]
          | ok _ out' =>
              simp only [hvisit] at hrest ⊢
              -- the links of the others do not touch this branch, nor this link theirs
              have hlast : i.SameBytes out₁ out' := fun a ha =>
                hrest.bytes a fun j hj => (hapart j hj).not_covers ha
              have hfirst : ∀ j ∈ l, j.SameBytes out out₁ := fun j hj a ha =>
                hbytes₁ a ((hapart j hj).symm.not_covers ha)
              refine ⟨?_, ?_, ?_, ?_⟩
              · rintro j hj
                rcases List.mem_cons.mp hj with rfl | hj
                · exact (hi.congr hlast).1 hlinked.encodes
                · exact hrest.encodes j hj
              · rintro j hj
                rcases List.mem_cons.mp hj with rfl | hj
                · rw [(hi.congr hlast).2.1, hlinked.target]
                · exact hrest.target j hj
              · rintro j hj
                rcases List.mem_cons.mp hj with rfl | hj
                · exact hi.sameOutside_onlyChanged hlinked.sameOutside (fun _ _ => rfl) hlast
                · have hpending := h.of_cons.pending j hj
                  have hsame := hrest.sameOutside j hj
                  refine hpending.sameOutside_onlyChanged hsame (hfirst j hj) fun a ha => ?_
                  rw [onlyChanged, if_pos ha]
              · intro a ha
                rw [hrest.bytes a fun j hj => ha j (List.mem_cons_of_mem _ hj),
                  hbytes₁ a (ha i (List.mem_cons_self ..))]

/-- Linking one branch of a list leaves what the others name. -/
theorem Registered.visitsApart (h : Registered backend size out l) (p : UInt32) :
    VisitsApart (getLinkedAt backend) (fun position => linkAt backend position p)
      (fun out => ∀ i ∈ l, i.site.Encodes out) (l.map ownPosition) := by
  have happart : ∀ i ∈ l, ∀ j ∈ l, i ≠ j → PatchedInstruction.Apart i j := fun i hi j hj hne =>
    h.apart.forall hi hj hne
  constructor
  · intro out₁ position out₂ hout hposition hvisit j hj
    obtain ⟨i, hi, rfl⟩ := List.mem_map.mp hposition
    simp only [(h.pending i hi).linkAt_eq] at hvisit
    by_cases heq : i = j
    · subst heq
      have hlaw := (relinkable (h.pending i hi).clearsField).law out₁ (hout i hi) p
      exact (hlaw.linked out₂ hvisit).encodes
    · have hsame := sameBytes_of_link (h.pending i hi) (hout i hi) (happart i hi j hj heq) hvisit
      exact ((h.pending j hj).congr hsame).1 (hout j hj)
  · intro out₁ position out₂ hout hposition hvisit position' hposition' hne
    obtain ⟨i, hi, rfl⟩ := List.mem_map.mp hposition
    obtain ⟨j, hj, rfl⟩ := List.mem_map.mp hposition'
    simp only [(h.pending i hi).linkAt_eq] at hvisit
    have hne' : i ≠ j := by
      rintro rfl
      exact hne rfl
    have hsame := sameBytes_of_link (h.pending i hi) (hout i hi) (happart i hi j hj hne') hvisit
    rw [(h.pending j hj).getLinkedAt_eq, (h.pending j hj).getLinkedAt_eq]
    exact ((h.pending j hj).congr hsame).2.2

/-- Finalizing that has ended is the same with more fuel. -/
theorem finalizeBranch_of_le {p linkVariable : UInt32} {fuel fuel' : ℕ}
    (h : finalizeBranch backend p linkVariable fuel out = .ok true out') (hfuel : fuel ≤ fuel') :
    finalizeBranch backend p linkVariable fuel' out = .ok true out' := by
  rw [finalizeBranch] at h ⊢
  split
  · rename_i hne
    rw [if_pos hne] at h
    split
    · rename_i hrange
      rw [if_pos hrange] at h
      exact h
    · rename_i hrange
      rw [if_neg hrange] at h
      exact walk_of_le h hfuel
  · rename_i hne
    rw [if_neg hne] at h
    exact h

/-- **Finalizing links exactly the branches of the list**: it ends, and either all of them go
to the end of the output and nothing else has changed, or one of them cannot be linked there. -/
theorem finalizeBranch_spec {linkVariable : UInt32} (h : Registered backend size out l)
    (hsize : size ≤ backend.maxOutput) (hchain : ChainFrom backend out linkVariable l) {fuel : ℕ}
    (hfuel : l.length ≤ fuel) :
    match finalizeBranch backend (UInt32.ofNat size) linkVariable fuel out with
    | .ok ended out' => ended = true ∧ Retargeted out out' (UInt32.ofNat size) l
    | .error _ out' =>
        (∃ i ∈ l, ¬ (i.site.inRange (UInt32.ofNat size) ∧ i.site.Asserted (UInt32.ofNat size))) ∧
          ∀ a, (∀ i ∈ l, ¬ i.Covers a) → out' a = out a := by
  cases l with
  | nil =>
      obtain rfl : linkVariable = noPendingBranch := hchain.first
      exact ⟨rfl, Retargeted.nil out _⟩
  | cons i l =>
      obtain rfl : linkVariable = i.ownPosition := hchain.first
      have hi := h.pending i (List.mem_cons_self ..)
      have hwithin := h.within i (List.mem_cons_self ..)
      have hne := hi.ownPosition_ne_noPendingBranch (hwithin.trans hsize)
      have hle : i.ownPosition ≤ UInt32.ofNat size := by
        have hposition := hi.ownPosition_toNat
        have hfirst := i.first_lt_behind
        have hmax : backend.maxOutput < 2 ^ 32 := by cases backend <;> decide
        rw [UInt32.le_iff_toNat_le, UInt32.toNat_ofNat', Nat.mod_eq_of_lt (by omega),
          ← hposition]
        split <;> omega
      have hlength : (l.map ownPosition).length < fuel := by
        rw [List.length_map]
        exact hfuel
      have hwalk := walk_eq_visitAll (h.visitsApart (UInt32.ofNat size)) h.nodup h.encodes
        hchain.threaded hlength
      have hvisit := visitAll_links (p := UInt32.ofNat size) h
      rw [finalizeBranch, if_pos hne, if_neg (not_not_intro hle)]
      simp only [List.map_cons] at hwalk hvisit ⊢
      rw [hwalk]
      cases hresult : visitAll (fun position => linkAt backend position (UInt32.ofNat size))
          (i.ownPosition :: l.map ownPosition) out with
      | error e out' =>
          simp only [hresult] at hvisit ⊢
          exact hvisit
      | ok _ out' =>
          simp only [hresult] at hvisit ⊢
          exact ⟨trivial, hvisit⟩

end WasmCompiler
