import WasmCompiler.BitFields
import WasmCompiler.CompilerMemory

/-!
# Patch Sites

A patch site is an instruction in the emitted code whose displacement is filled in later. This
file says what a patch site is and what linking it has to do, whatever the instruction set:
after a successful link the instruction targets the given position, the position can be read
back, nothing but the displacement has changed, and a link that fails changes nothing.

## Main results

* `readWord_writeWord`: little-endian words of the output.
* `PcRelForm.Matches.of_agree`: writing a displacement does not change what an instruction is.
* `PatchSite.linkAll_law`: a site that obeys the law once obeys it after any sequence of links.
-/

namespace WasmCompiler

open BitField

/-! ### The output -/

/-- The bytes of the output by position, what lies behind its end included. -/
abbrev Output := ℕ → UInt8

/-- `readFromPtr<uint32_t>`, little-endian. -/
def readWord (out : Output) (position : ℕ) : BitVec 32 :=
  ((out (position + 3)).toBitVec ++ (out (position + 2)).toBitVec) ++
    ((out (position + 1)).toBitVec ++ (out position).toBitVec)

/-- `writeToPtr<uint32_t>`, little-endian. -/
def writeWord (out : Output) (position : ℕ) (word : BitVec 32) : Output := fun a =>
  if position ≤ a ∧ a < position + 4 then
    UInt8.ofBitVec (word.extractLsb' (8 * (a - position)) 8)
  else out a

/-- A word is what has been written. -/
@[simp] theorem readWord_writeWord (out : Output) (position : ℕ) (word : BitVec 32) :
    readWord (writeWord out position word) position = word := by
  have hbyte : ∀ k, k < 4 → (writeWord out position word (position + k)).toBitVec =
      word.extractLsb' (8 * k) 8 := by
    intro k hk
    rw [writeWord, if_pos ⟨by omega, by omega⟩, show position + k - position = k by omega]
  have h0 := hbyte 0 (by omega)
  rw [Nat.add_zero] at h0
  rw [readWord, hbyte 3 (by omega), hbyte 2 (by omega), hbyte 1 (by omega), h0]
  have hlow := extract_append_extract word 0 8 8
  have hhigh := extract_append_extract word 16 8 8
  have hword := extract_append_extract word 0 16 16
  simp only [Nat.zero_add, Nat.mul_zero, Nat.reduceMul, Nat.reduceAdd] at *
  rw [hlow, hhigh, hword, BitVec.extractLsb'_eq_self]

/-- The bytes before and behind the word are as before. -/
theorem writeWord_outside {out : Output} {position a : ℕ} {word : BitVec 32}
    (h : a < position ∨ position + 4 ≤ a) : writeWord out position word a = out a := by
  rw [writeWord, if_neg (by omega)]

/-- A word depends on its four bytes only. -/
theorem readWord_congr {out out' : Output} {position : ℕ}
    (h : ∀ a, position ≤ a → a < position + 4 → out' a = out a) :
    readWord out' position = readWord out position := by
  rw [readWord, readWord, h _ (by omega) (by omega), h _ (by omega) (by omega),
    h _ (by omega) (by omega), h _ (by omega) (by omega)]

/-! ### Instructions with a displacement -/

/-- The exceptions of a link; `assertionFailed` stands for what is only asserted. -/
inductive PatchError where
  | assertionFailed
  | conditionalBranchesOrAdr1MB
  | branches128MB
  | branches32BitSigned
  | conditionalBranchesOrLea32kB
  | branches16MB
  deriving DecidableEq, Repr

/-- A form of an instruction that is relative to the program counter: which words have the
form, in which bits of the word the displacement is, and what the displacement is. -/
structure PcRelForm where
  mask : BitVec 32
  value : BitVec 32
  field : BitVec 32
  offset : BitVec 32 → ℤ
  decoded_outside : mask &&& field = 0#32

/-- A word has the form. -/
def PcRelForm.Matches (form : PcRelForm) (op : BitVec 32) : Prop := op &&& form.mask = form.value

instance (form : PcRelForm) (op : BitVec 32) : Decidable (form.Matches op) :=
  inferInstanceAs (Decidable (_ = _))

/-- **Writing a displacement does not change what an instruction is.** -/
theorem PcRelForm.Matches.of_agree {form : PcRelForm} {op op' : BitVec 32}
    (h : form.Matches op) (hagree : AgreeOutside form.field op op') : form.Matches op' :=
  (hagree.and_eq form.decoded_outside).trans h

/-- A bit that a form fixes. -/
theorem PcRelForm.Matches.getLsbD {form : PcRelForm} {op : BitVec 32} (h : form.Matches op)
    {i : ℕ} (hi : form.mask.getLsbD i = true) : op.getLsbD i = form.value.getLsbD i := by
  rw [← h, BitVec.getLsbD_and, hi, Bool.and_true]

/-! ### Patch sites -/

/-- An instruction in the output that can be linked: whether it is there, which outputs
differ from each other in its displacement only, where it goes when it is executed, counted
from the start of the output, and what the compiler does with it. `inRange` and `Asserted`
are what a link checks and asserts of the target, `rangeError` is what it throws. -/
structure PatchSite where
  Encodes : Output → Prop
  SameOutside : Output → Output → Prop
  executedTarget : Output → ℤ
  inRange : UInt32 → Prop
  Asserted : UInt32 → Prop
  rangeError : PatchError
  linkToBinaryPos : UInt32 → EStateM PatchError Output Unit
  getLinkedBinaryPos : Output → Except PatchError UInt32

namespace PatchSite

variable {site : PatchSite} {out out' : Output} {p : UInt32}

/-- What a successful link has done. -/
structure Linked (site : PatchSite) (out : Output) (p : UInt32) (out' : Output) : Prop where
  encodes : site.Encodes out'
  target : site.executedTarget out' = p.toNat
  sameOutside : site.SameOutside out out'

/-- **The law of a link.** It succeeds exactly if what it checks and asserts is so; then the
instruction targets the position and nothing else has changed. Otherwise it throws and
changes nothing, and so it does for every target that no displacement reaches. -/
structure LinkLaw (site : PatchSite) (out : Output) (p : UInt32) : Prop where
  linked : ∀ out', site.linkToBinaryPos p out = .ok () out' → site.Linked out p out'
  refused : ∀ e out', site.linkToBinaryPos p out = .error e out' → out' = out
  accepted : site.inRange p → site.Asserted p → ∃ out', site.linkToBinaryPos p out = .ok () out'
  outOfRange : ¬ site.inRange p → site.linkToBinaryPos p out = .error site.rangeError out
  notAsserted : site.inRange p → ¬ site.Asserted p →
    site.linkToBinaryPos p out = .error .assertionFailed out
  unreachable : (∀ out', site.SameOutside out out' → site.executedTarget out' ≠ p.toNat) →
    ∃ e, site.linkToBinaryPos p out = .error e out

/-- The position read back after a link is the one that was given. -/
def ReadsBack (site : PatchSite) (out : Output) (p : UInt32) : Prop :=
  ∀ out', site.linkToBinaryPos p out = .ok () out' → site.getLinkedBinaryPos out' = .ok p

/-- A link that checks, asserts and writes obeys the law. -/
theorem LinkLaw.of_link {c d : Prop} [Decidable c] [Decidable d] {patched : Output}
    (hlink : site.linkToBinaryPos p out =
      if ¬ c then .error site.rangeError out
      else if ¬ d then .error .assertionFailed out
      else .ok () patched)
    (hc : site.inRange p ↔ c) (hd : site.Asserted p ↔ d)
    (hlinked : c → d → site.Linked out p patched) : LinkLaw site out p := by
  by_cases hrange : c
  · by_cases hasserted : d
    · rw [if_neg (not_not_intro hrange), if_neg (not_not_intro hasserted)] at hlink
      have hpatched := hlinked hrange hasserted
      constructor
      · intro out' hout'
        rw [hlink] at hout'
        cases hout'
        exact hpatched
      · intro e out' hout'
        rw [hlink] at hout'
        cases hout'
      · exact fun _ _ => ⟨_, hlink⟩
      · exact fun h => absurd (hc.mpr hrange) h
      · exact fun _ h => absurd (hd.mpr hasserted) h
      · exact fun h => absurd hpatched.target (h _ hpatched.sameOutside)
    · rw [if_neg (not_not_intro hrange), if_pos hasserted] at hlink
      constructor
      · intro out' hout'
        rw [hlink] at hout'
        cases hout'
      · intro e out' hout'
        rw [hlink] at hout'
        cases hout'
        rfl
      · exact fun _ h => absurd (hd.mp h) hasserted
      · exact fun h => absurd (hc.mpr hrange) h
      · exact fun _ _ => hlink
      · exact fun _ => ⟨_, hlink⟩
  · rw [if_pos hrange] at hlink
    constructor
    · intro out' hout'
      rw [hlink] at hout'
      cases hout'
    · intro e out' hout'
      rw [hlink] at hout'
      cases hout'
      rfl
    · exact fun h _ => absurd (hc.mp h) hrange
    · exact fun _ => hlink
    · exact fun h _ => absurd (hc.mp h) hrange
    · exact fun _ => ⟨_, hlink⟩

/-! ### Sequences of links -/

/-- One link after the other; one that throws leaves the output to the next. -/
def linkAll (site : PatchSite) (out : Output) (positions : List UInt32) : Output :=
  positions.foldl (fun out p => finalState (site.linkToBinaryPos p) out) out

/-- A site that obeys the law wherever its instruction is in the output. -/
structure Relinkable (site : PatchSite) : Prop where
  law : ∀ out, site.Encodes out → ∀ p, LinkLaw site out p
  refl : ∀ out, site.SameOutside out out
  trans : ∀ out out' out'', site.SameOutside out out' → site.SameOutside out' out'' →
    site.SameOutside out out''

/-- What one link of a sequence keeps. -/
theorem Relinkable.finalState (h : site.Relinkable) (hout : site.Encodes out) (p : UInt32) :
    site.Encodes (finalState (site.linkToBinaryPos p) out) ∧
      site.SameOutside out (WasmCompiler.finalState (site.linkToBinaryPos p) out) := by
  have hlaw := h.law out hout p
  cases hlink : site.linkToBinaryPos p out with
  | ok _ out' =>
      have hlinked := hlaw.linked out' hlink
      simp only [WasmCompiler.finalState, hlink]
      exact ⟨hlinked.encodes, hlinked.sameOutside⟩
  | error e out' =>
      obtain rfl := hlaw.refused e out' hlink
      simp only [WasmCompiler.finalState, hlink]
      exact ⟨hout, h.refl _⟩

/-- **Any sequence of links** leaves the instruction in the output, with nothing changed but
its displacement. -/
theorem Relinkable.linkAll (h : site.Relinkable) (hout : site.Encodes out)
    (positions : List UInt32) :
    site.Encodes (site.linkAll out positions) ∧
      site.SameOutside out (site.linkAll out positions) := by
  induction positions generalizing out with
  | nil => exact ⟨hout, h.refl out⟩
  | cons p positions ih =>
      obtain ⟨hencodes, hsame⟩ := h.finalState hout p
      obtain ⟨hencodes', hsame'⟩ := ih hencodes
      exact ⟨hencodes', h.trans _ _ _ hsame hsame'⟩

end PatchSite

end WasmCompiler
