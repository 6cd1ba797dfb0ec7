import Mathlib.Logic.Relation
import Mathlib.Data.List.Basic

/-!
# Inductive Assertions for Code with Labels

Code is a list of instructions. An instruction falls through to the next one or jumps to a
label, and may do either in more than one way; what it does to the state is a relation. An
assertion is given to every label and holds between any two instructions; if every
instruction carries the assertion before it to the one after it and to those of the labels
it jumps to, every run satisfies them, loops included.

## Main results

* `Flows.append`: pieces of code compose at the assertion between them.
* `Flows.safe_of_reaches`: in every run, every instruction that is reached is safe.
-/

namespace WasmCompiler

/-- What the instructions of a language do: the label an instruction defines, and how it
goes on, falling through or jumping. -/
structure JumpSemantics (ι σ : Type) where
  label? : ι → Option ℕ
  falls : ι → σ → σ → Prop
  jumps : ι → ℕ → σ → σ → Prop

namespace JumpSemantics

variable {ι σ : Type} (sem : JumpSemantics ι σ)

/-- The code behind the first definition of a label. -/
def findLabel (l : ℕ) : List ι → Option (List ι)
  | [] => none
  | i :: rest => if sem.label? i = some l then some rest else findLabel l rest

/-- One step, for the code that remains and the state. -/
inductive Step (code : List ι) : List ι × σ → List ι × σ → Prop
  | falls {i : ι} {rest : List ι} {s s' : σ} :
      sem.falls i s s' → Step code (i :: rest, s) (rest, s')
  | jumps {i : ι} {rest rest' : List ι} {l : ℕ} {s s' : σ} :
      sem.jumps i l s s' → sem.findLabel l code = some rest' →
      Step code (i :: rest, s) (rest', s')

/-- A run. -/
abbrev Reaches (code : List ι) : List ι × σ → List ι × σ → Prop :=
  Relation.ReflTransGen (sem.Step code)

/-- An instruction carries one assertion to another: it is safe where the first one holds,
what it falls through with satisfies the second one, what it jumps with satisfies that of
the label, and the second one covers what arrives at a label it defines. -/
structure Carries (labelled : ℕ → σ → Prop) (safe : ι → σ → Prop) (before : σ → Prop) (i : ι)
    (after : σ → Prop) : Prop where
  safe : ∀ s, before s → safe i s
  falls : ∀ s s', before s → sem.falls i s s' → after s'
  jumps : ∀ s s' l, before s → sem.jumps i l s s' → labelled l s'
  label : ∀ l, sem.label? i = some l → ∀ s, labelled l s → after s

/-- Code that carries one assertion to another, instruction by instruction. -/
inductive Flows (labelled : ℕ → σ → Prop) (safe : ι → σ → Prop) :
    (σ → Prop) → List ι → (σ → Prop) → Prop
  | nil (a : σ → Prop) : Flows labelled safe a [] a
  | cons {before between after : σ → Prop} {i : ι} {rest : List ι} :
      sem.Carries labelled safe before i between → Flows labelled safe between rest after →
      Flows labelled safe before (i :: rest) after

namespace Flows

variable {sem} {labelled : ℕ → σ → Prop} {safe : ι → σ → Prop}
  {before between after : σ → Prop} {code code' : List ι}

/-- Pieces of code compose. -/
theorem append (h : sem.Flows labelled safe before code between)
    (h' : sem.Flows labelled safe between code' after) :
    sem.Flows labelled safe before (code ++ code') after := by
  induction h with
  | nil _ => exact h'
  | cons hi _ ih => exact .cons hi (ih h')

/-- One instruction. -/
theorem single {i : ι} (h : sem.Carries labelled safe before i after) :
    sem.Flows labelled safe before [i] after := .cons h (.nil _)

/-- What arrives at a label goes on with an assertion that covers it. -/
theorem of_findLabel (h : sem.Flows labelled safe before code after) {l : ℕ} {rest : List ι}
    (hl : sem.findLabel l code = some rest) :
    ∃ between, (∀ s, labelled l s → between s) ∧
      sem.Flows labelled safe between rest after := by
  induction h with
  | nil _ => simp [findLabel] at hl
  | @cons _ between _ i rest' hi hrest ih =>
      simp only [findLabel] at hl
      split at hl
      · case _ hlabel =>
          obtain rfl := Option.some.inj hl
          exact ⟨between, hi.label l hlabel, hrest⟩
      · exact ih hl

/-- **The run rule**: wherever a run is, an assertion holds from which the remaining code
goes on. -/
theorem invariant (h : sem.Flows labelled safe before code after) {s : σ} (hs : before s)
    {c : List ι × σ} (hr : sem.Reaches code (code, s) c) :
    ∃ between, between c.2 ∧ sem.Flows labelled safe between c.1 after := by
  induction hr with
  | refl => exact ⟨before, hs, h⟩
  | tail _ hstep ih =>
      obtain ⟨current, hcurrent, hflows⟩ := ih
      cases hstep with
      | falls hfalls =>
          cases hflows with
          | cons hi hrest => exact ⟨_, hi.falls _ _ hcurrent hfalls, hrest⟩
      | jumps hjumps hfind =>
          cases hflows with
          | cons hi _ =>
              obtain ⟨target, hcover, hrest⟩ := h.of_findLabel hfind
              exact ⟨target, hcover _ (hi.jumps _ _ _ hcurrent hjumps), hrest⟩

/-- **Every instruction a run reaches is safe.** -/
theorem safe_of_reaches (h : sem.Flows labelled safe before code after) {s s' : σ}
    (hs : before s) {i : ι} {rest : List ι}
    (hr : sem.Reaches code (code, s) (i :: rest, s')) : safe i s' := by
  obtain ⟨between, hbetween, hflows⟩ := h.invariant hs hr
  cases hflows with
  | cons hi _ => exact hi.safe _ hbetween

end Flows

end JumpSemantics

end WasmCompiler
