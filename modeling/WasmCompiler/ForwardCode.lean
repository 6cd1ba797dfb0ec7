import Mathlib.Data.List.Basic

/-!
# Forward Code

Code without loops: a list of instructions, of which some jump over the instructions that
follow them and some end the execution with a trap. The instructions, the states they work on
and the traps are parameters, and so is what one instruction does.

Such code always ends. What it does to a state is found piece by piece: a piece without jumps
is a fold, a jump over a piece drops it, and what every instruction preserves is preserved by
the whole.

## Main results

* `run_append_of_straight`, `run_skip_append`: executing a piece, and jumping over one.
* `Passes.append`, `Passes.append_traps`: pieces that are passed or trap compose.
* `run_invariant`: what every instruction preserves is preserved.
* `run_isOk`: code without traps ends in a state.
-/

namespace WasmCompiler

namespace ForwardCode

/-- Where execution continues behind an instruction. -/
inductive Control (Trap : Type) where
  | next
  /-- Jump over the next instructions. -/
  | skip (count : ℕ)
  | trap (trapCode : Trap)
  deriving DecidableEq, Repr

variable {Instr State Trap : Type}

/-- Execute code of which the first instructions are jumped over. -/
def run (exec : Instr → State → Control Trap × State) :
    ℕ → List Instr → State → Except Trap State
  | _, [], s => .ok s
  | 0, i :: code, s =>
      match exec i s with
      | (.next, s') => run exec 0 code s'
      | (.skip count, s') => run exec count code s'
      | (.trap trapCode, _) => .error trapCode
  | count + 1, _ :: code, s => run exec count code s

variable {exec : Instr → State → Control Trap × State}

/-- Nothing is executed for no code. -/
@[simp] theorem run_nil (count : ℕ) (s : State) : run exec count [] s = .ok s := by
  cases count <;> rfl

/-- An instruction behind which execution continues. -/
theorem run_cons_of_next {i : Instr} {s : State} (h : (exec i s).1 = .next)
    (code : List Instr) : run exec 0 (i :: code) s = run exec 0 code (exec i s).2 := by
  rw [run]
  split <;> simp_all

/-- A jump. -/
theorem run_cons_of_skip {i : Instr} {s : State} {count : ℕ} (h : (exec i s).1 = .skip count)
    (code : List Instr) : run exec 0 (i :: code) s = run exec count code (exec i s).2 := by
  rw [run]
  split <;> simp_all

/-- An instruction that traps. -/
theorem run_cons_of_trap {i : Instr} {s : State} {trapCode : Trap}
    (h : (exec i s).1 = .trap trapCode) (code : List Instr) :
    run exec 0 (i :: code) s = .error trapCode := by
  rw [run]
  split <;> simp_all

/-- A jump over exactly a piece of code drops it. -/
theorem run_skip_append (skipped code : List Instr) (s : State) :
    run exec skipped.length (skipped ++ code) s = run exec 0 code s := by
  induction skipped with
  | nil => rfl
  | cons i skipped ih => simpa [run] using ih

/-- A jump to the end of the code. -/
theorem run_skip_of_length_le {count : ℕ} {code : List Instr} (h : code.length ≤ count)
    (s : State) : run exec count code s = .ok s := by
  induction code generalizing count with
  | nil => exact run_nil count s
  | cons i code ih =>
      cases count with
      | zero => simp at h
      | succ count => exact ih (by simpa using h)

/-- What a piece of code without jumps and traps does. -/
def execAll (exec : Instr → State → Control Trap × State) (code : List Instr) (s : State) :
    State :=
  code.foldl (fun s i => (exec i s).2) s

/-- Nothing is done by no code. -/
@[simp] theorem execAll_nil (s : State) : execAll exec [] s = s := rfl

/-- The first instruction comes first. -/
@[simp] theorem execAll_cons (i : Instr) (code : List Instr) (s : State) :
    execAll exec (i :: code) s = execAll exec code (exec i s).2 := rfl

/-- Instructions that neither jump nor trap, in any state. -/
def Straight (exec : Instr → State → Control Trap × State) (code : List Instr) : Prop :=
  ∀ i ∈ code, ∀ s, (exec i s).1 = .next

/-- A piece without jumps and traps is executed before what follows it. -/
theorem run_append_of_straight {code : List Instr} (h : Straight exec code)
    (code' : List Instr) (s : State) :
    run exec 0 (code ++ code') s = run exec 0 code' (execAll exec code s) := by
  induction code generalizing s with
  | nil => rfl
  | cons i code ih =>
      have hnext := h i List.mem_cons_self s
      rw [List.cons_append, run_cons_of_next hnext, execAll_cons]
      exact ih (fun j hj => h j (List.mem_cons_of_mem i hj)) _

/-- A piece without jumps and traps at the end of the code. -/
theorem run_of_straight {code : List Instr} (h : Straight exec code) (s : State) :
    run exec 0 code s = .ok (execAll exec code s) := by
  have hrun := run_append_of_straight h [] s
  rwa [List.append_nil, run_nil] at hrun

/-- Execution of a piece of code ends behind it, whatever follows. -/
def Passes (exec : Instr → State → Control Trap × State) (code : List Instr) (s s' : State) :
    Prop :=
  ∀ code', run exec 0 (code ++ code') s = run exec 0 code' s'

/-- Execution of a piece of code ends in it with a trap, whatever follows. -/
def Traps (exec : Instr → State → Control Trap × State) (code : List Instr) (s : State)
    (trapCode : Trap) : Prop :=
  ∀ code', run exec 0 (code ++ code') s = .error trapCode

/-- Straight code is passed. -/
theorem passes_of_straight {code : List Instr} (h : Straight exec code) (s : State) :
    Passes exec code s (execAll exec code s) :=
  fun code' => run_append_of_straight h code' s

/-- An instruction behind which execution continues is passed. -/
theorem passes_singleton {i : Instr} {s s' : State} (h : exec i s = (.next, s')) :
    Passes exec [i] s s' := by
  intro code'
  rw [List.singleton_append, run_cons_of_next (by rw [h]), h]

/-- One piece behind another. -/
theorem Passes.append {code code' : List Instr} {s s' s'' : State} (h : Passes exec code s s')
    (h' : Passes exec code' s' s'') : Passes exec (code ++ code') s s'' := by
  intro rest
  rw [List.append_assoc, h, h']

/-- A piece that is passed before one that traps. -/
theorem Passes.append_traps {code code' : List Instr} {s s' : State} {trapCode : Trap}
    (h : Passes exec code s s') (h' : Traps exec code' s' trapCode) :
    Traps exec (code ++ code') s trapCode := by
  intro rest
  rw [List.append_assoc, h, h']

/-- A piece that traps, whatever is behind it. -/
theorem Traps.append {code : List Instr} {s : State} {trapCode : Trap}
    (h : Traps exec code s trapCode) (code' : List Instr) :
    Traps exec (code ++ code') s trapCode := by
  intro rest
  rw [List.append_assoc, h]

/-- Code that is passed ends in the state behind it. -/
theorem Passes.run_eq {code : List Instr} {s s' : State} (h : Passes exec code s s') :
    run exec 0 code s = .ok s' := by
  have hrun := h []
  rwa [List.append_nil, run_nil] at hrun

/-- Code that traps ends with the trap. -/
theorem Traps.run_eq {code : List Instr} {s : State} {trapCode : Trap}
    (h : Traps exec code s trapCode) : run exec 0 code s = .error trapCode := by
  have hrun := h []
  rwa [List.append_nil] at hrun

/-- **Invariants of code**: what every instruction preserves is preserved, whatever is jumped
over. -/
theorem run_invariant {P : State → Prop} {code : List Instr}
    (hpreserves : ∀ i ∈ code, ∀ s, P s → P (exec i s).2) {count : ℕ} {s s' : State} (h : P s)
    (hrun : run exec count code s = .ok s') : P s' := by
  induction code generalizing count s with
  | nil =>
      rw [run_nil] at hrun
      cases hrun
      exact h
  | cons i code ih =>
      have hrest := fun j hj => hpreserves j (List.mem_cons_of_mem i hj)
      have hstep := hpreserves i List.mem_cons_self s h
      cases count with
      | succ count => exact ih hrest h hrun
      | zero =>
          cases hcontrol : (exec i s).1 with
          | next =>
              rw [run_cons_of_next hcontrol] at hrun
              exact ih hrest hstep hrun
          | skip n =>
              rw [run_cons_of_skip hcontrol] at hrun
              exact ih hrest hstep hrun
          | trap trapCode =>
              rw [run_cons_of_trap hcontrol] at hrun
              cases hrun

/-- Code whose instructions never trap ends in a state. -/
theorem run_isOk {code : List Instr} (h : ∀ i ∈ code, ∀ s t, (exec i s).1 ≠ .trap t)
    (count : ℕ) (s : State) : ∃ s', run exec count code s = .ok s' := by
  induction code generalizing count s with
  | nil => exact ⟨s, run_nil count s⟩
  | cons i code ih =>
      have hrest := ih fun j hj => h j (List.mem_cons_of_mem i hj)
      cases count with
      | succ count => exact hrest count s
      | zero =>
          cases hcontrol : (exec i s).1 with
          | next =>
              rw [run_cons_of_next hcontrol]
              exact hrest 0 _
          | skip n =>
              rw [run_cons_of_skip hcontrol]
              exact hrest n _
          | trap trapCode => exact absurd hcontrol (h i List.mem_cons_self s trapCode)

end ForwardCode

end WasmCompiler
