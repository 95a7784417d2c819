import Mathlib.Tactic
import ScriptLift.Lift.Run

/-!
# Runs over part of a listing

* `advance`: the rows of a part of a listing, taken one by one between the rows before and after.
* `run_append`: a run over a listing goes on where the run over its first part ends.
* `Advances`: a part that is taken without a fault.
-/

namespace ScriptLift.Lift

variable (sy : Symbols) (opts : Options)

/-- Takes the rows of a part of a listing; `before` are the rows before it, nearest first, `after`
those that follow it. -/
def advance (before : List Row) : List Row → List Row → State → Except Stopped State
  | [], _, st => .ok st
  | row :: rest, after, st =>
    match step sy opts ⟨before, row, rest ++ after⟩ st with
    | .ok st' => advance (row :: before) rest after st'
    | .error halt => .error ⟨halt, row, st.decl⟩

theorem run_append (before rows after : List Row) (st : State) :
    run sy opts before (rows ++ after) st =
      (advance sy opts before rows after st).bind (run sy opts (rows.reverse ++ before) after) := by
  induction rows generalizing before st with
  | nil => rfl
  | cons row rest ih =>
    rw [List.cons_append, run, advance]
    cases step sy opts ⟨before, row, rest ++ after⟩ st with
    | error halt => rfl
    | ok st' =>
      simp only
      rw [ih]
      simp

theorem advance_append (before rows rows' after : List Row) (st : State) :
    advance sy opts before (rows ++ rows') after st =
      (advance sy opts before rows (rows' ++ after) st).bind
        (advance sy opts (rows.reverse ++ before) rows' after) := by
  induction rows generalizing before st with
  | nil => rfl
  | cons row rest ih =>
    rw [List.cons_append, advance, advance, List.append_assoc]
    cases step sy opts ⟨before, row, rest ++ (rows' ++ after)⟩ st with
    | error halt => rfl
    | ok st' =>
      simp only
      rw [ih]
      simp

/-- A part of a listing that is taken without a fault. -/
def Advances (before rows after : List Row) (st st' : State) : Prop :=
  advance sy opts before rows after st = .ok st'

variable {sy opts} {before rows rows' after : List Row} {row : Row} {st st' st'' : State}

theorem Advances.nil : Advances sy opts before [] after st st := rfl

theorem Advances.one (h : step sy opts ⟨before, row, after⟩ st = .ok st') :
    Advances sy opts before [row] after st st' := by
  rw [Advances, advance, List.nil_append, h]
  rfl

theorem Advances.append (h : Advances sy opts before rows (rows' ++ after) st st')
    (h' : Advances sy opts (rows.reverse ++ before) rows' after st' st'') :
    Advances sy opts before (rows ++ rows') after st st'' := by
  rw [Advances] at h h' ⊢
  rw [advance_append, h, ← h']
  rfl

theorem Advances.cons (h : step sy opts ⟨before, row, rows ++ after⟩ st = .ok st')
    (h' : Advances sy opts (row :: before) rows after st' st'') :
    Advances sy opts before (row :: rows) after st st'' := by
  rw [Advances] at h' ⊢
  rw [advance, h]
  exact h'

theorem Advances.snoc (h : Advances sy opts before rows (row :: after) st st')
    (h' : step sy opts ⟨rows.reverse ++ before, row, after⟩ st' = .ok st'') :
    Advances sy opts before (rows ++ [row]) after st st'' :=
  Advances.append h (.one h')

end ScriptLift.Lift
