import Mathlib.Tactic
import ScriptLift.Lift.Run

/-!
# Moments of a run

* `Moment`: a row with the rows around it, and the state in which a run meets it.
* `trace`, `moments`: the moments of a run, in order, up to the row at which it ends early.
* `trace_keeps`: what every row keeps holds at all moments.
* `trace_split`: the moments after some of them are those of a run from the state reached.
-/

namespace ScriptLift.Lift

/-- A row with the rows around it, and the state in which a run meets it. -/
structure Moment where
  cursor : Cursor
  state : State

/-- Whether the row is met outside default texts and does `op`. -/
def Moment.does (op : Opcode) (m : Moment) : Bool :=
  m.state.mode != .parameterText && m.cursor.row.opcode == op

variable (sy : Symbols) (opts : Options)

/-- The moments of a run from a state; `before` are the rows before it, nearest first. -/
def trace (before : List Row) : List Row → State → List Moment
  | [], _ => []
  | row :: after, st =>
    ⟨⟨before, row, after⟩, st⟩ ::
      match step sy opts ⟨before, row, after⟩ st with
      | .ok st' => trace (row :: before) after st'
      | .error _ => []

/-- The moments of lifting a listing. -/
def moments (l : Listing) : List Moment := trace sy opts [] l.rows .initial

variable {sy opts} {before rows : List Row} {row : Row} {st st' : State}

theorem trace_ok {after : List Row} (h : step sy opts ⟨before, row, after⟩ st = .ok st') :
    trace sy opts before (row :: after) st =
      ⟨⟨before, row, after⟩, st⟩ :: trace sy opts (row :: before) after st' := by
  rw [trace, h]

theorem trace_error {after : List Row} {e : Halt}
    (h : step sy opts ⟨before, row, after⟩ st = .error e) :
    trace sy opts before (row :: after) st = [⟨⟨before, row, after⟩, st⟩] := by
  rw [trace, h]

theorem run_ok {after : List Row} (h : step sy opts ⟨before, row, after⟩ st = .ok st') :
    run sy opts before (row :: after) st = run sy opts (row :: before) after st' := by
  rw [run, h]

theorem run_error {after : List Row} {e : Halt}
    (h : step sy opts ⟨before, row, after⟩ st = .error e) :
    run sy opts before (row :: after) st = .error ⟨e, row, st.decl⟩ := by
  rw [run, h]

theorem run_of_lift {l : Listing} {d : ClassDecl} (h : lift sy opts l = .ok d) :
    ∃ st, run sy opts [] l.rows .initial = .ok st ∧ st.result? = some d := by
  unfold lift at h
  split at h
  · cases h
  · rename_i st hrun
    split at h
    · rename_i d' hd
      cases h
      exact ⟨st, hrun, hd⟩
    · cases h

/-- What every row keeps holds at all moments. -/
theorem trace_keeps {P : State → Prop}
    (hP : ∀ c st st', P st → step sy opts c st = .ok st' → P st') (h : P st) :
    ∀ m ∈ trace sy opts before rows st, P m.state := by
  induction rows generalizing before st with
  | nil => simp [trace]
  | cons row after ih =>
    intro m hm
    cases hstep : step sy opts ⟨before, row, after⟩ st with
    | error e =>
      rw [trace_error hstep, List.mem_singleton] at hm
      exact hm ▸ h
    | ok st₁ =>
      rw [trace_ok hstep, List.mem_cons] at hm
      rcases hm with rfl | hm
      · exact h
      · exact ih (hP _ _ _ h hstep) m hm

/-- The moments from one of them on are those of a run from the state in which it is met, which ends
as the whole run does. That state is the first one or the one that the row before leads to. -/
theorem trace_split {earlier later : List Moment} {m : Moment}
    (h : trace sy opts before rows st = earlier ++ m :: later) :
    (∃ before' rows', m :: later = trace sy opts before' rows' m.state ∧
      run sy opts before' rows' m.state = run sy opts before rows st) ∧
      ((earlier = [] ∧ m.state = st) ∨
        ∃ last, earlier.getLast? = some last ∧ step sy opts last.cursor last.state = .ok m.state) := by
  induction rows generalizing before st earlier with
  | nil => simp [trace] at h
  | cons row after ih =>
    cases earlier with
    | nil =>
      have hm : m.state = st := by
        have := congrArg List.head? h
        simp only [trace, List.head?_cons, List.nil_append, Option.some.injEq] at this
        rw [← this]
      exact ⟨⟨before, row :: after, by rw [hm, h]; rfl, by rw [hm]⟩, .inl ⟨rfl, hm⟩⟩
    | cons x earlier =>
      cases hstep : step sy opts ⟨before, row, after⟩ st with
      | error e => simp [trace_error hstep] at h
      | ok st₁ =>
        rw [trace_ok hstep, List.cons_append, List.cons.injEq] at h
        obtain ⟨rfl, h⟩ := h
        obtain ⟨hrest, hlast⟩ := ih h
        refine ⟨run_ok hstep ▸ hrest, .inr ?_⟩
        rcases hlast with ⟨rfl, hm⟩ | ⟨last, hlast, hs⟩
        · exact ⟨_, rfl, hm ▸ hstep⟩
        · refine ⟨last, ?_, hs⟩
          rw [List.getLast?_cons, hlast]
          rfl

end ScriptLift.Lift
