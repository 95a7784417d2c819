import ScriptLift.Proofs.Lift.Stays
import ScriptLift.Proofs.Lift.Trace

/-!
# What rows bring about

* `Closing`: a statement that a label closes, with the blocks before and after.
* `Event`: a class or a handler is begun, a statement is made, a statement is closed.
* `events`: what a row brings about in a state, by its opcode.
* `countOf_events`: events that all rows of an opcode bring about, and no others, are as many as
  these rows.
* `made`, `closings`: the kinds of the statements made and the statements closed, over moments.
-/

namespace ScriptLift.Lift

/-- The block that an open statement fills. -/
def Open.own? : Open → Option Address
  | handler n => some ⟨n, []⟩
  | conditional s => some (s.body .yes)
  | whileLoop s | forLoop s => some (s.body .loop)
  | select s _ arms => some (s.body (.arm (arms - 1)))
  | pendingElse s => some (s.body .no)
  | pendingFor | pendingCase => none

def Open.isSelect : Open → Bool
  | select .. => true
  | _ => false

/-- A statement that a label closes, with the blocks before and after. -/
structure Closing where
  statement : Open
  before : List Address
  after : List Address

/-- What a row may bring about. -/
inductive Event where
  | newClass
  | newHandler
  | made (k : Kind)
  | closed (x : Closing)

namespace Event

def made? : Event → Option Kind
  | made k => some k
  | _ => none

def closed? : Event → Option Closing
  | closed x => some x
  | _ => none

/-- The opcode whose rows bring the event about, where every row of that opcode does. -/
def opcode? : Event → Option Opcode
  | newClass => some .classBegin
  | newHandler => some .handlerBegin
  | made .ret => some .exitHandler
  | made .super => some .callSuper
  | _ => none

/-- How often rows of an opcode bring about what they stand for. -/
def countOf (op : Opcode) (evs : List Event) : Nat := evs.countP (·.opcode? == some op)

theorem countOf_append (op : Opcode) (evs evs' : List Event) :
    countOf op (evs ++ evs') = countOf op evs + countOf op evs' :=
  List.countP_append

/-- How often statements of a kind are made. -/
def countMade (k : Kind) (evs : List Event) : Nat := (evs.filterMap made?).count k

theorem countMade_append (k : Kind) (evs evs' : List Event) :
    countMade k (evs ++ evs') = countMade k evs + countMade k evs' := by
  simp [countMade]

theorem countMade_made (k k' : Kind) : countMade k [made k'] = if k = k' then 1 else 0 := by
  by_cases h : k = k'
  · simp [countMade, made?, h]
  · simp [countMade, made?, h, Ne.symm h]

/-- The statements of a kind that all rows of an opcode make, and no others. -/
theorem countMade_eq {k : Kind} {op : Opcode}
    (h : ∀ e : Event, (e.made? == some k) = (e.opcode? == some op)) (evs : List Event) :
    countMade k evs = countOf op evs := by
  rw [countMade, List.count_filterMap, countOf]
  exact congrArg (List.countP · evs) (funext h)

theorem countMade_ret (evs : List Event) : countMade .ret evs = countOf .exitHandler evs := by
  refine countMade_eq (fun e => ?_) evs
  cases e with
  | made k => cases k <;> rfl
  | _ => rfl

theorem countMade_super (evs : List Event) : countMade .super evs = countOf .callSuper evs := by
  refine countMade_eq (fun e => ?_) evs
  cases e with
  | made k => cases k <;> rfl
  | _ => rfl

end Event

/-! ## Rows -/

/-- What closing the innermost open statement at a label brings about, from one state to another. -/
def closingEvents (c : Cursor) (st st' : State) : List Event :=
  match st.statements with
  | [] => []
  | o :: _ =>
    (if o.isSelect && endsInBreak c then [.made .brk] else []) ++
      [.closed ⟨o, st.blocks, st'.blocks⟩]

/-- What closing open statements at a label brings about, up to the one that cannot be closed. -/
def labelEvents (c : Cursor) (st : State) : List Event :=
  if h : st.targets.contains c.row.name then
    match h' : closeOne c st with
    | .ok st' =>
      have : openWork st' < openWork st :=
        openWork_closeOne (by intro hn; simp [hn] at h) h'
      closingEvents c st st' ++ labelEvents c st'
    | .error _ => []
  else []
termination_by openWork st

section

variable {c : Cursor} {st st' : State}

theorem labelEvents_idle (h : c.row.name ∉ st.targets) : labelEvents c st = [] := by
  rw [labelEvents, dif_neg (by simpa using h)]

theorem labelEvents_step (h : c.row.name ∈ st.targets) (h' : closeOne c st = .ok st') :
    labelEvents c st = closingEvents c st st' ++ labelEvents c st' := by
  rw [labelEvents, dif_pos (by simpa using h)]
  split
  · rename_i st₁ h₁
    obtain rfl : st' = st₁ := by simpa [h'] using h₁
    rfl
  · rename_i h₁
    simp [h'] at h₁

theorem labelEvents_stuck {e : Halt} (h : c.row.name ∈ st.targets) (h' : closeOne c st = .error e) :
    labelEvents c st = [] := by
  rw [labelEvents, dif_pos (by simpa using h)]
  split
  · rename_i h₁
    simp [h'] at h₁
  · rfl

end

/-- What a conditional branch brings about. -/
def branchEvents (c : Cursor) (st : State) : List Event :=
  if opensWhile c st then [.made .whileLoop]
  else if st.topIs Open.isPendingCase then []
  else if opensSelect c st then [.made .select]
  else if Row.does .jump c.next? then []
  else if c.next?.any Row.isLabel || !c.prev?.any Row.isIntFetch then [.made .ifElse]
  else []

/-- Whether a jump goes to the end of the innermost loop. -/
def leavesLoop (c : Cursor) (st : State) : Bool :=
  (loopDepth? st).any fun i => st.targets[i]? == some (c.row.operand 0)

/-- What a row outside default texts brings about. -/
def rowEvents (c : Cursor) (st : State) : List Event :=
  match c.row.opcode with
  | .classBegin => [.newClass]
  | .handlerBegin => [.newHandler]
  | .exitHandler => [.made .ret]
  | .callSuper => [.made .super]
  | .branchFalse => branchEvents c st
  | .assign => if st.topIs Open.isPendingFor then [.made .forLoop] else []
  | .jump => if leavesLoop c st then [.made .brk] else []
  | .label => labelEvents c { st with seen := c.row.name :: st.seen }
  | _ => []

/-- What a row brings about. -/
def events (m : Moment) : List Event :=
  match m.state.mode with
  | .parameterText => []
  | _ => rowEvents m.cursor m.state

/-- The kinds of the statements made, in order. -/
def made (ms : List Moment) : List Kind := (ms.flatMap events).filterMap Event.made?

/-- The statements closed, in order. -/
def closings (ms : List Moment) : List Closing := (ms.flatMap events).filterMap Event.closed?

theorem closings_cons (m : Moment) (ms : List Moment) :
    closings (m :: ms) = (events m).filterMap Event.closed? ++ closings ms := by
  simp [closings]

theorem events_of_ne {m : Moment} (h : m.state.mode ≠ .parameterText) :
    events m = rowEvents m.cursor m.state := by
  unfold events
  split
  · rename_i heq
    exact absurd heq h
  · rfl

/-! ## Counting -/

theorem opcode?_branchEvents {c : Cursor} {st : State} {e : Event} (h : e ∈ branchEvents c st) :
    e.opcode? = none := by
  unfold branchEvents at h
  split_ifs at h <;> simp at h <;> subst h <;> rfl

theorem opcode?_closingEvents {c : Cursor} {st st' : State} {e : Event}
    (h : e ∈ closingEvents c st st') : e.opcode? = none := by
  unfold closingEvents at h
  split at h
  · cases h
  · split_ifs at h <;> simp at h
    · rcases h with rfl | rfl <;> rfl
    · subst h
      rfl

theorem opcode?_labelEvents {c : Cursor} {st : State} {e : Event} (h : e ∈ labelEvents c st) :
    e.opcode? = none := by
  induction st using labelEvents.induct c with
  | case1 st ht st₁ hone _ ih =>
    rw [labelEvents_step (by simpa using ht) hone] at h
    rcases List.mem_append.mp h with h | h
    · exact opcode?_closingEvents h
    · exact ih h
  | case2 st ht _ hone => simp [labelEvents_stuck (by simpa using ht) hone] at h
  | case3 st ht => simp [labelEvents_idle (by simpa using ht)] at h

/-- The opcodes whose rows all bring about the same. -/
def hasOwnEvent : Opcode → Bool
  | .classBegin | .handlerBegin | .exitHandler | .callSuper => true
  | _ => false

theorem countOf_silent {op op' : Opcode} {evs : List Event} (hop : hasOwnEvent op)
    (h : ∀ e ∈ evs, e.opcode? = none) (h' : hasOwnEvent op' = false) :
    Event.countOf op evs = if op' = op then 1 else 0 := by
  have hne : op' ≠ op := by
    rintro rfl
    simp [hop] at h'
  rw [if_neg hne, Event.countOf, List.countP_eq_zero]
  intro e he
  simp [h e he]

theorem countOf_rowEvents {op : Opcode} (hop : hasOwnEvent op) (c : Cursor) (st : State) :
    Event.countOf op (rowEvents c st) = if c.row.opcode = op then 1 else 0 := by
  unfold rowEvents
  generalize c.row.opcode = op'
  cases op' with
  | branchFalse => exact countOf_silent hop (fun e => opcode?_branchEvents) rfl
  | label => exact countOf_silent hop (fun e => opcode?_labelEvents) rfl
  | assign | jump =>
    refine countOf_silent hop (fun e he => ?_) rfl
    dsimp only at he
    split at he <;> simp at he
    subst he
    rfl
  | classBegin | handlerBegin | exitHandler | callSuper =>
    cases op <;> simp [hasOwnEvent] at hop <;> rfl
  | _ => exact countOf_silent hop (by simp) rfl

/-- **Events that all rows of an opcode bring about** are as many as these rows. -/
theorem countOf_events {op : Opcode} (hop : hasOwnEvent op) (ms : List Moment) :
    Event.countOf op (ms.flatMap events) = ms.countP (·.does op) := by
  induction ms with
  | nil => rfl
  | cons m ms ih =>
    rw [List.flatMap_cons, Event.countOf_append, ih, List.countP_cons, Nat.add_comm]
    congr 1
    by_cases hm : m.state.mode = .parameterText
    · simp [events, hm, Moment.does, Event.countOf]
    · rw [events_of_ne hm, countOf_rowEvents hop]
      simp [Moment.does, hm]

end ScriptLift.Lift
