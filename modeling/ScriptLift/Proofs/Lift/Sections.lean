import ScriptLift.Proofs.Lift.Twin

/-!
# Sections of handlers

* `Section`: the rows of a handler, from its first to its last.
* `Section.sees`: its rows do not see past its ends, when no label they refer to stands behind it.
* `Section.handler?`: the handler that a section makes alone.
* **`Section.advance_eq`**: among other sections it makes the same handler.
* `advance_sections`: sections one after the other make their handlers in order.
-/

namespace ScriptLift.Lift

/-- The rows of a handler. -/
structure Section where
  start : Row
  body : List Row
  fin : Row

/-- The names that branches and jumps refer to. -/
def refsOf (rows : List Row) : List String :=
  (rows.filter fun r => r.opcode == .branchFalse || r.opcode == .jump).map (·.operand 0)

namespace Section

/-- The rows of a section, in order. -/
def rows (x : Section) : List Row := x.start :: (x.body ++ [x.fin])

/-- A section is one handler, whose variable section is closed. -/
def isSound (x : Section) : Bool :=
  x.start.opcode == .handlerBegin && x.body.all isInner && x.fin.opcode == .handlerEnd &&
  x.body.foldl modeAfter .none == .none

/-- A section does not refer to labels of another one. -/
def Apart (x y : Section) : Prop := ∀ name ∈ refsOf x.rows, name ∉ labelsOf y.rows

instance (x y : Section) : Decidable (x.Apart y) :=
  inferInstanceAs (Decidable (∀ name ∈ refsOf x.rows, name ∉ labelsOf y.rows))

end Section

/-! ## What rows of a section see -/

section Sees

variable {start fin row : Row} {p rest before after : List Row}

theorem mem_refsOf {r : Row} {rows : List Row} (hr : r ∈ rows)
    (hop : r.opcode = .branchFalse ∨ r.opcode = .jump) : r.operand 0 ∈ refsOf rows :=
  List.mem_map_of_mem (List.mem_filter.mpr ⟨hr, by simpa using hop⟩)

/-- A label that does not stand behind a section is looked for within it. -/
theorem lastLabel?_fin (hfin : fin.opcode = .handlerEnd) {name : String}
    (hname : name ∉ labelsOf after) (r : Row) (rest : List Row) :
    lastLabel? name r (rest ++ fin :: after) = lastLabel? name r (rest ++ [fin]) := by
  induction rest generalizing r with
  | nil =>
    have hnot := isLabel_eq_false hfin (by simp)
    simp [lastLabel?, lastLabel?_eq_none hname, hnot]
  | cons x rest ih =>
    rw [List.cons_append, List.cons_append, lastLabel?, lastLabel?, ih x]
    cases rest <;> rfl

theorem stepMark?_start (hstart : start.opcode = .handlerBegin) (p before : List Row) (w : Nat) :
    stepMark? w (p ++ start :: before) = stepMark? w (p ++ [start]) := by
  have hnot : start.isIntFetch = false := by
    by_contra hf
    have hop := opcode_of_isFetch (isFetch_of_isIntFetch (by simpa using hf))
    simp [hstart] at hop
  match p with
  | [] => cases before <;> simp [stepMark?, hstart]
  | [op] => cases before <;> simp [stepMark?, hstart]
  | op :: one :: p =>
    rw [stepMark?_append (by simpa using hnot) w (by simp),
      stepMark?_append (by simpa using hnot) w (by simp)]

/-- Rows of a section do not see past its ends. -/
theorem sees_section (hstart : start.opcode = .handlerBegin) (hfin : fin.opcode = .handlerEnd)
    (hbefore : Row.does .pushEvent before.head? = false)
    (hlabels : ∀ name ∈ refsOf (row :: rest), name ∉ labelsOf after) :
    Cursor.Sees ⟨p ++ start :: before, row, rest ++ fin :: after⟩
      ⟨p ++ [start], row, rest ++ [fin]⟩ where
  row := rfl
  prev := by cases p <;> rfl
  next := by cases rest <;> rfl
  back := by
    match p with
    | [] =>
      show Row.does .pushEvent (before[0]?) = false
      rw [← List.head?_eq_getElem?, hbefore]
    | [_] => rfl
    | _ :: _ :: _ => rfl
  breaks := by
    have hnext : (rest ++ fin :: after).head? = (rest ++ [fin]).head? := by cases rest <;> rfl
    match p with
    | [] =>
      have hprev : Row.does .jump (some start) = false := by
        rw [Row.does, hstart]
        rfl
      show (Row.does .jump (some start) && _) = (Row.does .jump (some start) && _)
      rw [hprev, Bool.false_and, Bool.false_and]
    | [_] | _ :: _ :: _ =>
      simp only [endsInBreak, Cursor.next?, hnext]
      rfl
  mark := stepMark?_start hstart p before
  ahead hop := lastLabel?_fin hfin (hlabels _ (mem_refsOf List.mem_cons_self (.inl hop))) _ rest
  goesOn st := by
    cases rest with
    | nil => simp [selectGoesOn, hfin]
    | cons next rest =>
      rw [List.cons_append, List.cons_append, selectGoesOn, selectGoesOn]
      by_cases hop : next.opcode = .jump
      · have hmem : next.operand 0 ∈ refsOf (row :: next :: rest) :=
          mem_refsOf (by simp) (.inr hop)
        rw [ahead?, ahead?, lastLabel?_fin hfin (hlabels _ hmem)]
      · rw [if_neg (by simpa using hop), if_neg (by simpa using hop)]

end Sees

/-! ## One section -/

variable {sy : Symbols} {opts : Options} {d : ClassDecl} {τ : String → String}
  {types types₀ : Table String String} {hs : List Handler} {before after : List Row}

/-- What a section does alone. -/
def Section.alone (sy : Symbols) (opts : Options) (d : ClassDecl) (types : Table String String)
    (x : Section) : Except Stopped State :=
  advance sy opts [] x.rows [] (.idle d types [] 0)

/-- The handler that a section makes alone. -/
def Section.handler? (sy : Symbols) (opts : Options) (d : ClassDecl) (types : Table String String)
    (x : Section) : Option Handler :=
  match x.alone sy opts d types with
  | .ok st => st.handlers.head?
  | .error _ => none

/-- Rows of a section keep its states together. -/
theorem Twin.advance {start fin : Row} (hstart : start.opcode = .handlerBegin)
    (hfin : fin.opcode = .handlerEnd) (hbefore : Row.does .pushEvent before.head? = false)
    {rows : List Row} (hinner : ∀ r ∈ rows, isInner r)
    (hlabels : ∀ name ∈ refsOf rows, name ∉ labelsOf after) {m : Mode} (hm : m = .none ∨ m = .locals)
    {st st₀ : State} (h : Twin m d τ hs st st₀) (p : List Row) :
    Agree (Twin (rows.foldl modeAfter m) d τ hs)
      (advance sy opts (p ++ start :: before) rows (fin :: after) st)
      (Lift.advance sy opts (p ++ [start]) rows [fin] st₀) := by
  induction rows generalizing p m st st₀ with
  | nil => exact .ok h
  | cons row rest ih =>
    have hstep : Agree (Twin (modeAfter m row) d τ hs)
        (Lift.step sy opts ⟨p ++ start :: before, row, rest ++ fin :: after⟩ st)
        (Lift.step sy opts ⟨p ++ [start], row, rest ++ [fin]⟩ st₀) :=
      h.step (sees_section hstart hfin hbefore hlabels) hm (hinner row List.mem_cons_self)
    have hmode : modeAfter m row = .none ∨ modeAfter m row = .locals := by
      rw [modeAfter]
      split
      · exact .inr rfl
      · exact .inl rfl
      · exact hm
    have hrest : ∀ name ∈ refsOf rest, name ∉ labelsOf after := fun name hname =>
      hlabels name ((List.sublist_cons_self row rest).filter _ |>.map _ |>.subset hname)
    rw [Lift.advance, Lift.advance]
    generalize Lift.step sy opts ⟨p ++ start :: before, row, rest ++ fin :: after⟩ st = y at hstep
    generalize Lift.step sy opts ⟨p ++ [start], row, rest ++ [fin]⟩ st₀ = y₀ at hstep
    cases hstep with
    | error e e' => exact .error _ _
    | ok h' => exact ih (fun r hr => hinner r (List.mem_cons_of_mem _ hr)) hrest hmode h' (row :: p)

theorem twin_inHandler (htypes : parameterType types = τ) (htypes₀ : parameterType types₀ = τ)
    (records : Table String String) (x : Handler) :
    Twin .none d τ hs (.inHandler d types hs 0 records [] x) (.inHandler d types₀ [] 0 records [] x) where
  mode := rfl
  mode₀ := rfl
  decl := rfl
  decl₀ := rfl
  first := rfl
  first₀ := rfl
  types := htypes
  types₀ := htypes₀
  operands := rfl
  statements := rfl
  blocks := rfl
  targets := rfl
  seen := rfl
  records := rfl
  handlers := rfl
  one := rfl

/-- The first row of a section. -/
theorem agree_start {start fin : Row} (hstart : start.opcode = .handlerBegin)
    (hfin : fin.opcode = .handlerEnd) (htypes : parameterType types = τ)
    (htypes₀ : parameterType types₀ = τ) (body : List Row) :
    Agree (Twin .none d τ hs) (step sy opts ⟨before, start, body ++ fin :: after⟩ (.idle d types hs 0))
      (step sy opts ⟨[], start, body ++ [fin]⟩ (.idle d types₀ [] 0)) := by
  have hdispatch : ∀ (c : Cursor) (types : Table String String) (hs : List Handler),
      c.row = start → step sy opts c (.idle d types hs 0) = handlerBegin sy c (.idle d types hs 0) := by
    rintro c types hs rfl
    rw [step_eq_dispatch (by simp [State.idle, State.initial])]
    simp only [dispatch, hstart]
  cases hid : start.int 0 with
  | error e =>
    rw [hdispatch _ _ _ rfl, hdispatch _ _ _ rfl]
    simp only [handlerBegin, State.idle, hid]
    exact .error _ _
  | ok id =>
    cases hname : sy.handler? d.kind id with
    | none =>
      rw [hdispatch _ _ _ rfl, hdispatch _ _ _ rfl]
      simp only [handlerBegin, State.idle, hid, hname]
      exact .error _ _
    | some name =>
      rw [step_handlerBegin hstart hid hname, step_handlerBegin hstart hid hname,
        recordTexts_append hfin]
      exact .ok (twin_inHandler htypes htypes₀ _ _)

/-- The end of a handler leaves nothing of it but the handler. -/
theorem Twin.finish {st st₀ : State} (h : Twin .none d τ hs st st₀) {fin : Row}
    (hfin : fin.opcode = .handlerEnd) (before₀ after₀ : List Row) :
    ∃ x, Lift.step sy opts ⟨before, fin, after⟩ st = .ok (.idle d st.types (hs ++ [x]) 0) ∧
      Lift.step sy opts ⟨before₀, fin, after₀⟩ st₀ = .ok (.idle d st₀.types [x] 0) := by
  obtain ⟨x, hx⟩ := List.length_eq_one_iff.mp h.one
  have hend : ∀ (c : Cursor) (st : State), c.row = fin → st.mode = .none → st.decl = some d →
      st.first = 0 → st.handlers ≠ [] →
      Lift.step sy opts c st = .ok (.idle d st.types st.handlers 0) := by
    rintro c st rfl hmode hdecl hfirst hne
    rw [step_eq_dispatch (by simp [hmode])]
    simp only [dispatch, hfin, handlerEnd]
    rw [if_neg (by simp [hne]), State.leaveHandler, hmode, hdecl, hfirst]
    rfl
  refine ⟨x, ?_, ?_⟩
  · rw [hend _ _ rfl h.mode h.decl h.first (by simp [h.handlers, hx]), h.handlers, hx]
  · rw [hend _ _ rfl h.mode₀ h.decl₀ h.first₀ (by simp [hx]), hx]

variable (sy opts d hs) in
/-- A section among others does what it does alone. -/
theorem Section.agree {x : Section} (hx : x.isSound)
    (hbefore : Row.does .pushEvent before.head? = false)
    (hlabels : ∀ name ∈ refsOf x.rows, name ∉ labelsOf after) (htypes : parameterType types = τ)
    (htypes₀ : parameterType types₀ = τ) :
    Agree (fun st st₀ => ∃ h types', st = .idle d types' (hs ++ [h]) 0 ∧ st₀.handlers = [h] ∧
        parameterType types' = τ)
      (advance sy opts before x.rows after (.idle d types hs 0)) (x.alone sy opts d types₀) := by
  obtain ⟨start, body, fin⟩ := x
  simp only [isSound, Bool.and_eq_true, beq_iff_eq, List.all_eq_true] at hx
  obtain ⟨⟨⟨hstart, hinner⟩, hfin⟩, hmode⟩ := hx
  have hbody : ∀ name ∈ refsOf body, name ∉ labelsOf after := by
    refine fun name hname => hlabels name ?_
    have hsub : body.Sublist (start :: (body ++ [fin])) :=
      (List.sublist_append_left body [fin]).trans (List.sublist_cons_self _ _)
    exact ((hsub.filter _).map _).subset hname
  have hbegin : Agree (Twin .none d τ hs)
      (step sy opts ⟨before, start, body ++ fin :: after⟩ (.idle d types hs 0))
      (step sy opts ⟨[], start, body ++ [fin]⟩ (.idle d types₀ [] 0)) :=
    agree_start hstart hfin htypes htypes₀ body
  rw [alone, rows, advance, advance, List.append_assoc, List.append_nil, List.singleton_append]
  generalize step sy opts ⟨before, start, body ++ fin :: after⟩ (.idle d types hs 0) = y at hbegin
  generalize step sy opts ⟨[], start, body ++ [fin]⟩ (.idle d types₀ [] 0) = y₀ at hbegin
  cases hbegin with
  | error e e' => exact .error _ _
  | ok h =>
    simp only [advance_append]
    refine Agree.bind (h.advance hstart hfin hbefore hinner hbody (.inl rfl) []) ?_
    intro st st₀ h
    rw [hmode] at h
    obtain ⟨x, hend, hend₀⟩ := h.finish hfin (body.reverse ++ [start]) []
    rw [advance, advance, List.nil_append, List.nil_append, hend, hend₀]
    exact .ok ⟨x, st.types, rfl, rfl, h.types⟩

variable (sy opts d hs) in
/-- **A section among others makes the handler that it makes alone**, or fails as it does alone. -/
theorem Section.advance_eq {x : Section} (hx : x.isSound)
    (hbefore : Row.does .pushEvent before.head? = false)
    (hlabels : ∀ name ∈ refsOf x.rows, name ∉ labelsOf after)
    (htypes : parameterType types = parameterType types₀) :
    (∃ h types', x.handler? sy opts d types₀ = some h ∧
      advance sy opts before x.rows after (.idle d types hs 0) = .ok (.idle d types' (hs ++ [h]) 0) ∧
      parameterType types' = parameterType types₀) ∨
    x.handler? sy opts d types₀ = none ∧
      ∃ e, advance sy opts before x.rows after (.idle d types hs 0) = .error e := by
  have hagree := x.agree sy opts d hs hx hbefore hlabels htypes rfl
  rw [handler?]
  generalize advance sy opts before x.rows after (.idle d types hs 0) = y at hagree ⊢
  generalize x.alone sy opts d types₀ = y₀ at hagree ⊢
  cases hagree with
  | error e e' => exact .inr ⟨rfl, e, rfl⟩
  | ok h =>
    obtain ⟨h, types', rfl, hhandlers, htypes'⟩ := h
    exact .inl ⟨h, types', congrArg List.head? hhandlers, rfl, htypes'⟩

/-! ## Sections in order -/

variable (sy opts d hs) in
/-- Sections one after the other make their handlers in order. -/
theorem advance_sections {xs : List Section} (hsound : ∀ x ∈ xs, x.isSound)
    (hbefore : Row.does .pushEvent before.head? = false) (hapart : xs.Pairwise Section.Apart)
    (hafter : labelsOf after = []) (htypes : parameterType types = parameterType types₀) :
    (∃ new types', xs.mapM (Section.handler? sy opts d types₀) = some new ∧
      advance sy opts before (xs.flatMap Section.rows) after (.idle d types hs 0) =
        .ok (.idle d types' (hs ++ new) 0)) ∨
    xs.mapM (Section.handler? sy opts d types₀) = none ∧
      ∃ e, advance sy opts before (xs.flatMap Section.rows) after (.idle d types hs 0) = .error e := by
  induction xs generalizing before hs types with
  | nil => exact .inl ⟨[], types, rfl, by rw [List.append_nil]; rfl⟩
  | cons x xs ih =>
    rw [List.pairwise_cons] at hapart
    have hx := hsound x List.mem_cons_self
    have hlabels : ∀ name ∈ refsOf x.rows, name ∉ labelsOf (xs.flatMap Section.rows ++ after) := by
      intro name hname hmem
      rw [labelsOf_append, hafter, List.append_nil] at hmem
      obtain ⟨r, hr, rfl⟩ := List.mem_map.mp hmem
      obtain ⟨hr, hlabel⟩ := List.mem_filter.mp hr
      obtain ⟨y, hy, hry⟩ := List.mem_flatMap.mp hr
      exact hapart.1 y hy _ hname (List.mem_map_of_mem (List.mem_filter.mpr ⟨hry, hlabel⟩))
    have hend : Row.does .pushEvent (x.rows.reverse ++ before).head? = false := by
      simp only [Section.isSound, Bool.and_eq_true, beq_iff_eq] at hx
      simp [Section.rows, Row.does, hx.1.2]
    rw [List.flatMap_cons, advance_append, List.mapM_cons]
    rcases x.advance_eq sy opts d hs hx hbefore hlabels htypes with
      ⟨h, types', hh, hadvance, htypes'⟩ | ⟨hh, e, hadvance⟩
    · rw [hh, hadvance]
      rcases ih (hs ++ [h]) (fun y hy => hsound y (List.mem_cons_of_mem _ hy)) hend hapart.2 htypes' with
        ⟨new, types'', hnew, hrest⟩ | ⟨hnew, e, hrest⟩
      · rw [hnew]
        exact .inl ⟨h :: new, types'', rfl, by rw [List.append_cons hs h new]; exact hrest⟩
      · rw [hnew]
        exact .inr ⟨rfl, e, hrest⟩
    · rw [hh, hadvance]
      exact .inr ⟨rfl, e, rfl⟩

end ScriptLift.Lift
