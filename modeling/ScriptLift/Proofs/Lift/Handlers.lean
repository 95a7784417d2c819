import ScriptLift.Proofs.Lift.LayoutRun

/-!
# Classes of handlers laid out in rows

* `HandlerForm`: a handler with the rows that it is laid out in.
* `HandlerForm.handler?`: the handler that it stands for.
* `HandlerForm.advances`: from one state between handlers to the next.
* **`lift_handlerForms`**: a class whose handlers are laid out in rows is lifted to these handlers.
-/

namespace ScriptLift.Lift

/-! ## Layouts of handlers -/

/-- The rows that declare the variables of a handler. -/
structure LocalsForm where
  start : Row
  rows : List Row
  fin : Row

/-- A handler with the rows that it is laid out in; its string records stand at its end. -/
structure HandlerForm where
  start : Row
  locals : Option LocalsForm
  body : List Form
  records : List Row
  fin : Row

/-- The rows of a variable section, in order. -/
def LocalsForm.allRows (f : LocalsForm) : List Row := f.start :: (f.rows ++ [f.fin])

/-- Every row of a variable section does what its place asks for. -/
def LocalsForm.isSound (f : LocalsForm) : Bool :=
  f.start.opcode == .variablesBegin && f.rows.all (·.opcode == .declaration) &&
  f.fin.opcode == .variablesEnd

/-- The variable that a row declares, if it has a type and is not hidden. -/
def declared? (sy : Symbols) (kind : Int64) (r : Row) : Option Variable :=
  let name := variableName (Text.unquoted r.name)
  if name.isEmpty || name == "myself" || Text.startsWith "_" name then none
  else (sy.variableType? kind name).map (⟨name, ·⟩)

/-- The texts of the string records of a handler, by the rows after its first one. -/
def recordTexts (rows : List Row) : Table String String :=
  (handlerRecords rows).foldl (fun t (k, v) => t.put k v) []

namespace HandlerForm

/-- The rows of the variable section, if there is one. -/
def localRows (f : HandlerForm) : List Row := (f.locals.map LocalsForm.allRows).getD []

/-- The rows up to the end of the body. -/
def front (f : HandlerForm) : List Row := f.start :: (f.localRows ++ Form.allRows f.body)

/-- The rows after the body. -/
def back (f : HandlerForm) : List Row := f.records ++ [f.fin]

/-- The rows of a handler, in order. -/
def rows (f : HandlerForm) : List Row := f.front ++ f.back

/-- Every row of a handler does what its place asks for; there is no loop to break out of. -/
def isSound (sy : Symbols) (f : HandlerForm) : Bool :=
  f.start.opcode == .handlerBegin && f.locals.all LocalsForm.isSound && Form.allSound sy none f.body &&
  f.records.all (·.opcode == .record) && f.fin.opcode == .handlerEnd

/-- The name of a handler of a class of a kind. -/
def name? (sy : Symbols) (kind : Int64) (f : HandlerForm) : Option String :=
  match f.start.int 0 with
  | .ok id => sy.handler? kind id
  | .error _ => none

/-- What the names in a handler stand for: its class, the types of parameters, its string records
and its own name. -/
def context (d : ClassDecl) (types : Table String String) (name : String) (f : HandlerForm) : State :=
  { State.initial with
    decl := some d
    types
    records := recordTexts f.rows.tail
    handlers := [⟨name, [], []⟩] }

/-- The variables that a handler declares. -/
def declared (sy : Symbols) (kind : Int64) (f : HandlerForm) : List Variable :=
  (f.locals.map LocalsForm.rows |>.getD []).filterMap (declared? sy kind)

/-- The handler that a form stands for. -/
def handler? (sy : Symbols) (opts : Options) (d : ClassDecl) (types : Table String String)
    (f : HandlerForm) : Option Handler := do
  let name ← f.name? sy d.kind
  let body ← Form.stmts? sy opts (f.context d types name) f.body
  return ⟨name, f.declared sy d.kind, body⟩

/-- The rows of handlers, in order. -/
def allRows (fs : List HandlerForm) : List Row := fs.flatMap rows

end HandlerForm

/-! ## States of a class -/

variable {sy : Symbols} {opts : Options} {d : ClassDecl} {types types' : Table String String}
  {hs : List Handler} {first : Nat} {before after : List Row}

/-- The state between the handlers of a class, after the handlers `hs`. -/
def State.idle (d : ClassDecl) (types : Table String String) (hs : List Handler) (first : Nat) : State :=
  { State.initial with types, decl := some d, handlers := hs, first }

/-- The state in a handler of a class, at the outermost level. -/
def State.inHandler (d : ClassDecl) (types : Table String String) (hs : List Handler) (first : Nat)
    (records : Table String String) (seen : List String) (h : Handler) : State :=
  { State.idle d types (hs ++ [h]) first with
    statements := [.handler hs.length]
    blocks := [⟨hs.length, []⟩]
    seen
    records }

/-! ## Rows around bodies -/

theorem recordTexts_append {fin : Row} (hfin : fin.opcode = .handlerEnd) (rows after : List Row) :
    recordTexts (rows ++ fin :: after) = recordTexts (rows ++ [fin]) := by
  have htake : ∀ after, (rows ++ fin :: after).takeWhile
      (fun r => r.opcode != .handlerEnd && r.opcode != .classEnd) =
        rows.takeWhile fun r => r.opcode != .handlerEnd && r.opcode != .classEnd := by
    intro after
    rw [List.takeWhile_append]
    split_ifs with hall
    · rw [(List.takeWhile_prefix _).eq_of_length hall]
      simp [hfin]
    · rfl
  rw [recordTexts, handlerRecords, htake after, recordTexts, handlerRecords, htake []]

section Rows

variable {name : String} {locals : List Variable} {body : List Stmt} {records : Table String String}
  {seen : List String}

theorem step_handlerBegin {r : Row} (hop : r.opcode = .handlerBegin) {id : Int64}
    (hid : r.int 0 = .ok id) (hname : sy.handler? d.kind id = some name) :
    step sy opts ⟨before, r, after⟩ (.idle d types hs first) =
      .ok (.inHandler d types hs first (recordTexts after) [] ⟨name, [], []⟩) := by
  have hmode : (State.idle d types hs first).mode ≠ .parameterText := by simp [State.idle, State.initial]
  rw [step_eq_dispatch hmode]
  simp only [dispatch, hop, handlerBegin, State.idle, hid, hname]
  rfl

theorem variableRow_eq {c : Cursor} {st : State} (hd : st.decl = some d)
    (hh : st.handlers = hs ++ [⟨name, locals, body⟩]) :
    variableRow sy c st = .ok { st with
      handlers := hs ++ [⟨name, locals ++ (declared? sy d.kind c.row).toList, body⟩] } := by
  have hkind : st.kind = d.kind := by
    rw [State.kind, hd]
    rfl
  have hst : ∀ v : List Variable, v = [] → st = { st with handlers := hs ++ [⟨name, locals ++ v, body⟩] } := by
    rintro v rfl
    rw [List.append_nil, ← hh]
  rw [variableRow, if_neg (by simp [hh]), declared?]
  simp only [hkind]
  split_ifs
  · exact congrArg Except.ok (hst _ rfl)
  · cases sy.variableType? d.kind (variableName (Text.unquoted c.row.name)) with
    | none => exact congrArg Except.ok (hst _ rfl)
    | some type =>
      simp only [hh, List.length_append, List.length_singleton, Nat.add_sub_cancel, modify_length_append]
      rfl

/-- **The rows of a variable section** declare the variables of the handler. -/
theorem advances_variableRows {rows : List Row} (hrows : rows.all (·.opcode == .declaration))
    {st : State} (hmode : st.mode = .locals) (hd : st.decl = some d)
    (hh : st.handlers = hs ++ [⟨name, locals, body⟩]) :
    Advances sy opts before rows after st { st with
      handlers := hs ++ [⟨name, locals ++ rows.filterMap (declared? sy d.kind), body⟩] } := by
  induction rows generalizing before st locals with
  | nil =>
    rw [List.filterMap_nil, List.append_nil, ← hh]
    exact .nil
  | cons r rows ih =>
    rw [List.all_cons, Bool.and_eq_true, beq_iff_eq] at hrows
    have hstep : step sy opts ⟨before, r, rows ++ after⟩ st = .ok { st with
        handlers := hs ++ [⟨name, locals ++ (declared? sy d.kind r).toList, body⟩] } := by
      have hrow : dispatch sy opts ⟨before, r, rows ++ after⟩ st =
          variableRow sy ⟨before, r, rows ++ after⟩ st := by
        simp only [dispatch, hrows.1, declarationRow, hmode]
      rw [step_eq_dispatch (by simp [hmode]), hrow]
      exact variableRow_eq hd hh
    refine .cons hstep ?_
    have hrest : Advances sy opts (r :: before) rows after
        { st with handlers := hs ++ [⟨name, locals ++ (declared? sy d.kind r).toList, body⟩] }
        { st with handlers := hs ++ [⟨name, locals ++ (declared? sy d.kind r).toList ++
          rows.filterMap (declared? sy d.kind), body⟩] } := ih hrows.2 hmode hd rfl
    cases hr : declared? sy d.kind r with
    | none => simpa [hr] using hrest
    | some v => simpa [hr] using hrest

theorem LocalsForm.advances {f : LocalsForm} (hf : f.isSound) :
    Advances sy opts before f.allRows after (.inHandler d types hs first records seen ⟨name, [], []⟩)
      (.inHandler d types hs first records seen ⟨name, f.rows.filterMap (declared? sy d.kind), []⟩) := by
  simp only [LocalsForm.isSound, Bool.and_eq_true, beq_iff_eq] at hf
  obtain ⟨⟨hstart, hrows⟩, hfin⟩ := hf
  let st : State := .inHandler d types hs first records seen ⟨name, [], []⟩
  let st' : State := { st with
    handlers := hs ++ [⟨name, [] ++ f.rows.filterMap (declared? sy d.kind), []⟩] }
  have h₁ : step sy opts ⟨before, f.start, f.rows ++ [f.fin] ++ after⟩ st =
      .ok { st with mode := .locals } := by
    rw [step_eq_dispatch (by simp [st, State.inHandler, State.idle, State.initial])]
    simp only [dispatch, hstart]
  have h₂ : Advances sy opts (f.start :: before) f.rows ([f.fin] ++ after) { st with mode := .locals }
      { st' with mode := .locals } := advances_variableRows hrows rfl rfl rfl
  have h₃ : step sy opts ⟨f.rows.reverse ++ f.start :: before, f.fin, after⟩
      { st' with mode := .locals } = .ok st' := by
    rw [step_eq_dispatch (by simp)]
    simp only [dispatch, hfin]
    rfl
  exact .cons h₁ (.snoc h₂ h₃)

theorem advances_records {rows : List Row} (hrows : rows.all (·.opcode == .record)) {st : State}
    (hmode : st.mode = .none) : Advances sy opts before rows after st st := by
  induction rows generalizing before with
  | nil => exact .nil
  | cons r rows ih =>
    rw [List.all_cons, Bool.and_eq_true, beq_iff_eq] at hrows
    refine .cons ?_ (ih hrows.2)
    rw [step_eq_dispatch (by simp [hmode])]
    simp only [dispatch, hrows.1]

theorem step_handlerEnd {r : Row} (hop : r.opcode = .handlerEnd) (h : Handler) :
    step sy opts ⟨before, r, after⟩ (.inHandler d types hs first records seen h) =
      .ok (.idle d types (hs ++ [h]) first) := by
  have hmode : (State.inHandler d types hs first records seen h).mode ≠ .parameterText := by
    simp [State.inHandler, State.idle, State.initial]
  rw [step_eq_dispatch hmode]
  simp only [dispatch, hop, handlerEnd]
  rw [if_neg (by simp [State.inHandler, State.idle])]
  rfl

end Rows

/-! ## Handlers -/

theorem scope_records {st st' : State} (h : st.scope = st'.scope) (records : Table String String) :
    State.scope { st with records } = State.scope { st' with records } := by
  have hkind : st.kind = st'.kind := congrArg Scope.kind h
  have hparam : st.scope.param? = st'.scope.param? := by rw [h]
  have hprop : st.scope.prop? = st'.scope.prop? := by rw [h]
  show Scope.mk st.kind _ st.scope.param? st.scope.prop? = _
  rw [hkind, hparam, hprop]
  rfl

namespace HandlerForm

variable {f : HandlerForm} {n : String}

/-- The rows before the body. -/
theorem advances_head (hs' : f.isSound sy) (hn : f.name? sy d.kind = some n) :
    Advances sy opts before (f.start :: f.localRows) (Form.allRows f.body ++ (f.back ++ after))
      (.idle d types hs first) (.inHandler d types hs first (recordTexts f.rows.tail) []
        ⟨n, f.declared sy d.kind, []⟩) := by
  simp only [isSound, Bool.and_eq_true, beq_iff_eq, and_assoc] at hs'
  obtain ⟨hstart, hlocals, -, -, hfin⟩ := hs'
  unfold name? at hn
  split at hn
  · rename_i id hid
    have htexts : recordTexts (f.localRows ++ (Form.allRows f.body ++ (f.back ++ after))) =
        recordTexts f.rows.tail := by
      have happ := recordTexts_append hfin (f.localRows ++ Form.allRows f.body ++ f.records) after
      simpa [rows, front, back] using happ
    have h₁ : step sy opts ⟨before, f.start, f.localRows ++ (Form.allRows f.body ++ (f.back ++ after))⟩
        (.idle d types hs first) =
          .ok (.inHandler d types hs first (recordTexts f.rows.tail) [] ⟨n, [], []⟩) := by
      rw [← htexts]
      exact step_handlerBegin hstart hid hn
    refine .cons h₁ ?_
    unfold declared localRows
    cases hl : f.locals with
    | none => exact .nil
    | some g =>
      rw [hl] at hlocals
      exact LocalsForm.advances hlocals
  · simp at hn

theorem boundary_head (hs' : f.isSound sy) (before : List Row) :
    Boundary ((f.start :: f.localRows).reverse ++ before) := by
  simp only [isSound, Bool.and_eq_true, beq_iff_eq, and_assoc] at hs'
  obtain ⟨hstart, hlocals, -⟩ := hs'
  unfold localRows
  cases hl : f.locals with
  | none => exact boundary_of_seam (by rw [hstart]; rfl) before
  | some g =>
    simp only [hl, Option.all_some, LocalsForm.isSound, Bool.and_eq_true, beq_iff_eq] at hlocals
    have hrows : (f.start :: ((some g).map LocalsForm.allRows).getD []).reverse ++ before =
        g.fin :: (g.rows.reverse ++ g.start :: f.start :: before) := by simp [LocalsForm.allRows]
    rw [hrows]
    exact boundary_of_seam (by rw [hlocals.2]; rfl) _

theorem ground {types₀ : Table String String}
    (hscope : (State.idle d types [] 0).scope = (State.idle d types₀ [] 0).scope)
    (locals : List Variable) : Ground (f.context d types₀ n) ⟨hs.length, []⟩ []
      (.inHandler d types hs first (recordTexts f.rows.tail) [] ⟨n, locals, []⟩) := by
  refine ⟨rfl, scope_records hscope _, ?_, rfl, ⟨rfl, ?_⟩, rfl⟩
  · simp [handlerName?, State.inHandler, State.idle, context]
  · simp [State.inHandler, State.idle, getBlock?, getPath?]

theorem head_back (hs' : f.isSound sy) (after : List Row) :
    Row.does .pushRegister (f.back ++ after).head? = false := by
  simp only [isSound, Bool.and_eq_true, beq_iff_eq, and_assoc] at hs'
  obtain ⟨-, -, -, hrecords, hfin⟩ := hs'
  unfold back
  cases hr : f.records with
  | nil => exact does_of_ne hfin (by simp)
  | cons r rs =>
    simp only [hr, List.all_cons, Bool.and_eq_true, beq_iff_eq] at hrecords
    exact does_of_ne hrecords.1 (by simp)

/-- **The rows up to the end of the body** lift the body, and leave every stack as the handler's
first row has left it. -/
theorem advances_front {types₀ : Table String String} {ss : List Stmt} (hs' : f.isSound sy)
    (hn : f.name? sy d.kind = some n)
    (hss : Form.stmts? sy opts (f.context d types₀ n) f.body = some ss)
    (hscope : (State.idle d types [] 0).scope = (State.idle d types₀ [] 0).scope)
    (hnodup : (labelsOf (f.rows ++ after)).Nodup) :
    ∃ types' seen, Advances sy opts before f.front (f.back ++ after) (.idle d types hs first)
        (.inHandler d types' hs first (recordTexts f.rows.tail) seen ⟨n, f.declared sy d.kind, ss⟩) ∧
      (State.idle d types' [] 0).scope = (State.idle d types₀ [] 0).scope := by
  have hbody : Form.allSound sy none f.body := by
    simp only [isSound, Bool.and_eq_true] at hs'
    exact hs'.1.1.2
  have hfresh : Fresh (.inHandler d types hs first (recordTexts f.rows.tail) []
      ⟨n, f.declared sy d.kind, []⟩) (Form.allRows f.body) (f.back ++ after) := by
    refine ⟨?_, by simp [State.inHandler], by simp [State.inHandler, State.idle, State.initial]⟩
    have hsplit : f.rows ++ after =
        f.start :: f.localRows ++ (Form.allRows f.body ++ (f.back ++ after)) := by simp [rows, front]
    rw [hsplit, labelsOf_append] at hnodup
    exact (List.nodup_append'.mp hnodup).2.1
  obtain ⟨st, marks, hrun, hw, hmarks⟩ := Form.lifts_all hbody hss (boundary_head hs' before)
    (head_back hs' after) (ground hscope _) hfresh (fun x hx => by simp at hx)
  -- There is no loop, so no second branch is left open.
  obtain rfl : marks = [] := List.eq_nil_iff_forall_not_mem.mpr fun m hm => by simpa using hmarks m hm
  have hst : st = .inHandler d st.types hs first (recordTexts f.rows.tail) st.seen
      ⟨n, f.declared sy d.kind, ss⟩ := by
    rw [hw.drift.rest, hw.operands]
    simp only [State.grow, State.inHandler, State.idle, modifyBlock, modify_length_append, modifyPath]
    rfl
  have hsame := scope_records hw.drift.scope []
  rw [hst] at hsame hrun
  exact ⟨st.types, st.seen, (advances_head hs' hn).append hrun, hsame.trans hscope⟩

/-- From one state between handlers to the next. -/
theorem advances {types₀ : Table String String} {h : Handler} (hs' : f.isSound sy)
    (hh : f.handler? sy opts d types₀ = some h)
    (hscope : (State.idle d types [] 0).scope = (State.idle d types₀ [] 0).scope)
    (hnodup : (labelsOf (f.rows ++ after)).Nodup) :
    ∃ types', Advances sy opts before f.rows after (.idle d types hs first)
        (.idle d types' (hs ++ [h]) first) ∧
      (State.idle d types' [] 0).scope = (State.idle d types₀ [] 0).scope := by
  simp only [handler?, Option.bind_eq_bind, Option.bind_eq_some_iff, Option.pure_def,
    Option.some.injEq] at hh
  obtain ⟨n, hn, ss, hss, rfl⟩ := hh
  obtain ⟨types', seen, hfront, hscope'⟩ : ∃ types' seen, Advances sy opts before f.front
      (f.back ++ after) (.idle d types hs first) (.inHandler d types' hs first
        (recordTexts f.rows.tail) seen ⟨n, f.declared sy d.kind, ss⟩) ∧
      (State.idle d types' [] 0).scope = (State.idle d types₀ [] 0).scope :=
    advances_front hs' hn hss hscope hnodup
  simp only [isSound, Bool.and_eq_true, beq_iff_eq, and_assoc] at hs'
  obtain ⟨-, -, -, hrecords, hfin⟩ := hs'
  exact ⟨types', hfront.append (.snoc (advances_records hrecords rfl) (step_handlerEnd hfin _)), hscope'⟩

/-- **From the first handler of a class to its last.** -/
theorem advances_all {types₀ : Table String String} {fs : List HandlerForm} {new : List Handler}
    (hs' : fs.all (isSound sy)) (hnew : fs.mapM (handler? sy opts d types₀) = some new)
    (hscope : (State.idle d types [] 0).scope = (State.idle d types₀ [] 0).scope)
    (hnodup : (labelsOf (allRows fs ++ after)).Nodup) :
    ∃ types', Advances sy opts before (allRows fs) after (.idle d types hs first)
        (.idle d types' (hs ++ new) first) ∧
      (State.idle d types' [] 0).scope = (State.idle d types₀ [] 0).scope := by
  induction fs generalizing before types hs new with
  | nil =>
    obtain rfl : [] = new := by simpa using hnew
    rw [List.append_nil]
    exact ⟨types, .nil, hscope⟩
  | cons f fs ih =>
    rw [List.all_cons, Bool.and_eq_true] at hs'
    simp only [List.mapM_cons, Option.bind_eq_bind, Option.bind_eq_some_iff, Option.pure_def,
      Option.some.injEq] at hnew
    obtain ⟨h, hh, new, hnew, rfl⟩ := hnew
    have hrows : allRows (f :: fs) = f.rows ++ allRows fs := rfl
    rw [hrows, List.append_assoc] at hnodup
    obtain ⟨types₁, h₁, hscope₁⟩ : ∃ types₁, Advances sy opts before f.rows (allRows fs ++ after)
        (.idle d types hs first) (.idle d types₁ (hs ++ [h]) first) ∧
        (State.idle d types₁ [] 0).scope = (State.idle d types₀ [] 0).scope :=
      advances hs'.1 hh hscope hnodup
    rw [labelsOf_append] at hnodup
    obtain ⟨types₂, h₂, hscope₂⟩ : ∃ types₂, Advances sy opts (f.rows.reverse ++ before) (allRows fs)
        after (.idle d types₁ (hs ++ [h]) first) (.idle d types₂ (hs ++ [h] ++ new) first) ∧
        (State.idle d types₂ [] 0).scope = (State.idle d types₀ [] 0).scope :=
      ih hs'.2 hnew hscope₁ (List.nodup_append'.mp hnodup).2.1
    rw [List.append_assoc] at h₂
    exact ⟨types₂, hrows ▸ h₁.append h₂, hscope₂⟩

end HandlerForm

/-! ## Classes -/

/-- Nothing is open but the handler itself. -/
def State.isLevel (st : State) : Bool :=
  st.operands.isEmpty && st.targets.isEmpty && st.statements.length == 1 && st.blocks.length == 1

theorem Advances.run_eq {rows : List Row} {st st' : State} (h : Advances sy opts before rows [] st st') :
    run sy opts before rows st = .ok st' := by
  have happ := run_append sy opts before rows [] st
  rw [List.append_nil, h] at happ
  exact happ

theorem step_classEnd {r : Row} (hop : r.opcode = .classEnd) :
    step sy opts ⟨before, r, after⟩ (.idle d types hs first) = .ok (.idle d types hs first) := by
  have hmode : (State.idle d types hs first).mode = .none := rfl
  rw [step_eq_dispatch (by simp [hmode])]
  simp only [dispatch, hop, declarationRow, hmode]

/-- **A class whose handlers are laid out in rows is lifted to these handlers**, and nothing is open
at the end of the body of any of them. -/
theorem lift_handlerForms (sy : Symbols) (opts : Options) (l : Listing) (pre : List Row)
    (fs : List HandlerForm) (fin : Row) (d : ClassDecl) (types : Table String String)
    (new : List Handler) (hrows : l.rows = pre ++ (HandlerForm.allRows fs ++ [fin]))
    (hpre : Advances sy opts [] pre (HandlerForm.allRows fs ++ [fin]) .initial (.idle d types [] 0))
    (hfin : fin.opcode = .classEnd) (hlabels : (labelsOf l.rows).Nodup)
    (hsound : fs.all (HandlerForm.isSound sy))
    (hnew : fs.mapM (HandlerForm.handler? sy opts d types) = some new) :
    lift sy opts l = .ok { d with handlers := new } ∧
      ∀ done f todo, fs = done ++ f :: todo → ∃ st, st.isLevel ∧
        Advances sy opts [] (pre ++ (HandlerForm.allRows done ++ f.front))
          (f.back ++ (HandlerForm.allRows todo ++ [fin])) .initial st := by
  rw [hrows, labelsOf_append] at hlabels
  have hnodup := (List.nodup_append'.mp hlabels).2.1
  refine ⟨?_, fun done f todo hsplit => ?_⟩
  · obtain ⟨types', hall, -⟩ : ∃ types', Advances sy opts (pre.reverse ++ []) (HandlerForm.allRows fs)
        [fin] (.idle d types [] 0) (.idle d types' ([] ++ new) 0) ∧
        (State.idle d types' [] 0).scope = (State.idle d types [] 0).scope :=
      HandlerForm.advances_all hsound hnew rfl hnodup
    have hrun : run sy opts [] l.rows .initial = .ok (.idle d types' new 0) := by
      rw [hrows]
      exact Advances.run_eq (hpre.append_of_eq (.snoc hall (step_classEnd hfin)) (by simp) rfl)
    rw [lift, hrun]
    rfl
  · subst hsplit
    rw [List.all_append, Bool.and_eq_true, List.all_cons, Bool.and_eq_true] at hsound
    simp only [List.mapM_append, List.mapM_cons, Option.bind_eq_bind, Option.bind_eq_some_iff,
      Option.pure_def, Option.some.injEq] at hnew
    obtain ⟨hs, hdone, _, ⟨h, hh, -⟩, -⟩ := hnew
    simp only [HandlerForm.handler?, Option.bind_eq_bind, Option.bind_eq_some_iff] at hh
    obtain ⟨n, hn, ss, hss, -⟩ := hh
    have hrest : HandlerForm.allRows (done ++ f :: todo) ++ [fin] =
        HandlerForm.allRows done ++ (f.front ++ (f.back ++ (HandlerForm.allRows todo ++ [fin]))) := by
      simp [HandlerForm.allRows, HandlerForm.rows]
    rw [hrest] at hpre hnodup
    obtain ⟨types₁, h₁, hscope₁⟩ : ∃ types₁, Advances sy opts (pre.reverse ++ [])
        (HandlerForm.allRows done) (f.front ++ (f.back ++ (HandlerForm.allRows todo ++ [fin])))
        (.idle d types [] 0) (.idle d types₁ ([] ++ hs) 0) ∧
        (State.idle d types₁ [] 0).scope = (State.idle d types [] 0).scope :=
      HandlerForm.advances_all hsound.1 hdone rfl hnodup
    rw [labelsOf_append, ← List.append_assoc] at hnodup
    obtain ⟨types₂, seen, h₂, -⟩ := HandlerForm.advances_front hsound.2.1 hn hss hscope₁
      (List.nodup_append'.mp hnodup).2.1
    have h₃ := hpre.append_of_eq (h₁.append h₂) (by simp) rfl
    exact ⟨_, rfl, h₃⟩

/-! ## A class with nested statements -/

/-- A row without a comment. -/
def plainRow (name : String) (operands : List String) : Row := ⟨name, operands, "", "", 0⟩

/-- A scripted object with a member, a variable, and a function without arguments. -/
def guardSymbols : Symbols where
  handler? _ id := if id = 1 then some "TALKED" else none
  slot? _ owner address :=
    if owner = "" ∧ address = 16 then some ⟨"talker", "creature"⟩
    else if owner = "" ∧ address = 24 then some ⟨"i", "int"⟩
    else if owner = "creature" ∧ address = 8 then some ⟨"hp", "int"⟩
    else none
  variableType? _ name := if name = "i" then some "int" else none
  function? address := if address = 101 then some ⟨"Despawn", "void", []⟩ else none
  constant? _ _ := none
  isPrimitive type := type = "int"
  fstring? _ := none

/-- The address of an event variable. -/
def slotRows (address : String) : List Row :=
  [plainRow "push_event" [], plainRow "push_const" [address], plainRow "add" []]

/-- The value of an event variable. -/
def valueRows (address : String) : List Row := slotRows address ++ [plainRow "fetch_i" []]

/-- A comparison of the variable with a number. -/
def testRows (name n : String) : List Row := valueRows "24" ++ [plainRow "push_const" [n], plainRow name []]

/-- The variable is set to a number. -/
def setRows (n : String) : List Row := slotRows "24" ++ [plainRow "push_const" [n], plainRow "assign" []]

/-- The statement that drops its value. -/
def evalForm (code : List Row) : Form := .eval code (plainRow "shift_sp" ["-1"])

/-- The call of the function. -/
def despawnForm : Form := evalForm (valueRows "16" ++ [plainRow "func_call" ["101"]])

/-- The variable goes up to three, with a call each time; `update` are the rows before the last
assignment. -/
def countForm (update : List Row) : Form :=
  .forLoop ⟨setRows "0", plainRow "shift_sp" ["-1"], plainRow "L3" [], testRows "less" "3",
    plainRow "branch_false" ["L4"], plainRow "jump" ["L5"], plainRow "L6" [], update,
    plainRow "assign" [], plainRow "shift_sp" ["-1"], plainRow "jump" ["L3"], plainRow "L5" []⟩
    [despawnForm] (plainRow "jump" ["L6"]) (plainRow "L4" [])

/-- The variable and its value plus one. -/
def nextRows : List Row :=
  valueRows "24" ++ [plainRow "fetch_i" [], plainRow "push_const" ["1"], plainRow "add" []]

/-- A conditional on a member, which starts no loop. -/
def bareForm : Form :=
  .ifThen (valueRows "16" ++ [plainRow "push_const" ["8"], plainRow "add" [], plainRow "fetch_i" []])
    (plainRow "branch_false" ["L1"]) [despawnForm] (plainRow "L1" [])

/-- A conditional with nothing in its first branch. -/
def emptyForm : Form :=
  .ifElse (testRows "greater" "5") (plainRow "branch_false" ["L1"]) [] (plainRow "jump" ["L2"])
    (plainRow "L1" []) [despawnForm] (plainRow "L2" [])

/-- A comparison of a select with a number. -/
def armHeader (n close : String) (entry : Option Row) : ArmHeader :=
  ⟨plainRow "push_reg_sp" [], plainRow "fetch_i" [], plainRow "push_const" [n], plainRow "equal" [],
    plainRow "branch_false" [close], entry⟩

/-- A conditional that ends in a break of the loop that ends at `L2`. -/
def leaveForm (close : String) (yes : List Form) : Form :=
  .ifThen (testRows "greater" "5") (plainRow "branch_false" [close]) (yes ++ [.brk (plainRow "jump" ["L2"])])
    (plainRow close [])

/-- The loop that ends at `L2`. -/
def loopForm (body : List Form) : Form :=
  .whileLoop (plainRow "L1" []) (testRows "less" "9") (plainRow "branch_false" ["L2"]) body
    (plainRow "jump" ["L1"]) (plainRow "L2" [])

/-- A select with two arms, the first of which may leave it. -/
def selectForm (body : List Form) (leave : Option Row) (body' : List Form) : Form :=
  .select (valueRows "24")
    (.mk (armHeader "1" "L7" none) body leave (some (plainRow "jump" ["L8"])) (plainRow "L7" []))
    [.mk (armHeader "2" "L9" (some (plainRow "L8" []))) body' none none (plainRow "L9" [])]
    (plainRow "L10" []) (plainRow "shift_sp" ["-1"])

/-- A handler that declares the variable. -/
def guardHandler (body : List Form) : HandlerForm where
  start := plainRow "handler" ["1"]
  locals := some ⟨plainRow "variable_begin" [], [plainRow "\"i\"" []], plainRow "variable_end" []⟩
  body := body
  records := [plainRow "S1" ["\"hi\""]]
  fin := plainRow "handler_end" []

/-- A class with such a handler. -/
def guardListing (body : List Form) : Listing :=
  ⟨"guard", plainRow "class" ["0", "guard", ":", "(null)"] ::
    (HandlerForm.allRows [guardHandler body] ++ [plainRow "class_end" []])⟩

/-- The class that has such a handler with given statements. -/
def guardClass (body : List Stmt) : ClassDecl :=
  { newClass 0 "guard" "" with handlers := [⟨"TALKED", [⟨"i", "int"⟩], body⟩] }

/-- The variable, as a value. -/
def guardVar : Expr := .var "i" "int" .hole

/-- The call, as a statement. -/
def guardCall : Stmt := .eval (.call "Despawn" "void" (.var "talker" "creature" .hole) [] "")

/-- A counting loop and a conditional in the arms of a select in a loop. -/
def nestedForms : List Form :=
  [loopForm [selectForm [countForm nextRows] (some (plainRow "jump" ["L10"]))
    [leaveForm "L11" [despawnForm], despawnForm]], .ret (plainRow "exit_handler" [])]

theorem lift_nestedForms : lift guardSymbols ⟨2, none⟩ (guardListing nestedForms) = .ok (guardClass
    [.whileLoop (.binary .lt guardVar (.int 9))
      [.select guardVar
        [.mk (.int 1) [.forLoop (.assign "i" "int" .hole (.int 0)) (.binary .lt guardVar (.int 3))
          (.unary .increment guardVar) [guardCall], .brk],
        .mk (.int 2) [.ifElse (.binary .gt guardVar (.int 5)) [guardCall, .brk] [guardCall]]]],
    .ret]) :=
  (lift_handlerForms guardSymbols ⟨2, none⟩ (guardListing nestedForms)
    [plainRow "class" ["0", "guard", ":", "(null)"]] [guardHandler nestedForms]
    (plainRow "class_end" []) (newClass 0 "guard" "") [] _ rfl (by with_unfolding_all rfl) (by rfl)
    (by decide +kernel) (by decide +kernel) (by with_unfolding_all rfl)).1

/-- **Layouts that are read otherwise**: a condition that ends in a fetch, an empty first branch, a
conditional that ends in a break before other statements, an update with an assignment inside, and
an arm that ends in a break of the loop around its select. -/
theorem lift_corners_ne :
    lift guardSymbols ⟨2, none⟩ (guardListing [bareForm]) ≠
      .ok (guardClass [.ifElse (.var "hp" "int" (.var "talker" "creature" .hole)) [guardCall] []]) ∧
    lift guardSymbols ⟨2, none⟩ (guardListing [emptyForm]) ≠
      .ok (guardClass [.ifElse (.binary .gt guardVar (.int 5)) [] [guardCall]]) ∧
    lift guardSymbols ⟨2, none⟩ (guardListing [loopForm [leaveForm "L3" [despawnForm], despawnForm]]) ≠
      .ok (guardClass [.whileLoop (.binary .lt guardVar (.int 9))
        [.ifElse (.binary .gt guardVar (.int 5)) [guardCall, .brk] [], guardCall]]) ∧
    lift guardSymbols ⟨2, none⟩ (guardListing [countForm (slotRows "24" ++ setRows "7")]) ≠
      .ok (guardClass [.forLoop (.assign "i" "int" .hole (.int 0)) (.binary .lt guardVar (.int 3))
        (.assign "i" "int" .hole (.assign "i" "int" .hole (.int 7))) [guardCall]]) ∧
    lift guardSymbols ⟨2, none⟩ (guardListing
        [loopForm [selectForm [.brk (plainRow "jump" ["L2"])] none [despawnForm]]]) ≠
      .ok (guardClass [.whileLoop (.binary .lt guardVar (.int 9))
        [.select guardVar [.mk (.int 1) [.brk], .mk (.int 2) [guardCall]]]]) := by
  have h₁ : lift guardSymbols ⟨2, none⟩ (guardListing [bareForm]) = .ok (guardClass [guardCall]) := by
    with_unfolding_all rfl
  have h₂ : (lift guardSymbols ⟨2, none⟩ (guardListing [emptyForm])).toOption.isNone := by
    with_unfolding_all rfl
  have h₃ : lift guardSymbols ⟨2, none⟩
      (guardListing [loopForm [leaveForm "L3" [despawnForm], despawnForm]]) =
        .ok (guardClass [.whileLoop (.binary .lt guardVar (.int 9))
          [.ifElse (.binary .gt guardVar (.int 5)) [guardCall, .brk] [guardCall]]]) := by
    with_unfolding_all rfl
  have h₄ : (lift guardSymbols ⟨2, none⟩
      (guardListing [countForm (slotRows "24" ++ setRows "7")])).toOption.isNone := by
    with_unfolding_all rfl
  have h₅ : lift guardSymbols ⟨2, none⟩ (guardListing
      [loopForm [selectForm [.brk (plainRow "jump" ["L2"])] none [despawnForm]]]) =
        .ok (guardClass [.whileLoop (.binary .lt guardVar (.int 9))
          [.select guardVar [.mk (.int 1) [.brk, .brk], .mk (.int 2) [guardCall]]]]) := by
    with_unfolding_all rfl
  refine ⟨?_, fun h => ?_, ?_, fun h => ?_, ?_⟩
  · rw [h₁]
    simp [guardClass, guardCall]
  · rw [h] at h₂
    simp [Except.toOption] at h₂
  · rw [h₃]
    simp [guardClass]
  · rw [h] at h₄
    simp [Except.toOption] at h₄
  · rw [h₅]
    simp [guardClass]

end ScriptLift.Lift
