import ScriptLift.Proofs.Lift.Sections

/-!
# Classes with their handlers in any order

* `ClassForm`: a class with its declarations and the sections of its handlers.
* `advance_head`: the declarations do not depend on what follows them.
* **`lift_eq`**: lifting reads the declarations, and each section as if it were the only one.
* **`lift_permuted`**: the order of the sections is the order of the handlers, and nothing else.
-/

namespace ScriptLift.Lift

/-! ## Forms -/

/-- Whether the default of a parameter is a text that goes on in the next rows. -/
def opensText (r : Row) : Bool :=
  (r.operands[1]?).any fun raw =>
    Text.startsWith "\"" raw && (raw == "\"" || !Text.endsWith "\"" raw)

/-- The section that the rows after a declaration belong to, if the row may stand where it does.
Within a text every row may. -/
def headMode (m : Mode) (r : Row) : Option Mode :=
  match m, r.opcode with
  | .parameterText, _ => some (if Text.endsWith "\"" r.raw then .parameters else .parameterText)
  | .none, .blank => some .none
  | .none, .parametersBegin => some .parameters
  | .none, .buySellBegin => some (.table .buySell false)
  | .none, .telPosBegin => some (.table .telPos false)
  | .parameters, .blank => some .parameters
  | .parameters, .declaration => some (if opensText r then .parameterText else .parameters)
  | .parameters, .parametersEnd => some .none
  | .table kind false, .blank => some (.table kind false)
  | .table kind false, .declaration => some (.table kind false)
  | .table .buySell false, .buySellEnd => some .none
  | .table .telPos false, .telPosEnd => some .none
  | _, _ => none

/-- A class: its first row, its declarations, the sections of its handlers and its last row. -/
structure ClassForm where
  header : Row
  decls : List Row
  sections : List Section
  fin : Option Row

namespace ClassForm

/-- The rows up to the handlers. -/
def head (f : ClassForm) : List Row := f.header :: f.decls

/-- The rows of a class, in order. -/
def rows (f : ClassForm) : List Row :=
  f.head ++ (f.sections.flatMap Section.rows ++ f.fin.toList)

/-- Every row of a class is where it belongs, and every section is closed. -/
def isSound (f : ClassForm) : Bool :=
  f.header.opcode == .classBegin && f.decls.foldlM headMode .none == some .none &&
  f.sections.all Section.isSound && f.fin.all (·.opcode == .classEnd)

/-- No section refers to a label of another one. -/
def Apart (f : ClassForm) : Prop := f.sections.Pairwise fun x y => x.Apart y ∧ y.Apart x

instance (f : ClassForm) : Decidable f.Apart :=
  inferInstanceAs (Decidable (f.sections.Pairwise fun x y => x.Apart y ∧ y.Apart x))

/-- The class with its sections in another order. -/
def permuted (f : ClassForm) (σ : Equiv.Perm (Fin f.sections.length)) : ClassForm :=
  { f with sections := List.ofFn (f.sections.get ∘ σ) }

end ClassForm

/-! ## Heads -/

variable {sy : Symbols} {opts : Options} {d : ClassDecl} {types : Table String String} {m m' : Mode}
  {r : Row}

/-- The state in a section of the declarations of a class. -/
def State.declaring (m : Mode) (d : ClassDecl) (types : Table String String) : State :=
  { State.idle d types [] 0 with mode := m }

theorem goesOn_parameterDefault {name raw : String} {value : Expr} {goesOn : Bool}
    (h : parameterDefault sy name raw = .ok (value, goesOn)) :
    goesOn = (Text.startsWith "\"" raw && (raw == "\"" || !Text.endsWith "\"" raw)) := by
  unfold parameterDefault at h
  split at h
  · rename_i htext
    rw [htext, Bool.true_and]
    exact (Prod.mk.inj (Except.ok.inj h)).2.symm
  · rename_i htext
    rw [Bool.eq_false_iff.mpr htext, Bool.false_and]
    split at h
    · split at h
      · simp [malformed] at h
      · exact (Prod.mk.inj (Except.ok.inj h)).2.symm
    · split at h
      · simp [malformed] at h
      · exact (Prod.mk.inj (Except.ok.inj h)).2.symm

theorem parameterRow_eq (sy : Symbols) (d : ClassDecl) (types : Table String String) (r : Row) :
    ∃ x : Except Halt (ClassDecl × Table String String), ∀ before after,
      parameterRow sy ⟨before, r, after⟩ (.declaring .parameters d types) =
        x.map fun p => .declaring (if opensText r then .parameterText else .parameters) p.1 p.2 := by
  have hone : ∀ (value : Expr) (goesOn : Bool), opensText r = goesOn →
      ∃ p : ClassDecl × Table String String, { State.declaring .parameters d types with
          mode := if goesOn then .parameterText else .parameters
          decl := some { d with parameters :=
            d.parameters ++ [⟨typeName r.name, r.operand 0, value⟩] }
          types := types.put (r.operand 0) (if value.isHole then typeName r.name else value.type) } =
        State.declaring (if opensText r then .parameterText else .parameters) p.1 p.2 := by
    rintro value goesOn rfl
    exact ⟨(_, _), rfl⟩
  cases hraw : r.operands[1]? with
  | none =>
    obtain ⟨p, hp⟩ := hone .hole false (by simp [opensText, hraw])
    exact ⟨.ok p, fun before after => by simp only [parameterRow, hraw]; exact congrArg _ hp⟩
  | some raw =>
    cases hdefault : parameterDefault sy (r.operand 0) raw with
    | error e =>
      refine ⟨.error e, fun before after => ?_⟩
      simp only [parameterRow, hraw, hdefault]
      rfl
    | ok v =>
      obtain ⟨value, goesOn⟩ := v
      obtain ⟨p, hp⟩ := hone value goesOn (by
        rw [goesOn_parameterDefault hdefault, opensText, hraw]
        rfl)
      refine ⟨.ok p, fun before after => ?_⟩
      simp only [parameterRow, hraw, hdefault]
      exact congrArg _ hp

/-- A row takes the declarations of a class to the section `m'`, or fails, and does so whatever stands
around it. -/
def Declares (sy : Symbols) (opts : Options) (d : ClassDecl) (types : Table String String) (m : Mode)
    (r : Row) (m' : Mode) : Prop :=
  ∃ x : Except Halt (ClassDecl × Table String String), ∀ before after,
    step sy opts ⟨before, r, after⟩ (.declaring m d types) = x.map fun p => .declaring m' p.1 p.2

theorem declares_of_dispatch (hm : m ≠ .parameterText)
    (x : Except Halt (ClassDecl × Table String String))
    (h : ∀ c : Cursor, c.row = r → dispatch sy opts c (.declaring m d types) =
      x.map fun p => .declaring m' p.1 p.2) : Declares sy opts d types m r m' :=
  ⟨x, fun before after => (step_eq_dispatch hm).trans (h ⟨before, r, after⟩ rfl)⟩

/-- A row that changes nothing but the section. -/
theorem declares_silent (hm : m ≠ .parameterText)
    (h : ∀ c : Cursor, c.row = r → dispatch sy opts c (.declaring m d types) =
      .ok (.declaring m' d types)) : Declares sy opts d types m r m' :=
  declares_of_dispatch hm (.ok (d, types)) h

theorem declares_table (kind : TableKind) (h : ∀ c : Cursor, c.row = r →
    dispatch sy opts c (.declaring .none d types) = tableBegin kind c (.declaring .none d types)) :
    Declares sy opts d types .none r (.table kind false) := by
  refine declares_of_dispatch (by simp) (.ok ({ d with
    properties := d.properties ++ [⟨kind.typeName, r.operand 0, []⟩] }, types)) ?_
  rintro c rfl
  exact h c rfl

variable (sy opts d types) in
theorem declares_of_headMode (h : headMode m r = some m') : Declares sy opts d types m r m' := by
  unfold headMode at h
  split at h <;> cases h
  · exact ⟨.ok ({ d with parameters :=
      d.parameters.modify (d.parameters.length - 1) (appendText r.raw) }, types), fun _ _ => rfl⟩
  · rename_i hop
    exact declares_silent (by simp) (by rintro c rfl; simp only [dispatch, hop])
  · rename_i hop
    exact declares_silent (by simp) (by rintro c rfl; simp only [dispatch, hop]; rfl)
  · rename_i hop
    exact declares_table .buySell (by rintro c rfl; simp only [dispatch, hop])
  · rename_i hop
    exact declares_table .telPos (by rintro c rfl; simp only [dispatch, hop])
  · rename_i hop
    exact declares_silent (by simp) (by rintro c rfl; simp only [dispatch, hop])
  · rename_i hop
    obtain ⟨x, hx⟩ := parameterRow_eq sy d types r
    refine declares_of_dispatch (by simp) x ?_
    rintro c rfl
    simp only [dispatch, hop]
    exact hx c.before c.after
  · rename_i hop
    exact declares_silent (by simp) (by rintro c rfl; simp only [dispatch, hop]; rfl)
  · rename_i hop
    exact declares_silent (by simp) (by rintro c rfl; simp only [dispatch, hop])
  · rename_i kind hop
    refine declares_of_dispatch (by simp)
      (.ok (addTableRow ⟨tableCells sy kind r.raw, r.comment⟩ d, types)) ?_
    rintro c rfl
    simp only [dispatch, hop]
    rfl
  · rename_i hop
    exact declares_silent (by simp) (by rintro c rfl; simp only [dispatch, hop]; rfl)
  · rename_i hop
    exact declares_silent (by simp) (by rintro c rfl; simp only [dispatch, hop]; rfl)

theorem advance_decls {decls : List Row} (h : decls.foldlM headMode m = some m') (d : ClassDecl)
    (types : Table String String) :
    ∃ x : Except Stopped (ClassDecl × Table String String), ∀ before after,
      advance sy opts before decls after (.declaring m d types) =
        x.map fun p => .declaring m' p.1 p.2 := by
  induction decls generalizing m d types with
  | nil =>
    obtain rfl : m = m' := Option.some.inj h
    exact ⟨.ok (d, types), fun _ _ => rfl⟩
  | cons r rest ih =>
    rw [List.foldlM_cons] at h
    obtain ⟨m₁, hr, hrest⟩ := Option.bind_eq_some_iff.mp h
    obtain ⟨x, hx⟩ := declares_of_headMode sy opts d types hr
    cases x with
    | error e =>
      refine ⟨.error ⟨e, r, some d⟩, fun before after => ?_⟩
      rw [advance, hx]
      rfl
    | ok p =>
      obtain ⟨y, hy⟩ := ih hrest p.1 p.2
      refine ⟨y, fun before after => ?_⟩
      rw [advance, hx]
      exact hy _ _

theorem step_classBegin (sy : Symbols) (opts : Options) (hop : r.opcode = .classBegin) :
    ∃ x : Except Halt ClassDecl, ∀ after,
      step sy opts ⟨[], r, after⟩ .initial = x.map fun d => .declaring .none d [] := by
  have hstep : ∀ after, step sy opts ⟨[], r, after⟩ .initial = classBegin ⟨[], r, after⟩ .initial := by
    intro after
    rw [step_eq_dispatch (by simp [State.initial])]
    simp only [dispatch, hop]
  simp only [hstep, classBegin]
  split
  · exact ⟨.ok _, fun _ => rfl⟩
  · split
    · cases r.int 0 with
      | error e => exact ⟨.error _, fun _ => rfl⟩
      | ok kind => exact ⟨.ok _, fun _ => rfl⟩
    · exact ⟨.error _, fun _ => rfl⟩

variable (sy opts) in
/-- The rows up to the handlers do the same whatever follows. -/
theorem ClassForm.advance_head {f : ClassForm} (hsound : f.isSound) :
    ∃ x : Except Stopped (ClassDecl × Table String String), ∀ after,
      advance sy opts [] f.head after .initial = x.map fun p => .idle p.1 p.2 [] 0 := by
  simp only [isSound, Bool.and_eq_true, beq_iff_eq] at hsound
  obtain ⟨⟨⟨hheader, hdecls⟩, -⟩, -⟩ := hsound
  obtain ⟨x, hx⟩ := step_classBegin sy opts hheader
  cases x with
  | error e =>
    refine ⟨.error ⟨e, f.header, none⟩, fun after => ?_⟩
    rw [head, advance, hx]
    rfl
  | ok d =>
    obtain ⟨y, hy⟩ : ∃ y : Except Stopped (ClassDecl × Table String String), ∀ before after,
        advance sy opts before f.decls after (.declaring .none d []) =
          y.map fun p => .declaring .none p.1 p.2 := advance_decls hdecls d []
    refine ⟨y, fun after => ?_⟩
    rw [head, advance, hx]
    exact hy _ _

theorem headMode_none (h : headMode m r = some .none) : r.opcode ≠ .pushEvent := by
  unfold headMode at h
  split at h
  · split at h <;> simp at h
  all_goals simp_all

/-- The row before the first handler is no row of code. -/
theorem ClassForm.head_last {f : ClassForm} (hsound : f.isSound) :
    Row.does .pushEvent f.head.reverse.head? = false := by
  simp only [isSound, Bool.and_eq_true, beq_iff_eq] at hsound
  obtain ⟨⟨⟨hheader, hdecls⟩, -⟩, -⟩ := hsound
  rcases List.eq_nil_or_concat f.decls with hnil | ⟨init, r, hr⟩
  · simp [head, hnil, Row.does, hheader]
  · rw [hr, List.concat_eq_append, List.foldlM_append] at hdecls
    obtain ⟨m, -, hm⟩ := Option.bind_eq_some_iff.mp hdecls
    have hlast : headMode m r = some .none := by simpa using hm
    have hop := headMode_none hlast
    simp [head, hr, Row.does, hop]

/-! ## Classes -/

/-- The class that the declarations make, and the types of its parameters. -/
def ClassForm.declared? (sy : Symbols) (opts : Options) (f : ClassForm) :
    Option (ClassDecl × Table String String) :=
  match advance sy opts [] f.head [] .initial with
  | .ok st => st.decl.map (·, st.types)
  | .error _ => none

/-- The last row of a class changes nothing. -/
theorem run_fin {fin : Option Row} (h : fin.all (·.opcode == .classEnd)) (before : List Row)
    (hs : List Handler) :
    run sy opts before fin.toList (.idle d types hs 0) = .ok (.idle d types hs 0) := by
  cases fin with
  | none => rfl
  | some r =>
    show run sy opts before [r] _ = _
    rw [run, step_classEnd (by simpa using h)]
    rfl

/-- The handlers that the declarations and the sections make. -/
def ClassForm.handlers? (sy : Symbols) (opts : Options) (f : ClassForm) :
    Option (ClassDecl × List Handler) :=
  (f.declared? sy opts).bind fun p =>
    (f.sections.mapM (Section.handler? sy opts p.1 p.2)).map fun hs => (p.1, hs)

theorem labelsOf_fin {fin : Option Row} (h : fin.all (·.opcode == .classEnd)) :
    labelsOf fin.toList = [] := by
  cases fin with
  | none => rfl
  | some r =>
    have hop : r.opcode = .classEnd := by simpa using h
    show labelsOf [r] = []
    rw [labelsOf_cons, if_neg]
    · rfl
    · intro hl
      simp [opcode_of_isLabel hl] at hop

/-- The rows after the declarations make the handlers of the sections. -/
theorem ClassForm.run_sections (sy : Symbols) (opts : Options) {f : ClassForm} (hsound : f.isSound)
    (hapart : f.Apart) (d : ClassDecl) (types : Table String String) :
    (∃ new types', f.sections.mapM (Section.handler? sy opts d types) = some new ∧
      run sy opts (f.head.reverse ++ []) (f.sections.flatMap Section.rows ++ f.fin.toList)
        (.idle d types [] 0) = .ok (.idle d types' new 0)) ∨
    f.sections.mapM (Section.handler? sy opts d types) = none ∧
      ∃ e, run sy opts (f.head.reverse ++ []) (f.sections.flatMap Section.rows ++ f.fin.toList)
        (.idle d types [] 0) = .error e := by
  have hlast := f.head_last hsound
  simp only [isSound, Bool.and_eq_true, List.all_eq_true] at hsound
  obtain ⟨⟨-, hsections⟩, hfin⟩ := hsound
  rw [← List.append_nil f.head.reverse] at hlast
  rw [run_append]
  rcases advance_sections sy opts d [] hsections hlast (hapart.imp fun h => h.1) (labelsOf_fin hfin)
    rfl with ⟨new, types', hnew, hadvance⟩ | ⟨hnew, e, hadvance⟩
  · rw [hadvance]
    exact .inl ⟨new, types', hnew, run_fin hfin _ _⟩
  · rw [hadvance]
    exact .inr ⟨hnew, e, rfl⟩

theorem ClassForm.run_rows (sy : Symbols) (opts : Options) {f : ClassForm} (hsound : f.isSound)
    (hapart : f.Apart) :
    (∃ d hs types, f.handlers? sy opts = some (d, hs) ∧
      run sy opts [] f.rows .initial = .ok (.idle d types hs 0)) ∨
    f.handlers? sy opts = none ∧ ∃ e, run sy opts [] f.rows .initial = .error e := by
  obtain ⟨x, hx⟩ := f.advance_head sy opts hsound
  rw [rows, run_append, hx, handlers?, declared?, hx]
  cases x with
  | error e => exact .inr ⟨rfl, e, rfl⟩
  | ok p =>
    rcases f.run_sections sy opts hsound hapart p.1 p.2 with
      ⟨new, types', hnew, hrun⟩ | ⟨hnew, e, hrun⟩
    · exact .inl ⟨p.1, new, types', congrArg (Option.map _) hnew, hrun⟩
    · exact .inr ⟨congrArg (Option.map _) hnew, e, hrun⟩

/-- **Lifting reads the declarations, and each section as if it were the only one.** -/
theorem lift_eq (sy : Symbols) (opts : Options) (name : String) {f : ClassForm} (hsound : f.isSound)
    (hapart : f.Apart) :
    (lift sy opts ⟨name, f.rows⟩).toOption =
      (f.handlers? sy opts).map fun p => { p.1 with handlers := p.2 } := by
  rw [lift]
  rcases f.run_rows sy opts hsound hapart with ⟨d, hs, types, hh, hrun⟩ | ⟨hh, e, hrun⟩
  · rw [hh, hrun]
    rfl
  · rw [hh, hrun]
    rfl

theorem lift_ok {name : String} {f : ClassForm} (hsound : f.isSound) (hapart : f.Apart)
    (h : lift sy opts ⟨name, f.rows⟩ = .ok d) :
    ∃ d₀ types hs, f.declared? sy opts = some (d₀, types) ∧
      f.sections.mapM (Section.handler? sy opts d₀ types) = some hs ∧
      d = { d₀ with handlers := hs } := by
  have hlift := lift_eq sy opts name hsound hapart
  rw [h] at hlift
  obtain ⟨p, hp, rfl⟩ := Option.map_eq_some_iff.mp hlift.symm
  obtain ⟨⟨d₀, types⟩, hdeclared, hp⟩ := Option.bind_eq_some_iff.mp hp
  obtain ⟨hs, hhs, rfl⟩ := Option.map_eq_some_iff.mp hp
  exact ⟨d₀, types, hs, hdeclared, hhs, rfl⟩

/-! ## Sections in another order -/

theorem mapM_eq_some {α β : Type} {f : α → Option β} {xs : List α} {ys : List β}
    (h : xs.mapM f = some ys) : ys.length = xs.length ∧ ∀ i : Nat, ys[i]? = xs[i]?.bind f := by
  induction xs generalizing ys with
  | nil =>
    obtain rfl : [] = ys := Option.some.inj h
    simp
  | cons x xs ih =>
    simp only [List.mapM_cons, Option.bind_eq_bind, Option.bind_eq_some_iff, Option.pure_def,
      Option.some.injEq] at h
    obtain ⟨y, hy, ys, hys, rfl⟩ := h
    obtain ⟨hlen, hget⟩ := ih hys
    refine ⟨by simp [hlen], fun i => ?_⟩
    cases i with
    | zero => simp [hy]
    | succ i => simpa using hget i

theorem isSome_mapM {α β : Type} {f : α → Option β} {xs : List α} :
    (xs.mapM f).isSome ↔ ∀ x ∈ xs, (f x).isSome := by
  induction xs with
  | nil => simp
  | cons x xs ih =>
    rw [List.mapM_cons, List.forall_mem_cons, ← ih]
    cases f x <;> cases xs.mapM f <;> simp

section Permuted

variable {f : ClassForm} (σ : Equiv.Perm (Fin f.sections.length))

theorem ClassForm.perm_permuted : (f.permuted σ).sections.Perm f.sections := by
  have hperm := σ.ofFn_comp_perm f.sections.get
  rwa [List.ofFn_get] at hperm

theorem ClassForm.isSound_permuted (h : f.isSound) : (f.permuted σ).isSound := by
  simp only [isSound, Bool.and_eq_true, List.all_eq_true] at h ⊢
  exact ⟨⟨h.1.1, fun x hx => h.1.2 x ((perm_permuted σ).mem_iff.mp hx)⟩, h.2⟩

theorem ClassForm.apart_permuted (h : f.Apart) : (f.permuted σ).Apart :=
  List.Pairwise.perm h (perm_permuted σ).symm fun h => ⟨h.2, h.1⟩

/-- The sections make the same handlers in another order. -/
theorem ClassForm.handlers?_permuted (sy : Symbols) (opts : Options) :
    ((f.permuted σ).handlers? sy opts).isSome = (f.handlers? sy opts).isSome := by
  have hdeclared : (f.permuted σ).declared? sy opts = f.declared? sy opts := rfl
  rw [handlers?, handlers?, hdeclared]
  cases f.declared? sy opts with
  | none => rfl
  | some p =>
    simp only [Option.bind_some, Option.isSome_map]
    rw [Bool.eq_iff_iff, isSome_mapM, isSome_mapM]
    exact forall_congr' fun x => imp_congr_left (perm_permuted σ).mem_iff

end Permuted

theorem isSome_toOption {ε α : Type} {x : Except ε α} : x.toOption.isSome ↔ ∃ a, x = .ok a := by
  cases x <;> simp [Except.toOption]

/-- **The order of the sections is the order of the handlers, and nothing else**: a class is lifted
if and only if it is lifted with its sections in any other order. -/
theorem lift_permuted (sy : Symbols) (opts : Options) (name : String) (f : ClassForm)
    (hsound : f.isSound) (hapart : f.Apart) (σ : Equiv.Perm (Fin f.sections.length)) :
    ((∃ d, lift sy opts ⟨name, f.rows⟩ = .ok d) ↔
      ∃ d, lift sy opts ⟨name, (f.permuted σ).rows⟩ = .ok d) ∧
    ∀ d d', lift sy opts ⟨name, f.rows⟩ = .ok d → lift sy opts ⟨name, (f.permuted σ).rows⟩ = .ok d' →
      d'.kind = d.kind ∧ d'.name = d.name ∧ d'.super = d.super ∧ d'.parameters = d.parameters ∧
      d'.properties = d.properties ∧ d.handlers.length = f.sections.length ∧
      d'.handlers.length = f.sections.length ∧
      ∀ i : Fin f.sections.length, d'.handlers[i.val]? = d.handlers[(σ i).val]? := by
  have hsound' := f.isSound_permuted σ hsound
  have hapart' := f.apart_permuted σ hapart
  refine ⟨?_, fun d d' hd hd' => ?_⟩
  · rw [← isSome_toOption, ← isSome_toOption, lift_eq sy opts name hsound hapart,
      lift_eq sy opts name hsound' hapart', Option.isSome_map, Option.isSome_map,
      f.handlers?_permuted σ]
  · obtain ⟨d₀, types, hs, hdeclared, hhs, rfl⟩ := lift_ok hsound hapart hd
    obtain ⟨d₁, types₁, hs', hdeclared', hhs', rfl⟩ := lift_ok hsound' hapart' hd'
    -- The declarations are the same rows in both classes.
    obtain ⟨rfl, rfl⟩ := Prod.mk.inj (Option.some.inj (hdeclared.symm.trans hdeclared'))
    obtain ⟨hlen, hget⟩ := mapM_eq_some hhs
    obtain ⟨hlen', hget'⟩ := mapM_eq_some hhs'
    refine ⟨rfl, rfl, rfl, rfl, rfl, hlen, by simpa [ClassForm.permuted] using hlen', fun i => ?_⟩
    rw [hget, hget']
    simp [ClassForm.permuted]

/-- A loop and a conditional, each in a handler of its own. -/
def twoHandlers : ClassForm where
  header := plainRow "class" ["0", "guard", ":", "(null)"]
  decls := [plainRow "parameter_define_begin" [], plainRow "int" ["range", "5"],
    plainRow "parameter_define_end" []]
  sections := [
    ⟨plainRow "handler" ["1"], Form.allRows [loopForm [despawnForm]], plainRow "handler_end" []⟩,
    ⟨plainRow "handler" ["1"], testRows "less" "3" ++ [plainRow "branch_false" ["L3"]] ++
      Form.allRows [despawnForm] ++ [plainRow "L3" [], plainRow "exit_handler" []],
      plainRow "handler_end" []⟩]
  fin := some (plainRow "class_end" [])

/-- The handler with the loop. -/
def loopHandler : Handler := ⟨"TALKED", [], [.whileLoop (.binary .lt guardVar (.int 9)) [guardCall]]⟩

/-- The handler with the conditional. -/
def testHandler : Handler :=
  ⟨"TALKED", [], [.ifElse (.binary .lt guardVar (.int 3)) [guardCall] [], .ret]⟩

theorem lift_permuted_twoHandlers :
    twoHandlers.isSound ∧ twoHandlers.Apart ∧
      lift guardSymbols ⟨2, none⟩ ⟨"guard", twoHandlers.rows⟩ = .ok { newClass 0 "guard" "" with
        parameters := [⟨"int", "range", .int 5⟩]
        handlers := [loopHandler, testHandler] } ∧
      ∃ d, lift guardSymbols ⟨2, none⟩
          ⟨"guard", (twoHandlers.permuted (Equiv.swap ⟨0, by decide⟩ ⟨1, by decide⟩)).rows⟩ = .ok d ∧
        d.handlers[0]? = some testHandler := by
  have hsound : twoHandlers.isSound := by decide +kernel
  have hapart : twoHandlers.Apart := by decide +kernel
  have hlift : lift guardSymbols ⟨2, none⟩ ⟨"guard", twoHandlers.rows⟩ =
      .ok { newClass 0 "guard" "" with
        parameters := [⟨"int", "range", .int 5⟩]
        handlers := [loopHandler, testHandler] } := by
    with_unfolding_all rfl
  obtain ⟨hiff, hsame⟩ := lift_permuted guardSymbols ⟨2, none⟩ "guard" twoHandlers hsound hapart
    (Equiv.swap ⟨0, by decide⟩ ⟨1, by decide⟩)
  obtain ⟨d, hd⟩ := hiff.mp ⟨_, hlift⟩
  have hhandlers := (hsame _ d hlift hd).2.2.2.2.2.2.2 ⟨0, by decide⟩
  rw [Equiv.swap_apply_left] at hhandlers
  exact ⟨hsound, hapart, hlift, d, hd, hhandlers⟩

end ScriptLift.Lift
