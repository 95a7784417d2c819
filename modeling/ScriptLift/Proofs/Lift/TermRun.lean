import ScriptLift.Proofs.Lift.Advance
import ScriptLift.Proofs.Lift.Term
import ScriptLift.Proofs.Numeral

/-!
# Lifting of expressions

Taking the rows of a term pushes its meaning and leaves the other stacks alone, whatever stands on
them. A row that announces an event variable counts as a declaration where a section is open, and
the only way to fail is an event variable among variable declarations outside all handlers.

* `Kept`: what the rows of an expression leave alone.
* `declarationRow_event`: an event row in a section.
* `Pushed`: rows that push values; `Pushed.member`, `Pushed.call`: the rows of members and calls.
* `advances_code`: the rows of a term push its meaning.
* **`advance_code_iff`**: when they do.
-/

namespace ScriptLift.Lift

/-! ## What stays -/

/-- What the rows of an expression leave alone. The class and the handlers change in sections only,
where an event variable is noted, and the statements of handlers never. -/
structure Kept (noted : Bool) (st st' : State) : Prop where
  mode : st'.mode = st.mode
  statements : st'.statements = st.statements
  blocks : st'.blocks = st.blocks
  targets : st'.targets = st.targets
  seen : st'.seen = st.seen
  records : st'.records = st.records
  first : st'.first = st.first
  scope : st'.scope = st.scope
  inClass : st'.decl.isSome = st.decl.isSome
  bodies : st'.handlers.map (fun h => (h.name, h.body)) = st.handlers.map fun h => (h.name, h.body)
  unchanged : st.mode = .none ∨ noted = false → st'.decl = st.decl ∧ st'.handlers = st.handlers

namespace Kept

variable {a b : Bool} {st st' st'' : State}

theorem of_operands (es : List Expr) : Kept a st { st with operands := es } :=
  ⟨rfl, rfl, rfl, rfl, rfl, rfl, rfl, rfl, rfl, rfl, fun _ => ⟨rfl, rfl⟩⟩

theorem eq_of_unnoted (h : Kept false st st') :
    st' = { st with operands := st'.operands, types := st'.types } := by
  obtain ⟨mode, operands, statements, blocks, targets, seen, records, types, decl, handlers, first⟩ := st'
  obtain ⟨hd, hh⟩ := h.unchanged (.inr rfl)
  obtain ⟨rfl, rfl, rfl, rfl, rfl, rfl, rfl⟩ := And.intro h.mode (And.intro h.statements
    (And.intro h.blocks (And.intro h.targets (And.intro h.seen (And.intro h.records h.first)))))
  obtain ⟨rfl, rfl⟩ := And.intro hd hh
  rfl

theorem trans (h : Kept a st st') (h' : Kept b st' st'') : Kept (a || b) st st'' where
  mode := h'.mode.trans h.mode
  statements := h'.statements.trans h.statements
  blocks := h'.blocks.trans h.blocks
  targets := h'.targets.trans h.targets
  seen := h'.seen.trans h.seen
  records := h'.records.trans h.records
  first := h'.first.trans h.first
  scope := h'.scope.trans h.scope
  inClass := h'.inClass.trans h.inClass
  bodies := h'.bodies.trans h.bodies
  unchanged := by
    rintro hn
    have hn₁ : st.mode = .none ∨ a = false := by
      rcases hn with hn | hn
      · exact .inl hn
      · exact .inr (by simp_all)
    have hn₂ : st'.mode = .none ∨ b = false := by
      rcases hn with hn | hn
      · exact .inl (h.mode.trans hn)
      · exact .inr (by simp_all)
    exact ⟨(h'.unchanged hn₂).1.trans (h.unchanged hn₁).1, (h'.unchanged hn₂).2.trans (h.unchanged hn₁).2⟩

theorem isEmpty (h : Kept a st st') : st'.handlers = [] ↔ st.handlers = [] := by
  have := congrArg List.length h.bodies
  simp only [List.length_map] at this
  rw [← List.length_eq_zero_iff, ← List.length_eq_zero_iff, this]

end Kept

theorem find?_modify {α β : Type} {p : α → Bool} {f : α → α} {g : α → β} (hp : ∀ x, p (f x) = p x)
    (hg : ∀ x, g (f x) = g x) (l : List α) (i : Nat) :
    ((l.modify i f).find? p).map g = (l.find? p).map g := by
  induction l generalizing i with
  | nil => simp
  | cons x l ih =>
    cases i with
    | zero =>
      simp only [List.modify_zero_cons, List.find?_cons, hp]
      cases p x <;> simp [hg]
    | succ i =>
      simp only [List.modify_succ_cons, List.find?_cons]
      cases p x
      · exact ih i
      · rfl

theorem map_modify {α β : Type} {f : α → α} {g : α → β} (hg : ∀ x, g (f x) = g x) (l : List α)
    (i : Nat) : (l.modify i f).map g = l.map g := by
  refine List.ext_getElem? fun j => ?_
  rw [List.getElem?_map, List.getElem?_map, List.getElem?_modify]
  cases l[j]? with
  | none => rfl
  | some x =>
    show some (g (if i = j then f x else x)) = some (g x)
    split_ifs
    · rw [hg]
    · rfl

/-- The type of a property table of a class. -/
def propertyType (d : ClassDecl) (n : String) : String :=
  ((d.properties.find? (·.name == n)).map Property.type).getD ""

theorem State.scope_congr {st st' : State} (hr : st'.records = st.records)
    (ht : ∀ n, n.isEmpty = false → (st'.types.get? n).getD "int" = (st.types.get? n).getD "int")
    (hd : st'.decl.map (fun d => (d.kind, propertyType d)) =
      st.decl.map fun d => (d.kind, propertyType d)) : st'.scope = st.scope := by
  have hkind : st'.kind = st.kind := by
    have := congrArg (Option.map Prod.fst) hd
    simp only [Option.map_map] at this
    exact congrArg (Option.getD · 0) this
  have hprop : ∀ n, st'.decl.map (propertyType · n) = st.decl.map (propertyType · n) := by
    intro n
    have := congrArg (Option.map fun x => x.2 n) hd
    rw [Option.map_map, Option.map_map] at this
    exact this
  unfold State.scope
  congr 1
  · funext id
    rw [hr]
  · funext n
    cases hn : n.isEmpty
    · simp only [Bool.false_eq_true, if_false, ht n hn]
    · rfl
  · funext n
    cases n.isEmpty
    · exact hprop n
    · rfl

variable {sy : Symbols} {opts : Options}

theorem kept_of_decl {st st' : State} {d d' : ClassDecl} (hd : st.decl = some d)
    (hs : st' = { st with decl := some d', types := st'.types })
    (ht : ∀ n, n.isEmpty = false → (st'.types.get? n).getD "int" = (st.types.get? n).getD "int")
    (hk : d'.kind = d.kind) (hp : ∀ n, propertyType d' n = propertyType d n) (hm : st.mode ≠ .none) :
    Kept true st st' := by
  have hscope : st'.scope = st.scope := by
    refine State.scope_congr (by rw [hs]) ht ?_
    rw [hs, hd]
    simp only [Option.map_some, hk, Option.some.injEq, Prod.mk.injEq, true_and]
    exact funext hp
  rw [hs] at hscope ⊢
  exact ⟨rfl, rfl, rfl, rfl, rfl, rfl, rfl, hscope, by simp [hd], rfl, fun h => by simp [hm] at h⟩

/-- **An event row in a section** is noted there, and nothing but a declaration changes. -/
theorem declarationRow_event {c : Cursor} (hc : c.row.key = ("push_event", [])) {st : State}
    (hd : st.decl.isSome) (hh : st.mode = .locals → st.handlers ≠ []) :
    ∃ st', declarationRow sy c st = .ok st' ∧ st'.operands = st.operands ∧ Kept true st st' := by
  obtain ⟨d, hd⟩ := Option.isSome_iff_exists.mp hd
  obtain ⟨hname, hops⟩ := Prod.mk.inj hc
  unfold declarationRow
  split
  · rename_i hmode
    have hrow : parameterRow sy c st = .ok { st with
        decl := some { d with parameters := d.parameters ++ [⟨typeName c.row.name, "", .hole⟩] }
        types := st.types.put "" (typeName c.row.name) } := by
      simp [parameterRow, hd, hops, Row.operand, Expr.isHole, bind, Except.bind, pure, Except.pure]
    refine ⟨_, hrow, rfl, kept_of_decl hd rfl (fun n hn => ?_) rfl (fun n => rfl) (by simp [hmode])⟩
    have hne : (n == "") = false := by
      rw [beq_eq_false_iff_ne]
      rintro rfl
      simp at hn
    simp [Table.get?, Table.put, List.lookup_cons, hne]
  · rename_i kind replaced hmode
    unfold tableRow
    split_ifs
    · exact ⟨st, rfl, rfl, Kept.of_operands st.operands⟩
    · rw [hd]
      refine ⟨_, rfl, rfl, kept_of_decl hd rfl (fun _ _ => rfl) rfl (fun n => ?_) (by simp [hmode])⟩
      refine congrArg (Option.getD · "") (find?_modify ?_ ?_ _ _)
      · exact fun _ => rfl
      · exact fun _ => rfl
  · rename_i hmode
    have hne := hh hmode
    unfold variableRow
    have hempty : st.handlers.isEmpty = false := by simpa using hne
    simp only [hempty, Bool.false_eq_true, if_false]
    split_ifs
    · exact ⟨st, rfl, rfl, Kept.of_operands st.operands⟩
    · split
      · exact ⟨st, rfl, rfl, Kept.of_operands st.operands⟩
      · refine ⟨_, rfl, rfl, rfl, rfl, rfl, rfl, rfl, rfl, rfl, rfl, rfl, ?_, ?_⟩
        · refine map_modify ?_ _ _
          exact fun _ => rfl
        · rw [hmode]
          simp
  · exact ⟨st, rfl, rfl, Kept.of_operands st.operands⟩
  · exact ⟨st, rfl, rfl, Kept.of_operands st.operands⟩

/-! ## Rows of terms -/

theorem int_zero {r : Row} {a : String} {l : List String} {v : Int64} (h : r.operands = a :: l)
    (hv : (Numeral.readInt a).toOption = some v) : r.int 0 = .ok v := by
  cases hr : Numeral.readInt a with
  | error e => simp [hr, Except.toOption] at hv
  | ok w =>
    obtain rfl : w = v := by simpa [hr, Except.toOption] using hv
    simp [Row.int, Row.operand?, h, hr]

theorem readInt_eq_ok {a : String} {v : Int64} (hv : (Numeral.readInt a).toOption = some v) :
    Numeral.readInt a = .ok v := by
  cases hr : Numeral.readInt a with
  | error e => simp [hr, Except.toOption] at hv
  | ok w => simpa [hr, Except.toOption] using hv

namespace Term

/-- No term ends in an event row, nor in one and another row. -/
theorem code_ends : ∀ t : Term, ∃ ks k, t.code = ks ++ [k] ∧ Opcode.ofName k.1 ≠ .pushEvent ∧
    ∀ k' ∈ ks.getLast?, Opcode.ofName k'.1 ≠ .pushEvent
  | .event a =>
    ⟨[("push_event", []), ("push_const", [a]), ("add", [])], ("fetch_i", []), rfl, by decide,
      by simp; decide⟩
  | .member o offset =>
    ⟨o.code ++ [("push_const", [offset]), ("add", [])], ("fetch_i", []), by simp [code], by decide,
      by simp; decide⟩
  | .int v => ⟨[], _, rfl, (by decide : Opcode.ofName "push_const" ≠ _), by simp⟩
  | .text id => ⟨[], _, rfl, (by decide : Opcode.ofName "push_string" ≠ _), by simp⟩
  | .param n => ⟨[], _, rfl, (by decide : Opcode.ofName "push_parameter" ≠ _), by simp⟩
  | .prop n => ⟨[], _, rfl, (by decide : Opcode.ofName "push_property" ≠ _), by simp⟩
  | .unary op e => by
    obtain ⟨ks, k, he, hk, -⟩ := code_ends e
    refine ⟨e.code, (op.rowName, []), rfl, ?_, ?_⟩
    · cases op <;> simp only [UnaryOp.rowName] <;> decide
    · rw [he]
      simpa using hk
  | .binary op l r => by
    obtain ⟨ks, k, hr, hk, -⟩ := code_ends r
    refine ⟨l.code ++ r.code, (op.rowName, []), by simp [code], ?_, ?_⟩
    · cases op <;> simp only [BinaryOp.rowName] <;> decide
    · rw [hr, ← List.append_assoc]
      simpa using hk
  | .call a o [] => by
    obtain ⟨ks, k, ho, hk, -⟩ := code_ends o
    refine ⟨o.code, ("func_call", [a]), by simp [code, codes],
      (by decide : Opcode.ofName "func_call" ≠ _), ?_⟩
    rw [ho]
    simpa using hk
  | .call a o (t :: ts) => by
    refine ⟨o.code ++ (codes (t :: ts) ++ [("func_call", [a])]),
      ("shift_sp", [Numeral.decimal (-((t :: ts).length : Int))]), by simp [code],
      (by decide : Opcode.ofName "shift_sp" ≠ _), ?_⟩
    rw [← List.append_assoc]
    simp
    decide

/-- No term starts with a fetch. -/
theorem code_starts : ∀ t : Term, ∃ k ks, t.code = k :: ks ∧ Text.startsWith "fetch_" k.1 = false
  | .event _ => ⟨_, _, rfl, (by decide : Text.startsWith "fetch_" "push_event" = false)⟩
  | .int _ => ⟨_, _, rfl, (by decide : Text.startsWith "fetch_" "push_const" = false)⟩
  | .text _ => ⟨_, _, rfl, (by decide : Text.startsWith "fetch_" "push_string" = false)⟩
  | .param _ => ⟨_, _, rfl, (by decide : Text.startsWith "fetch_" "push_parameter" = false)⟩
  | .prop _ => ⟨_, _, rfl, (by decide : Text.startsWith "fetch_" "push_property" = false)⟩
  | .member o _ | .unary _ o | .binary _ o _ | .call _ o _ => by
    obtain ⟨k, ks, ho, hk⟩ := code_starts o
    exact ⟨k, _, by rw [code, ho]; rfl, hk⟩

end Term

/-- The row before is no event row. -/
def Undisturbed (before : List Row) : Prop := Row.does .pushEvent before.head? = false

theorem does_eq_false {r : Row} {op : Opcode} (h : Opcode.ofName r.name ≠ op) :
    Row.does op (some r) = false := by
  simpa [Row.does, Row.opcode] using h

theorem does_of_ne {r : Row} {op op' : Opcode} (h : r.opcode = op) (hne : op ≠ op') :
    Row.does op' (some r) = false :=
  does_eq_false (h ▸ hne : r.opcode ≠ op')

theorem Undisturbed.code {before rows : List Row} (hb : Undisturbed before) {t : Term}
    (h : rows.map Row.key = t.code) :
    Undisturbed (rows.reverse ++ before) ∧
      Row.does .pushEvent (rows.reverse ++ before)[1]? = false := by
  obtain ⟨ks, k, ht, hk, hks⟩ := t.code_ends
  rw [ht, List.map_eq_append_iff] at h
  obtain ⟨rs, r', rfl, hrs, hr⟩ := h
  obtain ⟨r, rfl, hkey⟩ := List.map_eq_singleton_iff.mp hr
  have hrn : r.key.1 = k.1 := by rw [hkey]
  rw [List.reverse_append, List.reverse_singleton, List.singleton_append, List.cons_append]
  refine ⟨does_eq_false (show Opcode.ofName r.key.1 ≠ _ by rwa [hrn]), ?_⟩
  rw [List.getElem?_cons_succ, ← List.head?_eq_getElem?]
  rcases List.eq_nil_or_concat rs with rfl | ⟨rs, r₁, rfl⟩
  · exact hb
  · rw [← hrs] at hks
    simp only [List.concat_eq_append, List.map_append, List.map_cons, List.map_nil,
      List.getLast?_append, List.getLast?_singleton, Option.some_or, Option.mem_def,
      Option.some.injEq, forall_eq'] at hks
    simp only [List.concat_eq_append, List.reverse_append, List.reverse_singleton,
      List.cons_append, List.head?_cons]
    exact does_eq_false hks

theorem fetch_of_code {rows after : List Row} {t : Term} (h : rows.map Row.key = t.code) :
    (rows ++ after).head?.any Row.isFetch = false := by
  obtain ⟨k, ks, ht, hk⟩ := t.code_starts
  rw [ht] at h
  obtain ⟨r, rs, rfl, hr, -⟩ := List.map_eq_cons_iff.mp h
  have hrn : r.key.1 = k.1 := by rw [hr]
  show Text.startsWith "fetch_" r.key.1 = false
  rwa [hrn]

/-! ## Runs -/

/-- Where expressions can be read: in a class, not inside a default text, and not where a select
expects its next comparison. -/
structure Ready (st : State) : Prop where
  mode : st.mode ≠ .parameterText
  inClass : st.decl.isSome
  top : st.topIs Open.isPendingCase = false

/-- Event rows can be noted where they occur. -/
def CanNote (events : Bool) (st : State) : Prop := st.mode = .locals → st.handlers ≠ [] ∨ events = false

namespace Kept

variable {a b : Bool} {st st' : State}

theorem ready (h : Kept a st st') (hr : Ready st) : Ready st' where
  mode := h.mode ▸ hr.mode
  inClass := h.inClass ▸ hr.inClass
  top := by rw [State.topIs, h.statements]; exact hr.top

theorem canNote (h : Kept a st st') (hn : CanNote b st) : CanNote b st' := by
  intro hm
  rw [h.mode] at hm
  rcases hn hm with hn | hn
  · exact .inl fun he => hn (h.isEmpty.mp he)
  · exact .inr hn

end Kept

theorem CanNote.left {a b : Bool} {st : State} (h : CanNote (a || b) st) : CanNote a st := fun hm => by
  rcases h hm with h | h
  · exact .inl h
  · exact .inr (by simp_all)

theorem CanNote.right {a b : Bool} {st : State} (h : CanNote (a || b) st) : CanNote b st := fun hm => by
  rcases h hm with h | h
  · exact .inl h
  · exact .inr (by simp_all)

variable {before rows after : List Row} {row : Row} {st : State}

/-- The rows of an offset or address, of an addition and of a fetch. -/
theorem step_pushConst_event (hr : Ready st) {r₀ : Row} {a : String} (h₀ : r₀.key = ("push_event", []))
    (h : row.key = ("push_const", [a])) {v : Int64} (hv : (Numeral.readInt a).toOption = some v)
    {w : Variable} (hw : sy.slot? st.scope.kind "" v = some w) :
    step sy opts ⟨r₀ :: before, row, after⟩ st = .ok (st.push (.var w.name w.type .hole)) := by
  obtain ⟨-, ho⟩ := Prod.mk.inj h
  have hop : row.opcode = .pushConst := (Row.opcode_of_key h).trans (by decide)
  have hop₀ : r₀.opcode = .pushEvent := (Row.opcode_of_key h₀).trans (by decide)
  rw [step_eq_dispatch hr.mode]
  simp only [dispatch, hop, pushConst, Cursor.prev?, List.head?_cons, Row.does, hop₀, beq_self_eq_true,
    if_true, int_zero ho hv]
  rw [show st.kind = st.scope.kind from rfl, hw]

theorem step_pushConst (hr : Ready st) (hb : Undisturbed before) {a : String}
    (h : row.key = ("push_const", [a])) {v : Int64} (hv : (Numeral.readInt a).toOption = some v) :
    step sy opts ⟨before, row, after⟩ st = .ok (st.push (.int v)) := by
  obtain ⟨-, ho⟩ := Prod.mk.inj h
  have hop : row.opcode = .pushConst := (Row.opcode_of_key h).trans (by decide)
  have hdot : Text.hasInfix "." (row.operand 0) = false := by
    rw [Row.operand_of_key h]
    exact Numeral.hasInfix_dot_of_readInt (readInt_eq_ok hv)
  rw [step_eq_dispatch hr.mode]
  simp only [dispatch, hop, pushConst, Cursor.prev?]
  rw [show Row.does .pushEvent before.head? = false from hb, hdot, int_zero ho hv]
  rfl

theorem step_add_event (hr : Ready st) {r₀ r₁ : Row} (h₀ : r₀.key = ("push_event", []))
    (h : row.key = ("add", [])) : step sy opts ⟨r₁ :: r₀ :: before, row, after⟩ st = .ok st := by
  have hop : row.opcode = .add := (Row.opcode_of_key h).trans (by decide)
  have hop₀ : r₀.opcode = .pushEvent := (Row.opcode_of_key h₀).trans (by decide)
  rw [step_eq_dispatch hr.mode]
  simp [dispatch, hop, add, Cursor.back2?, Row.does, hop₀]

theorem step_fetch (hr : Ready st) (ha : after.head?.any Row.isFetch = false)
    (h : row.key = ("fetch_i", [])) : step sy opts ⟨before, row, after⟩ st = .ok st := by
  have hop : row.opcode = .fetch := (Row.opcode_of_key h).trans (by decide)
  rw [step_eq_dispatch hr.mode]
  simp [dispatch, hop, fetch, Cursor.next?, ha]

theorem pop2_of_operands {x y : Expr} {rest : List Expr} (h : st.operands = y :: x :: rest) :
    st.pop2 = .ok (x, y, { st with operands := rest }) := by
  simp [State.pop2, State.pop, h, bind, Except.bind, pure, Except.pure]

theorem pop1_of_operands {x : Expr} {rest : List Expr} (h : st.operands = x :: rest) :
    st.pop1 = .ok (x, { st with operands := rest }) := by
  simp [State.pop1, State.pop, h]

theorem step_add_member (hr : Ready st) (hb : Row.does .pushEvent before[1]? = false)
    (h : row.key = ("add", [])) {x : Expr} {v : Int64} {rest : List Expr}
    (ho : st.operands = .int v :: x :: rest) (hx : sy.isPrimitive x.type = false) {w : Variable}
    (hw : sy.slot? st.scope.kind x.type v = some w) :
    step sy opts ⟨before, row, after⟩ st =
      .ok { st with operands := .var w.name w.type x :: rest } := by
  have hop : row.opcode = .add := (Row.opcode_of_key h).trans (by decide)
  have hkind : State.kind { st with operands := rest } = st.scope.kind := rfl
  rw [step_eq_dispatch hr.mode]
  simp only [dispatch, hop, add, Cursor.back2?, hb, Bool.false_eq_true, if_false, pop2_of_operands ho,
    bind, Except.bind, hx, hkind, hw]
  rfl

theorem ofName_rowName : ∀ op ∈ BinaryOp.all, op ≠ .add → op ≠ .eq →
    Opcode.ofName op.rowName = .binary op := by
  decide

/-- The row of an operator between two values. -/
theorem step_binary (hr : Ready st) (hb : Row.does .pushEvent before[1]? = false) {op : BinaryOp}
    (hop : op ∈ BinaryOp.all) (h : row.key = (op.rowName, [])) {x y : Expr} {rest : List Expr}
    (ho : st.operands = y :: x :: rest)
    (hadd : op = .add → sy.isPrimitive x.type ∨ y.literal? = none) :
    step sy opts ⟨before, row, after⟩ st = .ok { st with operands := operation sy op x y :: rest } := by
  have hbinary : binary sy op st = .ok { st with operands := operation sy op x y :: rest } := by
    simp only [binary, pop2_of_operands ho, bind, Except.bind, combine_eq_operation]
    rfl
  rw [step_eq_dispatch hr.mode]
  by_cases h_add : op = .add
  · subst h_add
    have hcode : row.opcode = .add := (Row.opcode_of_key h).trans (by decide)
    simp only [dispatch, hcode, add, Cursor.back2?, hb, Bool.false_eq_true, if_false,
      pop2_of_operands ho, bind, Except.bind, combine_eq_operation]
    cases y with
    | int v =>
      have hx : sy.isPrimitive x.type := (hadd rfl).resolve_right (by simp [Expr.literal?])
      simp only [hx, if_true]
      rfl
    | _ => rfl
  by_cases h_eq : op = .eq
  · subst h_eq
    have hcode : row.opcode = .equal := (Row.opcode_of_key h).trans (by decide)
    simp only [dispatch, hcode, hr.top, Bool.false_eq_true, if_false]
    exact hbinary
  have hcode : row.opcode = .binary op :=
    (Row.opcode_of_key h).trans (ofName_rowName op hop h_add h_eq)
  simp only [dispatch, hcode]
  exact hbinary

theorem step_unary (hr : Ready st) {op : UnaryOp} (hop : op = .negate ∨ op = .complement)
    (h : row.key = (op.rowName, [])) {x : Expr} {rest : List Expr} (ho : st.operands = x :: rest) :
    step sy opts ⟨before, row, after⟩ st = .ok { st with operands := .ofUnary op x :: rest } := by
  have hunary : unary op st = .ok { st with operands := .ofUnary op x :: rest } := by
    simp only [unary, pop1_of_operands ho, bind, Except.bind]
    rfl
  rw [step_eq_dispatch hr.mode]
  rcases hop with rfl | rfl
  · have hcode : row.opcode = .negate := (Row.opcode_of_key h).trans (by decide)
    simp only [dispatch, hcode]
    exact hunary
  · have hcode : row.opcode = .complement := (Row.opcode_of_key h).trans (by decide)
    simp only [dispatch, hcode]
    exact hunary

/-- The row of a call of a function on its arguments and its owner. -/
theorem step_call (hr : Ready st) {a : String} (h : row.key = ("func_call", [a])) {v : Int64}
    (hv : (Numeral.readInt a).toOption = some v) {f : Signature} (hf : sy.function? v = some f)
    {es rest : List Expr} {owner : Expr} (hlen : f.arguments.length = es.length)
    (ho : st.operands = es.reverse ++ owner :: rest) :
    step sy opts ⟨before, row, after⟩ st =
      .ok { st with operands := application sy f owner es :: rest } := by
  obtain ⟨-, ho'⟩ := Prod.mk.inj h
  have hcode : row.opcode = .call := (Row.opcode_of_key h).trans (by decide)
  rw [step_eq_dispatch hr.mode]
  simp only [dispatch, hcode, call, int_zero ho' hv, hf, ho, takeArguments_reverse sy _ hlen, bind,
    Except.bind, State.pop1, State.pop]
  rfl

/-- Dropping the arguments of a call leaves it where it is. -/
theorem step_shift_of_call {c : Cursor} {x : State} (hm : x.mode ≠ .parameterText)
    (hop : c.row.opcode = .shift) (hcall : Row.does .call c.prev?) {e : Expr} {rest : List Expr}
    (ho : x.operands = e :: rest) (he : isBareCall e = false) : step sy opts c x = .ok x := by
  rw [step_eq_dispatch hm]
  simp only [dispatch, hop, shift, ho, hcall]
  split
  · rename_i heq
    obtain ⟨rfl, rfl⟩ := List.cons.inj heq
    simp [he]
  · rfl

theorem step_pushString (hm : st.mode ≠ .parameterText) (hop : row.opcode = .pushString) {t : String}
    (ht : st.scope.record? (row.operand 0) = some t) :
    step sy opts ⟨before, row, after⟩ st = .ok (st.push (.str t)) := by
  have hget : st.records.get? (row.operand 0) = some t := ht
  rw [step_eq_dispatch hm]
  simp only [dispatch, hop, pushString, hget]

theorem step_pushProperty (hm : st.mode ≠ .parameterText) (hop : row.opcode = .pushProperty)
    {t : String} (ht : st.scope.prop? (row.operand 0) = some t) :
    step sy opts ⟨before, row, after⟩ st = .ok (st.push (.prop (row.operand 0) t)) := by
  simp only [State.scope] at ht
  split_ifs at ht with hne
  obtain ⟨d, hd, rfl⟩ := Option.map_eq_some_iff.mp ht
  rw [step_eq_dispatch hm]
  simp only [dispatch, hop, pushProperty, hne, hd]
  rfl

/-- A parameter that was not declared becomes known as an integer, which it was before. -/
theorem step_pushParameter (hm : st.mode ≠ .parameterText) (hop : row.opcode = .pushParameter)
    {t : String} (ht : st.scope.param? (row.operand 0) = some t) :
    ∃ st', step sy opts ⟨before, row, after⟩ st = .ok st' ∧
      st'.operands = .param (row.operand 0) t :: st.operands ∧ Kept false st st' := by
  simp only [State.scope] at ht
  split_ifs at ht with hne
  have ht := Option.some.inj ht
  rw [step_eq_dispatch hm]
  simp only [dispatch, hop, pushParameter, hne]
  cases hget : st.types.get? (row.operand 0) with
  | some type =>
    rw [hget] at ht
    obtain rfl : type = t := ht
    exact ⟨_, rfl, rfl, Kept.of_operands _⟩
  | none =>
    rw [hget] at ht
    obtain rfl : "int" = t := ht
    refine ⟨_, rfl, rfl, rfl, rfl, rfl, rfl, rfl, rfl, rfl, ?_, rfl, rfl, fun _ => ⟨rfl, rfl⟩⟩
    refine State.scope_congr rfl (fun m _ => ?_) rfl
    simp only [Table.get?, Table.put, List.lookup_cons] at hget ⊢
    cases hm : m == row.operand 0 with
    | true => rw [beq_iff_eq.mp hm, hget]; rfl
    | false => rfl

/-! ## Terms in place -/

/-- The rows have been taken and pushed the values `es`, the last one on top. -/
def Pushed (sy : Symbols) (opts : Options) (before rows after : List Row) (events : Bool)
    (es : List Expr) (st : State) : Prop :=
  ∃ st', Advances sy opts before rows after st st' ∧ st'.operands = es.reverse ++ st.operands ∧
    Kept events st st'

theorem map_key_append {ks ks' : List (String × List String)} (h : rows.map Row.key = ks ++ ks') :
    ∃ rs rs', rows = rs ++ rs' ∧ rs.map Row.key = ks ∧ rs'.map Row.key = ks' :=
  List.map_eq_append_iff.mp h

theorem map_key_singleton {k : String × List String} (h : rows.map Row.key = [k]) :
    ∃ r, rows = [r] ∧ r.key = k :=
  List.map_eq_singleton_iff.mp h

theorem fetch_of_codes {ts : List Term} (h : rows.map Row.key = Term.codes ts)
    (ha : ts = [] → after.head?.any Row.isFetch = false) :
    (rows ++ after).head?.any Row.isFetch = false := by
  cases ts with
  | nil =>
    obtain rfl := List.map_eq_nil_iff.mp h
    exact ha rfl
  | cons t ts =>
    obtain ⟨rs, rs', rfl, ht, -⟩ := map_key_append h
    rw [List.append_assoc]
    exact fetch_of_code ht

/-- One row that pushes a value. -/
theorem Pushed.one {e : Expr} (h : step sy opts ⟨before, row, after⟩ st = .ok (st.push e)) :
    Pushed sy opts before [row] after false [e] st :=
  ⟨_, .one h, rfl, Kept.of_operands _⟩

theorem pushed_event (hr : Ready st) (hn : CanNote true st)
    (ha : after.head?.any Row.isFetch = false) {a : String} (h : rows.map Row.key = (Term.event a).code)
    {e : Expr} (he : (Term.event a).meaning sy st.scope = some e) :
    Pushed sy opts before rows after true [e] st := by
  obtain ⟨r₀, rows, rfl, h₀, h⟩ := List.map_eq_cons_iff.mp h
  obtain ⟨r₁, rows, rfl, h₁, h⟩ := List.map_eq_cons_iff.mp h
  obtain ⟨r₂, rows, rfl, h₂, h⟩ := List.map_eq_cons_iff.mp h
  obtain ⟨r₃, rfl, h₃⟩ := map_key_singleton h
  obtain ⟨v, w, hv, hw, rfl⟩ := Term.meaning_event he
  obtain ⟨st₁, hst₁, ho₁, hk₁⟩ : ∃ st', declarationRow sy ⟨before, r₀, r₁ :: r₂ :: r₃ :: after⟩ st =
      .ok st' ∧ st'.operands = st.operands ∧ Kept true st st' :=
    declarationRow_event h₀ hr.inClass fun hm => (hn hm).resolve_right (by simp)
  have hr₁ := hk₁.ready hr
  have hcode : r₀.opcode = .pushEvent := (Row.opcode_of_key h₀).trans (by decide)
  have hstep : step sy opts ⟨before, r₀, r₁ :: r₂ :: r₃ :: after⟩ st = .ok st₁ := by
    rw [step_eq_dispatch hr.mode]
    simp only [dispatch, hcode]
    exact hst₁
  rw [← hk₁.scope] at hw
  have hr₂ : Ready (st₁.push (.var w.name w.type .hole)) := (Kept.of_operands (a := false) _).ready hr₁
  refine ⟨st₁.push (.var w.name w.type .hole), ?_, ?_, ?_⟩
  · exact .cons hstep (.cons (step_pushConst_event hr₁ h₀ h₁ hv hw)
      (.cons (step_add_event hr₂ h₀ h₂) (.one (step_fetch hr₂ ha h₃))))
  · rw [State.push, ho₁]
    rfl
  · exact hk₁.trans (Kept.of_operands (a := false) _)

theorem Pushed.append {rows' : List Row} {a b : Bool} {es es' : List Expr}
    (h : Pushed sy opts before rows (rows' ++ after) a es st)
    (h' : ∀ st', Kept a st st' → Pushed sy opts (rows.reverse ++ before) rows' after b es' st') :
    Pushed sy opts before (rows ++ rows') after (a || b) (es ++ es') st := by
  obtain ⟨st₁, hadv, ho, hk⟩ := h
  obtain ⟨st₂, hadv', ho', hk'⟩ := h' st₁ hk
  refine ⟨st₂, hadv.append hadv', ?_, hk.trans hk'⟩
  rw [ho', ho, List.reverse_append, List.append_assoc]

/-- A row that makes one value of the values pushed last. -/
theorem Pushed.snoc {a : Bool} {es : List Expr} {e : Expr}
    (h : Pushed sy opts before rows (row :: after) a es st)
    (h' : ∀ st', Kept a st st' → st'.operands = es.reverse ++ st.operands →
      step sy opts ⟨rows.reverse ++ before, row, after⟩ st' =
        .ok { st' with operands := e :: st.operands }) :
    Pushed sy opts before (rows ++ [row]) after a [e] st := by
  obtain ⟨st₁, hadv, ho, hk⟩ := h
  have hk' := hk.trans (Kept.of_operands (a := false) (e :: st.operands))
  rw [Bool.or_false] at hk'
  exact ⟨_, hadv.snoc (h' st₁ hk ho), rfl, hk'⟩

/-- A row that leaves the value pushed last as it is. -/
theorem Pushed.idle {a : Bool} {es : List Expr}
    (h : Pushed sy opts before rows (row :: after) a es st)
    (h' : ∀ st', Kept a st st' → st'.operands = es.reverse ++ st.operands →
      step sy opts ⟨rows.reverse ++ before, row, after⟩ st' = .ok st') :
    Pushed sy opts before (rows ++ [row]) after a es st := by
  obtain ⟨st₁, hadv, ho, hk⟩ := h
  exact ⟨st₁, hadv.snoc (h' st₁ hk ho), ho, hk⟩

/-- The rows of a member after those of its owner. -/
theorem Pushed.member {ev : Bool} {x : Expr} {r₁ r₂ r₃ : Row} {offset : String} {v : Int64}
    {w : Variable} (h : Pushed sy opts before rows (r₁ :: r₂ :: r₃ :: after) ev [x] st) (hr : Ready st)
    (hb : Undisturbed (rows.reverse ++ before)) (ha : after.head?.any Row.isFetch = false)
    (h₁ : r₁.key = ("push_const", [offset])) (h₂ : r₂.key = ("add", []))
    (h₃ : r₃.key = ("fetch_i", [])) (hv : (Numeral.readInt offset).toOption = some v)
    (hprim : sy.isPrimitive x.type = false) (hw : sy.slot? st.scope.kind x.type v = some w) :
    Pushed sy opts before (rows ++ [r₁, r₂, r₃]) after ev [.var w.name w.type x] st := by
  have hoffset : Pushed sy opts before (rows ++ [r₁]) (r₂ :: r₃ :: after) (ev || false)
      ([x] ++ [.int v]) st :=
    h.append fun st' hk => .one (step_pushConst (hk.ready hr) hb h₁ hv)
  rw [Bool.or_false] at hoffset
  have hadd : Pushed sy opts before (rows ++ [r₁] ++ [r₂]) (r₃ :: after) ev
      [.var w.name w.type x] st :=
    hoffset.snoc fun st' hk hops => by
      refine step_add_member (hk.ready hr) ?_ h₂ hops hprim (by rw [hk.scope]; exact hw)
      simpa [Undisturbed, List.head?_eq_getElem?] using hb
  have hfetch := hadd.idle fun st' hk _ => step_fetch (hk.ready hr) ha h₃
  simpa using hfetch

/-- A call that took arguments is no bare call. -/
theorem isBareCall_application {f : Signature} {x : Expr} {es : List Expr}
    (hlen : f.arguments.length = es.length) (hne : es ≠ []) :
    isBareCall (application sy f x es) = false := by
  show (List.zipWith _ f.arguments es).isEmpty = false
  have hpos := List.length_pos_iff.mpr hne
  rw [List.isEmpty_eq_false_iff, ← List.length_pos_iff, List.length_zipWith]
  omega

/-- The row of a call after those of its owner and its arguments, with the row that drops them. -/
theorem Pushed.call {ev : Bool} {x : Expr} {es : List Expr} {r : Row} {drop : List Row} {a n : String}
    {v : Int64} {f : Signature} (h : Pushed sy opts before rows (r :: (drop ++ after)) ev ([x] ++ es) st)
    (hr : Ready st) (hcall : r.key = ("func_call", [a]))
    (hdrop : drop.map Row.key = if es.isEmpty then [] else [("shift_sp", [n])])
    (hv : (Numeral.readInt a).toOption = some v) (hf : sy.function? v = some f)
    (hlen : f.arguments.length = es.length) :
    Pushed sy opts before (rows ++ r :: drop) after ev [application sy f x es] st := by
  have hpush : Pushed sy opts before (rows ++ [r]) (drop ++ after) ev [application sy f x es] st :=
    h.snoc fun st' hk hops => step_call (hk.ready hr) hcall hv hf hlen (by simpa using hops)
  cases hes : es with
  | nil =>
    obtain rfl : drop = [] := by simpa [hes] using hdrop
    simpa [hes] using hpush
  | cons e es' =>
    obtain ⟨r', rfl, hshift⟩ := map_key_singleton (by simpa [hes] using hdrop)
    have hbare : isBareCall (application sy f x es) = false :=
      isBareCall_application hlen (by simp [hes])
    have hdropped : Pushed sy opts before (rows ++ [r] ++ [r']) after ev [application sy f x es] st :=
      hpush.idle fun st' hk hops => by
        rw [List.reverse_append, List.reverse_singleton, List.singleton_append, List.cons_append]
        have hdoes : Row.does .call (some r) := by
          rw [Row.does, Row.opcode_of_key hcall]
          decide
        exact step_shift_of_call (hk.ready hr).mode (Row.opcode_of_key hshift) hdoes hops hbare
    simpa [hes] using hdropped

theorem isFetch_eq_false {r : Row} {k : String × List String} (h : r.key = k)
    (hk : Text.startsWith "fetch_" k.1 = false) (after : List Row) :
    (r :: after).head?.any Row.isFetch = false := by
  subst h
  exact hk

theorem rowName_isFetch (op : BinaryOp) : Text.startsWith "fetch_" op.rowName = false := by
  cases op <;> simp only [BinaryOp.rowName] <;> decide

theorem unary_rowName_isFetch (op : UnaryOp) : Text.startsWith "fetch_" op.rowName = false := by
  cases op <;> simp only [UnaryOp.rowName] <;> decide

mutual

/-- **The rows of a term push its meaning.** -/
theorem advances_code : ∀ {t : Term} {e : Expr} {before rows after : List Row} {st : State},
    rows.map Row.key = t.code → t.meaning sy st.scope = some e → Ready st →
      CanNote t.hasEvent st → Undisturbed before → after.head?.any Row.isFetch = false →
      Pushed sy opts before rows after t.hasEvent [e] st
  | .event a, e, before, rows, after, st, h, he, hr, hn, hb, ha => pushed_event hr hn ha h he
  | .int v, e, before, rows, after, st, h, he, hr, hn, hb, ha => by
    obtain ⟨r, rfl, hkey⟩ := map_key_singleton h
    obtain ⟨v, hv, rfl⟩ := Option.map_eq_some_iff.mp he
    exact .one (step_pushConst hr hb hkey hv)
  | .text id, e, before, rows, after, st, h, he, hr, hn, hb, ha => by
    obtain ⟨r, rfl, hkey⟩ := map_key_singleton h
    obtain ⟨t, ht, rfl⟩ := Option.map_eq_some_iff.mp he
    exact .one (step_pushString hr.mode (Row.opcode_of_key hkey) (by rwa [Row.operand_of_key hkey]))
  | .param n, e, before, rows, after, st, h, he, hr, hn, hb, ha => by
    obtain ⟨r, rfl, hkey⟩ := map_key_singleton h
    obtain ⟨t, ht, rfl⟩ := Option.map_eq_some_iff.mp he
    have hoperand : r.operand 0 = n := Row.operand_of_key hkey
    obtain ⟨st', hstep, ho, hk⟩ := step_pushParameter hr.mode (Row.opcode_of_key hkey) (by rwa [hoperand])
    rw [hoperand] at ho
    exact ⟨st', .one hstep, ho, hk⟩
  | .prop n, e, before, rows, after, st, h, he, hr, hn, hb, ha => by
    obtain ⟨r, rfl, hkey⟩ := map_key_singleton h
    obtain ⟨t, ht, rfl⟩ := Option.map_eq_some_iff.mp he
    rw [← Row.operand_of_key hkey] at ht ⊢
    exact .one (step_pushProperty hr.mode (Row.opcode_of_key hkey) ht)
  | .member o offset, e, before, rows, after, st, h, he, hr, hn, hb, ha => by
    obtain ⟨x, v, w, hx, hprim, hv, hw, rfl⟩ := Term.meaning_member he
    obtain ⟨rs, rs', rfl, ho, h'⟩ := map_key_append h
    obtain ⟨r₁, rs', rfl, h₁, h'⟩ := List.map_eq_cons_iff.mp h'
    obtain ⟨r₂, rs', rfl, h₂, h'⟩ := List.map_eq_cons_iff.mp h'
    obtain ⟨r₃, rfl, h₃⟩ := map_key_singleton h'
    have howner : Pushed sy opts before rs (r₁ :: r₂ :: r₃ :: after) o.hasEvent [x] st :=
      advances_code ho hx hr hn hb
        (isFetch_eq_false h₁ (by decide : Text.startsWith "fetch_" "push_const" = false) _)
    exact howner.member hr (hb.code ho).1 ha h₁ h₂ h₃ hv hprim hw
  | .unary op t, e, before, rows, after, st, h, he, hr, hn, hb, ha => by
    obtain ⟨x, hop, hx, rfl⟩ := Term.meaning_unary he
    obtain ⟨rs, rs', rfl, ht, h'⟩ := map_key_append h
    obtain ⟨r, rfl, hkey⟩ := map_key_singleton h'
    have hpush : Pushed sy opts before rs (r :: after) t.hasEvent [x] st :=
      advances_code ht hx hr hn hb (isFetch_eq_false hkey (unary_rowName_isFetch op) _)
    exact hpush.snoc fun st' hk hops => step_unary (hk.ready hr) hop hkey hops
  | .binary op l r, e, before, rows, after, st, h, he, hr, hn, hb, ha => by
    obtain ⟨x, y, hop, hx, hy, hadd, rfl⟩ := Term.meaning_binary he
    obtain ⟨rs₁, rs', rfl, hl, h'⟩ := map_key_append h
    obtain ⟨rs₂, rs', rfl, hr₂, h'⟩ := map_key_append h'
    obtain ⟨r₀, rfl, hkey⟩ := map_key_singleton h'
    have hb₁ := hb.code hl
    have hleft : Pushed sy opts before rs₁ (rs₂ ++ r₀ :: after) l.hasEvent [x] st :=
      advances_code hl hx hr hn.left hb (fetch_of_code hr₂)
    have hboth : Pushed sy opts before (rs₁ ++ rs₂) (r₀ :: after) (l.hasEvent || r.hasEvent)
        ([x] ++ [y]) st :=
      hleft.append fun st' hk => advances_code hr₂ (hk.scope ▸ hy) (hk.ready hr) (hk.canNote hn.right)
        hb₁.1 (isFetch_eq_false hkey (rowName_isFetch op) _)
    have hbin := hboth.snoc (e := operation sy op x y) fun st' hk hops =>
      step_binary (hk.ready hr) (by simpa using (hb₁.1.code hr₂).2) hop hkey hops hadd
    simpa [Term.hasEvent] using hbin
  | .call a o args, e, before, rows, after, st, h, he, hr, hn, hb, ha => by
    obtain ⟨v, f, x, es, hv, hf, hx, hes, hlen, rfl⟩ := Term.meaning_call he
    obtain ⟨rs₁, rs', rfl, ho, h'⟩ := map_key_append h
    obtain ⟨rs₂, rs', rfl, hargs, h'⟩ := map_key_append h'
    obtain ⟨r₀, rs₃, rfl, hkey, hdrop⟩ := List.map_eq_cons_iff.mp h'
    have hfetch : (r₀ :: (rs₃ ++ after)).head?.any Row.isFetch = false :=
      isFetch_eq_false hkey (by decide : Text.startsWith "fetch_" "func_call" = false) _
    have hsame : es.length = args.length := Term.length_meanings hes
    have howner : Pushed sy opts before rs₁ (rs₂ ++ r₀ :: (rs₃ ++ after)) o.hasEvent [x] st :=
      advances_code ho hx hr hn.left hb (fetch_of_codes hargs fun _ => hfetch)
    have hall : Pushed sy opts before (rs₁ ++ rs₂) (r₀ :: (rs₃ ++ after))
        (o.hasEvent || Term.anyEvent args) ([x] ++ es) st :=
      howner.append fun st' hk => advances_codes hargs (hk.scope ▸ hes) (hk.ready hr)
        (hk.canNote hn.right) (hb.code ho).1 hfetch
    have hempty : args.isEmpty = es.isEmpty := by
      rw [Bool.eq_iff_iff, List.isEmpty_iff_length_eq_zero, List.isEmpty_iff_length_eq_zero, hsame]
    rw [← List.append_assoc]
    exact hall.call hr hkey (hempty ▸ hdrop) hv hf (hlen.trans hsame.symm)

/-- The rows of arguments push their meanings. -/
theorem advances_codes : ∀ {ts : List Term} {es : List Expr} {before rows after : List Row} {st : State},
    rows.map Row.key = Term.codes ts → Term.meanings sy st.scope ts = some es → Ready st →
      CanNote (Term.anyEvent ts) st → Undisturbed before → after.head?.any Row.isFetch = false →
      Pushed sy opts before rows after (Term.anyEvent ts) es st
  | [], es, before, rows, after, st, h, he, hr, hn, hb, ha => by
    obtain rfl := List.map_eq_nil_iff.mp h
    obtain rfl := Option.some.inj he
    exact ⟨st, .nil, rfl, Kept.of_operands _⟩
  | t :: ts, es, before, rows, after, st, h, he, hr, hn, hb, ha => by
    obtain ⟨x, xs, hx, hxs, rfl⟩ := Term.meanings_cons he
    obtain ⟨rs, rs', rfl, ht, hts⟩ := map_key_append h
    have hfirst : Pushed sy opts before rs (rs' ++ after) t.hasEvent [x] st :=
      advances_code ht hx hr hn.left hb (fetch_of_codes hts fun _ => ha)
    exact hfirst.append fun st' hk => advances_codes hts (hk.scope ▸ hxs) (hk.ready hr)
      (hk.canNote hn.right) (hb.code ht).1 ha

end

/-! ## Event variables outside handlers -/

/-- The rows are not taken, for an event variable among variable declarations outside all handlers. -/
def Refused (sy : Symbols) (opts : Options) (before rows after : List Row) (st : State) : Prop :=
  ∃ s, advance sy opts before rows after st = .error s ∧
    s.halt = .fault (.malformed (.variableOutsideHandler "push_event"))

theorem Refused.append {rows' : List Row} (h : Refused sy opts before rows (rows' ++ after) st) :
    Refused sy opts before (rows ++ rows') after st := by
  obtain ⟨s, hs, hhalt⟩ := h
  exact ⟨s, by rw [advance_append, hs]; rfl, hhalt⟩

theorem Pushed.refused {rows' : List Row} {a : Bool} {es : List Expr}
    (h : Pushed sy opts before rows (rows' ++ after) a es st)
    (h' : ∀ st', Kept a st st' → Refused sy opts (rows.reverse ++ before) rows' after st') :
    Refused sy opts before (rows ++ rows') after st := by
  obtain ⟨st', hadv, -, hk⟩ := h
  obtain ⟨s, hs, hhalt⟩ := h' st' hk
  refine ⟨s, ?_, hhalt⟩
  rw [Advances] at hadv
  rw [advance_append, hadv]
  exact hs

theorem refused_event (hm : st.mode = .locals) (hh : st.handlers = []) {a : String}
    (h : rows.map Row.key = (Term.event a).code) : Refused sy opts before rows after st := by
  obtain ⟨r₀, rows, rfl, h₀, -⟩ := List.map_eq_cons_iff.mp h
  obtain ⟨hn, -⟩ := Prod.mk.inj h₀
  have hcode : r₀.opcode = .pushEvent := (Row.opcode_of_key h₀).trans (by decide)
  have hstep : step sy opts ⟨before, r₀, rows ++ after⟩ st =
      .error (.fault (.malformed (.variableOutsideHandler "push_event"))) := by
    rw [step_eq_dispatch (by rw [hm]; simp)]
    simp [dispatch, hcode, declarationRow, hm, variableRow, hh, malformed, hn]
  exact ⟨_, by rw [advance, hstep], rfl⟩

theorem canNote_false (st : State) {b : Bool} (hb : ¬ b) : CanNote b st :=
  fun _ => .inr (by simpa using hb)

mutual

/-- Outside all handlers an event variable is refused among variable declarations. -/
theorem refused_code : ∀ {t : Term} {e : Expr} {before rows after : List Row} {st : State},
    rows.map Row.key = t.code → t.meaning sy st.scope = some e → Ready st → st.mode = .locals →
      st.handlers = [] → t.hasEvent → Undisturbed before → Refused sy opts before rows after st
  | .event a, e, before, rows, after, st, h, he, hr, hm, hh, ht, hb => refused_event hm hh h
  | .member o offset, e, before, rows, after, st, h, he, hr, hm, hh, ht, hb => by
    obtain ⟨x, v, w, hx, -, -, -, rfl⟩ := Term.meaning_member he
    obtain ⟨rs, rs', rfl, ho, -⟩ := map_key_append h
    exact (refused_code ho hx hr hm hh ht hb).append
  | .unary op t, e, before, rows, after, st, h, he, hr, hm, hh, ht, hb => by
    obtain ⟨x, -, hx, rfl⟩ := Term.meaning_unary he
    obtain ⟨rs, rs', rfl, ho, -⟩ := map_key_append h
    exact (refused_code ho hx hr hm hh ht hb).append
  | .binary op l r, e, before, rows, after, st, h, he, hr, hm, hh, ht, hb => by
    obtain ⟨x, y, -, hx, hy, -, rfl⟩ := Term.meaning_binary he
    obtain ⟨rs₁, rs', rfl, hl, h'⟩ := map_key_append h
    obtain ⟨rs₂, rs₃, rfl, hr₂, -⟩ := map_key_append h'
    by_cases hlt : l.hasEvent
    · exact (refused_code hl hx hr hm hh hlt hb).append
    · have hrt : r.hasEvent := by simpa [Term.hasEvent, hlt] using ht
      have hleft : Pushed sy opts before rs₁ (rs₂ ++ rs₃ ++ after) l.hasEvent [x] st :=
        advances_code hl hx hr (canNote_false st hlt) hb (by
          rw [List.append_assoc]; exact fetch_of_code hr₂)
      refine hleft.refused fun st' hk => ?_
      exact (refused_code hr₂ (hk.scope ▸ hy) (hk.ready hr) (hk.mode.trans hm) (hk.isEmpty.mpr hh) hrt
        (hb.code hl).1).append
  | .call a o args, e, before, rows, after, st, h, he, hr, hm, hh, ht, hb => by
    obtain ⟨v, f, x, es, -, -, hx, hes, -, rfl⟩ := Term.meaning_call he
    obtain ⟨rs₁, rs', rfl, ho, h'⟩ := map_key_append h
    obtain ⟨rs₂, rs₃, rfl, hargs, -⟩ := map_key_append h'
    by_cases hot : o.hasEvent
    · exact (refused_code ho hx hr hm hh hot hb).append
    · have hat : Term.anyEvent args := by simpa [Term.hasEvent, hot] using ht
      have howner : Pushed sy opts before rs₁ (rs₂ ++ rs₃ ++ after) o.hasEvent [x] st :=
        advances_code ho hx hr (canNote_false st hot) hb (by
          rw [List.append_assoc]
          refine fetch_of_codes hargs ?_
          rintro rfl
          simp [Term.anyEvent] at hat)
      refine howner.refused fun st' hk => ?_
      exact (refused_codes hargs (hk.scope ▸ hes) (hk.ready hr) (hk.mode.trans hm)
        (hk.isEmpty.mpr hh) hat (hb.code ho).1).append
  | .int _, _, _, _, _, _, _, _, _, _, _, ht, _ | .text _, _, _, _, _, _, _, _, _, _, _, ht, _
  | .param _, _, _, _, _, _, _, _, _, _, _, ht, _ | .prop _, _, _, _, _, _, _, _, _, _, _, ht, _ => by
    simp [Term.hasEvent] at ht

theorem refused_codes : ∀ {ts : List Term} {es : List Expr} {before rows after : List Row} {st : State},
    rows.map Row.key = Term.codes ts → Term.meanings sy st.scope ts = some es → Ready st →
      st.mode = .locals → st.handlers = [] → Term.anyEvent ts → Undisturbed before →
      Refused sy opts before rows after st
  | [], _, _, _, _, _, _, _, _, _, _, ht, _ => by simp [Term.anyEvent] at ht
  | t :: ts, es, before, rows, after, st, h, he, hr, hm, hh, ht, hb => by
    obtain ⟨x, xs, hx, hxs, rfl⟩ := Term.meanings_cons he
    obtain ⟨rs, rs', rfl, hkey, hts⟩ := map_key_append h
    by_cases htt : t.hasEvent
    · exact (refused_code hkey hx hr hm hh htt hb).append
    · have hat : Term.anyEvent ts := by simpa [Term.anyEvent, htt] using ht
      have hfirst : Pushed sy opts before rs (rs' ++ after) t.hasEvent [x] st :=
        advances_code hkey hx hr (canNote_false st htt) hb (by
          refine fetch_of_codes hts ?_
          rintro rfl
          simp [Term.anyEvent] at hat)
      refine hfirst.refused fun st' hk => ?_
      exact refused_codes hts (hk.scope ▸ hxs) (hk.ready hr) (hk.mode.trans hm) (hk.isEmpty.mpr hh) hat
        (hb.code hkey).1

end

/-- **When the rows of an expression push it.** They are taken unless an event variable stands among
variable declarations outside all handlers; then exactly one operand is new, the expression that the
term spells, and the other stacks are as they were. -/
theorem advance_code_iff (sy : Symbols) (opts : Options) (t : Term) (e : Expr)
    (before rows after : List Row) (st : State)
    (hcode : rows.map Row.key = t.code) (hmeaning : t.meaning sy st.scope = some e)
    (hmode : st.mode ≠ .parameterText) (hclass : st.decl.isSome)
    (htop : st.topIs Open.isPendingCase = false)
    (hbefore : Row.does .pushEvent before.head? = false)
    (hafter : after.head?.any Row.isFetch = false) :
    ((∃ st', advance sy opts before rows after st = .ok st') ↔
      (st.mode = .locals → st.handlers ≠ [] ∨ t.hasEvent = false)) ∧
    ∀ st', advance sy opts before rows after st = .ok st' →
      st'.operands = e :: st.operands ∧ Kept t.hasEvent st st' := by
  have hr : Ready st := ⟨hmode, hclass, htop⟩
  have hpush : CanNote t.hasEvent st → Pushed sy opts before rows after t.hasEvent [e] st :=
    fun hn => advances_code hcode hmeaning hr hn hbefore hafter
  have hiff : (∃ st', advance sy opts before rows after st = .ok st') ↔ CanNote t.hasEvent st := by
    constructor
    · rintro ⟨st', hst'⟩ hm
      by_contra hnot
      rw [not_or, not_not, Bool.not_eq_false] at hnot
      obtain ⟨s, hs, -⟩ : Refused sy opts before rows after st :=
        refused_code hcode hmeaning hr hm hnot.1 hnot.2 hbefore
      rw [hs] at hst'
      simp at hst'
    · intro hn
      obtain ⟨st', hst', -, -⟩ := hpush hn
      exact ⟨st', hst'⟩
  refine ⟨hiff, fun st' hst' => ?_⟩
  obtain ⟨st'', hst'', ho, hk⟩ := hpush (hiff.mp ⟨st', hst'⟩)
  rw [Advances, hst'] at hst''
  obtain rfl := Except.ok.inj hst''
  exact ⟨ho, hk⟩

/-- One scripted object with a member, and a function of two arguments. -/
def talkerSymbols : Symbols where
  handler? _ _ := none
  slot? _ owner address :=
    if owner = "" ∧ address = 16 then some ⟨"talker", "creature"⟩
    else if owner = "creature" ∧ address = 8 then some ⟨"level", "int"⟩
    else none
  variableType? _ _ := none
  function? address := if address = 5 then some ⟨"Say", "void", ["int", "string"]⟩ else none
  constant? _ _ := none
  isPrimitive type := type = "int"
  fstring? _ := none

/-- A call on an event variable; its arguments are a sum with a member, and a text. -/
def talkerCall : Term :=
  .call "5" (.event "16") [.binary .add (.member (.event "16") "8") (.int "-3"), .text "S1"]

theorem advance_code_call :
    ∃ st', advance talkerSymbols ⟨2, none⟩ [] (talkerCall.code.map fun k => ⟨k.1, k.2, "", "", 0⟩) []
      { State.initial with
        decl := some (newClass 1 "c" ""), records := [("S1", "hi")], operands := [.int 7] } = .ok st' ∧
      st'.operands = [.call "Say" "void" (.var "talker" "creature" .hole)
        [.binary .add (.var "level" "int" (.var "talker" "creature" .hole)) (.int (-3)), .str "hi"] "",
        .int 7] := by
  have h := advance_code_iff talkerSymbols ⟨2, none⟩ talkerCall
    (.call "Say" "void" (.var "talker" "creature" .hole)
      [.binary .add (.var "level" "int" (.var "talker" "creature" .hole)) (.int (-3)), .str "hi"] "") []
    (talkerCall.code.map fun k => ⟨k.1, k.2, "", "", 0⟩) []
    { State.initial with
      decl := some (newClass 1 "c" ""), records := [("S1", "hi")], operands := [.int 7] }
    rfl (by cbv) (by simp [State.initial]) rfl rfl rfl rfl
  obtain ⟨st', hst'⟩ := h.1.mpr (by simp [State.initial])
  exact ⟨st', hst', (h.2 st' hst').1⟩

end ScriptLift.Lift
