import Mathlib.Tactic
import ScriptLift.Lift.Operand

/-!
# Terms

Expressions are compiled to postfix code. A term is an expression by the operands of its rows.

* `Term`, `Term.code`: terms, and the names and operands of their rows.
* `Scope`, `Term.meaning`: what ids stand for, and the expression that a term spells.
* `combine_eq_operation`, `takeArguments_reverse`: operations and arguments name their constants as
  meanings do.
-/

namespace ScriptLift

namespace Lift

/-! ## Terms -/

/-- An expression, by the operands of the rows that push it. -/
inductive Term where
  | event (address : String)
  | member (owner : Term) (offset : String)
  | int (value : String)
  | text (id : String)
  | param (name : String)
  | prop (name : String)
  | unary (op : UnaryOp) (operand : Term)
  | binary (op : BinaryOp) (left right : Term)
  | call (address : String) (owner : Term) (args : List Term)
  deriving Inhabited

end Lift

/-- The row of an operator. -/
def BinaryOp.rowName : BinaryOp → String
  | or => "or"
  | and => "and"
  | bitOr => "bit_or"
  | bitXor => "xor"
  | bitAnd => "bit_and"
  | eq => "equal"
  | ne => "not_equal"
  | lt => "less"
  | le => "less_equal"
  | gt => "greater"
  | ge => "greater_equal"
  | add => "add"
  | sub => "sub"
  | mul => "mul"
  | div => "div"
  | mod => "mod"
  | other _ => ""

/-- The row of an operator before its operand. -/
def UnaryOp.rowName : UnaryOp → String
  | negate => "negate"
  | complement => "not"
  | _ => ""

/-- The name and the operands of a row. -/
def Row.key (r : Row) : String × List String := (r.name, r.operands)

namespace Row

variable {r : Row} {n a : String} {operands : List String}

theorem opcode_of_key (h : r.key = (n, operands)) : r.opcode = Opcode.ofName n := by
  rw [opcode, (Prod.mk.inj h).1]

theorem operand_of_key (h : r.key = (n, a :: operands)) : r.operand 0 = a := by
  rw [operand, (Prod.mk.inj h).2]
  rfl

end Row

namespace Lift

namespace Term

mutual

/-- The postfix code of a term, by names and operands of its rows. -/
def code : Term → List (String × List String)
  | event a => [("push_event", []), ("push_const", [a]), ("add", []), ("fetch_i", [])]
  | member o offset => o.code ++ [("push_const", [offset]), ("add", []), ("fetch_i", [])]
  | int v => [("push_const", [v])]
  | text id => [("push_string", [id])]
  | param n => [("push_parameter", [n])]
  | prop n => [("push_property", [n])]
  | unary op e => e.code ++ [(op.rowName, [])]
  | binary op l r => l.code ++ (r.code ++ [(op.rowName, [])])
  | call a o args =>
    o.code ++ (codes args ++ (("func_call", [a]) ::
      if args.isEmpty then [] else [("shift_sp", [Numeral.decimal (-(args.length : Int))])]))

/-- The postfix code of arguments. -/
def codes : List Term → List (String × List String)
  | [] => []
  | t :: ts => t.code ++ codes ts

end

mutual

/-- Whether an event variable occurs in a term. -/
def hasEvent : Term → Bool
  | event _ => true
  | member o _ => o.hasEvent
  | unary _ e => e.hasEvent
  | binary _ l r => l.hasEvent || r.hasEvent
  | call _ o args => o.hasEvent || anyEvent args
  | _ => false

/-- Whether an event variable occurs in an argument. -/
def anyEvent : List Term → Bool
  | [] => false
  | t :: ts => t.hasEvent || anyEvent ts

end

end Term

/-! ## Meanings -/

/-- What the ids of expressions stand for where they are read. -/
structure Scope where
  kind : Int64
  record? : String → Option String
  /-- The type of a parameter; a nameless one has none. -/
  param? : String → Option String
  /-- The type of a property table; a nameless one has none. -/
  prop? : String → Option String

/-- What ids stand for in a state. -/
def State.scope (st : State) : Scope where
  kind := st.kind
  record? id := st.records.get? id
  param? n := if n.isEmpty then none else some ((st.types.get? n).getD "int")
  prop? n :=
    if n.isEmpty then none
    else st.decl.map fun d => ((d.properties.find? (·.name == n)).map Property.type).getD ""

/-- The constant an integer stands for in a domain. -/
def constant? (sy : Symbols) (v : Int64) (domain : String) : Option Expr :=
  (sy.constant? domain v).map fun name =>
    if domain == "SKILL_SHORT" then .binary .div (.const domain name) (.int Symbols.shortSkillDivisor)
    else .const domain name

/-- An operand as it reads among values of the domains: literals by the first constant found. -/
def named (sy : Symbols) (domains : List String) (e : Expr) : Expr :=
  (e.literal?.bind fun v => domains.findSome? (constant? sy v)).getD e

/-- An argument's comment: the text that a literal numbers. -/
def note? (sy : Symbols) (type : String) (e : Expr) : Option String :=
  if type == "FSTRING" then e.literal?.bind sy.fstring? else none

/-- An operation on two values, each read among values of the other's type. -/
def operation (sy : Symbols) (op : BinaryOp) (l r : Expr) : Expr :=
  .binary op (named sy [(named sy [l.type, "SKILL"] r).type, "SKILL"] l) (named sy [l.type, "SKILL"] r)

/-- A call with its arguments, each read among values of its parameter's type. -/
def application (sy : Symbols) (f : Signature) (owner : Expr) (args : List Expr) : Expr :=
  .call f.name f.type owner (List.zipWith (fun type e => named sy [type] e) f.arguments args)
    (String.intercalate ", " ((f.arguments.zip args).filterMap fun (type, e) => note? sy type e))

namespace Term

mutual

/-- **The expression a term spells**, if all its ids stand for something. A sum of an object and an
integer would be a member. -/
def meaning (sy : Symbols) (sc : Scope) : Term → Option Expr
  | event a => do
    let v ← sy.slot? sc.kind "" (← (Numeral.readInt a).toOption)
    return .var v.name v.type .hole
  | member o offset => do
    let e ← o.meaning sy sc
    guard (!sy.isPrimitive e.type)
    let v ← sy.slot? sc.kind e.type (← (Numeral.readInt offset).toOption)
    return .var v.name v.type e
  | int v => (Numeral.readInt v).toOption.map .int
  | text id => (sc.record? id).map .str
  | param n => (sc.param? n).map (.param n)
  | prop n => (sc.prop? n).map (.prop n)
  | unary op e => do
    guard (op = .negate ∨ op = .complement)
    return .ofUnary op (← e.meaning sy sc)
  | binary op l r => do
    guard (op ∈ BinaryOp.all)
    let x ← l.meaning sy sc
    let y ← r.meaning sy sc
    guard (op = .add → sy.isPrimitive x.type ∨ y.literal? = none)
    return operation sy op x y
  | call a o args => do
    let f ← sy.function? (← (Numeral.readInt a).toOption)
    let owner ← o.meaning sy sc
    let es ← meanings sy sc args
    guard (f.arguments.length = args.length)
    return application sy f owner es

/-- The expressions that arguments spell. -/
def meanings (sy : Symbols) (sc : Scope) : List Term → Option (List Expr)
  | [] => some []
  | t :: ts => do
    let e ← t.meaning sy sc
    let es ← meanings sy sc ts
    return e :: es

end

section

variable {sy : Symbols} {sc : Scope} {e : Expr}

theorem meaning_event {a : String} (h : (event a).meaning sy sc = some e) :
    ∃ v w, (Numeral.readInt a).toOption = some v ∧ sy.slot? sc.kind "" v = some w ∧
      e = .var w.name w.type .hole := by
  obtain ⟨v, hv, h⟩ := Option.bind_eq_some_iff.mp h
  obtain ⟨w, hw, h⟩ := Option.bind_eq_some_iff.mp h
  exact ⟨v, w, hv, hw, (Option.some.inj h).symm⟩

theorem meaning_member {o : Term} {offset : String} (h : (member o offset).meaning sy sc = some e) :
    ∃ x v w, o.meaning sy sc = some x ∧ sy.isPrimitive x.type = false ∧
      (Numeral.readInt offset).toOption = some v ∧ sy.slot? sc.kind x.type v = some w ∧
      e = .var w.name w.type x := by
  obtain ⟨x, hx, h⟩ := Option.bind_eq_some_iff.mp h
  obtain ⟨_, hp, h⟩ := Option.bind_eq_some_iff.mp h
  obtain ⟨v, hv, h⟩ := Option.bind_eq_some_iff.mp h
  obtain ⟨w, hw, h⟩ := Option.bind_eq_some_iff.mp h
  rw [Option.guard_eq_some', Bool.not_eq_true'] at hp
  exact ⟨x, v, w, hx, hp, hv, hw, (Option.some.inj h).symm⟩

theorem meaning_unary {op : UnaryOp} {t : Term} (h : (unary op t).meaning sy sc = some e) :
    ∃ x, (op = .negate ∨ op = .complement) ∧ t.meaning sy sc = some x ∧ e = .ofUnary op x := by
  obtain ⟨_, hop, h⟩ := Option.bind_eq_some_iff.mp h
  obtain ⟨x, hx, h⟩ := Option.bind_eq_some_iff.mp h
  rw [Option.guard_eq_some'] at hop
  exact ⟨x, hop, hx, (Option.some.inj h).symm⟩

theorem meaning_binary {op : BinaryOp} {l r : Term} (h : (binary op l r).meaning sy sc = some e) :
    ∃ x y, op ∈ BinaryOp.all ∧ l.meaning sy sc = some x ∧ r.meaning sy sc = some y ∧
      (op = .add → sy.isPrimitive x.type ∨ y.literal? = none) ∧ e = operation sy op x y := by
  obtain ⟨_, hop, h⟩ := Option.bind_eq_some_iff.mp h
  obtain ⟨x, hx, h⟩ := Option.bind_eq_some_iff.mp h
  obtain ⟨y, hy, h⟩ := Option.bind_eq_some_iff.mp h
  obtain ⟨_, hadd, h⟩ := Option.bind_eq_some_iff.mp h
  rw [Option.guard_eq_some'] at hop hadd
  exact ⟨x, y, hop, hx, hy, hadd, (Option.some.inj h).symm⟩

theorem meaning_call {a : String} {o : Term} {args : List Term}
    (h : (call a o args).meaning sy sc = some e) :
    ∃ v f x es, (Numeral.readInt a).toOption = some v ∧ sy.function? v = some f ∧
      o.meaning sy sc = some x ∧ meanings sy sc args = some es ∧
      f.arguments.length = args.length ∧ e = application sy f x es := by
  obtain ⟨v, hv, h⟩ := Option.bind_eq_some_iff.mp h
  obtain ⟨f, hf, h⟩ := Option.bind_eq_some_iff.mp h
  obtain ⟨x, hx, h⟩ := Option.bind_eq_some_iff.mp h
  obtain ⟨es, hes, h⟩ := Option.bind_eq_some_iff.mp h
  obtain ⟨_, hlen, h⟩ := Option.bind_eq_some_iff.mp h
  rw [Option.guard_eq_some'] at hlen
  exact ⟨v, f, x, es, hv, hf, hx, hes, hlen, (Option.some.inj h).symm⟩

theorem meanings_cons {t : Term} {ts : List Term} {es : List Expr}
    (h : meanings sy sc (t :: ts) = some es) :
    ∃ x xs, t.meaning sy sc = some x ∧ meanings sy sc ts = some xs ∧ es = x :: xs := by
  obtain ⟨x, hx, h⟩ := Option.bind_eq_some_iff.mp h
  obtain ⟨xs, hxs, h⟩ := Option.bind_eq_some_iff.mp h
  exact ⟨x, xs, hx, hxs, (Option.some.inj h).symm⟩

theorem length_meanings {ts : List Term} {es : List Expr} (h : meanings sy sc ts = some es) :
    es.length = ts.length := by
  induction ts generalizing es with
  | nil => obtain rfl := Option.some.inj h; rfl
  | cons t ts ih =>
    obtain ⟨x, xs, -, hxs, rfl⟩ := meanings_cons h
    simp [ih hxs]

end

end Term

/-! ## Names of constants -/

section

variable (sy : Symbols)

theorem resolve_eq (v : Int64) (domains : List String) :
    resolve sy v domains = (domains.findSome? (constant? sy v)).getD (.int v) := by
  induction domains with
  | nil => rfl
  | cons domain rest ih =>
    rw [resolve, List.findSome?_cons]
    unfold constant? at ih ⊢
    cases sy.constant? domain v with
    | none => exact ih
    | some name => rfl

theorem resolveLiteral_eq_named (domains : List String) (e : Expr) :
    resolveLiteral sy domains e = named sy domains e := by
  cases e with
  | int v => exact resolve_eq sy v domains
  | _ => rfl

theorem combine_eq_operation (op : BinaryOp) (l r : Expr) :
    combine sy op l r = operation sy op l r := by
  simp only [combine, resolveLiteral_eq_named]
  rfl

theorem takeArguments_cons (type : String) (types : List String) (e : Expr) (es args : List Expr)
    (notes : List String) : takeArguments sy (type :: types) (e :: es) args notes =
      takeArguments sy types es (named sy [type] e :: args) ((note? sy type e).toList ++ notes) := by
  rw [← resolveLiteral_eq_named]
  cases e with
  | int v =>
    rw [takeArguments, note?]
    split_ifs <;> rfl
  | _ =>
    rw [takeArguments, note?]
    · split_ifs <;> rfl
    · simp

/-- Arguments are taken from the operands last one first, and come out in their order. -/
theorem takeArguments_append (types : List String) (es rest args : List Expr) (notes : List String)
    (h : types.length = es.length) :
    takeArguments sy types (es ++ rest) args notes =
      some ((List.zipWith (fun type e => named sy [type] e) types es).reverse ++ args,
        ((types.zip es).filterMap fun (type, e) => note? sy type e).reverse ++ notes, rest) := by
  induction types generalizing es args notes with
  | nil =>
    obtain rfl := List.length_eq_zero_iff.mp h.symm
    rfl
  | cons type types ih =>
    obtain ⟨e, es, rfl⟩ := List.exists_cons_of_length_eq_add_one h.symm
    rw [List.cons_append, takeArguments_cons, ih es _ _ (by simpa using h), List.zipWith_cons_cons,
      List.zip_cons_cons]
    cases hn : note? sy type e with
    | none => simp [hn]
    | some s => simp [hn]

theorem takeArguments_reverse {f : Signature} {es : List Expr} (rest : List Expr)
    (h : f.arguments.length = es.length) :
    takeArguments sy f.arguments.reverse (es.reverse ++ rest) [] [] =
      some (List.zipWith (fun type e => named sy [type] e) f.arguments es,
        (f.arguments.zip es).filterMap fun (type, e) => note? sy type e, rest) := by
  have hz : f.arguments.reverse.zip es.reverse = (f.arguments.zip es).reverse :=
    (List.reverse_zipWith h).symm
  rw [takeArguments_append sy _ _ _ _ _ (by simpa using h), ← List.reverse_zipWith h, hz,
    List.filterMap_reverse]
  simp

end

end Lift

end ScriptLift
