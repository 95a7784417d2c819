import ScriptLift.Tree.Expr

/-!
# Statements

* `Stmt`: statements with their bodies as lists. A body that is absent, not only empty, is
  `Stmt.noBody`.
* `Case`: an arm of a select.
-/

namespace ScriptLift

mutual

/-- A statement. -/
inductive Stmt where
  /-- Fills a body that is absent. -/
  | missing
  /-- An expression evaluated for its effect; assignments among them. -/
  | eval (e : Expr)
  | block (body : List Stmt)
  | ifElse (cond : Expr) (yes no : List Stmt)
  | whileLoop (cond : Expr) (body : List Stmt)
  | forLoop (init cond update : Expr) (body : List Stmt)
  | select (scrutinee : Expr) (cases : List Case)
  /-- Leaves the handler. -/
  | ret
  /-- Leaves the innermost loop or select. -/
  | brk
  /-- Runs the parent class' version of a handler. -/
  | super (handler : Option String)

/-- An arm of a select. -/
inductive Case where
  | mk (value : Expr) (body : List Stmt)

end

deriving instance Repr for Stmt, Case
deriving instance Inhabited for Stmt, Case

namespace Stmt

/-- The body that is absent. -/
def noBody : List Stmt := [missing]

/-- Whether a body is absent. -/
def isNoBody : List Stmt → Bool
  | [missing] => true
  | _ => false

/-- The expression of an expression statement. -/
def expr? : Stmt → Option Expr
  | eval e => some e
  | _ => none

/-- Whether a statement is a conditional. -/
def isIf : Stmt → Bool
  | ifElse .. => true
  | _ => false

end Stmt

namespace Case

/-- The value an arm is chosen by. -/
def value : Case → Expr
  | mk v _ => v

/-- The statements of an arm. -/
def body : Case → List Stmt
  | mk _ b => b

end Case

end ScriptLift
