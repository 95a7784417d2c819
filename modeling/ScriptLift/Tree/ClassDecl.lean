import ScriptLift.Tree.Stmt

/-!
# Class declarations

* `Parameter`, `Property`, `Handler`: the parts of a class.
* `ClassDecl`: a class, its parts in the order of the listing.
-/

namespace ScriptLift

/-- A named slot with a type. -/
structure Variable where
  name : String
  type : String
  deriving Repr, DecidableEq, Inhabited

/-- A variable as it is declared. -/
def Variable.text (v : Variable) : String := v.type ++ " " ++ v.name

/-- A class parameter; its default is a hole when there is none. -/
structure Parameter where
  type : String
  name : String
  value : Expr
  deriving Repr, Inhabited

/-- One row of a property table. -/
structure PropertyRow where
  cells : List String
  comment : String
  deriving Repr, DecidableEq, Inhabited

/-- A property table. -/
structure Property where
  type : String
  name : String
  rows : List PropertyRow
  deriving Repr, DecidableEq, Inhabited

/-- An event handler. -/
structure Handler where
  name : String
  locals : List Variable
  body : List Stmt
  deriving Repr, Inhabited

/-- A class. -/
structure ClassDecl where
  kind : Int64
  name : String
  /-- The parent class, empty when there is none. -/
  super : String
  parameters : List Parameter
  properties : List Property
  handlers : List Handler
  deriving Repr, Inhabited

end ScriptLift
