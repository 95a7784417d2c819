import ScriptLift.Tree.ClassDecl

/-!
# Addresses of blocks

While a class is lifted, its blocks are known by their addresses: the number of a handler, and the
way from the handler's body into the bodies of compound statements. Compound statements are never
taken out of a block, so an address stays good.

* `Slot`: a body of a compound statement.
* `Address`, `StmtAddress`: a block, and a statement in it.
* `getBlock?`, `modifyBlock`: reading and changing the block at an address.
-/

namespace ScriptLift

/-- A body of a compound statement. -/
inductive Slot where
  | yes
  | no
  | loop
  | arm (n : Nat)
  deriving Repr, DecidableEq, Inhabited

/-- The address of a block. -/
structure Address where
  handler : Nat
  /-- The statements and bodies to go through, from the outside in. -/
  path : List (Nat × Slot)
  deriving Repr, DecidableEq, Inhabited

/-- The address of a statement. -/
structure StmtAddress where
  block : Address
  index : Nat
  deriving Repr, DecidableEq, Inhabited

/-- The address of a body of a statement. -/
def StmtAddress.body (s : StmtAddress) (slot : Slot) : Address :=
  ⟨s.block.handler, s.block.path ++ [(s.index, slot)]⟩

/-- Changes the body of an arm. -/
def Case.modifyBody (f : List Stmt → List Stmt) : Case → Case
  | .mk v b => .mk v (f b)

namespace Stmt

/-- A body of a statement. -/
def body? : Slot → Stmt → Option (List Stmt)
  | .yes, ifElse _ yes _ => some yes
  | .no, ifElse _ _ no => some no
  | .loop, whileLoop _ b => some b
  | .loop, forLoop _ _ _ b => some b
  | .arm n, select _ cases => cases[n]?.map Case.body
  | _, _ => none

/-- Changes a body of a statement. -/
def modifyBody (f : List Stmt → List Stmt) : Slot → Stmt → Stmt
  | .yes, ifElse c yes no => ifElse c (f yes) no
  | .no, ifElse c yes no => ifElse c yes (f no)
  | .loop, whileLoop c b => whileLoop c (f b)
  | .loop, forLoop i c u b => forLoop i c u (f b)
  | .arm n, select c cases => select c (cases.modify n (Case.modifyBody f))
  | _, s => s

/-- Adds an arm to a select. -/
def addCase (arm : Case) : Stmt → Stmt
  | select c cases => select c (cases ++ [arm])
  | s => s

end Stmt

/-- The block at the end of a path. -/
def getPath? : List (Nat × Slot) → List Stmt → Option (List Stmt)
  | [], b => some b
  | (i, slot) :: p, b => (b[i]?.bind (Stmt.body? slot)).bind (getPath? p)

/-- Changes the block at the end of a path. -/
def modifyPath (f : List Stmt → List Stmt) : List (Nat × Slot) → List Stmt → List Stmt
  | [], b => f b
  | (i, slot) :: p, b => b.modify i (Stmt.modifyBody (modifyPath f p) slot)

/-- The block at an address. -/
def getBlock? (hs : List Handler) (a : Address) : Option (List Stmt) :=
  hs[a.handler]?.bind fun h => getPath? a.path h.body

/-- Changes the block at an address. -/
def modifyBlock (hs : List Handler) (a : Address) (f : List Stmt → List Stmt) : List Handler :=
  hs.modify a.handler fun h => { h with body := modifyPath f a.path h.body }

end ScriptLift
