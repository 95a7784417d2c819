import ScriptLift.Row.Scan
import ScriptLift.Symbols.Basic
import ScriptLift.Symbols.Toolkit

/-!
# Header files

A header gives constants their ids, a row `[name] = id` each. Several domains may share a header;
a constant goes to the first of them whose pattern its name fits.

* `Header.row?`: a line of a header.
* `Header.domainOf?`: the domain a name goes to.
* `Header.constants`: the constants of a domain.
-/

namespace ScriptLift.Symbols.Header

/-- A domain that takes its constants from a header. -/
structure Share where
  domain : String
  /-- Empty when every name fits. -/
  pattern : String
  deriving Repr, DecidableEq, Inhabited

/-- A named id. -/
structure Entry where
  name : String
  id : Int64
  deriving Repr, DecidableEq, Inhabited

/-- A line without what follows two slashes. -/
def cutNote : List Char → List Char
  | [] => []
  | c :: r => if c == '/' && r.head? == some '/' then [] else c :: cutNote r

/-- The name and the value of a line: around an equals sign, or else the first two words. -/
def nameAndValue? (s : List Char) : Option (List Char × List Char) :=
  if s.contains '=' then
    some (Text.trim (s.takeWhile (· != '=')), Text.trim ((s.dropWhile (· != '=')).drop 1))
  else
    match Text.words s with
    | name :: value :: _ => some (name, value)
    | _ => none

/-- The entry on a line of a header. -/
def row? (line : String) : Option Entry :=
  let s := (Row.sanitize line).toList
  if s.head? == some '[' then
    let code := cutNote s
    let code := if code.length < s.length then Text.trim code else code
    match nameAndValue? code with
    | some (name, value) =>
      match Numeral.readInt (String.ofList value) with
      | .ok id => some ⟨String.ofList (Text.stripList (fun c => c == '[' || c == ']') name), id⟩
      | .error _ => none
    | none => none
  else none

/-- The lines of a header. -/
def lines (text : String) : List String := Text.split '\n' text

/-- The entries of a header, in order. -/
def entries (text : String) : List Entry := (lines text).filterMap row?

/-- The longest line a header may have. -/
def maxLine : Nat := 1048576

/-- Whether some line of a header is too long. -/
def hasLongLine (text : String) : Bool := (lines text).any fun l => maxLine ≤ l.length

section

variable (tools : Toolkit)

/-- Whether a name fits the pattern of a share. -/
def Share.fits (s : Share) (name : String) : Bool :=
  s.pattern.isEmpty || tools.matchesName s.pattern name

/-- The domain a name goes to: the first whose pattern it fits. -/
def domainOf? (shares : List Share) (name : String) : Option String :=
  (shares.find? (·.fits tools name)).map Share.domain

/-- The constants of a domain, those of later lines first. -/
def constants (shares : List Share) (domain : String) (es : List Entry) : Table Int64 String :=
  ((es.filter fun e => domainOf? tools shares e.name == some domain).map fun e =>
    (e.id, e.name)).reverse

end

end ScriptLift.Symbols.Header
