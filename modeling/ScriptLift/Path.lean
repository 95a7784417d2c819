import ScriptLift.Text.Basic
import ScriptLift.Text.Utf8

/-!
# Paths

Slash-separated paths.

* `Path.clean`: the shortest path to the same place.
* `Path.join`: paths one inside the other.
* `Path.directory`: where a file is.
* `Path.isLocal`: whether a path stays in a directory.
-/

namespace ScriptLift.Path

/-- The parts of a path without empty ones and dots; two dots take away the part before them, and at
the front they stay unless the path is `rooted`. `done` are the parts so far, in reverse. -/
def normalized (rooted : Bool) (done : List String) : List String → List String
  | [] => done.reverse
  | p :: ps =>
    if p.isEmpty || p == "." then normalized rooted done ps
    else if p == ".." then
      match done with
      | [] => normalized rooted (if rooted then [] else [p]) ps
      | q :: qs => if q == ".." then normalized rooted (p :: done) ps else normalized rooted qs ps
    else normalized rooted (p :: done) ps

/-- The shortest path to the same place; the empty path is a dot. -/
def clean (path : String) : String :=
  let rooted := Text.startsWith "/" path
  let body := "/".intercalate (normalized rooted [] (Text.split '/' path))
  if rooted then "/" ++ body else if body.isEmpty then "." else body

/-- Paths one inside the other, cleaned; empty ones do not count. -/
def join (parts : List String) : String :=
  let parts := parts.filter (!·.isEmpty)
  if parts.isEmpty then "" else clean ("/".intercalate parts)

/-- The directory of a cleaned path. -/
def directory (path : String) : String :=
  clean (String.ofList (path.toList.reverse.dropWhile (· != '/')).reverse)

/-- Whether a path leads into a directory and not out of it, by names only. -/
def isLocal (path : String) : Bool :=
  (Text.toUnicode? path).isSome &&
    (path == "." || (Text.split '/' path).all fun p => !p.isEmpty && p != "." && p != "..")

end ScriptLift.Path
