import ScriptLift.Cli.Host

/-!
# A disk in memory

A host without effects: files by their paths from a working directory, and what was printed.

* `Disk`: the files and the streams.
* `Disk.look`: what a path leads to.
* `Disk.host`: the operations on a disk.
-/

namespace ScriptLift.Cli

/-- Files and streams in memory. A place is known by the parts of its path from the working
directory; one out of it starts with two dots, one from the root of the machine with a slash. -/
structure Disk where
  /-- The files by their places. -/
  files : List (List String × String)
  /-- The directories that were made. -/
  dirs : List (List String)
  stdin : String
  stdout : String
  stderr : String
  deriving Repr, DecidableEq, Inhabited

namespace Disk

/-! ## Paths -/

/-- What a path leads to. -/
inductive Place where
  | file (parts : List String)
  | dir (parts : List String)
  /-- Nothing, in a directory that is there. -/
  | free (parts : List String)
  | failed (reason : OsReason)
  deriving Repr, DecidableEq, Inhabited

/-- The directories at the root of a machine. -/
def rootDirs : List String :=
  ["bin", "boot", "dev", "etc", "home", "lib", "mnt", "opt", "proc", "root", "run", "sbin", "srv",
    "sys", "tmp", "usr", "var"]

/-- The files that stand for streams and sinks. -/
def devices : List String := ["full", "null", "stderr", "stdin", "stdout"]

/-- The device at a place. -/
def device? : List String → Option String
  | ["/", "dev", name] => if devices.contains name then some name else none
  | _ => none

/-- Whether a place is one of the machine's own directories, or around the working directory. -/
def isGiven : List String → Bool
  | ["/"] => true
  | ["/", p] => rootDirs.contains p
  | parts => parts.all (· == "..")

/-- Whether parts are those of a directory. -/
def isDir (d : Disk) (parts : List String) : Bool :=
  isGiven parts || d.dirs.contains parts ||
    d.files.any fun f => parts.length < f.1.length && parts.isPrefixOf f.1

/-- Whether parts are those of a file. -/
def isFile (d : Disk) (parts : List String) : Bool :=
  (device? parts).isSome || d.files.any (·.1 == parts)

/-- The directory that holds a directory. -/
def parent (parts : List String) : List String :=
  if parts == ["/"] then parts
  else if parts.all (· == "..") then parts ++ [".."]
  else parts.dropLast

/-- A name or a path that is too long. -/
def tooLong : OsReason := .other "file name too long"

/-- Where the rest of a path leads to from a directory. -/
def walk (d : Disk) (here : List String) : List String → Place
  | [] => .dir here
  | p :: ps =>
    if p.isEmpty || p == "." then d.walk here ps
    else if p == ".." then d.walk (parent here) ps
    else if 255 < p.length then .failed tooLong
    else
      let there := here ++ [p]
      if d.isDir there then d.walk there ps
      else if d.isFile there then if ps.isEmpty then .file there else .failed .notDirectory
      else if ps.isEmpty then .free there
      else .failed .noEntry

/-- What a path leads to. -/
def look (d : Disk) (path : String) : Place :=
  if path.isEmpty then .failed .noEntry
  else if path.toList.contains '\x00' then .failed (.other "invalid argument")
  else if 4096 ≤ path.length then .failed tooLong
  else d.walk (if Text.startsWith "/" path then ["/"] else []) (Text.split '/' path)

/-- What a path leads to where a file is to be made; behind a slash there is no place for one. -/
def lookToMake (d : Disk) (path : String) : Place :=
  if Text.endsWith "/" path then
    match d.look (Text.stripEndBy (· == '/') path) with
    | .file parts => .dir parts
    | .free parts => .dir parts
    | place => if path.all (· == '/') then .dir ["/"] else place
  else d.look path

/-- A disk with a file put in the place of the one of its path, or added. -/
def put (d : Disk) (parts : List String) (content : String) : Disk :=
  if d.isFile parts then
    { d with files := d.files.map fun f => if f.1 == parts then (parts, content) else f }
  else { d with files := d.files ++ [(parts, content)] }

/-! ## Operations -/

/-- The content of a file. -/
def read (d : Disk) (path : String) : Except OsError String :=
  match d.look path with
  | .file parts =>
    .ok (if device? parts = some "stdin" then d.stdin else (d.files.lookup parts).getD "")
  | .dir _ => .error ⟨.read, path, .isDirectory⟩
  | .free _ => .error ⟨.open, path, .noEntry⟩
  | .failed reason => .error ⟨.open, path, reason⟩

/-- Empties a file and gives where to write. -/
def create (d : Disk) (path : String) : Except OsError Sink × Disk :=
  match d.lookToMake path with
  | .file parts =>
    if device? parts = some "full" then
      (.ok (.limited 0 (OsError.mk .write path .noSpace).message), d)
    else (.ok .unlimited, d.put parts "")
  | .free parts => (.ok .unlimited, d.put parts "")
  | .dir _ => (.error ⟨.open, path, .isDirectory⟩, d)
  | .failed reason => (.error ⟨.open, path, reason⟩, d)

/-- Puts what a sink took into its file. -/
def save (d : Disk) (path : String) (sink : Sink) : Disk :=
  match d.look path with
  | .file parts =>
    if device? parts = some "stdout" then { d with stdout := d.stdout ++ sink.content }
    else if device? parts = some "stderr" then { d with stderr := d.stderr ++ sink.content }
    else d.put parts sink.content
  | _ => d

/-- Makes the directories on a way; `done` is the path behind, with a slash at its end. -/
def makeDirsFrom (d : Disk) (done : String) : List String → Except OsError Disk
  | [] => .ok d
  | p :: ps =>
    let path := done ++ p ++ if ps.isEmpty then "" else "/"
    if p.isEmpty then d.makeDirsFrom path ps
    else
      match d.look (done ++ p) with
      | .dir _ => d.makeDirsFrom path ps
      | .free there => makeDirsFrom { d with dirs := d.dirs ++ [there] } path ps
      | .file _ => .error ⟨.makeDir, path, .other "file exists"⟩
      | .failed reason => .error ⟨.makeDir, path, reason⟩

/-- Makes a directory and those it is in. -/
def makeDirs (d : Disk) (path : String) : Except OsError Disk :=
  match d.look path with
  | .dir _ => .ok d
  | .file _ => .error ⟨.makeDir, path, .notDirectory⟩
  | _ => d.makeDirsFrom "" (Text.split '/' path)

/-- The host of a disk, with a text for all mean times. -/
def host (meanTime : String) : Host (StateM Disk) where
  read path := do return (← get).read path
  stdin := do return (← get).stdin
  create path := modifyGet (·.create path)
  save path sink := do
    modify (·.save path sink)
    return .ok ()
  makeDirs path := modifyGet fun d =>
    match d.makeDirs path with
    | .ok d' => (.ok (), d')
    | .error e => (.error e, d)
  print s := modify fun d => { d with stdout := d.stdout ++ s }
  complain s := modify fun d => { d with stderr := d.stderr ++ s }
  colours := return false
  processors := return 1
  meanTime _ := return meanTime

/-- Whether a place is in the working directory. -/
def isInside (parts : List String) : Bool := parts.head? != some ".." && parts.head? != some "/"

/-- The files in the working directory of a disk that another one does not hold so. -/
def changes (old new : Disk) : List (String × String) :=
  (new.files.filter fun f => isInside f.1 && old.files.lookup f.1 != some f.2).map
    fun (parts, content) => ("/".intercalate parts, content)

end Disk

end ScriptLift.Cli
