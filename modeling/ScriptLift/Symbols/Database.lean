import ScriptLift.Symbols.Header

/-!
# Symbol databases

Symbols loaded from the files of a chronicle: handlers, variables and functions as JSON, constants
as JSON and header files, and numbered texts.

* `Database.loadWith`: the database of a directory, or why it could not be loaded;
  `Database.load`: with the tools in use.
* `Database.symbols`: the look-ups.
* `Cache.variableType?`: variable types through a cache; `TypeCache`: the most recent answers.
-/

namespace ScriptLift.Symbols

/-! ## Files -/

/-- Why a file could not be read. -/
inductive FileError where
  /-- It could not be opened. -/
  | noOpen (reason : String) (missing : Bool)
  /-- Its name is none of a file in the directory. -/
  | noName (reason : String)
  /-- It could be opened, under a path of its own, but not be read. -/
  | noRead (reason path : String)
  deriving Repr, DecidableEq, Inhabited

/-- Whether a file is not there. -/
def FileError.isMissing : FileError → Bool
  | noOpen _ missing => missing
  | _ => false

/-- The wording of an error of a file that is read at once. -/
def FileError.wholeText (name : String) : FileError → String
  | noOpen reason _ => "open " ++ name ++ ": " ++ reason
  | noName reason => "readfile " ++ name ++ ": " ++ reason
  | noRead reason _ => "read " ++ name ++ ": " ++ reason

/-- The wording of an error of a file that is read line by line. -/
def FileError.streamText (name : String) : FileError → String
  | noOpen reason _ => "open " ++ name ++ ": open " ++ name ++ ": " ++ reason
  | noName reason => "open " ++ name ++ ": open " ++ name ++ ": " ++ reason
  | noRead reason path => "read " ++ name ++ ": read " ++ path ++ ": " ++ reason

/-- A directory: the content of a file by its name. -/
abbrev Directory := String → Except FileError String

/-- The names of the files of a chronicle. -/
structure Files where
  handlers : String
  slots : String
  functions : String
  enums : String
  /-- Empty when there are no numbered texts. -/
  fstring : String
  deriving Repr, DecidableEq, Inhabited

/-- The usual names. -/
def Files.default : Files :=
  ⟨"handlers.json", "variables.json", "functions.json", "enums.json", "fstring.txt"⟩

/-- Why a database could not be loaded. -/
inductive LoadError where
  | file (text : String) (missing : Bool)
  | json (context : String)
  | notObject (context got : String)
  | number (context : String) (e : Numeral.ReadError)
  | pattern (file domain pattern : String)
  | longLine (file : String)
  deriving Repr, DecidableEq, Inhabited

/-- The wording of a load error. -/
def LoadError.message : LoadError → String
  | file text _ => text
  | json context => context ++ ": <json>"
  | notObject context got => context ++ ": expected object, got " ++ got
  | number context e => context ++ ": " ++ e.message
  | pattern header domain p =>
    header ++ ": domain " ++ domain ++ ": pattern " ++ Text.quoted p
      ++ ": error parsing regexp: insufficient hexadecimal digits in \x60" ++ Pattern.regex p
      ++ "\x60"
  | longLine header => "read " ++ header ++ ": bufio.Scanner: token too long"

/-! ## Databases -/

/-- The variables of a class kind. -/
structure Owners where
  /-- The owners in the order of the file. -/
  order : List String
  slots : Table String (Table Int64 Variable)
  deriving Repr, DecidableEq, Inhabited

/-- Symbols loaded from files. -/
structure Database where
  handlers : Table Int64 (Table Int64 String)
  owners : Table Int64 Owners
  functions : Table Int64 Signature
  constants : Table String (Table Int64 String)
  fstrings : Table Int64 String
  deriving Repr, DecidableEq, Inhabited

/-- The slot with the lesser address of two. -/
def lesserSlot (a : Option (Int64 × Variable)) (b : Int64 × Variable) :
    Option (Int64 × Variable) :=
  match a with
  | some a => if b.1 < a.1 then some b else some a
  | none => some b

/-- The variable with a name at the least address. -/
def findByName? (slots : Table Int64 Variable) (name : String) : Option Variable :=
  ((slots.live.filter (·.2.name == name)).foldl lesserSlot none).map Prod.snd

/-- The type of the first variable with a name, owner by owner. -/
def Owners.typeOf? (o : Owners) (name : String) : Option String :=
  (o.order.findSome? fun owner => findByName? ((o.slots.get? owner).getD []) name).map Variable.type

namespace Database

/-- No symbols. -/
def empty : Database := ⟨[], [], [], [], []⟩

/-- The type of the first variable with a name of a class kind. -/
def variableType? (db : Database) (kind : Int64) (name : String) : Option String :=
  (db.owners.get? kind).bind (·.typeOf? name)

/-- The look-ups in a database. -/
def symbols (db : Database) : Symbols where
  handler? kind id := (db.handlers.get? kind).bind (·.get? id)
  slot? kind owner address :=
    ((db.owners.get? kind).bind (·.slots.get? (ownerKey owner))).bind (·.get? address)
  variableType? := db.variableType?
  function? address := db.functions.get? address
  constant? domain id := (db.constants.get? domain).bind (·.get? id)
  isPrimitive name := builtinPrimitives.contains name || (db.constants.get? name).isSome
  fstring? id := db.fstrings.get? id

/-- The number of constant domains. -/
def domainCount (db : Database) : Nat := db.constants.keys.length

/-- The number of constants of all domains. -/
def constantCount (db : Database) : Nat :=
  db.constants.live.foldr (fun e n => e.2.keys.length + n) 0

end Database

/-! ## Decoding -/

/-- A text; nothing reads as `old`. -/
def textOver (old : String) : JsonDoc → Option String
  | .null => some old
  | .str s => some s
  | _ => none

/-- The members of an object, each decoded; nothing reads as no members. -/
def tableOf {α : Type} (decode : JsonDoc → Option α) : JsonDoc → Option (Table String α)
  | .null => some []
  | .obj ms => (ms.mapM fun m => (decode m.2).map (m.1, ·)).map List.reverse
  | _ => none

/-- A letter without the difference of case. -/
def foldChar (c : Char) : Char :=
  if c == '\u017F' then 'S' else if c == '\u212A' then 'K' else c.toUpper

/-- Whether a member has a name, the case of letters aside. -/
def isField (name key : String) : Bool :=
  (Text.toUnicode key).toList.map foldChar == name.toList.map foldChar

/-- Texts laid over older ones; nothing leaves the older text. -/
def textsOver : List String → List JsonDoc → Option (List String)
  | _, [] => some []
  | old, d :: ds => do
    let s ← textOver (old.headD "") d
    let rest ← textsOver (old.drop 1) ds
    return s :: rest

/-- A signature while its object is read. A text given to an argument stays at its place behind
shorter lists that follow, and shows where a later list gives nothing for that place. -/
structure SignatureDraft where
  signature : Signature
  /-- The text last given to each place of the argument lists. -/
  places : List String
  deriving Repr, DecidableEq, Inhabited

namespace SignatureDraft

/-- Nothing read yet. -/
def empty : SignatureDraft := ⟨⟨"", "", []⟩, []⟩

/-- A draft with an argument list taken in; an empty list forgets the texts given before. -/
def withArguments (f : SignatureDraft) (ds : List JsonDoc) : Option SignatureDraft :=
  (textsOver f.places ds).map fun arguments =>
    ⟨{ f.signature with arguments },
      if ds.isEmpty then [] else arguments ++ f.places.drop arguments.length⟩

/-- A draft with one member of its object taken in. -/
def field (f : SignatureDraft) (key : String) (d : JsonDoc) : Option SignatureDraft :=
  if isField "name" key then
    (textOver f.signature.name d).map fun name => { f with signature := { f.signature with name } }
  else if isField "type" key then
    (textOver f.signature.type d).map fun type => { f with signature := { f.signature with type } }
  else if isField "arguments" key then
    match d with
    | .null => f.withArguments []
    | .arr ds => f.withArguments ds
    | _ => none
  else some f

end SignatureDraft

/-- A signature. -/
def signatureOf : JsonDoc → Option Signature
  | .null => some SignatureDraft.empty.signature
  | .obj ms =>
    (ms.foldlM (fun f (k, d) => SignatureDraft.field f k d) .empty).map SignatureDraft.signature
  | _ => none

/-- A variable with one member of its object taken in. -/
def variableField (v : Variable) (key : String) (d : JsonDoc) : Option Variable :=
  if isField "name" key then (textOver v.name d).map fun name => { v with name }
  else if isField "type" key then (textOver v.type d).map fun type => { v with type }
  else some v

/-- A variable. -/
def variableOf : JsonDoc → Option Variable
  | .null => some ⟨"", ""⟩
  | .obj ms => ms.foldlM (fun v (k, d) => variableField v k d) ⟨"", ""⟩
  | _ => none

/-- A reference to a header: its file and a pattern. -/
def referenceOf : JsonDoc → Option (String × String)
  | .obj ms => ms.foldlM (fun (file, pattern) (k, d) =>
      if isField "file" k then (textOver file d).map (·, pattern)
      else if isField "pattern" k then (textOver pattern d).map (file, ·)
      else some (file, pattern)) ("", "")
  | _ => none

/-- A table with its keys read as numbers. -/
def numbered {α : Type} (context : String → String) (t : Table String α) :
    Except LoadError (Table Int64 α) :=
  t.live.mapM fun (k, v) =>
    match Numeral.readId k with
    | .ok id => .ok (id, v)
    | .error e => .error (.number (context k) e)

/-! ## Loading -/

section

variable (tools : Toolkit) (dir : Directory)

/-- The text of a JSON file, without comments. -/
def readJson (name : String) : Except LoadError String :=
  match dir name with
  | .ok s => .ok (tools.withoutComments s)
  | .error e => .error (.file ("read " ++ name ++ ": " ++ e.wholeText name) e.isMissing)

/-- The whole JSON file, decoded. -/
def readTable {α : Type} (decode : JsonDoc → Option α) (name : String) :
    Except LoadError (Table String α) := do
  let s ← readJson tools dir name
  match (JsonDoc.parse? s).bind (tableOf decode) with
  | some t => .ok t
  | none => .error (.json ("decode " ++ name))

/-- The load error of a text without members. -/
def entriesError (context : String) : JsonDoc.EntriesFault → LoadError
  | .malformed => .json context
  | .notObject got => .notObject context got

/-- Handler names by class kind and id. -/
def loadHandlers (name : String) : Except LoadError (Table Int64 (Table Int64 String)) := do
  let raw ← readTable tools dir (tableOf (textOver "")) name
  let kinds ← numbered (fun k => name ++ ": class type " ++ Text.quoted k) raw
  kinds.mapM fun (kind, ids) => do
    let ids ← numbered (fun k => name ++ ": handler id " ++ Text.quoted k) ids
    return (kind, ids)

/-- The variables of one owner. -/
def loadOwner (name owner : String) (d : JsonDoc) : Except LoadError (Table Int64 Variable) :=
  match tableOf variableOf d with
  | none => .error (.json (name ++ ": owner " ++ owner))
  | some t => numbered (fun k => name ++ ": owner " ++ owner ++ ": address " ++ Text.quoted k) t

/-- The variables of one class kind. -/
def loadOwners (name : String) (kind : Int64) (d : JsonDoc) : Except LoadError Owners :=
  match d.members with
  | .error e => .error (entriesError (name ++ ": class type " ++ Numeral.decimal kind.toInt) e)
  | .ok ms => do
    let slots ← ms.mapM fun (owner, d) => do
      let t ← loadOwner name owner d
      return (owner, t)
    return ⟨ms.map Prod.fst, slots.reverse⟩

/-- Variables by class kind and owner. -/
def loadVariables (name : String) : Except LoadError (Table Int64 Owners) := do
  let s ← readJson tools dir name
  match JsonDoc.entries s with
  | .error e => .error (entriesError ("decode " ++ name) e)
  | .ok ms => do
    let kinds ← ms.mapM fun (key, d) =>
      match Numeral.readId key with
      | .error e => .error (.number (name ++ ": class type " ++ Text.quoted key) e)
      | .ok kind => do
        let owners ← loadOwners name kind d
        return (kind, owners)
    return kinds.reverse

/-- Functions by address. -/
def loadFunctions (name : String) : Except LoadError (Table Int64 Signature) := do
  let raw ← readTable tools dir signatureOf name
  numbered (fun k => name ++ ": address " ++ Text.quoted k) raw

/-- Where a domain takes its constants from. -/
inductive DomainSource where
  | header (file : String) (share : Header.Share)
  | inline (domain : String) (constants : Table Int64 String)

/-- The source of a domain: the name of a header, a header with a pattern, or the constants
themselves. -/
def domainSource (name domain : String) (d : JsonDoc) : Except LoadError DomainSource :=
  let inline : Except LoadError DomainSource :=
    match tableOf (textOver "") d with
    | none => .error (.json (name ++ ": domain " ++ domain))
    | some t => do
      let t ← numbered (fun k => name ++ ": domain " ++ domain ++ ": id " ++ Text.quoted k) t
      return .inline domain t
  match textOver "" d with
  | some file => .ok (.header file ⟨domain, ""⟩)
  | none =>
    match referenceOf d with
    | some (file, pattern) =>
      if file.isEmpty then inline else .ok (.header file ⟨domain, pattern⟩)
    | none => inline

/-- The headers of sources, in order of their first mention, with the domains that share them. -/
def headerShares (sources : List DomainSource) : List (String × List Header.Share) :=
  let pairs := sources.filterMap fun
    | .header file share => some (file, share)
    | .inline .. => none
  (pairs.map Prod.fst).eraseDups.map fun file =>
    (file, pairs.filterMap fun (f, s) => if f == file then some s else none)

/-- The inline constants of sources, those of later domains first. -/
def inlineConstants (sources : List DomainSource) : Table String (Table Int64 String) :=
  (sources.filterMap fun
    | .inline domain t => some (domain, t)
    | .header .. => none).reverse

/-- The constants of the domains that share a header. -/
def loadHeader (file : String) (shares : List Header.Share) :
    Except LoadError (Table String (Table Int64 String)) := do
  match shares.find? fun s => !s.pattern.isEmpty && !tools.isCompilable s.pattern with
  | some s => .error (.pattern file s.domain s.pattern)
  | none =>
    match dir file with
    | .error e => .error (.file (e.streamText file) e.isMissing)
    | .ok text =>
      if Header.hasLongLine text then .error (.longLine file)
      else
        let es := Header.entries text
        return (shares.map Header.Share.domain).map fun d => (d, Header.constants tools shares d es)

/-- The constants with the short skill ids derived and the abnormal state that means none left
out. -/
def finishConstants (t : Table String (Table Int64 String)) : Table String (Table Int64 String) :=
  let t := match t.get? "SKILL" with
    | some skills => t.put "SKILL_SHORT"
        (skills.filterMap fun (id, name) => (shortSkillId? id).map (·, name))
    | none => t
  match t.get? "ABNORMAL" with
  | some states => t.put "ABNORMAL" (states.without (-1))
  | none => t

/-- The sources of the domains, in order. -/
def domainSources (name : String) : Except LoadError (List DomainSource) := do
  let s ← readJson tools dir name
  match JsonDoc.entries s with
  | .error e => .error (entriesError ("decode " ++ name) e)
  | .ok ms => ms.mapM fun (domain, d) => domainSource name domain d

/-- Constants by domain and id. -/
def loadConstants (name : String) : Except LoadError (Table String (Table Int64 String)) := do
  let sources ← domainSources tools dir name
  let headers ← (headerShares sources).mapM fun (file, shares) => loadHeader tools dir file shares
  return finishConstants (headers.reverse.flatten ++ inlineConstants sources)

/-- The numbered text on a line. -/
def fstringRow? (line : String) : Option (Int64 × String) :=
  let s := Text.trim line.toList
  let (word, rest) := Text.spanWord s
  match Numeral.readId (String.ofList word) with
  | .error _ => none
  | .ok id =>
    let value := String.ofList (Text.trim rest)
    let value := (Text.cutPrefix? "\"" value).getD value
    let value := (Text.cutSuffix? "\"" value).getD value
    some (id, value)

/-- Numbered texts by id; a file that is not there holds none. -/
def loadFStrings (name : String) : Except LoadError (Table Int64 String) :=
  if name.isEmpty then .ok []
  else
    match dir name with
    | .error e =>
      if e.isMissing then .ok []
      else .error (.file ("read " ++ name ++ ": " ++ e.wholeText name) false)
    | .ok s =>
      match Text.decodeWith tools.decode s with
      | .ok text => .ok ((Text.split '\n' text).filterMap fstringRow?).reverse
      | .error e => .error (.file ("decode " ++ name ++ ": " ++ e) false)

/-- The names of the headers that the domains take their constants from. -/
def headerNames (files : Files) : List String :=
  match domainSources tools dir files.enums with
  | .ok sources => (headerShares sources).map Prod.fst
  | .error _ => []

/-- The database of a directory. -/
def Database.loadWith (files : Files) : Except LoadError Database := do
  let handlers ← loadHandlers tools dir files.handlers
  let owners ← loadVariables tools dir files.slots
  let functions ← loadFunctions tools dir files.functions
  let constants ← loadConstants tools dir files.enums
  let fstrings ← loadFStrings tools dir files.fstring
  return ⟨handlers, owners, functions, constants, fstrings⟩

end

/-- The database of a directory, loaded with the tools in use. -/
def Database.load (dir : Directory) (files : Files) : Except LoadError Database :=
  Database.loadWith .standard dir files

/-! ## Caching -/

/-- A cache of answers under keys, by what it does in its states. A look may change the state. -/
structure Cache (σ : Type) where
  empty : σ
  get : σ → String → Option (Option String) × σ
  add : σ → String → Option String → σ

namespace Cache

/-- What a question is kept under. -/
def key (kind : Int64) (name : String) : String := Numeral.decimal kind.toInt ++ "/" ++ name

/-- The type of the first variable with a name, from the cache if it is there. -/
def variableType? {σ : Type} (cache : Cache σ) (s : σ) (db : Database) (kind : Int64)
    (name : String) : Option String × σ :=
  match cache.get s (key kind name) with
  | (some answer, s) => (answer, s)
  | (none, s) =>
    let answer := db.variableType? kind name
    (answer, cache.add s (key kind name) answer)

end Cache

/-- Answers given before, the most recent first. -/
structure TypeCache where
  capacity : Nat
  entries : List (String × Option String)
  deriving Repr, DecidableEq, Inhabited

namespace TypeCache

/-- An empty cache. -/
def empty : TypeCache := ⟨4096, []⟩

/-- A cache with an answer as its most recent; the oldest answers give way. -/
def remember (c : TypeCache) (k : String) (answer : Option String) : TypeCache :=
  { c with entries := ((k, answer) :: c.entries.filter fun e => !(e.1 == k)).take c.capacity }

/-- The answer kept under a key; it becomes the most recent. -/
def look (c : TypeCache) (k : String) : Option (Option String) × TypeCache :=
  match c.entries.lookup k with
  | some answer => (some answer, c.remember k answer)
  | none => (none, c)

/-- The cache that keeps the most recent answers. -/
def recent : Cache TypeCache := ⟨empty, look, remember⟩

/-- The type of the first variable with a name, from the most recent answers if it is there. -/
def variableType? (c : TypeCache) (db : Database) (kind : Int64) (name : String) :
    Option String × TypeCache :=
  recent.variableType? c db kind name

end TypeCache

end ScriptLift.Symbols
