import Mathlib.Data.List.MinMax
import ScriptLift.Proofs.Numeral
import ScriptLift.Proofs.Symbols.Table

/-!
# Variable types through a cache

The type of a variable is looked up owner by owner, and in an owner by address. A cache before the
look-ups cannot be noticed: a question has a key of its own, and what is added under it is the
answer.

* `FirstNamed`: the first variable with a name. `firstNamed_iff`: this is the one looked up.
* `Cache.GivesLastAdded`: a cache gives nothing but what was last added under the same key.
* `TypeCache.recent_givesLastAdded`: so does the cache of the most recent answers.
* **`Cache.variableTypes_transparent`**: questions put through such a cache get the answers they get
  without it.
-/

namespace ScriptLift.Symbols

/-! ## The variable with a name -/

/-- No variable has the name. -/
def Unnamed (slots : Table Int64 Variable) (name : String) : Prop :=
  ∀ address v, slots.get? address = some v → v.name ≠ name

/-- The variable has the name, and none at a lesser address has. -/
def LeastNamed (slots : Table Int64 Variable) (name : String) (v : Variable) : Prop :=
  ∃ address, slots.get? address = some v ∧ v.name = name ∧
    ∀ address' v', slots.get? address' = some v' → v'.name = name → address ≤ address'

/-- The variables of an owner. -/
def Owners.slotsOf (o : Owners) (owner : String) : Table Int64 Variable :=
  (o.slots.get? owner).getD []

/-- The type of the first variable of a class kind with a name: of the first owner that has one, and
there of the one at the least address. -/
inductive FirstNamed (db : Database) (kind : Int64) (name : String) : Option String → Prop
  | found {o before owner after v} : db.owners.get? kind = some o →
      o.order = before ++ owner :: after → (∀ b ∈ before, Unnamed (o.slotsOf b) name) →
      LeastNamed (o.slotsOf owner) name v → FirstNamed db kind name (some v.type)
  | missing : (∀ o, db.owners.get? kind = some o →
      ∀ owner ∈ o.order, Unnamed (o.slotsOf owner) name) → FirstNamed db kind name none

theorem foldl_lesserSlot_eq_argmin (l : List (Int64 × Variable)) :
    l.foldl lesserSlot none = l.argmin (·.1.toInt) := by
  have hstep : lesserSlot = List.argAux fun b c => b.1.toInt < c.1.toInt := by
    funext a b
    cases a with
    | none => rfl
    | some a => simp only [lesserSlot, List.argAux, Int64.lt_iff_toInt_lt]
  rw [hstep]
  rfl

/-- The slot found last has the least address. -/
theorem least_of_foldl_lesserSlot {l : List (Int64 × Variable)} {e : Int64 × Variable}
    (h : l.foldl lesserSlot none = some e) : e ∈ l ∧ ∀ e' ∈ l, e.1 ≤ e'.1 := by
  rw [foldl_lesserSlot_eq_argmin] at h
  refine ⟨List.argmin_mem h, fun e' he' => ?_⟩
  have hle : e.1.toInt ≤ e'.1.toInt := List.le_of_mem_argmin (f := (·.1.toInt)) he' h
  exact Int64.le_iff_toInt_le.mpr hle

theorem foldl_lesserSlot_eq_none_iff {l : List (Int64 × Variable)} :
    l.foldl lesserSlot none = none ↔ l = [] := by
  rw [foldl_lesserSlot_eq_argmin, List.argmin_eq_none]

section

variable {slots : Table Int64 Variable} {name : String}

/-- The variables with a name, with their addresses. -/
theorem mem_named_iff {e : Int64 × Variable} :
    e ∈ slots.live.filter (·.2.name == name) ↔ slots.get? e.1 = some e.2 ∧ e.2.name = name := by
  rw [List.mem_filter, Table.mem_live_iff, beq_iff_eq]

theorem findByName?_eq_some_iff {v : Variable} :
    findByName? slots name = some v ↔ LeastNamed slots name v := by
  simp only [findByName?, Option.map_eq_some_iff]
  constructor
  · rintro ⟨e, he, rfl⟩
    obtain ⟨hmem, hleast⟩ := least_of_foldl_lesserSlot he
    obtain ⟨hget, hname⟩ := mem_named_iff.mp hmem
    exact ⟨e.1, hget, hname, fun address' v' hget' hname' =>
      hleast (address', v') (mem_named_iff.mpr ⟨hget', hname'⟩)⟩
  · rintro ⟨address, hget, hname, hleast⟩
    have hmem : (address, v) ∈ slots.live.filter (·.2.name == name) :=
      mem_named_iff.mpr ⟨hget, hname⟩
    cases hfirst : (slots.live.filter (·.2.name == name)).foldl lesserSlot none with
    | none =>
      rw [foldl_lesserSlot_eq_none_iff.mp hfirst] at hmem
      cases hmem
    | some e =>
      obtain ⟨hmem', hleast'⟩ := least_of_foldl_lesserSlot hfirst
      obtain ⟨hget', hname'⟩ := mem_named_iff.mp hmem'
      have haddress : e.1 = address :=
        Int64.le_antisymm (hleast' _ hmem) (hleast _ _ hget' hname')
      rw [haddress, hget] at hget'
      exact ⟨e, rfl, (Option.some.inj hget').symm⟩

theorem findByName?_eq_none_iff : findByName? slots name = none ↔ Unnamed slots name := by
  simp only [findByName?, Option.map_eq_none_iff, foldl_lesserSlot_eq_none_iff,
    List.eq_nil_iff_forall_not_mem, mem_named_iff, not_and, Prod.forall, Unnamed, ne_eq]

end

theorem Owners.typeOf?_eq_some_iff {o : Owners} {name type : String} :
    o.typeOf? name = some type ↔ ∃ before owner after v, o.order = before ++ owner :: after ∧
      (∀ b ∈ before, Unnamed (o.slotsOf b) name) ∧ LeastNamed (o.slotsOf owner) name v ∧
      v.type = type := by
  simp only [typeOf?, Option.map_eq_some_iff, List.findSome?_eq_some_iff, findByName?_eq_some_iff,
    findByName?_eq_none_iff]
  constructor
  · rintro ⟨v, ⟨before, owner, after, horder, hleast, hbefore⟩, htype⟩
    exact ⟨before, owner, after, v, horder, hbefore, hleast, htype⟩
  · rintro ⟨before, owner, after, v, horder, hbefore, hleast, htype⟩
    exact ⟨v, ⟨before, owner, after, horder, hleast, hbefore⟩, htype⟩

theorem Owners.typeOf?_eq_none_iff {o : Owners} {name : String} :
    o.typeOf? name = none ↔ ∀ owner ∈ o.order, Unnamed (o.slotsOf owner) name := by
  simp only [typeOf?, Option.map_eq_none_iff, List.findSome?_eq_none_iff, findByName?_eq_none_iff,
    slotsOf]

/-- **The type looked up is that of the first variable with the name.** -/
theorem firstNamed_iff {db : Database} {kind : Int64} {name : String} {answer : Option String} :
    FirstNamed db kind name answer ↔ answer = db.variableType? kind name := by
  unfold Database.variableType?
  constructor
  · rintro (⟨ho, horder, hbefore, hleast⟩ | hnone)
    · rw [ho, Option.bind_some]
      exact (Owners.typeOf?_eq_some_iff.mpr ⟨_, _, _, _, horder, hbefore, hleast, rfl⟩).symm
    · refine (Option.bind_eq_none_iff.mpr fun o ho => ?_).symm
      exact Owners.typeOf?_eq_none_iff.mpr (hnone o ho)
  · rintro rfl
    cases h : (db.owners.get? kind).bind (·.typeOf? name) with
    | none =>
      refine .missing fun o ho => Owners.typeOf?_eq_none_iff.mp ?_
      exact Option.bind_eq_none_iff.mp h o ho
    | some type =>
      obtain ⟨o, ho, htype⟩ := Option.bind_eq_some_iff.mp h
      obtain ⟨before, owner, after, v, horder, hbefore, hleast, rfl⟩ :=
        Owners.typeOf?_eq_some_iff.mp htype
      exact .found ho horder hbefore hleast

/-! ## Caches -/

namespace Cache

/-- A use of a cache. -/
inductive Use where
  | get (k : String)
  | add (k : String) (answer : Option String)

/-- What was last added under a key, of uses with the latest first. -/
def lastAdded? (k : String) : List Use → Option (Option String)
  | [] => none
  | .get _ :: uses => lastAdded? k uses
  | .add k' answer :: uses => if k' = k then some answer else lastAdded? k uses

section

variable {σ : Type} (cache : Cache σ)

/-- The state after a use. -/
def use (s : σ) : Use → σ
  | .get k => (cache.get s k).2
  | .add k answer => cache.add s k answer

/-- The state after uses, the latest first. -/
def after : List Use → σ
  | [] => cache.empty
  | u :: uses => cache.use (after uses) u

/-- What the cache gives is what was last added under the same key. -/
def GivesLastAdded : Prop :=
  ∀ uses k answer, (cache.get (cache.after uses) k).1 = some answer →
    lastAdded? k uses = some answer

/-- The answers to questions put one after the other. -/
def variableTypes (db : Database) : σ → List (Int64 × String) → List (Option String)
  | _, [] => []
  | s, (kind, name) :: questions =>
    let (answer, s) := cache.variableType? s db kind name
    answer :: variableTypes db s questions

end

/-! ## Keys -/

theorem slash_not_mem_decimalList (n : Int) : '/' ∉ Numeral.decimalList n := by
  have hdigits : ∀ m : Nat, '/' ∉ Nat.toDigits 10 m := fun m h =>
    absurd (Numeral.isDigit_of_mem_decimal h) (by decide)
  unfold Numeral.decimalList
  split_ifs
  · rw [List.mem_cons, not_or]
    exact ⟨by decide, hdigits _⟩
  · exact hdigits _

/-- **A question has a key of its own.** -/
theorem key_inj {kind kind' : Int64} {name name' : String} (h : key kind name = key kind' name') :
    kind = kind' ∧ name = name' := by
  have hchars : Numeral.decimalList kind.toInt ++ '/' :: name.toList =
      Numeral.decimalList kind'.toInt ++ '/' :: name'.toList := by
    simpa [key, Numeral.decimal] using congrArg String.toList h
  -- both numbers end where the first slash stands
  have hlength := congrArg (List.idxOf '/') hchars
  rw [List.idxOf_append_of_notMem (slash_not_mem_decimalList _),
    List.idxOf_append_of_notMem (slash_not_mem_decimalList _), List.idxOf_cons_self,
    List.idxOf_cons_self] at hlength
  obtain ⟨hkind, htail⟩ := List.append_inj hchars hlength
  have hname := (List.cons.inj htail).2
  have hread : Numeral.readInt (Numeral.decimal kind.toInt) =
      Numeral.readInt (Numeral.decimal kind'.toInt) := by
    rw [Numeral.decimal, Numeral.decimal, hkind]
  rw [Numeral.readInt_decimal, Numeral.readInt_decimal] at hread
  exact ⟨Except.ok.inj hread, String.toList_injective hname⟩

end Cache

/-! ## The most recent answers -/

namespace TypeCache

open Cache (Use lastAdded?)

theorem look_eq (c : TypeCache) (k : String) :
    c.look k = (c.entries.lookup k, (c.entries.lookup k).elim c (c.remember k)) := by
  unfold look
  cases c.entries.lookup k <;> rfl

/-- What is kept after an answer was added: this answer, or another that was kept before. -/
theorem of_lookup_remember {c : TypeCache} {k k' : String} {answer answer' : Option String}
    (h : (c.remember k' answer').entries.lookup k = some answer) :
    k' = k ∧ answer' = answer ∨ k' ≠ k ∧ c.entries.lookup k = some answer := by
  have hall : ((Table.without c.entries k').put k' answer').get? k = some answer :=
    (List.take_prefix c.capacity _).lookup_eq_some h
  rw [Table.get?_put] at hall
  split_ifs at hall with hkey
  · exact .inl ⟨(beq_iff_eq.mp hkey).symm, Option.some.inj hall⟩
  · have hne : k ≠ k' := fun he => hkey (beq_iff_eq.mpr he)
    rw [Table.get?_without_of_ne hne] at hall
    exact .inr ⟨hne.symm, hall⟩

/-- What is kept was last added under its key. -/
theorem lastAdded?_of_lookup {uses : List Use} {k : String} {answer : Option String}
    (h : (recent.after uses).entries.lookup k = some answer) :
    lastAdded? k uses = some answer := by
  induction uses generalizing k answer with
  | nil => cases h
  | cons u uses ih =>
    cases u with
    | add k' answer' =>
      rw [lastAdded?]
      obtain ⟨rfl, rfl⟩ | ⟨hne, h⟩ := of_lookup_remember h
      · rw [if_pos rfl]
      · rw [if_neg hne]
        exact ih h
    | get k' =>
      change ((recent.after uses).look k').2.entries.lookup k = some answer at h
      rw [look_eq] at h
      cases hkept : (recent.after uses).entries.lookup k' with
      | none =>
        rw [hkept] at h
        exact ih h
      | some kept =>
        rw [hkept] at h
        obtain ⟨rfl, rfl⟩ | ⟨-, h⟩ := of_lookup_remember h
        · exact ih hkept
        · exact ih h

/-- **The cache of the most recent answers gives what was last added.** -/
theorem recent_givesLastAdded : recent.GivesLastAdded := by
  intro uses k answer h
  change ((recent.after uses).look k).1 = some answer at h
  rw [look_eq] at h
  exact lastAdded?_of_lookup h

end TypeCache

/-! ## Questions put through a cache -/

namespace Cache

/-- All that was last added under the key of a question is its answer. -/
def Truthful (db : Database) (uses : List Use) : Prop :=
  ∀ kind name answer, lastAdded? (key kind name) uses = some answer →
    answer = db.variableType? kind name

section

variable {σ : Type} {cache : Cache σ} {db : Database} {uses : List Use}

theorem Truthful.get (h : Truthful db uses) (k : String) : Truthful db (.get k :: uses) := h

theorem Truthful.add (h : Truthful db uses) (kind : Int64) (name : String) :
    Truthful db (.add (key kind name) (db.variableType? kind name) :: uses) := by
  intro kind' name' answer hlast
  rw [lastAdded?] at hlast
  split_ifs at hlast with hkey
  · obtain ⟨rfl, rfl⟩ := key_inj hkey
    exact (Option.some.inj hlast).symm
  · exact h kind' name' answer hlast

/-- **One question** is answered as without the cache, and the cache stays truthful. -/
theorem variableType?_after (hcache : cache.GivesLastAdded) (h : Truthful db uses) (kind : Int64)
    (name : String) : ∃ uses', Truthful db uses' ∧
      cache.variableType? (cache.after uses) db kind name =
        (db.variableType? kind name, cache.after uses') := by
  have hstate : (cache.get (cache.after uses) (key kind name)).2 =
      cache.after (.get (key kind name) :: uses) := rfl
  unfold variableType?
  cases hget : cache.get (cache.after uses) (key kind name) with
  | mk given s =>
    rw [hget] at hstate
    obtain rfl : s = _ := hstate
    cases given with
    | some answer =>
      have hlast := hcache uses (key kind name) answer (by rw [hget])
      exact ⟨_, h.get _, by rw [h kind name answer hlast]⟩
    | none => exact ⟨_, (h.get _).add kind name, rfl⟩

/-- **All questions** are answered as without the cache. -/
theorem variableTypes_after (hcache : cache.GivesLastAdded) (h : Truthful db uses)
    (questions : List (Int64 × String)) : cache.variableTypes db (cache.after uses) questions =
      questions.map fun q => db.variableType? q.1 q.2 := by
  induction questions generalizing uses with
  | nil => rfl
  | cons q questions ih =>
    obtain ⟨kind, name⟩ := q
    obtain ⟨uses', h', hstep⟩ := variableType?_after hcache h kind name
    rw [variableTypes, hstep, List.map_cons]
    exact congrArg _ (ih h')

end

/-- **A cache is transparent**: whatever questions are put through it, each gets the answer that it
gets without the cache, which is the type of the first variable with the name. -/
theorem variableTypes_transparent {σ : Type} (cache : Cache σ) (hcache : cache.GivesLastAdded)
    (db : Database) (questions : List (Int64 × String)) :
    cache.variableTypes db cache.empty questions =
        questions.map (fun q => db.variableType? q.1 q.2) ∧
      ∀ kind name answer, FirstNamed db kind name answer ↔
        answer = db.variableType? kind name := by
  have hempty : Truthful db [] := fun _ _ _ h => nomatch h
  exact ⟨variableTypes_after hcache hempty questions, fun _ _ _ => firstNamed_iff⟩

/-- Variables of one class kind, the first owner named twice. -/
def ownersTwice : Database :=
  { Database.empty with
    owners := [(-3, ⟨["item", "npc", "item"],
      [("npc", [(7, ⟨"hp", "double"⟩), (-2, ⟨"hp", "int"⟩)]), ("item", [(0, ⟨"mp", "float"⟩)])]⟩)] }

/-- Found and missing, each asked for again. -/
theorem variableTypes_transparent_recent :
    TypeCache.recent.GivesLastAdded ∧
      TypeCache.recent.variableTypes ownersTwice TypeCache.empty
          [(-3, "hp"), (3, "hp"), (-3, "hp"), (3, "hp"), (-3, "mp")] =
        [some "int", none, some "int", none, some "float"] ∧
      FirstNamed ownersTwice (-3) "hp" (some "int") := by
  obtain ⟨hanswers, hfirst⟩ := variableTypes_transparent TypeCache.recent
    TypeCache.recent_givesLastAdded ownersTwice
    [(-3, "hp"), (3, "hp"), (-3, "hp"), (3, "hp"), (-3, "mp")]
  exact ⟨TypeCache.recent_givesLastAdded, hanswers.trans (by decide), (hfirst _ _ _).mpr (by decide)⟩

end Cache

end ScriptLift.Symbols
