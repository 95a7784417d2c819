import ScriptLift.Lift.Operand
import ScriptLift.Proofs.Dialect.Value
import ScriptLift.Proofs.Symbols.Table
import ScriptLift.Symbols.Memory

/-!
# Short skill ids

A skill of level 1 has the id `65536 * k + 1`, and is known under the short id `k` as well. No two
ids have one short id, so skills may come in any order, all at once or one by one; and the quotient
that a short id is shown as has that short id as its value.

* `Symbols.shortSkillId?_eq_some_iff`: the short id of an id, as integers.
* `Symbols.ShortsExact`: the short ids are those of the skills of level 1, and no others.
* `Symbols.Memory.Filled`: symbols in memory as they are filled, nothing under short ids directly.
* **`Symbols.short_skills_exact`**: short ids are exact in loaded symbols and in filled ones, do not
  depend on an order, and are shown as quotients with the right value.
-/

namespace ScriptLift.Symbols

/-! ## Ids -/

/-- Division of an id that is not negative. -/
theorem toInt_div_shortSkillDivisor {id : Int64} (h : 0 ≤ id.toInt) :
    (id / shortSkillDivisor).toInt = id.toInt / 65536 := by
  have hdivisor : shortSkillDivisor.toInt = 65536 := by decide
  have hmin : id ≠ Int64.minValue := by
    rintro rfl
    exact absurd h (by decide)
  rw [Int64.toInt_div_of_ne_left _ _ hmin, hdivisor, Int.tdiv_eq_ediv_of_nonneg h]

/-- An id has the short id `k` when it exceeds `65536 * k` by one, and `k` is not negative. -/
theorem shortSkillId?_eq_some_iff {id k : Int64} :
    shortSkillId? id = some k ↔ 0 ≤ k ∧ id.toInt = 65536 * k.toInt + 1 := by
  have hdivisor : shortSkillDivisor.toInt = 65536 := by decide
  have hlt := id.toInt_lt
  rw [shortSkillId?, Option.ite_none_right_eq_some, beq_iff_eq, Option.some.injEq,
    ← Int64.toInt_inj, Int64.toInt_mod, hdivisor, Int64.le_iff_toInt_le, ← Int64.toInt_inj]
  change id.toInt.tmod 65536 = 1 ∧ _ ↔ 0 ≤ k.toInt ∧ _
  -- a remainder of one is that of a positive id, whose predecessor does not wrap
  have hquot : 1 ≤ id.toInt →
      ((id - 1) / shortSkillDivisor).toInt = (id.toInt - 1) / 65536 := by
    intro h1
    have hpred : (id - 1).toInt = id.toInt - 1 := by
      rw [Int64.toInt_sub]
      change (id.toInt - 1).bmod (2 ^ 64) = id.toInt - 1
      exact Int.bmod_eq_of_le (by omega) (by omega)
    rw [toInt_div_shortSkillDivisor (by omega), hpred]
  constructor
  · rintro ⟨h1, hk⟩
    have hpos : 1 ≤ id.toInt := by
      by_contra hle
      have hneg := Int.tmod_nonneg 65536 (show 0 ≤ -id.toInt by omega)
      rw [Int.neg_tmod] at hneg
      omega
    rw [hquot hpos] at hk
    rw [Int.tmod_eq_emod_of_nonneg (by omega)] at h1
    omega
  · rintro ⟨h0, hid⟩
    rw [hquot (by omega), Int.tmod_eq_emod_of_nonneg (by omega)]
    omega

/-- No two ids have one short id. -/
theorem shortSkillId?_inj {id id' k : Int64} (h : shortSkillId? id = some k)
    (h' : shortSkillId? id' = some k) : id = id' := by
  rw [shortSkillId?_eq_some_iff] at h h'
  rw [← Int64.toInt_inj, h.2, h'.2]

/-! ## Exact short ids -/

/-- **Whether the short skill ids are those of the skills of level 1**, and no others. -/
def ShortsExact (sy : Symbols) : Prop :=
  ∀ (k : Int64) (n : String), sy.constant? "SKILL_SHORT" k = some n ↔
    0 ≤ k ∧ ∃ id : Int64, id.toInt = 65536 * k.toInt + 1 ∧ sy.constant? "SKILL" id = some n

theorem shortsExact_iff {sy : Symbols} : ShortsExact sy ↔
    ∀ k n, sy.constant? "SKILL_SHORT" k = some n ↔
      ∃ id, shortSkillId? id = some k ∧ sy.constant? "SKILL" id = some n := by
  simp only [ShortsExact, shortSkillId?_eq_some_iff, and_assoc, exists_and_left]

/-! ## Symbols loaded at once -/

theorem get?_shortSkills (skills : Table Int64 String) (k : Int64) (n : String) :
    (shortSkills skills).get? k = some n ↔
      ∃ id, shortSkillId? id = some k ∧ skills.get? id = some n := by
  induction skills with
  | nil => simp [shortSkills]
  | cons e skills ih =>
    obtain ⟨id, name⟩ := e
    -- the newest skill stands before the others on both sides
    by_cases hk : shortSkillId? id = some k
    · have hcons : shortSkills ((id, name) :: skills) = (k, name) :: shortSkills skills := by
        simp [shortSkills, hk]
      rw [hcons, Table.get?_cons_self]
      constructor
      · rintro ⟨⟩
        exact ⟨id, hk, Table.get?_cons_self ..⟩
      · rintro ⟨id', hk', h⟩
        obtain rfl := shortSkillId?_inj hk hk'
        rwa [Table.get?_cons_self] at h
    · have hcons : (shortSkills ((id, name) :: skills)).get? k = (shortSkills skills).get? k := by
        cases hs : shortSkillId? id with
        | none => simp [shortSkills, hs]
        | some j =>
          have hj : k ≠ j := by rintro rfl; exact hk hs
          simp only [shortSkills, List.filterMap_cons, hs, Option.map_some]
          exact Table.get?_cons_of_ne hj ..
      rw [hcons, ih]
      refine exists_congr fun id' => and_congr_right fun hk' => ?_
      have hne : id' ≠ id := by rintro rfl; exact hk hk'
      rw [Table.get?_cons_of_ne hne]

theorem shortsExact_load {tools : Toolkit} {dir : Directory} {files : Files} {db : Database}
    (h : Database.loadWith tools dir files = .ok db) (hs : (db.constants.get? "SKILL").isSome) :
    ShortsExact db.symbols := by
  obtain ⟨t, hdb⟩ : ∃ t : Table String (Table Int64 String), db.constants = finishConstants t := by
    obtain ⟨_, _, -, -, hdb⟩ := constants_of_load h
    exact ⟨_, hdb⟩
  have hskills : db.constants.get? "SKILL" = t.get? "SKILL" := by
    rw [hdb, get?_finishConstants, if_neg (by decide), if_neg (by decide)]
  obtain ⟨skills, hget⟩ := Option.isSome_iff_exists.mp hs
  have hshort : db.constants.get? "SKILL_SHORT" = some (shortSkills skills) := by
    rw [hdb, get?_finishConstants, if_neg (by decide), if_pos rfl, ← hskills, hget]
    rfl
  rw [shortsExact_iff]
  intro k n
  change (db.constants.get? "SKILL_SHORT").bind (·.get? k) = some n ↔
    ∃ id, _ ∧ (db.constants.get? "SKILL").bind (·.get? id) = some n
  rw [hshort, hget]
  exact get?_shortSkills skills k n

/-! ## Symbols filled one by one -/

namespace Memory

/-- **Symbols in memory as they are filled**: one entry after another, no constant directly under a
short skill id. -/
inductive Filled : Memory → Prop
  | empty : Filled .empty
  | handler {m : Memory} (h : Filled m) (kind id : Int64) (name : String) :
    Filled (m.addHandler kind id name)
  | slot {m : Memory} (h : Filled m) (kind : Int64) (owner : String) (address : Int64)
    (v : Variable) : Filled (m.addVariable kind owner address v)
  | function {m : Memory} (h : Filled m) (address : Int64) (f : Signature) :
    Filled (m.addFunction address f)
  | constant {m : Memory} (h : Filled m) {domain : String} (hd : domain ≠ "SKILL_SHORT")
    (id : Int64) (name : String) : Filled (m.addConstant domain id name)
  | fstring {m : Memory} (h : Filled m) (id : Int64) (text : String) : Filled (m.addFString id text)

/-- What a constant is after another was added. -/
theorem constant?_addConstant (m : Memory) (domain : String) (id : Int64) (name : String)
    (d : String) (k : Int64) :
    (m.addConstant domain id name).symbols.constant? d k =
      if domain = "SKILL" ∧ shortSkillId? id = some k ∧ d = "SKILL_SHORT" then some name
      else if d = domain ∧ k = id then some name else m.symbols.constant? d k := by
  change (m.addConstant domain id name).constants.get? (d, k) = if _ then _ else if _ then _ else
    m.constants.get? (d, k)
  rw [addConstant]
  by_cases hd : domain = "SKILL"
  · rw [if_pos (by simpa using hd)]
    cases shortSkillId? id with
    | none => simp [Table.get?_put]
    | some short => simp [Table.get?_put, hd, and_comm, @eq_comm _ k short]
  · rw [if_neg (by simpa using hd)]
    simp [Table.get?_put, hd]

/-- A constant of another domain is what it was, or the one added. -/
theorem constant?_addConstant_of_ne (m : Memory) (domain : String) (id : Int64) (name : String)
    {d : String} (hd : d ≠ "SKILL_SHORT") (k : Int64) :
    (m.addConstant domain id name).symbols.constant? d k =
      if d = domain ∧ k = id then some name else m.symbols.constant? d k := by
  rw [constant?_addConstant, if_neg fun h => hd h.2.2]

/-- Adding a constant keeps short ids exact. -/
theorem shortsExact_addConstant {m : Memory} (h : ShortsExact m.symbols) {domain : String}
    (hd : domain ≠ "SKILL_SHORT") (id : Int64) (name : String) :
    ShortsExact (m.addConstant domain id name).symbols := by
  rw [shortsExact_iff] at h ⊢
  intro k n
  have hskill (id' : Int64) : (m.addConstant domain id name).symbols.constant? "SKILL" id' =
      if "SKILL" = domain ∧ id' = id then some name else m.symbols.constant? "SKILL" id' :=
    constant?_addConstant_of_ne m domain id name (by decide) id'
  simp only [constant?_addConstant m domain id name "SKILL_SHORT", hskill]
  by_cases hk : domain = "SKILL" ∧ shortSkillId? id = some k
  · -- the skill is the one that has the short id
    obtain ⟨rfl, hk⟩ := hk
    rw [if_pos ⟨rfl, hk, trivial⟩]
    constructor
    · intro hn
      exact ⟨id, hk, by simpa using hn⟩
    · rintro ⟨id', hk', hn⟩
      obtain rfl := shortSkillId?_inj hk hk'
      simpa using hn
  · have hshort : ¬("SKILL_SHORT" = domain ∧ k = id) := fun hc => hd hc.1.symm
    rw [if_neg fun hc => hk ⟨hc.1, hc.2.1⟩, if_neg hshort, h]
    refine exists_congr fun id' => and_congr_right fun hk' => ?_
    have hother : ¬("SKILL" = domain ∧ id' = id) := by
      rintro ⟨rfl, rfl⟩
      exact hk ⟨rfl, hk'⟩
    rw [if_neg hother]

theorem Filled.shortsExact {m : Memory} (h : Filled m) : ShortsExact m.symbols := by
  induction h with
  | empty => exact shortsExact_iff.mpr fun k n => by simp [symbols, Memory.empty]
  | constant _ hd id name ih => exact shortsExact_addConstant ih hd id name
  | handler _ _ _ _ ih | slot _ _ _ _ _ ih | function _ _ _ ih | fstring _ _ _ ih => exact ih

end Memory

/-! ## Values -/

/-- A short id that no domain asked before knows is shown as a quotient. -/
theorem resolve_short {sy : Symbols} {k : Int64} {n : String} {before : List String}
    (hb : ∀ d ∈ before, sy.constant? d k = none) (h : sy.constant? "SKILL_SHORT" k = some n)
    (rest : List String) :
    Lift.resolve sy k (before ++ "SKILL_SHORT" :: rest) =
      .binary .div (.const "SKILL_SHORT" n) (.int 65536) := by
  induction before with
  | nil =>
    rw [List.nil_append, Lift.resolve, h]
    rfl
  | cons d before ih =>
    rw [List.cons_append, Lift.resolve, hb d List.mem_cons_self]
    exact ih fun d hd => hb d (List.mem_cons_of_mem _ hd)

/-- The quotient has the short id as its value. -/
theorem eval_short {d : Dialect} {ρ : String → Int64} {id k : Int64} {n : String}
    (hid : shortSkillId? id = some k) (hρ : ρ (d.constant "SKILL_SHORT" n) = id) :
    ((Expr.binary .div (.const "SKILL_SHORT" n) (.int 65536)).reading d).eval ρ = some k := by
  have hquot : id / 65536 = k := by
    obtain ⟨h0, hid⟩ := shortSkillId?_eq_some_iff.mp hid
    rw [Int64.le_iff_toInt_le] at h0
    change 0 ≤ k.toInt at h0
    change id / shortSkillDivisor = k
    rw [← Int64.toInt_inj, toInt_div_shortSkillDivisor (by omega)]
    omega
  have hne : (65536 : Int64) ≠ 0 := by decide
  simp only [Expr.reading, Dialect.expr, Reading.eval, Option.bind_some, BinaryOp.apply, hρ,
    if_neg hne, hquot]

/-- **Short skill ids are exact and are shown as their value.** In a loaded database with skills, and
in symbols filled one by one, the short ids are those of the skills of level 1. No two skills have
one short id, so neither the order in which skills are added nor that of their table matters. Where
no domain asked before knows a short id, it is shown as a quotient, whose value is the short id when
the constant has the id of its skill. -/
theorem short_skills_exact :
    (∀ {tools : Toolkit} {dir : Directory} {files : Files} {db : Database},
      Database.loadWith tools dir files = .ok db → (db.constants.get? "SKILL").isSome →
      ShortsExact db.symbols) ∧
    (∀ {m : Memory}, m.Filled → ShortsExact m.symbols) ∧
    (∀ {id id' k : Int64}, shortSkillId? id = some k → shortSkillId? id' = some k → id = id') ∧
    (∀ {sy sy' : Symbols}, ShortsExact sy → ShortsExact sy' →
      sy.constant? "SKILL" = sy'.constant? "SKILL" →
      sy.constant? "SKILL_SHORT" = sy'.constant? "SKILL_SHORT") ∧
    (∀ (t : Table String (Table Int64 String)) {skills skills' : Table Int64 String},
      (skills.map Prod.fst).Nodup → skills.Perm skills' →
      ∀ k, ((finishConstants (t.put "SKILL" skills)).get? "SKILL_SHORT").bind (·.get? k) =
        ((finishConstants (t.put "SKILL" skills')).get? "SKILL_SHORT").bind (·.get? k)) ∧
    (∀ {sy : Symbols} {k : Int64} {n : String} {before rest : List String}, ShortsExact sy →
      (∀ d ∈ before, sy.constant? d k = none) → sy.constant? "SKILL_SHORT" k = some n →
      Lift.resolve sy k (before ++ "SKILL_SHORT" :: rest) =
          .binary .div (.const "SKILL_SHORT" n) (.int 65536) ∧
        ∃ id : Int64, id.toInt = 65536 * k.toInt + 1 ∧ sy.constant? "SKILL" id = some n ∧
          ∀ (d : Dialect) (ρ : String → Int64), ρ (d.constant "SKILL_SHORT" n) = id →
            ((Lift.resolve sy k (before ++ "SKILL_SHORT" :: rest)).reading d).eval ρ = some k) := by
  refine ⟨shortsExact_load, Memory.Filled.shortsExact, shortSkillId?_inj, ?order, ?tables, ?shown⟩
  case order =>
    intro sy sy' h h' hs
    funext k
    ext n
    rw [shortsExact_iff.mp h, shortsExact_iff.mp h', hs]
  case tables =>
    intro t skills skills' hn hp k
    have hput : ∀ u : Table Int64 String,
        (finishConstants (t.put "SKILL" u)).get? "SKILL_SHORT" = some (shortSkills u) := by
      intro u
      rw [get?_finishConstants, if_neg (by decide), if_pos rfl, Table.get?_put]
      rfl
    rw [hput, hput]
    ext n
    simp only [Option.bind_some, get?_shortSkills, Table.get?_eq_of_perm hn hp]
  case shown =>
    intro sy k n before rest h hb hk
    have hshown := resolve_short hb hk rest
    obtain ⟨h0, id, hid, hn⟩ := (h k n).mp hk
    refine ⟨hshown, id, hid, hn, fun d ρ hρ => ?_⟩
    rw [hshown]
    exact eval_short (shortSkillId?_eq_some_iff.mpr ⟨h0, hid⟩) hρ

/-- A chronicle with skills of two levels, and one with a negative id. -/
def boltChronicle : Directory := fun name =>
  if name = "enums.json" then
    .ok ("\x7b\"SKILL\": \x7b\"131073\": \"s_bolt1\", \"131074\": \"s_bolt2\"," ++
      "\"-65535\": \"s_none\", \"1\": \"s_hit\"\x7d\x7d")
  else if name = "fstring.txt" then .error (.noOpen "" true)
  else .ok "\x7b\x7d"

/-- The skills of that chronicle. -/
def boltSkills : Table Int64 String :=
  [(1, "s_hit"), (-65535, "s_none"), (131074, "s_bolt2"), (131073, "s_bolt1")]

/-- The database of that chronicle. -/
def boltDatabase : Database :=
  { Database.empty with
    constants := [("SKILL_SHORT", [(0, "s_hit"), (2, "s_bolt1")]), ("SKILL", boltSkills)] }

/-- Its skills added one by one, in another order and one of them twice. -/
def boltMemory : Memory :=
  Memory.empty
    |>.addConstant "SKILL" 131073 "s_spark"
    |>.addConstant "SKILL" 131074 "s_bolt2"
    |>.addConstant "SKILL" (-65535) "s_none"
    |>.addConstant "SKILL" 131073 "s_bolt1"
    |>.addConstant "SKILL" 1 "s_hit"

theorem short_skills_exact_bolt :
    Database.load boltChronicle .default = .ok boltDatabase ∧
    boltDatabase.symbols.constant? "SKILL_SHORT" 2 = some "s_bolt1" ∧
    boltDatabase.symbols.constant? "SKILL_SHORT" (-1) = none ∧
    boltMemory.symbols.constant? "SKILL_SHORT" = boltDatabase.symbols.constant? "SKILL_SHORT" ∧
    Lift.resolve boltMemory.symbols 2 ["SKILL_SHORT"] =
      .binary .div (.const "SKILL_SHORT" "s_bolt1") (.int 65536) ∧
    ∀ d : Dialect, ((Lift.resolve boltMemory.symbols 2 ["SKILL_SHORT"]).reading d).eval
      (fun _ => 131073) = some 2 := by
  obtain ⟨loaded, filled, -, order, -, shown⟩ := short_skills_exact
  have hload : Database.load boltChronicle .default = .ok boltDatabase := by decide +kernel
  have hdb := loaded hload (by decide)
  have hne : "SKILL" ≠ "SKILL_SHORT" := by decide
  have hm : ShortsExact boltMemory.symbols :=
    filled (.constant (.constant (.constant (.constant (.constant .empty hne _ _) hne _ _) hne _ _)
      hne _ _) hne _ _)
  have hbolt : boltDatabase.symbols.constant? "SKILL_SHORT" 2 = some "s_bolt1" :=
    (hdb 2 "s_bolt1").mpr ⟨by decide, 131073, by decide, by decide⟩
  -- the negative id exceeds a multiple of 65536 by one, but there is no negative short id
  have hnone : boltDatabase.symbols.constant? "SKILL_SHORT" (-1) = none :=
    Option.eq_none_iff_forall_ne_some.mpr fun n hn => absurd ((hdb (-1) n).mp hn).1 (by decide)
  have hskill : boltMemory.symbols.constant? "SKILL" =
      boltDatabase.symbols.constant? "SKILL" := by
    funext id
    have hadded : ∀ (m : Memory) (k : Int64) (n : String),
        (m.addConstant "SKILL" k n).symbols.constant? "SKILL" id =
          if id = k then some n else m.symbols.constant? "SKILL" id := by
      intro m k n
      simp [Memory.constant?_addConstant_of_ne]
    have hempty : Memory.empty.symbols.constant? "SKILL" id = none := rfl
    rw [boltMemory, hadded, hadded, hadded, hadded, hadded, hempty]
    change _ = Table.get? ((((Table.put [] 131073 "s_bolt1").put 131074 "s_bolt2").put (-65535)
      "s_none").put 1 "s_hit") id
    simp only [Table.get?_put, Table.get?_nil, beq_iff_eq]
    grind
  have hshort := order hm hdb hskill
  obtain ⟨hresolve, id, hid, -, heval⟩ :=
    @shown _ 2 "s_bolt1" [] [] hm (List.forall_mem_nil _) ((congrFun hshort 2).trans hbolt)
  have hlevel : (131073 : Int64) = id := by
    rw [← Int64.toInt_inj, hid]
    decide
  exact ⟨hload, hbolt, hnone, hshort, hresolve, fun d => heval d _ hlevel⟩

end ScriptLift.Symbols
