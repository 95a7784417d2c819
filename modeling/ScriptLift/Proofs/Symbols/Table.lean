import Mathlib.Data.List.Perm.Basic
import ScriptLift.Symbols.Database

/-!
# Tables

A table is read through its newest entries. Where every key has one entry, the order of the entries
does not matter.

* `Table.get?_eq_some_iff_mem`: with one entry a key, what is read is what is there.
* `Table.get?_eq_of_perm`: then the order of the entries does not matter.
* `Table.mem_live_iff`: the entries that count are those that are read.
* `Symbols.get?_finishConstants`: what is left of the constants, domain by domain, when the short
  skill ids are derived and the abnormal state that means none is left out.
* `Symbols.constants_of_load`: what the constants of a loaded database are made of.
-/

namespace ScriptLift

namespace Table

variable {κ ν : Type} [BEq κ]

@[simp] theorem get?_nil (k : κ) : get? ([] : Table κ ν) k = none := rfl

theorem get?_put (t : Table κ ν) (k k' : κ) (v : ν) :
    (t.put k v).get? k' = if k' == k then some v else t.get? k' := by
  rw [put, get?, List.lookup_cons]
  cases k' == k <;> rfl

variable [LawfulBEq κ]

theorem get?_cons_self (k : κ) (v : ν) (t : Table κ ν) : get? ((k, v) :: t) k = some v :=
  List.lookup_cons_self

theorem get?_cons_of_ne {k k' : κ} (h : k ≠ k') (v : ν) (t : Table κ ν) :
    get? ((k', v) :: t) k = t.get? k := by
  rw [get?, List.lookup_cons, beq_eq_false_iff_ne.mpr h]
  rfl

theorem get?_without_of_ne {k k' : κ} (h : k' ≠ k) (t : Table κ ν) :
    (t.without k).get? k' = t.get? k' := by
  induction t with
  | nil => rfl
  | cons e t ih =>
    obtain ⟨j, v⟩ := e
    by_cases hj : j = k
    · subst hj
      rw [get?_cons_of_ne h, ← ih]
      simp [without]
    · have hkeep : without ((j, v) :: t) k = (j, v) :: without t k := by simp [without, hj]
      rw [hkeep]
      by_cases hk : k' = j
      · subst hk
        rw [get?_cons_self, get?_cons_self]
      · rw [get?_cons_of_ne hk, get?_cons_of_ne hk, ih]

/-- With one entry a key, what is read is what is there. -/
theorem get?_eq_some_iff_mem {t : Table κ ν} (h : (t.map Prod.fst).Nodup) {k : κ} {v : ν} :
    t.get? k = some v ↔ (k, v) ∈ t := by
  induction t with
  | nil => simp
  | cons e t ih =>
    obtain ⟨j, w⟩ := e
    obtain ⟨hj, ht⟩ := List.nodup_cons.mp h
    by_cases hk : k = j
    · subst hk
      have hout : (k, v) ∉ t := fun hm => hj (List.mem_map.mpr ⟨(k, v), hm, rfl⟩)
      rw [get?_cons_self]
      simp [hout, eq_comm]
    · rw [get?_cons_of_ne hk, ih ht]
      simp [hk]

/-- With one entry a key, the order of the entries does not matter. -/
theorem get?_eq_of_perm {t t' : Table κ ν} (h : (t.map Prod.fst).Nodup) (hp : t.Perm t') (k : κ) :
    t.get? k = t'.get? k := by
  have h' : (t'.map Prod.fst).Nodup := (hp.map Prod.fst).nodup_iff.mp h
  ext v
  rw [get?_eq_some_iff_mem h, get?_eq_some_iff_mem h', hp.mem_iff]

theorem mem_of_get?_eq_some {t : Table κ ν} {k : κ} {v : ν} (h : t.get? k = some v) :
    (k, v) ∈ t := by
  obtain ⟨_, _, rfl, -⟩ := List.lookup_eq_some_iff.mp h
  simp

/-- The entries that count are those that are read. -/
theorem mem_live_iff {t : Table κ ν} {k : κ} {v : ν} : (k, v) ∈ t.live ↔ t.get? k = some v := by
  simp only [live, List.mem_filterMap, Option.map_eq_some_iff, Prod.mk.injEq]
  constructor
  · rintro ⟨_, -, _, h, rfl, rfl⟩
    exact h
  · intro h
    exact ⟨k, List.mem_eraseDups.mpr (List.mem_map_of_mem (mem_of_get?_eq_some h)), v, h, rfl, rfl⟩

end Table

namespace Symbols

/-- The short skill ids that a table of skills gives. -/
def shortSkills (skills : Table Int64 String) : Table Int64 String :=
  skills.filterMap fun (id, name) => (shortSkillId? id).map (·, name)

/-- Constants with the short skill ids derived. -/
def withShortSkills (t : Table String (Table Int64 String)) : Table String (Table Int64 String) :=
  match t.get? "SKILL" with
  | some skills => t.put "SKILL_SHORT" (shortSkills skills)
  | none => t

/-- Constants without the abnormal state that means none. -/
def withoutNoState (t : Table String (Table Int64 String)) : Table String (Table Int64 String) :=
  match t.get? "ABNORMAL" with
  | some states => t.put "ABNORMAL" (states.without (-1))
  | none => t

theorem finishConstants_eq (t : Table String (Table Int64 String)) :
    finishConstants t = withoutNoState (withShortSkills t) := rfl

theorem get?_withShortSkills (t : Table String (Table Int64 String)) (d : String) :
    (withShortSkills t).get? d =
      if d = "SKILL_SHORT" then ((t.get? "SKILL").map shortSkills).or (t.get? d)
      else t.get? d := by
  unfold withShortSkills
  cases t.get? "SKILL" with
  | none => simp
  | some skills => simp [Table.get?_put]

theorem get?_withoutNoState (t : Table String (Table Int64 String)) (d : String) :
    (withoutNoState t).get? d =
      if d = "ABNORMAL" then (t.get? d).map (·.without (-1)) else t.get? d := by
  unfold withoutNoState
  by_cases hd : d = "ABNORMAL"
  · subst hd
    cases h : t.get? "ABNORMAL" with
    | none => simp [h]
    | some states => simp [Table.get?_put]
  · cases t.get? "ABNORMAL" with
    | none => simp [hd]
    | some states => simp [Table.get?_put, hd]

/-- **The constants of a domain when loading ends.** -/
theorem get?_finishConstants (t : Table String (Table Int64 String)) (d : String) :
    (finishConstants t).get? d =
      if d = "ABNORMAL" then (t.get? d).map (·.without (-1))
      else if d = "SKILL_SHORT" then ((t.get? "SKILL").map shortSkills).or (t.get? d)
      else t.get? d := by
  rw [finishConstants_eq, get?_withoutNoState, get?_withShortSkills]
  by_cases hd : d = "ABNORMAL"
  · subst hd
    simp
  · rw [if_neg hd, if_neg hd]

/-- Tables that read the same give the same constants. -/
theorem get?_finishConstants_congr {t t' : Table String (Table Int64 String)}
    (h : ∀ d, t.get? d = t'.get? d) (d : String) :
    (finishConstants t).get? d = (finishConstants t').get? d := by
  simp only [get?_finishConstants, h]

/-- Apart from the derived ids and the state left out, constants stay as they are. -/
theorem bind_get?_finishConstants {t : Table String (Table Int64 String)} {d : String} {id : Int64}
    (hs : d = "SKILL_SHORT" → t.get? "SKILL" = none) (ha : (d, id) ≠ ("ABNORMAL", -1)) :
    ((finishConstants t).get? d).bind (·.get? id) = (t.get? d).bind (·.get? id) := by
  rw [get?_finishConstants]
  split_ifs with habnormal hshort
  · have hid : id ≠ -1 := fun hid => ha (by rw [habnormal, hid])
    rw [Option.bind_map]
    exact Option.bind_congr fun states _ => Table.get?_without_of_ne hid states
  · rw [hs hshort]
    rfl
  · rfl

/-- No domain is lost at the end of loading. -/
theorem isSome_get?_finishConstants {t : Table String (Table Int64 String)} {d : String}
    (h : (t.get? d).isSome) : ((finishConstants t).get? d).isSome := by
  rw [get?_finishConstants]
  split_ifs
  · rwa [Option.isSome_map]
  · simp [h]
  · exact h

theorem exists_of_bind_ok {ε α β : Type} {x : Except ε α} {f : α → Except ε β} {r : β}
    (h : (x >>= f) = .ok r) : ∃ a, x = .ok a ∧ f a = .ok r := by
  cases x with
  | error e => exact nomatch h
  | ok a => exact ⟨a, rfl, h⟩

/-- What the constants of a loaded database are made of. -/
theorem constants_of_load {tools : Toolkit} {dir : Directory} {files : Files} {db : Database}
    (h : Database.loadWith tools dir files = .ok db) :
    ∃ sources headers, domainSources tools dir files.enums = .ok sources ∧
      ((headerShares sources).mapM fun (file, shares) => loadHeader tools dir file shares) =
        .ok headers ∧
      db.constants = finishConstants (headers.reverse.flatten ++ inlineConstants sources) := by
  obtain ⟨_, -, h⟩ := exists_of_bind_ok h
  obtain ⟨_, -, h⟩ := exists_of_bind_ok h
  obtain ⟨_, -, h⟩ := exists_of_bind_ok h
  obtain ⟨constants, hc, h⟩ := exists_of_bind_ok h
  obtain ⟨_, -, h⟩ := exists_of_bind_ok h
  obtain rfl := Except.ok.inj h
  obtain ⟨sources, hs, hc⟩ := exists_of_bind_ok hc
  obtain ⟨headers, hh, hc⟩ := exists_of_bind_ok hc
  exact ⟨sources, headers, hs, hh, (Except.ok.inj hc).symm⟩

end Symbols

end ScriptLift
