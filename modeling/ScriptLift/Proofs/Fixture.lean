import Mathlib
import ScriptLift.Fixture
import ScriptLift.Proofs.Text.Utf8

/-!
# Fixtures of two runs

A fixture is a row of checksums without names, so that a verdict can depend on the place of a class
only. What one run records and another is compared with is said here class by class.

* `Checksum.value`: the number that bytes spell, the lowest first; `Checksum.bytes_inj`.
* `Fixture.Store.checkAll_recording`, `Fixture.Store.checkAll_checking`: the classes of a run, in
  either mode.
* **`Fixture.tested_positional`**: the verdict on a class depends on it and on the class recorded at
  its place.
* **`Fixture.recorded_eq_iff_of_clean`**: when a run without failures records the fixture it was
  compared with.
-/

namespace ScriptLift

/-! ## Checksums as bytes -/

namespace Checksum

/-- The number that bytes spell, the lowest first. -/
def value : List Char → Nat
  | [] => 0
  | c :: r => c.toNat + 256 * value r

/-- **The bytes of a checksum spell it.** -/
theorem value_bytes (c : UInt32) : value (bytes c) = c.toNat := by
  have hlt : c.toNat < 4294967296 := c.toNat_lt
  simp only [bytes, value, Text.toNat_byte]
  omega

theorem bytes_inj {a b : UInt32} : bytes a = bytes b ↔ a = b := by
  refine ⟨fun h => UInt32.toNat_inj.mp ?_, fun h => h ▸ rfl⟩
  rw [← value_bytes, h, value_bytes]

end Checksum

namespace Fixture

open Checksum

/-! ## Recording -/

/-- What stands in a fixture for classes, in order. -/
def sums (rs : List Outcome) : List Char := rs.flatMap fun r => bytes (crc32 r.text)

theorem sums_nil : sums [] = [] := rfl

theorem sums_cons (r : Outcome) (rs : List Outcome) :
    sums (r :: rs) = bytes (crc32 r.text) ++ sums rs := rfl

theorem length_sums (rs : List Outcome) : (sums rs).length = 4 * rs.length := by
  induction rs with
  | nil => rfl
  | cons r rs ih =>
    rw [sums_cons, List.length_append, length_bytes, ih, List.length_cons]
    omega

/-- The verdict on a class whose checksum is written. -/
def recordedVerdict : Outcome → Verdict
  | .ok _ => .recorded
  | _ => .skipped

namespace Store

theorem check_recording {sink : Sink} (hroom : sink.room = none) (n : Nat) (o : Outcome) :
    (recording sink n).check o =
      (.ok (recordedVerdict o), recording
        { sink with content := sink.content ++ String.ofList (bytes (crc32 o.text)) } (n + 1)) := by
  have hwrite : sink.write (bytes (crc32 o.text)) =
      .ok { sink with content := sink.content ++ String.ofList (bytes (crc32 o.text)) } := by
    simp [Sink.write, Sink.fits, hroom]
  cases o <;> simp only [Outcome.text] at hwrite ⊢ <;>
    simp [check, skip, record, hwrite, recordedVerdict, verdictWithout, isTester, Except.map]

/-- **The classes of a run that records.** -/
theorem checkAll_recording {sink : Sink} (hroom : sink.room = none) (n : Nat) (rs : List Outcome) :
    (recording sink n).checkAll rs =
      (.ok (rs.map recordedVerdict), recording
        { sink with content := sink.content ++ String.ofList (sums rs) } (n + rs.length)) := by
  induction rs generalizing sink n with
  | nil => simp [checkAll, sums_nil]
  | cons r rs ih =>
    simp only [checkAll, check_recording hroom]
    rw [ih (by exact hroom)]
    simp [Except.map, sums_cons, String.append_assoc, Nat.add_assoc, Nat.add_comm 1]

end Store

/-- The fixture that a run records. -/
def recorded (rs : List Outcome) : String := ((Store.generator .unlimited).checkAll rs).2.content

theorem toList_recorded (rs : List Outcome) : (recorded rs).toList = sums rs := by
  rw [recorded, Store.generator, Store.checkAll_recording rfl]
  simp [Store.content, Sink.unlimited]

/-! ## Comparing -/

/-- The verdict on a class compared with the one recorded at its place, if there is one. -/
def verdictOn (recorded? : Option Outcome) : Outcome → Verdict
  | .ignored => .skipped
  | .failed _ => .failed
  | .ok text =>
    match recorded? with
    | some r => if crc32 text = crc32 r.text then .passed else .failed
    | none => .failed

namespace Store

/-- One class takes one entry of the fixture, if one is left. -/
theorem check_checking (rs : List Outcome) (n : Nat) (o : Outcome) :
    (checking (.ok (sums rs)) n).check o =
      (.ok (verdictOn rs.head? o), checking (.ok (sums rs.tail)) (n + 1)) := by
  have hdrop : (sums rs).drop 4 = sums rs.tail := by
    cases rs with
    | nil => rfl
    | cons r rs => rw [sums_cons, List.drop_left' (length_bytes _)]; rfl
  cases o with
  | ignored | failed =>
    simp [check, skip, record, Except.map, verdictWithout, Outcome.isFailed, isTester, verdictOn, hdrop]
  | ok text =>
    simp only [check, record, hdrop]
    cases rs with
    | nil => simp [verdictOn, bytes, sums_nil]
    | cons r rs =>
      rw [sums_cons, List.take_left' (length_bytes _)]
      simp only [bytes_inj, verdictOn, List.head?_cons, eq_comm]

/-- **The classes of a run that is compared**: each with the entry at its own place. -/
theorem checkAll_checking (rs : List Outcome) (n : Nat) (rs' : List Outcome) :
    (checking (.ok (sums rs)) n).checkAll rs' =
      (.ok (rs'.mapIdx fun i o => verdictOn rs[i]? o),
        checking (.ok (sums (rs.drop rs'.length))) (n + rs'.length)) := by
  induction rs' generalizing rs n with
  | nil => simp [checkAll]
  | cons o os ih =>
    rw [checkAll, check_checking]
    simp only [ih, Except.map, List.mapIdx_cons, List.getElem?_tail, List.head?_eq_getElem?,
      List.drop_tail, List.length_cons, Nat.add_assoc, Nat.add_comm 1]

end Store

/-- The verdicts on the classes `rs'` compared with the fixture of `rs`. -/
def tested (rs rs' : List Outcome) : Except String (List Verdict) :=
  ((Store.tester (.ok (recorded rs))).checkAll rs').1

theorem tested_eq (rs rs' : List Outcome) :
    tested rs rs' = .ok (rs'.mapIdx fun i o => verdictOn rs[i]? o) := by
  have htester : Store.tester (.ok (recorded rs)) = .checking (.ok (sums rs)) 0 := by
    simp [Store.tester, Except.map, toList_recorded]
  rw [tested, htester, Store.checkAll_checking]

/-- **Verdicts are positional.** Recording succeeds with four bytes for each class, and comparing
succeeds with a verdict for each class: an ignored class is skipped, a failed one fails, and another
one passes if a class with the same checksum was recorded at its place. -/
theorem tested_positional (rs rs' : List Outcome) :
    ((Store.generator .unlimited).checkAll rs).1 = .ok (rs.map recordedVerdict) ∧
    (recorded rs).length = 4 * rs.length ∧
    ∃ vs, tested rs rs' = .ok vs ∧ vs.length = rs'.length ∧
      ∀ (i : Nat) (o : Outcome), rs'[i]? = some o →
        (o.isIgnored → vs[i]? = some .skipped) ∧
        (o.isFailed → vs[i]? = some .failed) ∧
        ∀ text, o = .ok text →
          ((∃ r, rs[i]? = some r ∧ crc32 text = crc32 r.text) → vs[i]? = some .passed) ∧
          ((¬ ∃ r, rs[i]? = some r ∧ crc32 text = crc32 r.text) → vs[i]? = some .failed) := by
  refine ⟨?_, ?_, _, tested_eq rs rs', List.length_mapIdx, fun i o ho => ?_⟩
  · rw [Store.generator, Store.checkAll_recording rfl]
  · rw [← String.length_toList, toList_recorded, length_sums]
  · have hv : (rs'.mapIdx fun i o => verdictOn rs[i]? o)[i]? = some (verdictOn rs[i]? o) := by
      rw [List.getElem?_mapIdx, ho, Option.map_some]
    simp only [hv, Option.some_inj]
    cases o with
    | ignored => simp [Outcome.isFailed, verdictOn]
    | failed p => simp [Outcome.isIgnored, verdictOn]
    | ok text =>
      simp only [Outcome.isIgnored, Outcome.isFailed, Bool.false_eq_true, false_implies, true_and]
      rintro _ ⟨⟩
      cases rs[i]? with
      | none => simp [verdictOn]
      | some r => by_cases h : crc32 text = crc32 r.text <;> simp [verdictOn, h]

/-! ## Runs without failures -/

theorem sums_inj {rs rs' : List Outcome} :
    sums rs = sums rs' ↔ rs.map (crc32 ·.text) = rs'.map (crc32 ·.text) := by
  induction rs generalizing rs' with
  | nil =>
    cases rs' with
    | nil => simp
    | cons r' rs' => simp [bytes, sums_nil, sums_cons]
  | cons r rs ih =>
    cases rs' with
    | nil => simp [bytes, sums_nil, sums_cons]
    | cons r' rs' =>
      rw [sums_cons, sums_cons, List.map_cons, List.map_cons, List.cons.injEq, ← ih, ← bytes_inj]
      exact ⟨fun h => List.append_inj h (by simp), fun ⟨h₁, h₂⟩ => by rw [h₁, h₂]⟩

theorem recorded_inj {rs rs' : List Outcome} :
    recorded rs = recorded rs' ↔ rs.map (crc32 ·.text) = rs'.map (crc32 ·.text) := by
  rw [← String.toList_inj, toList_recorded, toList_recorded, sums_inj]

/-- The bytes of a fixture at the place of a class. -/
def entry (fixture : String) (i : Nat) : List Char := (fixture.toList.drop (4 * i)).take 4

theorem entry_recorded (rs : List Outcome) (i : Nat) :
    entry (recorded rs) i = (rs[i]?.map fun r => bytes (crc32 r.text)).getD [] := by
  have hdrop : ∀ rs : List Outcome, (sums rs).drop (4 * i) = sums (rs.drop i) := by
    induction i with
    | zero => simp
    | succ i ih =>
      intro rs
      cases rs with
      | nil => simp [sums_nil]
      | cons r rs =>
        rw [Nat.mul_succ, Nat.add_comm, ← List.drop_drop, sums_cons,
          List.drop_left' (length_bytes _), ih, List.drop_succ_cons]
  rw [entry, toList_recorded, hdrop, ← List.head?_drop]
  cases rs.drop i with
  | nil => rfl
  | cons r rs => simp [sums_cons, List.take_left' (length_bytes _)]

/-- No class failed, and none differs from the fixture it was compared with. -/
def Clean (rs : List Outcome) (vs : List Verdict) : Prop :=
  ∀ p ∈ rs.zip vs, p.1.isFailed = false ∧ p.2 ≠ .failed

/-- A class of a clean run is ignored or has the checksum recorded at its place. -/
theorem Clean.recorded_at {rs rs' : List Outcome} {vs : List Verdict} (hclean : Clean rs' vs)
    (ht : tested rs rs' = .ok vs) {i : Nat} {o : Outcome} (ho : rs'[i]? = some o) :
    o = .ignored ∨ ∃ r, rs[i]? = some r ∧ crc32 r.text = crc32 o.text := by
  rw [tested_eq, Except.ok.injEq] at ht
  have hv : vs[i]? = some (verdictOn rs[i]? o) := by
    rw [← ht, List.getElem?_mapIdx, ho, Option.map_some]
  have hmem : (o, verdictOn rs[i]? o) ∈ rs'.zip vs :=
    List.mem_of_getElem? (List.getElem?_zip_eq_some.mpr ⟨ho, hv⟩)
  obtain ⟨hfailed, hverdict⟩ := hclean _ hmem
  cases o with
  | ignored => exact .inl rfl
  | failed p => simp [Outcome.isFailed] at hfailed
  | ok text =>
    refine .inr ?_
    cases hr : rs[i]? with
    | none => simp [hr, verdictOn] at hverdict
    | some r =>
      by_cases h : crc32 text = crc32 r.text
      · exact ⟨r, rfl, h.symm⟩
      · simp [hr, verdictOn, h] at hverdict

/-- **What a clean comparison says of the two fixtures.** They agree at every class of the later run
that is not ignored. They are the same exactly when the runs have equally many classes and the ones
ignored later were recorded as empty. -/
theorem recorded_eq_iff_of_clean {rs rs' : List Outcome} {vs : List Verdict}
    (ht : tested rs rs' = .ok vs) (hclean : Clean rs' vs) :
    (∀ (i : Nat) (o : Outcome), rs'[i]? = some o → o ≠ .ignored →
      entry (recorded rs') i = entry (recorded rs) i) ∧
    (recorded rs' = recorded rs ↔
      rs'.length = rs.length ∧
        ∀ (i : Nat) (r : Outcome), rs'[i]? = some .ignored → rs[i]? = some r →
          crc32 r.text = crc32 "") := by
  refine ⟨fun i o ho hne => ?_, ?_⟩
  · obtain ⟨r, hr, hsum⟩ := (hclean.recorded_at ht ho).resolve_left hne
    rw [entry_recorded, entry_recorded, ho, hr, Option.map_some, Option.map_some, hsum]
  rw [recorded_inj]
  constructor
  · intro h
    refine ⟨by simpa using congrArg List.length h, fun i r hi hr => ?_⟩
    have hget := congrArg (·[i]?) h
    simpa [hi, hr, Outcome.text, eq_comm] using hget
  · rintro ⟨hlen, hignored⟩
    refine List.ext_getElem (by simpa using hlen) fun i hi hi' => ?_
    rw [List.length_map] at hi hi'
    rw [List.getElem_map, List.getElem_map]
    have ho : rs'[i]? = some rs'[i] := List.getElem?_eq_getElem hi
    have hr : rs[i]? = some rs[i] := List.getElem?_eq_getElem hi'
    rcases hclean.recorded_at ht ho with hig | ⟨r, hr', hsum⟩
    · rw [hig] at ho ⊢
      exact (hignored i _ ho hr).symm
    · rw [hr, Option.some_inj] at hr'
      rw [hr', hsum]

/-- A class that is ignored where a failed one was recorded leaves the fixture as it is. -/
theorem recorded_eq_of_clean_ignored :
    (tested [.ok "a", .failed default, .ok "b"] [.ok "a", .ignored, .ok "b"] =
        .ok [.passed, .skipped, .passed] ∧
      Clean [.ok "a", .ignored, .ok "b"] [.passed, .skipped, .passed]) ∧
    recorded [.ok "a", .ignored, .ok "b"] = recorded [.ok "a", .failed default, .ok "b"] := by
  have ht : tested [.ok "a", .failed default, .ok "b"] [.ok "a", .ignored, .ok "b"] =
      .ok [.passed, .skipped, .passed] := by rw [tested_eq]; rfl
  have hclean : Clean [.ok "a", .ignored, .ok "b"] [.passed, .skipped, .passed] := by
    simp [Clean, Outcome.isFailed]
  refine ⟨⟨ht, hclean⟩, (recorded_eq_iff_of_clean ht hclean).2.mpr ⟨rfl, fun i r hi hr => ?_⟩⟩
  match i with
  | 0 | 2 => simp at hi
  | 1 =>
    simp only [List.getElem?_cons_succ, List.getElem?_cons_zero, Option.some_inj] at hr
    rw [← hr]
    rfl
  | i + 3 => simp at hi

/-- **A clean comparison does not mean the same fixture**: neither a class that is ignored later nor
one that is missing at the end is noticed. -/
theorem clean_recorded_ne :
    (tested [.ok "a"] [.ignored] = .ok [.skipped] ∧ Clean [.ignored] [.skipped] ∧
      recorded [.ignored] ≠ recorded [.ok "a"]) ∧
    (tested [.ok "a"] [] = .ok [] ∧ Clean [] [] ∧ recorded [] ≠ recorded [.ok "a"]) := by
  have hsum : crc32 "" ≠ crc32 "a" := by decide
  refine ⟨⟨by rw [tested_eq]; rfl, by simp [Clean, Outcome.isFailed], ?_⟩,
    by rw [tested_eq]; rfl, by simp [Clean], ?_⟩
  · rw [Ne, recorded_inj]
    simpa [Outcome.text] using hsum
  · rw [Ne, recorded_inj]
    simp

end Fixture

end ScriptLift
