import Mathlib.Tactic
import ScriptLift.Listing

/-!
# Spans of a list

* `Divides`: a list cut into its spans and what stands between them; **`divides_iff`**: there is one
  way to do so, which `spans` finds.
* `closedSpans`: spans that start anew at every opening element and end at a closing one.
* **`closedSpans_eq_spans`**: the two agree where every opening element is followed by a closing one
  before any further opening one.
-/

namespace ScriptLift

variable {α β : Type} {opens closes : α → Bool} {xs gap inner rest : List α} {x y : α}
  {parts : List (List α)}

/-- A list divided into its spans and what stands between them; only the last span may be without
its closing element. -/
inductive Divides (opens closes : α → Bool) : List α → List (List α) → Prop
  | gap {gap : List α} (hgap : ∀ z ∈ gap, opens z = false) : Divides opens closes gap []
  | span {gap inner rest : List α} {x y : α} {parts : List (List α)}
      (hgap : ∀ z ∈ gap, opens z = false) (hx : opens x) (hinner : ∀ z ∈ inner, closes z = false)
      (hy : closes y) (hrest : Divides opens closes rest parts) :
      Divides opens closes (gap ++ x :: (inner ++ y :: rest)) ((x :: (inner ++ [y])) :: parts)
  | last {gap inner : List α} {x : α} (hgap : ∀ z ∈ gap, opens z = false) (hx : opens x)
      (hinner : ∀ z ∈ inner, closes z = false) : Divides opens closes (gap ++ x :: inner) [x :: inner]

/-! ## Finding spans -/

theorem spansFrom_gap (h : ∀ z ∈ gap, opens z = false) (rest : List α) :
    spansFrom opens closes none (gap ++ rest) = spansFrom opens closes none rest := by
  induction gap with
  | nil => rfl
  | cons z gap ih =>
    rw [List.cons_append, spansFrom]
    simp only [h z List.mem_cons_self, Bool.false_eq_true, if_false]
    exact ih fun w hw => h w (List.mem_cons_of_mem _ hw)

theorem spansFrom_inner (h : ∀ z ∈ inner, closes z = false) (acc rest : List α) :
    spansFrom opens closes (some acc) (inner ++ rest) =
      spansFrom opens closes (some (inner.reverse ++ acc)) rest := by
  induction inner generalizing acc with
  | nil => rfl
  | cons z inner ih =>
    rw [List.cons_append, spansFrom]
    simp only [h z List.mem_cons_self, Bool.false_eq_true, if_false]
    rw [ih fun w hw => h w (List.mem_cons_of_mem _ hw)]
    simp

theorem spans_gap (h : ∀ z ∈ gap, opens z = false) : spans opens closes gap = [] := by
  rw [spans, ← List.append_nil gap, spansFrom_gap h]
  rfl

theorem spans_span (hgap : ∀ z ∈ gap, opens z = false) (hx : opens x)
    (hinner : ∀ z ∈ inner, closes z = false) (hy : closes y) :
    spans opens closes (gap ++ x :: (inner ++ y :: rest)) =
      (x :: (inner ++ [y])) :: spans opens closes rest := by
  rw [spans, spansFrom_gap hgap, spansFrom]
  simp only [hx, if_true]
  rw [spansFrom_inner hinner, spansFrom]
  simp [hy, spans]

theorem spans_last (hgap : ∀ z ∈ gap, opens z = false) (hx : opens x)
    (hinner : ∀ z ∈ inner, closes z = false) :
    spans opens closes (gap ++ x :: inner) = [x :: inner] := by
  rw [spans, spansFrom_gap hgap, spansFrom]
  simp only [hx, if_true]
  rw [← List.append_nil inner, spansFrom_inner hinner]
  simp [spansFrom]

theorem exists_first {p : α → Bool} (xs : List α) :
    (∀ z ∈ xs, p z = false) ∨
      ∃ before y after, xs = before ++ y :: after ∧ (∀ z ∈ before, p z = false) ∧ p y := by
  cases h : xs.find? p with
  | none =>
    rw [List.find?_eq_none] at h
    exact .inl fun z hz => by simpa using h z hz
  | some y =>
    obtain ⟨hy, before, after, hxs, hbefore⟩ := List.find?_eq_some_iff_append.mp h
    exact .inr ⟨before, y, after, hxs, fun z hz => by simpa using hbefore z hz, hy⟩

theorem divides_spans (xs : List α) : Divides opens closes xs (spans opens closes xs) := by
  induction h : xs.length using Nat.strong_induction_on generalizing xs with
  | _ n ih =>
    rcases exists_first (p := opens) xs with hgap | ⟨gap, x, after, rfl, hgap, hx⟩
    · rw [spans_gap hgap]
      exact .gap hgap
    · rcases exists_first (p := closes) after with hinner | ⟨inner, y, rest, rfl, hinner, hy⟩
      · rw [spans_last hgap hx hinner]
        exact .last hgap hx hinner
      · rw [spans_span hgap hx hinner hy]
        refine .span hgap hx hinner hy (ih rest.length ?_ rest rfl)
        simp only [List.length_append, List.length_cons] at h
        omega

/-- **There is one way to divide a list into its spans.** -/
theorem divides_iff : Divides opens closes xs parts ↔ parts = spans opens closes xs := by
  refine ⟨fun h => ?_, fun h => h ▸ divides_spans xs⟩
  induction h with
  | gap hgap => rw [spans_gap hgap]
  | span hgap hx hinner hy _ ih => rw [spans_span hgap hx hinner hy, ih]
  | last hgap hx hinner => rw [spans_last hgap hx hinner]

/-! ## What spans are -/

theorem Divides.sublist (h : Divides opens closes xs parts) : parts.flatten.Sublist xs := by
  induction h with
  | gap => exact List.nil_sublist _
  | @span gap inner rest x y parts _ _ _ _ _ ih =>
    have heq : gap ++ x :: (inner ++ y :: rest) = gap ++ ((x :: (inner ++ [y])) ++ rest) := by simp
    rw [heq, List.flatten_cons]
    exact (ih.append_left _).trans (List.sublist_append_right _ _)
  | last => simp

/-- A span is a part of the list that has no closing element before its last one, and ends with a
closing element or where the list does. -/
theorem Divides.part (hdisjoint : ∀ z, opens z → closes z = false)
    (h : Divides opens closes xs parts) {part : List α} (hp : part ∈ parts) :
    ∃ before after, xs = before ++ part ++ after ∧ (∀ z ∈ part.dropLast, closes z = false) ∧
      (after = [] ∨ ∃ z ∈ part.getLast?, closes z) := by
  induction h with
  | gap => simp at hp
  | @span gap inner rest x y parts _ hx hinner hy _ ih =>
    rcases List.mem_cons.mp hp with rfl | hp
    · refine ⟨gap, rest, by simp, ?_, .inr ⟨y, List.getLast?_concat (l := x :: inner), hy⟩⟩
      rw [← List.cons_append, List.dropLast_concat]
      exact List.forall_mem_cons.mpr ⟨hdisjoint x hx, hinner⟩
    · obtain ⟨before, after, rfl, hpart⟩ := ih hp
      exact ⟨gap ++ x :: (inner ++ y :: before), after, by simp, hpart⟩
  | @last gap inner x _ hx hinner =>
    obtain rfl := List.mem_singleton.mp hp
    have hfree : ∀ z ∈ x :: inner, closes z = false :=
      List.forall_mem_cons.mpr ⟨hdisjoint x hx, hinner⟩
    exact ⟨gap, [], by simp, fun z hz => hfree z (List.mem_of_mem_dropLast hz), .inl rfl⟩

/-! ## Spans of an image -/

theorem spansFrom_map (f : β → α) (open? : Option (List β)) (xs : List β) :
    spansFrom opens closes (open?.map (List.map f)) (xs.map f) =
      (spansFrom (opens ∘ f) (closes ∘ f) open? xs).map (List.map f) := by
  induction xs generalizing open? with
  | nil => cases open? <;> simp [spansFrom]
  | cons x xs ih =>
    cases open? with
    | none =>
      simp only [List.map_cons, Option.map_none, spansFrom, Function.comp_apply]
      split
      · exact ih (some [x])
      · exact ih none
    | some acc =>
      simp only [List.map_cons, Option.map_some, spansFrom, Function.comp_apply]
      split
      · rw [List.map_cons, ← ih none]
        simp
      · exact ih (some (x :: acc))

theorem spansFrom_congr {opens' closes' : α → Bool} (open? : Option (List α))
    (ho : ∀ z ∈ xs, opens z = opens' z) (hc : ∀ z ∈ xs, closes z = closes' z) :
    spansFrom opens closes open? xs = spansFrom opens' closes' open? xs := by
  induction xs generalizing open? with
  | nil => cases open? <;> rfl
  | cons x xs ih =>
    have ho' : ∀ z ∈ xs, opens z = opens' z := fun z hz => ho z (List.mem_cons_of_mem _ hz)
    have hc' : ∀ z ∈ xs, closes z = closes' z := fun z hz => hc z (List.mem_cons_of_mem _ hz)
    cases open? with
    | none => simp only [spansFrom, ho x List.mem_cons_self, ih _ ho' hc']
    | some acc => simp only [spansFrom, hc x List.mem_cons_self, ih _ ho' hc']

/-! ## Spans that start anew -/

/-- The spans of a list that have their closing element, where an opening element drops what was
begun before it; `open?` is the span begun before the list, in reverse. -/
def closedSpansFrom (opens closes : α → Bool) (open? : Option (List α)) : List α → List (List α)
  | [] => []
  | x :: r =>
    if opens x then closedSpansFrom opens closes (some [x]) r
    else if closes x then
      (open?.map fun acc => (x :: acc).reverse).toList ++ closedSpansFrom opens closes none r
    else closedSpansFrom opens closes (open?.map (x :: ·)) r

/-- Every opening element is followed by a closing one before any further opening one. -/
def Paired (opens closes : α → Bool) (xs : List α) : Prop :=
  ∀ before x after, xs = before ++ x :: after → opens x →
    ∃ inner y rest, after = inner ++ y :: rest ∧ (∀ z ∈ inner, opens z = false) ∧ closes y

theorem Paired.of_append (h : Paired opens closes (gap ++ rest)) : Paired opens closes rest := by
  intro before x after heq hx
  exact h (gap ++ before) x after (by rw [heq, List.append_assoc]) hx

theorem Paired.of_map {f : β → α} {xs : List β} (h : Paired opens closes (xs.map f)) :
    Paired (opens ∘ f) (closes ∘ f) xs := by
  rintro before x after rfl hx
  obtain ⟨inner, y, rest, heq, hinner, hy⟩ := h (before.map f) (f x) (after.map f) (by simp) hx
  obtain ⟨inner, more, rfl, rfl, hmore⟩ := List.map_eq_append_iff.mp heq
  obtain ⟨y, rest, rfl, rfl, -⟩ := List.map_eq_cons_iff.mp hmore
  exact ⟨inner, y, rest, rfl, fun z hz => hinner (f z) (List.mem_map_of_mem hz), hy⟩

/-- Whether a list is paired. -/
def pairedCheck (opens closes : α → Bool) : List α → Bool
  | [] => true
  | x :: xs => (!opens x || (xs.find? fun z => opens z || closes z).any closes) &&
    pairedCheck opens closes xs

theorem any_find?_iff :
    (xs.find? fun z => opens z || closes z).any closes ↔
      ∃ inner y rest, xs = inner ++ y :: rest ∧ (∀ z ∈ inner, opens z = false) ∧ closes y := by
  constructor
  · intro h
    cases hy : xs.find? fun z => opens z || closes z with
    | none => simp [hy] at h
    | some y =>
      obtain ⟨-, inner, rest, rfl, hinner⟩ := List.find?_eq_some_iff_append.mp hy
      refine ⟨inner, y, rest, rfl, fun z hz => ?_, by simpa [hy] using h⟩
      exact (by simpa using hinner z hz : opens z = false ∧ closes z = false).1
  · rintro ⟨inner, y, rest, rfl, hinner, hy⟩
    induction inner with
    | nil => simp [hy]
    | cons z inner ih =>
      have hz := hinner z List.mem_cons_self
      rw [List.cons_append, List.find?_cons]
      cases hc : closes z with
      | true => simp [hz, hc]
      | false => simpa [hz, hc] using ih fun w hw => hinner w (List.mem_cons_of_mem _ hw)

theorem pairedCheck_iff : pairedCheck opens closes xs ↔ Paired opens closes xs := by
  induction xs with
  | nil => simp [pairedCheck, Paired]
  | cons x xs ih =>
    rw [pairedCheck, Bool.and_eq_true, ih, Bool.or_eq_true, any_find?_iff]
    constructor
    · rintro ⟨hx, hxs⟩ before w after heq hw
      cases before with
      | nil =>
        obtain ⟨rfl, rfl⟩ := List.cons.inj heq
        exact hx.resolve_left (by simp [hw])
      | cons b before => exact hxs before w after (List.cons.inj heq).2 hw
    · intro h
      have happ : Paired opens closes ([x] ++ xs) := h
      refine ⟨?_, happ.of_append⟩
      cases hx : opens x with
      | false => exact .inl rfl
      | true => exact .inr (h [] x xs rfl hx)

instance : Decidable (Paired opens closes xs) := decidable_of_iff _ pairedCheck_iff

theorem closedSpansFrom_gap (h : ∀ z ∈ gap, opens z = false) (rest : List α) :
    closedSpansFrom opens closes none (gap ++ rest) = closedSpansFrom opens closes none rest := by
  induction gap with
  | nil => rfl
  | cons z gap ih =>
    rw [List.cons_append, closedSpansFrom]
    simp only [h z List.mem_cons_self, Bool.false_eq_true, if_false, Option.map_none,
      Option.toList_none, List.nil_append, ite_self]
    exact ih fun w hw => h w (List.mem_cons_of_mem _ hw)

theorem closedSpansFrom_inner (ho : ∀ z ∈ inner, opens z = false)
    (hc : ∀ z ∈ inner, closes z = false) (acc rest : List α) :
    closedSpansFrom opens closes (some acc) (inner ++ rest) =
      closedSpansFrom opens closes (some (inner.reverse ++ acc)) rest := by
  induction inner generalizing acc with
  | nil => rfl
  | cons z inner ih =>
    rw [List.cons_append, closedSpansFrom]
    simp only [ho z List.mem_cons_self, hc z List.mem_cons_self, Bool.false_eq_true, if_false,
      Option.map_some]
    rw [ih (fun w hw => ho w (List.mem_cons_of_mem _ hw))
      fun w hw => hc w (List.mem_cons_of_mem _ hw)]
    simp

/-- Up to its first closing element, a paired list has no second opening one. -/
theorem Paired.free_inner (h : Paired opens closes (gap ++ x :: (inner ++ y :: rest))) (hx : opens x)
    (hinner : ∀ z ∈ inner, closes z = false) : ∀ z ∈ inner, opens z = false := by
  obtain ⟨inner', y', rest', heq, hfree, hy'⟩ := h gap x _ rfl hx
  rcases List.append_eq_append_iff.mp heq with ⟨more, rfl, -⟩ | ⟨more, rfl, hcons⟩
  · exact fun z hz => hfree z (List.mem_append_left _ hz)
  · cases more with
    | nil => simpa using hfree
    | cons w more =>
      -- The closing element that pairing gives cannot stand within `inner`.
      obtain ⟨rfl, -⟩ := List.cons.inj hcons
      have hno := hinner y' (List.mem_append_right _ List.mem_cons_self)
      rw [hno] at hy'
      cases hy'

theorem Divides.closedSpans (hdisjoint : ∀ z, opens z → closes z = false)
    (hdiv : Divides opens closes xs parts) (h : Paired opens closes xs) :
    closedSpansFrom opens closes none xs = parts := by
  induction hdiv with
  | @gap gap hgap =>
    rw [← List.append_nil gap, closedSpansFrom_gap hgap]
    rfl
  | @span gap inner rest x y parts hgap hx hinner hy _ ih =>
    have hyo : opens y = false := by
      cases hyo : opens y with
      | false => rfl
      | true => simp [hdisjoint y hyo] at hy
    have hrest : Paired opens closes rest := by
      have heq : gap ++ x :: (inner ++ y :: rest) = (gap ++ x :: (inner ++ [y])) ++ rest := by simp
      exact Paired.of_append (heq ▸ h)
    rw [closedSpansFrom_gap hgap, closedSpansFrom, if_pos hx,
      closedSpansFrom_inner (h.free_inner hx hinner) hinner, closedSpansFrom, ih hrest]
    simp [hyo, hy]
  | last hgap hx hinner =>
    obtain ⟨inner', y, rest, rfl, -, hy⟩ := h _ _ _ rfl hx
    simp [hinner y (by simp)] at hy

/-- **The two ways to find spans agree on paired lists.** -/
theorem closedSpans_eq_spans (hdisjoint : ∀ z, opens z → closes z = false)
    (h : Paired opens closes xs) : closedSpansFrom opens closes none xs = spans opens closes xs :=
  (divides_spans xs).closedSpans hdisjoint h

end ScriptLift
