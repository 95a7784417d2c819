import Mathlib
import ScriptLift.Batch.Collect

/-!
# Results in order

Whatever the order of the deliveries, the results are handled in the order of their numbers, up to
the first number that is missing.

* `handled`: results handled one after the other, up to the first one that could not be handled.
* `Collector.Holds`: what a collector knows of the results delivered to it.
* **`collect_eq`**: collecting is handling in order, up to the first number that is missing.
-/

namespace ScriptLift.Batch

variable {ρ σ ε : Type}

/-- A result is handled, unless handling was stopped. -/
def handle (emit : ρ → σ → σ × Option ε) (s : σ × Option ε) (r : ρ) : σ × Option ε :=
  if s.2.isSome then s else emit r s.1

/-- Results handled one after the other, up to the first one that could not be handled. -/
def handled (emit : ρ → σ → σ × Option ε) (s : σ) (rs : List ρ) : σ × Option ε :=
  rs.foldl (handle emit) (s, none)

namespace Collector

variable {emit : ρ → σ → σ × Option ε} {s : σ} {all : List ρ} {c : Collector ρ σ ε}

/-- What a collector knows of the results `all`, of which those with numbers in `seen` were
delivered: the ones before the next number were handled, the others wait. -/
structure Holds (emit : ρ → σ → σ × Option ε) (s : σ) (all : List ρ) (seen : List Nat)
    (c : Collector ρ σ ε) : Prop where
  pending : ∀ d ∈ c.pending, all[d.1]? = some d.2
  seen_pending : ∀ d ∈ c.pending, d.1 ∈ seen
  waits : ∀ i ∈ seen, i < c.next ∨ i ∈ c.pending.map Prod.fst
  next_le : c.next ≤ all.length
  before : ∀ i < c.next, i ∈ seen
  state : (c.state, c.stopped) = handled emit s (all.take c.next)

theorem take_eq (c : Collector ρ σ ε) (r : ρ) : c.take emit r =
    ⟨c.pending.filter (·.1 != c.next), c.next + 1, (handle emit (c.state, c.stopped) r).1,
      (handle emit (c.state, c.stopped) r).2⟩ := by
  unfold take handle
  cases c.stopped <;> simp

theorem mem_of_lookup {r : ρ} (h : c.pending.lookup c.next = some r) : (c.next, r) ∈ c.pending := by
  obtain ⟨l₁, l₂, hsplit, -⟩ := List.lookup_eq_some_iff.mp h
  rw [hsplit]
  simp

theorem length_take_pending {r : ρ} (h : c.pending.lookup c.next = some r) :
    (c.take emit r).pending.length < c.pending.length := by
  rw [take_eq]
  have hmem := mem_of_lookup h
  exact List.length_filter_lt_length_iff_exists.mpr ⟨_, hmem, by simp⟩

/-- The result that is next is handled. -/
theorem Holds.take {seen : List Nat} {r : ρ} (h : Holds emit s all seen c)
    (hr : c.pending.lookup c.next = some r) : Holds emit s all seen (c.take emit r) := by
  have hmem := mem_of_lookup hr
  have hget : all[c.next]? = some r := h.pending _ hmem
  rw [take_eq]
  refine ⟨fun d hd => ?_, fun d hd => ?_, fun i hi => ?_, ?_, fun i hi => ?_, ?_⟩
  · exact h.pending d (List.mem_of_mem_filter hd)
  · exact h.seen_pending d (List.mem_of_mem_filter hd)
  · rcases h.waits i hi with hlt | hwait
    · exact .inl (Nat.lt_succ_of_lt hlt)
    · by_cases hne : i = c.next
      · exact .inl (by simp [hne])
      · obtain ⟨d, hd, rfl⟩ := List.mem_map.mp hwait
        exact .inr (List.mem_map.mpr ⟨d, List.mem_filter.mpr ⟨hd, by simpa using hne⟩, rfl⟩)
  · exact (List.getElem?_eq_some_iff.mp hget).1
  · rcases Nat.lt_succ_iff_lt_or_eq.mp hi with hlt | rfl
    · exact h.before i hlt
    · exact h.seen_pending _ hmem
  · rw [List.take_add_one, hget, Option.toList_some, handled, List.foldl_concat, ← handled, ← h.state]

theorem Holds.drain {seen : List Nat} (fuel : Nat) (h : Holds emit s all seen c)
    (hfuel : c.pending.length ≤ fuel) :
    Holds emit s all seen (c.drain emit fuel) ∧
      (c.drain emit fuel).next ∉ (c.drain emit fuel).pending.map Prod.fst := by
  induction fuel generalizing c with
  | zero =>
    have hnil : c.pending = [] := List.length_eq_zero_iff.mp (Nat.le_zero.mp hfuel)
    exact ⟨h, by simp [Collector.drain, hnil]⟩
  | succ fuel ih =>
    cases hr : c.pending.lookup c.next with
    | some r =>
      -- The result handled no longer waits, so that the fuel left is enough for the others.
      have hlt : (c.take emit r).pending.length < c.pending.length := length_take_pending hr
      have := ih (h.take hr) (by omega)
      simpa [Collector.drain, hr] using this
    | none =>
      refine ⟨by simpa [Collector.drain, hr] using h, ?_⟩
      have hnot := List.lookup_eq_none_iff.mp hr
      simp only [Collector.drain, hr, List.mem_map, not_exists, not_and]
      intro d hd heq
      simpa [heq] using hnot d hd

/-- A delivery, after which the next result is not among those that wait. -/
theorem Holds.deliver {seen : List Nat} {d : Nat × ρ} (h : Holds emit s all seen c)
    (hd : all[d.1]? = some d.2) :
    Holds emit s all (d.1 :: seen) (c.deliver emit d) ∧
      (c.deliver emit d).next ∉ (c.deliver emit d).pending.map Prod.fst := by
  refine Holds.drain _ ⟨fun x hx => ?_, fun x hx => ?_, fun i hi => ?_, h.next_le, fun i hi => ?_,
    h.state⟩ (Nat.le_refl _)
  · rcases List.mem_cons.mp hx with rfl | hx
    · exact hd
    · exact h.pending x (List.mem_of_mem_filter hx)
  · rcases List.mem_cons.mp hx with rfl | hx
    · exact List.mem_cons_self
    · exact List.mem_cons_of_mem _ (h.seen_pending x (List.mem_of_mem_filter hx))
  · by_cases hne : i = d.1
    · exact .inr (by simp [hne])
    · rcases h.waits i ((List.mem_cons.mp hi).resolve_left hne) with hlt | hwait
      · exact .inl hlt
      · obtain ⟨x, hx, rfl⟩ := List.mem_map.mp hwait
        refine .inr (List.mem_map.mpr ⟨x, List.mem_cons_of_mem _ ?_, rfl⟩)
        exact List.mem_filter.mpr ⟨hx, by simpa using hne⟩
  · exact List.mem_cons_of_mem _ (h.before i hi)

theorem holds_start : Holds emit s all [] (.start s) where
  pending := by simp [start]
  seen_pending := by simp [start]
  waits := by simp
  next_le := Nat.zero_le _
  before := by simp [start]
  state := by simp [start, handled]

/-- Deliveries, one after the other. -/
theorem Holds.foldl {seen : List Nat} {deliveries : List (Nat × ρ)} (h : Holds emit s all seen c)
    (hnext : c.next ∉ c.pending.map Prod.fst) (hd : ∀ d ∈ deliveries, all[d.1]? = some d.2) :
    Holds emit s all ((deliveries.map Prod.fst).reverse ++ seen)
        (deliveries.foldl (Collector.deliver emit) c) ∧
      (deliveries.foldl (Collector.deliver emit) c).next ∉
        (deliveries.foldl (Collector.deliver emit) c).pending.map Prod.fst := by
  induction deliveries generalizing c seen with
  | nil => exact ⟨h, hnext⟩
  | cons d ds ih =>
    obtain ⟨h', hnext'⟩ := h.deliver (hd d List.mem_cons_self)
    have := ih h' hnext' fun x hx => hd x (List.mem_cons_of_mem _ hx)
    simpa using this

end Collector

/-- **Collecting is handling in order**: the results are handled up to the first number that was not
delivered. -/
theorem collect_eq (emit : ρ → σ → σ × Option ε) (s : σ) {all : List ρ} {deliveries : List (Nat × ρ)}
    (h : ∀ d ∈ deliveries, all[d.1]? = some d.2) :
    ∃ k, k ≤ all.length ∧ collect emit s deliveries = handled emit s (all.take k) ∧
      (∀ i < k, i ∈ deliveries.map Prod.fst) ∧ k ∉ deliveries.map Prod.fst := by
  have hstart : Collector.Holds emit s all [] (.start s) := Collector.holds_start
  obtain ⟨hc, hnext⟩ := hstart.foldl (by simp [Collector.start]) h
  refine ⟨_, hc.next_le, hc.state, fun i hi => by simpa using hc.before i hi, fun hk => ?_⟩
  rcases hc.waits _ (by simpa using hk) with hlt | hwait
  · exact absurd hlt (Nat.lt_irrefl _)
  · exact hnext hwait

/-- Deliveries of all results, in any order. -/
theorem collect_all (emit : ρ → σ → σ × Option ε) (s : σ) {all : List ρ}
    {deliveries : List (Nat × ρ)} (h : ∀ d ∈ deliveries, all[d.1]? = some d.2)
    (hall : ∀ i < all.length, i ∈ deliveries.map Prod.fst) :
    collect emit s deliveries = handled emit s all := by
  obtain ⟨k, hk, hcollect, -, hnot⟩ := collect_eq emit s h
  have hlen : k = all.length := by
    by_contra hne
    exact hnot (hall k (by omega))
  rw [hcollect, hlen, List.take_length]

end ScriptLift.Batch
