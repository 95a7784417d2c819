import ScriptLift.Proofs.Batch.Schedule

/-!
# Runs that end early

Some results may never be delivered, and some may be refused. What was handled by then are the
results before the first of these, in order.

* `noted`: handling that notes what it is called on.
* `calls_collect`: collecting calls on the numbers before the first one missing, and no further than
  the first call that fails.
* `emitTo`: results written by any writer that takes each source whole or refuses it.
* `CleanPrefix`: what is left when handling ended before a number.
* **`collect_leaves_prefix`**: whatever is delivered and refused, a clean prefix is left.
-/

namespace ScriptLift.Batch

open Fixture

variable {ρ σ ε : Type}

/-! ## Handling one after the other -/

section Handled

variable {emit : ρ → σ → σ × Option ε} {s s' : σ} {r : ρ} {rs : List ρ}

theorem foldl_handle_stopped (e : ε) (rs : List ρ) :
    rs.foldl (handle emit) (s, some e) = (s, some e) := by
  induction rs with
  | nil => rfl
  | cons r rs ih => exact ih

theorem handled_cons_ok (h : emit r s = (s', none)) :
    handled emit s (r :: rs) = handled emit s' rs := by
  rw [handled, List.foldl_cons, handle, if_neg (by simp), h]
  rfl

theorem handled_cons_stop {e : ε} (h : emit r s = (s', some e)) :
    handled emit s (r :: rs) = (s', some e) := by
  rw [handled, List.foldl_cons, handle, if_neg (by simp), h]
  exact foldl_handle_stopped e rs

end Handled

/-! ## Calls -/

/-- Handling that notes, in order, what it is called on. -/
def noted (emit : ρ → σ → σ × Option ε) (r : ρ) (s : List ρ × σ) : (List ρ × σ) × Option ε :=
  ((s.1 ++ [r], (emit r s.2).1), (emit r s.2).2)

/-- The calls on results one after the other, where `fails` says which ones fail. -/
theorem handled_noted {emit : ρ → σ → σ × Option ε} {fails : ρ → Option ε}
    (hemit : ∀ r s, (emit r s).2 = fails r) (log : List ρ) (s : σ) (rs : List ρ) :
    ∃ k s', k ≤ rs.length ∧ handled (noted emit) (log, s) rs =
        ((log ++ rs.take k, s'), (rs.take k).getLast?.bind fails) ∧
      (∀ i, i + 1 < k → ∀ r, rs[i]? = some r → fails r = none) ∧
      (k < rs.length → ∃ i r, k = i + 1 ∧ rs[i]? = some r ∧ (fails r).isSome) := by
  induction rs generalizing log s with
  | nil => exact ⟨0, s, Nat.le_refl _, by simp [handled], by simp, by simp⟩
  | cons r rs ih =>
    cases hr : fails r with
    | some e =>
      -- The first call fails, and is the last one.
      have hstop : noted emit r (log, s) = ((log ++ [r], (emit r s).1), some e) := by
        rw [noted, hemit, hr]
      refine ⟨1, (emit r s).1, by simp, ?_, by simp, fun _ => ⟨0, r, rfl, rfl, by simp [hr]⟩⟩
      rw [handled_cons_stop hstop]
      simp [hr]
    | none =>
      have hgo : noted emit r (log, s) = ((log ++ [r], (emit r s).1), none) := by
        rw [noted, hemit, hr]
      obtain ⟨k, s', hk, hrest, hnone, hlast⟩ := ih (log ++ [r]) (emit r s).1
      refine ⟨k + 1, s', by simpa using hk, ?_, fun i hi x hx => ?_, fun hlt => ?_⟩
      · rw [handled_cons_ok hgo, hrest, List.take_succ_cons, List.getLast?_cons, List.append_assoc,
          List.singleton_append]
        cases hg : (rs.take k).getLast? <;> simp [hr]
      · cases i with
        | zero =>
          obtain rfl : r = x := by simpa using hx
          exact hr
        | succ i => exact hnone i (by omega) x (by simpa using hx)
      · obtain ⟨i, x, rfl, hx, hf⟩ := hlast (by simpa using hlt)
        exact ⟨i + 1, x, rfl, by simpa using hx, hf⟩

/-- A list that has the results at the places of their numbers. -/
theorem exists_all {deliveries : List (Nat × ρ)} (h : (deliveries.map Prod.fst).Nodup) :
    ∃ all : List ρ, ∀ d ∈ deliveries, all[d.1]? = some d.2 := by
  induction deliveries with
  | nil => exact ⟨[], by simp⟩
  | cons d ds ih =>
    rw [List.map_cons, List.nodup_cons] at h
    obtain ⟨all, hall⟩ := ih h.2
    refine ⟨(all ++ List.replicate (d.1 + 1) d.2).set d.1 d.2, fun x hx => ?_⟩
    rcases List.mem_cons.mp hx with rfl | hx
    · rw [List.getElem?_set_self (by simp; omega)]
    · have hne : d.1 ≠ x.1 := fun heq => h.1 (heq ▸ List.mem_map_of_mem hx)
      have hget := hall x hx
      rw [List.getElem?_set_ne hne, List.getElem?_append_left (List.getElem?_eq_some_iff.mp hget).1,
        hget]

/-- **The calls of collecting** are those on the numbers before the first one that is missing, in
order, and none after a call that fails. -/
theorem calls_collect {emit : Nat × ρ → σ → σ × Option ε} {fails : Nat → Option ε}
    (hemit : ∀ d s, (emit d s).2 = fails d.1) (s : σ) {deliveries : List (Nat × ρ)}
    (hdistinct : (deliveries.map Prod.fst).Nodup) :
    ∃ k calls s', IsLeast ({i | i ∉ deliveries.map Prod.fst} ∪
        {n | ∃ i, n = i + 1 ∧ (fails i).isSome}) k ∧
      collect (noted emit) ([], s) (deliveries.map fun d => (d.1, d)) =
        ((calls, s'), calls.getLast?.bind fun d => fails d.1) ∧
      calls.map Prod.fst = List.range k ∧ ∀ d ∈ calls, d ∈ deliveries := by
  have hnums : (deliveries.map fun d => (d.1, d)).map Prod.fst = deliveries.map Prod.fst := by
    simp [Function.comp_def]
  have hnodup : ((deliveries.map fun d => (d.1, d)).map Prod.fst).Nodup := hnums ▸ hdistinct
  obtain ⟨all, hall⟩ := exists_all hnodup
  obtain ⟨m, hm, hcollect, hbefore, hmissing⟩ := collect_eq (noted emit) ([], s) hall
  rw [hnums] at hbefore hmissing
  -- The result at a place is the delivery with that number.
  have hplace : ∀ i < m, ∃ d ∈ deliveries, all[i]? = some d ∧ d.1 = i := by
    intro i hi
    obtain ⟨d, hd, rfl⟩ := List.mem_map.mp (hbefore i hi)
    exact ⟨d, hd, hall (d.1, d) (List.mem_map.mpr ⟨d, hd, rfl⟩), rfl⟩
  obtain ⟨k, s', hk, hhandled, hnone, hlast⟩ := handled_noted hemit [] s (all.take m)
  have hlen : (all.take m).length = m := by rw [List.length_take, Nat.min_eq_left hm]
  rw [hlen] at hk hlast
  have hget : ∀ i < m, ∃ d ∈ deliveries, (all.take m)[i]? = some d ∧ d.1 = i := by
    intro i hi
    obtain ⟨d, hd, hi', rfl⟩ := hplace i hi
    exact ⟨d, hd, by rw [List.getElem?_take_of_lt hi, hi'], rfl⟩
  refine ⟨k, (all.take m).take k, s', ⟨?_, fun n hn => ?_⟩, by rw [hcollect, hhandled, List.nil_append],
    ?_, fun d hd => ?_⟩
  · rcases Nat.lt_or_ge k m with hlt | hge
    · obtain ⟨i, d, rfl, hd, hf⟩ := hlast hlt
      obtain ⟨d', -, hd', rfl⟩ := hget i (by omega)
      obtain rfl : d' = d := by simpa [hd'] using hd
      exact .inr ⟨d'.1, rfl, hf⟩
    · exact .inl (Nat.le_antisymm hk hge ▸ hmissing)
  · rcases hn with hn | ⟨i, rfl, hf⟩
    · have : m ≤ n := Nat.le_of_not_lt fun hlt => hn (hbefore n hlt)
      omega
    · by_contra hlt
      obtain ⟨d, -, hd, rfl⟩ := hget i (by omega)
      rw [hnone d.1 (by omega) d hd] at hf
      simp at hf
  · refine List.ext_getElem? fun i => ?_
    rcases Nat.lt_or_ge i k with hi | hi
    · obtain ⟨d, -, hd, rfl⟩ := hget i (by omega)
      rw [List.getElem?_map, List.getElem?_take_of_lt hi, hd, List.getElem?_range hi]
      rfl
    · rw [List.getElem?_eq_none (by simp; omega), List.getElem?_eq_none (by simpa using hi)]
  · obtain ⟨i, hi⟩ := List.mem_iff_getElem?.mp (List.mem_of_mem_take hd)
    have him : i < m := hlen ▸ (List.getElem?_eq_some_iff.mp hi).1
    obtain ⟨d', hd', hget', -⟩ := hget i him
    obtain rfl : d' = d := by simpa [hget'] using hi
    exact hd'

/-! ## Writers -/

/-- The verdict of a fixture on an outcome, if there is a fixture, and the fixture after it. -/
def checked : Option Store → Outcome → Except String (Option Verdict) × Option Store
  | none, _ => (.ok none, none)
  | some store, o => ((store.check o).1.map some, some (store.check o).2)

/-- A fixture after a result that it gives a verdict on. -/
def admission (store : Option Store) (r : Result) : Except String (Option Store) :=
  (checked store r.outcome).1.map fun _ => (checked store r.outcome).2

/-- What a run has produced, with the state of its writer. -/
structure Desk (ω : Type) where
  writer : ω
  output : String
  store : Option Store
  entries : List Entry

/-- A result is checked, reported and written; a writer takes a source whole, or refuses it. -/
def emitTo {ω : Type} (write : ω → String → Except String ω) (r : Result) (p : Desk ω) :
    Desk ω × Option String :=
  match checked p.store r.outcome with
  | (.error e, store) => ({ p with store }, some e)
  | (.ok verdict, store) =>
    let p := { p with store, entries := p.entries ++ [⟨r.name, r.line, r.outcome, verdict⟩] }
    match r.outcome with
    | .ok text =>
      match write p.writer text with
      | .ok writer => ({ p with writer, output := p.output ++ text }, none)
      | .error e => (p, some e)
    | _ => (p, none)

/-- The sources of the classes that were lifted. -/
def okTexts (rs : List Result) : List String :=
  rs.filterMap fun r => if r.outcome.isOk then some r.outcome.text else none

/-- What an entry says, the verdict apart. -/
def Entry.result (e : Entry) : Result := ⟨e.name, e.line, e.outcome⟩

/-- Why the results `rs` are handled no further than those before number `q`, where the writer is `w`
and the fixture `st`; with the number of results reported, the fixture left, and the error. -/
inductive Halts {ω : Type} (write : ω → String → Except String ω) (rs : List Result)
    (numbers : List Nat) (q : Nat) (w : ω) (st : Option Store) :
    Nat → Option Store → Option String → Prop
  /-- The next result was not delivered. -/
  | missing (hq : q ∉ numbers) : Halts write rs numbers q w st q st none
  /-- The fixture gives no verdict on the next result. -/
  | unchecked {r : Result} {st' : Option Store} {e : String} (hq : q ∈ numbers)
      (hr : rs[q]? = some r) (hc : checked st r.outcome = (.error e, st')) :
      Halts write rs numbers q w st q st' (some e)
  /-- The source of the next result is refused. -/
  | refused {r : Result} {st' : Option Store} {e : String} (hq : q ∈ numbers) (hr : rs[q]? = some r)
      (hc : admission st r = .ok st') (ho : r.outcome.isOk) (hw : write w r.outcome.text = .error e) :
      Halts write rs numbers q w st (q + 1) st' (some e)

/-- What is left of the results `rs` when those with `numbers` were delivered. All before some number
were delivered, checked, reported and written; the next one was not, and none after it was written,
reported or fed to the fixture. -/
def CleanPrefix {ω : Type} (write : ω → String → Except String ω) (p : Desk ω) (rs : List Result)
    (numbers : List Nat) (output : String) (entries : List Entry) (store : Option Store)
    (error : Option String) : Prop :=
  ∃ q w st reported, (∀ i < q, i ∈ numbers) ∧
    (okTexts (rs.take q)).foldlM write p.writer = .ok w ∧ (rs.take q).foldlM admission p.store = .ok st ∧
    Halts write rs numbers q w st reported store error ∧
    output = p.output ++ String.join (okTexts (rs.take q)) ∧
    entries.map Entry.result = p.entries.map Entry.result ++ rs.take reported

section Writers

variable {ω : Type} {write : ω → String → Except String ω} {p p' p'' : Desk ω} {r : Result}
  {rs rs' : List Result} {error : Option String}

variable (write) in
/-- Results were checked, reported and written, all of them. -/
structure Served (p : Desk ω) (rs : List Result) (p' : Desk ω) : Prop where
  output : p'.output = p.output ++ String.join (okTexts rs)
  entries : p'.entries.map Entry.result = p.entries.map Entry.result ++ rs
  store : rs.foldlM admission p.store = .ok p'.store
  writer : (okTexts rs).foldlM write p.writer = .ok p'.writer

theorem okTexts_append : okTexts (rs ++ rs') = okTexts rs ++ okTexts rs' := List.filterMap_append

theorem Served.nil (p : Desk ω) : Served write p [] p :=
  ⟨by simp [okTexts], by simp, rfl, rfl⟩

theorem Served.append (h : Served write p rs p') (h' : Served write p' rs' p'') :
    Served write p (rs ++ rs') p'' where
  output := by rw [h'.output, h.output, okTexts_append, String.join_append, String.append_assoc]
  entries := by rw [h'.entries, h.entries, List.append_assoc]
  store := by
    rw [List.foldlM_append, h.store]
    exact h'.store
  writer := by
    rw [okTexts_append, List.foldlM_append, h.writer]
    exact h'.writer

theorem admission_of_checked {store : Option Store} {verdict : Option Verdict}
    (h : checked p.store r.outcome = (.ok verdict, store)) : admission p.store r = .ok store := by
  rw [admission, h]
  rfl

theorem served_of_emitTo (h : emitTo write r p = (p', none)) : Served write p [r] p' := by
  unfold emitTo at h
  split at h
  · simp at h
  · rename_i verdict store hc
    have hstore : [r].foldlM admission p.store = .ok store := by
      rw [List.foldlM_cons, admission_of_checked hc]
      rfl
    obtain ⟨name, line, outcome⟩ := r
    dsimp only at h
    cases outcome with
    | ok text =>
      dsimp only at h
      split at h
      · rename_i w hw
        cases h
        exact ⟨by simp [okTexts, Outcome.isOk, Outcome.text], by simp [Entry.result], hstore,
          by simp [okTexts, Outcome.isOk, Outcome.text, hw]⟩
      · simp at h
    | ignored | failed =>
      cases h
      exact ⟨by simp [okTexts, Outcome.isOk], by simp [Entry.result], hstore,
        by simp [okTexts, Outcome.isOk]; rfl⟩

/-- A result that stops the handling is not written; it is reported if the fixture gives a verdict. -/
theorem stop_of_emitTo {e : String} (h : emitTo write r p = (p', some e)) :
    p'.output = p.output ∧
      ((checked p.store r.outcome = (.error e, p'.store) ∧ p'.entries = p.entries) ∨
        (admission p.store r = .ok p'.store ∧ r.outcome.isOk ∧ write p.writer r.outcome.text = .error e ∧
          p'.entries.map Entry.result = p.entries.map Entry.result ++ [r])) := by
  unfold emitTo at h
  split at h
  · rename_i e' store hc
    cases h
    exact ⟨rfl, .inl ⟨hc, rfl⟩⟩
  · rename_i verdict store hc
    have hstore := admission_of_checked hc
    obtain ⟨name, line, outcome⟩ := r
    dsimp only at h
    cases outcome with
    | ok text =>
      dsimp only at h
      split at h
      · simp at h
      · rename_i e' hw
        cases h
        exact ⟨rfl, .inr ⟨hstore, rfl, hw, by simp [Entry.result]⟩⟩
    | ignored | failed => simp at h

variable (write) in
/-- Results handled one after the other, up to the first one that stops the handling. -/
theorem handled_emitTo (p : Desk ω) (rs : List Result) :
    ∃ q p₁, q ≤ rs.length ∧ Served write p (rs.take q) p₁ ∧
      (q = rs.length ∧ handled (emitTo write) p rs = (p₁, none) ∨
        ∃ r p₂ e, rs[q]? = some r ∧ emitTo write r p₁ = (p₂, some e) ∧
          handled (emitTo write) p rs = (p₂, some e)) := by
  induction rs generalizing p with
  | nil => exact ⟨0, p, Nat.le_refl _, .nil p, .inl ⟨rfl, rfl⟩⟩
  | cons r rs ih =>
    rcases hr : emitTo write r p with ⟨p', none | e⟩
    · obtain ⟨q, p₁, hq, hserved, hend⟩ := ih p'
      refine ⟨q + 1, p₁, by simpa using hq, ?_, ?_⟩
      · rw [List.take_succ_cons, ← List.singleton_append]
        exact (served_of_emitTo hr).append hserved
      · rw [handled_cons_ok hr]
        simpa using hend
    · exact ⟨0, p, Nat.zero_le _, .nil p, .inr ⟨r, p', e, rfl, hr, handled_cons_stop hr⟩⟩

/-- **Whatever is refused, a clean prefix is left**, where number `m` is the first one that was not
delivered. -/
theorem cleanPrefix_handled {all : List Result} {numbers : List Nat} {m : Nat} (hm : m ≤ all.length)
    (hbefore : ∀ i < m, i ∈ numbers) (hmissing : m ∉ numbers)
    (h : handled (emitTo write) p (all.take m) = (p', error)) :
    CleanPrefix write p all numbers p'.output p'.entries p'.store error := by
  obtain ⟨q, p₁, hq, hserved, hend⟩ := handled_emitTo write p (all.take m)
  rw [List.length_take, Nat.min_eq_left hm] at hq hend
  have htake : (all.take m).take q = all.take q := by rw [List.take_take, Nat.min_eq_left hq]
  rw [htake] at hserved
  rcases hend with ⟨rfl, hhandled⟩ | ⟨r, p₂, e, hr, hemit, hhandled⟩
  · obtain ⟨rfl, rfl⟩ : p₁ = p' ∧ none = error := by simpa [hhandled] using h
    exact ⟨q, p₁.writer, p₁.store, q, hbefore, hserved.writer, hserved.store, .missing hmissing,
      hserved.output, hserved.entries⟩
  · obtain ⟨rfl, rfl⟩ : p₂ = p' ∧ some e = error := by simpa [hhandled] using h
    have hlt : q < m := by
      have hlen := (List.getElem?_eq_some_iff.mp hr).1
      rw [List.length_take] at hlen
      omega
    rw [List.getElem?_take_of_lt hlt] at hr
    have hnumbers : ∀ i < q, i ∈ numbers := fun i hi => hbefore i (by omega)
    obtain ⟨houtput, hwhy⟩ := stop_of_emitTo hemit
    have hwritten : p₂.output = p.output ++ String.join (okTexts (all.take q)) :=
      houtput.trans hserved.output
    rcases hwhy with ⟨hc, hentries⟩ | ⟨hc, ho, hw, hentries⟩
    · refine ⟨q, p₁.writer, p₁.store, q, hnumbers, hserved.writer, hserved.store,
        .unchecked (hbefore q hlt) hr hc, hwritten, ?_⟩
      rw [hentries, hserved.entries]
    · refine ⟨q, p₁.writer, p₁.store, q + 1, hnumbers, hserved.writer, hserved.store,
        .refused (hbefore q hlt) hr hc ho hw, hwritten, ?_⟩
      rw [hentries, hserved.entries, List.take_add_one, hr, Option.toList_some, List.append_assoc]

end Writers

/-! ## Sinks -/

/-- Writes a text to a sink. -/
def writeText (s : Sink) (text : String) : Except String Sink := s.write text.toList

/-- The progress of a run that writes UTF-8 to a sink. -/
def Desk.progress (p : Desk Sink) : Progress := ⟨.new .utf8, p.writer, p.store, p.entries⟩

theorem check_progress (p : Desk Sink) (o : Outcome) : p.progress.check o =
    ((checked p.store o).1, Desk.progress { p with store := (checked p.store o).2 }) := by
  obtain ⟨writer, output, store, entries⟩ := p
  cases store <;> rfl

theorem emit_progress (r : Result) (p : Desk Sink) :
    emit r p.progress = ((emitTo writeText r p).1.progress, (emitTo writeText r p).2) := by
  obtain ⟨name, line, outcome⟩ := r
  unfold emit emitTo
  rw [check_progress]
  rcases checked p.store outcome with ⟨e | verdict, store⟩
  · rfl
  · cases outcome with
    | ok text =>
      simp only [Progress.write, Progress.enter, Desk.progress, Encoder.write, Encoder.new,
        Sink.writeAll, writeText]
      cases p.writer.write text.toList <;> rfl
    | ignored | failed => rfl

theorem handled_progress (p : Desk Sink) (rs : List Result) :
    handled emit p.progress rs =
      ((handled (emitTo writeText) p rs).1.progress, (handled (emitTo writeText) p rs).2) := by
  induction rs generalizing p with
  | nil => rfl
  | cons r rs ih =>
    rcases hr : emitTo writeText r p with ⟨p', none | e⟩
    · have hemit : emit r p.progress = (p'.progress, none) := by rw [emit_progress, hr]
      rw [handled_cons_ok hemit, handled_cons_ok hr, ih]
    · have hemit : emit r p.progress = (p'.progress, some e) := by rw [emit_progress, hr]
      rw [handled_cons_stop hemit, handled_cons_stop hr]

theorem content_emitTo {p : Desk Sink} (h : p.writer.content = p.output) (r : Result) :
    (emitTo writeText r p).1.writer.content = (emitTo writeText r p).1.output := by
  obtain ⟨name, line, outcome⟩ := r
  unfold emitTo
  rcases checked p.store outcome with ⟨e | verdict, store⟩
  · exact h
  · cases outcome with
    | ok text =>
      dsimp only
      split
      · rename_i w hw
        unfold writeText Sink.write at hw
        split at hw
        · cases hw
          simp [h]
        · simp at hw
      · exact h
    | ignored | failed => exact h

/-- A sink holds what was written to it. -/
theorem content_handled {p : Desk Sink} (h : p.writer.content = p.output) (rs : List Result) :
    (handled (emitTo writeText) p rs).1.writer.content =
      (handled (emitTo writeText) p rs).1.output := by
  induction rs generalizing p with
  | nil => exact h
  | cons r rs ih =>
    have hr' := content_emitTo h r
    rcases hr : emitTo writeText r p with ⟨p', none | e⟩
    · rw [hr] at hr'
      rw [handled_cons_ok hr]
      exact ih hr'
    · rw [hr] at hr'
      rw [handled_cons_stop hr]
      exact hr'

/-! ## Runs -/

/-- **A run over a sink** leaves a clean prefix, whatever is delivered. -/
theorem cleanPrefix_gather (sink : Sink) (store : Option Store) {all : List Result}
    {deliveries : List (Nat × Result)} (h : ∀ d ∈ deliveries, all[d.1]? = some d.2) :
    ∃ p' : Desk Sink, ∃ error,
      gather ⟨.new .utf8, sink, store, []⟩ deliveries = (p'.progress, error) ∧
        CleanPrefix writeText ⟨sink, sink.content, store, []⟩ all (deliveries.map Prod.fst)
          p'.writer.content p'.entries p'.store error := by
  obtain ⟨m, hm, hcollect, hbefore, hmissing⟩ :=
    collect_eq emit (Desk.progress ⟨sink, sink.content, store, []⟩) h
  have hcontent := content_handled (p := ⟨sink, sink.content, store, []⟩) rfl (all.take m)
  rw [handled_progress] at hcollect
  rcases hhandled : handled (emitTo writeText) ⟨sink, sink.content, store, []⟩ (all.take m) with
    ⟨p', error⟩
  rw [hhandled] at hcollect hcontent
  refine ⟨p', error, hcollect, ?_⟩
  rw [hcontent]
  exact cleanPrefix_handled hm hbefore hmissing hhandled

/-- **Partial runs leave a clean prefix.** Whatever handling does, it is called in order on the
numbers before the first one that is missing, and no more after a call that fails, whose error is
the error of collecting. So whatever a writer and a fixture refuse, and whatever is delivered of the
results of a run in whatever order: the sources before the first class that is missing, or that
cannot be checked or written, are written, and no class after it is written, reported or fed to the
fixture. Just so a run leaves a sink to which it writes UTF-8. -/
theorem collect_leaves_prefix (sy : Symbols) (s : Settings) (src : Source) :
    (∀ (ρ σ ε : Type) (emit : Nat × ρ → σ → σ × Option ε) (fails : Nat → Option ε) (start : σ)
      (deliveries : List (Nat × ρ)), (∀ d st, (emit d st).2 = fails d.1) →
      (deliveries.map Prod.fst).Nodup →
      ∃ k calls fin, IsLeast ({i | i ∉ deliveries.map Prod.fst} ∪
          {n | ∃ i, n = i + 1 ∧ (fails i).isSome}) k ∧
        collect (noted emit) ([], start) (deliveries.map fun d => (d.1, d)) =
          ((calls, fin), calls.getLast?.bind fun d => fails d.1) ∧
        calls.map Prod.fst = List.range k ∧ ∀ d ∈ calls, d ∈ deliveries) ∧
    (∀ (ω : Type) (write : ω → String → Except String ω) (p : Desk ω)
      (deliveries : List (Nat × Result)), (∀ d ∈ deliveries, d ∈ results sy s src) →
      let left := collect (emitTo write) p deliveries
      CleanPrefix write p ((jobs s src).map (Job.result sy s src)) (deliveries.map Prod.fst)
        left.1.output left.1.entries left.1.store left.2) ∧
    ∀ (sink : Sink) (store : Option Store) (deliveries : List (Nat × Result)) (left : Option String)
      (ws : List Problem) (stats : Stats), (∀ d ∈ deliveries, d ∈ results sy s src) →
      let got := gather ⟨.new .utf8, sink, store, []⟩ deliveries
      let run := conclude got.1 got.2 left ws stats
      CleanPrefix writeText ⟨sink, sink.content, store, []⟩ ((jobs s src).map (Job.result sy s src))
          (deliveries.map Prod.fst) run.sink.content got.1.entries run.store got.2 ∧
        run.report = some ⟨got.1.entries, ws, stats⟩ ∧ run.error = got.2.or left := by
  refine ⟨fun ρ σ ε emit fails start deliveries hemit hdistinct => calls_collect hemit start hdistinct,
    fun ω write p deliveries h => ?_, fun sink store deliveries left ws stats h => ?_⟩
  · obtain ⟨m, hm, hcollect, hbefore, hmissing⟩ :=
      collect_eq (emitTo write) p fun d hd => mem_placed.mp (h d hd)
    exact cleanPrefix_handled hm hbefore hmissing hcollect.symm
  · obtain ⟨p', error, hgot, hclean⟩ :=
      cleanPrefix_gather sink store fun d hd => mem_placed.mp (h d hd)
    rw [hgot]
    refine ⟨hclean, rfl, ?_⟩
    simp [conclude, Desk.progress, Encoder.finish, Encoder.new, Sink.writeAll]

/-- The call on one number fails. -/
def failsAtOne (i : Nat) : Option String := if i = 1 then some "full" else none

/-- The last and the first of three classes, without the one between them. -/
def withoutSecond : List (Nat × Result) :=
  ((results Lift.guardSymbols twoWorkers threeClasses).filter (·.1 != 1)).reverse

/-- A call that fails before a number that is missing, and a class that is missing before another. -/
theorem collect_leaves_prefix_short :
    (∃ calls fin, collect (noted fun (d : Nat × Char) (_ : Unit) => ((), failsAtOne d.1)) ([], ())
        ([(4, 'e'), (1, 'b'), (2, 'c'), (0, 'a')].map fun d => (d.1, d)) =
          ((calls, fin), calls.getLast?.bind fun d => failsAtOne d.1) ∧
      calls.map Prod.fst = [0, 1]) ∧
    (gather ⟨.new .utf8, .unlimited, none, []⟩ withoutSecond).1.entries.map Entry.name = ["a"] := by
  obtain ⟨hcalls, -, hrun⟩ := collect_leaves_prefix Lift.guardSymbols twoWorkers threeClasses
  constructor
  · obtain ⟨k, calls, fin, hk, hcollect, hrange, -⟩ := hcalls Char Unit String
      (fun d _ => ((), failsAtOne d.1)) failsAtOne () [(4, 'e'), (1, 'b'), (2, 'c'), (0, 'a')]
      (fun _ _ => rfl) (by decide)
    have htwo : k = 2 := by
      have hle : k ≤ 2 := hk.2 (.inr ⟨1, rfl, rfl⟩)
      rcases hk.1 with hk | ⟨i, rfl, hi⟩
      · have : k ≠ 0 ∧ k ≠ 1 := by constructor <;> rintro rfl <;> simp at hk
        omega
      · have : i = 1 := by
          by_contra hne
          simp [failsAtOne, hne] at hi
        omega
    exact ⟨calls, fin, hcollect, by rw [hrange, htwo]; rfl⟩
  · obtain ⟨hclean, -⟩ := hrun .unlimited none withoutSecond none [] default
      fun d hd => List.mem_of_mem_filter (List.mem_reverse.mp hd)
    generalize gather ⟨.new .utf8, .unlimited, none, []⟩ withoutSecond = got at hclean ⊢
    obtain ⟨p', error⟩ := got
    obtain ⟨q, w, st, reported, hbefore, hwriter, hst, hhalts, -, hentries⟩ := hclean
    have hnumbers : withoutSecond.map Prod.fst = [2, 0] := by decide +kernel
    rw [hnumbers] at hbefore hhalts
    have hle : q ≤ 1 := by
      by_contra hlt
      have hone := hbefore 1 (by omega)
      simp at hone
    have hfirst : q ∈ [2, 0] → st = none ∧ w = .unlimited := by
      intro hq
      obtain rfl : q = 0 := by
        rcases List.mem_pair.mp hq with rfl | rfl
        · omega
        · rfl
      cases hst
      cases hwriter
      exact ⟨rfl, rfl⟩
    cases hhalts with
    | missing hq =>
      obtain rfl : q = 1 := by
        have : q ≠ 0 := by rintro rfl; simp at hq
        omega
      have hnames := congrArg (List.map Result.name) hentries
      rw [List.map_map] at hnames
      exact hnames.trans (by decide +kernel)
    | unchecked hq hr hc =>
      rw [(hfirst hq).1] at hc
      simp [checked] at hc
    | refused hq hr hc ho hw =>
      rw [(hfirst hq).2] at hw
      simp [writeText, Sink.write, Sink.fits, Sink.unlimited] at hw

end ScriptLift.Batch
