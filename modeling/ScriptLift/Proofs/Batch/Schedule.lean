import ScriptLift.Proofs.Batch.Pool
import ScriptLift.Proofs.Lift.Handlers

/-!
# Runs under any schedule

* `handled_emit`: results written one after the other to a sink with room for them.
* `Pool.Ends`: what a run may leave behind, by some order of the steps of its pool.
* **`decompile_any_schedule`**: every order gives the sources, the entries and the counts of the
  classes in the order of the listing.
-/

namespace ScriptLift

/-- A sink after a text was written, where there is room for it. -/
def Sink.put (s : Sink) (text : String) : Sink :=
  { s with content := s.content ++ text, room := s.room.map (· - text.length) }

namespace Sink

theorem put_put (s : Sink) (a b : String) : (s.put a).put b = s.put (a ++ b) := by
  unfold put
  cases s.room <;> simp [String.append_assoc, String.length_append, Nat.sub_sub]

theorem put_empty (s : Sink) : s.put "" = s := by
  unfold put
  cases h : s.room <;> simp [← h]

theorem fits_put {s : Sink} {a b : String} (h : s.fits (a ++ b).length) :
    s.fits a.length ∧ (s.put a).fits b.length := by
  unfold fits put at *
  rw [String.length_append] at h
  cases hr : s.room with
  | none => simp
  | some room =>
    simp only [hr, decide_eq_true_eq] at h
    simp only [Option.map_some, decide_eq_true_eq]
    omega

theorem writeAll_text {s : Sink} {text : String} (h : s.fits text.length) :
    s.writeAll [text.toList] = (s.put text, none) := by
  have hlen : text.toList.length = text.length := String.length_toList
  simp [writeAll, write, hlen, h, put]

end Sink

namespace Batch

/-! ## Writing -/

/-- The entry of a result where there is no fixture. -/
def Result.entry (r : Result) : Entry := ⟨r.name, r.line, r.outcome, none⟩

/-- The progress after results were reported and their sources written. -/
def Progress.after (p : Progress) (rs : List Result) : Progress :=
  { p with
    sink := p.sink.put (String.join (rs.map (·.outcome.text)))
    entries := p.entries ++ rs.map Result.entry }

variable {p : Progress}

theorem emit_eq {r : Result} (hu : p.encoder.encoding = .utf8) (hs : p.store = none)
    (hf : p.sink.fits r.outcome.text.length) : emit r p = (p.after [r], none) := by
  obtain ⟨name, line, outcome⟩ := r
  have hcheck : p.check outcome = (.ok none, p) := by simp [Progress.check, hs]
  simp only [emit, hcheck]
  cases outcome with
  | ok text =>
    have hw : p.sink.writeAll [text.toList] = (p.sink.put text, none) := Sink.writeAll_text hf
    simp [Progress.write, Progress.enter, Encoder.write, hu, hw, Progress.after, Outcome.text,
      Result.entry, hs]
  | ignored | failed =>
    simp [Progress.enter, Progress.after, Outcome.text, Result.entry, Sink.put_empty]

/-- Results are written one after the other, where there is room for all. -/
theorem handled_emit {rs : List Result} (hu : p.encoder.encoding = .utf8) (hs : p.store = none)
    (hf : p.sink.fits (String.join (rs.map (·.outcome.text))).length) :
    handled emit p rs = (p.after rs, none) := by
  induction rs generalizing p with
  | nil => simp [handled, Progress.after, Sink.put_empty]
  | cons r rs ih =>
    rw [List.map_cons, String.join_cons] at hf
    obtain ⟨hfirst, hrest⟩ := Sink.fits_put hf
    have hstep : handled emit p (r :: rs) = handled emit (p.after [r]) rs := by
      simp [handled, handle, emit_eq hu hs hfirst]
    have hsink : (p.after [r]).sink = p.sink.put r.outcome.text := by simp [Progress.after]
    have hafter : (p.after [r]).after rs = p.after (r :: rs) := by
      simp [Progress.after, Sink.put_put]
    have hlast : handled emit (p.after [r]) rs = ((p.after [r]).after rs, none) :=
      ih hu hs (hsink ▸ hrest)
    rw [hstep, hlast, hafter]

section

variable (sy : Symbols) (s : Settings) (src : Source)

/-- The source of the class of a job that is neither ignored nor fails. -/
def Job.text? (j : Job) : Option String :=
  if j.ignored then none else (sourceOf sy s src j.listing).toOption

/-- The word for what becomes of the class of a job. -/
def Job.status (j : Job) : String :=
  if j.ignored then "IGNORED" else if (j.text? sy s src).isSome then "OK" else "FAILED"

/-- The sources of the classes of a listing that are neither ignored nor fail, in order. -/
def sources : List String := (jobs s src).filterMap (Job.text? sy s src)

end

variable {sy : Symbols} {s : Settings} {src : Source}

theorem Job.text_result (j : Job) :
    (j.result sy s src).outcome.text = (j.text? sy s src).getD "" := by
  unfold Job.result Job.text?
  dsimp only
  split
  · rfl
  · split <;> rename_i h <;> simp [h, Outcome.text, Except.toOption]

theorem Job.status_result (j : Job) :
    (j.result sy s src).outcome.status = j.status sy s src := by
  unfold Job.status Job.result Job.text?
  dsimp only
  split
  · rfl
  · split <;> rename_i h <;> simp [h, Outcome.status, Except.toOption]

theorem join_texts (js : List Job) :
    String.join (js.map fun j => (j.result sy s src).outcome.text) =
      String.join (js.filterMap (Job.text? sy s src)) := by
  induction js with
  | nil => rfl
  | cons j js ih =>
    rw [List.map_cons, String.join_cons, ih, Job.text_result, List.filterMap_cons]
    cases j.text? sy s src <;> simp

/-! ## Reports -/

/-- What a report has to say about the classes of a listing. -/
structure Report.Tells (sy : Symbols) (s : Settings) (src : Source) (report : Report) : Prop where
  entries : report.entries.map (fun e => (e.name, e.line, e.outcome.status)) =
    (jobs s src).map fun j => (j.listing.name, j.listing.line?.getD 0, j.status sy s src)
  /-- A class whose lifting breaks down is a class with a malformed row. -/
  breakdowns : ∀ (i : Nat) (j : Job), (jobs s src)[i]? = some j → j.ignored = false →
    sourceOf sy s src j.listing = .error .breakdown →
    ∃ (e : Entry) (problem : Problem), report.entries[i]? = some e ∧ e.outcome = .failed problem ∧
      problem.kind = .malformedRow
  total : report.stats.total = report.stats.completed + report.stats.failed + report.stats.skipped
  active : report.stats.active = 0
  completed : report.stats.completed = report.count Outcome.isOk
  failed : report.stats.failed = report.count Outcome.isFailed
  skipped : report.stats.skipped = report.count Outcome.isIgnored

theorem length_eq_counts (rs : List Result) :
    rs.length = rs.countP (·.outcome.isOk) + rs.countP (·.outcome.isFailed) +
      rs.countP (·.outcome.isIgnored) := by
  induction rs with
  | nil => rfl
  | cons r rs ih =>
    have hone : (if r.outcome.isOk then 1 else 0) + (if r.outcome.isFailed then 1 else 0) +
        (if r.outcome.isIgnored then 1 else 0) = 1 := by
      cases r.outcome <;> rfl
    rw [List.length_cons, List.countP_cons, List.countP_cons, List.countP_cons]
    omega

theorem count_entries (rs : List Result) (p : Outcome → Bool) (ws : List Problem) (st : Stats) :
    Report.count ⟨rs.map Result.entry, ws, st⟩ p = rs.countP (p ·.outcome) := by
  simp only [Report.count, List.countP_map]
  rfl

theorem total_ofResults (workers : Int) (rs : List Result) :
    (Stats.ofResults workers rs).total = (Stats.ofResults workers rs).completed +
      (Stats.ofResults workers rs).failed + (Stats.ofResults workers rs).skipped := by
  simp only [Stats.ofResults]
  exact length_eq_counts rs

theorem Job.entry_result (j : Job) :
    ((j.result sy s src).entry.name, (j.result sy s src).entry.line,
      (j.result sy s src).entry.outcome.status) =
      (j.listing.name, j.listing.line?.getD 0, j.status sy s src) := by
  simp only [Result.entry, Job.status_result]
  simp only [Job.result]

theorem Job.outcome_breakdown {j : Job} (hi : j.ignored = false)
    (hsource : sourceOf sy s src j.listing = .error .breakdown) :
    (j.result sy s src).entry.outcome =
      .failed (breakdown j.listing.name (j.listing.line?.getD 0)) := by
  simp [Result.entry, Job.result, hi, hsource]

theorem tells_results (sy : Symbols) (s : Settings) (src : Source) (ws : List Problem) :
    Report.Tells sy s src ⟨((jobs s src).map (Job.result sy s src)).map Result.entry, ws,
      .ofResults s.workers ((jobs s src).map (Job.result sy s src))⟩ where
  entries := by
    simp only [List.map_map]
    exact List.map_congr_left fun j _ => Job.entry_result j
  breakdowns i j hj hi hsource :=
    ⟨_, _, by simp only [List.getElem?_map, hj, Option.map_some], Job.outcome_breakdown hi hsource,
      by simp only [breakdown]⟩
  total := total_ofResults s.workers _
  active := by simp only [Stats.ofResults]
  completed := by simp only [Stats.ofResults, count_entries]
  failed := by simp only [Stats.ofResults, count_entries]
  skipped := by simp only [Stats.ofResults, count_entries]

/-! ## Schedules -/

/-- What a run may leave behind once writing has begun, by some order of the steps of its pool. -/
def Pool.Ends (sy : Symbols) (s : Settings) (src : Source) (w : Progress) (r : Run) : Prop :=
  ∃ q, Pool.Reaches (Job.result sy s src) (.start s.workers (jobs s src) w) q ∧ q.IsDone ∧
    r = q.run src

/-- Every order leaves the same behind, and there is one. -/
theorem Pool.ends_iff {w : Progress} {r : Run} :
    Pool.Ends sy s src w r ↔ r = runWith sy s src (results sy s src) w := by
  constructor
  · intro ⟨q, hq, hd, hr⟩
    rw [hr, Pool.run_eq sy s src hq hd]
  · intro hr
    have hstart : Pool.Reaches (Job.result sy s src) (.start s.workers (jobs s src) w)
        (.start s.workers (jobs s src) w) := .refl
    obtain ⟨q, hq, hd⟩ := Pool.exists_done_of_reaches hstart
    exact ⟨q, hq, hd, by rw [hr, Pool.run_eq sy s src hq hd]⟩

theorem begun_utf8 {sink : Sink} {k : Progress → Run} (h : s.encoding = "utf-8") :
    begun s sink none k = k ⟨.new .utf8, sink, none, []⟩ := by
  have hname : Encoding.ofName? s.encoding = some .utf8 := by
    rw [h]
    rfl
  simp [begun, hname, Encoder.start, Encoder.new, Sink.writeAll]

/-- A run that handles one job after the other, where there is room for all sources. -/
theorem runWith_utf8 {sink : Sink} (hroom : sink.fits (String.join (sources sy s src)).length) :
    runWith sy s src (results sy s src) ⟨.new .utf8, sink, none, []⟩ =
      ⟨some ⟨((jobs s src).map (Job.result sy s src)).map Result.entry, warnings src,
        .ofResults s.workers ((jobs s src).map (Job.result sy s src))⟩, none,
        sink.put (String.join (sources sy s src)), none⟩ := by
  have htexts : String.join (((jobs s src).map (Job.result sy s src)).map (·.outcome.text)) =
      String.join (sources sy s src) := by
    rw [List.map_map]
    exact join_texts (jobs s src)
  have hgather : gather ⟨.new .utf8, sink, none, []⟩ (results sy s src) =
      (Progress.after ⟨.new .utf8, sink, none, []⟩ ((jobs s src).map (Job.result sy s src)), none) := by
    refine (collect_placed emit _ (.refl _)).trans (handled_emit rfl rfl ?_)
    rw [htexts]
    exact hroom
  rw [runWith, hgather, map_snd_results]
  simp only [conclude, Progress.after, htexts, List.nil_append, Encoder.finish, Encoder.new,
    Sink.writeAll, Option.or_none]

/-- **A run does not depend on its schedule.** Where sources are written as UTF-8, without fixture
and with room for all of them: the pool never stops before it is done and does not go on forever;
and whatever the order of its steps, the run ends without an error, the sources of the classes that
are neither ignored nor fail are written in the order of the listing, and the report has one entry
for each class in that order and the counts of these entries. -/
theorem decompile_any_schedule (sy : Symbols) (s : Settings) (src : Source) (sink : Sink)
    (henc : s.encoding = "utf-8") (hroom : sink.fits (String.join (sources sy s src)).length) :
    (WellFounded fun q p => Pool.Step (Job.result sy s src) p q) ∧
    (∀ w p, Pool.Reaches (Job.result sy s src) (.start s.workers (jobs s src) w) p →
      ∃ q, Pool.Reaches (Job.result sy s src) p q ∧ q.IsDone) ∧
    ∀ schedule : Progress → Run, (∀ w, Pool.Ends sy s src w (schedule w)) →
      begun s sink none schedule = decompile sy s src false sink none ∧
      (begun s sink none schedule).error = none ∧
      (begun s sink none schedule).sink.content =
        sink.content ++ String.join (sources sy s src) ∧
      ∃ report, (begun s sink none schedule).report = some report ∧ report.Tells sy s src := by
  refine ⟨Pool.wellFounded_step _, fun w p => Pool.exists_done_of_reaches, fun schedule hs => ?_⟩
  have hschedule : schedule = runWith sy s src (results sy s src) :=
    funext fun w => Pool.ends_iff.mp (hs w)
  refine ⟨by simp only [hschedule, decompile, Bool.false_eq_true, if_false], ?_⟩
  rw [hschedule, begun_utf8 henc, runWith_utf8 hroom]
  exact ⟨rfl, rfl, _, rfl, tells_results sy s src (warnings src)⟩

/-- Two workers, and a class to be left out. -/
def twoWorkers : Settings := { Settings.default 2 with encoding := "utf-8", ignored := ["b"] }

/-- Three classes: one that is lifted, the one left out, and one whose lifting breaks down. -/
def threeClasses : Source :=
  .memory ("class 0 a : (null)\nclass_end\nclass 0 b : (null)\nclass_end\n" ++
    "class 0 c : (null)\npush_const 1\nhandler_end\nclass_end\n")

theorem decompile_threeClasses : ∃ report,
    (begun twoWorkers .unlimited none
      (runWith Lift.guardSymbols twoWorkers threeClasses
        (results Lift.guardSymbols twoWorkers threeClasses))).report = some report ∧
      report.entries.map (fun e => (e.name, e.line, e.outcome.status)) =
        [("a", 1, "OK"), ("b", 3, "IGNORED"), ("c", 5, "FAILED")] := by
  obtain ⟨-, -, h⟩ := decompile_any_schedule Lift.guardSymbols twoWorkers threeClasses
    .unlimited rfl rfl
  obtain ⟨-, -, -, report, hreport, htells⟩ := h _ fun _ => Pool.ends_iff.mpr rfl
  exact ⟨report, hreport, htells.entries.trans (by decide +kernel)⟩

end Batch

end ScriptLift
