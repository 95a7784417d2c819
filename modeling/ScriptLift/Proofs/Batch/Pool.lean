import ScriptLift.Batch.Run
import ScriptLift.Proofs.Batch.Collect

/-!
# Pools of workers

The jobs of a run are submitted one by one. Each waits for a free worker, is worked on next to
others, is counted, and sends its result through a channel to the collector. After the last job the
channel is closed. All this happens in any order that the steps of a pool allow.

* `Pool`, `Pool.Step`: where a pool stands, and what may happen next.
* `Pool.Flows`, `Pool.Counts`, `Pool.Totals`: no result is lost or doubled, and the counts are right.
* `Pool.exists_step`, `Pool.wellFounded_step`: a pool that is not done can go on, but not forever.
* **`Pool.run_eq`**: whatever the order, a pool that is done leaves the same behind.
-/

namespace ScriptLift.Batch

/-- How far the work on a job is. -/
inductive Stage where
  | started
  | processed (r : Result)
  | recorded (r : Result)
  | sent

/-- A job that a worker is busy with. -/
structure Task where
  number : Nat
  job : Job
  stage : Stage

/-- The counts with one more result. -/
def Stats.record (s : Stats) : Outcome → Stats
  | .ok _ => { s with completed := s.completed + 1 }
  | .failed _ => { s with failed := s.failed + 1 }
  | .ignored => { s with skipped := s.skipped + 1 }

namespace Stats

variable (s : Stats) (o : Outcome)

@[simp] theorem total_record : (s.record o).total = s.total := by cases o <;> rfl

@[simp] theorem active_record : (s.record o).active = s.active := by cases o <;> rfl

@[simp] theorem workers_record : (s.record o).workers = s.workers := by cases o <;> rfl

theorem completed_record : (s.record o).completed = s.completed + if o.isOk then 1 else 0 := by
  cases o <;> rfl

theorem failed_record : (s.record o).failed = s.failed + if o.isFailed then 1 else 0 := by
  cases o <;> rfl

theorem skipped_record : (s.record o).skipped = s.skipped + if o.isIgnored then 1 else 0 := by
  cases o <;> rfl

end Stats

/-- Where a pool stands. -/
structure Pool where
  /-- The jobs to be submitted, with their numbers. -/
  queue : List (Nat × Job)
  /-- The job that was submitted and waits for a free worker. -/
  blocked : Option (Nat × Job)
  running : List Task
  /-- The results on their way to the collector. -/
  channel : List (Nat × Result)
  closed : Bool
  collector : Collector Result Progress String
  stats : Stats

namespace Pool

/-- What may happen next in a pool, where `work` gives the result of a job. -/
inductive Step (work : Job → Result) : Pool → Pool → Prop
  | submit {p : Pool} {x : Nat × Job} {queue : List (Nat × Job)} (hq : p.queue = x :: queue)
      (hb : p.blocked = none) : Step work p
        { p with
          queue
          blocked := some x
          stats := { p.stats with total := p.stats.total + 1, active := p.stats.active + 1 } }
  | launch {p : Pool} {x : Nat × Job} (hb : p.blocked = some x)
      (hr : p.running.length < p.stats.workers) : Step work p
        { p with blocked := none, running := ⟨x.1, x.2, .started⟩ :: p.running }
  | process {p : Pool} {ts us : List Task} {n : Nat} {j : Job}
      (hr : p.running = ts ++ ⟨n, j, .started⟩ :: us) : Step work p
        { p with running := ts ++ ⟨n, j, .processed (work j)⟩ :: us }
  | record {p : Pool} {ts us : List Task} {n : Nat} {j : Job} {r : Result}
      (hr : p.running = ts ++ ⟨n, j, .processed r⟩ :: us) : Step work p
        { p with running := ts ++ ⟨n, j, .recorded r⟩ :: us, stats := p.stats.record r.outcome }
  /-- The channel has room for as many results as there are workers. -/
  | send {p : Pool} {ts us : List Task} {n : Nat} {j : Job} {r : Result}
      (hr : p.running = ts ++ ⟨n, j, .recorded r⟩ :: us)
      (hc : p.channel.length < p.stats.workers) : Step work p
        { p with running := ts ++ ⟨n, j, .sent⟩ :: us, channel := p.channel ++ [(n, r)] }
  | finish {p : Pool} {ts us : List Task} {n : Nat} {j : Job}
      (hr : p.running = ts ++ ⟨n, j, .sent⟩ :: us) : Step work p
        { p with running := ts ++ us, stats := { p.stats with active := p.stats.active - 1 } }
  | receive {p : Pool} {d : Nat × Result} {channel : List (Nat × Result)}
      (hc : p.channel = d :: channel) : Step work p
        { p with channel, collector := p.collector.deliver emit d }
  | close {p : Pool} (hq : p.queue = []) (hb : p.blocked = none) (hr : p.running = [])
      (hc : p.closed = false) : Step work p { p with closed := true }

/-- Whether the collector was given all that it will be given. -/
def IsDone (p : Pool) : Prop := p.closed = true ∧ p.channel = []

/-! ## What is on its way -/

section

variable (work : Job → Result)

def delivery (x : Nat × Job) : Nat × Result := (x.1, work x.2)

/-- The result that a task has still to send. -/
def delivery? (t : Task) : Option (Nat × Result) :=
  match t.stage with
  | .started => some (t.number, work t.job)
  | .processed r | .recorded r => some (t.number, r)
  | .sent => none

/-- The result of a task that is not counted yet. -/
def uncounted? (t : Task) : Option Result :=
  match t.stage with
  | .started => some (work t.job)
  | .processed r => some r
  | .recorded _ | .sent => none

/-- The results that the collector has still to receive. -/
def undelivered (p : Pool) : List (Nat × Result) :=
  p.channel ++ (p.running.filterMap (delivery? work) ++
    (p.blocked.toList ++ p.queue).map (delivery work))

/-- The results that are not counted yet. -/
def uncounted (p : Pool) : List Result :=
  p.running.filterMap (uncounted? work) ++ (p.blocked.toList ++ p.queue).map fun x => work x.2

/-- No result is lost or doubled on its way to the collector, which was given `got`. -/
structure Flows (all : List (Nat × Job)) (start : Progress) (got : List (Nat × Result)) (p : Pool) :
    Prop where
  collector : p.collector = got.foldl (Collector.deliver emit) (.start start)
  delivered : (got ++ p.undelivered work).Perm (all.map (delivery work))

/-- Every result is counted once, so far those in `counted`. -/
structure Counts (all : List (Nat × Job)) (counted : List Result) (p : Pool) : Prop where
  results : (counted ++ p.uncounted work).Perm (all.map fun x => work x.2)
  completed : p.stats.completed = counted.countP (·.outcome.isOk)
  failed : p.stats.failed = counted.countP (·.outcome.isFailed)
  skipped : p.stats.skipped = counted.countP (·.outcome.isIgnored)

/-- The jobs that were submitted and are under way are counted, and none of them is under way once
the channel is closed. -/
structure Totals (all : List (Nat × Job)) (workers : Nat) (p : Pool) : Prop where
  total : p.stats.total + p.queue.length = all.length
  active : p.stats.active = p.blocked.toList.length + p.running.length
  workers : p.stats.workers = workers
  closed : p.closed = true → p.queue = [] ∧ p.blocked = none ∧ p.running = []

end

variable {work : Job → Result} {all : List (Nat × Job)} {start : Progress} {workers : Nat}
  {got : List (Nat × Result)} {counted : List Result} {p q : Pool}

theorem Flows.step (h : Flows work all start got p) (hs : Step work p q) :
    ∃ got', Flows work all start got' q := by
  obtain ⟨hcollector, hdelivered⟩ := h
  cases hs with
  | submit hq hb => exact ⟨got, hcollector, by simpa [undelivered, hq, hb] using hdelivered⟩
  | launch hb =>
    refine ⟨got, hcollector, List.Perm.trans ?_ hdelivered⟩
    simp only [undelivered, hb, Option.toList_some, Option.toList_none, List.singleton_append,
      List.nil_append, List.map_cons]
    exact (List.perm_middle.symm.append_left _).append_left _
  | process hr =>
    exact ⟨got, hcollector, by
      simpa [undelivered, hr, delivery?, List.filterMap_cons] using hdelivered⟩
  | record hr =>
    exact ⟨got, hcollector, by
      simpa [undelivered, hr, delivery?, List.filterMap_cons] using hdelivered⟩
  | @send ts us n j r hr =>
    refine ⟨got, hcollector, List.Perm.trans ?_ hdelivered⟩
    simp only [undelivered, hr, List.filterMap_append, List.filterMap_cons, delivery?,
      List.append_assoc, List.cons_append, List.nil_append]
    exact (List.perm_middle.symm.append_left _).append_left _
  | finish hr =>
    exact ⟨got, hcollector, by
      simpa [undelivered, hr, delivery?, List.filterMap_cons] using hdelivered⟩
  | @receive d channel hc =>
    refine ⟨got ++ [d], ?_, ?_⟩
    · rw [List.foldl_append, hcollector]
      rfl
    · simpa [undelivered, hc] using hdelivered
  | close => exact ⟨got, hcollector, hdelivered⟩

theorem Counts.step (h : Counts work all counted p) (hs : Step work p q) :
    ∃ counted', Counts work all counted' q := by
  obtain ⟨hcounted, hok, hfailed, hskipped⟩ := h
  cases hs with
  | submit hq hb =>
    exact ⟨counted, by simpa [uncounted, hq, hb] using hcounted, hok, hfailed, hskipped⟩
  | launch hb =>
    refine ⟨counted, List.Perm.trans ?_ hcounted, hok, hfailed, hskipped⟩
    simp only [uncounted, hb, Option.toList_some, Option.toList_none, List.singleton_append,
      List.nil_append, List.map_cons]
    exact List.perm_middle.symm.append_left _
  | process hr =>
    exact ⟨counted, by simpa [uncounted, hr, uncounted?, List.filterMap_cons] using hcounted, hok,
      hfailed, hskipped⟩
  | @record ts us n j r hr =>
    refine ⟨counted ++ [r], List.Perm.trans ?_ hcounted, ?_, ?_, ?_⟩
    · simp only [uncounted, hr, List.filterMap_append, List.filterMap_cons, uncounted?,
        List.append_assoc, List.cons_append, List.nil_append]
      exact List.perm_middle.symm.append_left _
    · rw [List.countP_append, ← hok, Stats.completed_record, List.countP_singleton]
    · rw [List.countP_append, ← hfailed, Stats.failed_record, List.countP_singleton]
    · rw [List.countP_append, ← hskipped, Stats.skipped_record, List.countP_singleton]
  | send hr =>
    exact ⟨counted, by simpa [uncounted, hr, uncounted?, List.filterMap_cons] using hcounted, hok,
      hfailed, hskipped⟩
  | finish hr =>
    exact ⟨counted, by simpa [uncounted, hr, uncounted?, List.filterMap_cons] using hcounted, hok,
      hfailed, hskipped⟩
  | receive hc => exact ⟨counted, hcounted, hok, hfailed, hskipped⟩
  | close => exact ⟨counted, hcounted, hok, hfailed, hskipped⟩

theorem Totals.step (h : Totals all workers p) (hs : Step work p q) : Totals all workers q := by
  obtain ⟨htotal, hactive, hworkers, hclosed⟩ := h
  cases hs with
  | submit hq hb =>
    rw [hq] at htotal hclosed
    rw [hb] at hactive
    exact ⟨by simp at htotal ⊢; omega, by simp at hactive ⊢; omega, hworkers, by simpa using hclosed⟩
  | launch hb =>
    rw [hb] at hactive hclosed
    exact ⟨htotal, by simp at hactive ⊢; omega, hworkers, by simpa using hclosed⟩
  | process hr | record hr | send hr =>
    rw [hr] at hactive hclosed
    exact ⟨by simpa using htotal, by simpa using hactive, by simpa using hworkers,
      by simpa using hclosed⟩
  | finish hr =>
    rw [hr] at hactive hclosed
    have hopen : p.closed = false := by simpa using hclosed
    exact ⟨htotal, by simp at hactive ⊢; omega, hworkers, by simp [hopen]⟩
  | receive => exact ⟨htotal, hactive, hworkers, hclosed⟩
  | close hq hb hr => exact ⟨htotal, hactive, hworkers, fun _ => ⟨hq, hb, hr⟩⟩

/-! ## Going on -/

/-- The steps that are left of a task. -/
def left? : Stage → Nat
  | .started => 6
  | .processed _ => 5
  | .recorded _ => 4
  | .sent => 1

def left (p : Pool) : Nat :=
  8 * p.queue.length + 7 * p.blocked.toList.length + (p.running.map (left? ·.stage)).sum +
    2 * p.channel.length + if p.closed then 0 else 1

theorem left_lt (h : Step work p q) : q.left < p.left := by
  cases h with
  | submit hq hb => simp [left, hq, hb]; omega
  | launch hb => simp [left, hb, left?]; omega
  | process hr | record hr | finish hr => simp [left, hr, left?]
  | send hr => simp [left, hr, left?]; omega
  | receive hc => simp [left, hc]
  | close _ _ _ hc => simp [left, hc]

/-- **A pool does not go on forever.** -/
theorem wellFounded_step (work : Job → Result) : WellFounded fun q p => Step work p q :=
  Subrelation.wf left_lt (measure left).wf

/-- **A pool that is not done can go on.** -/
theorem exists_step (work : Job → Result) (hw : 0 < p.stats.workers) :
    p.IsDone ∨ ∃ q, Step work p q := by
  cases hr : p.running with
  | cons t ts =>
    obtain ⟨n, j, stage⟩ := t
    have hr' : p.running = [] ++ ⟨n, j, stage⟩ :: ts := hr
    cases stage with
    | started => exact .inr ⟨_, .process hr'⟩
    | processed r => exact .inr ⟨_, .record hr'⟩
    | sent => exact .inr ⟨_, .finish hr'⟩
    | recorded r =>
      -- A worker that waits for room in the channel waits for the collector, which can go on.
      cases hc : p.channel with
      | nil => exact .inr ⟨_, .send hr' (by simpa [hc] using hw)⟩
      | cons d channel => exact .inr ⟨_, .receive hc⟩
  | nil =>
    cases hb : p.blocked with
    | some x => exact .inr ⟨_, .launch hb (by simpa [hr] using hw)⟩
    | none =>
      cases hq : p.queue with
      | cons x queue => exact .inr ⟨_, .submit hq hb⟩
      | nil =>
        cases hclosed : p.closed with
        | false => exact .inr ⟨_, .close hq hb hr hclosed⟩
        | true =>
          cases hc : p.channel with
          | nil => exact .inl ⟨hclosed, hc⟩
          | cons d channel => exact .inr ⟨_, .receive hc⟩

/-- What can happen in a pool, step by step. -/
abbrev Reaches (work : Job → Result) : Pool → Pool → Prop := Relation.ReflTransGen (Step work)

theorem exists_done (h : Totals all workers p) (hw : 0 < workers) :
    ∃ q, Reaches work p q ∧ q.IsDone := by
  induction p using (wellFounded_step work).induction with
  | _ p ih =>
    rcases exists_step work (h.workers ▸ hw) with hd | ⟨q, hs⟩
    · exact ⟨p, .refl, hd⟩
    · obtain ⟨q', hq, hd⟩ := ih q hs (h.step hs)
      exact ⟨q', .head hs hq, hd⟩

end Pool

/-! ## Runs of pools -/

/-- Elements with their places. -/
def placed {α : Type} (xs : List α) : List (Nat × α) := xs.zipIdx.map Prod.swap

theorem mem_placed {α : Type} {xs : List α} {d : Nat × α} : d ∈ placed xs ↔ xs[d.1]? = some d.2 := by
  simp only [placed, List.mem_map, Prod.exists]
  constructor
  · rintro ⟨x, i, hx, rfl⟩
    exact List.mem_zipIdx_iff_getElem?.mp hx
  · intro h
    exact ⟨d.2, d.1, List.mem_zipIdx_iff_getElem?.mpr h, rfl⟩

theorem map_delivery_placed (work : Job → Result) (js : List Job) :
    (placed js).map (Pool.delivery work) = placed (js.map work) := by
  simp [placed, List.zipIdx_map, Pool.delivery, Function.comp_def]

theorem map_snd_placed {α β : Type} (f : α → β) (xs : List α) :
    ((placed xs).map fun x => f x.2) = xs.map f := by
  have : (placed xs).map Prod.snd = xs := by simp [placed, Function.comp_def]
  calc (placed xs).map (fun x => f x.2) = ((placed xs).map Prod.snd).map f := by simp
    _ = xs.map f := by rw [this]

theorem map_snd_results (sy : Symbols) (s : Settings) (src : Source) :
    (results sy s src).map Prod.snd = (jobs s src).map (Job.result sy s src) :=
  (map_snd_placed id _).trans (List.map_id _)

theorem collect_placed {ρ σ ε : Type} (emit : ρ → σ → σ × Option ε) (s : σ) {rs : List ρ}
    {deliveries : List (Nat × ρ)} (h : deliveries.Perm (placed rs)) :
    collect emit s deliveries = handled emit s rs := by
  refine collect_all emit s (fun d hd => mem_placed.mp (h.mem_iff.mp hd)) fun i hi => ?_
  have hmem : (i, rs[i]) ∈ placed rs := mem_placed.mpr (List.getElem?_eq_getElem hi)
  exact List.mem_map.mpr ⟨_, h.mem_iff.mpr hmem, rfl⟩

namespace Pool

def start (workers : Int) (js : List Job) (w : Progress) : Pool :=
  ⟨placed js, none, [], [], false, .start w, .ofResults workers []⟩

def run (src : Source) (p : Pool) : Run :=
  conclude p.collector.state p.collector.stopped none (warnings src) p.stats

variable {work : Job → Result} {js : List Job} {workers : Int} {w : Progress} {p : Pool}

theorem totals_of_reaches (h : Reaches work (start workers js w) p) :
    Totals (placed js) (Stats.ofResults workers []).workers p := by
  induction h with
  | refl => exact ⟨by simp [start, Stats.ofResults], by simp [start, Stats.ofResults], rfl, nofun⟩
  | tail _ hs ih => exact ih.step hs

theorem workers_pos (workers : Int) (rs : List Result) : 0 < (Stats.ofResults workers rs).workers := by
  unfold Stats.ofResults
  dsimp only
  split <;> omega

theorem exists_done_of_reaches (h : Reaches work (start workers js w) p) :
    ∃ q, Reaches work p q ∧ q.IsDone :=
  exists_done (totals_of_reaches h) (workers_pos workers [])

theorem flows_of_reaches (h : Reaches work (start workers js w) p) :
    ∃ got, Flows work (placed js) w got p := by
  induction h with
  | refl => exact ⟨[], rfl, by simp [start, undelivered]⟩
  | tail _ hs ih =>
    obtain ⟨got, hgot⟩ := ih
    exact hgot.step hs

theorem counts_of_reaches (h : Reaches work (start workers js w) p) :
    ∃ counted, Counts work (placed js) counted p := by
  induction h with
  | refl => exact ⟨[], by simp [start, uncounted], rfl, rfl, rfl⟩
  | tail _ hs ih =>
    obtain ⟨counted, hcounted⟩ := ih
    exact hcounted.step hs

/-- The collector of a pool that is done handled all results in order. -/
theorem collector_of_done (h : Reaches work (start workers js w) p) (hd : p.IsDone) :
    (p.collector.state, p.collector.stopped) = handled emit w (js.map work) := by
  obtain ⟨hq, hb, hr⟩ := (totals_of_reaches h).closed hd.1
  obtain ⟨got, hcollector, hdelivered⟩ := flows_of_reaches h
  have hgot : got.Perm (placed (js.map work)) := by
    rw [← map_delivery_placed]
    simpa [undelivered, hq, hb, hr, hd.2] using hdelivered
  rw [hcollector]
  exact collect_placed emit w hgot

/-- The counts of a pool that is done are those of all results. -/
theorem stats_of_done (h : Reaches work (start workers js w) p) (hd : p.IsDone) :
    p.stats = .ofResults workers (js.map work) := by
  obtain ⟨htotal, hactive, hworkers, hclosed⟩ := totals_of_reaches h
  obtain ⟨hq, hb, hr⟩ := hclosed hd.1
  obtain ⟨counted, hresults, hok, hfailed, hskipped⟩ := counts_of_reaches h
  have hperm : counted.Perm (js.map work) := by
    rw [map_snd_placed] at hresults
    simpa [uncounted, hq, hb, hr] using hresults
  rw [hperm.countP_eq] at hok hfailed hskipped
  have htotal' : p.stats.total = (js.map work).length := by simpa [hq, placed] using htotal
  have hactive' : p.stats.active = 0 := by simpa [hb, hr] using hactive
  -- All fields of the counts are known now.
  obtain ⟨queue, blocked, running, channel, closed, collector, total, active, completed, failed,
    skipped, n⟩ := p
  simp only at htotal' hactive' hok hfailed hskipped hworkers
  simp only [Stats.ofResults, htotal', hactive', hok, hfailed, hskipped, hworkers]

/-- **Whatever the order**, a pool that is done leaves behind what a run that handles one job after
the other does. -/
theorem run_eq (sy : Symbols) (s : Settings) (src : Source)
    (h : Reaches (Job.result sy s src) (start s.workers (jobs s src) w) p) (hd : p.IsDone) :
    p.run src = runWith sy s src (results sy s src) w := by
  have hgather : gather w (results sy s src) =
      handled emit w ((jobs s src).map (Job.result sy s src)) :=
    collect_placed emit w (.refl _)
  unfold run runWith
  rw [hgather, ← collector_of_done h hd, stats_of_done h hd, map_snd_results]

end Pool

end ScriptLift.Batch
