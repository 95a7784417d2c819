import ScriptLift.Proofs.Lift.Quiet
import ScriptLift.Proofs.Lift.Trace

/-!
# What a handler has noted

Labels add to the labels met, the beginning of a handler to the texts of its string records, its end
drops both, and no other row touches them.

* `note`: what is noted after a row.
* `notes_step`: every row that is taken notes what it should.
* **`notes_trace`**: what is noted at a moment, from the moments before.
* **`mem_seen_moments`**, **`records_moments`**: the labels met and the records known.
-/

namespace ScriptLift.Lift

variable {sy : Symbols} {opts : Options} {c : Cursor} {st st' : State}

/-! ## All rows -/

/-- What is noted after a row is taken. -/
def note (n : List String × Table String String) (m : Moment) : List String × Table String String :=
  if m.does .label then (m.cursor.row.name :: n.1, n.2)
  else if m.does .handlerBegin then
    (n.1, (handlerRecords m.cursor.after).foldl (fun t (k, v) => t.put k v) n.2)
  else if m.does .handlerEnd then ([], [])
  else n

theorem does_eq {op : Opcode} (hm : st.mode ≠ .parameterText) :
    Moment.does op ⟨c, st⟩ = (c.row.opcode == op) := by
  simp [Moment.does, hm]

theorem notes_handlerBegin (h : handlerBegin sy c st = .ok st') : st'.notes =
    (st.seen, (handlerRecords c.after).foldl (fun t (k, v) => t.put k v) st.records) := by
  unfold handlerBegin at h
  split at h
  · cases h
  · split at h
    · cases h
    · split at h <;> cases h
      rfl

theorem notes_handlerEnd (h : handlerEnd st = .ok st') : st'.notes = ([], []) := by
  unfold handlerEnd at h
  split at h <;> cases h
  rfl

theorem notes_dispatch (hm : st.mode ≠ .parameterText) (h : dispatch sy opts c st = .ok st') :
    st'.notes = note st.notes ⟨c, st⟩ := by
  simp only [note, does_eq hm, beq_iff_eq]
  split_ifs with hlabel hbegin hend
  · simp only [dispatch, hlabel] at h
    exact quiet_closeAll.notes st' h
  · simp only [dispatch, hbegin] at h
    exact notes_handlerBegin h
  · simp only [dispatch, hend] at h
    exact notes_handlerEnd h
  · exact (quiet_dispatch hlabel hbegin hend).notes st' h

theorem notes_step (h : step sy opts c st = .ok st') : st'.notes = note st.notes ⟨c, st⟩ := by
  by_cases hm : st.mode = .parameterText
  · simp only [step, hm, Except.ok.injEq] at h
    subst h
    simp [note, Moment.does, hm, parameterText, State.notes]
  · rw [step_eq_dispatch hm] at h
    exact notes_dispatch hm h

/-! ## Runs -/

/-- **What is noted at a moment**, from the moments before. -/
theorem notes_trace {before rows : List Row} {earlier later : List Moment} {m : Moment}
    (h : trace sy opts before rows st = earlier ++ m :: later) :
    m.state.notes = earlier.foldl note st.notes := by
  induction rows generalizing before st earlier with
  | nil => simp [trace] at h
  | cons row after ih =>
    cases earlier with
    | nil =>
      rw [trace, List.nil_append, List.cons.injEq] at h
      rw [← h.1]
      rfl
    | cons x earlier =>
      cases hstep : step sy opts ⟨before, row, after⟩ st with
      | error e => simp [trace_error hstep] at h
      | ok st₁ =>
        rw [trace_ok hstep, List.cons_append, List.cons.injEq] at h
        obtain ⟨rfl, h⟩ := h
        rw [ih h, notes_step hstep, List.foldl_cons]

/-- A label was met after the last end of a handler. -/
def MetIn (ms : List Moment) (name : String) : Prop :=
  ∃ e k l, ms = e ++ k :: l ∧ k.does .label ∧ k.cursor.row.name = name ∧
    ∀ x ∈ l, x.does .handlerEnd = false

theorem not_metIn_nil (name : String) : ¬ MetIn [] name := by
  rintro ⟨e, k, l, h, -⟩
  simp at h

theorem does_unique {op op' : Opcode} {m : Moment} (h : m.does op) (hne : op ≠ op') :
    m.does op' = false := by
  simp only [Moment.does, Bool.and_eq_true, beq_iff_eq] at h
  simp [Moment.does, h.2, hne]

theorem metIn_concat {ms : List Moment} {m : Moment} {name : String} : MetIn (ms ++ [m]) name ↔
    (m.does .label ∧ m.cursor.row.name = name) ∨ (m.does .handlerEnd = false ∧ MetIn ms name) := by
  constructor
  · rintro ⟨e, k, l, h, hk, hname, hl⟩
    rcases List.eq_nil_or_concat l with rfl | ⟨l, x, rfl⟩
    · obtain ⟨rfl, hm⟩ := List.append_inj' h rfl
      obtain rfl := List.singleton_inj.mp hm
      exact .inl ⟨hk, hname⟩
    · have h : ms ++ [m] = (e ++ k :: l) ++ [x] := by simpa using h
      obtain ⟨rfl, hm⟩ := List.append_inj' h rfl
      obtain rfl := List.singleton_inj.mp hm
      exact .inr ⟨hl _ (by simp), e, k, l, rfl, hk, hname, fun x hx => hl x (by simp [hx])⟩
  · rintro (⟨hm, hname⟩ | ⟨hm, e, k, l, rfl, hk, hname, hl⟩)
    · exact ⟨ms, m, [], rfl, hm, hname, by simp⟩
    · refine ⟨e, k, l ++ [m], by simp, hk, hname, fun x hx => ?_⟩
      rcases List.mem_append.mp hx with hx | hx
      · exact hl x hx
      · exact List.mem_singleton.mp hx ▸ hm

theorem mem_foldl_note {ms : List Moment} {name : String} {t : Table String String} :
    name ∈ (ms.foldl note ([], t)).1 ↔ MetIn ms name := by
  induction ms using List.reverseRecOn with
  | nil => simp [not_metIn_nil]
  | append_singleton ms m ih =>
    rw [List.foldl_concat, metIn_concat, note]
    split_ifs with hlabel hbegin hend
    · simp [hlabel, does_unique hlabel, ih, eq_comm]
    · simp [hlabel, does_unique hbegin, ih]
    · simp [hlabel, hend]
    · simp [hlabel, hend, ih]

/-- **The labels met at a moment.** -/
theorem mem_seen_moments {l : Listing} {earlier later : List Moment} {m : Moment}
    (h : moments sy opts l = earlier ++ m :: later) {name : String} :
    name ∈ m.state.seen ↔ MetIn earlier name := by
  have hnotes := congrArg Prod.fst (notes_trace h)
  rw [← mem_foldl_note (t := []), show m.state.seen = _ from hnotes]
  rfl

/-- Between the ends of handlers labels are only added. -/
theorem metIn_append {ms inner : List Moment} (h : ∀ x ∈ inner, x.does .handlerEnd = false)
    {name : String} : MetIn (ms ++ inner) name ↔
      (∃ k ∈ inner, k.does .label ∧ k.cursor.row.name = name) ∨ MetIn ms name := by
  induction inner using List.reverseRecOn with
  | nil => simp
  | append_singleton inner m ih =>
    rw [← List.append_assoc, metIn_concat, ih fun x hx => h x (by simp [hx])]
    have hm := h m (by simp)
    simp only [hm, true_and, List.mem_append, List.mem_singleton]
    constructor
    · rintro (hlabel | ⟨k, hk, hlabel⟩ | hms)
      · exact .inl ⟨m, .inr rfl, hlabel⟩
      · exact .inl ⟨k, .inl hk, hlabel⟩
      · exact .inr hms
    · rintro (⟨k, hk | rfl, hlabel⟩ | hms)
      · exact .inr (.inl ⟨k, hk, hlabel⟩)
      · exact .inl hlabel
      · exact .inr (.inr hms)

/-- Between the beginnings and ends of handlers no record becomes known. -/
theorem records_foldl_note {ms : List Moment}
    (h : ∀ x ∈ ms, x.does .handlerBegin = false ∧ x.does .handlerEnd = false)
    (n : List String × Table String String) : (ms.foldl note n).2 = n.2 := by
  induction ms generalizing n with
  | nil => rfl
  | cons x ms ih =>
    obtain ⟨hbegin, hend⟩ := h x (by simp)
    rw [List.foldl_cons, ih (fun y hy => h y (by simp [hy])), note]
    split_ifs <;> simp_all

/-- **The records known at a moment** are those of its handler, over what was known before. -/
theorem records_moments {l : Listing} {earlier inner later : List Moment} {start m : Moment}
    (h : moments sy opts l = earlier ++ start :: (inner ++ m :: later))
    (hstart : start.does .handlerBegin)
    (hinner : ∀ x ∈ inner, x.does .handlerBegin = false ∧ x.does .handlerEnd = false) :
    m.state.records =
      (handlerRecords start.cursor.after).foldl (fun t (k, v) => t.put k v) start.state.records := by
  have hsplit : moments sy opts l = (earlier ++ start :: inner) ++ m :: later := by simpa using h
  have hnotes := congrArg Prod.snd (notes_trace hsplit)
  rw [List.foldl_append, List.foldl_cons, ← notes_trace h, records_foldl_note hinner, note,
    if_neg (by simp [does_unique hstart]), if_pos hstart] at hnotes
  exact hnotes

end ScriptLift.Lift
