import ScriptLift.Proofs.Lift.Event
import ScriptLift.Proofs.Lift.Full

/-!
# Moves of a state

Every row changes the state by a few moves, each of which touches one thing. What a move keeps, a
run keeps.

* `State.WellFormed`: all that rows take for granted is there: values, tables and texts, blocks.
* `Move`: one change of a state, with what it brings about; `Moves`: several of them.
* `Move.stay`: no move takes a statement away, but for expression statements.
* **`Moves.wellFormed`**: moves lead from well-formed states to well-formed states.
* **`Moves.count`**: the tree gains the statements that are made, and no others.
-/

namespace ScriptLift.Lift

/-! ## Well-formed states -/

/-- No value is absent, on the stack or in a block. -/
structure State.Values (st : State) : Prop where
  operands : ∀ e ∈ st.operands, e.isWhole
  bodies : ∀ h ∈ st.handlers, Stmt.areFull h.body

/-- What the rows of declaration sections add to is there. -/
structure Sections (mode : Mode) (decl : Option ClassDecl) : Prop where
  /-- The table of an open table section, unless its class was replaced. -/
  table : ∀ kind, mode = .table kind false →
    ∃ d p, decl = some d ∧ d.properties.getLast? = some p ∧ p.type = kind.typeName
  /-- The text of a default that goes on. -/
  text : mode = .parameterText →
    ∃ d p s, decl = some d ∧ d.parameters.getLast? = some p ∧ p.value = .str s
  defaults : ∀ d, decl = some d → ∀ p ∈ d.parameters, p.value.isHole || p.value.isWhole

/-- The statement of an open conditional or select is there, with its branches or arms. -/
def Open.Placed (hs : List Handler) : Open → Prop
  | conditional s => ∃ c yes no, stmtAt? hs s = some (.ifElse c yes no)
  | select s e n => ∃ cases, stmtAt? hs s = some (.select e cases) ∧ n ≤ cases.length
  | _ => True

/-- All blocks and open statements are parts of the handlers. -/
structure State.Places (st : State) : Prop where
  blocks : ∀ a ∈ st.blocks, (getBlock? st.handlers a).isSome
  statements : ∀ o ∈ st.statements, o.Placed st.handlers
  handlers : st.decl = none → st.handlers = []

/-- All that rows take for granted is there. -/
structure State.WellFormed (st : State) : Prop where
  values : st.Values
  sections : Sections st.mode st.decl
  places : st.Places

theorem State.wellFormed_initial : State.initial.WellFormed where
  values := ⟨by simp [State.initial], by simp [State.initial]⟩
  sections := ⟨by simp [State.initial], by simp [State.initial], by simp [State.initial]⟩
  places := ⟨by simp [State.initial], by simp [State.initial], by simp [State.initial]⟩

theorem Open.Placed.mono {hs hs' : List Handler} {o : Open} (ho : o.Placed hs) (h : HandlersStay hs hs') :
    o.Placed hs' := by
  cases o <;> try trivial
  case conditional s =>
    obtain ⟨c, yes, no, hs⟩ := ho
    obtain ⟨x, hx, hg⟩ := h.stmtAt? hs rfl
    have hbare := hg.bare
    cases x <;> simp [Stmt.bare] at hbare
    exact ⟨_, _, _, hx⟩
  case select s e n =>
    obtain ⟨cases, hs, hn⟩ := ho
    obtain ⟨x, hx, hg⟩ := h.stmtAt? hs rfl
    have hbare := hg.bare
    have harms := hg.arms
    cases x <;> simp [Stmt.bare] at hbare
    subst hbare
    exact ⟨_, hx, hn.trans harms⟩

namespace State

variable (st : State) (a : Address)

@[simp] theorem mode_redirect : (st.redirect a).mode = st.mode := by unfold redirect; split <;> rfl

@[simp] theorem operands_redirect : (st.redirect a).operands = st.operands := by
  unfold redirect; split <;> rfl

@[simp] theorem decl_redirect : (st.redirect a).decl = st.decl := by unfold redirect; split <;> rfl

@[simp] theorem handlers_redirect : (st.redirect a).handlers = st.handlers := by
  unfold redirect; split <;> rfl

@[simp] theorem first_redirect : (st.redirect a).first = st.first := by unfold redirect; split <;> rfl

variable {st a} in
theorem mem_blocks_redirect {x : Address} (h : x ∈ (st.redirect a).blocks) :
    x = a ∨ x ∈ st.blocks.tail := by
  unfold redirect at h
  split at h
  · rename_i hb
    simp [hb] at h
  · rename_i hb
    simpa [hb] using h

end State

/-! ## Moves -/

/-- An open statement with the body that is filled first, for a statement just added. -/
inductive Opens (p : StmtAddress) : Stmt → Open → Slot → Prop
  | conditional (c : Expr) : Opens p (.ifElse c [] []) (.conditional p) .yes
  | whileLoop (c : Expr) : Opens p (.whileLoop c []) (.whileLoop p) .loop
  | forLoop (i c u : Expr) : Opens p (.forLoop i c u []) (.forLoop p) .loop
  | select (e v : Expr) : Opens p (.select e [.mk v []]) (.select p e 1) (.arm 0)

/-- Whether a statement has neither expressions nor bodies. -/
def isSingle : Stmt → Bool
  | .ret | .brk | .super _ => true
  | _ => false

/-- One change of a state, with what it brings about. -/
inductive Move : State → List Event → State → Prop
  /-- Declarations, labels and known names may change. -/
  | aside {st st' : State} (operands : st'.operands = st.operands)
      (statements : st'.statements = st.statements) (blocks : st'.blocks = st.blocks)
      (bodies : st'.handlers.map Handler.body = st.handlers.map Handler.body)
      (first : st'.first = st.first) (decl : st'.decl.isSome = st.decl.isSome)
      (sections : Sections st.mode st.decl → Sections st'.mode st'.decl) : Move st [] st'
  | newClass {st : State} {d : ClassDecl} (hm : st.mode ≠ .parameterText) (hd : d.parameters = []) :
      Move st [.newClass] (setClass d st)
  | push {st : State} {e : Expr} (he : e.isWhole) : Move st [] (st.push e)
  | drop {st : State} {rest : List Expr} (h : rest <:+ st.operands) :
      Move st [] { st with operands := rest }
  /-- The expression statement at the end of the current block is taken back. -/
  | take {st : State} {a : Address} {as : List Address} {b : List Stmt} {e : Expr}
      (ha : st.blocks = a :: as) (hb : getBlock? st.handlers a = some (b ++ [.eval e])) :
      Move st [] { st with handlers := modifyBlock st.handlers a List.dropLast }
  | eval {st : State} {a : Address} {as : List Address} {e : Expr} (ha : st.blocks = a :: as)
      (he : e.isWhole) :
      Move st [] { st with handlers := modifyBlock st.handlers a (· ++ [.eval e]) }
  | leave {st : State} {a : Address} {as : List Address} {s : Stmt} {k : Kind}
      (ha : st.blocks = a :: as) (hs : isSingle s) (hk : s.kind? = some k) :
      Move st [.made k] { st with handlers := modifyBlock st.handlers a (· ++ [s]) }
  /-- A compound statement is added and its first body becomes the current block. -/
  | enter {st st₁ : State} {p : StmtAddress} {s : Stmt} {o : Open} {slot : Slot} {k : Kind}
      (hadd : st.addAt s = .ok (st₁, p)) (ho : Opens p s o slot) (hk : s.kind? = some k)
      (hs : s.isFull) : Move st [.made k] (st₁.enter o (p.body slot))
  /-- The innermost select gets a further arm, which becomes the current block. -/
  | arm {st : State} {s : StmtAddress} {e v : Expr} {n : Nat} {os : List Open}
      (hs : st.statements = .select s e n :: os) (hv : v.isWhole) :
      Move st [] (State.redirect
        { st with
          handlers := modifyBlock st.handlers s.block
            fun b => b.modify s.index (Stmt.addCase (.mk v []))
          statements := .select s e (n + 1) :: os }
        (s.body (.arm n)))
  | mark {st : State} : Move st [] { st with statements := .pendingFor :: st.statements }
  | unmark {st : State} {o : Open} {os : List Open} (hs : st.statements = o :: os)
      (ho : o.own? = none) : Move st [] { st with statements := os }
  /-- A select whose next comparison is awaited. -/
  | await {st : State} {s : StmtAddress} {e : Expr} {n : Nat} {os : List Open}
      (hs : st.statements = .select s e n :: os) :
      Move st [.closed ⟨.select s e n, st.blocks, st.blocks⟩]
        { st with statements := .pendingCase :: .select s e n :: os }
  /-- The second branch of a conditional becomes the current block. -/
  | turn {st : State} {s : StmtAddress} {os : List Open} (hs : st.statements = .conditional s :: os) :
      Move st
        [.closed ⟨.conditional s, st.blocks,
          (State.redirect { st with statements := .pendingElse s :: os } (s.body .no)).blocks⟩]
        (State.redirect { st with statements := .pendingElse s :: os } (s.body .no))
  | close {st : State} {o : Open} {os : List Open} (hs : st.statements = o :: os) :
      Move st [.closed ⟨o, st.blocks, st.blocks.tail⟩] (State.leaveBlock { st with statements := os })
  | newHandler {st : State} (name : String) (hd : st.decl ≠ none) :
      Move st [.newHandler] (State.enter
        { st with handlers := st.handlers ++ [⟨name, [], []⟩] }
        (.handler st.handlers.length) ⟨st.handlers.length, []⟩)
  | leaveHandler {st : State} : Move st [] st.leaveHandler

namespace Move

variable {st st' : State} {evs : List Event}

theorem addAt_inv {s : Stmt} {p : StmtAddress} (h : st.addAt s = .ok (st', p)) :
    ∃ a as, st.blocks = a :: as ∧ p = ⟨a, ((getBlock? st.handlers a).getD []).length⟩ ∧
      st' = { st with handlers := modifyBlock st.handlers a (· ++ [s]) } := by
  unfold State.addAt at h
  split at h
  · simp at h
  · rename_i a as ha
    simp only [Except.ok.injEq, Prod.mk.injEq] at h
    exact ⟨a, as, ha, h.2.symm, h.1.symm⟩

/-- **A move takes no statement away**, but for expression statements. -/
theorem stay (h : Move st evs st') : HandlersStay st.handlers st'.handlers := by
  cases h with
  | aside _ _ _ bodies => exact .of_bodies bodies
  | newClass | push | drop | mark | unmark | await | close | leaveHandler => exact .refl _
  | take ha hb =>
    refine handlersStay_modifyBlock fun b' hb' => ?_
    rw [hb, Option.some.injEq] at hb'
    subst hb'
    rw [List.dropLast_concat]
    exact staysWhole_dropLast _ _
  | eval | leave => exact handlersStay_modifyBlock fun b _ => staysWhole_append b _
  | enter hadd =>
    obtain ⟨a, as, -, -, rfl⟩ := addAt_inv hadd
    exact handlersStay_modifyBlock fun b _ => staysWhole_append b _
  | arm =>
    rw [State.handlers_redirect]
    exact handlersStay_modifyBlock fun b _ => staysWhole_addCase b _ _
  | turn => rw [State.handlers_redirect]; exact .refl _
  | newHandler => exact .append _ _

theorem values (h : Move st evs st') (hv : st.Values) : st'.Values := by
  obtain ⟨ho, hb⟩ := hv
  cases h with
  | aside operands _ _ bodies =>
    refine ⟨operands ▸ ho, fun x hx => ?_⟩
    have hmem : x.body ∈ st.handlers.map Handler.body := bodies ▸ List.mem_map_of_mem hx
    obtain ⟨y, hy, hxy⟩ := List.mem_map.mp hmem
    exact hxy ▸ hb y hy
  | newClass | mark | unmark | await | close => exact ⟨ho, hb⟩
  | push he =>
    refine ⟨fun e h => ?_, hb⟩
    rcases List.mem_cons.mp h with rfl | h
    · exact he
    · exact ho e h
  | drop h => exact ⟨fun e he => ho e (h.subset he), hb⟩
  | take => exact ⟨ho, areFull_modifyBlock hb .dropLast _⟩
  | eval _ he => exact ⟨ho, areFull_modifyBlock hb (.append (s := .eval _) he) _⟩
  | leave _ hs =>
    refine ⟨ho, areFull_modifyBlock hb (.append ?_) _⟩
    unfold isSingle at hs
    split at hs <;> simp_all [Stmt.isFull]
  | enter hadd _ _ hs =>
    obtain ⟨a, as, -, -, rfl⟩ := addAt_inv hadd
    exact ⟨ho, areFull_modifyBlock hb (.append hs) _⟩
  | arm _ hv =>
    exact ⟨by rwa [State.operands_redirect],
      by rw [State.handlers_redirect]; exact areFull_modifyBlock hb (.addCase hv _) _⟩
  | turn => exact ⟨by rwa [State.operands_redirect], by rwa [State.handlers_redirect]⟩
  | newHandler =>
    refine ⟨ho, fun x hx => ?_⟩
    rcases List.mem_append.mp hx with hx | hx
    · exact hb x hx
    · obtain rfl := List.mem_singleton.mp hx
      rfl
  | leaveHandler => exact ⟨by simp [State.leaveHandler], hb⟩

theorem sections (h : Move st evs st') (hs : Sections st.mode st.decl) :
    Sections st'.mode st'.decl := by
  cases h with
  | aside _ _ _ _ _ _ sections => exact sections hs
  | newClass hm hd =>
    refine ⟨fun kind hm' => ?_, fun hm' => ?_, fun d' hd' p hp => ?_⟩
    · cases hmode : st.mode <;> simp [setClass, hmode] at hm'
    · cases hmode : st.mode <;> simp [setClass, hmode] at hm'
      exact absurd hmode hm
    · obtain rfl := Option.some.inj hd'
      simp [hd] at hp
  | enter hadd =>
    obtain ⟨a, as, -, -, rfl⟩ := addAt_inv hadd
    exact hs
  | arm | turn => rwa [State.mode_redirect, State.decl_redirect]
  | _ => exact hs

/-- The first body of a statement just added to a block. -/
theorem opened {p : StmtAddress} {s : Stmt} {o : Open} {slot : Slot} (hp : st.Places)
    (hadd : st.addAt s = .ok (st', p)) (ho : Opens p s o slot) :
    (getBlock? st'.handlers (p.body slot)).isSome ∧ o.Placed st'.handlers := by
  obtain ⟨a, as, ha, rfl, rfl⟩ := addAt_inv hadd
  obtain ⟨b, hb⟩ := Option.isSome_iff_exists.mp (hp.blocks a (by simp [ha]))
  have hat : stmtAt? (modifyBlock st.handlers a (· ++ [s])) ⟨a, b.length⟩ = some s := by
    simp [stmtAt?, getBlock?_modifyBlock, hb]
  have hbody := getBlock?_body_last hb s slot
  simp only [hb, Option.getD_some] at ho ⊢
  rw [hbody]
  cases ho with
  | conditional c => exact ⟨rfl, c, [], [], hat⟩
  | whileLoop | forLoop => exact ⟨rfl, trivial⟩
  | select e v => exact ⟨rfl, _, hat, Nat.le_refl _⟩

theorem places (h : Move st evs st') (hp : st.Places) : st'.Places := by
  have hk := h.stay
  have hold : ∀ o ∈ st.statements, o.Placed st'.handlers := fun o ho => (hp.statements o ho).mono hk
  cases h with
  | aside _ statements blocks bodies _ decl =>
    refine ⟨fun a ha => hk.getBlock? (hp.blocks a (blocks ▸ ha)), statements ▸ hold, fun hd => ?_⟩
    have hst : st.handlers = [] := hp.handlers (by simpa [hd] using decl)
    simpa [hst] using bodies
  | newClass => exact ⟨hp.blocks, hp.statements, by simp [setClass]⟩
  | push | drop => exact ⟨hp.blocks, hp.statements, hp.handlers⟩
  | take | eval | leave =>
    refine ⟨fun a ha => hk.getBlock? (hp.blocks a ha), hold, fun hd => ?_⟩
    have hst : st.handlers = [] := hp.handlers hd
    simp [hst, modifyBlock]
  | enter hadd ho =>
    obtain ⟨hbody, hplaced⟩ := opened hp hadd ho
    obtain ⟨a, as, ha, rfl, rfl⟩ := addAt_inv hadd
    refine ⟨fun x hx => ?_, fun x hx => ?_, fun hd => ?_⟩
    · rcases List.mem_cons.mp hx with rfl | hx
      · exact hbody
      · exact hk.getBlock? (hp.blocks x hx)
    · rcases List.mem_cons.mp hx with rfl | hx
      · exact hplaced
      · exact hold x hx
    · have hst : st.handlers = [] := hp.handlers hd
      simp [State.enter, hst, modifyBlock]
  | @arm s e v n os hs =>
    obtain ⟨cases, hat, hn⟩ := hp.statements _ (by rw [hs]; exact List.mem_cons_self)
    have hat' := stmtAt?_modify hat (Stmt.addCase (.mk v []))
    refine ⟨fun x hx => ?_, fun x hx => ?_, fun hd => ?_⟩
    · rcases State.mem_blocks_redirect hx with rfl | hx
      · rw [State.handlers_redirect, getBlock?_body_stmtAt?, hat']
        simp [Stmt.addCase, Stmt.body?, hn]
      · exact hk.getBlock? (hp.blocks x (List.mem_of_mem_tail hx))
    · rw [State.statements_redirect, List.mem_cons] at hx
      rcases hx with rfl | hx
      · rw [State.handlers_redirect]
        exact ⟨_, hat', by simpa using hn⟩
      · exact hold x (by rw [hs]; exact List.mem_cons_of_mem _ hx)
    · have hst : st.handlers = [] := hp.handlers (by simpa using hd)
      simp [hst, modifyBlock]
  | mark =>
    refine ⟨hp.blocks, fun x hx => ?_, hp.handlers⟩
    rcases List.mem_cons.mp hx with rfl | hx
    · trivial
    · exact hp.statements x hx
  | unmark hs =>
    exact ⟨hp.blocks, fun x hx => hp.statements x (by rw [hs]; exact List.mem_cons_of_mem _ hx),
      hp.handlers⟩
  | await hs =>
    refine ⟨hp.blocks, fun x hx => ?_, hp.handlers⟩
    rcases List.mem_cons.mp hx with rfl | hx
    · trivial
    · exact hp.statements x (by rw [hs]; exact hx)
  | close hs =>
    exact ⟨fun x hx => hp.blocks x (List.mem_of_mem_tail hx),
      fun x hx => hp.statements x (by rw [hs]; exact List.mem_cons_of_mem _ hx), hp.handlers⟩
  | @turn s os hs =>
    obtain ⟨c, yes, no, hat⟩ := hp.statements _ (by rw [hs]; exact List.mem_cons_self)
    refine ⟨fun x hx => ?_, fun x hx => ?_, by simpa using hp.handlers⟩
    · rw [State.handlers_redirect]
      rcases State.mem_blocks_redirect hx with rfl | hx
      · rw [getBlock?_body_stmtAt?, hat]
        rfl
      · exact hp.blocks x (List.mem_of_mem_tail hx)
    · rw [State.statements_redirect, List.mem_cons] at hx
      rw [State.handlers_redirect]
      rcases hx with rfl | hx
      · trivial
      · exact hp.statements x (by rw [hs]; exact List.mem_cons_of_mem _ hx)
  | newHandler name hd =>
    refine ⟨fun x hx => ?_, fun x hx => ?_, fun hd' => absurd hd' hd⟩
    · rcases List.mem_cons.mp hx with rfl | hx
      · simp [State.enter, getBlock?, getPath?]
      · exact hk.getBlock? (hp.blocks x hx)
    · rcases List.mem_cons.mp hx with rfl | hx
      · trivial
      · exact hold x hx
  | leaveHandler => exact ⟨by simp [State.leaveHandler], by simp [State.leaveHandler], hp.handlers⟩

theorem wellFormed (h : Move st evs st') (hw : st.WellFormed) : st'.WellFormed :=
  ⟨h.values hw.values, h.sections hw.sections, h.places hw.places⟩

theorem count_modify {k : Kind} {a : Address} {f : List Stmt → List Stmt} {n : Nat} (hp : st.Places)
    (ha : a ∈ st.blocks)
    (hf : ∀ b, getBlock? st.handlers a = some b → Stmt.countAll k (f b) = Stmt.countAll k b + n) :
    handlerCount k (modifyBlock st.handlers a f) = handlerCount k st.handlers + n := by
  obtain ⟨b, hb⟩ := Option.isSome_iff_exists.mp (hp.blocks a ha)
  have h₁ := handlerCount_modifyBlock (k := k) hb f
  have h₂ := hf b hb
  omega

theorem count_single {s : Stmt} {k k' : Kind} (hs : isSingle s) (hk : s.kind? = some k') :
    s.count k = if k = k' then 1 else 0 := by
  unfold isSingle at hs
  split at hs <;> simp_all [Stmt.kind?, Stmt.count]

theorem count_opens {p : StmtAddress} {s : Stmt} {o : Open} {slot : Slot} {k k' : Kind}
    (ho : Opens p s o slot) (hk : s.kind? = some k') : s.count k = if k = k' then 1 else 0 := by
  cases ho <;> simp_all [Stmt.kind?, Stmt.count, Stmt.countAll, Stmt.countCases]

/-- A move makes the statements that it brings about. -/
theorem count (h : Move st evs st') (hp : st.Places) (k : Kind) :
    handlerCount k st'.handlers = handlerCount k st.handlers + Event.countMade k evs := by
  cases h with
  | aside _ _ _ bodies => exact handlerCount_congr bodies
  | newClass | push | drop | mark | unmark | await | close | leaveHandler => rfl
  | take ha hb =>
    refine count_modify hp (by simp [ha]) fun b' hb' => ?_
    obtain rfl := Option.some.inj (hb.symm.trans hb')
    simp [Stmt.countAll_append, Stmt.countAll, Stmt.count, Event.countMade]
  | eval ha =>
    refine count_modify hp (by simp [ha]) fun b _ => ?_
    simp [Stmt.countAll_append, Stmt.countAll, Stmt.count, Event.countMade]
  | leave ha hs hk =>
    refine count_modify hp (by simp [ha]) fun b _ => ?_
    simp only [Stmt.countAll_append, Stmt.countAll, count_single hs hk, Event.countMade_made]
    rfl
  | enter hadd ho hk =>
    obtain ⟨a, as, ha, rfl, rfl⟩ := addAt_inv hadd
    refine count_modify hp (by simp [ha]) fun b _ => ?_
    simp only [Stmt.countAll_append, Stmt.countAll, count_opens ho hk, Event.countMade_made]
    rfl
  | @arm s e v n os hs =>
    obtain ⟨cases, hat, -⟩ := hp.statements _ (by rw [hs]; exact List.mem_cons_self)
    obtain ⟨b, hb, hat⟩ := Option.bind_eq_some_iff.mp hat
    -- The block of the select need not be open, so that `count_modify` does not apply.
    have h₁ := handlerCount_modifyBlock (k := k) hb fun b => b.modify s.index (Stmt.addCase (.mk v []))
    have h₂ := Stmt.countAll_modify (k := k) hat (Stmt.addCase (.mk v []))
    rw [Stmt.count_addCase] at h₂
    rw [State.handlers_redirect]
    change handlerCount k (modifyBlock st.handlers s.block _) = _ + 0
    omega
  | turn => rw [State.handlers_redirect]; rfl
  | newHandler => exact handlerCount_append k _ _

end Move

/-! ## Several moves -/

/-- Moves one after the other, with all that they bring about. -/
inductive Moves : State → List Event → State → Prop
  | nil (st : State) : Moves st [] st
  | cons {st st₁ st' : State} {evs evs' : List Event} (h : Move st evs st₁)
      (hs : Moves st₁ evs' st') : Moves st (evs ++ evs') st'

namespace Moves

variable {st st' st'' : State} {evs evs' : List Event}

theorem one (h : Move st evs st') : Moves st evs st' := by
  have := cons h (nil st')
  rwa [List.append_nil] at this

theorem trans (h : Moves st evs st') (h' : Moves st' evs' st'') : Moves st (evs ++ evs') st'' := by
  induction h with
  | nil => exact h'
  | cons hm _ ih =>
    rw [List.append_assoc]
    exact cons hm (ih h')

/-- **Moves lead from well-formed states to well-formed states.** -/
theorem wellFormed (h : Moves st evs st') (hw : st.WellFormed) : st'.WellFormed := by
  induction h with
  | nil => exact hw
  | cons hm _ ih => exact ih (hm.wellFormed hw)

theorem stay (h : Moves st evs st') : HandlersStay st.handlers st'.handlers := by
  induction h with
  | nil => exact .refl _
  | cons hm _ ih => exact hm.stay.trans ih

/-- **The tree gains the statements that are made**, and no others. -/
theorem count (h : Moves st evs st') (hw : st.WellFormed) (k : Kind) :
    handlerCount k st'.handlers = handlerCount k st.handlers + Event.countMade k evs := by
  induction h with
  | nil => rfl
  | cons hm _ ih =>
    have h₁ := hm.count hw.places k
    have h₂ := ih (hm.wellFormed hw)
    rw [Event.countMade_append]
    omega

end Moves

end ScriptLift.Lift
