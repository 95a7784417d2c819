import Mathlib.Data.List.Forall2
import Mathlib.Data.List.Perm.Subperm
import ScriptLift.Proofs.Symbols.Table

/-!
# Constants from headers

The domains of an enums file that name a header, with or without a pattern, share its rows: a row
goes to the first domain declared for the header whose pattern the name fits, and of the rows of a
domain with one id the last counts.

* `Symbols.declaration?`, `Symbols.Declared`: the domains that an enums file declares by headers.
* `Symbols.loadHeaders_eq`: grouped by header or not, the domains have the same tables.
* `Symbols.FirstFit`, `Symbols.LastRow`: where a row goes, and which row counts.
* **`Symbols.load_headers`**: the constants of a loaded database.
-/

namespace ScriptLift.Symbols

open Header (Share Entry)

variable {tools : Toolkit}

/-! ## Declarations -/

/-- The header from which a member of an enums file declares that its domain takes constants, and the
share it takes: by the name of the header, or by an object with its name and a pattern. -/
def declaration? : String × JsonDoc → Option (String × Share)
  | (domain, .str file) => some (file, ⟨domain, ""⟩)
  | (domain, .obj members) => (referenceOf (.obj members)).bind fun r =>
      if r.1 = "" then none else some (r.1, ⟨domain, r.2⟩)
  | _ => none

variable (tools) in
/-- Whether an enums file declares domains by headers, and no others. -/
def Declared (dir : Directory) (enums : String) (ds : List (String × Share)) : Prop :=
  ∃ text, readJson tools dir enums = .ok text ∧
    ((JsonDoc.entries text).toOption.bind fun members => members.mapM declaration?) = some ds

/-- The sources of declared domains. -/
def sourcesOf (ds : List (String × Share)) : List DomainSource :=
  ds.map fun p => .header p.1 p.2

theorem domainSource_of_declaration? {m : String × JsonDoc} {p : String × Share}
    (h : declaration? m = some p) (enums : String) :
    domainSource enums m.1 m.2 = .ok (.header p.1 p.2) := by
  unfold declaration? at h
  split at h
  · obtain rfl := Option.some.inj h
    rfl
  · obtain ⟨r, hr, h⟩ := Option.bind_eq_some_iff.mp h
    split_ifs at h with hfile
    obtain rfl := Option.some.inj h
    simp [domainSource, textOver, hr, hfile]
  · exact nomatch h

theorem mapM_domainSource {enums : String} {members : List (String × JsonDoc)} :
    ∀ {ds : List (String × Share)}, members.mapM declaration? = some ds →
      (members.mapM fun (domain, d) => domainSource enums domain d) = .ok (sourcesOf ds) := by
  induction members with
  | nil =>
    intro ds h
    obtain rfl : ds = [] := by simpa using h.symm
    rfl
  | cons m members ih =>
    intro ds h
    rw [List.mapM_cons] at h
    obtain ⟨p, hp, h⟩ := Option.bind_eq_some_iff.mp h
    obtain ⟨ps, hps, h⟩ := Option.bind_eq_some_iff.mp h
    obtain rfl := Option.some.inj h
    rw [List.mapM_cons, ih hps]
    change (domainSource enums m.1 m.2 >>= _) = _
    rw [domainSource_of_declaration? hp]
    rfl

theorem domainSources_of_declared {dir : Directory} {enums : String} {ds : List (String × Share)}
    (h : Declared tools dir enums ds) : domainSources tools dir enums = .ok (sourcesOf ds) := by
  obtain ⟨text, hread, h⟩ := h
  obtain ⟨members, hentries, h⟩ := Option.bind_eq_some_iff.mp h
  cases he : JsonDoc.entries text with
  | error e => simp [he, Except.toOption] at hentries
  | ok ms =>
    obtain rfl : ms = members := by simpa [he, Except.toOption] using hentries
    rw [domainSources, hread]
    simp only [bind, Except.bind, he]
    exact mapM_domainSource h

theorem mapM_eq_ok_iff {α β ε : Type} {f : α → Except ε β} {xs : List α} {ys : List β} :
    xs.mapM f = .ok ys ↔ List.Forall₂ (fun x y => f x = .ok y) xs ys := by
  induction xs generalizing ys with
  | nil => cases ys <;> simp [pure, Except.pure]
  | cons x xs ih =>
    rw [List.mapM_cons]
    cases hx : f x with
    | error e => cases ys <;> simp [bind, Except.bind, hx]
    | ok y =>
      cases hr : xs.mapM f with
      | error e => cases ys <;> simp [bind, Except.bind, ← ih, hr, hx]
      | ok zs => cases ys <;> simp [bind, Except.bind, pure, Except.pure, ← ih, hr, hx]

/-! ## Tables -/

/-- The domains that share a header, in order. -/
def sharesOf (file : String) (ds : List (String × Share)) : List Share :=
  (ds.filter (·.1 == file)).map Prod.snd

/-- The text of a header. -/
def contents (dir : Directory) (file : String) : String :=
  match dir file with
  | .ok text => text
  | .error _ => ""

variable (tools) in
/-- The constants of a declared domain, as they come from its header. -/
def tableOfDeclared (dir : Directory) (ds : List (String × Share)) (p : String × Share) :
    String × Table Int64 String :=
  (p.2.domain,
    Header.constants tools (sharesOf p.1 ds) p.2.domain (Header.entries (contents dir p.1)))

theorem headerShares_sourcesOf (ds : List (String × Share)) :
    headerShares (sourcesOf ds) =
      (ds.map Prod.fst).eraseDups.map fun file => (file, sharesOf file ds) := by
  have hpairs : ∀ f : DomainSource → Option (String × Share),
      (∀ p, f (.header p.1 p.2) = some p) → (sourcesOf ds).filterMap f = ds := by
    intro f hf
    rw [sourcesOf, List.filterMap_map, show f ∘ _ = some from funext hf, List.filterMap_some]
  have hshares : ∀ (file : String) (f : String × Share → Option Share),
      (∀ p, f p = if p.1 == file then some p.2 else none) →
      ds.filterMap f = sharesOf file ds := by
    intro file f hf
    rw [sharesOf, ← List.filterMap_eq_map, List.filterMap_filter]
    exact List.filterMap_congr fun p _ => hf p
  rw [headerShares, hpairs _ fun _ => rfl]
  exact List.map_congr_left fun file _ => by rw [hshares file _ fun _ => rfl]

theorem inlineConstants_sourcesOf (ds : List (String × Share)) :
    inlineConstants (sourcesOf ds) = [] := by
  simp [inlineConstants, sourcesOf]

/-- A header that could be loaded could be read, and every domain has the rows that go to it. -/
theorem loadHeader_eq {dir : Directory} {file : String} {shares : List Share}
    {t : Table String (Table Int64 String)} (h : loadHeader tools dir file shares = .ok t) :
    dir file = .ok (contents dir file) ∧ t = shares.map fun s =>
      (s.domain, Header.constants tools shares s.domain (Header.entries (contents dir file))) := by
  rw [loadHeader] at h
  cases hp : shares.find? fun s => !s.pattern.isEmpty && !tools.isCompilable s.pattern with
  | some s => simp [hp] at h
  | none =>
    cases hd : dir file with
    | error e => simp [hp, hd] at h
    | ok text =>
      have hc : contents dir file = text := by rw [contents, hd]
      simp only [hp, hd] at h
      split_ifs at h
      rw [hc, ← Except.ok.inj h, List.map_map]
      exact ⟨rfl, rfl⟩

/-- Elements grouped by a key are the elements in another order. -/
theorem flatMap_filter_perm {α κ : Type} [BEq κ] [LawfulBEq κ] (key : α → κ) :
    ∀ xs : List α, ((xs.map key).eraseDups.flatMap fun k => xs.filter (key · == k)).Perm xs
  | [] => by simp
  | x :: xs => by
    have ih := flatMap_filter_perm key (xs.filter fun y => !(key y == key x))
    have hkeys : ((x :: xs).map key).eraseDups =
        key x :: ((xs.filter fun y => !(key y == key x)).map key).eraseDups := by
      rw [List.map_cons, List.eraseDups_cons, List.filter_map]
      rfl
    -- no element with the first key is in the group of another
    have hgroup : ∀ k ∈ ((xs.filter fun y => !(key y == key x)).map key).eraseDups,
        (x :: xs).filter (key · == k) =
          (xs.filter fun y => !(key y == key x)).filter (key · == k) := by
      intro k hk
      obtain ⟨y, hy, rfl⟩ := List.mem_map.mp (List.mem_eraseDups.mp hk)
      have hne : ¬(key y = key x) := by simpa using (List.mem_filter.mp hy).2
      rw [List.filter_cons_of_neg (by simpa using Ne.symm hne), List.filter_filter]
      refine List.filter_congr fun z _ => ?_
      by_cases hz : key z = key y
      · simp [hz, hne]
      · simp [hz]
    rw [hkeys, List.flatMap_cons, List.flatMap_congr hgroup,
      List.filter_cons_of_pos (by simp), List.cons_append]
    exact .cons x ((ih.append_left _).trans (List.filter_append_perm (key · == key x) xs))
termination_by xs => xs.length
decreasing_by exact Nat.lt_succ_of_le (List.length_filter_le ..)

/-- Headers that could be loaded could be read, and give every domain the rows that go to it. -/
theorem loadHeaders_eq {dir : Directory} {ds : List (String × Share)}
    {headers : List (Table String (Table Int64 String))}
    (h : ((headerShares (sourcesOf ds)).mapM fun (file, shares) => loadHeader tools dir file shares) =
      .ok headers) :
    (∀ p ∈ ds, dir p.1 = .ok (contents dir p.1)) ∧
      headers.flatten.Perm (ds.map (tableOfDeclared tools dir ds)) := by
  have hall := (mapM_eq_ok_iff.mp h).imp fun g t ht => loadHeader_eq ht
  rw [List.forall₂_and_left] at hall
  obtain ⟨hread, hall⟩ := hall
  rw [headerShares_sourcesOf] at hread hall
  refine ⟨fun p hp => ?_, ?_⟩
  · refine hread (p.1, sharesOf p.1 ds) (List.mem_map.mpr ⟨p.1, ?_, rfl⟩)
    exact List.mem_eraseDups.mpr (List.mem_map_of_mem hp)
  · have hgroup : ∀ file, (sharesOf file ds).map (fun s =>
        (s.domain, Header.constants tools (sharesOf file ds) s.domain
          (Header.entries (contents dir file)))) =
        (ds.filter (·.1 == file)).map (tableOfDeclared tools dir ds) := by
      intro file
      rw [sharesOf, List.map_map]
      refine List.map_congr_left fun p hp => ?_
      obtain rfl := eq_of_beq (List.mem_filter.mp hp).2
      rfl
    rw [List.forall₂_map_left_iff] at hall
    have hheaders := List.forall₂_map_left_iff.mpr
      (hall.imp fun file t ht => (hgroup file).symm.trans ht.symm)
    rw [List.forall₂_eq_eq_eq] at hheaders
    rw [← hheaders, ← List.flatMap_def, ← List.map_flatMap]
    exact (flatMap_filter_perm Prod.fst ds).map _

/-! ## Rows -/

variable (tools) in
/-- Whether a pattern admits a name: without a pattern every name is. -/
def Admits (pattern name : String) : Prop :=
  pattern = "" ∨ tools.matchesName pattern name = true

variable (tools) in
/-- **Whether a domain is the first** of those declared for a header whose pattern admits a name. -/
def FirstFit (ds : List (String × Share)) (file name domain : String) : Prop :=
  ∃ before pattern after, ds = before ++ (file, ⟨domain, pattern⟩) :: after ∧
    Admits tools pattern name ∧ ∀ s, (file, s) ∈ before → ¬Admits tools s.pattern name

variable (tools) in
/-- **Whether a name is that of the last row** with an id that goes to a domain. -/
def LastRow (dir : Directory) (ds : List (String × Share)) (domain : String) (id : Int64)
    (name : String) : Prop :=
  ∃ file text before after, dir file = .ok text ∧
    Header.entries text = before ++ ⟨name, id⟩ :: after ∧ FirstFit tools ds file name domain ∧
    ∀ e ∈ after, e.id = id → ¬FirstFit tools ds file e.name domain

theorem fits_iff (s : Share) (name : String) : s.fits tools name ↔ Admits tools s.pattern name := by
  rw [Share.fits, Bool.or_eq_true, String.isEmpty_iff, Admits]

theorem domainOf?_sharesOf_eq_some_iff {ds : List (String × Share)} {file name domain : String} :
    Header.domainOf? tools (sharesOf file ds) name = some domain ↔
      FirstFit tools ds file name domain := by
  have hfits : ∀ p : String × Share,
      (p.1 == file && p.2.fits tools name) = true ↔ p.1 = file ∧ Admits tools p.2.pattern name := by
    intro p
    rw [Bool.and_eq_true, beq_iff_eq, fits_iff]
  have hfind : Header.domainOf? tools (sharesOf file ds) name =
      (ds.find? fun p => p.1 == file && p.2.fits tools name).map (·.2.domain) := by
    rw [Header.domainOf?, sharesOf, List.find?_map, List.find?_filter, Option.map_map]
    simp only [Bool.decide_and, Bool.decide_eq_true]
    rfl
  rw [hfind, Option.map_eq_some_iff]
  constructor
  · rintro ⟨⟨f, s⟩, hp, rfl⟩
    obtain ⟨hfit, before, after, hds, hbefore⟩ := List.find?_eq_some_iff_append.mp hp
    obtain ⟨rfl, hadmits⟩ := (hfits _).mp hfit
    refine ⟨before, s.pattern, after, hds, hadmits, fun t ht hadmits => ?_⟩
    have hnot := hbefore _ ht
    rw [(hfits (f, t)).mpr ⟨rfl, hadmits⟩] at hnot
    exact absurd hnot (by decide)
  · rintro ⟨before, pattern, after, hds, hadmits, hbefore⟩
    refine ⟨(file, ⟨domain, pattern⟩), List.find?_eq_some_iff_append.mpr ?_, rfl⟩
    refine ⟨(hfits _).mpr ⟨rfl, hadmits⟩, before, after, hds, fun p hp => ?_⟩
    rw [Bool.not_eq_true', Bool.eq_false_iff]
    intro hfit
    obtain ⟨rfl, hadmits⟩ := (hfits p).mp hfit
    exact hbefore p.2 hp hadmits

/-- A row goes to no two domains. -/
theorem FirstFit.unique {ds : List (String × Share)} {file name d d' : String}
    (h : FirstFit tools ds file name d) (h' : FirstFit tools ds file name d') : d = d' := by
  rw [← domainOf?_sharesOf_eq_some_iff] at h h'
  exact Option.some.inj (h.symm.trans h')

theorem FirstFit.mem {ds : List (String × Share)} {file name domain : String}
    (h : FirstFit tools ds file name domain) : ∃ p ∈ ds, p.1 = file ∧ p.2.domain = domain := by
  obtain ⟨before, pattern, after, rfl, -, -⟩ := h
  exact ⟨(file, ⟨domain, pattern⟩), by simp, rfl, rfl⟩

theorem get?_constants (shares : List Share) (domain : String) (es : List Entry) (id : Int64) :
    (Header.constants tools shares domain es).get? id =
      (es.reverse.find? fun e =>
        Header.domainOf? tools shares e.name == some domain && e.id == id).map Entry.name := by
  rw [Header.constants, ← List.map_reverse, ← List.filter_reverse]
  induction es.reverse with
  | nil => rfl
  | cons e es ih =>
    rw [List.filter_cons, List.find?_cons]
    cases Header.domainOf? tools shares e.name == some domain with
    | false => simpa using ih
    | true =>
      rw [if_pos rfl, Bool.true_and, List.map_cons]
      by_cases hid : id = e.id
      · rw [hid, Table.get?_cons_self, beq_self_eq_true]
        rfl
      · rw [Table.get?_cons_of_ne hid, ih, beq_eq_false_iff_ne.mpr (Ne.symm hid)]

theorem get?_constants_eq_some_iff {shares : List Share} {domain : String} {es : List Entry}
    {id : Int64} {name : String} :
    (Header.constants tools shares domain es).get? id = some name ↔
      ∃ before after, es = before ++ ⟨name, id⟩ :: after ∧
        Header.domainOf? tools shares name = some domain ∧
        ∀ e ∈ after, e.id = id → Header.domainOf? tools shares e.name ≠ some domain := by
  rw [get?_constants, Option.map_eq_some_iff]
  constructor
  · rintro ⟨⟨n, i⟩, he, rfl⟩
    obtain ⟨hfit, after, before, hes, hafter⟩ := List.find?_eq_some_iff_append.mp he
    obtain ⟨hd, rfl⟩ : Header.domainOf? tools shares n = some domain ∧ i = id := by simpa using hfit
    refine ⟨before.reverse, after.reverse, ?_, hd, fun e he hid hd' => ?_⟩
    · rw [← List.reverse_reverse es, hes]
      simp
    · have hnot := hafter e (List.mem_reverse.mp he)
      simp [hid, hd'] at hnot
  · rintro ⟨before, after, rfl, hd, hafter⟩
    refine ⟨⟨name, id⟩, List.find?_eq_some_iff_append.mpr ?_, rfl⟩
    refine ⟨by simp [hd], after.reverse, before.reverse, by simp, fun e he => ?_⟩
    by_cases hid : e.id = id
    · simp [hafter e (List.mem_reverse.mp he) hid]
    · simp [hid]

/-- What goes to one place at most is there once at most. -/
theorem flatMap_ite_sublist {α : Type} {ds : List String} (hn : ds.Nodup) (o : Option String)
    (row : α) : (ds.flatMap fun d => if o = some d then [row] else []).Sublist [row] := by
  induction ds with
  | nil => simp
  | cons d ds ih =>
    obtain ⟨hd, hds⟩ := List.nodup_cons.mp hn
    rw [List.flatMap_cons]
    by_cases ho : o = some d
    · have hrest : (ds.flatMap fun d' => if o = some d' then [row] else []) = [] := by
        refine List.flatMap_eq_nil_iff.mpr fun d' hd' => if_neg ?_
        rintro rfl
        exact hd (Option.some.inj ho ▸ hd')
      rw [hrest, if_pos ho, List.append_nil]
    · rw [if_neg ho, List.nil_append]
      exact ih hds

variable (tools) in
/-- The rows that go to the domains of a header are rows of the header, each at most once. -/
theorem flatMap_constants_subperm {ds : List String} (hn : ds.Nodup) (shares : List Share)
    (es : List Entry) :
    (ds.flatMap fun d => Header.constants tools shares d es).Subperm
      (es.map fun e => (e.id, e.name)) := by
  induction es with
  | nil => simp [Header.constants]
  | cons e es ih =>
    have hcons : ∀ d, Header.constants tools shares d (e :: es) =
        Header.constants tools shares d es ++
        if Header.domainOf? tools shares e.name = some d then [(e.id, e.name)] else [] := by
      intro d
      rw [Header.constants, List.filter_cons]
      by_cases hd : Header.domainOf? tools shares e.name = some d
      · rw [if_pos (by simpa using hd), if_pos hd, List.map_cons, List.reverse_cons]
        rfl
      · rw [if_neg (by simpa using hd), if_neg hd, List.append_nil]
        rfl
    simp only [hcons]
    have honce :=
      (flatMap_ite_sublist hn (Header.domainOf? tools shares e.name) (e.id, e.name)).subperm
    refine (List.flatMap_append_perm ds _ _).symm.subperm.trans ?_
    exact (List.Subperm.append ih honce).trans List.perm_append_comm.subperm

/-! ## Loading -/

variable (tools) in
theorem keys_tables (dir : Directory) (ds : List (String × Share)) :
    (ds.map (tableOfDeclared tools dir ds)).map Prod.fst = ds.map (·.2.domain) := by
  rw [List.map_map]
  rfl

/-- With distinct domains, the table of a domain is that of its declaration. -/
theorem get?_tables_eq_some_iff {dir : Directory} {ds : List (String × Share)}
    (hdistinct : (ds.map (·.2.domain)).Nodup) {d : String} {cs : Table Int64 String} :
    Table.get? (ds.map (tableOfDeclared tools dir ds)) d = some cs ↔
      ∃ p ∈ ds, tableOfDeclared tools dir ds p = (d, cs) := by
  rw [← keys_tables tools dir] at hdistinct
  rw [Table.get?_eq_some_iff_mem hdistinct, List.mem_map]

/-- The constants in the tables of the declarations are those of the last rows. -/
theorem bind_get?_tables_eq_some_iff {dir : Directory} {ds : List (String × Share)}
    (hdistinct : (ds.map (·.2.domain)).Nodup) (hread : ∀ p ∈ ds, dir p.1 = .ok (contents dir p.1))
    {d : String} {id : Int64} {n : String} :
    (Table.get? (ds.map (tableOfDeclared tools dir ds)) d).bind (·.get? id) = some n ↔
      LastRow tools dir ds d id n := by
  rw [Option.bind_eq_some_iff]
  constructor
  · rintro ⟨cs, hcs, hn⟩
    obtain ⟨p, hp, hpair⟩ := (get?_tables_eq_some_iff hdistinct).mp hcs
    obtain ⟨rfl, rfl⟩ := Prod.ext_iff.mp hpair
    obtain ⟨before, after, hes, hd, hafter⟩ := get?_constants_eq_some_iff.mp hn
    refine ⟨p.1, contents dir p.1, before, after, hread p hp, hes,
      domainOf?_sharesOf_eq_some_iff.mp hd, fun e he hid hfit => ?_⟩
    exact hafter e he hid (domainOf?_sharesOf_eq_some_iff.mpr hfit)
  · rintro ⟨file, text, before, after, hfile, hes, hfit, hafter⟩
    obtain ⟨p, hp, rfl, rfl⟩ := hfit.mem
    obtain rfl : contents dir p.1 = text := Except.ok.inj ((hread p hp).symm.trans hfile)
    refine ⟨_, (get?_tables_eq_some_iff hdistinct).mpr ⟨p, hp, rfl⟩, ?_⟩
    refine get?_constants_eq_some_iff.mpr ⟨before, after, hes,
      domainOf?_sharesOf_eq_some_iff.mpr hfit, fun e he hid hd => ?_⟩
    exact hafter e he hid (domainOf?_sharesOf_eq_some_iff.mp hd)

/-- **Header constants go to the right domain.** When every domain is declared by a header, a name is
that of a constant when it is that of the last row with the id that goes to the domain; only the
short skill ids are derived, and the abnormal state that means none is left out. A row goes to one
domain at most, and every declared domain is a type. In whatever order the domains of the headers
are stored, the constants are the same. All this holds with any tools. -/
theorem load_headers {dir : Directory} {files : Files} {ds : List (String × Share)} {db : Database}
    (hdeclared : Declared tools dir files.enums ds) (hdistinct : (ds.map (·.2.domain)).Nodup)
    (hload : Database.loadWith tools dir files = .ok db) :
    (∀ (d : String) (id : Int64) (n : String),
      (d = "SKILL_SHORT" → ∀ p ∈ ds, p.2.domain ≠ "SKILL") → (d, id) ≠ ("ABNORMAL", -1) →
      (db.symbols.constant? d id = some n ↔ LastRow tools dir ds d id n)) ∧
    (∀ {file name d d' : String}, FirstFit tools ds file name d → FirstFit tools ds file name d' →
      d = d') ∧
    (∀ {file : String} {shares : List Share} {t : Table String (Table Int64 String)},
      (file, shares) ∈ headerShares (sourcesOf ds) → loadHeader tools dir file shares = .ok t →
      ∃ text, dir file = .ok text ∧
        (t.flatMap Prod.snd).Subperm ((Header.entries text).map fun e => (e.id, e.name))) ∧
    (∀ p ∈ ds, db.symbols.isPrimitive p.2.domain) ∧
    ∃ headers, domainSources tools dir files.enums = .ok (sourcesOf ds) ∧
      ((headerShares (sourcesOf ds)).mapM fun (file, shares) => loadHeader tools dir file shares) =
        .ok headers ∧
      ∀ stored : Table String (Table Int64 String), stored.Perm headers.flatten →
        ∀ d, (finishConstants stored).get? d = db.constants.get? d := by
  have hsources := domainSources_of_declared hdeclared
  obtain ⟨sources, headers, hsources', hheaders, hdb⟩ := constants_of_load hload
  obtain rfl := Except.ok.inj (hsources'.symm.trans hsources)
  obtain ⟨hread, hperm⟩ := loadHeaders_eq hheaders
  rw [inlineConstants_sourcesOf, List.append_nil] at hdb
  have hkeys := hdistinct
  rw [← keys_tables tools dir] at hkeys
  -- whatever the order, a domain has the table of its declaration
  have hget : ∀ stored : Table String (Table Int64 String), stored.Perm headers.flatten →
      ∀ d, stored.get? d = Table.get? (ds.map (tableOfDeclared tools dir ds)) d := fun stored hs d =>
    (Table.get?_eq_of_perm hkeys (hs.trans hperm).symm d).symm
  have hreversed : headers.reverse.flatten.Perm headers.flatten := headers.reverse_perm.flatten
  refine ⟨?lookup, FirstFit.unique, ?once, ?primitive, headers, hsources, hheaders, ?stored⟩
  case lookup =>
    intro d id n hs ha
    have hskill : d = "SKILL_SHORT" → Table.get? headers.reverse.flatten "SKILL" = none := by
      intro hd
      refine Option.eq_none_iff_forall_ne_some.mpr fun cs hcs => ?_
      rw [hget _ hreversed] at hcs
      obtain ⟨p, hp, hpair⟩ := (get?_tables_eq_some_iff hdistinct).mp hcs
      exact hs hd p hp (Prod.ext_iff.mp hpair).1
    change (db.constants.get? d).bind (·.get? id) = some n ↔ _
    rw [hdb, bind_get?_finishConstants hskill ha, hget _ hreversed]
    exact bind_get?_tables_eq_some_iff hdistinct hread
  case once =>
    intro file shares t hfile ht
    rw [headerShares_sourcesOf] at hfile
    obtain ⟨file, -, hpair⟩ := List.mem_map.mp hfile
    obtain ⟨rfl, rfl⟩ := Prod.ext_iff.mp hpair
    obtain ⟨hfile, rfl⟩ := loadHeader_eq ht
    have hdomains : ((sharesOf file ds).map Share.domain).Nodup := by
      rw [sharesOf, List.map_map]
      exact hdistinct.sublist (List.filter_sublist.map _)
    refine ⟨contents dir file, hfile, ?_⟩
    have honce := flatMap_constants_subperm tools hdomains (sharesOf file ds)
      (Header.entries (contents dir file))
    rw [List.flatMap_map] at honce ⊢
    exact honce
  case primitive =>
    intro p hp
    have hsome : (Table.get? headers.reverse.flatten p.2.domain).isSome := by
      rw [hget _ hreversed, (get?_tables_eq_some_iff hdistinct).mpr ⟨p, hp, rfl⟩]
      rfl
    change (builtinPrimitives.contains p.2.domain || (db.constants.get? p.2.domain).isSome) = true
    rw [hdb, isSome_get?_finishConstants hsome, Bool.or_true]
  case stored =>
    intro stored hs d
    rw [hdb]
    exact get?_finishConstants_congr (fun d => (hget _ hs d).trans (hget _ hreversed d).symm) d

/-- A chronicle with two headers; two domains share the first, and the second has no row. -/
def wolfChronicle : Directory := fun name =>
  if name = "enums.json" then
    .ok ("\x7b\"BOSS\": \x7b\"file\": \"npc.h\", \"pattern\": \"*_boss\"\x7d," ++
      "\"NPC\": \"npc.h\", \"ITEM\": \"item.h\"\x7d")
  else if name = "npc.h" then .ok "[orc] = 1\n[orc_boss] = 1\n[wolf] = 2\n[grey_wolf] 2 // elder"
  else if name = "item.h" then .ok "// none"
  else if name = "fstring.txt" then .error (.noOpen "" true)
  else .ok "\x7b\x7d"

/-- The domains of that chronicle. -/
def wolfDomains : List (String × Share) :=
  [("npc.h", ⟨"BOSS", "*_boss"⟩), ("npc.h", ⟨"NPC", ""⟩), ("item.h", ⟨"ITEM", ""⟩)]

/-- The database of that chronicle. -/
def wolfDatabase : Database :=
  { Database.empty with
    constants := [("ITEM", []), ("BOSS", [(1, "orc_boss")]),
      ("NPC", [(2, "grey_wolf"), (2, "wolf"), (1, "orc")])] }

theorem load_headers_wolf :
    Declared .standard wolfChronicle "enums.json" wolfDomains ∧
    (wolfDomains.map (·.2.domain)).Nodup ∧
    Database.load wolfChronicle .default = .ok wolfDatabase ∧
    wolfDatabase.symbols.constant? "BOSS" 1 = some "orc_boss" ∧
    wolfDatabase.symbols.constant? "NPC" 2 = some "grey_wolf" ∧
    wolfDatabase.symbols.isPrimitive "ITEM" := by
  have hdeclared : Declared .standard wolfChronicle "enums.json" wolfDomains := by
    exact ⟨_, rfl, by decide +kernel⟩
  have hdistinct : (wolfDomains.map (·.2.domain)).Nodup := by decide
  have hload : Database.load wolfChronicle .default = .ok wolfDatabase := by decide +kernel
  obtain ⟨lookup, -, -, primitive, -⟩ := load_headers hdeclared hdistinct hload
  have hrows : Header.entries (contents wolfChronicle "npc.h") =
      [⟨"orc", 1⟩, ⟨"orc_boss", 1⟩, ⟨"wolf", 2⟩, ⟨"grey_wolf", 2⟩] := by decide +kernel
  refine ⟨hdeclared, hdistinct, hload, (lookup _ _ _ (by decide) (by decide)).mpr ?boss,
    (lookup _ _ _ (by decide) (by decide)).mpr ?wolf, primitive ("item.h", ⟨"ITEM", ""⟩) (by decide)⟩
  case boss =>
    refine ⟨"npc.h", _, [⟨"orc", 1⟩], [⟨"wolf", 2⟩, ⟨"grey_wolf", 2⟩], rfl, hrows, ?_, by simp⟩
    exact ⟨[], "*_boss", _, rfl, .inr (by decide +kernel), by simp⟩
  case wolf =>
    refine ⟨"npc.h", _, [⟨"orc", 1⟩, ⟨"orc_boss", 1⟩, ⟨"wolf", 2⟩], [], rfl, hrows, ?_, by simp⟩
    refine ⟨[("npc.h", ⟨"BOSS", "*_boss"⟩)], "", _, rfl, .inl rfl, fun s hs => ?_⟩
    obtain rfl : s = ⟨"BOSS", "*_boss"⟩ := by simpa using hs
    rintro (hempty | hmatch)
    · exact absurd hempty (by decide)
    · exact absurd hmatch (by decide +kernel)

end ScriptLift.Symbols
