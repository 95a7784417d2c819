import ScriptLift.Proofs.Numeral
import ScriptLift.Proofs.Text.Utf8
import ScriptLift.Symbols.Pattern

/-!
# Regular expressions

The regular expressions of patterns are read as text: escaped characters, `(.*)`, the anchors `^` and
`$`, and bars, which bind weakest.

* `Sign`, `signs?`: what a regular expression consists of, and how it is read.
* `Runs`, `Found`: matching at a place, and anywhere.
* `Spelled`: a text that is read as some signs whatever follows; `Spelled.intercalate`.
* `isPlain`, `spelled_escape`: the characters that are escaped as themselves.
* `unescape_of_signs?`: an expression of characters is read back as these characters.
-/

namespace ScriptLift.Pattern

open Text

/-! ## Signs -/

/-- A part of a regular expression. -/
inductive Sign where
  /-- A character that stands for itself. -/
  | char (c : Char)
  /-- Any text within a line. -/
  | any
  /-- The beginning of the text. -/
  | start
  /-- The end of the text, a line feed at its end aside. -/
  | stop
  /-- Either what stands before or what follows. -/
  | bar
  deriving Repr, DecidableEq

/-- Whether signs match at a place of a text, between what has been passed and the rest. -/
def Runs : List Sign → (passed rest : List Char) → Prop
  | [], _, _ => True
  | .char c :: ss, passed, rest => ∃ r, rest = c :: r ∧ Runs ss (passed ++ [c]) r
  | .any :: ss, passed, rest => ∃ u v, rest = u ++ v ∧ '\n' ∉ u ∧ Runs ss (passed ++ u) v
  | .start :: ss, passed, rest => passed = [] ∧ Runs ss passed rest
  | .stop :: ss, passed, rest => (rest = [] ∨ rest = ['\n']) ∧ Runs ss passed rest
  | .bar :: _, _, _ => False

/-- **Whether a search finds a place** in a text where some branch matches. -/
def Found (ss : List Sign) (s : List Char) : Prop :=
  ∃ branch ∈ ss.splitOn .bar, ∃ passed rest, s = passed ++ rest ∧ Runs branch passed rest

/-- The character that stands for itself behind a backslash: one with a meaning, or a control
character by its letter. -/
def escaped? (c : Char) : Option Char :=
  if metaChars.contains c then some c
  else if "afnrtv".toList.contains c then some (controlOf c) else none

/-- Whether all characters are hexadecimal digits. -/
def allHex (ds : List Char) : Bool := ds.all fun d => (Numeral.digit? 16 d).isSome

/-- **How a regular expression is read**, if it has only signs. -/
def signs? : List Char → Option (List Sign)
  | '\\' :: 'u' :: a :: b :: c :: d :: r =>
    if allHex [a, b, c, d] then (signs? r).map (.char (charOf (ofHex [a, b, c, d])) :: ·) else none
  | '\\' :: 'x' :: a :: b :: r =>
    if allHex [a, b] then (signs? r).map (.char (charOf (ofHex [a, b])) :: ·) else none
  | '\\' :: c :: r => (escaped? c).bind fun c => (signs? r).map (.char c :: ·)
  | '(' :: '.' :: '*' :: ')' :: r => (signs? r).map (.any :: ·)
  | '^' :: r => (signs? r).map (.start :: ·)
  | '$' :: r => (signs? r).map (.stop :: ·)
  | '|' :: r => (signs? r).map (.bar :: ·)
  | c :: r => if metaChars.contains c then none else (signs? r).map (.char c :: ·)
  | [] => some []

theorem signs?_wide (a b c d : Char) (r : List Char) :
    signs? ('\\' :: 'u' :: a :: b :: c :: d :: r) =
      if allHex [a, b, c, d] then (signs? r).map (.char (charOf (ofHex [a, b, c, d])) :: ·)
      else none := rfl

theorem signs?_short (a b : Char) (r : List Char) :
    signs? ('\\' :: 'x' :: a :: b :: r) =
      if allHex [a, b] then (signs? r).map (.char (charOf (ofHex [a, b])) :: ·) else none := rfl

theorem signs?_escaped {l : Char} (hu : l ≠ 'u') (hx : l ≠ 'x') (r : List Char) :
    signs? ('\\' :: l :: r) = (escaped? l).bind fun c => (signs? r).map (.char c :: ·) := by
  rw [signs?] <;> simp [hu, hx]

theorem signs?_any (r : List Char) :
    signs? ('(' :: '.' :: '*' :: ')' :: r) = (signs? r).map (.any :: ·) := rfl

theorem signs?_start (r : List Char) : signs? ('^' :: r) = (signs? r).map (.start :: ·) := rfl

theorem signs?_stop (r : List Char) : signs? ('$' :: r) = (signs? r).map (.stop :: ·) := rfl

theorem signs?_bar (r : List Char) : signs? ('|' :: r) = (signs? r).map (.bar :: ·) := rfl

theorem signs?_char {c : Char} (h : metaChars.contains c = false) (r : List Char) :
    signs? (c :: r) = (signs? r).map (.char c :: ·) := by
  have hne : ∀ d ∈ metaChars, c ≠ d := by
    rintro d hd rfl
    rw [List.contains_iff_mem.mpr hd] at h
    cases h
  rw [signs?, h]
  · rfl
  all_goals simp [hne '\\' (by decide), hne '(' (by decide), hne '^' (by decide),
    hne '$' (by decide), hne '|' (by decide)]

/-- A text that is read as some signs whatever follows. -/
def Spelled (s : List Char) (ss : List Sign) : Prop :=
  ∀ rest, signs? (chars (s ++ rest)) = (signs? (chars rest)).map (ss ++ ·)

namespace Spelled

theorem nil : Spelled [] [] := fun rest => by simp

theorem append {s t : List Char} {ss ts : List Sign} (hs : Spelled s ss) (ht : Spelled t ts) :
    Spelled (s ++ t) (ss ++ ts) := fun rest => by
  rw [List.append_assoc, hs, ht, Option.map_map]
  congr 1
  funext x
  simp

/-- **Texts with a separator between them.** -/
theorem intercalate {ι : Type} {sep : List Char} {ssep : List Sign} (hsep : Spelled sep ssep)
    {f : ι → List Char} {g : ι → List Sign} :
    ∀ {xs : List ι}, (∀ x ∈ xs, Spelled (f x) (g x)) →
      Spelled (sep.intercalate (xs.map f)) (ssep.intercalate (xs.map g))
  | [], _ => nil
  | [x], h => by simpa using h x List.mem_cons_self
  | x :: y :: xs, h => by
    have ih : Spelled (sep.intercalate ((y :: xs).map f)) (ssep.intercalate ((y :: xs).map g)) :=
      intercalate hsep fun z hz => h z (List.mem_cons_of_mem x hz)
    simp only [List.map_cons, List.intercalate_cons_cons] at ih ⊢
    exact ((h x List.mem_cons_self).append hsep).append ih

/-- A text that is read by itself. -/
theorem read {s : List Char} {ss : List Sign} (h : Spelled s ss) : signs? (chars s) = some ss := by
  have hs := h []
  rw [List.append_nil, chars_nil] at hs
  exact hs.trans (congrArg some ss.append_nil)

end Spelled

theorem spelled_any : Spelled "(.*)".toList [.any] := fun rest => by
  have hchars : chars ("(.*)".toList ++ rest) = "(.*)".toList ++ chars rest := by
    simp [chars_cons_ascii]
  rw [hchars]
  exact signs?_any (chars rest)

theorem spelled_start : Spelled ['^'] [.start] := fun rest => by
  rw [List.singleton_append, chars_cons_ascii (by decide)]
  exact signs?_start (chars rest)

theorem spelled_stop : Spelled ['$'] [.stop] := fun rest => by
  rw [List.singleton_append, chars_cons_ascii (by decide)]
  exact signs?_stop (chars rest)

theorem spelled_bar : Spelled ['|'] [.bar] := fun rest => by
  rw [List.singleton_append, chars_cons_ascii (by decide)]
  exact signs?_bar (chars rest)

/-! ## Escapes -/

/-- Whether a character is escaped with as many digits as are read: it is shown as it is, or its
value has at most two or exactly four digits. -/
def isPlain (c : Char) : Bool :=
  isPrintable c || c.toNat < 0x100 || (0x1000 ≤ c.toNat && c.toNat < 0x10000)

theorem spelled_char {c : Char} (h : metaChars.contains c = false) :
    Spelled (encodeChar c) [.char c] := fun rest => by
  rw [chars_encodeChar_append]
  exact signs?_char h (chars rest)

/-- Neither of the letters that digits follow is escaped. -/
theorem escaped_ascii :
    (metaChars ++ "afnrtv".toList).all (fun l => l.toNat < 0x80 && l != 'u' && l != 'x') := by
  decide

/-- **A character behind a backslash** is read as what it stands for. -/
theorem spelled_escaped {l c : Char} (h : escaped? l = some c) : Spelled ['\\', l] [.char c] := by
  have hmem : l ∈ metaChars ++ "afnrtv".toList := by
    unfold escaped? at h
    split_ifs at h with hm hl
    · exact List.mem_append_left _ (by simpa using hm)
    · exact List.mem_append_right _ (by simpa using hl)
  obtain ⟨⟨hascii, hu⟩, hx⟩ : (l.toNat < 0x80 ∧ l ≠ 'u') ∧ l ≠ 'x' := by
    simpa using List.all_eq_true.mp escaped_ascii l hmem
  intro rest
  have hchars : chars (['\\', l] ++ rest) = '\\' :: l :: chars rest := by
    simp [chars_cons_ascii, hascii]
  rw [hchars, signs?_escaped hu hx, h]
  rfl

theorem ascii_of_allHex {ds : List Char} (h : allHex ds) : ∀ d ∈ ds, d.toNat < 0x80 := by
  intro d hd
  have hdigit := List.all_eq_true.mp h d hd
  unfold Numeral.digit? at hdigit
  by_contra hlarge
  have hnot : ∀ e : Char, e.toNat < 0x80 → ¬ d ≤ e := fun e he hde => by
    have hle : d.toNat ≤ e.toNat := hde
    omega
  simp [hnot '9' (by decide), hnot 'f' (by decide), hnot 'F' (by decide)] at hdigit

/-- Digits are read as they stand. -/
theorem chars_append_of_allHex {ds : List Char} (h : allHex ds) (rest : List Char) :
    chars (ds ++ rest) = ds ++ chars rest := by
  have hascii := ascii_of_allHex h
  clear h
  induction ds with
  | nil => rfl
  | cons d ds ih =>
    rw [List.cons_append, chars_cons_ascii (hascii d List.mem_cons_self),
      ih fun e he => hascii e (List.mem_cons_of_mem d he), List.cons_append]

theorem spelled_short {a b : Char} (h : allHex [a, b]) :
    Spelled ['\\', 'x', a, b] [.char (charOf (ofHex [a, b]))] := fun rest => by
  have hchars : chars (['\\', 'x', a, b] ++ rest) = '\\' :: 'x' :: a :: b :: chars rest := by
    have hds := chars_append_of_allHex h rest
    simpa [chars_cons_ascii] using hds
  rw [hchars, signs?_short, if_pos h]
  rfl

theorem spelled_wide {a b c d : Char} (h : allHex [a, b, c, d]) :
    Spelled ['\\', 'u', a, b, c, d] [.char (charOf (ofHex [a, b, c, d]))] := fun rest => by
  have hchars : chars (['\\', 'u', a, b, c, d] ++ rest) =
      '\\' :: 'u' :: a :: b :: c :: d :: chars rest := by
    have hds := chars_append_of_allHex h rest
    simpa [chars_cons_ascii] using hds
  rw [hchars, signs?_wide, if_pos h]
  rfl

theorem charOf_toNat (c : Char) : charOf c.toNat = c := by
  have hc := toNat_scalar c
  rw [charOf, if_neg (by omega), Char.ofNat_toNat]

theorem digit?_digitChar {k : Nat} (h : k < 16) : Numeral.digit? 16 k.digitChar = some k :=
  Numeral.digit?_digitChar_all 16 (by decide) k h

theorem allHex_digitChar {ks : List Nat} (h : ∀ k ∈ ks, k < 16) :
    allHex (ks.map Nat.digitChar) := by
  simp only [allHex, List.all_map, List.all_eq_true, Function.comp_apply]
  intro k hk
  rw [digit?_digitChar (h k hk)]
  rfl

/-- The value of two digits, and of four. -/
theorem hex_two {n : Nat} (h : n < 0x100) :
    ∃ a b, hex 2 n = [a, b] ∧ allHex [a, b] ∧ ofHex [a, b] = n := by
  refine ⟨(n / 16).digitChar, (n % 16).digitChar, ?_, ?_, ?_⟩
  · rcases Nat.lt_or_ge n 16 with hn | hn
    · have hzero : n / 16 = 0 := by omega
      rw [hex, Nat.toDigits_of_lt_base hn, hzero, Nat.mod_eq_of_lt hn]
      rfl
    · rw [hex, Nat.toDigits_of_base_le (by decide) hn, Nat.toDigits_of_lt_base (by omega)]
      rfl
  · have hall : allHex ([n / 16, n % 16].map Nat.digitChar) := allHex_digitChar (by simp; omega)
    exact hall
  · simp only [ofHex, List.foldl, digit?_digitChar (show n / 16 < 16 by omega),
      digit?_digitChar (show n % 16 < 16 by omega), Option.getD_some]
    omega

theorem hex_four {n : Nat} (h : 0x1000 ≤ n) (h' : n < 0x10000) :
    ∃ a b c d, hex 1 n = [a, b, c, d] ∧ allHex [a, b, c, d] ∧ ofHex [a, b, c, d] = n := by
  refine ⟨(n / 16 / 16 / 16).digitChar, (n / 16 / 16 % 16).digitChar, (n / 16 % 16).digitChar,
    (n % 16).digitChar, ?_, ?_, ?_⟩
  · rw [hex, Nat.toDigits_of_base_le (by decide) (by omega),
      Nat.toDigits_of_base_le (by decide) (by omega),
      Nat.toDigits_of_base_le (by decide) (by omega), Nat.toDigits_of_lt_base (by omega)]
    rfl
  · have hall : allHex ([n / 16 / 16 / 16, n / 16 / 16 % 16, n / 16 % 16, n % 16].map
        Nat.digitChar) := allHex_digitChar (by simp; omega)
    exact hall
  · simp only [ofHex, List.foldl, digit?_digitChar (show n / 16 / 16 / 16 < 16 by omega),
      digit?_digitChar (show n / 16 / 16 % 16 < 16 by omega),
      digit?_digitChar (show n / 16 % 16 < 16 by omega),
      digit?_digitChar (show n % 16 < 16 by omega), Option.getD_some]
    omega

/-- **A plain character is escaped as itself.** -/
theorem spelled_escapeChar {c : Char} (h : isPlain c) : Spelled (escapeChar c) [.char c] := by
  unfold escapeChar
  by_cases hprint : isPrintable c
  · rw [if_pos hprint]
    split_ifs with hmeta
    · exact spelled_escaped (if_pos hmeta)
    · exact spelled_char (by simpa using hmeta)
  rw [if_neg hprint]
  cases hl : controlLetter? c with
  | some l =>
    refine spelled_escaped ?_
    unfold controlLetter? at hl
    split at hl <;> cases hl <;> rfl
  | none =>
    dsimp only
    split_ifs with hlt
    · obtain ⟨a, b, hhex, hall, hvalue⟩ := hex_two hlt
      have hspelled := spelled_short hall
      rwa [hvalue, charOf_toNat, ← hhex] at hspelled
    · have hrange : 0x1000 ≤ c.toNat ∧ c.toNat < 0x10000 := by
        simpa [isPlain, hprint, hlt] using h
      obtain ⟨a, b, d, e, hhex, hall, hvalue⟩ := hex_four hrange.1 hrange.2
      have hspelled := spelled_wide hall
      rwa [hvalue, charOf_toNat, ← hhex] at hspelled

/-- **A text of plain characters is escaped as itself.** -/
theorem spelled_escape {s : List Char} (h : ∀ c ∈ chars s, isPlain c) :
    Spelled (escape s) ((chars s).map .char) := by
  have hescape : escape s = (chars s).flatMap escapeChar := by
    rw [escape, chars, List.flatMap_map]
  rw [hescape]
  generalize chars s = cs at h
  induction cs with
  | nil => exact .nil
  | cons c cs ih =>
    rw [List.flatMap_cons]
    exact (spelled_escapeChar (h c List.mem_cons_self)).append
      (ih fun d hd => h d (List.mem_cons_of_mem c hd))

/-! ## Reading back -/

theorem controlOf_of_escaped? {l c : Char} (h : escaped? l = some c) : controlOf l = c := by
  have hmeta : metaChars.all (fun d => controlOf d == d) = true := by decide
  unfold escaped? at h
  split_ifs at h with hm
  · obtain rfl := Option.some.inj h
    simpa using List.all_eq_true.mp hmeta l (by simpa using hm)
  · exact Option.some.inj h

/-- The first sign of characters is a character. -/
theorem exists_of_map_cons {o : Option (List Sign)} {x : Sign} {cs : List Char}
    (h : o.map (x :: ·) = some (cs.map .char)) :
    ∃ c r, x = .char c ∧ cs = c :: r ∧ o = some (r.map .char) := by
  obtain ⟨ss, rfl, hss⟩ := Option.map_eq_some_iff.mp h
  cases cs with
  | nil => exact absurd hss (by simp)
  | cons c r =>
    obtain ⟨rfl, rfl⟩ := List.cons.inj hss
    exact ⟨c, r, rfl, rfl, rfl⟩

/-- **An expression of characters is read back as these characters.** -/
theorem unescape_of_signs? {s cs : List Char} (h : signs? s = some (cs.map .char)) :
    unescape s = cs := by
  fun_induction signs? s generalizing cs with
  | case1 a b c d r hhex ih =>
    obtain ⟨_, cs, ⟨⟩, rfl, hr⟩ := exists_of_map_cons h
    rw [unescape, ih hr]
  | case3 a b r hhex ih =>
    obtain ⟨_, cs, ⟨⟩, rfl, hr⟩ := exists_of_map_cons h
    rw [unescape, ih hr]
  | case5 l r hwide hshort ih =>
    obtain ⟨c, hl, h⟩ := Option.bind_eq_some_iff.mp h
    obtain ⟨_, cs, ⟨⟩, rfl, hr⟩ := exists_of_map_cons h
    rw [unescape, ih hr, controlOf_of_escaped? hl]
    · exact hwide
    · exact hshort
  | case11 c r hwide hshort hback _ _ _ _ _ ih =>
    obtain ⟨_, cs, ⟨⟩, rfl, hr⟩ := exists_of_map_cons h
    rw [unescape, ih hr]
    · exact hwide
    · exact hshort
    · exact hback
  | case12 =>
    obtain rfl : cs = [] := by simpa using h.symm
    rfl
  | case6 | case7 | case8 | case9 =>
    obtain ⟨_, _, hx, -, -⟩ := exists_of_map_cons h
    exact nomatch hx
  | case2 | case4 | case10 => exact nomatch h

end ScriptLift.Pattern
