import Mathlib.Tactic
import ScriptLift.Text.Utf8

/-!
# Characters of a byte text

A byte text falls into encoded characters and stray bytes. Nothing is lost by cutting it up, and a
character of ASCII is a place where it can be cut.

* `decodeChar?_encodeChar_append`, `eq_encodeChar_append`: decoding the front of a text and encoding
  a character undo each other.
* `pieces_induction`: induction along the pieces of a text.
* **`toUnicode_ofUnicode`**: a Unicode string is read back from its bytes; `IsUtf8` are such bytes.
* `chars`: the characters that a byte text is read as; `chars_append_ascii`.
-/

namespace ScriptLift.Text

/-! ## Bytes -/

theorem toNat_byte (n : Nat) : (byte n).toNat = n % 256 := by
  have hlt : n % 256 < 256 := Nat.mod_lt _ (by decide)
  have hvalid : (n % 256).isValidChar := .inl (by omega)
  rw [byte, Char.ofNat, dif_pos hvalid]
  rfl

theorem toNat_byte_of_lt {n : Nat} (h : n < 256) : (byte n).toNat = n := by
  rw [toNat_byte, Nat.mod_eq_of_lt h]

theorem byte_eq {n : Nat} {a : Char} (h : n = a.toNat) (ha : a.toNat < 256) : byte n = a := by
  rw [byte, h, Nat.mod_eq_of_lt ha, Char.ofNat_toNat]

theorem isTail_byte (n : Nat) : isTail (byte (0x80 + n % 64)) = true := by
  rw [isTail, toNat_byte_of_lt (by omega), Bool.and_eq_true, decide_eq_true_eq, decide_eq_true_eq]
  omega

theorem isTail_iff {a : Char} : isTail a = true ↔ 0x80 ≤ a.toNat ∧ a.toNat ≤ 0xBF := by
  rw [isTail, Bool.and_eq_true, decide_eq_true_eq, decide_eq_true_eq]

/-- The value of a character is none of a surrogate. -/
theorem toNat_scalar (c : Char) : (c.toNat < 0xD800 ∨ 0xDFFF < c.toNat) ∧ c.toNat < 0x110000 := by
  rcases c.valid with h | ⟨h₁, h₂⟩
  · have h : c.toNat < 0xD800 := h
    omega
  · have h₁ : 0xDFFF < c.toNat := h₁
    have h₂ : c.toNat < 0x110000 := h₂
    omega

theorem scalar?_toNat {least : Nat} {c : Char} (h : least ≤ c.toNat) :
    scalar? least c.toNat = some c := by
  rw [scalar?, if_pos ⟨h, toNat_scalar c⟩, Char.ofNat_toNat]

theorem toNat_of_scalar? {least n : Nat} {c : Char} (h : scalar? least n = some c) :
    c.toNat = n ∧ least ≤ n := by
  rw [scalar?] at h
  split_ifs at h with hn
  obtain ⟨hleast, hscalar, hlt⟩ := hn
  have hvalid : n.isValidChar := by
    rcases hscalar with h | h
    · exact .inl h
    · exact .inr ⟨h, hlt⟩
  cases h
  refine ⟨?_, hleast⟩
  rw [Char.ofNat, dif_pos hvalid]
  rfl

/-! ## One character -/

theorem encodeChar_ne_nil (c : Char) : encodeChar c ≠ [] := by
  unfold encodeChar
  extract_lets n
  split_ifs <;> simp

theorem encodeChar_ascii {c : Char} (h : c.toNat < 0x80) : encodeChar c = [c] := by
  rw [encodeChar]
  simp only [if_pos h, byte_eq rfl (show c.toNat < 256 by omega)]

/-- The bytes of a character behind its first one are none of ASCII. -/
theorem isTail_of_mem {c a b : Char} {r : List Char} (h : encodeChar c = a :: r) (hb : b ∈ r) :
    isTail b = true := by
  unfold encodeChar at h
  extract_lets n at h
  split_ifs at h <;> obtain ⟨-, rfl⟩ := List.cons.inj h
  · cases hb
  all_goals
    simp only [List.mem_cons, List.not_mem_nil, or_false] at hb
    rcases hb with rfl | rfl | rfl <;> exact isTail_byte _

/-- **The character in front of bytes is the one that was encoded.** -/
theorem decodeChar?_encodeChar_append (c : Char) (r : List Char) :
    decodeChar? (encodeChar c ++ r) = some (c, (encodeChar c).length) := by
  have hc := toNat_scalar c
  have htail : ∀ k, (byte (0x80 + k % 64)).toNat = 0x80 + k % 64 := fun k =>
    toNat_byte_of_lt (by omega)
  unfold encodeChar
  extract_lets n
  have hn : n = c.toNat := rfl
  split_ifs with h₁ h₂ h₃
  · have hb : byte n = c := byte_eq hn (by omega)
    simp only [hb, List.cons_append, decodeChar?, ← hn, if_pos h₁, List.length_singleton]
  · have ha : (byte (0xC0 + n / 64)).toNat = 0xC0 + n / 64 := toNat_byte_of_lt (by omega)
    have hv : (0xC0 + n / 64 - 0xC0) * 64 + (0x80 + n % 64 - 0x80) = c.toNat := by omega
    simp only [List.cons_append, List.nil_append, decodeChar?, ha, htail, isTail_byte, hv]
    rw [if_neg (by omega), if_pos (by simp; omega)]
    simp [scalar?_toNat (show 0x80 ≤ c.toNat by omega)]
  · have ha : (byte (0xE0 + n / 4096)).toNat = 0xE0 + n / 4096 := toNat_byte_of_lt (by omega)
    have hv : (0xE0 + n / 4096 - 0xE0) * 4096 + (0x80 + n / 64 % 64 - 0x80) * 64
        + (0x80 + n % 64 - 0x80) = c.toNat := by omega
    simp only [List.cons_append, List.nil_append, decodeChar?, ha, htail, isTail_byte, hv]
    rw [if_neg (by omega), if_neg (by simp; omega), if_pos (by simp; omega)]
    simp [scalar?_toNat (show 0x800 ≤ c.toNat by omega)]
  · have ha : (byte (0xF0 + n / 262144)).toNat = 0xF0 + n / 262144 := toNat_byte_of_lt (by omega)
    have hv : (0xF0 + n / 262144 - 0xF0) * 262144 + (0x80 + n / 4096 % 64 - 0x80) * 4096
        + (0x80 + n / 64 % 64 - 0x80) * 64 + (0x80 + n % 64 - 0x80) = c.toNat := by omega
    simp only [List.cons_append, List.nil_append, decodeChar?, ha, htail, isTail_byte, hv]
    rw [if_neg (by omega), if_neg (by simp; omega), if_neg (by simp; omega),
      if_pos (by simp; omega)]
    simp [scalar?_toNat (show 0x10000 ≤ c.toNat by omega)]

theorem mem_encodeChar_ascii {a c : Char} (ha : a.toNat < 0x80) : a ∈ encodeChar c ↔ a = c := by
  constructor
  · intro h
    obtain ⟨b, r, hc⟩ := List.exists_cons_of_ne_nil (encodeChar_ne_nil c)
    rw [hc, List.mem_cons] at h
    rcases h with rfl | h
    · have hd := decodeChar?_encodeChar_append c []
      rw [List.append_nil, hc] at hd
      simpa [decodeChar?, ha] using congrArg (Option.map Prod.fst) hd
    · have htail := isTail_iff.mp (isTail_of_mem hc h)
      omega
  · rintro rfl
    rw [encodeChar_ascii ha]
    exact List.mem_singleton_self a

/-- **A text starts with the bytes of the character that is read in front of it.** -/
theorem eq_encodeChar_append {s : List Char} {c : Char} {n : Nat} (h : decodeChar? s = some (c, n)) :
    ∃ r, s = encodeChar c ++ r := by
  match s with
  | [] => simp [decodeChar?] at h
  | a :: r =>
    unfold decodeChar? at h
    dsimp only at h
    split_ifs at h with h₁ h₂ h₃ h₄
    · obtain ⟨rfl, -⟩ := Prod.mk.inj (Option.some.inj h)
      exact ⟨r, by rw [encodeChar_ascii h₁]; rfl⟩
    · obtain ⟨ha, ha'⟩ : 0xC2 ≤ a.toNat ∧ a.toNat ≤ 0xDF := by simpa using h₂
      split at h
      · next b r =>
        split_ifs at h with hb
        obtain ⟨x, hx, hxc⟩ := Option.map_eq_some_iff.mp h
        obtain ⟨rfl, -⟩ := Prod.mk.inj hxc
        obtain ⟨hv, hleast⟩ := toNat_of_scalar? hx
        rw [isTail_iff] at hb
        refine ⟨r, ?_⟩
        simp only [encodeChar, if_neg (show ¬ x.toNat < 0x80 by omega),
          if_pos (show x.toNat < 0x800 by omega)]
        rw [byte_eq (show 0xC0 + x.toNat / 64 = a.toNat by omega) (by omega),
          byte_eq (show 0x80 + x.toNat % 64 = b.toNat by omega) (by omega)]
        rfl
      · cases h
    · obtain ⟨ha, ha'⟩ : 0xE0 ≤ a.toNat ∧ a.toNat ≤ 0xEF := by simpa using h₃
      split at h
      · next b d r =>
        split_ifs at h with hbd
        obtain ⟨x, hx, hxc⟩ := Option.map_eq_some_iff.mp h
        obtain ⟨rfl, -⟩ := Prod.mk.inj hxc
        obtain ⟨hv, hleast⟩ := toNat_of_scalar? hx
        rw [Bool.and_eq_true, isTail_iff, isTail_iff] at hbd
        refine ⟨r, ?_⟩
        simp only [encodeChar, if_neg (show ¬ x.toNat < 0x80 by omega),
          if_neg (show ¬ x.toNat < 0x800 by omega), if_pos (show x.toNat < 0x10000 by omega)]
        rw [byte_eq (show 0xE0 + x.toNat / 4096 = a.toNat by omega) (by omega),
          byte_eq (show 0x80 + x.toNat / 64 % 64 = b.toNat by omega) (by omega),
          byte_eq (show 0x80 + x.toNat % 64 = d.toNat by omega) (by omega)]
        rfl
      · cases h
    · obtain ⟨ha, ha'⟩ : 0xF0 ≤ a.toNat ∧ a.toNat ≤ 0xF4 := by simpa using h₄
      split at h
      · next b d e r =>
        split_ifs at h with hbde
        obtain ⟨x, hx, hxc⟩ := Option.map_eq_some_iff.mp h
        obtain ⟨rfl, -⟩ := Prod.mk.inj hxc
        obtain ⟨hv, hleast⟩ := toNat_of_scalar? hx
        rw [Bool.and_eq_true, Bool.and_eq_true, isTail_iff, isTail_iff, isTail_iff] at hbde
        refine ⟨r, ?_⟩
        simp only [encodeChar, if_neg (show ¬ x.toNat < 0x80 by omega),
          if_neg (show ¬ x.toNat < 0x800 by omega), if_neg (show ¬ x.toNat < 0x10000 by omega)]
        rw [byte_eq (show 0xF0 + x.toNat / 262144 = a.toNat by omega) (by omega),
          byte_eq (show 0x80 + x.toNat / 4096 % 64 = b.toNat by omega) (by omega),
          byte_eq (show 0x80 + x.toNat / 64 % 64 = d.toNat by omega) (by omega),
          byte_eq (show 0x80 + x.toNat % 64 = e.toNat by omega) (by omega)]
        rfl
      · cases h

/-! ## Pieces -/

theorem pieces_encodeChar_append (c : Char) (r : List Char) :
    pieces (encodeChar c ++ r) = .char c :: pieces r := by
  have hd := decodeChar?_encodeChar_append c r
  obtain ⟨a, s, hs⟩ := List.exists_cons_of_ne_nil (encodeChar_ne_nil c)
  rw [hs, List.cons_append] at hd ⊢
  rw [pieces, hd]
  simp

theorem pieces_cons_of_stray {a : Char} {r : List Char} (h : decodeChar? (a :: r) = none) :
    pieces (a :: r) = .stray a :: pieces r := by
  rw [pieces, h]

/-- **Induction along the pieces of a text.** -/
theorem pieces_induction {P : List Char → Prop} (nil : P [])
    (char : ∀ c r, P r → P (encodeChar c ++ r))
    (stray : ∀ a r, decodeChar? (a :: r) = none → P r → P (a :: r)) (s : List Char) : P s := by
  match s with
  | [] => exact nil
  | a :: r =>
    cases h : decodeChar? (a :: r) with
    | none => exact stray a r h (pieces_induction nil char stray r)
    | some x =>
      obtain ⟨t, ht⟩ := eq_encodeChar_append h
      have hlt : t.length < (a :: r).length := by
        rw [ht, List.length_append]
        exact Nat.lt_add_of_pos_left (List.length_pos_of_ne_nil (encodeChar_ne_nil x.1))
      rw [ht]
      exact char x.1 t (pieces_induction nil char stray t)
termination_by s.length
decreasing_by
  · exact Nat.lt_succ_self _
  · exact hlt

theorem pieces_flatMap_append (cs r : List Char) :
    pieces (cs.flatMap encodeChar ++ r) = cs.map .char ++ pieces r := by
  induction cs with
  | nil => rfl
  | cons c cs ih =>
    rw [List.flatMap_cons, List.append_assoc, pieces_encodeChar_append, ih, List.map_cons,
      List.cons_append]

/-! ## Unicode strings -/

theorem toList_ofUnicode (s : String) : (ofUnicode s).toList = s.toList.flatMap encodeChar := by
  rw [ofUnicode, String.toList_ofList]

/-- **A Unicode string is read back from its bytes.** -/
theorem toUnicode_ofUnicode (s : String) : toUnicode (ofUnicode s) = s := by
  have h := pieces_flatMap_append s.toList []
  rw [List.append_nil, pieces, List.append_nil] at h
  simp [toUnicode, toList_ofUnicode, h, Function.comp_def, Piece.toChar]

/-- A byte text that is well-formed UTF-8. -/
def IsUtf8 (s : String) : Prop := ∃ u, s = ofUnicode u

theorem isUtf8_join {texts : List String} (h : ∀ t ∈ texts, IsUtf8 t) :
    IsUtf8 (String.join texts) := by
  induction texts with
  | nil => exact ⟨"", rfl⟩
  | cons t ts ih =>
    obtain ⟨u, rfl⟩ := h t List.mem_cons_self
    obtain ⟨v, hv⟩ := ih fun t' ht' => h t' (List.mem_cons_of_mem _ ht')
    refine ⟨u ++ v, ?_⟩
    rw [String.join_cons, hv]
    simp [ofUnicode]

/-! ## Characters of any bytes -/

/-- The characters that bytes are read as; a stray byte reads as U+FFFD. -/
def chars (s : List Char) : List Char := (pieces s).map Piece.toChar

theorem toList_toUnicode (s : String) : (toUnicode s).toList = chars s.toList := by
  rw [toUnicode, String.toList_ofList, chars]

@[simp] theorem chars_nil : chars [] = [] := by rw [chars, pieces]; rfl

@[simp] theorem chars_encodeChar_append (c : Char) (r : List Char) :
    chars (encodeChar c ++ r) = c :: chars r := by
  rw [chars, pieces_encodeChar_append]
  rfl

theorem chars_cons_ascii {a : Char} (ha : a.toNat < 0x80) (r : List Char) :
    chars (a :: r) = a :: chars r := by
  have h := chars_encodeChar_append a r
  rwa [encodeChar_ascii ha] at h

theorem chars_cons_of_stray {a : Char} {r : List Char} (h : decodeChar? (a :: r) = none) :
    chars (a :: r) = '\uFFFD' :: chars r := by
  rw [chars, pieces_cons_of_stray h]
  rfl

/-- A byte that is stray stays so before a character of ASCII, which continues none. -/
theorem decodeChar?_append_ascii {x a : Char} (ha : a.toNat < 0x80) {s r : List Char}
    (h : decodeChar? (x :: s) = none) : decodeChar? (x :: (s ++ a :: r)) = none := by
  by_contra hne
  obtain ⟨⟨c, n⟩, hc⟩ := Option.ne_none_iff_exists'.mp hne
  obtain ⟨t, ht⟩ := eq_encodeChar_append hc
  rw [← List.cons_append, List.append_eq_append_iff] at ht
  rcases ht with ⟨u, hu, hr⟩ | ⟨u, hu, -⟩
  · cases u with
    | nil =>
      rw [List.append_nil] at hu
      have hd := decodeChar?_encodeChar_append c []
      rw [List.append_nil, hu, h] at hd
      cases hd
    | cons b u =>
      obtain ⟨rfl, -⟩ := List.cons.inj hr
      have htail := isTail_of_mem hu (List.mem_append_right s List.mem_cons_self)
      rw [isTail_iff] at htail
      omega
  · rw [hu, decodeChar?_encodeChar_append] at h
    cases h

/-- **A text can be cut before a character of ASCII.** -/
theorem chars_append_ascii {a : Char} (ha : a.toNat < 0x80) (s r : List Char) :
    chars (s ++ a :: r) = chars s ++ a :: chars r := by
  induction s using pieces_induction with
  | nil => rw [List.nil_append, chars_cons_ascii ha, chars_nil, List.nil_append]
  | char c s ih =>
    rw [List.append_assoc, chars_encodeChar_append, ih, chars_encodeChar_append, List.cons_append]
  | stray x s hx ih =>
    rw [List.cons_append, chars_cons_of_stray (decodeChar?_append_ascii ha hx), ih,
      chars_cons_of_stray hx, List.cons_append]

theorem chars_intercalate {a : Char} (ha : a.toNat < 0x80) : ∀ parts : List (List Char),
    chars (List.intercalate [a] parts) = List.intercalate [a] (parts.map chars)
  | [] => by simp
  | [x] => by simp
  | x :: y :: ys => by
    have ih := chars_intercalate ha (y :: ys)
    simp only [List.map_cons, List.intercalate_cons_cons, List.append_assoc,
      List.singleton_append] at ih ⊢
    rw [chars_append_ascii ha, ih]

/-- **A character of ASCII is read where its byte stands.** -/
theorem mem_chars_ascii {a : Char} (ha : a.toNat < 0x80) {s : List Char} :
    a ∈ chars s ↔ a ∈ s := by
  induction s using pieces_induction with
  | nil => rw [chars_nil]
  | char c s ih =>
    rw [chars_encodeChar_append, List.mem_cons, List.mem_append, mem_encodeChar_ascii ha, ih]
  | stray x s hx ih =>
    have hne : a ≠ x := by
      rintro rfl
      simp [decodeChar?, ha] at hx
    have hne' : a ≠ '\uFFFD' := by
      rintro rfl
      exact absurd ha (by decide)
    rw [chars_cons_of_stray hx, List.mem_cons, List.mem_cons, ih, or_iff_right hne,
      or_iff_right hne']

end ScriptLift.Text
