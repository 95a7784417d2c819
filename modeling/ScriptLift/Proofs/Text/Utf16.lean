import ScriptLift.Proofs.Text.Utf8
import ScriptLift.Text.Utf16

/-!
# Codecs of UTF-16

A codec is given text in pieces that may end inside a character. What is relied on is that it writes
whole characters at once, keeps the first bytes of another for the next piece, and reads the code
units of characters back.

* `Spells`: the characters that code units spell; `spells_units_append`.
* `Begins`: bytes that begin a character; `exists_whole_of_append_eq`: the whole characters at hand.
* `Codec.IsUtf16`: what is relied on of a codec.
* `isPartial_of_append_eq`, `isPartial_encodeChar_append`: bytes wait exactly while some are missing.
* `charsAndRest_append`, `decode16_of_spells`: the characters of a text, and of UTF-16.
* **`Codec.isUtf16_standard`**: the codec in use can be relied on.
-/

namespace ScriptLift.Text

/-! ## Code units -/

/-- **The characters that code units spell.** A unit that is no surrogate spells the character with
its value, and a pair of surrogates one beyond the basic plane. -/
inductive Spells : List Nat → List Char → Prop
  | nil : Spells [] []
  | unit {u : Nat} {us : List Nat} {cs : List Char} (hu : u < 0xD800 ∨ 0xE000 ≤ u)
    (hlt : u < 0x10000) (h : Spells us cs) : Spells (u :: us) (Char.ofNat u :: cs)
  | pair {u v : Nat} {us : List Nat} {cs : List Char} (hu : 0xD800 ≤ u ∧ u < 0xDC00)
    (hv : 0xDC00 ≤ v ∧ v < 0xE000) (h : Spells us cs) :
    Spells (u :: v :: us) (Char.ofNat (0x10000 + (u - 0xD800) * 1024 + (v - 0xDC00)) :: cs)

/-- **The code units of a character in front of others spell it.** -/
theorem spells_units_append (c : Char) {us : List Nat} {cs : List Char} (h : Spells us cs) :
    Spells (units c ++ us) (c :: cs) := by
  have hc := toNat_scalar c
  unfold units
  extract_lets n
  have hn : n = c.toNat := rfl
  split_ifs with hlt
  · have hchar : Char.ofNat n = c := Char.ofNat_toNat c
    have hunit := Spells.unit (u := n) (by omega) hlt h
    rwa [hchar] at hunit
  · have hpair := Spells.pair (u := 0xD800 + (n - 0x10000) / 1024)
      (v := 0xDC00 + (n - 0x10000) % 1024) (by omega) (by omega) h
    have hvalue : 0x10000 + (0xD800 + (n - 0x10000) / 1024 - 0xD800) * 1024
        + (0xDC00 + (n - 0x10000) % 1024 - 0xDC00) = c.toNat := by omega
    rwa [hvalue, Char.ofNat_toNat] at hpair

/-- The code units of characters spell them. -/
theorem spells_flatMap_units (cs : List Char) : Spells (cs.flatMap units) cs := by
  induction cs with
  | nil => exact .nil
  | cons c cs ih => exact spells_units_append c ih

/-! ## Beginnings of characters -/

/-- **Bytes that begin a character** and lack its last ones. -/
def Begins (s : List Char) : Prop := ∃ c t, t ≠ [] ∧ s ++ t = encodeChar c

theorem begins_nil : Begins [] := ⟨'a', _, encodeChar_ne_nil 'a', rfl⟩

/-- **A text that is cut anywhere** starts with whole characters, and what stands behind them before
the cut begins another. -/
theorem exists_whole_of_append_eq {cs s t : List Char} (h : s ++ t = cs.flatMap encodeChar) :
    ∃ done rest pending, cs = done ++ rest ∧ s = done.flatMap encodeChar ++ pending ∧
      Begins pending ∧ pending ++ t = rest.flatMap encodeChar ∧ (t = [] → rest = []) := by
  induction cs generalizing s with
  | nil =>
    obtain ⟨rfl, rfl⟩ := List.append_eq_nil_iff.mp h
    exact ⟨[], [], [], rfl, rfl, begins_nil, rfl, fun _ => rfl⟩
  | cons c cs ih =>
    -- either the first character is not whole yet, or it is and the rest goes on
    have hcut : (∃ u, u ≠ [] ∧ s ++ u = encodeChar c ∧ t ≠ []) ∨
        ∃ s', s = encodeChar c ++ s' ∧ s' ++ t = cs.flatMap encodeChar := by
      rw [List.flatMap_cons, List.append_eq_append_iff] at h
      rcases h with ⟨u, hu, ht⟩ | ⟨s', hs, hs'⟩
      · rcases eq_or_ne u [] with rfl | hne
        · exact .inr ⟨[], by simpa using hu.symm, by simpa using ht⟩
        · exact .inl ⟨u, hne, hu.symm, by simp [ht, hne]⟩
      · exact .inr ⟨s', hs, hs'.symm⟩
    rcases hcut with ⟨u, hu, hs, ht⟩ | ⟨s', rfl, hs'⟩
    · exact ⟨[], c :: cs, s, rfl, rfl, ⟨c, u, hu, hs⟩, h, fun h => absurd h ht⟩
    · obtain ⟨done, rest, pending, rfl, rfl, hbegins, hrest, hend⟩ := ih hs'
      exact ⟨c :: done, rest, pending, rfl, by simp, hbegins, hrest, hend⟩

/-! ## What is relied on -/

/-- **A codec of UTF-16**, where `held` is what it keeps in a state. Whole characters are written as
their code units, and the first bytes of another one are kept for the next piece; with none kept, the
end of the text adds nothing. Behind the byte order mark, code units are read as what they spell.
Nothing is asked of bytes that are no text. -/
structure Codec.IsUtf16 {σ : Type} (codec : Codec σ) (held : σ → List Char) : Prop where
  start : held codec.start = []
  step {s : σ} {text : String} {cs rest : List Char}
    (h : held s ++ text.toList = cs.flatMap encodeChar ++ rest) (hrest : Begins rest) :
    (codec.step s text).1.flatten = cs.flatMap charBytes16 ∧ held (codec.step s text).2 = rest
  stop {s : σ} (h : held s = []) : (codec.stop s).flatten = []
  decode {us : List Nat} {cs : List Char} (h : Spells us cs) :
    codec.decode (mark16 ++ String.ofList (us.flatMap unitBytes)) =
      .ok (ofUnicode (String.ofList cs))

/-! ## Decoding -/

/-- No character starts with the first byte of the byte order mark. -/
theorem ne_mark_of_encodeChar_eq {c a : Char} {r : List Char} (h : encodeChar c = a :: r) :
    a ≠ '\xff' := by
  have hc := toNat_scalar c
  have hlt : a.toNat < 0xF8 := by
    unfold encodeChar at h
    extract_lets n at h
    have hn : n = c.toNat := rfl
    split_ifs at h <;>
      · obtain ⟨rfl, -⟩ := List.cons.inj h
        rw [toNat_byte]
        omega
  rintro rfl
  exact absurd hlt (by decide)

/-- **UTF-8 is taken as it is.** -/
theorem decodeWith_ofUnicode (decode : String → Except String String) (s : String) :
    decodeWith decode (ofUnicode s) = .ok (ofUnicode s) := by
  rw [decodeWith, if_neg]
  rw [startsWith, List.isPrefixOf_iff_prefix, toList_ofUnicode]
  rintro ⟨t, ht⟩
  have ht : '\xff' :: '\xfe' :: t = s.toList.flatMap encodeChar := ht
  cases hs : s.toList with
  | nil => simp [hs] at ht
  | cons c cs =>
    obtain ⟨a, r, hc⟩ := List.exists_cons_of_ne_nil (encodeChar_ne_nil c)
    rw [hs, List.flatMap_cons, hc, List.cons_append, List.cons.injEq] at ht
    exact ne_mark_of_encodeChar_eq hc ht.1.symm

theorem startsWith_append (p s : String) : startsWith p (p ++ s) = true := by
  rw [startsWith, String.toList_append, List.isPrefixOf_iff_prefix]
  exact List.prefix_append p.toList s.toList

/-- **UTF-16 behind its byte order mark is read as UTF-8.** -/
theorem decodeWith_utf16 {σ : Type} {codec : Codec σ} {held : σ → List Char}
    (hcodec : codec.IsUtf16 held) (s : String) :
    decodeWith codec.decode (String.ofList ((byteOrderMark :: s.toList).flatMap charBytes16)) =
      .ok (ofUnicode s) := by
  have hmark : charBytes16 byteOrderMark = mark16.toList := by decide
  have hunits : s.toList.flatMap charBytes16 = (s.toList.flatMap units).flatMap unitBytes := by
    rw [List.flatMap_assoc]
    rfl
  rw [List.flatMap_cons, hmark, String.ofList_append, String.ofList_toList, hunits, decodeWith,
    if_pos (startsWith_append _ _), hcodec.decode (spells_flatMap_units s.toList),
    String.ofList_toList]

/-! ## Bytes that wait -/

/-- The first byte of a character announces how many there are. -/
theorem announced_of_encodeChar_eq {c a : Char} {r : List Char} (h : encodeChar c = a :: r) :
    announced a = r.length + 1 := by
  have hc := toNat_scalar c
  unfold encodeChar at h
  extract_lets n at h
  have hn : n = c.toNat := rfl
  split_ifs at h <;>
    · obtain ⟨rfl, rfl⟩ := List.cons.inj h
      simp only [announced, toNat_byte, List.length_nil, List.length_cons]
      split_ifs <;> omega

/-- The second byte of a character may follow its first one. -/
theorem maySecond_of_encodeChar_eq {c a b : Char} {r : List Char}
    (h : encodeChar c = a :: b :: r) : maySecond a b = true := by
  have hc := toNat_scalar c
  unfold encodeChar at h
  extract_lets n at h
  have hn : n = c.toNat := rfl
  split_ifs at h <;> simp only [List.cons.injEq, reduceCtorEq, and_false] at h <;>
    · obtain ⟨rfl, rfl, rfl⟩ := h
      simp only [maySecond, toNat_byte, Bool.and_eq_true, decide_eq_true_eq]
      constructor <;> split_ifs <;> omega

theorem length_encodeChar_le (c : Char) : (encodeChar c).length ≤ 4 := by
  unfold encodeChar
  extract_lets n
  split_ifs <;> simp

/-- Bytes that wait are fewer than their first one announces. -/
theorem length_lt_of_isPartial {a : Char} {s : List Char} (h : isPartial (a :: s) = true) :
    s.length + 1 < announced a := by
  match s with
  | [] => simpa [isPartial] using h
  | [_] | [_, _] =>
    simp only [isPartial, Bool.and_eq_true, decide_eq_true_eq] at h
    simp only [List.length_cons, List.length_nil]
    omega
  | _ :: _ :: _ :: _ => simp [isPartial] at h

/-- **The first bytes of a character wait for the others.** -/
theorem isPartial_of_append_eq {s u : List Char} {c : Char} (h : s ++ u = encodeChar c)
    (hs : s ≠ []) (hu : u ≠ []) : isPartial s = true := by
  have hlen : 0 < u.length := List.length_pos_of_ne_nil hu
  match s, hs with
  | [a], _ =>
    have h : encodeChar c = a :: u := h.symm
    simp only [isPartial, announced_of_encodeChar_eq h, decide_eq_true_eq]
    omega
  | [a, b], _ =>
    have h : encodeChar c = a :: b :: u := h.symm
    simp only [isPartial, announced_of_encodeChar_eq h, maySecond_of_encodeChar_eq h,
      List.length_cons, Bool.and_true, decide_eq_true_eq]
    omega
  | [a, b, d], _ =>
    have h : encodeChar c = a :: b :: d :: u := h.symm
    have hd : isTail d = true := isTail_of_mem h (by simp)
    simp only [isPartial, announced_of_encodeChar_eq h, maySecond_of_encodeChar_eq h, hd,
      List.length_cons, Bool.and_true, decide_eq_true_eq]
    omega
  | a :: b :: d :: e :: s, _ =>
    have hle := length_encodeChar_le c
    rw [← h] at hle
    simp only [List.length_append, List.length_cons] at hle
    omega

/-- A whole character waits for nothing. -/
theorem isPartial_encodeChar_append (c : Char) (r : List Char) :
    isPartial (encodeChar c ++ r) = false := by
  obtain ⟨a, s, hs⟩ := List.exists_cons_of_ne_nil (encodeChar_ne_nil c)
  rw [hs, List.cons_append, Bool.eq_false_iff]
  intro h
  have hlt := length_lt_of_isPartial h
  rw [announced_of_encodeChar_eq hs, List.length_append] at hlt
  omega

/-! ## Characters at hand -/

theorem charsAndRest_of_begins {s : List Char} (h : Begins s) : charsAndRest s = ([], s) := by
  obtain ⟨c, t, ht, hs⟩ := h
  cases s with
  | nil => rw [charsAndRest]
  | cons a s => rw [charsAndRest, if_pos (isPartial_of_append_eq hs (List.cons_ne_nil a s) ht)]

theorem charsAndRest_encodeChar_append (c : Char) (s : List Char) :
    charsAndRest (encodeChar c ++ s) = (c :: (charsAndRest s).1, (charsAndRest s).2) := by
  have hd := decodeChar?_encodeChar_append c s
  have hp := isPartial_encodeChar_append c s
  obtain ⟨a, r, hr⟩ := List.exists_cons_of_ne_nil (encodeChar_ne_nil c)
  rw [hr, List.cons_append] at hd hp ⊢
  rw [charsAndRest, if_neg (by simp [hp]), hd]
  simp

/-- **Characters are read off the bytes at hand**, and what begins another one is left. -/
theorem charsAndRest_append (cs : List Char) {rest : List Char} (h : Begins rest) :
    charsAndRest (cs.flatMap encodeChar ++ rest) = (cs, rest) := by
  induction cs with
  | nil => exact charsAndRest_of_begins h
  | cons c cs ih =>
    rw [List.flatMap_cons, List.append_assoc, charsAndRest_encodeChar_append, ih]

/-- **Chunks hold the parts, in order.** -/
theorem flatten_chunksFrom (limit size : Nat) (parts ps : List (List Char)) :
    (chunksFrom limit size parts ps).flatten = parts.reverse.flatten ++ ps.flatten := by
  induction ps generalizing size parts with
  | nil => simp [chunksFrom]
  | cons p ps ih =>
    rw [chunksFrom]
    split_ifs <;> simp [ih]

theorem flatten_writes16 (cs : List Char) : (writes16 cs).flatten = cs.flatMap charBytes16 := by
  rw [writes16, flatten_chunksFrom]
  rfl

/-! ## Characters of code units -/

theorem Spells.lt {us : List Nat} {cs : List Char} (h : Spells us cs) : ∀ u ∈ us, u < 0x10000 := by
  induction h with
  | nil => simp
  | unit _ hlt _ ih => exact List.forall_mem_cons.mpr ⟨hlt, ih⟩
  | pair hu hv _ ih =>
    exact List.forall_mem_cons.mpr ⟨by omega, List.forall_mem_cons.mpr ⟨by omega, ih⟩⟩

theorem toUnits_flatMap {us : List Nat} (h : ∀ u ∈ us, u < 0x10000) :
    toUnits (us.flatMap unitBytes) = (us, false) := by
  induction us with
  | nil => rfl
  | cons u us ih =>
    have hu := h u List.mem_cons_self
    have hunit : u % 256 % 256 + 256 * (u / 256 % 256) = u := by omega
    simp only [List.flatMap_cons, unitBytes, List.cons_append, List.nil_append, toUnits,
      ih fun v hv => h v (List.mem_cons_of_mem _ hv), toNat_byte, hunit]

/-- **Code units are read as the characters that they spell.** -/
theorem decodeUnits_of_spells {us : List Nat} {cs : List Char} (h : Spells us cs) :
    decodeUnits us = cs := by
  induction h with
  | nil => rfl
  | @unit u us cs hu hlt _ ih =>
    have hs : isSurrogate u = false := by
      simp only [isSurrogate, Bool.and_eq_false_iff, decide_eq_false_iff_not]
      omega
    cases us with
    | nil => simp [decodeUnits, hs, ← ih]
    | cons v us => simp [decodeUnits, hs, ih]
  | @pair u v us cs hu hv _ ih =>
    have hs : isSurrogate u = true := by
      simp only [isSurrogate, Bool.and_eq_true, decide_eq_true_eq]
      omega
    have hs' : isSecondSurrogate v = true := by
      simpa only [isSecondSurrogate, Bool.and_eq_true, decide_eq_true_eq] using hv
    simp only [decodeUnits, hs, hs', if_true, pairChar, if_pos hu.2, ih]

theorem decode16_of_spells {us : List Nat} {cs : List Char} (h : Spells us cs) :
    decode16 (us.flatMap unitBytes) = cs := by
  rw [decode16, toUnits_flatMap h.lt]
  simp [decodeUnits_of_spells h]

/-! ## The codec in use -/

/-- **The codec in use is one of UTF-16**; its state is what it keeps. -/
theorem Codec.isUtf16_standard : Codec.standard.IsUtf16 id where
  start := rfl
  step := by
    intro s text cs rest h hrest
    have hread : charsAndRest (s ++ text.toList) = (cs, rest) :=
      (congrArg charsAndRest h).trans (charsAndRest_append cs hrest)
    simp only [Codec.standard, hread, flatten_writes16, id_eq, and_self]
  stop := by
    rintro s rfl
    rfl
  decode := by
    intro us cs h
    have hbytes : (mark16 ++ String.ofList (us.flatMap unitBytes)).toList.drop 2 =
        us.flatMap unitBytes := by
      rw [String.toList_append, String.toList_ofList]
      rfl
    simp only [Codec.standard, if_pos (startsWith_append _ _), hbytes, decode16_of_spells h,
      ofUnicode, String.toList_ofList]

end ScriptLift.Text
