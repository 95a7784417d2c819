import ScriptLift.Proofs.Numeral

/-!
# What numerals denote

An integer of a listing is read exactly if it is spelled as one and fits a word of 64 bits; written
integers are read as what they stand for.

* `IsDigit`, `Digits`, `Signed`, `Denotes`: how integers are spelled.
* `readBelow_eq_ok_iff`, `readSigned_eq_ok_iff`: what digits, and digits with a sign, are read as.
* **`readInt_exact`**: what is read, what is refused, and written integers.
-/

namespace ScriptLift.Numeral

open Text (Padded)

/-! ## Spelling -/

/-- A character spells the digit `d` of a base; letters may be large or small. -/
def IsDigit (base : Nat) (c : Char) (d : Nat) : Prop :=
  d < base ∧ (c = d.digitChar ∨ c = d.digitChar.toUpper)

instance (base : Nat) (c : Char) (d : Nat) : Decidable (IsDigit base c d) :=
  inferInstanceAs (Decidable (_ ∧ _))

/-- Characters spell a number in a base. -/
def Digits (base : Nat) (s : List Char) (n : Nat) : Prop :=
  ∃ ds, List.Forall₂ (IsDigit base) s ds ∧ n = Nat.ofDigits base ds.reverse

/-- An optional sign and one or more digits spell an integer. -/
inductive Signed (base : Nat) : List Char → Int → Prop
  | bare {s n} : s ≠ [] → Digits base s n → Signed base s n
  | plus {s n} : s ≠ [] → Digits base s n → Signed base ('+' :: s) n
  | minus {s n} : s ≠ [] → Digits base s n → Signed base ('-' :: s) (-n)

/-- How integers of listings are spelled: in decimal, or in hexadecimal after `0x` or `0X`. -/
inductive Denotes : List Char → Int → Prop
  | decimal {s v} : Signed 10 s v → Denotes s v
  | hex {x s v} : x = 'x' ∨ x = 'X' → Signed 16 s v → Denotes ('0' :: x :: s) v

/-! ## Digits -/

theorem digit?_toUpper_digitChar : ∀ base < 17, ∀ d < base,
    digit? base d.digitChar.toUpper = some d := by decide

theorem ofNat_digitChar : (∀ d < 10, Char.ofNat (d + 48) = d.digitChar) ∧
    (∀ d < 16, 10 ≤ d → Char.ofNat (d + 87) = d.digitChar) ∧
    ∀ d < 16, 10 ≤ d → Char.ofNat (d + 55) = d.digitChar.toUpper := by decide

theorem digit?_eq_some_iff {base d : Nat} {c : Char} (hb : base ≤ 16) :
    digit? base c = some d ↔ IsDigit base c d := by
  constructor
  · intro h
    have hc : ∀ {n : Nat}, c.toNat = n → c = Char.ofNat n := by
      rintro n rfl
      exact (Char.ofNat_toNat c).symm
    obtain ⟨hdec, hsmall, hlarge⟩ := ofNat_digitChar
    simp only [digit?] at h
    split_ifs at h with hrange hlt hrange hlt hrange hlt hlt
    · have hlo : 48 ≤ c.toNat := hrange.1
      have hhi : c.toNat ≤ 57 := hrange.2
      obtain rfl := Option.some.inj h
      exact ⟨hlt, .inl (by rw [← hdec _ (by omega)]; exact hc (by omega))⟩
    · have hlo : 97 ≤ c.toNat := hrange.1
      have hhi : c.toNat ≤ 102 := hrange.2
      obtain rfl := Option.some.inj h
      exact ⟨hlt, .inl (by rw [← hsmall _ (by omega) (by omega)]; exact hc (by omega))⟩
    · have hlo : 65 ≤ c.toNat := hrange.1
      have hhi : c.toNat ≤ 70 := hrange.2
      obtain rfl := Option.some.inj h
      exact ⟨hlt, .inr (by rw [← hlarge _ (by omega) (by omega)]; exact hc (by omega))⟩
    · exact absurd hlt (lt_irrefl base)
  · rintro ⟨hd, rfl | rfl⟩
    · exact digit?_digitChar_all base (by omega) d hd
    · exact digit?_toUpper_digitChar base (by omega) d hd

/-- Digits after a number, as a number after the first of them. -/
theorem ofDigits_cons_reverse (base m d : Nat) (ds : List Nat) :
    m * base ^ (d :: ds).length + Nat.ofDigits base (d :: ds).reverse =
      (m * base + d) * base ^ ds.length + Nat.ofDigits base ds.reverse := by
  rw [List.reverse_cons, Nat.ofDigits_append, Nat.ofDigits_singleton, List.length_cons,
    List.length_reverse, pow_succ]
  ring

/-- **Digits are read as the number they spell**, if it stays below the limit. -/
theorem readBelow_eq_ok_iff {base limit : Nat} (hpos : 0 < base) (hb : base ≤ 16) {m n : Nat}
    {s : List Char} (hm : m < limit) : readBelow limit base m s = .ok n ↔ n < limit ∧
      ∃ ds, List.Forall₂ (IsDigit base) s ds ∧
        n = m * base ^ ds.length + Nat.ofDigits base ds.reverse := by
  induction s generalizing m with
  | nil =>
    simp only [readBelow, Except.ok.injEq, List.forall₂_nil_left_iff, exists_eq_left, List.length_nil,
      pow_zero, mul_one, List.reverse_nil, Nat.ofDigits_nil, Nat.add_zero]
    exact ⟨fun h => ⟨h ▸ hm, h.symm⟩, fun h => h.2.symm⟩
  | cons c s ih =>
    rw [readBelow]
    cases hd : digit? base c with
    | none =>
      constructor
      · intro h
        cases h
      · rintro ⟨-, _, hes, -⟩
        obtain ⟨d, -, hc, -⟩ := List.forall₂_cons_left_iff.mp hes
        rw [(digit?_eq_some_iff hb).mpr hc] at hd
        cases hd
    | some d =>
      have honly : ∀ {e : Nat}, IsDigit base c e ↔ e = d := by
        intro e
        rw [← digit?_eq_some_iff hb, hd, Option.some.injEq, eq_comm]
      have hvalue : (∃ es, List.Forall₂ (IsDigit base) (c :: s) es ∧
          n = m * base ^ es.length + Nat.ofDigits base es.reverse) ↔
          ∃ ds, List.Forall₂ (IsDigit base) s ds ∧
            n = (m * base + d) * base ^ ds.length + Nat.ofDigits base ds.reverse := by
        constructor
        · rintro ⟨_, hes, hn⟩
          obtain ⟨e, ds, hc, hs, rfl⟩ := List.forall₂_cons_left_iff.mp hes
          obtain rfl := honly.mp hc
          exact ⟨ds, hs, by rw [hn, ofDigits_cons_reverse]⟩
        · rintro ⟨ds, hs, hn⟩
          exact ⟨d :: ds, .cons (honly.mpr rfl) hs, by rw [hn, ofDigits_cons_reverse]⟩
      rw [hvalue]
      dsimp only
      split_ifs with hlt
      · exact ih hlt
      · constructor
        · intro h
          cases h
        · rintro ⟨hn, ds, -, rfl⟩
          -- the number only grows with further digits
          have hgrow : m * base + d ≤ (m * base + d) * base ^ ds.length :=
            Nat.le_mul_of_pos_right _ (Nat.pow_pos hpos)
          omega

theorem readDigits_eq_ok_iff {base : Nat} (hpos : 0 < base) (hb : base ≤ 16) {s : List Char}
    {n : Nat} : readDigits base s = .ok n ↔ n < wordLimit ∧ Digits base s n := by
  rw [readDigits, readBelow_eq_ok_iff hpos hb (by decide)]
  simp only [Nat.zero_mul, Nat.zero_add, Digits]

/-! ## Signs -/

/-- A character that may stand among digits: visible, and neither a sign nor the mark of a base. -/
def isPlain (c : Char) : Bool :=
  Text.isVisible c && c != '-' && c != '+' && c != 'x' && c != 'X'

theorem isPlain_digitChar : ∀ d < 16, isPlain d.digitChar ∧ isPlain d.digitChar.toUpper := by decide

theorem IsDigit.isPlain {base d : Nat} {c : Char} (hb : base ≤ 16) (h : IsDigit base c d) :
    isPlain c := by
  obtain ⟨hd, rfl | rfl⟩ := h
  · exact (isPlain_digitChar d (by omega)).1
  · exact (isPlain_digitChar d (by omega)).2

theorem Digits.isPlain {base n : Nat} (hb : base ≤ 16) {s : List Char} (h : Digits base s n) :
    ∀ c ∈ s, isPlain c := by
  obtain ⟨ds, hs, -⟩ := h
  induction hs with
  | nil => simp
  | cons hc _ ih => exact List.forall_mem_cons.mpr ⟨hc.isPlain hb, ih⟩

theorem splitSign_of_isPlain {s : List Char} (h : ∀ c ∈ s, isPlain c) : splitSign s = (false, s) :=
  splitSign_of_not_mem (fun hs => absurd (h _ hs) (by decide)) fun hs => absurd (h _ hs) (by decide)

theorem splitSign_cases (s : List Char) : (∃ r, s = '-' :: r ∧ splitSign s = (true, r)) ∨
    (∃ r, s = '+' :: r ∧ splitSign s = (false, r)) ∨ splitSign s = (false, s) := by
  unfold splitSign
  split
  · exact .inl ⟨_, rfl, rfl⟩
  · exact .inr (.inl ⟨_, rfl, rfl⟩)
  · exact .inr (.inr rfl)

theorem signed_eq_ok_iff {negative : Bool} {n : Nat} {v : Int} : signed negative n = .ok v ↔
    v = (if negative then -(n : Int) else n) ∧ -(signLimit : Int) ≤ v ∧ v < signLimit := by
  have hpos : 0 < signLimit := by decide
  unfold signed signedBelow
  cases negative <;> simp only [Bool.false_eq_true, if_false, if_true] <;> split_ifs with h <;>
    simp only [Except.ok.injEq, false_iff] <;> omega

theorem signed_iff {base : Nat} (hb : base ≤ 16) {s : List Char} {v : Int} : Signed base s v ↔
    (splitSign s).2 ≠ [] ∧ ∃ n, Digits base (splitSign s).2 n ∧
      v = if (splitSign s).1 then -(n : Int) else n := by
  constructor
  · rintro (⟨hne, hs⟩ | ⟨hne, hs⟩ | ⟨hne, hs⟩)
    · rw [splitSign_of_isPlain (hs.isPlain hb)]
      exact ⟨hne, _, hs, rfl⟩
    · exact ⟨hne, _, hs, rfl⟩
    · exact ⟨hne, _, hs, rfl⟩
  · rintro ⟨hne, n, hs, rfl⟩
    obtain ⟨r, rfl, h⟩ | ⟨r, rfl, h⟩ | h := splitSign_cases s <;> rw [h] at hne hs ⊢
    · exact .minus hne hs
    · exact .plus hne hs
    · exact .bare hne hs

/-- **Digits with a sign are read as the integer they spell**, if it fits. -/
theorem readSigned_eq_ok_iff {base : Nat} (hpos : 0 < base) (hb : base ≤ 16) {s : List Char}
    {v : Int} : readSigned base s = .ok v ↔
      Signed base s v ∧ -(signLimit : Int) ≤ v ∧ v < signLimit := by
  have hlim : signLimit < wordLimit := by decide
  have hbind : (readDigits base (splitSign s).2).bind (signed (splitSign s).1) = .ok v ↔
      ∃ n, readDigits base (splitSign s).2 = .ok n ∧ signed (splitSign s).1 n = .ok v := by
    cases readDigits base (splitSign s).2 <;> simp [Except.bind]
  rw [signed_iff hb]
  unfold readSigned
  by_cases hempty : (splitSign s).2 = []
  · simp [hempty]
  · simp only [List.isEmpty_iff, hempty, if_false, ne_eq, not_false_eq_true, true_and, hbind,
      readDigits_eq_ok_iff hpos hb, signed_eq_ok_iff]
    constructor
    · rintro ⟨n, ⟨-, hs⟩, hv, hrange⟩
      exact ⟨⟨n, hs, hv⟩, hrange⟩
    · rintro ⟨⟨n, hs, hv⟩, hrange⟩
      refine ⟨n, ⟨?_, hs⟩, hv, hrange⟩
      split at hv <;> omega

/-! ## Integers of listings -/

theorem Signed.isVisible {base : Nat} (hb : base ≤ 16) {s : List Char} {v : Int}
    (h : Signed base s v) : s ≠ [] ∧ ∀ c ∈ s, Text.isVisible c := by
  have hdigits : ∀ {r : List Char} {n : Nat}, Digits base r n → ∀ c ∈ r, Text.isVisible c := by
    intro r n hr c hc
    have := hr.isPlain hb c hc
    simp only [isPlain, Bool.and_eq_true] at this
    exact this.1.1.1.1
  obtain ⟨hne, hs⟩ | ⟨-, hs⟩ | ⟨-, hs⟩ := h
  · exact ⟨hne, hdigits hs⟩
  · exact ⟨by simp, List.forall_mem_cons.mpr ⟨rfl, hdigits hs⟩⟩
  · exact ⟨by simp, List.forall_mem_cons.mpr ⟨rfl, hdigits hs⟩⟩

theorem Denotes.isVisible {s : List Char} {v : Int} (h : Denotes s v) :
    s ≠ [] ∧ ∀ c ∈ s, Text.isVisible c := by
  obtain hs | ⟨rfl | rfl, hs⟩ := h
  · exact hs.isVisible (by omega)
  all_goals
    have := (hs.isVisible (by omega)).2
    refine ⟨by simp, ?_⟩
    rw [List.forall_mem_cons, List.forall_mem_cons]
    exact ⟨rfl, rfl, this⟩

/-- No decimal number has the mark of hexadecimal digits. -/
theorem Signed.ne_mark {s : List Char} {x : Char} {v : Int} (h : Signed 10 ('0' :: x :: s) v) :
    x ≠ 'x' ∧ x ≠ 'X' := by
  cases h with
  | bare _ hs =>
    have hx := hs.isPlain (by omega) x (by simp)
    simp only [isPlain, Bool.and_eq_true, bne_iff_ne] at hx
    exact ⟨hx.1.2, hx.2⟩

theorem hexBody?_cases (s : List Char) :
    (∃ x r, (x = 'x' ∨ x = 'X') ∧ s = '0' :: x :: r ∧ hexBody? s = some r) ∨ hexBody? s = none := by
  unfold hexBody?
  split
  · exact .inl ⟨_, _, .inl rfl, rfl, rfl⟩
  · exact .inl ⟨_, _, .inr rfl, rfl, rfl⟩
  · exact .inr rfl

theorem denotes_of_mark {x : Char} {r : List Char} {v : Int} (hx : x = 'x' ∨ x = 'X') :
    Denotes ('0' :: x :: r) v ↔ Signed 16 r v := by
  refine ⟨fun h => ?_, .hex hx⟩
  cases h with
  | decimal hs => exact (hx.elim hs.ne_mark.1 hs.ne_mark.2).elim
  | hex _ hs => exact hs

theorem denotes_of_unmarked {s : List Char} {v : Int} (h : hexBody? s = none) :
    Denotes s v ↔ Signed 10 s v := by
  refine ⟨fun hd => ?_, .decimal⟩
  cases hd with
  | decimal hs => exact hs
  | hex hx _ => rcases hx with rfl | rfl <;> cases h

theorem toResult_eq_ok_iff {reader : Reader} {text : List Char} {r : Except Fault Int} {v : Int64}
    (hr : ∀ w : Int, r = .ok w → -(signLimit : Int) ≤ w ∧ w < signLimit) :
    toResult reader text r = .ok v ↔ r = .ok v.toInt := by
  cases r with
  | error e => simp [toResult]
  | ok w =>
    obtain ⟨hlo, hhi⟩ := hr w rfl
    simp only [toResult, Except.ok.injEq]
    constructor
    · rintro rfl
      rw [Int64.toInt_ofInt_of_le (by simpa [signLimit] using hlo) (by simpa [signLimit] using hhi)]
    · rintro rfl
      exact Int64.ofInt_toInt v

/-- **A text is read as the integer that it spells without the white space around it.** -/
theorem readInt_eq_ok_iff {s : String} {v : Int64} :
    readInt s = .ok v ↔ Denotes (Text.trim s.toList) v.toInt := by
  have hread : ∀ {base : Nat} {t text : List Char}, 0 < base → base ≤ 16 →
      (toResult .integer text (readSigned base t) = .ok v ↔ Signed base t v.toInt) := by
    intro base t text hpos hb
    rw [toResult_eq_ok_iff fun w hw => ((readSigned_eq_ok_iff hpos hb).mp hw).2,
      readSigned_eq_ok_iff hpos hb]
    exact and_iff_left ⟨by simpa [signLimit] using v.le_toInt, by simpa [signLimit] using v.toInt_lt⟩
  unfold readInt
  obtain ⟨x, r, hx, ht, hbody⟩ | hbody := hexBody?_cases (Text.trim s.toList)
  · simp only [hbody, @hread 16 _ _ (by omega) (by omega)]
    rw [ht, denotes_of_mark hx]
  · simp only [hbody, @hread 10 _ _ (by omega) (by omega)]
    rw [denotes_of_unmarked hbody]

/-- White space around a numeral makes no difference. -/
theorem denotes_trim_iff {s : List Char} {v : Int} :
    Denotes (Text.trim s) v ↔ ∃ t, Padded t s ∧ Denotes t v := by
  refine ⟨fun h => ⟨_, Text.padded_trim s, h⟩, ?_⟩
  rintro ⟨t, ht, hd⟩
  obtain ⟨hne, hv⟩ := hd.isVisible
  rwa [Text.trim_of_padded ht (fun a ha => hv a (List.mem_of_mem_head? ha))
    (fun z hz => hv z (List.mem_of_getLast? hz)) hne]

/-! ## Written integers -/

/-- The operands of bitwise operators. -/
def bitwisePlaces : List Place :=
  [.behind .complement, .beside .bitAnd false, .beside .bitAnd true, .beside .bitOr false,
    .beside .bitOr true, .beside .bitXor false, .beside .bitXor true]

theorem isBitwise_iff (place : Place) : place.isBitwise ↔ place ∈ bitwisePlaces := by
  rcases place with _ | op | ⟨op, right⟩
  · decide
  · cases op <;> simp [Place.isBitwise, bitwisePlaces]
  · cases op <;> cases right <;> simp [Place.isBitwise, BinaryOp.isBitwise, bitwisePlaces]

theorem toInt_ofNat_low (v : Int64) :
    (Int64.ofNat (v.toUInt64.toNat % 0x100000000)).toInt = v.toInt % 2 ^ 32 := by
  have hlt : v.toUInt64.toNat % 0x100000000 < 2 ^ 63 := by omega
  have hint : v.toInt = if 2 * v.toUInt64.toNat < 2 ^ 64 then (v.toUInt64.toNat : Int)
      else (v.toUInt64.toNat : Int) - 2 ^ 64 := BitVec.toInt_eq_toNat_cond v.toBitVec
  rw [Int64.toInt_ofNat_of_lt hlt]
  split at hint <;> omega

/-- **Integers are read exactly.** What is read is what is spelled as an integer, with white space
around it, and fits 64 bits; nothing else is read. Written integers are read back, those of bitwise
operators as their low 32 bits. -/
theorem readInt_exact :
    (∀ (s : String) (v : Int64),
        readInt s = .ok v ↔ ∃ t, Padded t s.toList ∧ Denotes t v.toInt) ∧
      (∀ s : String, (∃ e, readInt s = .error e) ↔
        ∀ t v, Padded t s.toList → Denotes t v → v < -2 ^ 63 ∨ 2 ^ 63 ≤ v) ∧
      ∀ (d : Dialect) (place : Place) (v : Int64), ∃ w, readInt (d.expr place (.int v)) = .ok w ∧
        w.toInt = if place ∈ bitwisePlaces then v.toInt % 2 ^ 32 else v.toInt := by
  have hread : ∀ (s : String) (v : Int64),
      readInt s = .ok v ↔ ∃ t, Padded t s.toList ∧ Denotes t v.toInt :=
    fun s v => readInt_eq_ok_iff.trans denotes_trim_iff
  refine ⟨hread, fun s => ⟨?_, fun h => ?_⟩, fun d place v => ?_⟩
  · rintro ⟨e, he⟩ t v ht hd
    by_contra hrange
    have hv : (Int64.ofInt v).toInt = v := Int64.toInt_ofInt_of_le (by omega) (by omega)
    have hok : readInt s = .ok (Int64.ofInt v) := (hread s _).mpr ⟨t, ht, by rwa [hv]⟩
    rw [he] at hok
    cases hok
  · cases hr : readInt s with
    | error e => exact ⟨e, rfl⟩
    | ok v =>
      obtain ⟨t, ht, hd⟩ := (hread s v).mp hr
      have hlo := v.le_toInt
      have hhi := v.toInt_lt
      rcases h t _ ht hd with hout | hout <;> omega
  · rw [Dialect.expr]
    by_cases hp : place ∈ bitwisePlaces
    · rw [if_pos ((isBitwise_iff place).mpr hp), if_pos hp]
      exact ⟨_, readInt_hexLiteral v, toInt_ofNat_low v⟩
    · rw [if_neg (fun h => hp ((isBitwise_iff place).mp h)), if_neg hp]
      exact ⟨v, readInt_decimal v, rfl⟩

/-- Hexadecimal digits behind a sign with white space around them, the first integer that does not
fit, and an operand of a bitwise operator. -/
theorem readInt_exact_edges :
    (Padded ['0', 'x', '-', 'F', 'f'] " 0x-Ff\t".toList ∧
        Denotes ['0', 'x', '-', 'F', 'f'] (-255) ∧ readInt " 0x-Ff\t" = .ok (-255)) ∧
      (Denotes "9223372036854775808".toList (2 ^ 63) ∧
        (∃ e, readInt "9223372036854775808" = .error e) ∧
        ((2 ^ 63 : Int) < -2 ^ 63 ∨ (2 ^ 63 : Int) ≤ 2 ^ 63)) ∧
      ∃ w, readInt (Dialect.expr ⟨[], "", []⟩ (.beside .bitAnd true) (.int (-1))) = .ok w ∧
        w.toInt = 4294967295 := by
  have hblank : Padded ['0', 'x', '-', 'F', 'f'] " 0x-Ff\t".toList :=
    ⟨[' '], ['\t'], ⟨[[' ']], by decide, rfl⟩, ⟨[['\t']], by decide, rfl⟩, rfl⟩
  have hhex : Denotes ['0', 'x', '-', 'F', 'f'] (-255) :=
    .hex (.inl rfl) (.minus (by decide) ⟨[15, 15], .cons (by decide) (.cons (by decide) .nil), rfl⟩)
  have hbare : Padded "9223372036854775808".toList "9223372036854775808".toList :=
    ⟨[], [], ⟨[], by simp, rfl⟩, ⟨[], by simp, rfl⟩, rfl⟩
  have hlarge : Denotes "9223372036854775808".toList (2 ^ 63) :=
    .decimal (.bare (by decide)
      ⟨[9, 2, 2, 3, 3, 7, 2, 0, 3, 6, 8, 5, 4, 7, 7, 5, 8, 0, 8], by decide, by decide⟩)
  have herror : ∃ e, readInt "9223372036854775808" = .error e := ⟨_, by with_unfolding_all rfl⟩
  exact ⟨⟨hblank, hhex, (readInt_exact.1 _ _).mpr ⟨_, hblank, hhex⟩⟩,
    ⟨hlarge, herror, (readInt_exact.2.1 _).mp herror _ _ hbare hlarge⟩,
    readInt_exact.2.2 _ (.beside .bitAnd true) (-1)⟩

end ScriptLift.Numeral
