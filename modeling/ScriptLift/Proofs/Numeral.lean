import Mathlib
import ScriptLift.Dialect.Expr
import ScriptLift.Proofs.Trim

/-!
# Reading numerals back

* `readBelow_toDigits`: the digits of a number read as the number.
* **`readInt_decimal`**, **`readInt_hexLiteral`**: a written integer reads as itself, in decimal and
  as an operand of a bitwise operator.
* `hasInfix_dot_of_readInt`: an integer of a listing has no decimal point.
-/

namespace ScriptLift

namespace Numeral

/-! ## Digits -/

theorem digit?_digitChar_all : ∀ base < 17, ∀ n < base, digit? base n.digitChar = some n := by
  decide

theorem readBelow_append (limit base n : Nat) (s t : List Char) :
    readBelow limit base n (s ++ t) =
      (readBelow limit base n s).bind fun k => readBelow limit base k t := by
  induction s generalizing n with
  | nil => rfl
  | cons c s ih =>
    simp only [List.cons_append, readBelow]
    cases digit? base c with
    | none => rfl
    | some d =>
      dsimp only
      split_ifs
      · exact ih _
      · rfl

/-- **The digits of a number read as the number.** -/
theorem readBelow_toDigits {base limit : Nat} (hb : 1 < base) (hb' : base < 17) (n : Nat)
    (hn : n < limit) : readBelow limit base 0 (Nat.toDigits base n) = .ok n := by
  induction n using Nat.strong_induction_on with
  | _ n ih =>
    have hd : digit? base (n % base).digitChar = some (n % base) :=
      digit?_digitChar_all base hb' _ (Nat.mod_lt _ (by omega))
    rcases Nat.lt_or_ge n base with h | h
    · rw [Nat.mod_eq_of_lt h] at hd
      rw [Nat.toDigits_of_lt_base h]
      simp [readBelow, hd, hn]
    · have hlt : n / base < n := Nat.div_lt_self (by omega) hb
      have hq : n / base * base + n % base = n := by rw [Nat.mul_comm]; exact Nat.div_add_mod n base
      rw [Nat.toDigits_of_base_le hb h, readBelow_append, ih _ hlt (by omega)]
      simp [Except.bind, readBelow, hd, hq, hn]

theorem isDigit_of_mem_decimal {c : Char} {n : Nat} (h : c ∈ Nat.toDigits 10 n) : c.isDigit :=
  Nat.isDigit_of_mem_toDigits (by omega) (by omega) h

theorem mem_toDigits {base n : Nat} (hb : 1 < base) {c : Char} (h : c ∈ Nat.toDigits base n) :
    ∃ d < base, c = d.digitChar := by
  induction n using Nat.strong_induction_on with
  | _ n ih =>
    rcases Nat.lt_or_ge n base with hn | hn
    · rw [Nat.toDigits_of_lt_base hn, List.mem_singleton] at h
      exact ⟨n, hn, h⟩
    · rw [Nat.toDigits_of_base_le hb hn, List.mem_append, List.mem_singleton] at h
      rcases h with h | h
      · exact ih _ (Nat.div_lt_self (by omega) hb) h
      · exact ⟨n % base, Nat.mod_lt _ (by omega), h⟩

/-! ## Integers -/

theorem isVisible_of_isDigit {c : Char} (h : c.isDigit) : Text.isVisible c := by
  simp only [Char.isDigit, Bool.and_eq_true, decide_eq_true_eq, ge_iff_le] at h
  simp only [Text.isVisible, Bool.and_eq_true, decide_eq_true_eq]
  exact ⟨UInt32.le_trans (by decide : '!'.val ≤ '0'.val) h.1,
    UInt32.le_trans h.2 (by decide : '9'.val ≤ '~'.val)⟩

theorem isVisible_of_mem_decimalList {n : Int} : ∀ c ∈ decimalList n, Text.isVisible c := by
  intro c hc
  unfold decimalList at hc
  split_ifs at hc with h
  · rcases List.mem_cons.mp hc with rfl | hc
    · rfl
    · exact isVisible_of_isDigit (isDigit_of_mem_decimal hc)
  · exact isVisible_of_isDigit (isDigit_of_mem_decimal hc)

theorem hexBody?_of_isDigit {s : List Char} (h : ∀ c ∈ s, c.isDigit) : hexBody? s = none := by
  unfold hexBody?
  split
  · exact absurd (h 'x' (by simp)) (by decide)
  · exact absurd (h 'X' (by simp)) (by decide)
  · rfl

theorem splitSign_of_not_mem {s : List Char} (hminus : '-' ∉ s) (hplus : '+' ∉ s) :
    splitSign s = (false, s) := by
  unfold splitSign
  split
  · exact absurd List.mem_cons_self hminus
  · exact absurd List.mem_cons_self hplus
  · rfl

theorem splitSign_of_isDigit {s : List Char} (h : ∀ c ∈ s, c.isDigit) : splitSign s = (false, s) :=
  splitSign_of_not_mem (fun hs => absurd (h _ hs) (by decide)) fun hs => absurd (h _ hs) (by decide)

/-- The digits of a number as a numeral with a sign. -/
theorem readSigned_toDigits {m : Bool} {n : Nat} {s : List Char}
    (hs : splitSign s = (m, Nat.toDigits 10 n)) (hn : n < wordLimit) :
    readSigned 10 s = signed m n := by
  have hne : (Nat.toDigits 10 n).isEmpty = false := by
    rw [List.isEmpty_eq_false_iff]; exact Nat.toDigits_ne_nil
  simp only [readSigned, hs, hne, Bool.false_eq_true, if_false, readDigits]
  rw [readBelow_toDigits (by omega) (by omega) n hn]
  rfl

theorem hexBody?_decimalList (n : Int) : hexBody? (decimalList n) = none := by
  unfold decimalList
  split_ifs
  · rfl
  · exact hexBody?_of_isDigit fun c hc => isDigit_of_mem_decimal hc

theorem readSigned_decimalList {n : Int} (hl : -(signLimit : Int) ≤ n) (hu : n < signLimit) :
    readSigned 10 (decimalList n) = .ok n := by
  unfold decimalList
  have hlim : (signLimit : Int) < wordLimit := by decide
  split_ifs with h
  · rw [readSigned_toDigits (m := true) (n := n.natAbs) rfl (by omega)]
    simp only [signed, signedBelow, if_true]
    rw [if_pos (by omega)]
    congr 1
    omega
  · rw [readSigned_toDigits (splitSign_of_isDigit fun c hc => isDigit_of_mem_decimal hc) (by omega)]
    simp only [signed, signedBelow, Bool.false_eq_true, if_false]
    rw [if_pos (by omega)]
    congr 1
    omega

/-- **An integer in decimal reads as itself.** -/
theorem readInt_decimal (v : Int64) : readInt (decimal v.toInt) = .ok v := by
  have hl := v.le_toInt
  have hu := v.toInt_lt
  simp only [readInt, decimal, String.toList_ofList]
  rw [Text.trim_of_visible isVisible_of_mem_decimalList, hexBody?_decimalList]
  simp only [readSigned_decimalList (n := v.toInt) (by simpa [signLimit] using hl)
    (by simpa [signLimit] using hu), toResult, Int64.ofInt_toInt]

theorem isVisible_digitChar : ∀ d < 16, Text.isVisible d.digitChar := by decide

theorem digitChar_ne_sign : ∀ d < 16, d.digitChar ≠ '-' ∧ d.digitChar ≠ '+' := by decide

theorem splitSign_hex (n : Nat) : splitSign (Nat.toDigits 16 n) = (false, Nat.toDigits 16 n) := by
  have h : ∀ c ∈ Nat.toDigits 16 n, c ≠ '-' ∧ c ≠ '+' := by
    intro c hc
    obtain ⟨d, hd, rfl⟩ := mem_toDigits (by omega) hc
    exact digitChar_ne_sign d hd
  unfold splitSign
  split
  · rename_i heq; exact absurd rfl (h '-' (by rw [heq]; simp)).1
  · rename_i heq; exact absurd rfl (h '+' (by rw [heq]; simp)).2
  · rfl

theorem hex_one (n : Nat) : Text.hex 1 n = Nat.toDigits 16 n := by
  have : 1 - (Nat.toDigits 16 n).length = 0 := by
    have := Nat.length_toDigits_pos (b := 16) (n := n); omega
  simp [Text.hex, this]

/-- **An operand of a bitwise operator reads as its low 32 bits.** -/
theorem readInt_hexLiteral (v : Int64) :
    readInt (hexLiteral v) = .ok (Int64.ofNat (v.toUInt64.toNat % 0x100000000)) := by
  set n := v.toUInt64.toNat % 0x100000000 with hn
  have hlt : n < 0x100000000 := Nat.mod_lt _ (by decide)
  have htext : (hexLiteral v).toList = '0' :: 'x' :: Nat.toDigits 16 n := by
    simp [hexLiteral, hex_one, ← hn]
  have hvis : ∀ c ∈ '0' :: 'x' :: Nat.toDigits 16 n, Text.isVisible c := by
    intro c hc
    rcases List.mem_cons.mp hc with rfl | hc
    · rfl
    rcases List.mem_cons.mp hc with rfl | hc
    · rfl
    obtain ⟨d, hd, rfl⟩ := mem_toDigits (by omega) hc
    exact isVisible_digitChar d hd
  have hne : (Nat.toDigits 16 n).isEmpty = false := by
    rw [List.isEmpty_eq_false_iff]; exact Nat.toDigits_ne_nil
  have hread : readSigned 16 (Nat.toDigits 16 n) = .ok (n : Int) := by
    simp only [readSigned, splitSign_hex, hne, Bool.false_eq_true, if_false, readDigits]
    rw [readBelow_toDigits (by omega) (by omega) n (by unfold wordLimit; omega)]
    simp only [Except.bind, signed, signedBelow, Bool.false_eq_true, if_false]
    rw [if_pos (by unfold signLimit; omega)]
  simp only [readInt, htext]
  rw [Text.trim_of_visible hvis]
  simp only [hexBody?, hread, toResult]
  rfl

end Numeral

/-! ## Decimal points -/

namespace Text

theorem mem_of_hasInfixList {c : Char} {s : List Char} (h : hasInfixList [c] s) : c ∈ s := by
  induction s with
  | nil => simp [hasInfixList] at h
  | cons a s ih =>
    simp only [hasInfixList, Bool.or_eq_true, List.isPrefixOf, Bool.and_true, beq_iff_eq] at h
    rcases h with rfl | h
    · exact List.mem_cons_self
    · exact List.mem_cons_of_mem _ (ih h)

end Text

namespace Numeral

theorem not_mem_of_readBelow {limit base n m : Nat} {s : List Char} {c : Char}
    (hc : digit? base c = none) (h : readBelow limit base n s = .ok m) : c ∉ s := by
  induction s generalizing n with
  | nil => simp
  | cons a s ih =>
    rw [readBelow] at h
    intro hm
    rcases List.mem_cons.mp hm with rfl | hm
    · rw [hc] at h; simp at h
    · split at h
      · simp at h
      · split_ifs at h
        exact ih h hm

theorem dot_not_mem_of_readSigned {base : Nat} (hb : base ≤ 16) {s : List Char} {v : Int}
    (h : readSigned base s = .ok v) : '.' ∉ s := by
  intro hm
  have hdot : ∀ base ≤ 16, digit? base '.' = none := by decide
  have hdigits : '.' ∈ (splitSign s).2 := by
    unfold splitSign
    split
    · simpa using hm
    · simpa using hm
    · exact hm
  simp only [readSigned] at h
  split_ifs at h
  cases hr : readDigits base (splitSign s).2 with
  | error e => rw [hr] at h; simp [Except.bind] at h
  | ok n => exact not_mem_of_readBelow (hdot base hb) hr hdigits

/-- **An integer of a listing has no decimal point.** -/
theorem hasInfix_dot_of_readInt {s : String} {v : Int64} (h : readInt s = .ok v) :
    Text.hasInfix "." s = false := by
  rw [Bool.eq_false_iff]
  intro hd
  have hm : '.' ∈ Text.trim s.toList :=
    Text.mem_trim_of_visible rfl (Text.mem_of_hasInfixList hd)
  simp only [readInt] at h
  split at h
  · rename_i body hbody
    have hmem : '.' ∈ body := by
      unfold hexBody? at hbody
      split at hbody
      · rename_i heq; cases hbody; rw [heq] at hm; simpa using hm
      · rename_i heq; cases hbody; rw [heq] at hm; simpa using hm
      · simp at hbody
    cases hr : readSigned 16 body with
    | error e => rw [hr] at h; simp [toResult] at h
    | ok n => exact dot_not_mem_of_readSigned (by omega) hr hmem
  · cases hr : readSigned 10 (Text.trim s.toList) with
    | error e => rw [hr] at h; simp [toResult] at h
    | ok n => exact dot_not_mem_of_readSigned (by omega) hr hm

end Numeral

end ScriptLift
