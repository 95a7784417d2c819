import Mathlib.Tactic
import ScriptLift.Text.Blank

/-!
# Trimming

White space is made of bytes that are not visible, so a text with visible characters at its ends has
nothing to trim, and no visible character is ever trimmed off.

* `isVisible`: printable ASCII other than the blank.
* `Padded`: a text with white space around it. **`padded_trim`**: trimming takes this white space
  away. `exists_append_trim`: what is trimmed off is not visible.
* **`trim_trim`**: trimming twice is trimming once.
* `trim_of_visible_ends`, `trim_of_ends`, `trim_of_visible`: texts that stay as they are.
* `trimLeft_append`, `trimRight_append`: white space in front of a text and behind it is dropped.
* **`trim_of_padded`**: white space around a text with visible ends is all that is trimmed off.
-/

namespace ScriptLift.Text

/-- A printable ASCII character other than the blank. -/
def isVisible (c : Char) : Bool := '!' ≤ c && c ≤ '~'

theorem bounds_of_visible {a : Char} (ha : isVisible a) : 33 ≤ a.toNat ∧ a.toNat ≤ 126 := by
  simp only [isVisible, Bool.and_eq_true, decide_eq_true_eq] at ha
  exact ha

/-! ## White space -/

/-- No white space starts with a visible character. -/
theorem isBlank_cons_of_visible {a : Char} (ha : isVisible a) (s : List Char) :
    isBlank (a :: s) = false := by
  have hv := bounds_of_visible ha
  match s with
  | [] =>
    have h1 : a ≠ ' ' := by rintro rfl; simp at hv
    have h2 : ¬ a ≤ '\r' := fun hle => absurd (show a.toNat ≤ 13 from hle) (by omega)
    simp [isBlank, h1, h2]
  | [b] =>
    have h1 : a ≠ '\xc2' := by rintro rfl; simp at hv
    simp [isBlank, h1]
  | [b, c] =>
    have h1 : a ≠ '\xe1' := by rintro rfl; simp at hv
    have h2 : a ≠ '\xe2' := by rintro rfl; simp at hv
    have h3 : a ≠ '\xe3' := by rintro rfl; simp at hv
    simp [isBlank, h1, h2, h3]
  | _ :: _ :: _ :: _ => rfl

/-- No white space ends with a visible character. -/
theorem isBlank_concat_of_visible {z : Char} (hz : isVisible z) (s : List Char) :
    isBlank (s ++ [z]) = false := by
  have hv := bounds_of_visible hz
  match s with
  | [] => exact isBlank_cons_of_visible hz []
  | [a] =>
    have h1 : z ≠ '\x85' := by rintro rfl; simp at hv
    have h2 : z ≠ '\xa0' := by rintro rfl; simp at hv
    simp [isBlank, h1, h2]
  | [a, b] =>
    have h1 : ¬ '\x80' ≤ z := fun hle => absurd (show 128 ≤ z.toNat from hle) (by omega)
    have h2 : z ≠ '\x80' := by rintro rfl; simp at hv
    have h3 : z ≠ '\xa8' := by rintro rfl; simp at hv
    have h4 : z ≠ '\xa9' := by rintro rfl; simp at hv
    have h5 : z ≠ '\xaf' := by rintro rfl; simp at hv
    have h6 : z ≠ '\x9f' := by rintro rfl; simp at hv
    simp [isBlank, h1, h2, h3, h4, h5, h6]
  | a :: b :: c :: s => cases s <;> rfl

/-- White space has no visible character. -/
theorem not_visible_of_isBlank {s : List Char} (h : isBlank s) : ∀ c ∈ s, isVisible c = false := by
  have hfirst : ∀ {a : Char} {r : List Char}, s = a :: r → isVisible a = false := by
    rintro a r rfl
    by_contra ha
    rw [isBlank_cons_of_visible (by simpa using ha)] at h
    cases h
  have hlast : ∀ {z : Char} {r : List Char}, s = r ++ [z] → isVisible z = false := by
    rintro z r rfl
    by_contra hz
    rw [isBlank_concat_of_visible (by simpa using hz)] at h
    cases h
  match s with
  | [] => simp
  | [a] => simpa using hfirst rfl
  | [a, b] => simpa using ⟨hfirst rfl, hlast (r := [a]) rfl⟩
  | [a, b, c] =>
    have hb : isVisible b = false := by
      simp only [isBlank, Bool.and_eq_true, Bool.or_eq_true, beq_iff_eq] at h
      obtain ((⟨⟨-, rfl⟩, -⟩ | ⟨⟨-, rfl⟩, -⟩) | ⟨⟨-, rfl⟩, -⟩) | ⟨⟨-, rfl⟩, -⟩ := h <;> rfl
    simpa using ⟨hfirst rfl, hb, hlast (r := [a, b]) rfl⟩
  | _ :: _ :: _ :: _ :: _ => simp [isBlank] at h

theorem isBlank_of_blankWidth_ne_zero {s : List Char} (h : blankWidth s ≠ 0) :
    isBlank (s.take (blankWidth s)) := by
  unfold blankWidth at h ⊢
  split_ifs at h ⊢ <;> first | assumption | simp at h

theorem isBlank_of_blankWidthBack_ne_zero {s : List Char} (h : blankWidthBack s ≠ 0) :
    isBlank (s.take (blankWidthBack s)).reverse := by
  have hone : (s.take 1).reverse = s.take 1 := by cases s <;> rfl
  unfold blankWidthBack at h ⊢
  split_ifs at h ⊢ with h₁ h₂ h₃
  · rwa [hone]
  · exact h₂
  · exact h₃
  · exact absurd rfl h

/-- White space by its bytes. Neither a first nor a last part of it is white space. -/
theorem isBlank_cases {w : List Char} (h : isBlank w) :
    (∃ a, w = [a]) ∨ (∃ b ∈ ['\x85', '\xa0'], w = ['\xc2', b]) ∨
      ∃ a ∈ ['\xe1', '\xe2', '\xe3'], ∃ b ∈ ['\x9a', '\x80', '\x81'], ∃ c, '\x80' ≤ c ∧
        w = [a, b, c] := by
  match w with
  | [a] => exact .inl ⟨a, rfl⟩
  | [a, b] =>
    simp only [isBlank, Bool.and_eq_true, Bool.or_eq_true, beq_iff_eq] at h
    exact .inr (.inl ⟨b, by simpa using h.2, by rw [h.1]⟩)
  | [a, b, c] =>
    simp only [isBlank, Bool.and_eq_true, Bool.or_eq_true, beq_iff_eq, decide_eq_true_eq] at h
    obtain ((⟨⟨rfl, rfl⟩, rfl⟩ | ⟨⟨rfl, rfl⟩, hc⟩) | ⟨⟨rfl, rfl⟩, rfl⟩) | ⟨⟨rfl, rfl⟩, rfl⟩ := h
    · exact .inr (.inr ⟨_, by decide, _, by decide, _, by decide, rfl⟩)
    · refine .inr (.inr ⟨_, by decide, _, by decide, c, ?_, rfl⟩)
      obtain ((⟨hc, -⟩ | rfl) | rfl) | rfl := hc
      · exact hc
      all_goals decide
    · exact .inr (.inr ⟨_, by decide, _, by decide, _, by decide, rfl⟩)
    · exact .inr (.inr ⟨_, by decide, _, by decide, _, by decide, rfl⟩)

theorem blankWidth_append_of_isBlank {w : List Char} (h : isBlank w) (s : List Char) :
    blankWidth (w ++ s) = w.length := by
  rcases isBlank_cases h with ⟨a, rfl⟩ | ⟨b, -, rfl⟩ | ⟨a, ha, b, -, c, -, rfl⟩
  · simp [blankWidth, h]
  · have h₁ : isBlank ['\xc2'] = false := by decide
    simp [blankWidth, h, h₁]
  · have h₁ : ∀ a ∈ ['\xe1', '\xe2', '\xe3'], isBlank [a] = false := by simp [isBlank]
    have h₂ : isBlank [a, b] = false := by
      have : ∀ a ∈ ['\xe1', '\xe2', '\xe3'], (a == '\xc2') = false := by simp
      simp [isBlank, this a ha]
    simp [blankWidth, h, h₁ a ha, h₂]

theorem blankWidthBack_append_of_isBlank {w : List Char} (h : isBlank w) (s : List Char) :
    blankWidthBack (w.reverse ++ s) = w.length := by
  rcases isBlank_cases h with ⟨a, rfl⟩ | ⟨b, hb, rfl⟩ | ⟨a, -, b, hb, c, hc, rfl⟩
  · simp [blankWidthBack, h]
  · have h₁ : ∀ b ∈ ['\x85', '\xa0'], isBlank [b] = false := by simp [isBlank]
    simp [blankWidthBack, h, h₁ b hb]
  · have h₁ : isBlank [c] = false := by
      have hc' : 128 ≤ c.toNat := hc
      have hlow : ¬ c ≤ '\r' := fun hle => absurd (show c.toNat ≤ 13 from hle) (by omega)
      have hspace : c ≠ ' ' := by rintro rfl; simp at hc'
      simp [isBlank, hlow, hspace]
    have h₂ : isBlank [b, c] = false := by
      have : ∀ b ∈ ['\x9a', '\x80', '\x81'], (b == '\xc2') = false := by simp
      simp [isBlank, this b hb]
    simp [blankWidthBack, h, h₁, h₂]

/-- White space at the front of a text is there however the text goes on. -/
theorem blankWidth_of_append {s t : List Char} (h : blankWidth (s ++ t) = 0) : blankWidth s = 0 := by
  match s with
  | [] => rfl
  | [a] => grind [blankWidth]
  | [a, b] => grind [blankWidth]
  | _ :: _ :: _ :: _ => exact h

/-! ## Dropping -/

section Dropping

variable {width : List Char → Nat}

theorem dropBy_of_eq_zero {s : List Char} (h : width s = 0) : dropBy width s = s := by
  cases s with
  | nil => rw [dropBy]
  | cons c r => rw [dropBy, h]

theorem width_dropBy (hnil : width [] = 0) (s : List Char) : width (dropBy width s) = 0 := by
  fun_induction dropBy width s with
  | case1 => exact hnil
  | case2 c r h => exact h
  | case3 c r n hn ih => exact ih

/-- What is dropped from the front is made of pieces of the width found. -/
theorem exists_flatten_dropBy {p : List Char → Prop}
    (hp : ∀ s : List Char, width s ≠ 0 → p (s.take (width s))) (s : List Char) :
    ∃ ws : List (List Char), (∀ w ∈ ws, p w) ∧ s = ws.flatten ++ dropBy width s := by
  fun_induction dropBy width s with
  | case1 => exact ⟨[], by simp, rfl⟩
  | case2 => exact ⟨[], by simp, rfl⟩
  | case3 c r n hn ih =>
    obtain ⟨ws, hws, hr⟩ := ih
    have hpiece := hp (c :: r) (by omega)
    rw [hn, List.take_succ_cons] at hpiece
    refine ⟨(c :: r.take n) :: ws, List.forall_mem_cons.mpr ⟨hpiece, hws⟩, ?_⟩
    rw [List.flatten_cons, List.append_assoc, ← hr, List.cons_append, List.take_append_drop]

/-- Pieces whose width is found whatever follows are dropped. -/
theorem dropBy_flatten_append {ws : List (List Char)}
    (hws : ∀ w ∈ ws, w ≠ [] ∧ ∀ s : List Char, width (w ++ s) = w.length) (s : List Char) :
    dropBy width (ws.flatten ++ s) = dropBy width s := by
  induction ws with
  | nil => rfl
  | cons w ws ih =>
    obtain ⟨⟨hne, hwidth⟩, hrest⟩ := List.forall_mem_cons.mp hws
    obtain ⟨c, r, rfl⟩ := List.exists_cons_of_ne_nil hne
    rw [List.flatten_cons, List.append_assoc, List.cons_append, dropBy]
    have hw := hwidth (ws.flatten ++ s)
    rw [List.cons_append, List.length_cons] at hw
    simp only [hw, List.drop_left]
    exact ih hrest

end Dropping

/-! ## Trimming -/

variable {s : List Char}

/-- Any number of white space characters. -/
def Blanks (s : List Char) : Prop := ∃ ws : List (List Char), (∀ w ∈ ws, isBlank w) ∧ s = ws.flatten

/-- The text `t` with white space around it. -/
def Padded (t s : List Char) : Prop := ∃ a b, Blanks a ∧ Blanks b ∧ s = a ++ (t ++ b)

theorem not_visible_of_blanks {a : List Char} (h : Blanks a) : ∀ c ∈ a, isVisible c = false := by
  obtain ⟨ws, hws, rfl⟩ := h
  intro c hc
  obtain ⟨w, hw, hc⟩ := List.mem_flatten.mp hc
  exact not_visible_of_isBlank (hws w hw) c hc

theorem exists_append_trimLeft (s : List Char) : ∃ a, Blanks a ∧ s = a ++ trimLeft s := by
  obtain ⟨ws, hws, hs⟩ := exists_flatten_dropBy
    (p := (isBlank ·)) (fun _ => isBlank_of_blankWidth_ne_zero) s
  exact ⟨ws.flatten, ⟨ws, hws, rfl⟩, hs⟩

theorem exists_append_trimRight (s : List Char) : ∃ b, Blanks b ∧ s = trimRight s ++ b := by
  obtain ⟨ws, hws, hs⟩ := exists_flatten_dropBy
    (p := (isBlank ·.reverse)) (fun _ => isBlank_of_blankWidthBack_ne_zero) s.reverse
  refine ⟨ws.flatten.reverse, ⟨(ws.map List.reverse).reverse, ?_, List.reverse_flatten⟩, ?_⟩
  · intro w hw
    obtain ⟨v, hv, rfl⟩ : ∃ v ∈ ws, v.reverse = w := by simpa using hw
    exact hws v hv
  · rw [trimRight, ← List.reverse_append, ← hs, List.reverse_reverse]

/-- **Trimming takes white space away.** -/
theorem padded_trim (s : List Char) : Padded (trim s) s := by
  obtain ⟨a, ha, hfront⟩ := exists_append_trimLeft s
  obtain ⟨b, hb, hback⟩ := exists_append_trimRight (trimLeft s)
  refine ⟨a, b, ha, hb, ?_⟩
  rw [trim, ← hback]
  exact hfront

/-- **What is trimmed off is not visible.** -/
theorem exists_append_trim (s : List Char) : ∃ a b, s = a ++ (trim s ++ b) ∧
    (∀ c ∈ a, isVisible c = false) ∧ ∀ c ∈ b, isVisible c = false := by
  obtain ⟨a, b, ha, hb, hs⟩ := padded_trim s
  exact ⟨a, b, hs, not_visible_of_blanks ha, not_visible_of_blanks hb⟩

theorem mem_of_mem_trim {c : Char} (h : c ∈ trim s) : c ∈ s := by
  obtain ⟨a, b, hs, -⟩ := exists_append_trim s
  rw [hs]
  simp [h]

theorem mem_trim_of_visible {c : Char} (hc : isVisible c) (h : c ∈ s) : c ∈ trim s := by
  obtain ⟨a, b, hs, ha, hb⟩ := exists_append_trim s
  rw [hs, List.mem_append, List.mem_append] at h
  rcases h with h | h | h
  · rw [ha c h] at hc
    cases hc
  · exact h
  · rw [hb c h] at hc
    cases hc

theorem prefix_trimRight (s : List Char) : trimRight s <+: s := by
  obtain ⟨b, -, hs⟩ := exists_append_trimRight s
  exact ⟨b, hs.symm⟩

theorem prefix_trim (h : blankWidth s = 0) : trim s <+: s := by
  rw [trim, trimLeft, dropBy_of_eq_zero h]
  exact prefix_trimRight s

theorem blankWidth_trim (s : List Char) : blankWidth (trim s) = 0 := by
  obtain ⟨b, hb⟩ := prefix_trimRight (trimLeft s)
  refine blankWidth_of_append (t := b) ?_
  rw [trim, hb]
  exact width_dropBy rfl s

theorem blankWidthBack_trim (s : List Char) : blankWidthBack (trim s).reverse = 0 := by
  rw [trim, trimRight, List.reverse_reverse]
  exact width_dropBy rfl _

theorem trim_eq_self (hfront : blankWidth s = 0) (hback : blankWidthBack s.reverse = 0) :
    trim s = s := by
  rw [trim, trimLeft, dropBy_of_eq_zero hfront, trimRight, dropBy_of_eq_zero hback,
    List.reverse_reverse]

/-- **Trimming twice is trimming once.** -/
theorem trim_trim (s : List Char) : trim (trim s) = trim s :=
  trim_eq_self (blankWidth_trim s) (blankWidthBack_trim s)

/-! ## Visible ends -/

theorem blankWidth_of_visible {a : Char} (ha : isVisible a) (s : List Char) :
    blankWidth (a :: s) = 0 := by
  simp only [blankWidth, List.take_succ_cons, isBlank_cons_of_visible ha, Bool.false_eq_true, if_false]

theorem blankWidthBack_of_visible {z : Char} (hz : isVisible z) (s : List Char) :
    blankWidthBack (z :: s) = 0 := by
  simp only [blankWidthBack, List.take_succ_cons, isBlank_cons_of_visible hz, List.reverse_cons,
    isBlank_concat_of_visible hz, Bool.false_eq_true, if_false]

theorem blankWidth_of_head (h : ∀ a ∈ s.head?, isVisible a) : blankWidth s = 0 := by
  cases s with
  | nil => rfl
  | cons a s => exact blankWidth_of_visible (h a rfl) s

theorem blankWidthBack_of_getLast (h : ∀ z ∈ s.getLast?, isVisible z) :
    blankWidthBack s.reverse = 0 := by
  rw [← List.head?_reverse] at h
  cases hr : s.reverse with
  | nil => rfl
  | cons z r => exact blankWidthBack_of_visible (h z (by rw [hr]; rfl)) r

/-- **A text with visible ends has nothing to trim.** -/
theorem trim_of_visible_ends (hfront : ∀ a ∈ s.head?, isVisible a)
    (hback : ∀ z ∈ s.getLast?, isVisible z) : trim s = s :=
  trim_eq_self (blankWidth_of_head hfront) (blankWidthBack_of_getLast hback)

theorem trim_of_ends {a z : Char} (ha : isVisible a) (hz : isVisible z) (s : List Char) :
    trim (a :: (s ++ [z])) = a :: (s ++ [z]) := by
  refine trim_of_visible_ends (by simpa using ha) ?_
  rw [← List.cons_append, List.getLast?_concat]
  simpa using hz

theorem trim_of_visible (h : ∀ c ∈ s, isVisible c) : trim s = s :=
  trim_of_visible_ends (fun a ha => h a (List.mem_of_mem_head? ha))
    fun z hz => h z (List.mem_of_getLast? hz)

/-! ## White space around a text -/

theorem ne_nil_of_isBlank {w : List Char} (h : isBlank w) : w ≠ [] := by
  rintro rfl
  cases h

theorem trimLeft_append {a : List Char} (ha : Blanks a) (s : List Char) :
    trimLeft (a ++ s) = trimLeft s := by
  obtain ⟨ws, hws, rfl⟩ := ha
  exact dropBy_flatten_append
    (fun w hw => ⟨ne_nil_of_isBlank (hws w hw), blankWidth_append_of_isBlank (hws w hw)⟩) s

theorem trimRight_append {b : List Char} (hb : Blanks b) (s : List Char) :
    trimRight (s ++ b) = trimRight s := by
  obtain ⟨ws, hws, rfl⟩ := hb
  have hpieces : ∀ v ∈ (ws.map List.reverse).reverse,
      v ≠ [] ∧ ∀ s : List Char, blankWidthBack (v ++ s) = v.length := by
    intro v hv
    obtain ⟨w, hw, rfl⟩ : ∃ w ∈ ws, w.reverse = v := by simpa using hv
    refine ⟨List.reverse_ne_nil_iff.mpr (ne_nil_of_isBlank (hws w hw)), fun s => ?_⟩
    rw [List.length_reverse]
    exact blankWidthBack_append_of_isBlank (hws w hw) s
  rw [trimRight, List.reverse_append, List.reverse_flatten, dropBy_flatten_append hpieces, trimRight]

/-- **A text with visible ends is what trimming leaves of it with white space around it.** -/
theorem trim_of_padded {t : List Char} (h : Padded t s) (hfront : ∀ a ∈ t.head?, isVisible a)
    (hback : ∀ z ∈ t.getLast?, isVisible z) (hne : t ≠ []) : trim s = t := by
  obtain ⟨a, b, ha, hb, rfl⟩ := h
  have hhead : ∀ c ∈ (t ++ b).head?, isVisible c := by
    rwa [List.head?_append_of_ne_nil _ hne]
  have hleft : trimLeft (t ++ b) = t ++ b := dropBy_of_eq_zero (blankWidth_of_head hhead)
  have hright : trimRight t = t := by
    rw [trimRight, dropBy_of_eq_zero (blankWidthBack_of_getLast hback), List.reverse_reverse]
  rw [trim, trimLeft_append ha, hleft, trimRight_append hb, hright]

end ScriptLift.Text
