import ScriptLift.Proofs.Dialect.Reading
import ScriptLift.Proofs.Dialect.Regroup

/-!
# Emitted expressions read back

The reader takes the text of an expression apart again. What it finds is the regrouped expression,
so that the parentheses left out change the grouping of a right operand and nothing else.

* `Expr.isPlain`: names, calls without owner and comment, integers and operations on them.
* `Expr.reading`: an expression as the reader sees it.
* `Reader.Reads`: the reader has taken the text of an operand, up to what a weaker operator completes.
* **`read_expr`**: the text of a plain expression reads as the regrouped expression.
-/

namespace ScriptLift

/-! ## Plain expressions -/

/-- A letter or underscore, followed by letters, digits and underscores. -/
def isIdentifier (s : String) : Bool :=
  match s.toList with
  | c :: r => (c.isAlpha || c == '_') && r.all fun c => c.isAlphanum || c == '_'
  | [] => false

/-- A mark that makes names of names: word characters, no digit in front. -/
def isMark (s : String) : Bool :=
  s.toList.all isWordChar && !s.toList.head?.any Char.isDigit

namespace Expr

/-- An integer operand of a bitwise operator shows all of its bits. -/
def fits (bitwise : Bool) : Expr → Bool
  | .int v => !bitwise || (0 ≤ v && v < 0x100000000)
  | _ => true

/-- Whether an owner is a chain of variables. -/
def isPath : Expr → Bool
  | .hole => true
  | .var name _ owner => isIdentifier name && owner.isPath
  | _ => false

mutual

/-- Whether an expression is built of names, integers, operators and calls without owner and
comment; a minus never stands before an integer. -/
def isPlain : Expr → Bool
  | .int _ => true
  | .const _ name | .param name _ | .prop name _ => isIdentifier name
  | .var name _ owner => isIdentifier name && owner.isPath
  | .unary .negate e => e.literal?.isNone && e.isPlain
  | .unary .complement e => e.fits true && e.isPlain
  | .binary op l r =>
    BinaryOp.all.contains op && l.fits op.isBitwise && r.fits op.isBitwise && l.isPlain && r.isPlain
  | .call f _ owner args note => isIdentifier f && owner.isHole && note.isEmpty && allPlain args
  | _ => false

/-- Whether all arguments are plain. -/
def allPlain : List Expr → Bool
  | [] => true
  | e :: r => e.isPlain && allPlain r

end

mutual

/-- An expression as the reader sees it: its names by their texts. -/
def reading (d : Dialect) : Expr → Reading
  | .int v => .int v
  | .unary op e => .unary op (e.reading d)
  | .binary op l r => .binary op (l.reading d) (r.reading d)
  | .call f _ _ args _ => .call f (readings d args)
  | e => .name (d.expr .free e)

/-- Arguments as the reader sees them. -/
def readings (d : Dialect) : List Expr → List Reading
  | [] => []
  | e :: r => e.reading d :: readings d r

end

/-! ## Regrouping keeps expressions plain -/

theorem fits_graft (p : BinaryOp) (a t : Expr) (b : Bool) : (graft p a t).fits b := by
  obtain ⟨_, _, _, h, _⟩ := graft_top p a t
  rw [h]
  rfl

theorem fits_regrouped {e : Expr} {b : Bool} (h : e.fits b) : e.regrouped.fits b := by
  cases e with
  | binary p l r => obtain ⟨_, _, _, he, _⟩ := regrouped_top p l r; rw [he]; rfl
  | _ => exact h

theorem literal?_regrouped (e : Expr) : e.regrouped.literal? = e.literal? := by
  cases e with
  | binary p l r => obtain ⟨_, _, _, he, _⟩ := regrouped_top p l r; rw [he]; rfl
  | _ => rfl

theorem isPlain_binary {p : BinaryOp} {l r : Expr} (hp : BinaryOp.all.contains p)
    (hlf : l.fits p.isBitwise) (hrf : r.fits p.isBitwise) (hl : l.isPlain) (hr : r.isPlain) :
    (binary p l r).isPlain := by
  rw [isPlain, hp, hlf, hrf, hl, hr]
  rfl

theorem isPlain_graft {p : BinaryOp} {a : Expr} (hp : BinaryOp.all.contains p)
    (hf : a.fits p.isBitwise) (ha : a.isPlain) :
    ∀ {t : Expr}, t.fits p.isBitwise → t.isPlain → (graft p a t).isPlain
  | .binary q b c, htf, ht => by
    rw [graft]
    split_ifs with h
    · simp only [isPlain, Bool.and_eq_true] at ht
      obtain ⟨⟨⟨⟨hq, hbf⟩, hcf⟩, hb⟩, hc⟩ := ht
      have hbit := BinaryOp.isBitwise_eq_of_level_eq h
      have hg := isPlain_graft hp hf ha (t := b) (hbit ▸ hbf) hb
      exact isPlain_binary hq (fits_graft p a b _) hcf hg hc
    · exact isPlain_binary hp hf htf ha ht
  | .int _, htf, ht | .const .., htf, ht | .param .., htf, ht | .prop .., htf, ht | .var .., htf, ht
  | .unary .., htf, ht | .call .., htf, ht => isPlain_binary hp hf htf ha ht
  | .hole, _, ht | .real _, _, ht | .str _, _, ht | .assign .., _, ht => by simp [isPlain] at ht

mutual

theorem isPlain_regrouped : ∀ {e : Expr}, e.isPlain → e.regrouped.isPlain
  | .binary p l r, h => by
    simp only [isPlain, Bool.and_eq_true] at h
    obtain ⟨⟨⟨⟨hp, hlf⟩, hrf⟩, hl⟩, hr⟩ := h
    rw [regrouped]
    split_ifs
    · exact isPlain_graft hp (fits_regrouped hlf) (isPlain_regrouped hl) (fits_regrouped hrf)
        (isPlain_regrouped hr)
    · exact isPlain_binary hp (fits_regrouped hlf) (fits_regrouped hrf) (isPlain_regrouped hl)
        (isPlain_regrouped hr)
  | .unary .negate e, h => by
    simp only [isPlain, Bool.and_eq_true] at h
    simp only [regrouped, isPlain, literal?_regrouped, h.1, isPlain_regrouped h.2, Bool.and_self]
  | .unary .complement e, h => by
    simp only [isPlain, Bool.and_eq_true] at h
    simp only [regrouped, isPlain, fits_regrouped h.1, isPlain_regrouped h.2, Bool.and_self]
  | .call f type owner args note, h => by
    simp only [isPlain, Bool.and_eq_true] at h
    simp only [regrouped, isPlain, h.1.1.1, h.1.1.2, h.1.2, allPlain_regroupedAll h.2, Bool.and_self]
  | .unary .increment _, h | .unary .decrement _, h | .unary (.other _) _, h => by
    simp [isPlain] at h
  | .hole, h | .int _, h | .real _, h | .str _, h | .const .., h | .param .., h | .prop .., h
  | .var .., h | .assign .., h => h

theorem allPlain_regroupedAll : ∀ {es : List Expr}, allPlain es → allPlain (regroupedAll es)
  | [], _ => rfl
  | e :: es, h => by
    simp only [allPlain, Bool.and_eq_true] at h
    simp only [regroupedAll, allPlain, isPlain_regrouped h.1, allPlain_regroupedAll h.2,
      Bool.and_self]

end

end Expr

/-! ## Taking tokens from a text -/

namespace Reader

/-- Takes the tokens of a text. -/
def scan (st : List Frame × Place) (cs : List Char) : Option (List Frame × Place) :=
  (lexFrom [] cs).bind (run st)

theorem scan_of_lexFrom {cs r : List Char} {t : Token}
    (h : lexFrom [] cs = (lexFrom [] r).map (t :: ·)) (st : List Frame × Place) :
    scan st cs = (step st t).bind fun st' => scan st' r := by
  unfold scan
  rw [h]
  cases lexFrom [] r with
  | none => cases step st t <;> rfl
  | some ts => rfl

theorem scan_symbol {c : Char} {t : Token} (h : symbol? c = some t)
    (hc : c ≠ '|' ∧ c ≠ '&' ∧ c ≠ '<' ∧ c ≠ '>') (st : List Frame × Place) (r : List Char) :
    scan st (c :: r) = (step st t).bind fun st' => scan st' r :=
  scan_of_lexFrom (lexFrom_symbol h hc r) st

theorem scan_op {op : BinaryOp} (h : op ∈ BinaryOp.all) (st : List Frame × Place) (r : List Char) :
    scan st (' ' :: (op.symbol.toList ++ ' ' :: r)) =
      (step st (.op op)).bind fun st' => scan st' r :=
  scan_of_lexFrom (lexFrom_op h r) st

theorem scan_word {s : String} {r : List Char} (hs : ∀ c ∈ s.toList, isWordChar c)
    (hne : s.toList ≠ []) (hr : Breaks r) (st : List Frame × Place) :
    scan st (s.toList ++ r) = (step st (.word s)).bind fun st' => scan st' r := by
  refine scan_of_lexFrom ?_ st
  rw [lexFrom_text hs hne hr, String.ofList_toList]

theorem scan_blank (st : List Frame × Place) (r : List Char) : scan st (' ' :: r) = scan st r := by
  rw [scan, scan, lexFrom_blank]

/-! ## What an operator leaves alone -/

/-- No part on top of the stack is completed by an operator of a level. -/
def Stops (k : Nat) : List Frame → Prop
  | .left _ p :: _ => p.level < k
  | .unary _ :: _ => False
  | _ => True

theorem Stops.reduce {k : Nat} {s : List Frame} (h : Stops k s) (t : Reading) :
    reduce k s t = (s, t) := by
  cases s with
  | nil => rfl
  | cons f s =>
    cases f with
    | left a p => rw [Reader.reduce, if_neg (not_le.mpr h)]
    | unary op => exact h.elim
    | group => rfl
    | call => rfl

theorem Stops.mono {k j : Nat} (hkj : k ≤ j) {s : List Frame} (h : Stops k s) : Stops j s := by
  cases s with
  | nil => trivial
  | cons f s =>
    cases f with
    | left a p => exact lt_of_lt_of_le h hkj
    | unary op => exact h
    | group => trivial
    | call => trivial

/-- No minus waits for its operand. -/
def NoMinus (s : List Frame) : Prop := ∀ r, s ≠ .unary .negate :: r

theorem Stops.noMinus {k : Nat} {s : List Frame} (h : Stops k s) : NoMinus s := by
  rintro r rfl
  exact h

/-- **An operand has been read**: after its text, an operator of level `k` or weaker finds the stack
as if the operand were complete. -/
def Reads (s : List Frame) (text : List Char) (t : Reading) (k : Nat) : Prop :=
  ∃ s' m u, (∀ r, Breaks r → scan (s, .fresh) (text ++ r) = scan (s', m) r) ∧ m.value? = some u ∧
    ∀ j ≤ k, reduce j s' u = reduce j s t

theorem step_op {m : Place} {u : Reading} (hu : m.value? = some u) (s : List Frame) (q : BinaryOp) :
    step (s, m) (.op q) = some (.left (reduce q.level s u).2 q :: (reduce q.level s u).1, .fresh) := by
  cases m with
  | fresh => simp [Place.value?] at hu
  | word w => obtain rfl := Option.some.inj hu; cases q <;> rfl
  | value t => obtain rfl := Option.some.inj hu; cases q <;> rfl

theorem step_rpar {m : Place} {u : Reading} (hu : m.value? = some u) (s : List Frame) :
    step (s, m) .rpar = close (reduce 0 s u) := by
  cases m with
  | fresh => simp [Place.value?] at hu
  | word w => obtain rfl := Option.some.inj hu; rfl
  | value t => obtain rfl := Option.some.inj hu; rfl

theorem step_comma {m : Place} {u : Reading} (hu : m.value? = some u) (s : List Frame) :
    step (s, m) .comma = separate (reduce 0 s u) := by
  cases m with
  | fresh => simp [Place.value?] at hu
  | word w => obtain rfl := Option.some.inj hu; rfl
  | value t => obtain rfl := Option.some.inj hu; rfl

/-- A value taken at once. -/
theorem Reads.of_value {s : List Frame} {text : List Char} {m : Place} {t : Reading} (k : Nat)
    (hm : m.value? = some t)
    (h : ∀ r, Breaks r → scan (s, .fresh) (text ++ r) = scan (s, m) r) : Reads s text t k :=
  ⟨s, m, t, h, hm, fun _ _ => rfl⟩

/-- An operand in parentheses. -/
theorem Reads.group {s : List Frame} {text : List Char} {t : Reading} {k : Nat}
    (h : Reads (.group :: s) text t k) (j : Nat) : Reads s ('(' :: (text ++ [')'])) t j := by
  obtain ⟨s', m, u, hscan, hu, hred⟩ := h
  refine .of_value j (m := .value t) rfl fun r hr => ?_
  have hclose : step (s', m) .rpar = some (s, .value t) := by
    rw [step_rpar hu, hred 0 (Nat.zero_le k)]
    rfl
  calc scan (s, .fresh) ('(' :: (text ++ [')']) ++ r)
      = scan (.group :: s, .fresh) (text ++ ')' :: r) := by
        rw [List.cons_append, scan_symbol rfl (by decide), List.append_assoc]
        rfl
    _ = scan (s', m) (')' :: r) := hscan _ (breaks_cons rfl r)
    _ = scan (s, .value t) r := by
        rw [scan_symbol rfl (by decide), hclose]
        rfl

/-- An operator before its operand. -/
theorem Reads.unary {s : List Frame} {text : List Char} {t : Reading} {k : Nat} {op : UnaryOp}
    {c : Char} (hop : op = .negate ∧ c = '-' ∨ op = .complement ∧ c = '~')
    (h : Reads (.unary op :: s) text t k) : Reads s (c :: text) (.unary op t) k := by
  obtain ⟨s', m, u, hscan, hu, hred⟩ := h
  refine ⟨s', m, u, fun r hr => ?_, hu, hred⟩
  rw [← hscan r hr, List.cons_append]
  rcases hop with ⟨rfl, rfl⟩ | ⟨rfl, rfl⟩
  · rw [scan_symbol (t := .op .sub) rfl (by decide)]
    rfl
  · rw [scan_symbol (t := .tilde) rfl (by decide)]
    rfl

/-- **Two operands and the operator between them.** The left operand is complete when the operator
comes, and the right one when a weaker operator comes. -/
theorem Reads.binary {s : List Frame} {op : BinaryOp} (hop : op ∈ BinaryOp.all) {lt rt : List Char}
    {l r : Reading} {kl kr : Nat} (hs : Stops op.level s) (hl : Reads s lt l kl) (hkl : op.level ≤ kl)
    (hr : Reads (.left l op :: s) rt r kr) (hkr : op.level ≤ kr) :
    Reads s (lt ++ ' ' :: (op.symbol.toList ++ ' ' :: rt)) (.binary op l r) op.level := by
  obtain ⟨s₁, m₁, u₁, hscan₁, hu₁, hred₁⟩ := hl
  obtain ⟨s₂, m₂, u₂, hscan₂, hu₂, hred₂⟩ := hr
  have hstep : step (s₁, m₁) (.op op) = some (.left l op :: s, .fresh) := by
    rw [step_op hu₁, hred₁ _ hkl, hs.reduce]
  refine ⟨s₂, m₂, u₂, fun r hr => ?_, hu₂, fun j hj => ?_⟩
  · calc scan (s, .fresh) (lt ++ ' ' :: (op.symbol.toList ++ ' ' :: rt) ++ r)
        = scan (s₁, m₁) (' ' :: (op.symbol.toList ++ ' ' :: (rt ++ r))) := by
          rw [← hscan₁ _ (breaks_cons rfl _)]
          simp
      _ = scan (.left l op :: s, .fresh) (rt ++ r) := by
          rw [scan_op hop, hstep]
          rfl
      _ = scan (s₂, m₂) r := hscan₂ r hr
  · rw [hred₂ j (hj.trans hkr), Reader.reduce, if_pos hj]

/-! ## Words and numerals -/

/-- A word that is no numeral. -/
structure IsName (w : List Char) : Prop where
  ne_nil : w ≠ []
  word : ∀ c ∈ w, isWordChar c
  head : w.head?.any Char.isDigit = false

theorem isName_of_isIdentifier {s : String} (h : isIdentifier s) : IsName s.toList := by
  unfold isIdentifier at h
  split at h
  · rename_i c r heq
    simp only [Bool.and_eq_true, List.all_eq_true] at h
    rw [heq]
    refine ⟨List.cons_ne_nil c r, ?_, ?_⟩
    · rintro x hx
      rcases List.mem_cons.mp hx with rfl | hx
      · have := h.1; simp only [isWordChar, Char.isAlphanum]; grind
      · have := h.2 x hx; simp only [isWordChar]; grind
    · rw [List.head?_cons, Option.any_some, Bool.eq_false_iff]
      intro hd
      simp only [Char.isDigit, Bool.and_eq_true, decide_eq_true_eq, ge_iff_le] at hd
      have hd' : 48 ≤ c.toNat ∧ c.toNat ≤ 57 := ⟨hd.1, hd.2⟩
      have := h.1
      simp only [Char.isAlpha, Char.isUpper, Char.isLower, Bool.or_eq_true, Bool.and_eq_true,
        decide_eq_true_eq, ge_iff_le, beq_iff_eq] at this
      rcases this with (⟨h1, -⟩ | ⟨h1, -⟩) | rfl
      · exact absurd (show 65 ≤ c.toNat from h1) (by omega)
      · exact absurd (show 97 ≤ c.toNat from h1) (by omega)
      · revert hd'; decide
  · simp at h

theorem IsName.append {v w : List Char} (hv : IsName v) (hw : ∀ c ∈ w, isWordChar c) :
    IsName (v ++ w) := by
  obtain ⟨hne, hword, hhead⟩ := hv
  refine ⟨by simp [hne], fun c hc => ?_, ?_⟩
  · rcases List.mem_append.mp hc with hc | hc
    · exact hword c hc
    · exact hw c hc
  · rwa [List.head?_append_of_ne_nil _ hne]

theorem IsName.marked {mark : String} {w : List Char} (hm : isMark mark) (hw : IsName w) :
    IsName (mark.toList ++ w) := by
  simp only [isMark, Bool.and_eq_true, List.all_eq_true, Bool.not_eq_true'] at hm
  by_cases hnil : mark.toList = []
  · rwa [hnil]
  · exact IsName.append ⟨hnil, hm.1, hm.2⟩ hw.word

theorem Reads.name {s : List Frame} {w : String} (hw : IsName w.toList) (k : Nat) :
    Reads s w.toList (.name w) k := by
  refine .of_value k (m := .word w) rfl fun r hr => ?_
  rw [scan_word hw.word hw.ne_nil hr, step, hw.head]
  rfl

theorem isWordChar_of_isDigit {c : Char} (h : c.isDigit) : isWordChar c := by
  simp [isWordChar, Char.isAlphanum, h]

theorem numeral_eq {s : List Frame} (hs : NoMinus s) (w : String) :
    numeral w s = (Numeral.readInt w).toOption.map fun v => (s, .value (.int v)) := by
  unfold numeral
  split
  · exact absurd rfl (hs _)
  · rfl

/-- Digits that spell an integer. -/
theorem Reads.numeral {s : List Frame} (hs : NoMinus s) {w : String} {v : Int64}
    (hw : ∀ c ∈ w.toList, isWordChar c) (hd : w.toList.head?.any Char.isDigit)
    (hv : Numeral.readInt w = .ok v) (k : Nat) : Reads s w.toList (.int v) k := by
  have hne : w.toList ≠ [] := by rintro h; simp [h] at hd
  refine .of_value k (m := .value (.int v)) rfl fun r hr => ?_
  rw [scan_word hw hne hr, step, if_pos hd, numeral_eq hs, hv]
  rfl

/-- A minus and the digits of a negative integer. -/
theorem Reads.minus {s : List Frame} {w : String} {v : Int64} (hw : ∀ c ∈ w.toList, isWordChar c)
    (hd : w.toList.head?.any Char.isDigit) (hv : Numeral.readInt ("-" ++ w) = .ok v) (k : Nat) :
    Reads s ('-' :: w.toList) (.int v) k := by
  have hne : w.toList ≠ [] := by rintro h; simp [h] at hd
  refine .of_value k (m := .value (.int v)) rfl fun r hr => ?_
  have hnum : Reader.numeral w (.unary .negate :: s) = some (s, .value (.int v)) := by
    rw [Reader.numeral, hv]
    rfl
  rw [List.cons_append, scan_symbol (t := .op .sub) rfl (by decide)]
  change scan (.unary .negate :: s, .fresh) (w.toList ++ r) = _
  rw [scan_word hw hne hr, step, if_pos hd, hnum]
  rfl

theorem head_toDigits (n : Nat) : (Nat.toDigits 10 n).head?.any Char.isDigit := by
  cases h : Nat.toDigits 10 n with
  | nil => exact absurd h Nat.toDigits_ne_nil
  | cons c r => exact Numeral.isDigit_of_mem_decimal (n := n) (h ▸ List.mem_cons_self)

/-- **An integer in decimal.** -/
theorem Reads.decimal {s : List Frame} (hs : NoMinus s) (v : Int64) (k : Nat) :
    Reads s (Numeral.decimal v.toInt).toList (.int v) k := by
  have hv := Numeral.readInt_decimal v
  have hword : ∀ n, ∀ c ∈ (String.ofList (Nat.toDigits 10 n)).toList, isWordChar c := by
    intro n c hc
    rw [String.toList_ofList] at hc
    exact isWordChar_of_isDigit (Numeral.isDigit_of_mem_decimal hc)
  have hhead : ∀ n, (String.ofList (Nat.toDigits 10 n)).toList.head?.any Char.isDigit := by
    intro n
    rw [String.toList_ofList]
    exact head_toDigits n
  by_cases hneg : v.toInt < 0
  · have heq : Numeral.decimal v.toInt = "-" ++ String.ofList (Nat.toDigits 10 v.toInt.natAbs) := by
      rw [Numeral.decimal, Numeral.decimalList, if_pos hneg]
      exact String.toList_inj.mp (by simp)
    rw [heq] at hv ⊢
    rw [String.toList_append]
    exact .minus (hword _) (hhead _) hv k
  · have heq : Numeral.decimal v.toInt = String.ofList (Nat.toDigits 10 v.toInt.natAbs) := by
      rw [Numeral.decimal, Numeral.decimalList, if_neg hneg]
    rw [heq] at hv ⊢
    exact .numeral hs (hword _) (hhead _) hv k

theorem isWordChar_digitChar : ∀ n < 16, isWordChar n.digitChar := by decide

/-- **An operand of a bitwise operator.** -/
theorem Reads.hex {s : List Frame} (hs : NoMinus s) {v : Int64} (h0 : 0 ≤ v) (h1 : v < 0x100000000)
    (k : Nat) : Reads s (hexLiteral v).toList (.int v) k := by
  have hv : Int64.ofNat (v.toUInt64.toNat % 0x100000000) = v := by
    have hlt : v.toInt < 0x100000000 := Int64.lt_iff_toInt_lt.mp h1
    have hn : v.toNatClampNeg < 0x100000000 := (Int.toNat_lt' (by decide)).mpr hlt
    rw [Int64.toNat_toUInt64_of_le h0, Nat.mod_eq_of_lt hn, Int64.ofNat_toNatClampNeg v h0]
  have hread := Numeral.readInt_hexLiteral v
  rw [hv] at hread
  have htext : (hexLiteral v).toList =
      '0' :: 'x' :: Nat.toDigits 16 (v.toUInt64.toNat % 0x100000000) := by
    simp [hexLiteral, Numeral.hex_one]
  refine .numeral hs (fun c hc => ?_) (by rw [htext]; rfl) hread k
  rw [htext] at hc
  rcases List.mem_cons.mp hc with rfl | hc
  · rfl
  rcases List.mem_cons.mp hc with rfl | hc
  · rfl
  obtain ⟨n, hn, rfl⟩ := Numeral.mem_toDigits (by omega) hc
  exact isWordChar_digitChar n hn

end Reader

namespace Dialect

open Reader

variable {d : Dialect}

theorem isName_path : ∀ {name type : String} {owner : Expr}, isIdentifier name → owner.isPath →
    IsName (d.expr .free (.var name type owner)).toList
  | name, _, .hole, hn, _ => by
    rw [expr]
    exact isName_of_isIdentifier hn
  | name, _, .var n t o, hn, ho => by
    simp only [Expr.isPath, Bool.and_eq_true] at ho
    rw [expr]
    simp only [Expr.isHole, Bool.false_eq_true, if_false, String.toList_append, List.append_assoc]
    refine (isName_path ho.1 ho.2).append fun c hc => ?_
    rcases List.mem_append.mp hc with hc | hc
    · obtain rfl : c = '.' := by simpa using hc
      rfl
    · exact (isName_of_isIdentifier hn).word c hc
  | _, _, .int _, _, h | _, _, .real _, _, h | _, _, .str _, _, h | _, _, .const .., _, h
  | _, _, .param .., _, h | _, _, .prop .., _, h | _, _, .unary .., _, h | _, _, .binary .., _, h
  | _, _, .assign .., _, h | _, _, .call .., _, h => by simp [Expr.isPath] at h

theorem isName_constant (hd : isMark d.constantMark) {domain name : String} (h : isIdentifier name) :
    IsName (d.constant domain name).toList := by
  unfold constant
  split_ifs
  · exact isName_of_isIdentifier h
  · rw [String.toList_append]
    exact .marked hd (isName_of_isIdentifier h)

/-- A name before a parenthesis is that of a call. -/
theorem scan_open {f : String} (h : IsName f.toList) (s : List Frame) (r : List Char) :
    scan (s, .fresh) (f.toList ++ '(' :: r) = scan (.call f [] :: s, .fresh) r := by
  rw [scan_word h.word h.ne_nil (breaks_cons rfl r), step, h.head]
  simp only [Bool.false_eq_true, if_false, Option.bind_some]
  rw [scan_symbol rfl (by decide)]
  rfl

/-- How strong the operator has to be that takes an expression apart again. -/
def strength (place : Place) : Expr → Nat
  | .binary op _ _ => if place.needsParens op then 10 else op.level
  | _ => 10

/-- What stands below an expression: no operator that completes it too early, and no minus before
digits. -/
structure Below (place : Place) (e : Expr) (s : List Frame) : Prop where
  minus : e.literal?.isSome → NoMinus s
  stops : ∀ op l r, e = .binary op l r → place.needsParens op = false → Stops op.level s

theorem Below.of_stops {place : Place} {e : Expr} {s : List Frame} (h : Stops 0 s) :
    Below place e s :=
  ⟨fun _ => h.noMinus, fun _ _ _ _ _ => h.mono (Nat.zero_le _)⟩

theorem level_le_strength (op : BinaryOp) (right : Bool) (e : Expr) :
    op.level ≤ strength (.beside op right) e := by
  have h10 : ∀ p : BinaryOp, p.level ≤ 10 := fun p => by cases p <;> simp [BinaryOp.level]
  unfold strength
  split
  · split_ifs with h
    · exact h10 op
    · simp only [Place.needsParens] at h
      split_ifs at h with heq
      · exact heq.ge
      · simpa using h
  · exact h10 op

theorem Below.left {op : BinaryOp} {e : Expr} {s : List Frame} (h : Stops op.level s) :
    Below (.beside op false) e s := by
  refine ⟨fun _ => h.noMinus, ?_⟩
  rintro q l r rfl hq
  have := level_le_strength op false (.binary q l r)
  rw [strength, hq] at this
  exact h.mono this

theorem Below.right {op : BinaryOp} {e : Expr} (h : Expr.mergesInto op e = false) (l : Reading)
    (s : List Frame) : Below (.beside op true) e (.left l op :: s) := by
  refine ⟨fun _ => by rintro r ⟨⟩, ?_⟩
  rintro q b c rfl hq
  simp only [Expr.mergesInto] at h
  simp only [Place.needsParens, h] at hq
  show op.level < q.level
  split_ifs at hq with heq
  · simp at hq
  · simp at hq
    omega

theorem toList_parenthesized (t : String) :
    (parenthesized true t).toList = '(' :: (t.toList ++ [')']) := by
  simp [parenthesized]

theorem strength_of_not_wraps {op : UnaryOp} {e : Expr} (h : wrapsOperand op e = false)
    (place : Place) : strength place e = 10 := by
  cases e with
  | binary => simp [wrapsOperand] at h
  | _ => rfl

theorem fits_false (e : Expr) : e.fits false := by
  cases e <;> rfl

/-- The operand of an operator before it, with its parentheses. -/
theorem reads_operand {op : UnaryOp} {e : Expr} {s : List Frame}
    (he : ∀ s', Below (.behind op) e s' →
      Reads s' (d.expr (.behind op) e).toList (e.reading d) (strength (.behind op) e))
    (hminus : e.literal?.isSome → NoMinus (.unary op :: s)) :
    Reads (.unary op :: s) (parenthesized (wrapsOperand op e) (d.expr (.behind op) e)).toList
      (e.reading d) 10 := by
  by_cases hw : wrapsOperand op e
  · rw [hw, toList_parenthesized]
    exact (he (.group :: .unary op :: s) (.of_stops trivial)).group 10
  · rw [Bool.not_eq_true] at hw
    have := he (.unary op :: s) ⟨hminus, by rintro q l r rfl; simp [wrapsOperand] at hw⟩
    rwa [hw, ← strength_of_not_wraps hw (.behind op)]

mutual

/-- **The reader takes the text of a settled plain expression as that expression.** -/
theorem reads_expr (hd : isMark d.constantMark) : ∀ {e : Expr}, e.isSettled → e.isPlain →
    ∀ (place : Place) {s : List Frame}, e.fits place.isBitwise → Below place e s →
      Reads s (d.expr place e).toList (e.reading d) (strength place e)
  | .binary op l r, hs, he, place, s, _, hb => by
    simp only [Expr.isSettled, Bool.and_eq_true, Bool.not_eq_true'] at hs
    simp only [Expr.isPlain, Bool.and_eq_true] at he
    obtain ⟨⟨hm, hsl⟩, hsr⟩ := hs
    obtain ⟨⟨⟨⟨hop, hlf⟩, hrf⟩, hl⟩, hr⟩ := he
    -- The operation without parentheses, on any stack that its operator leaves alone.
    have hfree : ∀ {s}, Stops op.level s →
        Reads s (d.expr .free (.binary op l r)).toList ((Expr.binary op l r).reading d) op.level := by
      intro s hstop
      have hleft := reads_expr hd hsl hl (.beside op false) hlf (.left hstop)
      have hright := reads_expr hd hsr hr (.beside op true) hrf (.right hm (l.reading d) s)
      have := Reads.binary (List.contains_iff_mem.mp hop) hstop hleft (level_le_strength op false l)
        hright (level_le_strength op true r)
      rw [expr_free_binary, Expr.reading]
      simpa using this
    rw [expr_binary_eq, strength]
    by_cases hp : place.needsParens op
    · rw [hp, toList_parenthesized, if_pos rfl]
      exact (hfree (s := .group :: s) trivial).group 10
    · rw [Bool.not_eq_true] at hp
      rw [hp, if_neg Bool.false_ne_true]
      exact hfree (hb.stops op l r rfl hp)
  | .unary .negate e, hs, he, place, s, _, _ => by
    simp only [Expr.isPlain, Bool.and_eq_true] at he
    have hlit : ¬ e.literal?.isSome := by rw [Option.isNone_iff_eq_none.mp he.1]; simp
    have hs : e.isSettled := hs
    rw [expr, String.toList_append]
    refine .unary (.inl ⟨rfl, rfl⟩) (reads_operand (fun s' hb => ?_) (absurd · hlit))
    exact reads_expr hd hs he.2 (.behind .negate) (fits_false e) hb
  | .unary .complement e, hs, he, place, s, _, _ => by
    simp only [Expr.isPlain, Bool.and_eq_true] at he
    have hs : e.isSettled := hs
    rw [expr, String.toList_append]
    refine .unary (.inr ⟨rfl, rfl⟩) (reads_operand (fun s' hb => ?_) fun _ => by rintro r ⟨⟩)
    exact reads_expr hd hs he.2 (.behind .complement) he.1 hb
  | .call f type owner args note, hs, he, place, s, _, _ => by
    simp only [Expr.isPlain, Bool.and_eq_true] at he
    obtain ⟨⟨⟨hf, howner⟩, hnote⟩, hargs⟩ := he
    have htext : (d.expr place (.call f type owner args note)).toList =
        f.toList ++ '(' :: ((String.intercalate ", " (d.exprs args)).toList ++ [')']) := by
      rw [expr]
      simp [howner, comment, hnote]
    have hname := isName_of_isIdentifier hf
    refine .of_value 10 (m := .value (.call f (Expr.readings d args))) rfl fun r hr => ?_
    rw [htext, List.append_assoc, List.cons_append, List.append_assoc, scan_open hname]
    cases args with
    | nil =>
      rw [exprs, String.intercalate_nil]
      exact scan_symbol (c := ')') rfl (by decide) _ _
    | cons e es => exact scan_exprs hd f (List.cons_ne_nil e es) hs hargs [] s r
  | .int v, _, _, place, s, hf, hb => by
    have hminus := hb.minus rfl
    rw [expr]
    by_cases hbit : place.isBitwise
    · simp only [Expr.fits, hbit, Bool.not_true, Bool.false_or, Bool.and_eq_true,
        decide_eq_true_eq] at hf
      rw [if_pos hbit]
      exact .hex hminus hf.1 hf.2 _
    · rw [if_neg hbit]
      exact .decimal hminus v _
  | .var name type owner, _, he, place, s, _, _ => by
    simp only [Expr.isPlain, Bool.and_eq_true] at he
    have hfree : d.expr place (.var name type owner) = d.expr .free (.var name type owner) := by
      rw [expr, expr]
    rw [hfree]
    exact .name (isName_path he.1 he.2) 10
  | .const domain name, _, he, place, s, _, _ => by
    rw [expr]
    exact .name (isName_constant hd he) 10
  | .param name type, _, he, place, s, _, _ | .prop name type, _, he, place, s, _, _ => by
    rw [expr]
    exact .name (isName_of_isIdentifier he) 10
  | .hole, _, he, _, _, _, _ | .real _, _, he, _, _, _, _ | .str _, _, he, _, _, _, _
  | .assign .., _, he, _, _, _, _ => by simp [Expr.isPlain] at he

/-- Arguments up to the parenthesis that closes the call. -/
theorem scan_exprs (hd : isMark d.constantMark) (f : String) : ∀ {es : List Expr}, es ≠ [] →
    Expr.allSettled es → Expr.allPlain es → ∀ (args : List Reading) (s : List Frame) (r : List Char),
      scan (.call f args :: s, .fresh)
          ((String.intercalate ", " (d.exprs es)).toList ++ ')' :: r) =
        scan (s, .value (.call f (args ++ Expr.readings d es))) r
  | [], hne, _, _, _, _, _ => absurd rfl hne
  | e :: es, _, hs, he, args, s, r => by
    simp only [Expr.allSettled, Bool.and_eq_true] at hs
    simp only [Expr.allPlain, Bool.and_eq_true] at he
    obtain ⟨s', m, u, hscan, hu, hred⟩ :=
      reads_expr hd hs.1 he.1 .free (s := .call f args :: s) (fits_false e) (.of_stops trivial)
    have hzero : reduce 0 s' u = (.call f args :: s, e.reading d) := hred 0 (Nat.zero_le _)
    cases es with
    | nil =>
      rw [exprs, exprs, String.intercalate_singleton, hscan _ (breaks_cons rfl r),
        scan_symbol rfl (by decide), step_rpar hu, hzero]
      rfl
    | cons e' es =>
      have htext : (String.intercalate ", " (d.exprs (e :: e' :: es))).toList ++ ')' :: r =
          (d.expr .free e).toList ++ ',' :: ' ' ::
            ((String.intercalate ", " (d.exprs (e' :: es))).toList ++ ')' :: r) := by
        rw [exprs, exprs, String.intercalate_cons_cons]
        simp
      rw [htext, hscan _ (breaks_cons rfl _), scan_symbol rfl (by decide), step_comma hu, hzero]
      simp only [separate, Option.bind_some, scan_blank]
      rw [scan_exprs hd f (List.cons_ne_nil e' es) hs.2 he.2, List.append_assoc]
      rfl

end

end Dialect

/-- The text that reads in one go reads as the operand. -/
theorem Reader.Reads.read {text : String} {t : Reading} {k : Nat} (h : Reads [] text.toList t k) :
    read text = some t := by
  obtain ⟨s, m, u, hscan, hu, hred⟩ := h
  have hrun : scan ([], .fresh) text.toList = some (s, m) := by
    have := hscan [] breaks_nil
    rwa [List.append_nil] at this
  have hread : ScriptLift.read text =
      (scan ([], .fresh) text.toList).bind fun st =>
        st.2.value?.bind fun t => finish (reduce 0 st.1 t) := by
    unfold ScriptLift.read scan
    cases lexFrom [] text.toList <;> rfl
  rw [hread, hrun, Option.bind_some, hu, Option.bind_some, hred 0 (Nat.zero_le k)]
  rfl

/-- The text of a plain expression is taken as the expression regrouped. -/
theorem Dialect.reads_regrouped {d : Dialect} (hd : isMark d.constantMark) {e : Expr}
    (he : e.isPlain) : Reader.Reads [] (d.expr .free e).toList (e.regrouped.reading d)
      (strength .free e.regrouped) := by
  rw [← Dialect.expr_regrouped d .free e]
  exact Dialect.reads_expr hd (Expr.isSettled_regrouped e) (Expr.isPlain_regrouped he) .free
    (Dialect.fits_false _) (.of_stops trivial)

/-- **Emitted expressions read back.** The text of a plain expression reads as the expression
regrouped, whatever the dialect's mark of constants is. -/
theorem read_expr (d : Dialect) (hd : isMark d.constantMark) (e : Expr) (he : e.isPlain) :
    read (d.expr .free e) = some (e.regrouped.reading d) := by
  have hreads := Dialect.reads_regrouped hd he
  exact hreads.read

/-- A product merges into a product and takes the quotient on its left edge along. -/
theorem read_expr_mixed :
    isMark Dialect.default.constantMark ∧
    (Expr.binary .sub
      (.binary .mul (.param "a" "int")
        (.binary .mul (.binary .div (.int (-7)) (.var "x" "int" (.var "b" "UNIT" .hole)))
          (.unary .negate (.param "c" "int"))))
      (.call "f" "int" .hole [.unary .complement (.binary .bitAnd (.int 7) (.const "D" "K"))] "")).isPlain ∧
    read (Dialect.default.expr .free
      (.binary .sub
        (.binary .mul (.param "a" "int")
          (.binary .mul (.binary .div (.int (-7)) (.var "x" "int" (.var "b" "UNIT" .hole)))
            (.unary .negate (.param "c" "int"))))
        (.call "f" "int" .hole [.unary .complement (.binary .bitAnd (.int 7) (.const "D" "K"))] ""))) =
      some (.binary .sub
        (.binary .mul (.binary .div (.binary .mul (.name "a") (.int (-7))) (.name "b.x"))
          (.unary .negate (.name "c")))
        (.call "f" [.unary .complement (.binary .bitAnd (.int 7) (.name "@K"))])) :=
  ⟨by decide, by decide, read_expr Dialect.default (by decide) _ (by decide)⟩

end ScriptLift
