/-
  JsonTables.Proofs.Value.Comparison — the comparison of values is an order wherever values belong together.

  Numbers compare by their exact values, be they integers or binary numbers, and every other pair of values
  as texts by code points, first without regard to case. So among numbers and numerals it is a total
  preorder, and among all other values too. Null and its marker stand beside plain numbers as texts: null
  has the empty text, the text of a number begins with a digit, a sign or the `i` of an infinity, and all
  of these are before the `n` with which the folded marker begins. So null is before every number and the
  marker behind every number.

  Proved:
  - `Number.compare_extended`: numbers compare as rationals with two infinities.
  - `compareText_codePoints`: texts compare by their code points.
  - `sortCompare_of_stage_lt`: null, then numbers, then the marker.
  - `comparison_sound`: both comparisons turn round with their values, and that of sorting is a total
    preorder on each of the three families.
-/

import JsonTables.Proofs.Numeral.Recognition
import JsonTables.Proofs.Value.Order
import Mathlib.Order.WithBot

namespace JsonTables

/-! ## Exact values -/

/-- The exact value of a number, the infinities below and above all others. -/
def Number.extended (n : Number) : WithBot (WithTop Rat) :=
  match n.value? with
  | some q => ((q : WithTop Rat) : WithBot (WithTop Rat))
  | none => if n.rank < 0 then ⊥ else ((⊤ : WithTop Rat) : WithBot (WithTop Rat))

/-- A number that is one: finite with its value, or one of the infinities. -/
theorem Number.finite_or_infinite {n : Number} (h : n ≠ .float .nan) :
    (∃ q, n.value? = some q ∧ n.rank = 0) ∨ ∃ negative, n = .float (.infinity negative) := by
  cases n with
  | int k => exact .inl ⟨k, rfl, rfl⟩
  | float x =>
    cases x with
    | finite negative m e hc => exact .inl ⟨_, rfl, rfl⟩
    | infinity negative => exact .inr ⟨negative, rfl⟩
    | nan => exact absurd rfl h

theorem Number.extended_of_value {n : Number} {q : Rat} (h : n.value? = some q) :
    n.extended = ((q : WithTop Rat) : WithBot (WithTop Rat)) := by
  simp only [Number.extended, h]

/-- Two numbers compare as their exact values do. -/
theorem Number.compare_extended {m n : Number} (hm : m ≠ .float .nan) (hn : n ≠ .float .nan) :
    (m.compare n = .lt ↔ m.extended < n.extended) ∧ (m.compare n = .eq ↔ m.extended = n.extended) := by
  have hbelow : (Number.float (.infinity true)).extended = ⊥ := rfl
  have habove : (Number.float (.infinity false)).extended = ((⊤ : WithTop Rat) : WithBot (WithTop Rat)) := rfl
  have hranks : (Number.float (.infinity true)).rank = -1 ∧ (Number.float (.infinity false)).rank = 1 := ⟨rfl, rfl⟩
  rcases Number.finite_or_infinite hm with ⟨p, hp, hmr⟩ | ⟨b, rfl⟩ <;>
    rcases Number.finite_or_infinite hn with ⟨q, hq, hnr⟩ | ⟨c, rfl⟩
  · rw [extended_of_value hp, extended_of_value hq]
    rcases lt_trichotomy p q with h | h | h
    · simp [compare, hp, hq, hmr, hnr, h, h.ne]
    · simp [compare, hp, hq, hmr, hnr, h]
    · simp [compare, hp, hq, hmr, hnr, h, h.not_gt, h.ne']
  · rw [extended_of_value hp]
    have htop : ((p : WithTop Rat) : WithBot (WithTop Rat)) < ⊤ := WithBot.coe_lt_coe.mpr (WithTop.coe_lt_top p)
    cases c <;> simp [compare, hbelow, habove, hranks, hmr, htop]
  · rw [extended_of_value hq]
    cases b <;> simp [compare, hbelow, habove, hranks, hnr]
  · cases b <;> cases c <;> simp [compare, hbelow, habove, hranks]

theorem Binary64.ofRatio_ne_nan (negative : Bool) (num den : Nat) : ofRatio negative num den ≠ .nan := by
  have hpack : ∀ m e, pack negative m e ≠ .nan := by
    intro m e
    unfold pack
    split <;> simp
  unfold ofRatio
  dsimp only
  split
  · exact hpack _ _
  · exact hpack _ _

theorem Binary64.ofDecimal_ne_nan (negative : Bool) (digits : Nat) (exponent : Int) :
    ofDecimal negative digits exponent ≠ .nan := by
  unfold ofDecimal
  dsimp only
  split
  · simp [zero]
  · split
    · simp
    · split
      · simp [zero]
      · exact ofRatio_ne_nan _ _ _

namespace Value

/-- What a value is read as is a number. -/
theorem number?_ne_nan {v : Value} {n : Number} (h : v.number? = some n) : n ≠ .float .nan := by
  rintro rfl
  cases v with
  | number k =>
    cases k with
    | int k => simp [number?] at h
    | float x => cases x <;> simp [number?, Binary64.isNan] at h
  | text s =>
    rw [number?, numberOfText?_eq] at h
    obtain ⟨k, _, hk⟩ := Option.map_eq_some_iff.mp h
    split at hk
    · cases hk
    · exact Binary64.ofDecimal_ne_nan _ _ _ (Number.float.inj hk)
  | _ => cases h

/-! ## Code points -/

def codePoints (s : String) : List Nat := s.toList.map Char.toNat

theorem codePoints_lt_iff (s t : String) : s < t ↔ codePoints s < codePoints t := by
  rw [String.lt_iff_toList_lt]
  unfold codePoints
  generalize s.toList = cs
  generalize t.toList = ds
  induction cs generalizing ds with
  | nil => cases ds <;> simp
  | cons c cs ih =>
    cases ds with
    | nil => simp
    | cons d ds =>
      have hlt : c < d ↔ c.toNat < d.toNat := Iff.rfl
      rw [List.map_cons, List.map_cons, List.cons_lt_cons_iff, List.cons_lt_cons_iff, ih, hlt, Char.toNat_inj]

/-- Texts compare by their code points. -/
theorem compareText_codePoints (s t : String) :
    (compareText s t = .lt ↔ codePoints s < codePoints t) ∧ (compareText s t = .eq ↔ s = t) := by
  rw [compareText_eq]
  exact ⟨compare_lt_iff_lt.trans (codePoints_lt_iff s t), compare_eq_iff_eq⟩

/-! ## The two comparisons -/

theorem compare_numbers {v w : Value} {m n : Number} (hv : v.number? = some m) (hw : w.number? = some n) :
    v.compare w = m.compare n := by
  simp only [compare, hv, hw]

theorem compare_texts {v w : Value} (h : v.number? = none ∨ w.number? = none) :
    v.compare w = compareText (Text.fold v.asText) (Text.fold w.asText) := by
  unfold compare
  rcases h with h | h
  · rw [h]
  · rw [h]
    cases v.number? <;> rfl

theorem compareText_swap (s t : String) : compareText s t = (compareText t s).swap := by
  rw [compareText_eq, compareText_eq]
  exact Std.OrientedCmp.eq_swap

theorem compare_swap (v w : Value) : v.compare w = (w.compare v).swap := by
  by_cases h : v.number? = none ∨ w.number? = none
  · rw [compare_texts h, compare_texts h.symm]
    exact compareText_swap _ _
  · obtain ⟨hv, hw⟩ := not_or.mp h
    obtain ⟨m, hm⟩ := Option.ne_none_iff_exists'.mp hv
    obtain ⟨n, hn⟩ := Option.ne_none_iff_exists'.mp hw
    rw [compare_numbers hm hn, compare_numbers hn hm]
    exact Std.OrientedCmp.eq_swap

theorem eq_of_swap_self {o : Ordering} (h : o = o.swap) : o = .eq := by
  cases o with
  | eq => rfl
  | lt => cases h
  | gt => cases h

/-- Values that are no numbers tie in a sort exactly where their texts are the same. -/
theorem sortCompare_eq_iff_asText {v w : Value} (h : v.number? = none ∨ w.number? = none) :
    v.sortCompare w = .eq ↔ v.asText = w.asText := by
  rw [sortCompare_texts h, compareTexts, Ordering.then_eq_eq, (compareText_codePoints _ _).2,
    (compareText_codePoints _ _).2]
  constructor
  · intro h
    exact h.2
  · intro h
    exact ⟨congrArg Text.fold h, h⟩

/-! ## Numbers, null and its marker -/

/-- Where a character stands with which the text of a number may begin. -/
def OpensNumber (c : Char) : Prop := c = '-' ∨ c = 'i' ∨ c.isDigit = true

theorem exists_opensNumber_int (k : Int) : ∃ c rest, (toString k).toList = c :: rest ∧ OpensNumber c := by
  have hdigits : ∀ n : Nat, ∃ c rest, Nat.toDigits 10 n = c :: rest ∧ OpensNumber c := by
    intro n
    obtain ⟨hne, hmem⟩ := Token.digits_toDigits n
    obtain ⟨c, rest, hc⟩ := List.exists_cons_of_ne_nil hne
    exact ⟨c, rest, hc, .inr (.inr (hmem c (by rw [hc]; exact List.mem_cons_self)))⟩
  cases k with
  | ofNat n =>
    obtain ⟨c, rest, hc, hopens⟩ := hdigits n
    exact ⟨c, rest, by rw [← hc]; exact String.toList_ofList, hopens⟩
  | negSucc n =>
    refine ⟨'-', Nat.toDigits 10 (n + 1), ?_, .inl rfl⟩
    show ("-" ++ String.ofList (Nat.toDigits 10 (n + 1))).toList = _
    rw [String.toList_append, String.toList_ofList]
    simp

theorem exists_opensNumber_float {x : Binary64} (h : x ≠ .nan) :
    ∃ c rest, (Binary64.plain.text x).toList = c :: rest ∧ OpensNumber c := by
  by_cases hfinite : x.isFinite = true
  · obtain ⟨w, htext, -, -⟩ := Token.text_written Binary64.plain hfinite
    obtain ⟨c, hc, hdigit⟩ := w.head_text
    obtain ⟨rest, hrest⟩ := List.head?_eq_some_iff.mp hc
    rw [htext, hrest]
    cases x.isNegative with
    | true => exact ⟨'-', c :: rest, rfl, .inl rfl⟩
    | false => exact ⟨c, rest, rfl, .inr (.inr hdigit)⟩
  · cases x with
    | finite negative m e hc => exact absurd rfl hfinite
    | nan => exact absurd rfl h
    | infinity negative =>
      cases negative with
      | true => exact ⟨'-', ['i', 'n', 'f'], by decide +kernel, .inl rfl⟩
      | false => exact ⟨'i', ['n', 'f'], by decide +kernel, .inr (.inl rfl)⟩

theorem exists_opensNumber {n : Number} (h : n ≠ .float .nan) :
    ∃ c rest, (number n).asText.toList = c :: rest ∧ OpensNumber c := by
  show ∃ c rest, n.normalize.text.toList = c :: rest ∧ OpensNumber c
  cases n with
  | int k => exact exists_opensNumber_int k
  | float x =>
    unfold Number.normalize
    dsimp only
    split
    · exact exists_opensNumber_int _
    · exact exists_opensNumber_float fun hx => h (congrArg Number.float hx)

theorem OpensNumber.toNat_lt {c : Char} (h : OpensNumber c) : c.toNat < 'n'.toNat := by
  rcases h with rfl | rfl | h
  · decide
  · decide
  · simp only [Char.isDigit, Bool.and_eq_true, decide_eq_true_eq] at h
    exact Nat.lt_of_le_of_lt h.2 (by decide)

theorem OpensNumber.foldChar {c : Char} (h : OpensNumber c) : Text.foldChar c = [c] := by
  have hascii : c.toNat < 0x80 := Nat.lt_trans h.toNat_lt (by decide)
  have hupper : ¬ (c.val ≥ 'A'.val ∧ c.val ≤ 'Z'.val) := by
    rcases h with rfl | rfl | h
    · decide
    · decide
    · intro hup
      simp only [Char.isDigit, Bool.and_eq_true, decide_eq_true_eq] at h
      exact absurd (UInt32.le_trans hup.1 h.2) (by decide)
  have hlower : c.toLower = c := by
    unfold Char.toLower
    exact dif_neg hupper
  rw [Text.foldChar, if_pos hascii, hlower]

/-- The folded text of a number begins as the text does, and before the letter `n`. -/
theorem exists_fold_asText {n : Number} (h : n ≠ .float .nan) :
    ∃ c rest, (Text.fold (number n).asText).toList = c :: rest ∧ c < 'n' := by
  obtain ⟨c, rest, htext, hopens⟩ := exists_opensNumber h
  refine ⟨c, rest.flatMap Text.foldChar, ?_, hopens.toNat_lt⟩
  rw [Text.fold, String.toList_ofList, htext, List.flatMap_cons, hopens.foldChar]
  rfl

/-- Null comes first, then the numbers, and behind them all other values. -/
def stage : Value → Nat
  | null => 0
  | number _ => 1
  | _ => 2

/-- Plain numbers, null and its marker. -/
def NumberOrNull (v : Value) : Prop :=
  v = null ∨ v = text nullMarker ∨ ∃ n : Number, n ≠ .float .nan ∧ v = number n

theorem sortCompare_eq_lt_of_fold {v w : Value} (h : v.number? = none ∨ w.number? = none)
    (hlt : Text.fold v.asText < Text.fold w.asText) : v.sortCompare w = .lt := by
  rw [sortCompare_texts h, compareTexts, compareText_eq, compare_lt_iff_lt.mpr hlt]
  rfl

theorem number?_nullMarker : (text nullMarker).number? = none := by decide +kernel

theorem sortCompare_null_number {n : Number} (h : n ≠ .float .nan) : null.sortCompare (number n) = .lt := by
  refine sortCompare_eq_lt_of_fold (.inl rfl) ?_
  obtain ⟨c, rest, htext, -⟩ := exists_fold_asText h
  have hnull : (Text.fold null.asText).toList = [] := by decide +kernel
  rw [String.lt_iff_toList_lt, hnull, htext]
  exact List.nil_lt_cons c rest

theorem sortCompare_number_marker {n : Number} (h : n ≠ .float .nan) :
    (number n).sortCompare (text nullMarker) = .lt := by
  refine sortCompare_eq_lt_of_fold (.inr number?_nullMarker) ?_
  obtain ⟨c, rest, htext, hlt⟩ := exists_fold_asText h
  have hmarker : (Text.fold (text nullMarker).asText).toList = ['n', 'u', 'l', 'l'] := by decide +kernel
  rw [String.lt_iff_toList_lt, htext, hmarker, List.cons_lt_cons_iff]
  exact .inl hlt

theorem sortCompare_of_stage_lt {v w : Value} (hv : NumberOrNull v) (hw : NumberOrNull w) (h : v.stage < w.stage) :
    v.sortCompare w = .lt := by
  rcases hv with rfl | rfl | ⟨m, hm, rfl⟩ <;> rcases hw with rfl | rfl | ⟨n, hn, rfl⟩
  · exact absurd h (by decide)
  · decide +kernel
  · exact sortCompare_null_number hn
  · exact absurd h (by decide)
  · exact absurd h (by decide)
  · exact absurd h (by simp [stage])
  · exact absurd h (by simp [stage])
  · exact sortCompare_number_marker hm
  · exact absurd h (by simp [stage])

theorem number?_of_ne_nan {n : Number} (h : n ≠ .float .nan) : (number n).number? = some n := by
  cases n with
  | int k => rfl
  | float x =>
    cases x with
    | nan => exact absurd rfl h
    | _ => rfl

theorem sameKind_of_stage_eq {v w : Value} (hv : NumberOrNull v) (hw : NumberOrNull w) (h : v.stage = w.stage) :
    SameKind v w := by
  rcases hv with rfl | rfl | ⟨m, hm, rfl⟩ <;> rcases hw with rfl | rfl | ⟨n, hn, rfl⟩
  · rfl
  · cases h
  · cases h
  · cases h
  · rfl
  · cases h
  · cases h
  · cases h
  · simp only [SameKind, number?_of_ne_nan hm, number?_of_ne_nan hn, Option.isSome_some]

theorem stage_le_of_isLE {v w : Value} (hv : NumberOrNull v) (hw : NumberOrNull w)
    (h : (v.sortCompare w).isLE = true) : v.stage ≤ w.stage := by
  by_contra hlt
  rw [sortCompare_swap, sortCompare_of_stage_lt hw hv (Nat.lt_of_not_le hlt)] at h
  cases h

/-! ## Families in order -/

/-- Among the values of a family the comparison of sorting is transitive. Since it turns round with its
values, it is a total preorder there. -/
def OrderedOn (family : Value → Prop) : Prop :=
  ∀ a b c, family a → family b → family c → (a.sortCompare b).isLE = true → (b.sortCompare c).isLE = true →
    (a.sortCompare c).isLE = true

theorem orderedOn_number (kind : Bool) : OrderedOn fun v => v.number?.isSome = kind := by
  intro a b c ha hb hc hab hbc
  exact sortCompare_isLE_trans (ha.trans hb.symm) (hb.trans hc.symm) hab hbc

theorem orderedOn_numberOrNull : OrderedOn NumberOrNull := by
  intro a b c ha hb hc hab hbc
  have hle := stage_le_of_isLE ha hb hab
  have hle' := stage_le_of_isLE hb hc hbc
  by_cases h : a.stage < c.stage
  · rw [sortCompare_of_stage_lt ha hc h]
    rfl
  · have hsame : a.stage = b.stage := by omega
    have hsame' : b.stage = c.stage := by omega
    exact sortCompare_isLE_trans (sameKind_of_stage_eq ha hb hsame) (sameKind_of_stage_eq hb hc hsame') hab hbc

/-- With numbers and other texts at hand the comparison runs in a circle. -/
example :
    let values := [ofInt 2, ofInt 10, text "1a"]
    values.zipWith sortCompare (values.rotate 1) = [.lt, .lt, .lt] := by
  decide +kernel

/-- Both comparisons turn round with their values and find every value equal to itself, and that of sorting
says what the other says wherever this tells two values apart. Numbers compare by their exact values, all
else by the code points of folded texts. Sorting is a total preorder on the values with a number, on those
without one, where only equal texts tie, and on plain numbers with null, which comes first, and the marker
for null, which comes last. -/
theorem comparison_sound :
    (∀ a b : Value, a.compare b = (b.compare a).swap ∧ a.sortCompare b = (b.sortCompare a).swap) ∧
    (∀ a : Value, a.compare a = .eq ∧ a.sortCompare a = .eq) ∧
    (∀ a b : Value, a.compare b ≠ .eq → a.sortCompare b = a.compare b) ∧
    (∀ a b : Value, ∀ m n, a.number? = some m → b.number? = some n →
      (a.compare b = .lt ↔ m.extended < n.extended) ∧ (a.compare b = .eq ↔ m.extended = n.extended)) ∧
    (∀ a b : Value, a.number? = none ∨ b.number? = none →
      (a.compare b = .lt ↔ codePoints (Text.fold a.asText) < codePoints (Text.fold b.asText)) ∧
      (a.compare b = .eq ↔ Text.fold a.asText = Text.fold b.asText)) ∧
    OrderedOn (fun a => a.number?.isSome = true) ∧
    (OrderedOn (fun a => a.number?.isSome = false) ∧
      ∀ a b : Value, a.number? = none → b.number? = none → (a.sortCompare b = .eq ↔ a.asText = b.asText)) ∧
    (OrderedOn NumberOrNull ∧ ∀ n : Number, n ≠ .float .nan →
      null.sortCompare (number n) = .lt ∧ (number n).sortCompare (text nullMarker) = .lt) := by
  refine ⟨?_, ?_, ?_, ?_, ?_, orderedOn_number true, ⟨orderedOn_number false, ?_⟩, orderedOn_numberOrNull, ?_⟩
  · intro a b
    exact ⟨compare_swap a b, sortCompare_swap a b⟩
  · intro a
    exact ⟨eq_of_swap_self (compare_swap a a), eq_of_swap_self (sortCompare_swap a a)⟩
  · intro a b h
    unfold sortCompare
    split
    · rename_i heq
      exact absurd heq h
    · rfl
  · intro a b m n hm hn
    rw [compare_numbers hm hn]
    exact Number.compare_extended (number?_ne_nan hm) (number?_ne_nan hn)
  · intro a b h
    rw [compare_texts h]
    exact compareText_codePoints _ _
  · intro a b ha _
    exact sortCompare_eq_iff_asText (.inl ha)
  · intro n hn
    exact ⟨sortCompare_null_number hn, sortCompare_number_marker hn⟩

/-- An integer that no binary number equals stands behind the nearest one, and a numeral between it and an
infinity; a truth value ties with its text, and null is before 7 and 7 before the marker. -/
theorem comparison_sound_mixed :
    let large := ofInt 9007199254740993
    let nearest := number (.float (.ofInt 9007199254740992))
    let infinite := number (.float (.infinity false))
    (nearest.sortCompare large = .lt ∧ (large.sortCompare infinite).isLE = true) ∧
      (bool true).sortCompare (text "true") = .eq ∧ (null.sortCompare (text nullMarker)).isLE = true := by
  intro large nearest infinite
  obtain ⟨_, _, hagree, hexact, _, hnumbers, ⟨_, hties⟩, hnulls, hends⟩ := comparison_sound
  have hcompare : nearest.compare large = .lt := by
    refine (hexact nearest large _ _ rfl rfl).1.mpr ?_
    have hlt : (9007199254740992 : Rat) < 9007199254740993 := by norm_num
    have hnearest : (Number.float (.ofInt 9007199254740992)).value? = some 9007199254740992 := by decide +kernel
    have hlarge : (Number.int 9007199254740993).value? = some 9007199254740993 := by decide +kernel
    rw [Number.extended_of_value hnearest, Number.extended_of_value hlarge]
    exact WithBot.coe_lt_coe.mpr (WithTop.coe_lt_coe.mpr hlt)
  have hsort : nearest.sortCompare large = .lt := by
    rw [hagree nearest large (by rw [hcompare]; decide), hcompare]
  have h7 : Number.int 7 ≠ .float .nan := by decide
  have hnumeral : (large.sortCompare (text "1e300")).isLE = true ∧ ((text "1e300").sortCompare infinite).isLE = true := by
    decide +kernel
  refine ⟨⟨hsort, ?_⟩, (hties _ _ rfl (by decide +kernel)).mpr rfl, ?_⟩
  · exact hnumbers large (text "1e300") infinite rfl (by decide +kernel) rfl hnumeral.1 hnumeral.2
  · have h := hends (.int 7) h7
    exact hnulls null (number (.int 7)) (text nullMarker) (.inl rfl) (.inr (.inr ⟨_, h7, rfl⟩)) (.inr (.inl rfl))
      (by rw [h.1]; rfl) (by rw [h.2]; rfl)

end Value

end JsonTables
