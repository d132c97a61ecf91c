/-
  JsonTables.Proofs.Value.Key — the keys of groups and the ties of a sort say the same.

  Two numbers have one key exactly where their exact values are equal, since normal form leaves one
  integer or one binary number for each value. Every other value has its text as key, and its text is the
  text of no finite number: that text is a numeral, and a text that is a numeral counts as a number
  itself. What is left are values whose texts agree although their keys do not: null beside the empty
  text, and an infinity beside its text, which is no numeral.

  Proved:
  - `Number.normalize_eq_iff`: two numbers have one normal form exactly where they compare as equal.
  - `number?_of_asText`: a value whose text is a numeral is a number.
  - `key_agrees_with_sort`: keys are equal exactly where values tie, the two cases above apart.
-/

import JsonTables.Proofs.Numeral
import JsonTables.Proofs.Numeral.Recognition
import JsonTables.Proofs.Value.Comparison
import JsonTables.Value.Order

namespace JsonTables

/-! ## Normal form -/

/-- A number other than zero is the rounding of its exact value. -/
theorem Binary64.eq_ofRatio {x : Binary64} {q : Rat} (hx : x.value? = some q) (hq : q ≠ 0) :
    x = ofRatio (q.num < 0) q.num.natAbs q.den := by
  cases x with
  | infinity _ => cases hx
  | nan => cases hx
  | finite negative m e hc =>
    have hden : Nat.pow 2 (-e).toNat ≠ 0 := (Nat.pow_pos (by decide)).ne'
    obtain ⟨k, hk, hnum, hdenk⟩ := Rat.mkRat_num_den hden (Option.some.inj hx : mkRat _ _ = q)
    have hmag : m * Nat.pow 2 e.toNat = k * q.num.natAbs := by
      have habs := congrArg Int.natAbs hnum
      rw [Int.natAbs_mul, Int.natAbs_natCast] at habs
      rw [Nat.mul_comm k, ← habs]
      cases negative with
      | true => exact ((Int.natAbs_neg _).trans (Int.natAbs_natCast _)).symm
      | false => rfl
    have hsign : negative = decide (q.num < 0) := by
      have hzero : q.num ≠ 0 := Rat.num_ne_zero.mpr hq
      have hpos : (0 : Int) < k := by omega
      cases negative with
      | true =>
        have hle : q.num * k ≤ 0 := by
          rw [← hnum]
          simp
        have hlt : q.num < 0 := by
          by_contra hge
          have : 0 < q.num * k := Int.mul_pos (by omega) hpos
          omega
        simp [hlt]
      | false =>
        have hle : 0 ≤ q.num * k := by
          rw [← hnum]
          simp
        have hlt : ¬q.num < 0 := by
          intro hneg
          have : q.num * k < 0 := Int.mul_neg_of_neg_of_pos hneg hpos
          omega
        simp [hlt]
    rw [← ofRatio_exact negative hc, hmag, hdenk, Nat.mul_comm q.den, ofRatio_mul negative (by omega) q.den_pos, hsign]

namespace Number

theorem integer?_eq {x : Binary64} {q : Rat} (h : x.value? = some q) :
    x.integer? = if q.den = 1 then some q.num else none := by
  rw [Binary64.integer?, h]
  rfl

/-- The normal form is decided by the exact value. -/
theorem normalize_of_value {n : Number} {q : Rat} (h : n.value? = some q) :
    n.normalize = if q.den = 1 then int q.num else n := by
  cases n with
  | int k =>
    obtain rfl : (k : Rat) = q := Option.some.inj h
    simp [normalize]
  | float x =>
    have hx : x.value? = some q := h
    unfold normalize
    dsimp only
    rw [integer?_eq hx]
    by_cases hden : q.den = 1
    · rw [if_pos hden, if_pos hden]
    · rw [if_neg hden, if_neg hden]

theorem value?_normalize {n : Number} {q : Rat} (h : n.value? = some q) : n.normalize.value? = some q := by
  rw [normalize_of_value h]
  split
  · rename_i hden
    exact congrArg some (Rat.den_eq_one_iff q |>.mp hden)
  · exact h

/-- A normal form is its own. -/
theorem normalize_normalize (n : Number) : n.normalize.normalize = n.normalize := by
  cases n with
  | int k => rfl
  | float x =>
    cases hx : x.integer? with
    | some k =>
      have hnormal : (float x).normalize = int k := by simp only [normalize, hx]
      rw [hnormal]
      rfl
    | none =>
      have hnormal : (float x).normalize = float x := by simp only [normalize, hx]
      rw [hnormal, hnormal]

/-- One exact value has one normal form. -/
theorem normalize_eq_of_value {m n : Number} {q : Rat} (hm : m.value? = some q) (hn : n.value? = some q) :
    m.normalize = n.normalize := by
  rw [normalize_of_value hm, normalize_of_value hn]
  split
  · rfl
  · rename_i hden
    have hfloat {n : Number} (hn : n.value? = some q) : n = float (.ofRatio (q.num < 0) q.num.natAbs q.den) := by
      cases n with
      | int k =>
        obtain rfl : (k : Rat) = q := Option.some.inj hn
        exact absurd rfl hden
      | float x =>
        have hne : q ≠ 0 := by
          rintro rfl
          exact hden rfl
        exact congrArg float (Binary64.eq_ofRatio hn hne)
    rw [hfloat hm, hfloat hn]

/-- An infinity has neither the normal form of a finite number nor its place among the numbers. -/
theorem infinity_of_value {n : Number} {q : Rat} (h : n.value? = some q) (negative : Bool) :
    n.normalize ≠ normalize (float (.infinity negative)) ∧ n.extended ≠ extended (float (.infinity negative)) := by
  constructor
  · intro he
    have hv := value?_normalize h
    rw [he] at hv
    cases hv
  · rw [extended_of_value h]
    cases negative with
    | true => exact WithBot.coe_ne_bot
    | false => exact fun he => WithTop.coe_ne_top (WithBot.coe_injective he)

/-- Two numbers have one normal form exactly where they compare as equal. -/
theorem normalize_eq_iff {m n : Number} (hm : m ≠ .float .nan) (hn : n ≠ .float .nan) :
    m.normalize = n.normalize ↔ m.compare n = .eq := by
  rw [(compare_extended hm hn).2]
  rcases finite_or_infinite hm with ⟨p, hp, -⟩ | ⟨b, rfl⟩ <;> rcases finite_or_infinite hn with ⟨q, hq, -⟩ | ⟨c, rfl⟩
  · rw [extended_of_value hp, extended_of_value hq]
    constructor
    · intro h
      have hv := value?_normalize hp
      rw [h, value?_normalize hq] at hv
      rw [Option.some.inj hv]
    · intro h
      obtain rfl : p = q := WithTop.coe_injective (WithBot.coe_injective h)
      exact normalize_eq_of_value hp hq
  · obtain ⟨hnormal, hextended⟩ := infinity_of_value hp c
    exact iff_of_false hnormal hextended
  · obtain ⟨hnormal, hextended⟩ := infinity_of_value hq b
    exact iff_of_false hnormal.symm hextended.symm
  · cases b <;> cases c <;> decide

end Number

namespace Value

/-! ## Texts of numbers -/

theorem numberOfText?_toString (k : Int) : numberOfText? (toString k) = some (.int k) := by
  obtain ⟨n, hread, hform, hvalue⟩ := Numeral.ofText?_toString k
  rw [numberOfText?_eq, hread, Option.map_some, if_pos hform, hvalue]

theorem numberOfText?_plain {x : Binary64} (h : x.isFinite = true) :
    numberOfText? (Binary64.plain.text x) = some (.float x) := by
  obtain ⟨n, hread, hform, hvalue⟩ := Numeral.ofText?_plain h
  rw [numberOfText?_eq, hread, Option.map_some, hform, hvalue]
  rfl

/-- What is read from the text of a finite number is its normal form. -/
theorem number?_text_number {n : Number} {q : Rat} (h : n.value? = some q) :
    (text (number n).asText).number? = some n.normalize := by
  have hvalue := Number.value?_normalize h
  show numberOfText? n.normalize.text = some n.normalize
  cases hnormal : n.normalize with
  | int k => exact numberOfText?_toString k
  | float x =>
    rw [hnormal] at hvalue
    have hfinite : x.isFinite = true := by
      rw [Binary64.isFinite, show x.value? = some q from hvalue]
      rfl
    exact numberOfText?_plain hfinite

/-- The text of whatever counts as a number is a numeral, that of an infinity apart. -/
theorem number?_text_asText {v : Value} {n : Number} (hv : v.number? = some n)
    (hfinite : ∀ negative, v ≠ number (.float (.infinity negative))) : (text v.asText).number?.isSome = true := by
  cases v with
  | text s => simp [asText, hv]
  | number k =>
    have hk : k ≠ .float .nan := by
      rintro rfl
      cases hv
    rcases Number.finite_or_infinite hk with ⟨q, hq, -⟩ | ⟨b, hb⟩
    · rw [number?_text_number hq]
      rfl
    · exact absurd (congrArg number hb) (hfinite b)
  | _ => cases hv

theorem number?_text_of_head {s : String} {c : Char} (hc : s.toList.head? = some c)
    (hopens : c ∈ ['[', '\x7b']) : (text s).number? = none := by
  obtain ⟨rest, hrest⟩ := List.head?_eq_some_iff.mp hc
  have hnone : Numeral.ofText? s = none := by
    rw [← Option.not_isSome_iff_eq_none]
    intro h
    rcases List.mem_pair.mp hopens with rfl | rfl
    · exact absurd (Numeral.head_of_ofText? hrest rfl h) (by decide)
    · exact absurd (Numeral.head_of_ofText? hrest rfl h) (by decide)
  simp [number?, numberOfText?_eq, hnone]

theorem head_enclose (opening : Char) (closing : String) (items : List String) :
    (Json.enclose .line 0 (String.singleton opening) closing items).toList.head? = some opening := by
  unfold Json.enclose
  split <;> simp

theorem head_asText_list (items : List Value) : (list items).asText.toList.head? = some '[' :=
  head_enclose '[' "]" (Json.writeItems .line 1 items)

theorem head_asText_map (entries : List (String × Value)) : (map entries).asText.toList.head? = some '\x7b' :=
  head_enclose '\x7b' "\x7d" (Json.writeEntries .line 1 entries)

/-- A value whose text is a numeral is a number. -/
theorem number?_of_asText {v : Value} (h : (text v.asText).number?.isSome = true) : v.number?.isSome = true := by
  cases v with
  | null => exact absurd h (by decide +kernel)
  | bool b => cases b <;> exact absurd h (by decide +kernel)
  | number k =>
    by_cases hk : k = .float .nan
    · subst hk
      exact absurd h (by decide +kernel)
    · rw [number?_of_ne_nan hk]
      rfl
  | text s => exact h
  | list items =>
    have hnone : (text (list items).asText).number? = none := number?_text_of_head (head_asText_list items) (by decide)
    rw [hnone] at h
    cases h
  | map entries =>
    have hnone : (text (map entries).asText).number? = none := number?_text_of_head (head_asText_map entries) (by decide)
    rw [hnone] at h
    cases h

/-- The text of an infinity. -/
def infinityText (negative : Bool) : String := if negative then "-inf" else "inf"

theorem asText_infinity (negative : Bool) :
    (number (.float (.infinity negative))).asText = infinityText negative := by
  cases negative <;> decide +kernel

/-- Nothing but an infinity and its text has that text. -/
theorem eq_of_asText_infinity {v : Value} {negative : Bool} (hv : v.number? = none)
    (h : v.asText = infinityText negative) : v = text (infinityText negative) := by
  have hhead : v.asText.toList.head? = (infinityText negative).toList.head? := by rw [h]
  cases v with
  | null => cases negative <;> exact absurd h (by decide +kernel)
  | bool b => cases b <;> cases negative <;> exact absurd h (by decide +kernel)
  | number k =>
    by_cases hk : k = .float .nan
    · subst hk
      cases negative <;> exact absurd h (by decide +kernel)
    · rw [number?_of_ne_nan hk] at hv
      cases hv
  | text s => exact congrArg text h
  | list items =>
    rw [head_asText_list] at hhead
    cases negative <;> exact absurd hhead (by decide +kernel)
  | map entries =>
    rw [head_asText_map] at hhead
    cases negative <;> exact absurd hhead (by decide +kernel)

theorem eq_of_asText_empty {v : Value} (h : v.asText = "") : v = null ∨ v = text "" := by
  have hhead : v.asText.toList.head? = none := by
    rw [h]
    rfl
  cases v with
  | null => exact .inl rfl
  | bool b => cases b <;> exact absurd h (by decide +kernel)
  | number k =>
    by_cases hk : k = .float .nan
    · subst hk
      exact absurd h (by decide +kernel)
    · obtain ⟨c, rest, htext, -⟩ := exists_opensNumber hk
      rw [htext] at hhead
      cases hhead
  | text s => exact .inr (congrArg text h)
  | list items =>
    rw [head_asText_list] at hhead
    cases hhead
  | map entries =>
    rw [head_asText_map] at hhead
    cases hhead

/-! ## Keys -/

theorem key_of_number {v : Value} {n : Number} (h : v.number? = some n) : v.key = .number n.normalize := by
  cases v with
  | null => cases h
  | _ => simp only [key, h]

theorem key_of_text {v : Value} (h : v.number? = none) (hnull : v ≠ null) : v.key = .text v.asText := by
  cases v with
  | null => exact absurd rfl hnull
  | _ => simp only [key, h]

/-- Null and the infinities tie in a sort with their texts, and yet are of other groups than these. -/
def TiesApart (a b : Value) : Prop :=
  (a = null ∨ ∃ negative, a = number (.float (.infinity negative))) ∧ b = text a.asText

theorem TiesApart.number? {a b : Value} (h : TiesApart a b) : b.number? = none := by
  obtain ⟨rfl | ⟨negative, rfl⟩, rfl⟩ := h
  · decide +kernel
  · cases negative <;> decide +kernel

theorem TiesApart.sortCompare {a b : Value} (h : TiesApart a b) : a.sortCompare b = .eq := by
  rw [sortCompare_eq_iff_asText (.inr h.number?), h.2]
  rfl

theorem TiesApart.key_ne {a b : Value} (h : TiesApart a b) : a.key ≠ b.key := by
  have hb : b.key = .text b.asText := key_of_text h.number? (by simp [h.2])
  rw [hb]
  rcases h.1 with rfl | ⟨negative, rfl⟩ <;> exact Key.noConfusion

theorem key_eq_of_numbers {a b : Value} {m n : Number} (ha : a.number? = some m) (hb : b.number? = some n) :
    a.key = b.key ↔ a.sortCompare b = .eq := by
  rw [key_of_number ha, key_of_number hb, sortCompare_numbers ha hb,
    ← Number.normalize_eq_iff (number?_ne_nan ha) (number?_ne_nan hb)]
  simp

/-- A number and what is no number tie only as an infinity and its text. -/
theorem tiesApart_of_number {a b : Value} {m : Number} (ha : a.number? = some m) (hb : b.number? = none)
    (h : a.sortCompare b = .eq) : TiesApart a b := by
  have htext : a.asText = b.asText := (sortCompare_eq_iff_asText (.inr hb)).mp h
  by_cases hinfinite : ∃ negative, a = number (.float (.infinity negative))
  · obtain ⟨negative, rfl⟩ := hinfinite
    have hinf := asText_infinity negative
    exact ⟨.inr ⟨negative, rfl⟩, by rw [hinf]; exact eq_of_asText_infinity hb (htext.symm.trans hinf)⟩
  · have hread := number?_text_asText ha fun negative hne => hinfinite ⟨negative, hne⟩
    rw [htext] at hread
    have hsome := number?_of_asText hread
    rw [hb] at hsome
    cases hsome

/-- Two values that are no numbers have one key where their texts agree, null beside the empty text apart. -/
theorem key_eq_of_texts {a b : Value} (ha : a.number? = none) (hb : b.number? = none) :
    a.key = b.key ↔ a.sortCompare b = .eq ∧ ¬(TiesApart a b ∨ TiesApart b a) := by
  rw [sortCompare_eq_iff_asText (.inl ha)]
  constructor
  · intro h
    refine ⟨?_, ?_⟩
    · by_cases hna : a = null <;> by_cases hnb : b = null
      · rw [hna, hnb]
      · rw [hna, key_of_text hb hnb] at h
        cases h
      · rw [hnb, key_of_text ha hna] at h
        cases h
      · rw [key_of_text ha hna, key_of_text hb hnb] at h
        exact Key.text.inj h
    · rintro (hapart | hapart)
      · exact hapart.key_ne h
      · exact hapart.key_ne h.symm
  · rintro ⟨htext, hapart⟩
    by_cases hna : a = null <;> by_cases hnb : b = null
    · rw [hna, hnb]
    · rw [hna] at htext
      rcases eq_of_asText_empty htext.symm with he | he
      · exact absurd he hnb
      · exact absurd (.inl ⟨.inl hna, by rw [he, hna]; rfl⟩) hapart
    · rw [hnb] at htext
      rcases eq_of_asText_empty htext with he | he
      · exact absurd he hna
      · exact absurd (.inr ⟨.inl hnb, by rw [he, hnb]; rfl⟩) hapart
    · rw [key_of_text ha hna, key_of_text hb hnb, htext]

theorem key_ne_of_number {a b : Value} {m : Number} (ha : a.number? = some m) (hb : b.number? = none) :
    a.key ≠ b.key := by
  rw [key_of_number ha]
  by_cases hnull : b = null
  · rw [hnull]
    exact Key.noConfusion
  · rw [key_of_text hb hnull]
    exact Key.noConfusion

theorem key_eq_iff (a b : Value) :
    a.key = b.key ↔ a.sortCompare b = .eq ∧ ¬(TiesApart a b ∨ TiesApart b a) := by
  cases ha : a.number? with
  | none =>
    cases hb : b.number? with
    | none => exact key_eq_of_texts ha hb
    | some n =>
      constructor
      · intro h
        exact absurd h.symm (key_ne_of_number hb ha)
      · rintro ⟨htie, hapart⟩
        rw [sortCompare_swap, Ordering.swap_eq_eq] at htie
        exact absurd (.inr (tiesApart_of_number hb ha htie)) hapart
  | some m =>
    cases hb : b.number? with
    | none =>
      constructor
      · intro h
        exact absurd h (key_ne_of_number ha hb)
      · rintro ⟨htie, hapart⟩
        exact absurd (.inl (tiesApart_of_number ha hb htie)) hapart
    | some n =>
      rw [key_eq_of_numbers ha hb]
      constructor
      · intro h
        refine ⟨h, ?_⟩
        rintro (hapart | hapart)
        · rw [hapart.number?] at hb
          cases hb
        · rw [hapart.number?] at ha
          cases ha
      · exact And.left

/-- Two values have one key exactly where they tie in a sort, null and the infinities beside their own texts
apart, which tie and have different keys. So equal keys tie, and equality of keys is an equivalence. All that
is not a number has one key, and so have an integer, the binary number of its value and its text. -/
theorem key_agrees_with_sort :
    (∀ a b : Value, a.key = b.key ↔ a.sortCompare b = .eq ∧ ¬(TiesApart a b ∨ TiesApart b a)) ∧
    (∀ a b : Value, TiesApart a b → a.sortCompare b = .eq ∧ a.key ≠ b.key) ∧
    (∀ a b : Value, a.key = b.key → a.sortCompare b = .eq) ∧
    Equivalence (fun a b : Value => a.key = b.key) ∧
    (∀ x y : Binary64, x.isNan = true → y.isNan = true → (number (.float x)).key = (number (.float y)).key) ∧
    (∀ (k : Int) (x : Binary64), x.integer? = some k →
      (ofInt k).key = (number (.float x)).key ∧ (ofInt k).key = (text (toString k)).key) := by
  refine ⟨key_eq_iff, ?_, ?_, ⟨fun _ => rfl, fun h => h.symm, fun h h' => h.trans h'⟩, ?_, ?_⟩
  · intro a b h
    exact ⟨h.sortCompare, h.key_ne⟩
  · intro a b h
    exact ((key_eq_iff a b).mp h).1
  · intro x y hx hy
    cases x <;> cases hx
    cases y <;> cases hy
    rfl
  · intro k x hx
    have hk : (ofInt k).key = .number (.int k) := rfl
    have hnan : Number.float x ≠ .float .nan := by
      rintro h
      rw [Number.float.inj h] at hx
      cases hx
    have hnormal : (Number.float x).normalize = .int k := by
      unfold Number.normalize
      simp only [hx]
    refine ⟨?_, ?_⟩
    · rw [hk, key_of_number (number?_of_ne_nan hnan), hnormal]
    · rw [hk, key_of_number (show (text (toString k)).number? = some (.int k) from numberOfText?_toString k)]
      rfl

/-- An infinity ties with its text and has a key of its own; 1, 1.0 and the text 1 are of one group. -/
theorem key_agrees_with_sort_one :
    let infinite := number (.float (.infinity false))
    (infinite.sortCompare (text "inf") = .eq ∧ infinite.key ≠ (text "inf").key) ∧
      (ofInt 1).sortCompare (number (.float (.ofInt 1))) = .eq ∧ (ofInt 1).key = (text "1").key := by
  intro infinite
  obtain ⟨_, happart, hties, _, _, hone⟩ := key_agrees_with_sort
  have hinfinite : TiesApart infinite (text "inf") := ⟨.inr ⟨false, rfl⟩, congrArg text (by decide +kernel)⟩
  obtain ⟨hbinary, htext⟩ := hone 1 (.ofInt 1) (by decide +kernel)
  exact ⟨happart _ _ hinfinite, hties _ _ hbinary, htext⟩

end Value

end JsonTables
