/-
  JsonTables.Proofs.Value.Text — a value and its text are of one group.

  The text of a finite number is a numeral that denotes it: an integer has its digits, also where it is a
  binary number, and every other number has a point or a power of ten in its text. So reading the text gives
  the number in normal form. A value that is no number has a text that is no numeral, which is its key. What
  is left are null, whose text is the empty one, and the infinities, whose texts are words. An integer of too many
  digits has no text at all.

  Joins compare the texts of keys, so in columns of numbers they pair the rows with equal numbers.

  Proved:
  - `toKey_text`: the text of a value is of its group.
  - `asText_eq_iff`: two numbers have one text exactly where they are equal.
  - `Scope.pairs_eq_pairsNumbers`: rows with numbers as keys pair up exactly where these are equal.
  - `text_keeps_identity`: all of this, and that the text of a finite number is read as an equal one.
-/

import JsonTables.Proofs.Join
import JsonTables.Proofs.Value.Digits

namespace JsonTables

namespace Value

/-! ## Groups -/

theorem toKey_of_toNumber {v : Value} {n : Number} (h : v.toNumber = .ok (some n)) :
    v.toKey = .ok (.number n.normalize) := by
  cases v with
  | null => cases h
  | _ =>
    rw [toKey, h]
    · rfl
    · nofun

theorem toKey_of_toText {v : Value} {s : String} (hnull : v ≠ null) (h : v.toNumber = .ok none) (htext : v.toText = .ok s) :
    v.toKey = .ok (.text s) := by
  cases v with
  | null => exact absurd rfl hnull
  | _ =>
    rw [toKey, h]
    · simp only [htext, bind, Except.bind]
      rfl
    · nofun

/-- What is read as no number is of the group of its text, which is no numeral either. -/
theorem toKey_text_of_none {v : Value} (hnull : v ≠ null) (hv : v.toNumber = .ok none)
    (hdigits : v.withinDigits maxDigits = true) : (text v.asText).toKey = v.toKey := by
  have hnumber : v.number? = none := by
    rcases v.toNumber_cases with h | h
    · exact Except.ok.inj (h.symm.trans hv)
    · rw [hv] at h
      cases h
  have hnone : numberOfText? v.asText = none := by
    refine Option.not_isSome_iff_eq_none.mp fun h => ?_
    have hsome := number?_of_asText h
    rw [hnumber] at hsome
    cases hsome
  have htext : (text v.asText).toKey = .ok (.text v.asText) :=
    toKey_of_toText (by simp) (toNumber_text_of_none hnone) rfl
  rw [htext, toKey_of_toText hnull hv (toText_eq_ok hdigits)]

/-- The text of a value that has one is of the group of the value. -/
theorem toKey_text {v : Value} {s : String} (hs : v.toText = .ok s) (hnull : v ≠ null)
    (hfinite : ∀ negative, v ≠ number (.float (.infinity negative))) : (text s).toKey = v.toKey := by
  obtain ⟨hdigits, rfl⟩ := toText_eq_ok_iff.mp hs
  cases v with
  | text s => rfl
  | number n =>
    by_cases hn : n = .float .nan
    · subst hn
      exact toKey_text_of_none hnull rfl hdigits
    · rcases Number.finite_or_infinite hn with ⟨q, hq, -⟩ | ⟨negative, rfl⟩
      · have hnumber : (number n).toNumber = .ok (some n) := congrArg Except.ok (number?_of_ne_nan hn)
        rw [toKey_of_toNumber (toNumber_text_number hq hdigits), toKey_of_toNumber hnumber, Number.normalize_normalize]
      · exact absurd rfl (hfinite negative)
  | _ => exact toKey_text_of_none hnull rfl hdigits

/-! ## Numbers -/

theorem number?_text_infinity (negative : Bool) :
    (text (number (.float (.infinity negative))).asText).number? = none :=
  TiesApart.number? ⟨.inr ⟨negative, rfl⟩, rfl⟩

theorem infinityText_injective : Function.Injective infinityText := by
  intro b c
  revert b c
  decide

/-- Two numbers have one text exactly where they have one normal form. -/
theorem asText_eq_iff_normalize {m n : Number} (hm : m ≠ .float .nan) (hn : n ≠ .float .nan) :
    (number m).asText = (number n).asText ↔ m.normalize = n.normalize := by
  constructor
  · intro h
    rcases Number.finite_or_infinite hm with ⟨p, hp, -⟩ | ⟨b, rfl⟩
    · have hread := number?_text_number hp
      rcases Number.finite_or_infinite hn with ⟨q, hq, -⟩ | ⟨c, rfl⟩
      · rw [h, number?_text_number hq] at hread
        exact (Option.some.inj hread).symm
      · rw [h, number?_text_infinity] at hread
        cases hread
    · have hword := number?_text_infinity b
      rcases Number.finite_or_infinite hn with ⟨q, hq, -⟩ | ⟨c, rfl⟩
      · rw [h, number?_text_number hq] at hword
        cases hword
      · rw [asText_infinity, asText_infinity] at h
        rw [infinityText_injective h]
  · intro h
    exact congrArg Number.text h

/-- Two numbers have one text exactly where they are equal. -/
theorem asText_eq_iff {m n : Number} (hm : m ≠ .float .nan) (hn : n ≠ .float .nan) :
    (number m).asText = (number n).asText ↔ m.extended = n.extended := by
  rw [asText_eq_iff_normalize hm hn, Number.normalize_eq_iff hm hn, (Number.compare_extended hm hn).2]

end Value

/-! ## Joins -/

namespace Scope

/-- The number that a column holds in a row. -/
def number? (scope : Scope) (column : String) (row : Row) : Option Number :=
  match scope.resolve? row column with
  | some (.number n) => some n
  | _ => none

/-- What the column holds in a row is a number that has a text, if it holds anything there. -/
def Numeric (scope : Scope) (column : String) (row : Row) : Prop :=
  ∀ v, scope.resolve? row column = some v →
    v.isMissing = true ∨ ∃ n, v = .number n ∧ n ≠ .float .nan ∧ n.withinDigits maxDigits = true

/-- Whether two rows hold equal numbers, each in its own column. -/
def pairsNumbers (scope : Scope) (leftKey rightKey : String) (l r : Row) : Bool :=
  match scope.number? leftKey l, scope.number? rightKey r with
  | some m, some n => m.extended = n.extended
  | _, _ => false

variable {scope : Scope}

/-- In a column of numbers a row has the text of its number as key. -/
theorem Numeric.keyText?_eq {column : String} {row : Row} (h : scope.Numeric column row) :
    scope.keyText? column row = (scope.number? column row).map fun n => (Value.number n).asText := by
  unfold Scope.keyText? Scope.number?
  cases hv : scope.resolve? row column with
  | none => rfl
  | some v =>
    rcases h v hv with hmissing | ⟨n, rfl, -⟩
    · cases v with
      | number n => cases hmissing
      | _ => simp [hmissing]
    · rfl

theorem Numeric.ne_nan {column : String} {row : Row} {n : Number} (h : scope.Numeric column row)
    (hn : scope.number? column row = some n) : n ≠ .float .nan := by
  unfold Scope.number? at hn
  split at hn
  · rename_i k hk
    rcases h _ hk with hmissing | ⟨m, hm, hnan⟩
    · cases hmissing
    · cases hn
      cases hm
      exact hnan.1
  · cases hn

/-- In columns of numbers rows pair up exactly where their numbers are equal. -/
theorem pairs_eq_pairsNumbers {leftKey rightKey : String} {l r : Row} (hl : scope.Numeric leftKey l)
    (hr : scope.Numeric rightKey r) : scope.pairs leftKey rightKey l r = scope.pairsNumbers leftKey rightKey l r := by
  rw [pairs, pairsNumbers, ← keyText?_eq, ← keyText?_eq, hl.keyText?_eq, hr.keyText?_eq]
  cases hm : scope.number? leftKey l with
  | none => rfl
  | some m =>
    cases hn : scope.number? rightKey r with
    | none => rfl
    | some n =>
      have htexts := Value.asText_eq_iff (hl.ne_nan hm) (hr.ne_nan hn)
      rw [Bool.eq_iff_iff]
      simpa using htexts

end Scope

namespace Value

/-- An integer of too many digits has no text, and its numeral is read as no number. -/
theorem too_long {k : Int} (h : (Number.int k).withinDigits maxDigits = false) :
    (number (.int k)).toText = .error .digits ∧ (text (toString k)).toNumber = .error .digits := by
  constructor
  · refine if_neg ?_
    rw [withinDigits, h]
    exact Bool.false_ne_true
  · rw [toNumber, isOverlong_toString, h]
    rfl

/-- A number and its text are equal where the number is finite; every value but null and the infinities is of the group
of its text; numbers have one text exactly where they are equal, be they integers or binary numbers. So a join on two
columns of numbers, of whatever kind, pairs the rows whose numbers are equal. Integers of too many digits are left out
of this: they have no text, and their numerals are read as no number. -/
theorem text_keeps_identity (m n : Number) (v : Value) (scope : Scope) (kind : JoinKind) (rightName : Option String)
    (leftKey rightKey : String) (left right : List Row) :
    (∀ q, n.value? = some q →
      (n.withinDigits maxDigits = true → ∃ s k, (number n).toText = .ok s ∧ (text s).toNumber = .ok (some k) ∧
        k.value? = some q) ∧
      (n.withinDigits maxDigits = false → (number n).toText = .error .digits ∧ ∃ k, n = .int k ∧
        (text (toString k)).toNumber = .error .digits)) ∧
    (∀ s, v.toText = .ok s → v ≠ null → (∀ negative, v ≠ number (.float (.infinity negative))) →
      (text s).toKey = v.toKey) ∧
    (m ≠ .float .nan → n ≠ .float .nan → m.withinDigits maxDigits = true → n.withinDigits maxDigits = true →
      ∃ s t, (number m).toText = .ok s ∧ (number n).toText = .ok t ∧ (s = t ↔ m.extended = n.extended)) ∧
    let keys := orientKeys rightName leftKey rightKey
    (∀ l ∈ left, scope.Numeric keys.1 l) → (∀ r ∈ right, scope.Numeric keys.2 r) →
      joinRows scope kind rightName leftKey rightKey left right =
        joinBy kind (scope.pairsNumbers keys.1 keys.2) left right := by
  refine ⟨fun q hq => ⟨fun hdigits => ?_, fun hdigits => ?_⟩, fun s => toKey_text, ?_, ?_⟩
  · exact ⟨_, n.normalize, toText_eq_ok hdigits, toNumber_text_number hq hdigits, Number.value?_normalize hq⟩
  · cases n with
    | float x => cases hdigits
    | int k => exact ⟨(too_long hdigits).1, k, rfl, (too_long hdigits).2⟩
  · intro hm hn hmdigits hndigits
    exact ⟨_, _, toText_eq_ok hmdigits, toText_eq_ok hndigits, asText_eq_iff hm hn⟩
  · intro keys hleft hright
    rw [joinRows_eq_joinBy]
    exact joinBy_congr kind fun l hl r hr => Scope.pairs_eq_pairsNumbers (hleft l hl) (hright r hr)

/-- A tenth is read from its text; a list is of the group of its text; the binary number 1 has the text of the integer 1,
and so their rows pair up. -/
theorem text_keeps_identity_one :
    let tenth := Binary64.ofDecimal false 1 (-1)
    let one := Number.float (.ofInt 1)
    let row (n : Number) := Row.ofList [("k", number n)]
    let scope : Scope := ⟨Registry.empty, []⟩
    (∃ q s m, tenth.value? = some q ∧ (number (.float tenth)).toText = .ok s ∧ (text s).toNumber = .ok (some m) ∧
      m.value? = some q) ∧
      (text "[1]").toKey = (list [ofInt 1]).toKey ∧
      (number one).toText = (number (.int 1)).toText ∧
      joinRows scope .inner none "k" "k" [row one] [row (.int 1)] =
        joinBy .inner (scope.pairsNumbers "k" "k") [row one] [row (.int 1)] ∧
      scope.pairsNumbers "k" "k" (row one) (row (.int 1)) = true := by
  intro tenth one row scope
  obtain ⟨hreads, hgroups, -⟩ := text_keeps_identity one (.float tenth) (list [ofInt 1]) scope .inner none "k" "k" [] []
  obtain ⟨-, -, htexts, hjoins⟩ :=
    text_keeps_identity one (.int 1) null scope .inner none "k" "k" [row one] [row (.int 1)]
  have hnumeric (n : Number) (hn : n ≠ .float .nan) (hdigits : n.withinDigits maxDigits = true) :
      scope.Numeric "k" (row n) := by
    intro v hv
    have hresolve : scope.resolve? (row n) "k" = some (number n) := rfl
    rw [hresolve] at hv
    exact .inr ⟨n, (Option.some.inj hv).symm, hn, hdigits⟩
  have hone : one ≠ .float .nan := by decide +kernel
  have hequal : one.extended = (Number.int 1).extended := by decide +kernel
  have hvalue : tenth.value? = some (mkRat 3602879701896397 36028797018963968) := by decide +kernel
  obtain ⟨s, m, hs, hm, hmq⟩ := (hreads _ hvalue).1 rfl
  have htext : (list [ofInt 1]).toText = .ok "[1]" := by decide +kernel
  obtain ⟨t, u, ht, hu, hsame⟩ := htexts hone (by simp) rfl (by decide)
  refine ⟨⟨_, s, m, hvalue, hs, hm, hmq⟩, hgroups _ htext (by simp) (by simp), ?_, ?_, ?_⟩
  · rw [ht, hu, hsame.mpr hequal]
  · apply hjoins
    · intro l hl
      rw [List.mem_singleton.mp hl]
      exact hnumeric one hone rfl
    · intro r hr
      rw [List.mem_singleton.mp hr]
      exact hnumeric (.int 1) (by simp) (by decide)
  · exact decide_eq_true hequal

theorem no_text_too_long :
    (ofInt leastTooLong).toText = .error .digits ∧
      (text (toString (leastTooLong : Int))).toNumber = .error .digits :=
  too_long Number.withinDigits_leastTooLong

end Value

end JsonTables
