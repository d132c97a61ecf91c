/-
  JsonTables.Proofs.Function.Faults — which arithmetic has no result, and which functions always have one.

  Addition, subtraction and multiplication fail only where an integer beyond the range of the binary format
  stands beside a binary number. A quotient fails there too, and where the ratio of two integers is out of range; a
  remainder where either side is such an integer or the dividend is infinite. Zero divisors are caught. Of the
  functions that every query can use only five let such a fault through: the others catch it, or do no arithmetic.
  Apart from arithmetic, a function or an operator fails where an argument has an integer of too many digits.

  Proved:
  - `Operator.fails_iff`: an operator has no result on exactly these operands.
  - `builtins_total`: all functions but the five have a result on all arguments without too many digits.
  - `builtins_total_on_star`: on the star these five have one too.
-/

import JsonTables.Function.Builtin
import JsonTables.Expr.Eval
import JsonTables.Proofs.Binary64.Rounding
import JsonTables.Proofs.Function.OfGroup
import JsonTables.Proofs.Value.Digits

namespace JsonTables

/-! ## Operands -/

namespace Binary64

theorem roundQuotient_pos {num den : Nat} (hd : 0 < den) (h : den ≤ num) : 0 < roundQuotient num den := by
  have hq : 0 < num / den := Nat.div_pos h hd
  unfold roundQuotient
  dsimp only
  split <;> omega

/-- A ratio of at least one has a place on its grid that is at least one. -/
theorem grid_le {num den : Nat} (hd : 0 < den) (h : den ≤ num) :
    den * Nat.pow 2 (gridExponent num den).toNat ≤ num * Nat.pow 2 (-gridExponent num den).toNat := by
  have hn : 0 < num := Nat.lt_of_lt_of_le hd h
  have hdq : (0 : ℚ) < den := by exact_mod_cast hd
  have hpos : (0 : ℚ) < num / den := div_pos (by exact_mod_cast hn) hdq
  have hlog : 0 ≤ floorLog2 num den := by
    rw [floorLog2_eq hn hd, ← zpow_le_iff hpos, zpow_zero, one_le_div hdq]
    exact_mod_cast h
  rw [← Nat.not_lt, lt_zpow_iff hd, not_lt, zpow_le_iff hpos, ← floorLog2_eq hn hd, gridExponent, if_neg hn.ne']
  omega

theorem isZero_pack (negative : Bool) {m : Nat} (hm : 0 < m) (e : Int) : (pack negative m e).isZero = false := by
  unfold pack
  split
  · cases negative <;> simp [isZero, value?, hm.ne']
  · rfl

/-- An integer other than zero is rounded to no zero. -/
theorem isZero_ofInt {k : Int} (hk : k ≠ 0) : (ofInt k).isZero = false := by
  have hgrid := grid_le Nat.one_pos (show 1 ≤ k.natAbs by omega)
  have hm := roundQuotient_pos (Nat.mul_pos Nat.one_pos (Nat.pow_pos (by decide))) hgrid
  unfold ofInt ofRatio
  dsimp only
  split
  · exact isZero_pack _ (by decide) _
  · exact isZero_pack _ hm _

/-- Among numbers only an infinite dividend has no remainder. -/
theorem isNan_rem {x y : Binary64} (hx : x ≠ .nan) (hy : y ≠ .nan) : (x.rem y).isNan = x.isInfinite := by
  have hround : ∀ negative q, (round negative q).isNan = false := by
    intro negative q
    have hne : round negative q ≠ .nan := ofRatio_ne_nan _ _ _
    cases h : round negative q with
    | nan => exact absurd h hne
    | _ => rfl
  cases x with
  | nan => exact absurd rfl hx
  | infinity negative => rfl
  | finite negative m e h =>
    cases y with
    | nan => exact absurd rfl hy
    | infinity other => rfl
    | finite other m' e' h' => exact hround _ _

end Binary64

namespace Number

/-- An integer beyond the range of the binary format. -/
def Unfit (n : Number) : Prop := ∃ k, n = .int k ∧ (Binary64.ofInt k).isInfinite = true

/-- An integer beyond the range of the binary format and a binary number. -/
def Clash (a b : Number) : Prop := a.Unfit ∧ (∃ y, b = .float y) ∨ (∃ x, a = .float x) ∧ b.Unfit

/-- The ratio of two integers is beyond the range of the binary format. -/
def RatioUnfit (a b : Number) : Prop :=
  ∃ j k, a = .int j ∧ b = .int k ∧ (Binary64.ofRatio ((j < 0) != (k < 0)) j.natAbs k.natAbs).isInfinite = true

theorem not_unfit_float (x : Binary64) : ¬ (Number.float x).Unfit := by
  rintro ⟨k, hk, -⟩
  cases hk

theorem toBinary64_fails_iff {n : Number} : (∃ fault, n.toBinary64 = .error fault) ↔ n.Unfit := by
  cases n with
  | float x => simp [toBinary64, Unfit]
  | int k => by_cases h : (Binary64.ofInt k).isInfinite = true <;> simp [toBinary64, Unfit, h]

/-- Two conversions fail where either does. -/
theorem both_fail_iff {α : Type} {a b : Number} {f : Binary64 → Binary64 → α} :
    (∃ fault, (do return f (← a.toBinary64) (← b.toBinary64)) = .error fault) ↔ a.Unfit ∨ b.Unfit := by
  rw [← toBinary64_fails_iff, ← toBinary64_fails_iff]
  cases ha : a.toBinary64 with
  | error fault => simp [bind, Except.bind]
  | ok x =>
    cases hb : b.toBinary64 with
    | error fault => simp [bind, Except.bind]
    | ok y => simp [bind, Except.bind, pure, Except.pure]

theorem combine_fails_iff {exact : Int → Int → Int} {rounded : Binary64 → Binary64 → Binary64} {a b : Number} :
    (∃ fault, combine exact rounded a b = .error fault) ↔ a.Clash b := by
  cases a with
  | int j =>
    cases b with
    | int k => simp [combine, Clash]
    | float y =>
      unfold combine
      rw [both_fail_iff]
      simp [Clash, not_unfit_float]
  | float x =>
    unfold combine
    rw [both_fail_iff]
    simp [Clash, not_unfit_float]

theorem isZero_int {k : Int} : (Number.int k).isZero = true ↔ k = 0 := by
  simp [isZero, value?]

/-- An integer in the binary format. -/
theorem toBinary64_int {k : Int} {x : Binary64} :
    (Number.int k).toBinary64 = .ok x ↔ (Binary64.ofInt k).isInfinite = false ∧ Binary64.ofInt k = x := by
  by_cases hfits : (Binary64.ofInt k).isInfinite = true
  · simp [toBinary64, hfits]
  · simp [toBinary64, hfits]

/-- A divisor that is not zero is none in the binary format either. -/
theorem toBinary64_isZero {n : Number} (h : n.isZero = false) {x : Binary64} (hx : n.toBinary64 = .ok x) :
    x.isZero = false := by
  cases n with
  | float y =>
    cases hx
    exact h
  | int k =>
    have hk : k ≠ 0 := fun hk => by rw [isZero_int.mpr hk] at h; cases h
    obtain ⟨-, rfl⟩ := toBinary64_int.mp hx
    exact Binary64.isZero_ofInt hk

theorem div_fails_iff {a b : Number} (hb : b.isZero = false) :
    (∃ fault, a.div b = .error fault) ↔ a.Clash b ∨ a.RatioUnfit b := by
  have hround (h : a.div b = do
      let x ← a.toBinary64
      let y ← b.toBinary64
      if y.isZero then .error .zeroDivisor else return .float (x.div y)) :
      (∃ fault, a.div b = .error fault) ↔ a.Unfit ∨ b.Unfit := by
    rw [h, ← both_fail_iff (f := fun x y => Number.float (x.div y))]
    cases ha : a.toBinary64 with
    | error fault => rfl
    | ok x =>
      cases hy : b.toBinary64 with
      | error fault => rfl
      | ok y =>
        have hzero := toBinary64_isZero hb hy
        simp [bind, Except.bind, pure, Except.pure, hzero]
  cases a with
  | int j =>
    cases b with
    | int k =>
      have hk : k ≠ 0 := fun hk => by rw [isZero_int.mpr hk] at hb; cases hb
      by_cases hratio : (Binary64.ofRatio ((j < 0) != (k < 0)) j.natAbs k.natAbs).isInfinite = true <;>
        simp [div, Clash, RatioUnfit, hk, hratio]
    | float y =>
      rw [hround rfl]
      simp [Clash, RatioUnfit, not_unfit_float]
  | float x =>
    rw [hround rfl]
    simp [Clash, RatioUnfit, not_unfit_float]

/-- The infinities. -/
def Infinite (n : Number) : Prop := ∃ negative, n = .float (.infinity negative)

theorem toBinary64_ne_nan {n : Number} (h : n ≠ .float .nan) {x : Binary64} (hx : n.toBinary64 = .ok x) : x ≠ .nan := by
  cases n with
  | float y =>
    cases hx
    exact fun hy => h (congrArg Number.float hy)
  | int k =>
    obtain ⟨-, rfl⟩ := toBinary64_int.mp hx
    exact Binary64.ofRatio_ne_nan _ _ _

/-- What is infinite in the binary format was so before. -/
theorem toBinary64_isInfinite {n : Number} {x : Binary64} (hx : n.toBinary64 = .ok x) :
    x.isInfinite = true ↔ n.Infinite := by
  cases n with
  | float y =>
    cases hx
    cases x <;> simp [Infinite, Binary64.isInfinite]
  | int k =>
    obtain ⟨hfits, rfl⟩ := toBinary64_int.mp hx
    simp [Infinite, hfits]

theorem rem_fails_iff {a b : Number} (ha : a ≠ .float .nan) (hb : b ≠ .float .nan) :
    (∃ fault, a.rem b = .error fault) ↔ a.Unfit ∨ b.Unfit ∨ a.Infinite := by
  rw [← toBinary64_fails_iff, ← toBinary64_fails_iff (n := b)]
  cases hx : a.toBinary64 with
  | error fault => simp [rem, hx, bind, Except.bind]
  | ok x =>
    cases hy : b.toBinary64 with
    | error fault => simp [rem, hx, hy, bind, Except.bind]
    | ok y =>
      have hxn := toBinary64_ne_nan ha hx
      have hyn := toBinary64_ne_nan hb hy
      have hnan : ∀ {z : Binary64}, z ≠ .nan → z.isNan = false := by
        intro z hz
        cases z with
        | nan => exact absurd rfl hz
        | _ => rfl
      rw [← toBinary64_isInfinite hx]
      simp only [rem, hx, hy, bind, Except.bind, hnan hxn, hnan hyn, Binary64.isNan_rem hxn hyn]
      cases x.isInfinite <;> simp [pure, Except.pure]

end Number

/-! ## Operators -/

/-- Where an operator has no result. -/
def Operator.Fails (op : Operator) (a b : Number) : Prop :=
  match op with
  | add | sub | mul => a.Clash b
  | div => b.isZero = false ∧ (a.Clash b ∨ a.RatioUnfit b)
  | rem => b.isZero = false ∧ (a.Unfit ∨ b.Unfit ∨ a.Infinite)

/-- An operator fails on exactly these operands. -/
theorem Operator.fails_iff (op : Operator) {a b : Number} (ha : a ≠ .float .nan) (hb : b ≠ .float .nan) :
    (∃ fault, op.apply a b = .error fault) ↔ op.Fails a b := by
  have hguarded (x : Except Fault Number) :
      (∃ fault, (if b.isZero then .ok a else x) = .error fault) ↔ b.isZero = false ∧ ∃ fault, x = .error fault := by
    cases b.isZero <;> simp
  cases op with
  | add => exact Number.combine_fails_iff
  | sub => exact Number.combine_fails_iff
  | mul => exact Number.combine_fails_iff
  | div => exact (hguarded _).trans (and_congr_right Number.div_fails_iff)
  | rem => exact (hguarded _).trans (and_congr_right fun _ => Number.rem_fails_iff ha hb)

/-! ## Too many digits -/

/-- A computation that fails for nothing but an integer of too many digits. -/
def DigitsOnly {α : Type} (r : Except Fault α) : Prop := ∀ fault, r = .error fault → fault = .digits

namespace DigitsOnly

variable {α β : Type}

theorem ok (a : α) : DigitsOnly (.ok a) := by
  intro fault h
  cases h

theorem bind {r : Except Fault α} {f : α → Except Fault β} (hr : DigitsOnly r) (hf : ∀ a, DigitsOnly (f a)) :
    DigitsOnly (r >>= f) := by
  intro fault h
  cases r with
  | ok a => exact hf a fault h
  | error fault' =>
    cases h
    exact hr fault rfl

theorem mapM {f : α → Except Fault β} (hf : ∀ a, DigitsOnly (f a)) (as : List α) : DigitsOnly (as.mapM f) := by
  induction as with
  | nil => exact .ok []
  | cons a as ih =>
    rw [List.mapM_cons]
    exact (hf a).bind fun _ => ih.bind fun _ => .ok _

end DigitsOnly

theorem Value.digitsOnly_toNumber (v : Value) : DigitsOnly v.toNumber := by
  intro fault h
  rcases v.toNumber_cases with hv | hv <;>
    (rw [hv] at h; cases h)
  rfl

theorem Value.digitsOnly_toText (v : Value) : DigitsOnly v.toText := by
  intro fault h
  rcases v.toText_cases with hv | hv <;>
    (rw [hv] at h; cases h)
  rfl

theorem Value.digitsOnly_negated (v : Value) : DigitsOnly v.negated :=
  v.digitsOnly_toNumber.bind fun n? => by
    cases n? <;> exact .ok _

/-- Apart from digits an operator on values fails only on numbers, and where it fails on these. -/
theorem Operator.onValues_fails {op : Operator} {a b : Value} {fault : Fault} (h : op.onValues a b = .error fault)
    (hfault : fault ≠ .digits) :
    ∃ m n, a.number? = some m ∧ b.number? = some n ∧ op.apply m n = .error fault ∧ op.Fails m n := by
  have hread {v : Value} (hv : v.toNumber ≠ .error .digits) : v.toNumber = .ok v.number? :=
    v.toNumber_cases.resolve_right hv
  have ha' : a.toNumber = .ok a.number? := hread fun he => by
    rw [Operator.onValues, he] at h
    cases h
    exact hfault rfl
  have hb' : b.toNumber = .ok b.number? := hread fun he => by
    rw [Operator.onValues, ha', he] at h
    cases h
    exact hfault rfl
  simp only [Operator.onValues, ha', hb', bind, Except.bind] at h
  cases ha : a.number? with
  | none => rw [ha] at h; cases h
  | some m =>
    cases hb : b.number? with
    | none => rw [ha, hb] at h; cases h
    | some n =>
      rw [ha, hb] at h
      dsimp only at h
      cases hmn : op.apply m n with
      | ok k => rw [hmn] at h; cases h
      | error fault' =>
        rw [hmn] at h
        cases h
        exact ⟨m, n, rfl, rfl, hmn, (op.fails_iff (Value.number?_ne_nan ha) (Value.number?_ne_nan hb)).mp ⟨_, hmn⟩⟩

/-! ## Functions -/

namespace Function

/-- The function has a result on all arguments that can be read and written. -/
def Total (f : Function) : Prop := ∀ values, DigitsOnly (f.run values)

/-- The names of the functions that let a fault of their arithmetic through. -/
def fallible : List String := ["substr", "round", "mod", "sum", "avg"]

theorem digitsOnly_textAt (args : List Value) (i : Nat) : DigitsOnly (textAt args i) := by
  unfold textAt
  cases args[i]? with
  | none => exact .ok _
  | some v => exact v.digitsOnly_toText

@[simp] theorem total_ofText (least most : Nat) (f : String → String) : (plain least most (ofText f)).Total :=
  fun values => (digitsOnly_textAt values 0).bind fun _ => .ok _

theorem digitsOnly_orNull (r : Except Fault Number) : DigitsOnly (orNull r) := by
  cases r <;> exact .ok _

@[simp] theorem total_ofNumber (least most : Nat) (f : Number → Except Fault Number) :
    (plain least most (ofNumber f)).Total :=
  fun _ => digitsOnly_orNull _

theorem total_power (least most : Nat) : (plain least most power).Total := fun _ => digitsOnly_orNull _

theorem total_extreme (least : Nat) (side : Ordering) : (grouped least (extreme side)).Total := by
  intro values
  show DigitsOnly (extreme side values)
  unfold extreme
  split <;> exact .ok _

theorem total_replace : (plain 3 3 replace).Total := by
  intro values
  refine (digitsOnly_textAt values 1).bind fun search => ?_
  have hbehind (by_ : String) : DigitsOnly (do return Value.text (Text.replace (← textAt values 0) search by_)) :=
    (digitsOnly_textAt values 0).bind fun _ => .ok _
  dsimp only
  split
  · exact hbehind ""
  · exact (digitsOnly_textAt values 2).bind hbehind

theorem builtins_total : ∀ e ∈ builtins, e.1 ∉ fallible → e.2.Total := by
  have hlength : (plain 1 1 length).Total := fun values => (digitsOnly_textAt values 0).bind fun _ => .ok _
  have hposition : (plain 2 2 position).Total := fun values =>
    (digitsOnly_textAt values 0).bind fun _ => (digitsOnly_textAt values 1).bind fun _ => .ok _
  have hcontains : (plain 2 2 containsText).Total := fun values =>
    (digitsOnly_textAt values 0).bind fun _ => (digitsOnly_textAt values 1).bind fun _ => .ok _
  have hconcat : (Function.mk ⟨1, none⟩ false concat).Total := fun values =>
    (DigitsOnly.mapM Value.digitsOnly_toText values).bind fun _ => .ok _
  have hgrouped : (grouped 0 count).Total ∧ (grouped 1 coalesce).Total := ⟨fun _ => .ok _, fun _ => .ok _⟩
  simp [builtins, fallible, machine, total_power, total_extreme, total_replace, hlength, hposition, hcontains, hconcat,
    hgrouped]

theorem round_one : ∃ v, round [Value.ofInt 1] = .ok v := by
  have hok : (round [Value.ofInt 1]).isOk = true := by decide +kernel
  cases h : round [Value.ofInt 1] with
  | ok v => exact ⟨v, rfl⟩
  | error fault => rw [h] at hok; cases hok

theorem integers_ones (n : Nat) : ∀ v ∈ List.replicate n (Value.ofInt 1), v.IntegerOrNone := by
  intro v hv k hk
  rw [List.eq_of_mem_replicate hv] at hk
  exact ⟨1, (Option.some.inj hk).symm⟩

/-- The mean of ones is one. -/
theorem average_ones (n : Nat) : ∃ v, average (List.replicate n (Value.ofInt 1)) = .ok v := by
  have hpresent : present (List.replicate n (Value.ofInt 1)) = List.replicate n (Value.ofInt 1) :=
    List.filter_eq_self.mpr fun v hv => by rw [List.eq_of_mem_replicate hv]; rfl
  have hweight : ((List.replicate n (Value.ofInt 1)).map Value.weight).sum = n := by
    rw [List.map_replicate, List.sum_replicate]
    simp [Value.weight, Value.ofInt, Value.number?]
  unfold average
  rw [hpresent]
  cases n with
  | zero => exact ⟨_, rfl⟩
  | succ n =>
    have hratio : (Number.int (n + 1 : Nat)).div (.int (n + 1 : Nat)) = .ok (.float (Binary64.ofInt 1)) := by
      have hone : Binary64.ofRatio false ((n + 1) * 1) ((n + 1) * 1) = Binary64.ofRatio false 1 1 :=
        Binary64.ofRatio_mul false (Nat.succ_pos n) Nat.one_pos
      rw [Nat.mul_one] at hone
      have hne : ((n + 1 : Nat) : Int) ≠ 0 := by omega
      simp only [Number.div, if_neg hne, bne_self_eq_false, Int.natAbs_natCast]
      rw [hone]
      rfl
    refine ⟨normal (.float (Binary64.ofInt 1)), ?_⟩
    show (total (List.replicate (n + 1) (Value.ofInt 1)) >>= fun sum =>
      sum.div (.int (List.replicate (n + 1) (Value.ofInt 1)).length) >>= fun mean => pure (normal mean)) = _
    rw [total_of_integers (integers_ones _), hweight, List.length_replicate]
    show ((Number.int (n + 1 : Nat)).div (.int (n + 1 : Nat)) >>= fun mean => pure (normal mean)) = _
    rw [hratio]
    rfl

/-- On the star, ones for the rows, every function has a result. -/
theorem builtins_total_on_star :
    ∀ e ∈ builtins, ∀ n, n = 1 ∨ e.2.aggregate = true → DigitsOnly (e.2.run (List.replicate n (Value.ofInt 1))) := by
  intro e he n hn
  have hresult {r : Except Fault Value} (h : ∃ v, r = .ok v) : DigitsOnly r := by
    obtain ⟨v, rfl⟩ := h
    exact .ok v
  by_cases hname : e.1 ∈ fallible
  · have hfallible : builtins.filter (fun e => decide (e.1 ∈ fallible)) = [("substr", plain 2 3 substring),
        ("round", plain 1 2 round), ("mod", plain 2 2 modulo), ("sum", grouped 1 sum), ("avg", grouped 1 average)] := by
      simp [builtins, fallible]
    have hmem : e ∈ builtins.filter (fun e => decide (e.1 ∈ fallible)) := List.mem_filter.mpr ⟨he, decide_eq_true hname⟩
    rw [hfallible] at hmem
    simp only [List.mem_cons, List.not_mem_nil, or_false] at hmem
    rcases hmem with rfl | rfl | rfl | rfl | rfl
    · obtain rfl : n = 1 := by simpa [plain] using hn
      exact hresult ⟨_, rfl⟩
    · obtain rfl : n = 1 := by simpa [plain] using hn
      exact hresult round_one
    · obtain rfl : n = 1 := by simpa [plain] using hn
      exact hresult ⟨_, rfl⟩
    · exact hresult ⟨_, sum_of_integers (integers_ones n)⟩
    · exact hresult (average_ones n)
  · exact builtins_total e he hname _

end Function

end JsonTables
