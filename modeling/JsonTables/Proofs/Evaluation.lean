/-
  JsonTables.Proofs.Evaluation — what a computation comes to does not depend on what was noted before it.

  A computation is steady if it comes to the same from every journal. Then its outcome can be told
  without the journal, and sequences of steady computations are sequences of outcomes. Nothing that
  evaluates an expression looks at the journal, except to note an unknown function once.

  Proved:
  - `Steady.bind`, `Steady.mapM`, `Steady.foldlM`: steady computations compose, and so do their outcomes.
  - `Expr.steady_eval`: evaluation of an expression is steady.
-/

import JsonTables.Expr.Eval
import Mathlib.Data.List.Forall2

namespace JsonTables

/-! ## Outcomes over a list -/

section Outcomes

variable {α β : Type} {f : α → Except Fault β}

/-- What follows on a result and cannot fail does not change that there is one. -/
theorem exists_bind_ok {x : Except Fault α} {g : α → β} :
    (∃ b, (x >>= fun a => .ok (g a)) = .ok b) ↔ ∃ a, x = .ok a := by
  cases x with
  | error fault => exact ⟨(fun ⟨_, h⟩ => nomatch h), (fun ⟨_, h⟩ => nomatch h)⟩
  | ok a => exact ⟨fun _ => ⟨a, rfl⟩, fun _ => ⟨g a, rfl⟩⟩

/-- A result that comes of something that cannot fail comes of a result. -/
theorem bind_eq_ok {x : Except Fault α} {g : α → β} {b : β} (h : (x >>= fun a => .ok (g a)) = .ok b) :
    ∃ a, x = .ok a ∧ g a = b := by
  cases x with
  | error fault => cases h
  | ok a => exact ⟨a, rfl, Except.ok.inj h⟩

theorem map_map_outcome {γ : Type} (x : Except Fault α) (g : α → β) (k : β → γ) : (x.map g).map k = x.map (k ∘ g) := by
  cases x <;> rfl

/-- What the members of a list come to, put together with the members. -/
theorem mapM_zipWith {γ : Type} (f : α → Except Fault β) (k : β → α → γ) (as : List α) :
    (as.mapM fun a => do return k (← f a) a) = as.mapM f >>= fun bs => .ok (List.zipWith k bs as) := by
  induction as with
  | nil => rfl
  | cons a as ih =>
    simp only [List.mapM_cons, bind_assoc, pure_bind, ih]
    rfl

theorem forall₂_of_mapM {as : List α} {bs : List β} (h : as.mapM f = .ok bs) :
    List.Forall₂ (fun a b => f a = .ok b) as bs := by
  induction as generalizing bs with
  | nil => cases h; exact .nil
  | cons a as ih =>
    rw [List.mapM_cons] at h
    cases ha : f a with
    | error fault => rw [ha] at h; cases h
    | ok b =>
      cases has : as.mapM f with
      | error fault => rw [ha, has] at h; cases h
      | ok bs' =>
        rw [ha, has] at h
        cases h
        exact .cons ha (ih has)

theorem length_getD_mapM {γ : Type} {f : α → γ → Except Fault β} {cs : List γ} {as : List α} {bss : List (List β)}
    (h : (as.mapM fun a => cs.mapM (f a)) = .ok bss) {i : Nat} (hi : i < as.length) :
    (bss.getD i []).length = cs.length := by
  have hall := List.forall₂_iff_get.mp (forall₂_of_mapM h)
  have hib : i < bss.length := hall.1 ▸ hi
  rw [List.getD_eq_getElem?_getD, List.getElem?_eq_getElem hib, Option.getD_some]
  exact (forall₂_of_mapM (hall.2 i hi hib)).length_eq.symm

theorem mapM_of_forall₂ {as : List α} {bs : List β} (h : List.Forall₂ (fun a b => f a = .ok b) as bs) :
    as.mapM f = .ok bs := by
  induction h with
  | nil => rfl
  | cons ha _ ih => rw [List.mapM_cons, ha, ih]; rfl

theorem mapM_eq_map {g : α → β} {as : List α} (h : ∀ a ∈ as, f a = .ok (g a)) : as.mapM f = .ok (as.map g) :=
  mapM_of_forall₂ (List.forall₂_map_right_iff.mpr (List.forall₂_same.mpr h))

theorem eq_map_of_forall₂ {g : α → β} {as : List α} {bs : List β}
    (h : List.Forall₂ (fun a b => f a = .ok b) as bs) (hg : ∀ a ∈ as, f a = .ok (g a)) : bs = as.map g :=
  Except.ok.inj ((mapM_of_forall₂ h).symm.trans (mapM_eq_map hg))

theorem mapM_congr {m : Type → Type} [Monad m] [LawfulMonad m] {f g : α → m β} {as : List α}
    (h : ∀ a ∈ as, f a = g a) : as.mapM f = as.mapM g := by
  induction as with
  | nil => simp only [List.mapM_nil]
  | cons a as ih =>
    obtain ⟨ha, has⟩ := List.forall_mem_cons.mp h
    rw [List.mapM_cons, List.mapM_cons, ha, ih has]

theorem exists_mapM {as : List α} : (∃ bs, as.mapM f = .ok bs) ↔ ∀ a ∈ as, ∃ b, f a = .ok b := by
  constructor
  · rintro ⟨bs, h⟩
    have hall := forall₂_of_mapM h
    clear h
    induction hall with
    | nil => simp
    | cons ha _ ih => exact List.forall_mem_cons.mpr ⟨⟨_, ha⟩, ih⟩
  · intro h
    induction as with
    | nil => exact ⟨[], rfl⟩
    | cons a as ih =>
      obtain ⟨⟨b, hb⟩, has⟩ := List.forall_mem_cons.mp h
      obtain ⟨bs, hbs⟩ := ih has
      exact ⟨b :: bs, by rw [List.mapM_cons, hb, hbs]; rfl⟩

/-- What stands beside a member of a list. -/
theorem exists_of_forall₂ {R : α → β → Prop} {as : List α} {bs : List β} (h : List.Forall₂ R as bs) {a : α}
    (ha : a ∈ as) : ∃ b ∈ bs, R a b := by
  induction h with
  | nil => cases ha
  | cons hab _ ih =>
    rcases List.mem_cons.mp ha with rfl | ha
    · exact ⟨_, List.mem_cons_self, hab⟩
    · obtain ⟨b, hb, hR⟩ := ih ha
      exact ⟨b, List.mem_cons_of_mem _ hb, hR⟩

end Outcomes

namespace Evaluation

variable {α β : Type}

/-- What a computation comes to from an empty journal. -/
def outcome (x : Evaluation α) : Except Fault α := (x.start []).1

/-- The computation comes to the same from every journal. -/
def Steady (x : Evaluation α) : Prop := ∀ journal, (x.start journal).1 = x.outcome

theorem start_bind (x : Evaluation α) (f : α → Evaluation β) (journal : Journal) :
    (x >>= f).start journal = match x.start journal with
      | (.ok a, noted) => (f a).start noted
      | (.error fault, noted) => (.error fault, noted) := by
  show StateT.run (ExceptT.run (x >>= f)) journal = _
  rw [ExceptT.run_bind, StateT.run_bind]
  show StateT.run _ (StateT.run (ExceptT.run x) journal).2 = _
  rcases hx : StateT.run (ExceptT.run x) journal with ⟨fault | a, noted⟩
  · simp [start, hx]
    rfl
  · simp [start, hx]

/-- A computation in two parts comes to a result if each part does. -/
theorem start_bind_eq_ok {x : Evaluation α} {f : α → Evaluation β} {b : β} {journal noted : Journal} :
    (x >>= f).start journal = (.ok b, noted) ↔
      ∃ a before, x.start journal = (.ok a, before) ∧ (f a).start before = (.ok b, noted) := by
  rw [start_bind]
  rcases x.start journal with ⟨fault | a, before⟩
  · constructor
    · intro h
      cases h
    · rintro ⟨a, before, h, -⟩
      cases h
  · constructor
    · exact fun h => ⟨a, before, rfl, h⟩
    · rintro ⟨a, before, h, hf⟩
      cases h
      exact hf

theorem start_map_fst {x : Evaluation α} (g : α → β) (journal : Journal) :
    ((x >>= fun a => pure (g a)).start journal).1 = (x.start journal).1.map g := by
  rw [start_bind]
  rcases x.start journal with ⟨fault | a, noted⟩ <;> rfl

/-! ## Single steps -/

@[simp] theorem outcome_pure (a : α) : (pure a : Evaluation α).outcome = .ok a := rfl

@[simp] theorem outcome_lift (e : Except Fault α) : (liftM e : Evaluation α).outcome = e := rfl

theorem steady_pure (a : α) : Steady (pure a : Evaluation α) := fun _ => rfl

theorem steady_lift (e : Except Fault α) : Steady (liftM e : Evaluation α) := fun _ => rfl

theorem steady_note (n : Note) : Steady (note n) := fun _ => rfl

theorem steady_reportUnknown (name : String) : Steady (reportUnknown name) := fun _ => rfl

/-! ## Sequences -/

theorem start_bind_fst {x : Evaluation α} {f : α → Evaluation β} (hx : Steady x) (hf : ∀ a, Steady (f a))
    (journal : Journal) : ((x >>= f).start journal).1 = x.outcome >>= fun a => (f a).outcome := by
  have hxj := hx journal
  rw [start_bind, ← hxj]
  rcases x.start journal with ⟨fault | a, noted⟩
  · rfl
  · exact hf a noted

theorem outcome_bind {x : Evaluation α} {f : α → Evaluation β} (hx : Steady x) (hf : ∀ a, Steady (f a)) :
    (x >>= f).outcome = x.outcome >>= fun a => (f a).outcome := start_bind_fst hx hf []

theorem Steady.bind {x : Evaluation α} {f : α → Evaluation β} (hx : Steady x) (hf : ∀ a, Steady (f a)) :
    Steady (x >>= f) := fun journal => by
  rw [start_bind_fst hx hf, outcome_bind hx hf]

theorem steady_mapM {f : α → Evaluation β} (hf : ∀ a, Steady (f a)) (as : List α) : Steady (as.mapM f) := by
  induction as with
  | nil => exact steady_pure _
  | cons a as ih =>
    rw [List.mapM_cons]
    exact (hf a).bind fun b => ih.bind fun _ => steady_pure _

theorem outcome_mapM {f : α → Evaluation β} (hf : ∀ a, Steady (f a)) (as : List α) :
    (as.mapM f).outcome = as.mapM fun a => (f a).outcome := by
  induction as with
  | nil => rfl
  | cons a as ih =>
    have hrest : ∀ b, Steady (as.mapM f >>= fun bs => pure (b :: bs)) := fun b =>
      (steady_mapM hf as).bind fun _ => steady_pure _
    rw [List.mapM_cons, List.mapM_cons, outcome_bind (hf a) hrest]
    congr 1
    funext b
    rw [outcome_bind (steady_mapM hf as) fun _ => steady_pure _, ih]
    rfl

theorem steady_mapM_zipWith {γ : Type} {f : α → Evaluation β} (hf : ∀ a, Steady (f a)) (k : β → α → γ)
    (as : List α) : Steady (as.mapM fun a => do return k (← f a) a) :=
  steady_mapM (fun a => (hf a).bind fun _ => steady_pure _) as

theorem outcome_mapM_zipWith {γ : Type} {f : α → Evaluation β} (hf : ∀ a, Steady (f a)) (k : β → α → γ)
    (as : List α) :
    (as.mapM fun a => do return k (← f a) a).outcome =
      as.mapM (fun a => (f a).outcome) >>= fun bs => .ok (List.zipWith k bs as) := by
  rw [← mapM_zipWith, outcome_mapM fun a => (hf a).bind fun _ => steady_pure _]
  congr 1
  funext a
  rw [outcome_bind (hf a) fun _ => steady_pure _]
  rfl

theorem steady_foldlM {f : β → α → Evaluation β} (hf : ∀ b a, Steady (f b a)) (b : β) (as : List α) :
    Steady (as.foldlM f b) := by
  induction as generalizing b with
  | nil => exact steady_pure _
  | cons a as ih =>
    rw [List.foldlM_cons]
    exact (hf b a).bind ih

theorem outcome_foldlM {f : β → α → Evaluation β} (hf : ∀ b a, Steady (f b a)) (b : β) (as : List α) :
    (as.foldlM f b).outcome = as.foldlM (fun b a => (f b a).outcome) b := by
  induction as generalizing b with
  | nil => rfl
  | cons a as ih =>
    rw [List.foldlM_cons, List.foldlM_cons, outcome_bind (hf b a) fun c => steady_foldlM hf c as]
    congr 1
    funext c
    exact ih c

end Evaluation

/-! ## Expressions -/

namespace Expr

open Evaluation

mutual

theorem steady_eval (scope : Scope) (row : Row) : ∀ e : Expr, Steady (e.eval scope row)
  | .literal l => steady_pure _
  | .column name => steady_pure _
  | .call name args => by
    unfold eval
    split
    · exact steady_pure _
    · split
      · exact (steady_reportUnknown name).bind fun _ => steady_pure _
      · exact (steady_evalAll scope row args).bind fun _ => steady_lift _
  | .callStar name => by
    unfold eval
    split
    · exact steady_pure _
    · split
      · exact (steady_reportUnknown name).bind fun _ => steady_pure _
      · exact steady_lift _
  | .binary op left right => by
    unfold eval
    exact (steady_eval scope row left).bind fun a => (steady_eval scope row right).bind fun b => steady_lift _
  | .negate operand => by
    unfold eval
    exact (steady_eval scope row operand).bind fun _ => steady_lift _

theorem steady_evalAll (scope : Scope) (row : Row) : ∀ es : List Expr, Steady (evalAll scope row es)
  | [] => steady_pure _
  | e :: rest => by
    unfold evalAll
    exact (steady_eval scope row e).bind fun v => (steady_evalAll scope row rest).bind fun _ => steady_pure _

end

/-- The value of an expression on a row, or the fault of its arithmetic. -/
def valueOn (scope : Scope) (row : Row) (e : Expr) : Except Fault Value := (e.eval scope row).outcome

end Expr

end JsonTables
