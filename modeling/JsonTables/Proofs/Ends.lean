/-
  JsonTables.Proofs.Ends — computations that end in a result of some kind, or in a fault that something explains.

  `Ends fails P x` says so of `x` from every journal. The rules follow the way a computation is put together, so
  that what is shown of a computation is shown step by step along its text.

  Proved:
  - `Ends.bind`: one computation after another.
  - `Ends.mapM`, `Ends.filterM`, `Ends.foldlM`: a computation for every member of a list.
-/

import JsonTables.Proofs.Evaluation

namespace JsonTables.Evaluation

variable {α β : Type} {fails : Fault → Prop} {P : α → Prop} {Q : β → Prop}

/-- From every journal the computation ends in a result with the property, or in a fault of that kind. -/
def Ends (fails : Fault → Prop) (P : α → Prop) (x : Evaluation α) : Prop :=
  ∀ journal, match (x.start journal).1 with
    | .ok a => P a
    | .error fault => fails fault

theorem Ends.pure {a : α} (h : P a) : Ends fails P (pure a : Evaluation α) := fun _ => h

/-- A steady computation ends in its outcome. -/
theorem Steady.ends {x : Evaluation α} (h : Steady x) : Ends (fun _ => True) (fun a => x.outcome = .ok a) x := by
  intro journal
  have hx := h journal
  rcases hstart : (x.start journal).1 with fault | a
  · trivial
  · exact hx.symm.trans hstart

theorem ends_lift {e : Except Fault α} (hok : ∀ a, e = .ok a → P a) (herror : ∀ fault, e = .error fault → fails fault) :
    Ends fails P (liftM e : Evaluation α) := by
  intro journal
  cases e with
  | ok a => exact hok a rfl
  | error fault => exact herror fault rfl

theorem ends_note (n : Note) : Ends fails (fun _ => True) (note n) := fun _ => trivial

theorem ends_reportUnknown (name : String) : Ends fails (fun _ => True) (reportUnknown name) := fun _ => trivial

theorem Ends.mono {P' : α → Prop} {x : Evaluation α} (h : Ends fails P x) (hP : ∀ a, P a → P' a) : Ends fails P' x := by
  intro journal
  have hx := h journal
  rcases hstart : (x.start journal).1 with fault | a
  · rwa [hstart] at hx
  · rw [hstart] at hx
    exact hP a hx

theorem Ends.bind {x : Evaluation α} {f : α → Evaluation β} (hx : Ends fails P x) (hf : ∀ a, P a → Ends fails Q (f a)) :
    Ends fails Q (x >>= f) := by
  intro journal
  have hstart := hx journal
  rw [start_bind]
  rcases hrun : x.start journal with ⟨fault | a, noted⟩
  · rwa [hrun] at hstart
  · rw [hrun] at hstart
    exact hf a hstart noted

theorem Ends.mapM {f : α → Evaluation β} {as : List α} (h : ∀ a ∈ as, Ends fails Q (f a)) :
    Ends fails (fun bs => ∀ b ∈ bs, Q b) (as.mapM f) := by
  induction as with
  | nil => exact .pure fun b hb => nomatch hb
  | cons a as ih =>
    obtain ⟨ha, has⟩ := List.forall_mem_cons.mp h
    rw [List.mapM_cons]
    exact ha.bind fun b hb => (ih has).bind fun bs hbs => .pure (List.forall_mem_cons.mpr ⟨hb, hbs⟩)

theorem Ends.foldlM {f : β → α → Evaluation β} {as : List α} (h : ∀ a ∈ as, ∀ b, Q b → Ends fails Q (f b a)) {b : β}
    (hb : Q b) : Ends fails Q (as.foldlM f b) := by
  induction as generalizing b with
  | nil => exact .pure hb
  | cons a as ih =>
    obtain ⟨ha, has⟩ := List.forall_mem_cons.mp h
    rw [List.foldlM_cons]
    exact (ha b hb).bind fun c hc => ih has hc

/-- What passes a test of all members has what all members have. -/
theorem Ends.filterM {p : α → Evaluation Bool} {as : List α} (hP : ∀ a ∈ as, P a)
    (h : ∀ a ∈ as, Ends fails (fun _ => True) (p a)) : Ends fails (fun kept => ∀ a ∈ kept, P a) (as.filterM p) := by
  have hrun : ∀ kept, (∀ a ∈ kept, P a) → Ends fails (fun kept => ∀ a ∈ kept, P a) (List.filterAuxM p as kept) := by
    induction as with
    | nil => exact fun kept hkept => .pure hkept
    | cons a as ih =>
      obtain ⟨ha, has⟩ := List.forall_mem_cons.mp h
      obtain ⟨hPa, hPas⟩ := List.forall_mem_cons.mp hP
      intro kept hkept
      refine Ends.bind ha fun passes _ => ih hPas has _ ?_
      cases passes with
      | true => exact List.forall_mem_cons.mpr ⟨hPa, hkept⟩
      | false => exact hkept
  exact (hrun [] fun a ha => nomatch ha).bind fun kept hkept => .pure fun a ha => hkept a (List.mem_reverse.mp ha)

end JsonTables.Evaluation
