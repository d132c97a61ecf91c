/-
  JsonTables.Proofs.Clause.Located — the clauses that are located in a row of lexemes, whatever it says.

  Each clause is recorded at the place of a word outside parentheses, and the places come in the order of
  the text. So each clause takes up the text to the place of the next one.

  Proved:
  - `exists_of_mem_locate`: a recorded place is that of a word outside parentheses.
  - `locate_pairwise`: the places of the recorded clauses increase.
  - `flatten_stretches`: what the clauses take up is the text from the first one on.
  - `at?_split`, `textOf_split`: a position lies in the clause around it, whose stretch is its text.
-/

import JsonTables.Proofs.Statement.Hinted
import JsonTables.Proofs.Token.Places

namespace JsonTables.Clause

/-! ## Openings -/

theorem openings_cons (x : Lexeme) (depth : Nat) (rest : List (Lexeme × Nat)) :
    openings ((x, depth) :: rest) =
      match if depth = 0 then opened? x (rest.head?.map Prod.fst) else none with
      | some c => ⟨c, x.position⟩ :: openings rest
      | none => openings rest := rfl

theorem openings_starts (entries : List (Lexeme × Nat)) :
    ((openings entries).map (·.start)).Sublist (entries.map (·.1.position)) := by
  induction entries with
  | nil => exact .slnil
  | cons entry rest ih =>
    obtain ⟨x, depth⟩ := entry
    rw [openings_cons]
    split
    · exact ih.cons_cons x.position
    · exact ih.cons x.position

theorem exists_of_mem_openings {entries : List (Lexeme × Nat)} {o : LocatedClause} (h : o ∈ openings entries) :
    ∃ x, (x, 0) ∈ entries ∧ o.start = x.position := by
  induction entries with
  | nil => cases h
  | cons entry rest ih =>
    obtain ⟨x, depth⟩ := entry
    have hrest (h : o ∈ openings rest) : ∃ y, (y, 0) ∈ (x, depth) :: rest ∧ o.start = y.position := by
      obtain ⟨y, hy, hstart⟩ := ih h
      exact ⟨y, List.mem_cons_of_mem _ hy, hstart⟩
    rw [openings_cons] at h
    split at h
    · rename_i c hopened
      split at hopened
      · rename_i hdepth
        subst hdepth
        rcases List.mem_cons.mp h with rfl | h
        · exact ⟨x, List.mem_cons_self, rfl⟩
        · exact hrest h
      · cases hopened
    · exact hrest h

/-! ## First openings -/

theorem firstOnly_sublist (seen : List Clause) (located : List LocatedClause) : (firstOnly seen located).Sublist located := by
  induction located generalizing seen with
  | nil => exact .slnil
  | cons x rest ih =>
    rw [firstOnly]
    split
    · exact (ih seen).cons x
    · exact (ih _).cons_cons x

/-- Clauses of which each opens once are all recorded. -/
theorem firstOnly_of_nodup {seen : List Clause} {located : List LocatedClause} (hseen : ∀ x ∈ located, x.clause ∉ seen)
    (hnodup : (located.map (·.clause)).Nodup) : firstOnly seen located = located := by
  induction located generalizing seen with
  | nil => rfl
  | cons x rest ih =>
    obtain ⟨hx, hrest⟩ := List.forall_mem_cons.mp hseen
    obtain ⟨hnot, hnodup⟩ := List.nodup_cons.mp hnodup
    rw [firstOnly, if_neg hx, ih (fun y hy => ?_) hnodup]
    rw [List.mem_cons, not_or]
    exact ⟨fun he => hnot (List.mem_map.mpr ⟨y, hy, he⟩), hrest y hy⟩

/-! ## Located clauses -/

section Places

variable {start stop : Nat} {lexemes : List Lexeme}

theorem positions_withDepth (depth : Nat) (xs : List Lexeme) :
    (withDepth depth xs).map (·.1.position) = xs.map (·.position) := by
  conv_rhs => rw [← Statement.map_fst_withDepth depth xs, List.map_map]
  rfl

/-- A clause is recorded at the place of a word outside parentheses. -/
theorem exists_of_mem_locate {c : LocatedClause} (h : c ∈ locate lexemes) :
    ∃ x, (x, 0) ∈ withDepth 0 lexemes ∧ c.start = x.position :=
  exists_of_mem_openings ((firstOnly_sublist _ _).subset h)

theorem locate_pairwise (h : Token.InPlace start stop lexemes) : (locate lexemes).Pairwise (·.start < ·.start) := by
  have hpositions : (lexemes.map (·.position)).Pairwise (· < ·) := List.pairwise_map.mpr h.pairwise_lt
  rw [← positions_withDepth 0] at hpositions
  have hstarts := hpositions.sublist (openings_starts (withDepth 0 lexemes))
  exact (List.pairwise_map.mp hstarts).sublist (firstOnly_sublist _ _)

/-- Nothing inside parentheses is recorded. -/
theorem start_ne_of_inside (h : Token.InPlace start stop lexemes) {y : Lexeme} {depth : Nat}
    (hy : (y, depth) ∈ withDepth 0 lexemes) (hdepth : depth ≠ 0) {c : LocatedClause} (hc : c ∈ locate lexemes) :
    c.start ≠ y.position := by
  intro he
  obtain ⟨x, hx, hstart⟩ := exists_of_mem_locate hc
  have hentries : ((withDepth 0 lexemes).map (·.1.position)).Nodup := by
    rw [positions_withDepth]
    exact List.pairwise_map.mpr (h.pairwise_lt.imp Nat.ne_of_lt)
  have hsame := List.inj_on_of_nodup_map hentries hx hy (hstart.symm.trans he)
  exact hdepth (congrArg Prod.snd hsame).symm

end Places

/-! ## Stretches -/

/-- What a clause takes up of the text in front of the clauses behind it. -/
def stretch (text : List Char) (c : LocatedClause) : List LocatedClause → List Char
  | [] => text.drop c.start
  | next :: _ => Text.slice text c.start next.start

/-- What each clause takes up of the text. -/
def stretches (text : List Char) : List LocatedClause → List (List Char)
  | [] => []
  | c :: behind => stretch text c behind :: stretches text behind

theorem slice_append_drop (text : List Char) {start stop : Nat} (h : start ≤ stop) :
    Text.slice text start stop ++ text.drop stop = text.drop start := by
  have hdrop : text.drop stop = (text.drop start).drop (stop - start) := by
    rw [List.drop_drop, Nat.add_sub_cancel' h]
  rw [Text.slice, hdrop, List.take_append_drop]

/-- The stretches of the clauses make up the text from the first one on. -/
theorem flatten_stretches (text : List Char) {c : LocatedClause} {behind : List LocatedClause}
    (h : (c :: behind).Pairwise (·.start < ·.start)) : (stretches text (c :: behind)).flatten = text.drop c.start := by
  induction behind generalizing c with
  | nil => exact List.append_nil _
  | cons next behind ih =>
    obtain ⟨hc, hbehind⟩ := List.pairwise_cons.mp h
    have hnext : c.start < next.start := hc next List.mem_cons_self
    calc (stretches text (c :: next :: behind)).flatten
        = Text.slice text c.start next.start ++ (stretches text (next :: behind)).flatten := rfl
      _ = Text.slice text c.start next.start ++ text.drop next.start := by rw [ih hbehind]
      _ = text.drop c.start := slice_append_drop text (Nat.le_of_lt hnext)

section Split

variable {front behind : List LocatedClause} {c : LocatedClause}

theorem textOf_split (text : List Char) (h : (front ++ c :: behind).Pairwise (·.start < ·.start)) :
    textOf text (front ++ c :: behind) c = String.ofList (Text.trim (stretch text c behind)) := by
  obtain ⟨-, hc, hfront⟩ := List.pairwise_append.mp h
  have hbefore : front.find? (c.start < ·.start) = none := by
    rw [List.find?_eq_none]
    intro x hx
    have := hfront x hx c List.mem_cons_self
    simpa using Nat.le_of_lt this
  cases behind with
  | nil => simp [textOf, List.find?_append, hbefore, stretch, Text.slice, List.take_of_length_le]
  | cons next behind =>
    have hnext : c.start < next.start := (List.pairwise_cons.mp hc).1 next List.mem_cons_self
    simp [textOf, List.find?_append, hbefore, stretch, hnext]

/-- A position lies in the last clause that starts in front of it. -/
theorem at?_split {position : Nat} (hc : c.start ≤ position) (hbehind : ∀ d ∈ behind, position < d.start) :
    at? (front ++ c :: behind) position = some c := by
  have hlater : behind.filter (·.start ≤ position) = [] := by
    rw [List.filter_eq_nil_iff]
    intro d hd
    simpa using hbehind d hd
  simp [at?, List.filter_append, hc, hlater]

theorem at?_eq_none {located : List LocatedClause} {position : Nat} (h : ∀ d ∈ located, position < d.start) :
    at? located position = none := by
  have hnone : located.filter (·.start ≤ position) = [] := by
    rw [List.filter_eq_nil_iff]
    intro d hd
    simpa using h d hd
  rw [at?, hnone]
  rfl

/-- A position comes before all clauses or lies in one of them. -/
theorem before_or_within {located : List LocatedClause} (h : located.Pairwise (·.start < ·.start)) (position : Nat) :
    (∀ d ∈ located, position < d.start) ∨
      ∃ front c behind, located = front ++ c :: behind ∧ c.start ≤ position ∧ ∀ d ∈ behind, position < d.start := by
  induction located with
  | nil => exact .inl (List.forall_mem_nil _)
  | cons c rest ih =>
    obtain ⟨hc, hrest⟩ := List.pairwise_cons.mp h
    by_cases hposition : position < c.start
    · exact .inl (List.forall_mem_cons.mpr ⟨hposition, fun d hd => Nat.lt_trans hposition (hc d hd)⟩)
    · right
      rcases ih hrest with hbefore | ⟨front, d, behind, rfl, hd, hbehind⟩
      · exact ⟨[], c, rest, rfl, Nat.not_lt.mp hposition, hbefore⟩
      · exact ⟨c :: front, d, behind, rfl, hd, hbehind⟩

end Split

end JsonTables.Clause
