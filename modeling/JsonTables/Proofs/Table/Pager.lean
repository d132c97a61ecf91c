/-
  JsonTables.Proofs.Table.Pager — what the pager shows, and when it stops.

  The pages are the rows cut into chunks of one size, one after another, so the first of them are the first rows:
  none is lost or repeated between two pages. Every page is followed by its prompt, and only the answer to it keeps
  the next page from being shown.

  Proved:
  - `quits_iff`: the answers that leave the pager.
  - `turn_eq`, `shown_eq`: the pages that are shown are those up to the first such answer.
  - `flatten_take_chunks`, `length_of_getElem?_chunks`: the rows on the first pages, and on each of them.
  - `run_shows_each_row_once`: a whole run of the pager.
-/

import JsonTables.Proofs.Text.Lower
import JsonTables.Proofs.Text.Trim
import JsonTables.Table.Pager
import Mathlib.Algebra.Order.Floor.Div

namespace JsonTables

/-- The pages of so many rows each, one after another. -/
theorem flatMap_pages {α : Type} (as : List α) (k m : Nat) :
    ((List.range m).flatMap fun i => (as.drop (i * k)).take k) = as.take (m * k) := by
  induction m with
  | zero => simp
  | succ m ih =>
    rw [List.range_succ, List.flatMap_append, ih, List.flatMap_singleton, Nat.succ_mul, List.take_add]

namespace Pager

/-! ## Answers -/

/-- The answer is `:q` or `:Q`, with white space around it or not. -/
def Leaves (answer : String) : Prop :=
  ∃ front q back, answer.toList = front ++ [':', q] ++ back ∧ (q = 'q' ∨ q = 'Q') ∧
    (∀ c ∈ front, Text.isBlank c = true) ∧ ∀ c ∈ back, Text.isBlank c = true

theorem lower_eq_quit_iff (cs : List Char) :
    Text.lowerFrom [] cs = [':', 'q'] ↔ ∃ q, cs = [':', q] ∧ (q = 'q' ∨ q = 'Q') := by
  have hcolon : ∀ c : Char, c.toNat < 0x80 → c.toLower = ':' → c = ':' := Text.forall_ascii (by decide +kernel)
  have hq : ∀ c : Char, c.toNat < 0x80 → c.toLower = 'q' → c = 'q' ∨ c = 'Q' := Text.forall_ascii (by decide +kernel)
  constructor
  · intro h
    obtain ⟨hascii, hmap⟩ := (Text.lowerFrom_eq_iff (by simp) []).mp h
    obtain ⟨a, as, rfl, ha, has⟩ := List.map_eq_cons_iff.mp hmap
    obtain ⟨b, bs, rfl, hb, hbs⟩ := List.map_eq_cons_iff.mp has
    obtain rfl := List.map_eq_nil_iff.mp hbs
    obtain rfl := hcolon a (hascii a (by simp)) ha
    exact ⟨b, rfl, hq b (hascii b (by simp)) hb⟩
  · rintro ⟨q, rfl, rfl | rfl⟩ <;> decide

theorem quits_iff {answer : String} : quits answer = true ↔ Leaves answer := by
  have hquits : quits answer = true ↔ ∃ q, Text.trim answer.toList = [':', q] ∧ (q = 'q' ∨ q = 'Q') := by
    rw [quits, beq_iff_eq, ← String.toList_inj, Text.lower, String.toList_ofList, Text.stripped, String.toList_ofList]
    exact lower_eq_quit_iff _
  rw [hquits]
  constructor
  · rintro ⟨q, htrim, hq⟩
    obtain ⟨front, back, hanswer, hfront, hback⟩ := Text.exists_trim answer.toList
    rw [htrim] at hanswer
    exact ⟨front, q, back, hanswer, hq, hfront, hback⟩
  · rintro ⟨front, q, back, hanswer, hq, hfront, hback⟩
    have hends : Text.trim [':', q] = [':', q] := by
      apply Text.trim_of_forall
      rcases hq with rfl | rfl <;> simp [Text.isBlank]
    refine ⟨q, ?_, hq⟩
    rw [hanswer, Text.trim_append_right hback, Text.trim_append_left hfront, hends]

/-! ## Turning pages -/

theorem turn_eq (before : Nat) (pages : List Page) (answers : List String) :
    turn before pages answers =
      ((shown pages answers).flatMap Page.events, before + (shown pages answers).length) := by
  induction pages generalizing before answers with
  | nil => rfl
  | cons page rest ih =>
    cases answers with
    | nil => simp [turn, shown]
    | cons answer answers =>
      rw [turn, shown]
      split
      · simp
      · rw [ih, List.flatMap_cons, List.length_cons, Nat.add_assoc, Nat.add_comm 1]

/-- The pages up to the first whose answer leaves, or all of them. -/
theorem shown_eq (pages : List Page) (answers : List String) :
    shown pages answers = pages.take (answers.findIdx quits + 1) := by
  induction pages generalizing answers with
  | nil => rw [shown, List.take_nil]
  | cons page rest ih =>
    cases answers with
    | nil => rw [shown, List.findIdx_nil, List.take_succ_cons, List.take_zero]
    | cons answer answers =>
      rw [shown, List.findIdx_cons, List.take_succ_cons]
      cases quits answer with
      | true => rfl
      | false =>
        rw [ih]
        rfl

/-! ## Chunks -/

section

variable {α : Type} {size : Int} {rows : List α}

theorem toNat_max_pos (size : Int) : 0 < (max size 1).toNat := by omega

theorem chunks_eq (size : Int) (rows : List α) :
    let full := (max size 1).toNat
    chunks size rows = (List.range (rows.length ⌈/⌉ full)).map fun page => (rows.drop (page * full)).take full := by
  intro full
  rw [Nat.ceilDiv_eq_add_pred_div]
  rfl

theorem length_chunks (size : Int) (rows : List α) :
    (chunks size rows).length = rows.length ⌈/⌉ (max size 1).toNat := by
  rw [chunks_eq, List.length_map, List.length_range]

/-- The rows on the first pages are the first rows. -/
theorem flatten_take_chunks (size : Int) (rows : List α) (count : Nat) :
    ((chunks size rows).take count).flatten =
      rows.take (min count (chunks size rows).length * (max size 1).toNat) := by
  rw [length_chunks, chunks_eq, ← List.map_take, List.take_range, ← List.flatMap_def, flatMap_pages]

theorem flatten_chunks (size : Int) (rows : List α) : (chunks size rows).flatten = rows := by
  have hall := flatten_take_chunks size rows (chunks size rows).length
  rw [List.take_length, Nat.min_self, length_chunks, Nat.mul_comm] at hall
  rw [hall, List.take_of_length_le]
  exact (ceilDiv_le_iff_le_mul (toNat_max_pos size)).mp (Nat.le_refl _)

theorem length_of_getElem?_chunks {page : Nat} {part : List α} (h : (chunks size rows)[page]? = some part) :
    part ≠ [] ∧ part.length ≤ (max size 1).toNat ∧
      (page + 1 < (chunks size rows).length → part.length = (max size 1).toNat) := by
  have hfull := toNat_max_pos size
  have hlt (i : Nat) : i < (chunks size rows).length ↔ i * (max size 1).toNat < rows.length := by
    rw [length_chunks, ← not_le, ceilDiv_le_iff_le_mul hfull, not_le, Nat.mul_comm]
  obtain ⟨hpage, hpart⟩ := List.getElem?_eq_some_iff.mp h
  have hstart := (hlt page).mp hpage
  have hlength : part.length = min (max size 1).toNat (rows.length - page * (max size 1).toNat) := by
    rw [← hpart]
    simp [chunks_eq]
  refine ⟨List.ne_nil_of_length_pos (by omega), by omega, fun hnext => ?_⟩
  have hstop := (hlt (page + 1)).mp hnext
  rw [Nat.succ_mul] at hstop
  omega

theorem take_zip_range (as : List α) (count : Nat) :
    (as.zip (List.range as.length)).take count = (as.take count).zipIdx := by
  rw [List.zipIdx_eq_zip_range', ← List.range_eq_range', List.zip_eq_zipWith, List.take_zipWith, List.take_range,
    List.length_take]
  rfl

end

/-! ## Runs -/

/-- A run comes to the chunks up to the first answer that leaves, each with its prompt. -/
theorem run_eq (columns : List String) (size : Int) {rows : List Row} (h : rows ≠ []) (answers : List String) :
    let parts := (chunks size rows).take (answers.findIdx quits + 1)
    run columns size rows answers = (parts.zipIdx.flatMap fun (part, page) =>
      [.output (Grid.render columns part), .prompt (prompt page (chunks size rows).length)], parts.length) := by
  intro parts
  have hshown : shown (pages columns size rows) answers = parts.zipIdx.map fun (part, page) =>
      ⟨Grid.render columns part, prompt page (chunks size rows).length⟩ := by
    rw [shown_eq, pages, ← List.map_take, take_zip_range]
  rw [run, if_neg (by simpa using h), turn_eq, hshown, List.flatMap_map, List.length_map, List.length_zipIdx, Nat.zero_add]
  rfl

/-- Whatever the size of a page, a size below one counting as one, and whatever the answers before the end of input:
some rows are shown in chunks, one after another and from the first row on, and behind each stands its prompt. A chunk
is full unless it is the last that the rows have. The prompts of all chunks that are shown but the last have an answer,
none of which leaves the pager. Where there are more chunks than are shown, the answer to the last prompt leaves, or
the input has ended; where there are no more, every row has been shown. The number that comes back is that of the
chunks. -/
theorem run_shows_each_row_once (columns : List String) (size : Int) {rows : List Row} (hrows : rows ≠ [])
    (answers : List String) :
    let full := (max size 1).toNat
    let total := rows.length ⌈/⌉ full
    ∃ parts : List (List Row),
      run columns size rows answers = (parts.zipIdx.flatMap fun (part, page) =>
        [.output (Grid.render columns part), .prompt (prompt page total)], parts.length) ∧
      parts.flatten <+: rows ∧
      (∀ page part, parts[page]? = some part →
        part ≠ [] ∧ part.length ≤ full ∧ (page + 1 < total → part.length = full)) ∧
      0 < parts.length ∧ parts.length ≤ total ∧
      (∀ page, page + 1 < parts.length → ∃ answer, answers[page]? = some answer ∧ ¬ Leaves answer) ∧
      (parts.length < total → ∀ answer, answers[parts.length - 1]? = some answer → Leaves answer) ∧
      (parts.length = total → parts.flatten = rows) := by
  intro full total
  have htotal : (chunks size rows).length = total := length_chunks size rows
  have hpositive : 0 < total := by
    rw [← htotal]
    refine List.length_pos_iff.mpr fun hnil => hrows ?_
    rw [← flatten_chunks size rows, hnil, List.flatten_nil]
  have hlength : ((chunks size rows).take (answers.findIdx quits + 1)).length = min (answers.findIdx quits + 1) total := by
    rw [List.length_take, htotal]
  have hrun := run_eq columns size hrows answers
  rw [htotal] at hrun
  refine ⟨_, hrun, ?_, fun page part hpart => ?_, by omega, by omega, fun page hpage => ?_, fun hless answer hanswer => ?_,
    fun hall => ?_⟩
  · rw [flatten_take_chunks]
    exact List.take_prefix _ _
  · rw [List.getElem?_take] at hpart
    rw [← htotal]
    exact length_of_getElem?_chunks (Option.ite_none_right_eq_some.mp hpart).2
  · have hbefore : page < answers.findIdx quits := by omega
    have hanswer : page < answers.length := Nat.lt_of_lt_of_le hbefore List.findIdx_le_length
    refine ⟨answers[page], List.getElem?_eq_getElem hanswer, ?_⟩
    rw [← quits_iff, List.not_of_lt_findIdx hbefore]
    exact Bool.false_ne_true
  · have hlast : ((chunks size rows).take (answers.findIdx quits + 1)).length - 1 = answers.findIdx quits := by omega
    rw [hlast] at hanswer
    obtain ⟨hfound, rfl⟩ := List.getElem?_eq_some_iff.mp hanswer
    exact quits_iff.mp List.findIdx_getElem
  · rw [List.take_of_length_le, flatten_chunks]
    omega

/-- Of three rows on pages of two the first page is answered by `:Q`, and the third row is not shown. -/
theorem run_shows_each_row_once_left :
    let columns := ["a"]
    let rows := [Row.ofList [("a", .ofInt 1)], Row.ofList [("a", .ofInt 2)], Row.ofList [("a", .ofInt 3)]]
    rows ≠ [] ∧ Leaves " :Q " ∧ run columns 2 rows [" :Q ", ""] =
      ([.output (Grid.render columns (rows.take 2)), .prompt "-- page 1/2, Enter for more, :q to quit -- "], 1) := by
  intro columns rows
  have hrows : rows ≠ [] := List.cons_ne_nil _ _
  have hleaves : Leaves " :Q " := quits_iff.mp (by decide +kernel)
  obtain ⟨parts, hrun, hprefix, hparts, hpositive, -, hgoes, -, -⟩ :=
    run_shows_each_row_once columns 2 hrows [" :Q ", ""]
  have hone : parts.length = 1 := by
    by_contra hne
    obtain ⟨answer, hanswer, hstays⟩ := hgoes 0 (by omega)
    cases hanswer
    exact hstays hleaves
  obtain ⟨part, rfl⟩ := List.length_eq_one_iff.mp hone
  have hfull := (hparts 0 part rfl).2.2 (by decide)
  rw [List.flatten_singleton, List.prefix_iff_eq_take, hfull] at hprefix
  have hprompt : prompt 0 2 = "-- page 1/2, Enter for more, :q to quit -- " := by decide +kernel
  have hsize : (max 2 1 : Int).toNat = 2 := rfl
  have htotal : rows.length ⌈/⌉ 2 = 2 := by decide
  refine ⟨hrows, hleaves, ?_⟩
  rw [hrun, hprefix, hsize, htotal, ← hprompt]
  rfl

end Pager

end JsonTables
