/-
  JsonTables.Proofs.Dataset.Load — the JSON text of a result is a dataset again, with the rows of the result.

  A list at the top of a file stands for a dataset that holds it as `data`. The text of a result is such a list, and
  a mapping in it is a row with the same columns in the same order. An integer with too many digits would neither be
  written nor be read: a result that holds one has no text.

  Proved:
  - `ofText_write`: the text of a list, in every style.
  - `jsonText_rows`: which rows have a text.
  - `output_loads`: what a result has as JSON text.
-/

import JsonTables.Dataset.Load
import JsonTables.Proofs.Json.RoundTrip
import JsonTables.Query.Execute

namespace JsonTables

theorem Text.unifyLineEnds_of_not_mem {cs : List Char} (h : '\r' ∉ cs) : unifyLineEnds cs = cs := by
  induction cs with
  | nil => rfl
  | cons c cs ih =>
    obtain ⟨hc, hcs⟩ := not_or.mp (List.mem_cons.not.mp h)
    rw [unifyLineEnds, ih hcs]
    · rintro rest rfl
      exact absurd rfl hc
    · rintro rfl
      exact absurd rfl hc

namespace Dataset

theorem ofText_write (style : Json.Style) {items : List Value} (h : ∀ v ∈ items, v.HasUniqueKeys)
    (hdigits : (Value.list items).withinDigits maxDigits = true) :
    ofText (Json.write style 0 (.list items)) = .ok ⟨[("data", .list items)]⟩ := by
  have hvalue : (Value.list items).HasUniqueKeys := .list h
  rw [ofText, Text.unifyLineEnds_of_not_mem (Json.not_mem_write style hvalue 0)]
  simp only [Json.read_write style hvalue hdigits]

end Dataset

/-! ## Rows -/

theorem Row.hasUniqueKeys_toValue {r : Row} (h : ∀ e ∈ r.entries, e.2.HasUniqueKeys) : r.toValue.HasUniqueKeys :=
  .map r.nodup h

theorem Row.forall_upperKeys {P : Value → Prop} {r : Row} (h : ∀ e ∈ r.entries, P e.2) :
    ∀ e ∈ r.upperKeys.entries, P e.2 :=
  Entries.forall_overlay (fun _ he => absurd he List.not_mem_nil) (List.forall_mem_map.mpr h)

/-- A value of a result is a value of a row that the result shows. -/
theorem Hints.forall_present {P : Value → Prop} (hints : Hints) (columns : List String) {rows : List Row}
    (warnings : List String) (h : ∀ r ∈ rows, ∀ e ∈ r.entries, P e.2) :
    ∀ r ∈ (hints.present columns rows warnings).rows, ∀ e ∈ r.entries, P e.2 := by
  rw [present]
  dsimp only
  split
  · exact List.forall_mem_map.mpr fun r hr => Row.forall_upperKeys (h r hr)
  · exact h

/-- The dataset that holds these rows and nothing else. -/
def Dataset.ofRows (rows : List Row) : Dataset := ⟨[("data", .list (rows.map Row.toValue))]⟩

theorem Dataset.rowsOf?_toValue (rows : List Row) : rowsOf? (rows.map Row.toValue) = some rows := by
  induction rows with
  | nil => rfl
  | cons r rows ih =>
    have hrow : Row.ofList r.entries = r := by
      cases r
      simp only [Row.ofList, Entries.ofList_of_nodup, *]
    rw [rowsOf?] at ih ⊢
    simp [Row.toValue, ih, hrow]

/-- They can be queried as `data`. -/
theorem Dataset.table_ofRows (rows : List Row) : (ofRows rows).table "data" = .ok rows := by
  have hsegments : segments "data" = ["data"] := by decide +kernel
  simp [table, route, hsegments, descend, Entries.get?, ofRows, rowsOf?_toValue]

/-! ## Results -/

/-- No integer in the rows has too many digits. -/
def Row.AllShort (rows : List Row) : Prop := ∀ r ∈ rows, ∀ e ∈ r.entries, e.2.withinDigits maxDigits = true

theorem Row.withinDigits_rows {rows : List Row} :
    (Value.list (rows.map Row.toValue)).withinDigits maxDigits = true ↔ Row.AllShort rows := by
  simp [Value.withinDigits_list, Value.withinDigits_map, Row.toValue, Row.AllShort, List.all_map]

theorem Row.jsonText_of_allShort {rows : List Row} (h : Row.AllShort rows) :
    Row.jsonText rows = .ok (Json.pretty (.list (rows.map Row.toValue))) :=
  if_pos (Row.withinDigits_rows.mpr h)

theorem Row.jsonText_of_not_allShort {rows : List Row} (h : ¬Row.AllShort rows) : Row.jsonText rows = .error .digits :=
  if_neg (Row.withinDigits_rows.not.mpr h)

/-- The JSON text of a result without integers of too many digits is read as the dataset of its rows, which are those
before the hints unless headers are wanted in upper case. A result with one has no text. -/
theorem Hints.output_loads {hints : Hints} (hjson : hints.jsonOutput = true) (columns : List String) {rows : List Row}
    (warnings : List String) (h : ∀ r ∈ rows, ∀ e ∈ r.entries, e.2.HasUniqueKeys) :
    let result := hints.present columns rows warnings
    (Row.AllShort rows → Row.AllShort result.rows) ∧ (hints.upperHeaders = false → result.rows = rows) ∧
      (Row.AllShort result.rows → ∃ text, result.output = some (.ok text) ∧
        Dataset.ofFile (.ok text) = .ok (Dataset.ofRows result.rows) ∧
        (Dataset.ofRows result.rows).table "data" = .ok result.rows) ∧
      (¬Row.AllShort result.rows → result.output = some (.error .digits)) := by
  intro result
  have houtput : result.output = some (Row.jsonText result.rows) := by simp [result, present, hjson]
  refine ⟨hints.forall_present (P := fun v => v.withinDigits maxDigits = true) columns warnings, ?_, fun hshort => ?_,
    fun hlong => ?_⟩
  · intro hupper
    simp [result, present, hupper]
  · refine ⟨_, by rw [houtput, Row.jsonText_of_allShort hshort], ?_, Dataset.table_ofRows _⟩
    have hvalues := hints.forall_present columns warnings h
    exact Dataset.ofText_write (.indented 2)
      (List.forall_mem_map.mpr fun r hr => Row.hasUniqueKeys_toValue (hvalues r hr)) (Row.withinDigits_rows.mpr hshort)
  · rw [houtput, Row.jsonText_of_not_allShort hlong]

/-- A row with values of every kind: escapes of one unit and of two, an integer beyond 64 bits, a binary number that
is integral and one that is none, containers without items and one inside the other. -/
def valuesOfEveryKind : Row :=
  Row.ofList [("none", .null), ("te\x22xt\\", .text "\n\x7f\u00e9😀"), ("int", .ofInt (-20000000000000000000)),
    ("float", .number (.float (.ofInt 2))), ("nan", .number (.float .nan)),
    ("list", .list [.list [], .bool true, .map []]), ("map", .map [("b", .list [.bool false]), ("", .null)])]

/-- What is written of it. -/
def textOfEveryKind : String := "[
  \x7b
    \"none\": null,
    \"te\\\"xt\\\\\": \"\\n\\u007f\\u00e9\\ud83d\\ude00\",
    \"int\": -20000000000000000000,
    \"float\": 2.0,
    \"nan\": NaN,
    \"list\": [
      [],
      true,
      \x7b\x7d
    ],
    \"map\": \x7b
      \"b\": [
        false
      ],
      \"\": null
    \x7d
  \x7d
]"

def onlyJson : Hints := { Hints.empty with jsonOutput := true }

theorem output_loads_every_kind :
    onlyJson.jsonOutput = true ∧ Row.AllShort [valuesOfEveryKind] ∧
      (onlyJson.present valuesOfEveryKind.keys [valuesOfEveryKind] []).output = some (.ok textOfEveryKind) ∧
      Dataset.ofFile (.ok textOfEveryKind) = .ok (Dataset.ofRows [valuesOfEveryKind]) ∧
      (Dataset.ofRows [valuesOfEveryKind]).table "data" = .ok [valuesOfEveryKind] := by
  have hlist : (Value.list [.list [], .bool true, .map []]).HasUniqueKeys :=
    .list (by simpa using ⟨.list (by simp), .bool true, .map (by decide) (by simp)⟩)
  have hmap : (Value.map [("b", .list [.bool false]), ("", .null)]).HasUniqueKeys :=
    .map (by decide) (by simpa using ⟨.list (by simpa using .bool false), .null⟩)
  have hentries : valuesOfEveryKind.entries = _ := Entries.ofList_of_nodup (by decide)
  have hvalues : ∀ r ∈ [valuesOfEveryKind], ∀ e ∈ r.entries, e.2.HasUniqueKeys := by
    simp only [List.mem_singleton, forall_eq, hentries, List.forall_mem_cons]
    exact ⟨.null, .text _, .number _, .number _, .number _, hlist, hmap⟩
  have hshort : Row.AllShort [valuesOfEveryKind] := by
    simp only [Row.AllShort, List.mem_singleton, forall_eq, hentries]
    decide +kernel
  have hwritten : (onlyJson.present valuesOfEveryKind.keys [valuesOfEveryKind] []).output =
      some (.ok textOfEveryKind) := by
    decide +kernel
  have hjson : onlyJson.jsonOutput = true := rfl
  obtain ⟨-, hrows, hloads, -⟩ := Hints.output_loads hjson valuesOfEveryKind.keys [] hvalues
  obtain ⟨text, houtput, hload, htable⟩ := hloads (hrows rfl ▸ hshort)
  obtain rfl : textOfEveryKind = text := Except.ok.inj (Option.some.inj (hwritten.symm.trans houtput))
  rw [hrows rfl] at hload htable
  exact ⟨hjson, hshort, hwritten, hload, htable⟩

/-- A row with such an integer has no text to load. -/
theorem no_output_too_long :
    (onlyJson.present ["a"] [Row.ofList [("a", .ofInt leastTooLong)]] []).output = some (.error .digits) := by
  have hlong : ¬Row.AllShort [Row.ofList [("a", .ofInt leastTooLong)]] := by
    intro h
    have hshort := h _ List.mem_cons_self ("a", .ofInt leastTooLong) List.mem_cons_self
    rw [Value.ofInt, Value.withinDigits, Number.withinDigits_leastTooLong] at hshort
    cases hshort
  exact congrArg some (Row.jsonText_of_not_allShort hlong)

end JsonTables
