/-
  JsonTables.Proofs.Json.RoundTrip — the JSON text of a value is read as the value.

  The reader keeps what is still open on a stack and goes on from there, so the property that the induction over the
  value carries holds for every stack and for whatever may stand behind the value: reading its text comes to going
  on with the value itself. A list hands this to its items, one after another, and a mapping to its entries; the
  spacing between them depends on the style, but is always one that the reader skips. Of a key that a mapping has
  twice only the last value is read, so values are taken whose mappings have each key once.

  Proved:
  - `reads_write`: a value in the text of another.
  - `read_write`: a value alone.
  - `not_mem_write`: no carriage return stands in the text, so no line end in it is changed on the way.
-/

import JsonTables.Proofs.Entries
import JsonTables.Proofs.Json.Numbers
import JsonTables.Proofs.Json.Strings
import JsonTables.Proofs.Value.Digits

namespace JsonTables

/-- Every mapping in the value, at any depth, has each of its keys once. -/
inductive Value.HasUniqueKeys : Value → Prop
  | null : HasUniqueKeys .null
  | bool (b : Bool) : HasUniqueKeys (.bool b)
  | number (n : Number) : HasUniqueKeys (.number n)
  | text (s : String) : HasUniqueKeys (.text s)
  | list {items : List Value} : (∀ v ∈ items, HasUniqueKeys v) → HasUniqueKeys (.list items)
  | map {entries : List (String × Value)} : (Entries.keys entries).Nodup → (∀ e ∈ entries, HasUniqueKeys e.2) →
      HasUniqueKeys (.map entries)

namespace Json

/-! ## Steps of the reader -/

section Steps

variable {limit : Nat} {stack : List Frame} {before : List Value} {entries : List (String × Value)} {key : String}
  {v : Value} {rest tail : List Char} {c : Char}

theorem readValue_scalar {n : Nat} (hmap : c ≠ '\x7b') (hlist : c ≠ '[') (htext : c ≠ '\x22')
    (h : scalar? (c :: rest) = some (v, n)) (hdigits : v.withinDigits limit = true) :
    readValue limit stack (c :: rest) = readNext limit stack v (rest.drop (n - 1)) := by
  rw [readValue]
  simp only [hmap, hlist, htext, if_false, h, hdigits, if_true]

theorem readValue_text {s : List Char} (h : stringTail ('\x22' :: rest) rest = .ok (s, tail)) :
    readValue limit stack ('\x22' :: rest) = readNext limit stack (.text (String.ofList s)) tail := by
  rw [readValue, if_neg (by decide), if_neg (by decide), if_pos rfl]
  split <;> rename_i heq
  · rw [h] at heq
    cases heq
  · rw [h] at heq
    cases heq
    rfl

theorem readValue_emptyList (h : skip rest = ']' :: tail) :
    readValue limit stack ('[' :: rest) = readNext limit stack (.list []) tail := by
  rw [readValue, if_neg (by decide), if_pos rfl]
  split <;> rename_i heq
  · rw [h] at heq
    cases heq
    rfl
  · exact absurd h (heq tail)

theorem readValue_list (h : skip rest = c :: tail) (hc : c ≠ ']') :
    readValue limit stack ('[' :: rest) = readValue limit (.list [] :: stack) (c :: tail) := by
  rw [readValue, if_neg (by decide), if_pos rfl]
  split <;> rename_i heq
  · rw [h] at heq
    exact absurd (List.cons.inj heq).1 hc
  · rw [h]

theorem readValue_emptyMap (h : skip rest = '\x7d' :: tail) :
    readValue limit stack ('\x7b' :: rest) = readNext limit stack (.map []) tail := by
  rw [readValue, if_pos rfl]
  split <;> rename_i heq
  · rw [h] at heq
    cases heq
    rfl
  · exact absurd h (heq tail)

theorem readValue_map (h : skip rest = c :: tail) (hc : c ≠ '\x7d') :
    readValue limit stack ('\x7b' :: rest) = readProperty limit stack [] (c :: tail) := by
  rw [readValue, if_pos rfl]
  split <;> rename_i heq
  · rw [h] at heq
    exact absurd (List.cons.inj heq).1 hc
  · rw [h]

theorem readProperty_key {k cs : List Char} (hkey : stringTail ('\x22' :: rest) rest = .ok (k, cs))
    (hcolon : skip cs = ':' :: tail) :
    readProperty limit stack entries ('\x22' :: rest) =
      readValue limit (.map entries (String.ofList k) :: stack) (skip tail) := by
  rw [readProperty]
  split <;> rename_i heq
  · rw [hkey] at heq
    cases heq
  · rw [hkey] at heq
    cases heq
    split <;> rename_i heq
    · rw [hcolon] at heq
      cases heq
      rfl
    · exact absurd hcolon (heq tail)

theorem readNext_top (h : skip rest = []) : readNext limit [] v rest = .ok v := by
  rw [readNext, h]

theorem readNext_listEnd (h : skip rest = ']' :: tail) :
    readNext limit (.list before :: stack) v rest = readNext limit stack (.list (v :: before).reverse) tail := by
  rw [readNext]
  split
  · rename_i heq
    rw [h] at heq
    cases heq
    rfl
  · rename_i heq
    rw [h] at heq
    cases heq
  · rename_i hend _
    exact absurd h (hend tail)

theorem readNext_listComma (h : skip rest = ',' :: tail) :
    readNext limit (.list before :: stack) v rest = readValue limit (.list (v :: before) :: stack) (skip tail) := by
  rw [readNext]
  split
  · rename_i heq
    rw [h] at heq
    cases heq
  · rename_i heq
    rw [h] at heq
    cases heq
    rfl
  · rename_i hcomma
    exact absurd h (hcomma tail)

theorem readNext_mapEnd (h : skip rest = '\x7d' :: tail) :
    readNext limit (.map entries key :: stack) v rest =
      readNext limit stack (.map (Entries.ofList ((key, v) :: entries).reverse)) tail := by
  rw [readNext]
  split
  · rename_i heq
    rw [h] at heq
    cases heq
    rfl
  · rename_i heq
    rw [h] at heq
    cases heq
  · rename_i hend _
    exact absurd h (hend tail)

theorem readNext_mapComma (h : skip rest = ',' :: tail) :
    readNext limit (.map entries key :: stack) v rest = readProperty limit stack ((key, v) :: entries) (skip tail) := by
  rw [readNext]
  split
  · rename_i heq
    rw [h] at heq
    cases heq
  · rename_i heq
    rw [h] at heq
    cases heq
    rfl
  · rename_i hcomma
    exact absurd h (hcomma tail)

end Steps

/-! ## Gaps -/

theorem skip_gap {gap rest : List Char} (hgap : ∀ c ∈ gap, isGap c = true)
    (hrest : ∀ c ∈ rest.head?, isGap c = false) : skip (gap ++ rest) = rest :=
  (Token.takeWhile_append_stop hgap hrest).2

theorem intercalate_eq_flatMap {α : Type} (sep x : List α) (xs : List (List α)) :
    sep.intercalate (x :: xs) = x ++ xs.flatMap (sep ++ ·) := by
  induction xs generalizing x with
  | nil => simp
  | cons y xs ih => rw [List.intercalate_cons_cons, ih, List.flatMap_cons, List.append_assoc, List.append_assoc]

theorem isGap_of_spacing {gap : List Char} (h : ∀ c ∈ gap, c = ' ' ∨ c = '\n') : ∀ c ∈ gap, isGap c = true := by
  intro c hc
  rcases h c hc with rfl | rfl <;> rfl

/-- Where the items of a list or mapping stand: the first behind some spacing, every other behind a comma and
spacing, and spacing behind the last. -/
theorem exists_spacing (style : Style) (depth : Nat) : ∃ first between last : List Char,
    (∀ c ∈ first, c = ' ' ∨ c = '\n') ∧ (∀ c ∈ between, c = ' ' ∨ c = '\n') ∧ (∀ c ∈ last, c = ' ' ∨ c = '\n') ∧
      ∀ (opening closing item : String) (items : List String),
        (enclose style depth opening closing (item :: items)).toList = opening.toList ++ (first ++
          (item.toList ++ (items.flatMap (fun x => ',' :: (between ++ x.toList)) ++ (last ++ closing.toList)))) := by
  cases style with
  | line =>
    refine ⟨[], [' '], [], by simp, by simp, by simp, fun opening closing item items => ?_⟩
    simp [enclose, String.toList_intercalate, intercalate_eq_flatMap, List.flatMap_map]
  | indented step =>
    have hstart (depth : Nat) : ∀ c ∈ (lineStart step depth).toList, c = ' ' ∨ c = '\n' := by
      intro c hc
      rcases List.mem_cons.mp (show c ∈ '\n' :: List.replicate (step * depth) ' ' by simpa [lineStart] using hc) with
        rfl | hc
      · exact .inr rfl
      · exact .inl (List.eq_of_mem_replicate hc)
    refine ⟨_, _, _, hstart (depth + 1), hstart (depth + 1), hstart depth, fun opening closing item items => ?_⟩
    simp [enclose, String.toList_intercalate, intercalate_eq_flatMap, List.flatMap_map]

theorem enclose_nil (style : Style) (depth : Nat) (opening closing : String) :
    (enclose style depth opening closing []).toList = opening.toList ++ closing.toList := by
  simp [enclose]

/-! ## Beginnings -/

/-- A written value begins with a character that is no gap, no end of a list and no byte order mark. -/
theorem head_write (style : Style) (depth : Nat) (v : Value) :
    ∃ c cs, (write style depth v).toList = c :: cs ∧ isGap c = false ∧ c ≠ ']' ∧ c ≠ '\ufeff' := by
  have henclose (opening : Char) (closing : String) (items : List String)
      (h : isGap opening = false ∧ opening ≠ ']' ∧ opening ≠ '\ufeff') :
      ∃ c cs, (enclose style depth (String.singleton opening) closing items).toList = c :: cs ∧
        isGap c = false ∧ c ≠ ']' ∧ c ≠ '\ufeff' := by
    unfold enclose
    split
    · exact ⟨opening, _, by simp; rfl, h⟩
    · split
      · exact ⟨opening, _, by simp; rfl, h⟩
      · exact ⟨opening, _, by simp; rfl, h⟩
  cases v with
  | null => exact ⟨'n', "ull".toList, by rw [write]; rfl, rfl, by decide⟩
  | bool b =>
    cases b with
    | true => exact ⟨'t', "rue".toList, by rw [write]; rfl, rfl, by decide⟩
    | false => exact ⟨'f', "alse".toList, by rw [write]; rfl, rfl, by decide⟩
  | number n =>
    obtain ⟨c, cs, hcs, hc⟩ := head_number n
    have hother (d : Char) (hd : (d.isDigit = true ∨ d = '-' ∨ d = 'N' ∨ d = 'I') → False) : c ≠ d := by
      rintro rfl
      exact hd hc
    have hgap : isGap c = false := by
      simp only [isGap, Bool.or_eq_false_iff, decide_eq_false_iff_not]
      exact ⟨⟨⟨hother ' ' (by decide), hother '\t' (by decide)⟩, hother '\n' (by decide)⟩, hother '\r' (by decide)⟩
    exact ⟨c, cs, hcs, hgap, hother ']' (by decide), hother '\ufeff' (by decide)⟩
  | text s => exact ⟨'\x22', _, String.toList_ofList, rfl, by decide⟩
  | list items => exact henclose '[' "]" _ (by decide)
  | map entries => exact henclose '\x7b' "\x7d" _ (by decide)

/-! ## Values -/

theorem Ends.gap {gap rest : List Char} (hgap : ∀ c ∈ gap, isGap c = true) (hrest : Ends rest) :
    Ends (gap ++ rest) := by
  cases gap with
  | nil => exact hrest
  | cons d gap =>
    intro c hc
    obtain rfl : d = c := by simpa using hc
    have hd := hgap d List.mem_cons_self
    simp only [isGap, Bool.or_eq_true, decide_eq_true_eq] at hd
    rcases hd with ((rfl | rfl) | rfl) | rfl <;> decide

/-- The value is read where it is written, with so many digits allowed. -/
def Reads (limit : Nat) (style : Style) (depth : Nat) (v : Value) : Prop :=
  ∀ stack rest, Ends rest → readValue limit stack ((write style depth v).toList ++ rest) = readNext limit stack v rest

theorem skip_write {style : Style} {depth : Nat} {v : Value} {gap : List Char} (hgap : ∀ c ∈ gap, isGap c = true)
    (rest : List Char) :
    skip (gap ++ ((write style depth v).toList ++ rest)) = (write style depth v).toList ++ rest := by
  obtain ⟨c, cs, hcs, hc, -⟩ := head_write style depth v
  refine skip_gap hgap fun d hd => ?_
  obtain rfl : c = d := by simpa [hcs] using hd
  exact hc

section Items

variable {limit : Nat} {style : Style} {depth : Nat} {between last : List Char}

/-- What stands behind an item: further ones, or the end. -/
theorem ends_items (hlast : ∀ c ∈ last, isGap c = true) (texts : List (List Char)) {closing : Char}
    (hclosing : closing = ']' ∨ closing = '\x7d') (rest : List Char) :
    Ends (texts.flatMap (fun x => ',' :: (between ++ x)) ++ (last ++ closing :: rest)) := by
  cases texts with
  | nil =>
    rw [List.flatMap_nil, List.nil_append]
    refine Ends.gap hlast fun c hc => ?_
    obtain rfl : closing = c := by simpa using hc
    rcases hclosing with rfl | rfl <;> decide
  | cons x texts =>
    intro c hc
    obtain rfl : ',' = c := by simpa using hc
    decide

theorem skip_closing (hlast : ∀ c ∈ last, isGap c = true) {closing : Char} (hclosing : isGap closing = false)
    (rest : List Char) : skip (last ++ closing :: rest) = closing :: rest :=
  skip_gap hlast fun c hc => by
    obtain rfl : closing = c := by simpa using hc
    exact hclosing

/-- The further items of a list and its end. -/
theorem readNext_items (hbetween : ∀ c ∈ between, isGap c = true) (hlast : ∀ c ∈ last, isGap c = true)
    {items : List Value} (h : ∀ x ∈ items, Reads limit style depth x) (v : Value) (before : List Value)
    (stack : List Frame) (rest : List Char) :
    readNext limit (.list before :: stack) v ((items.map fun x => (write style depth x).toList).flatMap
      (fun x => ',' :: (between ++ x)) ++ (last ++ ']' :: rest)) =
      readNext limit stack (.list (before.reverse ++ v :: items)) rest := by
  induction items generalizing v before with
  | nil =>
    rw [List.map_nil, List.flatMap_nil, List.nil_append, readNext_listEnd (skip_closing hlast rfl rest),
      List.reverse_cons]
  | cons w items ih =>
    obtain ⟨hw, hitems⟩ := List.forall_mem_cons.mp h
    rw [List.map_cons, List.flatMap_cons, List.append_assoc, List.cons_append, List.append_assoc, readNext_listComma rfl,
      skip_write hbetween, hw _ _ (ends_items hlast _ (.inl rfl) rest), ih hitems, List.reverse_cons, List.append_assoc]
    rfl

/-- An entry of a mapping as it is written. -/
def entryText (style : Style) (depth : Nat) (e : String × Value) : String := string e.1 ++ ": " ++ write style depth e.2

theorem toList_entryText (e : String × Value) : (entryText style depth e).toList =
    '\x22' :: (e.1.toList.flatMap escapeChar ++ '\x22' :: ':' :: ([' '] ++ (write style depth e.2).toList)) := by
  simp [entryText, string]

theorem readProperty_entry {e : String × Value} (he : Reads limit style depth e.2) (before : List (String × Value))
    (stack : List Frame) {rest : List Char} (hrest : Ends rest) :
    readProperty limit stack before ((entryText style depth e).toList ++ rest) =
      readNext limit (.map before e.1 :: stack) e.2 rest := by
  rw [toList_entryText, List.cons_append, List.append_assoc, List.cons_append, List.cons_append, List.append_assoc,
    readProperty_key (stringTail_written _ _ _) rfl, String.ofList_toList, skip_write (by simp [isGap]), he _ _ hrest]

theorem skip_entryText {gap : List Char} (hgap : ∀ c ∈ gap, isGap c = true) (e : String × Value) (rest : List Char) :
    skip (gap ++ ((entryText style depth e).toList ++ rest)) = (entryText style depth e).toList ++ rest := by
  refine skip_gap hgap fun c hc => ?_
  obtain rfl : '\x22' = c := by simpa [toList_entryText] using hc
  rfl

/-- The further entries of a mapping and its end. -/
theorem readNext_entries (hbetween : ∀ c ∈ between, isGap c = true) (hlast : ∀ c ∈ last, isGap c = true)
    {entries : List (String × Value)} (h : ∀ e ∈ entries, Reads limit style depth e.2) (key : String) (v : Value)
    (before : List (String × Value)) (stack : List Frame) (rest : List Char) :
    readNext limit (.map before key :: stack) v ((entries.map fun e => (entryText style depth e).toList).flatMap
      (fun x => ',' :: (between ++ x)) ++ (last ++ '\x7d' :: rest)) =
      readNext limit stack (.map (Entries.ofList (before.reverse ++ (key, v) :: entries))) rest := by
  induction entries generalizing key v before with
  | nil =>
    rw [List.map_nil, List.flatMap_nil, List.nil_append, readNext_mapEnd (skip_closing hlast rfl rest),
      List.reverse_cons]
  | cons e entries ih =>
    obtain ⟨he, hentries⟩ := List.forall_mem_cons.mp h
    rw [List.map_cons, List.flatMap_cons, List.append_assoc, List.cons_append, List.append_assoc, readNext_mapComma rfl,
      skip_entryText hbetween, readProperty_entry he _ _ (ends_items hlast _ (.inr rfl) rest), ih hentries,
      List.reverse_cons, List.append_assoc]
    rfl

end Items

theorem writeItems_eq (style : Style) (depth : Nat) (items : List Value) :
    writeItems style depth items = items.map (write style depth) := by
  induction items with
  | nil => rfl
  | cons v items ih => rw [writeItems, ih, List.map_cons]

theorem writeEntries_eq (style : Style) (depth : Nat) (entries : List (String × Value)) :
    writeEntries style depth entries = entries.map (entryText style depth) := by
  induction entries with
  | nil => rfl
  | cons e entries ih =>
    obtain ⟨key, v⟩ := e
    rw [writeEntries, ih, List.map_cons, entryText]

theorem reads_word {limit : Nat} {style : Style} {depth : Nat} {v : Value} (word : String) {c : Char} {cs : List Char}
    (hword : word.toList = c :: cs) (hmap : c ≠ '\x7b') (hlist : c ≠ '[') (htext : c ≠ '\x22')
    (hwrite : write style depth v = word)
    (hscalar : ∀ rest, Ends rest → scalar? (word.toList ++ rest) = some (v, word.toList.length))
    (hdigits : v.withinDigits limit = true) : Reads limit style depth v := by
  intro stack rest hrest
  have hread := hscalar rest hrest
  rw [hwrite, hword] at *
  rw [List.cons_append] at hread ⊢
  rw [readValue_scalar hmap hlist htext hread hdigits]
  simp

theorem reads_list {limit : Nat} {style : Style} {depth : Nat} {items : List Value}
    (h : ∀ v ∈ items, Reads limit style (depth + 1) v) : Reads limit style depth (.list items) := by
  intro stack rest _
  rw [write, writeItems_eq]
  cases items with
  | nil =>
    rw [List.map_nil, enclose_nil]
    exact @readValue_emptyList limit _ (']' :: rest) _ rfl
  | cons v items =>
    obtain ⟨hv, hothers⟩ := List.forall_mem_cons.mp h
    obtain ⟨first, between, last, hfirst, hbetween, hlast, henclose⟩ := exists_spacing style depth
    have hread := readNext_items (isGap_of_spacing hbetween) (isGap_of_spacing hlast) hothers v [] stack rest
    -- What stands behind the first item.
    generalize hmore : (items.map fun x => (write style (depth + 1) x).toList).flatMap
      (fun x => ',' :: (between ++ x)) ++ (last ++ ']' :: rest) = more at hread
    have hends : Ends more := hmore ▸ ends_items (isGap_of_spacing hlast) _ (.inl rfl) rest
    have htext : (enclose style depth "[" "]" ((v :: items).map (write style (depth + 1)))).toList ++ rest =
        '[' :: (first ++ ((write style (depth + 1) v).toList ++ more)) := by
      rw [List.map_cons, henclose, ← hmore]
      simp [List.flatMap_map]
    obtain ⟨c, cs, hcs, -, hc, -⟩ := head_write style (depth + 1) v
    have hskip := @skip_write style (depth + 1) v _ (isGap_of_spacing hfirst) more
    rw [hcs, List.cons_append] at hskip
    rw [htext, hcs, List.cons_append, readValue_list hskip hc, ← List.cons_append, ← hcs, hv _ _ hends, hread]
    rfl

theorem reads_map {limit : Nat} {style : Style} {depth : Nat} {entries : List (String × Value)}
    (hkeys : (Entries.keys entries).Nodup) (h : ∀ e ∈ entries, Reads limit style (depth + 1) e.2) :
    Reads limit style depth (.map entries) := by
  intro stack rest _
  rw [write, writeEntries_eq]
  cases entries with
  | nil =>
    rw [List.map_nil, enclose_nil]
    exact @readValue_emptyMap limit _ ('\x7d' :: rest) _ rfl
  | cons e entries =>
    obtain ⟨he, hothers⟩ := List.forall_mem_cons.mp h
    obtain ⟨first, between, last, hfirst, hbetween, hlast, henclose⟩ := exists_spacing style depth
    have hread := readNext_entries (isGap_of_spacing hbetween) (isGap_of_spacing hlast) hothers e.1 e.2 [] stack rest
    -- What stands behind the first entry.
    generalize hmore : (entries.map fun x => (entryText style (depth + 1) x).toList).flatMap
      (fun x => ',' :: (between ++ x)) ++ (last ++ '\x7d' :: rest) = more at hread
    have hends : Ends more := hmore ▸ ends_items (isGap_of_spacing hlast) _ (.inr rfl) rest
    have htext : (enclose style depth "\x7b" "\x7d" ((e :: entries).map (entryText style (depth + 1)))).toList ++ rest =
        '\x7b' :: (first ++ ((entryText style (depth + 1) e).toList ++ more)) := by
      rw [List.map_cons, henclose, ← hmore]
      simp [List.flatMap_map]
    have hskip := @skip_entryText style (depth + 1) _ (isGap_of_spacing hfirst) e more
    rw [toList_entryText, List.cons_append] at hskip
    rw [htext, toList_entryText, List.cons_append, readValue_map hskip (by decide), ← List.cons_append,
      ← toList_entryText, readProperty_entry he _ _ hends, hread]
    show readNext limit stack (.map (Entries.ofList (e :: entries))) rest = _
    rw [Entries.ofList_of_nodup hkeys]

/-- A written value is read as itself, whatever may stand behind it, if none of its integers has too many digits. -/
theorem reads_write {limit : Nat} (style : Style) {v : Value} (h : v.HasUniqueKeys) :
    v.withinDigits limit = true → ∀ depth, Reads limit style depth v := by
  induction h with
  | null =>
    intro hdigits depth
    exact reads_word "null" rfl (by decide) (by decide) (by decide) (by rw [write]) (fun _ _ => rfl) hdigits
  | bool b =>
    intro hdigits depth
    cases b with
    | true =>
      exact reads_word "true" rfl (by decide) (by decide) (by decide) (by rw [write]; rfl) (fun _ _ => rfl) hdigits
    | false =>
      exact reads_word "false" rfl (by decide) (by decide) (by decide) (by rw [write]; rfl) (fun _ _ => rfl) hdigits
  | number n =>
    intro hdigits depth
    obtain ⟨c, cs, hcs, hc⟩ := head_number n
    refine reads_word _ hcs ?_ ?_ ?_ (by rw [write]) (fun _ => scalar?_number n) hdigits <;>
      (rintro rfl; simp at hc)
  | text s =>
    intro _ depth stack rest _
    have htext : (write style depth (.text s)).toList = '\x22' :: (s.toList.flatMap escapeChar ++ ['\x22']) := by
      simp [write, string]
    rw [htext, List.cons_append, List.append_assoc, List.singleton_append, readValue_text (stringTail_written _ _ _),
      String.ofList_toList]
  | list _ ih =>
    intro hdigits depth
    rw [Value.withinDigits_list] at hdigits
    exact reads_list fun v hv => ih v hv (List.all_eq_true.mp hdigits v hv) (depth + 1)
  | map hkeys _ ih =>
    intro hdigits depth
    rw [Value.withinDigits_map] at hdigits
    exact reads_map hkeys fun e he => ih e he (List.all_eq_true.mp hdigits e he) (depth + 1)

/-- The text of a value, in every style, is read as the value. -/
theorem read_write {limit : Nat} (style : Style) {v : Value} (h : v.HasUniqueKeys)
    (hdigits : v.withinDigits limit = true) : read limit (write style 0 v).toList = .ok v := by
  obtain ⟨c, cs, hcs, hgap, -, hmark⟩ := head_write style 0 v
  have hread := reads_write style h hdigits 0 [] [] (by rintro c ⟨⟩)
  rw [List.append_nil, hcs, readNext_top rfl] at hread
  have hskip : skip (c :: cs) = c :: cs := by simp [skip, hgap]
  rw [hcs]
  unfold read
  split
  · rename_i heq
    exact absurd (List.cons.inj heq).1 hmark
  · rw [hskip, hread]

/-! ## Line ends -/

theorem not_mem_escapeChar (c : Char) : '\r' ∉ escapeChar c := by
  have hunit (n : Nat) : '\r' ∉ unitEscape n := by
    simp only [unitEscape, hexDigits_four, List.mem_cons, List.not_mem_nil, or_false]
    rintro (h | h | h | h | h | h)
    · cases h
    · cases h
    all_goals exact Nat.digitChar_ne '\r' rfl h.symm
  rcases escapeChar_cases c with ⟨d, hc, hd, -⟩ | ⟨hc, -, -, hlow, -⟩ | ⟨hc, -⟩ | ⟨hc, -⟩
  · simp [hc, hd.symm]
  · rw [hc, List.mem_singleton]
    rintro rfl
    exact absurd hlow (by decide)
  · rw [hc]
    exact hunit _
  · rw [hc, List.mem_append]
    exact not_or.mpr ⟨hunit _, hunit _⟩

theorem not_mem_string (s : String) : '\r' ∉ (string s).toList := by
  simp only [string, String.toList_ofList, List.cons_append, List.mem_cons, List.mem_append, List.mem_flatMap,
    List.not_mem_nil, or_false, not_or, not_exists, not_and]
  exact ⟨by decide, fun c _ => not_mem_escapeChar c, by decide⟩

theorem not_mem_enclose {style : Style} {depth : Nat} {opening closing : String} {items : List String}
    (hopening : '\r' ∉ opening.toList) (hclosing : '\r' ∉ closing.toList)
    (hitems : ∀ x ∈ items, '\r' ∉ x.toList) : '\r' ∉ (enclose style depth opening closing items).toList := by
  cases items with
  | nil =>
    rw [enclose_nil, List.mem_append]
    exact not_or.mpr ⟨hopening, hclosing⟩
  | cons item items =>
    obtain ⟨first, between, last, hfirst, hbetween, hlast, henclose⟩ := exists_spacing style depth
    have hspacing {gap : List Char} (h : ∀ c ∈ gap, c = ' ' ∨ c = '\n') : '\r' ∉ gap := fun hmem => by
      simpa using h _ hmem
    obtain ⟨hitem, hothers⟩ := List.forall_mem_cons.mp hitems
    rw [henclose]
    simp only [List.mem_append, List.mem_flatMap, List.mem_cons, not_or, not_exists, not_and]
    exact ⟨hopening, hspacing hfirst, hitem, fun x hx => ⟨by decide, hspacing hbetween, hothers x hx⟩, hspacing hlast,
      hclosing⟩

/-- No line of a text ends in a carriage return. -/
theorem not_mem_write (style : Style) {v : Value} (h : v.HasUniqueKeys) :
    ∀ depth, '\r' ∉ (write style depth v).toList := by
  induction h with
  | null => exact fun depth => by rw [write]; decide
  | bool b => exact fun depth => by rw [write]; cases b <;> decide
  | number n =>
    intro depth hmem
    rw [write] at hmem
    cases isBlank_of_mem_number hmem
  | text s => exact fun depth => by rw [write]; exact not_mem_string s
  | list _ ih =>
    intro depth
    rw [write, writeItems_eq]
    refine not_mem_enclose (by decide) (by decide) (List.forall_mem_map.mpr fun v hv => ih v hv (depth + 1))
  | map _ _ ih =>
    intro depth
    rw [write, writeEntries_eq]
    refine not_mem_enclose (by decide) (by decide) (List.forall_mem_map.mpr fun e he => ?_)
    simp only [entryText, String.toList_append, List.mem_append, not_or]
    exact ⟨⟨not_mem_string e.1, by decide⟩, ih e he (depth + 1)⟩

end Json

end JsonTables
