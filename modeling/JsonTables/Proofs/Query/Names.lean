/-
  JsonTables.Proofs.Query.Names — the names of a result's columns, made new one by one.

  A name is tried as it is, then with the numbers from two on, until a candidate is none of the names in front.
  The candidates are all different, so the search takes no more rounds than there are names in front; a name with
  a number behind it counts like any other, whether it was made or written so.

  Proved:
  - `IsNewName.searched`: the search for a new name ends, and how soon.
  - `isNewName_freshName`: the name found is the one with the least number.
  - `uniqueNames_makes_new`: the names of a list, each beside those in front of it.
-/

import JsonTables.Proofs.Query.Projection

namespace JsonTables

/-- The name with a number behind it. -/
def numbered (name : String) (n : Nat) : String := name ++ "_" ++ toString n

theorem numbered_ne (name : String) (n : Nat) : name ≠ numbered name n := by
  intro h
  have hlength := congrArg String.length h
  simp only [numbered, String.length_append] at hlength
  have hmark : "_".length = 1 := rfl
  omega

/-- The search for a name that is not taken: while the candidate is taken, the next number is put behind the name.
It ends in so many rounds, with the candidate that is left. -/
inductive Search (taken : List String) (name : String) : Nat → Nat → String → String → Prop
  | found {number : Nat} {candidate : String} : candidate ∉ taken → Search taken name 0 number candidate candidate
  | round {rounds number : Nat} {candidate result : String} : candidate ∈ taken →
      Search taken name rounds (number + 1) (numbered name number) result →
      Search taken name (rounds + 1) number candidate result

/-- The name is new beside those that are taken: the name itself, if it can be, and else with the least number from
two on. -/
inductive IsNewName (taken : List String) (name : String) : String → Prop
  | itself : name ∉ taken → IsNewName taken name name
  | numbered {k : Nat} : name ∈ taken → 2 ≤ k → numbered name k ∉ taken →
      (∀ j, 2 ≤ j → j < k → numbered name j ∈ taken) → IsNewName taken name (numbered name k)

theorem IsNewName.of_mem_iff {taken taken' : List String} (hsame : ∀ s, s ∈ taken ↔ s ∈ taken') {name result : String}
    (h : IsNewName taken name result) : IsNewName taken' name result := by
  cases h with
  | itself hname => exact .itself (mt (hsame _).mpr hname)
  | numbered hname hk hnew hleast =>
    exact .numbered ((hsame _).mp hname) hk (mt (hsame _).mpr hnew) fun j hj hjk => (hsame _).mp (hleast j hj hjk)

/-! ## The search -/

/-- Over numbers that are taken the search goes on to the next one that is not. -/
theorem Search.of_taken {taken : List String} {name : String} {k : Nat} (hk : numbered name k ∉ taken) (rounds : Nat) :
    ∀ {number : Nat} {candidate : String}, number + rounds = k → candidate ∈ taken →
      (∀ j, number ≤ j → j < k → numbered name j ∈ taken) →
      Search taken name (rounds + 1) number candidate (numbered name k) := by
  induction rounds with
  | zero =>
    intro number candidate hnumber hcandidate _
    obtain rfl : number = k := hnumber
    exact .round hcandidate (.found hk)
  | succ rounds ih =>
    intro number candidate hnumber hcandidate htaken
    refine .round hcandidate (ih (by omega) (htaken number (Nat.le_refl _) (by omega)) fun j hj hjk => ?_)
    exact htaken j (by omega) hjk

/-- Every round has met a taken name, and no name twice. -/
theorem le_length_of_taken {taken : List String} {name : String} {k : Nat} (hname : name ∈ taken)
    (htaken : ∀ j, 2 ≤ j → j < k → numbered name j ∈ taken) : k - 1 ≤ taken.length := by
  have hnumbers : ((List.range (k - 2)).map fun i => numbered name (i + 2)).Nodup :=
    List.Nodup.map ((numbered_injective name).comp fun _ _ => Nat.add_right_cancel) List.nodup_range
  have hnodup : (name :: (List.range (k - 2)).map fun i => numbered name (i + 2)).Nodup := by
    refine List.nodup_cons.mpr ⟨fun hmem => ?_, hnumbers⟩
    obtain ⟨i, -, hi⟩ := List.mem_map.mp hmem
    exact numbered_ne name _ hi.symm
  have htakenAll : (name :: (List.range (k - 2)).map fun i => numbered name (i + 2)) ⊆ taken := by
    intro candidate hmem
    rcases List.mem_cons.mp hmem with rfl | hmem
    · exact hname
    · obtain ⟨i, hi, rfl⟩ := List.mem_map.mp hmem
      rw [List.mem_range] at hi
      exact htaken (i + 2) (by omega) (by omega)
  have hlength := hnodup.length_le_of_subset htakenAll
  rw [List.length_cons, List.length_map, List.length_range] at hlength
  have hpos := List.length_pos_of_mem hname
  omega

/-- The search ends with the new name, in no more rounds than there are names taken. -/
theorem IsNewName.searched {taken : List String} {name result : String} (h : IsNewName taken name result) :
    ∃ rounds ≤ taken.length, Search taken name rounds 2 name result := by
  cases h with
  | itself hname => exact ⟨0, Nat.zero_le _, .found hname⟩
  | @numbered k hname hk hnew hleast =>
    refine ⟨k - 2 + 1, ?_, Search.of_taken hnew (k - 2) (by omega) hname hleast⟩
    have hbound := le_length_of_taken hname hleast
    omega

/-! ## The names of a list -/

theorem isNewName_freshName (taken : List String) (name : String) : IsNewName taken name (freshName taken name) := by
  have hnew := freshName_notMem taken name
  unfold freshName at hnew ⊢
  split
  · rename_i hname
    rw [if_pos hname] at hnew
    dsimp only at hnew ⊢
    rw [List.find?_map] at hnew ⊢
    cases hfound : (List.range (taken.length + 1)).find?
        ((fun s => decide (s ∉ taken)) ∘ fun i => name ++ "_" ++ toString (i + 2)) with
    | none =>
      rw [hfound] at hnew
      exact absurd hname hnew
    | some i =>
      rw [hfound] at hnew
      refine .numbered hname (Nat.le_add_left 2 i) hnew fun j hj hji => ?_
      have hsmaller := (List.find?_range_eq_some.mp hfound).2.2 (j - 2) (by omega)
      rw [Function.comp_apply, Nat.sub_add_cancel hj] at hsmaller
      simpa [numbered] using hsmaller
  · exact .itself ‹_›

/-- Names made new are as many as before and all different. Each is the name that stood in its place, if it is none
of those made new in front of it, and else that name with the least number from two on that gives none of them,
whether names with such numbers were written or made. The search for it ends, in no more rounds than there are names
in front. -/
theorem uniqueNames_makes_new (names : List String) :
    (uniqueNames [] names).length = names.length ∧ (uniqueNames [] names).Nodup ∧
      ∀ i name, names[i]? = some name → ∃ new, (uniqueNames [] names)[i]? = some new ∧
        IsNewName ((uniqueNames [] names).take i) name new ∧
        ∃ rounds ≤ i, Search ((uniqueNames [] names).take i) name rounds 2 name new := by
  refine ⟨length_uniqueNames [] names, nodup_uniqueNames [] names, fun i name hname => ?_⟩
  obtain ⟨hi, rfl⟩ := List.getElem?_eq_some_iff.mp hname
  have hsplit : uniqueNames [] names = uniqueNames [] (names.take i) ++
      uniqueNames (uniqueNames [] (names.take i)).reverse (names[i] :: names.drop (i + 1)) := by
    have happend := uniqueNames_append [] (names.take i) (names.drop i)
    rwa [List.append_nil, List.take_append_drop, List.drop_eq_getElem_cons hi] at happend
  have hlength : (uniqueNames [] (names.take i)).length = i := by
    rw [length_uniqueNames, List.length_take]
    omega
  have htake : (uniqueNames [] names).take i = uniqueNames [] (names.take i) := by
    rw [hsplit, List.take_left' hlength]
  have hnew : IsNewName ((uniqueNames [] names).take i) names[i]
      (freshName (uniqueNames [] (names.take i)).reverse names[i]) := by
    rw [htake]
    exact (isNewName_freshName _ _).of_mem_iff fun s => List.mem_reverse
  obtain ⟨rounds, hrounds, hsearch⟩ := hnew.searched
  refine ⟨_, ?_, hnew, rounds, ?_, hsearch⟩
  · rw [hsplit, List.getElem?_append_right (Nat.le_of_eq hlength), hlength, Nat.sub_self, uniqueNames]
    rfl
  · rw [htake, hlength] at hrounds
    exact hrounds

/-- A name with the number that would be given next stands between two equal names. -/
theorem uniqueNames_makes_new_third :
    uniqueNames [] ["a", "a_2", "a"] = ["a", "a_2", "a_3"] ∧ ["a", "a_2", "a"][2]? = some "a" ∧
      IsNewName ["a", "a_2"] "a" "a_3" ∧ ∃ rounds ≤ 2, Search ["a", "a_2"] "a" rounds 2 "a" "a_3" := by
  have hnames : uniqueNames [] ["a", "a_2", "a"] = ["a", "a_2", "a_3"] := by decide
  have hplace : ["a", "a_2", "a"][2]? = some "a" := rfl
  obtain ⟨new, hnew, hisNew, hsearch⟩ := (uniqueNames_makes_new ["a", "a_2", "a"]).2.2 2 "a" hplace
  rw [hnames] at hnew hisNew hsearch
  obtain rfl : new = "a_3" := (Option.some.inj hnew).symm
  exact ⟨hnames, hplace, hisNew, hsearch⟩

end JsonTables
