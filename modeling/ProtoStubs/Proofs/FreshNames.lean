import Mathlib.Data.Finset.Dedup
import Mathlib.Data.Finset.Card
import ProtoStubs.Context

/-!
The search for a free name. It ends with the base name if that is free, and otherwise with the
least number whose name is free. The numbers it passes on the way are fewer than the names taken,
since each of them has a name of its own and none of these is the base name. The result depends on
which names are taken, and not on how they are listed.
-/

namespace ProtoStubs

variable {taken taken' : List String} {base : String} {m n rounds : Nat}

theorem numbered_ne (base : String) (n : Nat) : numbered base n ≠ base := by
  intro h
  have hlength := congrArg String.length h
  simp only [numbered, String.length_append] at hlength
  have hmark : "_".length = 1 := rfl
  omega

/-- The search from `m` on goes to the next number `rounds` times, and stops at `n`. -/
inductive Search (taken : List String) (base : String) : (m rounds n : Nat) → Prop
  | stop {m : Nat} : numbered base m ∉ taken → Search taken base m 0 m
  | next {m rounds n : Nat} : numbered base m ∈ taken → Search taken base (m + 1) rounds n →
      Search taken base m (rounds + 1) n

/-- From every number on the search stops. -/
theorem exists_search (taken : List String) (base : String) (m : Nat) :
    ∃ rounds n, Search taken base m rounds n := by
  induction m using firstFree.induct taken base with
  | case1 m htaken ih =>
    obtain ⟨rounds, n, h⟩ := ih
    exact ⟨rounds + 1, n, .next htaken h⟩
  | case2 m hfree => exact ⟨0, m, .stop hfree⟩

namespace Search

theorem firstFree_eq (h : Search taken base m rounds n) :
    firstFree taken base m = numbered base n := by
  induction h with
  | stop hfree => rw [firstFree, if_neg hfree]
  | next htaken _ ih => rw [firstFree, if_pos htaken, ih]

theorem notMem (h : Search taken base m rounds n) : numbered base n ∉ taken := by
  induction h with
  | stop hfree => exact hfree
  | next _ _ ih => exact ih

theorem eq_add (h : Search taken base m rounds n) : n = m + rounds := by
  induction h with
  | stop _ => rfl
  | next _ _ ih => omega

/-- The names of all numbers before the one where the search stops are taken. -/
theorem mem_of_lt (h : Search taken base m rounds n) {k : Nat} (hmk : m ≤ k) (hkn : k < n) :
    numbered base k ∈ taken := by
  induction h with
  | stop _ => omega
  | @next m _ _ htaken _ ih =>
    obtain rfl | hlt : k = m ∨ m + 1 ≤ k := by omega
    · exact htaken
    · exact ih hlt hkn

theorem congr (h : Search taken base m rounds n) (hsame : ∀ s, s ∈ taken ↔ s ∈ taken') :
    Search taken' base m rounds n := by
  induction h with
  | stop hfree => exact .stop (mt (hsame _).mpr hfree)
  | next htaken _ ih => exact .next ((hsame _).mp htaken) ih

/-- Every round leaves at least one name fewer ahead. -/
theorem add_length_ahead_le (h : Search taken base m rounds n) :
    rounds + (ahead taken base n).length ≤ (ahead taken base m).length := by
  induction h with
  | stop _ => omega
  | next htaken _ ih =>
    have hstep := length_ahead_succ_lt htaken
    omega

/-- A base name that is taken stays ahead to the end, so it is a name taken beside those passed. -/
theorem rounds_lt (h : Search taken base m rounds n) (hbase : base ∈ taken) :
    rounds < taken.toFinset.card := by
  -- Only the different names count, and the search goes the same way with each listed once.
  have hdedup : Search taken.dedup base m rounds n := h.congr fun _ => List.mem_dedup.symm
  have hahead : base ∈ ahead taken.dedup base n :=
    mem_ahead.mpr ⟨List.mem_dedup.mpr hbase, fun k _ => numbered_ne base k⟩
  calc
    rounds < rounds + (ahead taken.dedup base n).length :=
      Nat.lt_add_of_pos_right (List.length_pos_of_mem hahead)
    _ ≤ (ahead taken.dedup base m).length := hdedup.add_length_ahead_le
    _ ≤ taken.dedup.length := List.length_filter_le _ _
    _ = taken.toFinset.card := (List.card_toFinset taken).symm

end Search

theorem freeName_of_notMem (h : base ∉ taken) : freeName taken base = base := by
  rw [freeName, if_neg h]

/-- A base name that is taken gets the number where the search from one on stops. -/
theorem freeName_of_search (h : base ∈ taken) (hsearch : Search taken base 1 rounds n) :
    freeName taken base = numbered base n := by
  rw [freeName, if_pos h, hsearch.firstFree_eq]

theorem freeName_notMem (taken : List String) (base : String) : freeName taken base ∉ taken := by
  by_cases h : base ∈ taken
  · obtain ⟨rounds, n, hsearch⟩ := exists_search taken base 1
    rw [freeName_of_search h hsearch]
    exact hsearch.notMem
  · rw [freeName_of_notMem h]
    exact h

theorem freeName_congr (base : String) (h : ∀ s, s ∈ taken ↔ s ∈ taken') :
    freeName taken base = freeName taken' base := by
  by_cases hb : base ∈ taken
  · obtain ⟨rounds, n, hsearch⟩ := exists_search taken base 1
    rw [freeName_of_search hb hsearch, freeName_of_search ((h base).mp hb) (hsearch.congr h)]
  · rw [freeName_of_notMem hb, freeName_of_notMem (mt (h base).mpr hb)]

/-- The search for a free name ends with the least one. If the base name is taken, the search goes
to the next number less often than there are names taken, so the numbers it looks at are at most
as many as these. -/
theorem free_name_search_ends (taken : List String) (base : String) :
    freeName taken base ∉ taken ∧
      (base ∉ taken → freeName taken base = base) ∧
      (base ∈ taken → ∃ rounds n, Search taken base 1 rounds n ∧ rounds < taken.toFinset.card ∧
        1 ≤ n ∧ freeName taken base = numbered base n ∧
        ∀ m, 1 ≤ m → m < n → numbered base m ∈ taken) := by
  refine ⟨freeName_notMem taken base, freeName_of_notMem, fun hbase => ?_⟩
  obtain ⟨rounds, n, hsearch⟩ := exists_search taken base 1
  have hn := hsearch.eq_add
  exact ⟨rounds, n, hsearch, hsearch.rounds_lt hbase, by omega, freeName_of_search hbase hsearch,
    fun _ hone hlt => hsearch.mem_of_lt hone hlt⟩

/-- Names that are numbered already, one of them the base of a further one. -/
theorem numbered_users_search_ends :
    let taken := reservedNames ++ ["User", "User_1", "User_10", "User_02", "User_1_1", "User_1"]
    freeName taken "User" = "User_2" ∧ freeName taken "User_1" = "User_1_2" ∧
      freeName taken "User_2" = "User_2" ∧ "User" ∈ taken ∧
      ∃ rounds n, Search taken "User" 1 rounds n ∧ rounds < taken.toFinset.card ∧
        1 ≤ n ∧ freeName taken "User" = numbered "User" n ∧
        ∀ m, 1 ≤ m → m < n → numbered "User" m ∈ taken := by
  intro taken
  have htaken : "User" ∈ taken := by decide
  obtain ⟨_, _, hnumbered⟩ := free_name_search_ends taken "User"
  obtain ⟨_, hfree, _⟩ := free_name_search_ends taken "User_2"
  exact ⟨by decide +kernel, by decide +kernel, hfree (by decide), htaken, hnumbered htaken⟩

end ProtoStubs
