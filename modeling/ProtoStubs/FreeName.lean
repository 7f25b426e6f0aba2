/-!
Free names. A name that is taken gets a number, and the search for one counts up from one until the
numbered name is free. It counts without a bound and still ends: every number that it passes leaves
fewer of the names taken ahead, since different numbers give different names.
-/

namespace ProtoStubs

def numbered (base : String) (n : Nat) : String := base ++ "_" ++ toString n

theorem numbered_injective (base : String) : Function.Injective (numbered base) := by
  intro m n h
  have hd : toString m = toString n := by
    simpa only [numbered, String.append_assoc, String.append_right_inj] using h
  have hl : Nat.toDigits 10 m = Nat.toDigits 10 n := by
    simpa only [Nat.toString_eq_repr, Nat.repr_eq_ofList_toDigits, String.ofList_inj] using hd
  -- The digits of a number can be read back.
  rw [← @Nat.ofDigitChars_ten_toDigits m, hl, Nat.ofDigitChars_ten_toDigits]

/-- The names taken that are not among the numbered ones before `n`. -/
def ahead (taken : List String) (base : String) (n : Nat) : List String :=
  taken.filter fun name => name ∉ (List.range n).map (numbered base)

theorem mem_ahead {taken : List String} {base name : String} {n : Nat} :
    name ∈ ahead taken base n ↔ name ∈ taken ∧ ∀ m < n, numbered base m ≠ name := by
  simp [ahead]

theorem ahead_succ (taken : List String) (base : String) (n : Nat) :
    ahead taken base (n + 1) = (ahead taken base n).filter fun name => name ≠ numbered base n := by
  rw [ahead, ahead, List.filter_filter]
  refine List.filter_congr fun name _ => ?_
  simp [List.range_succ, Bool.and_comm]

theorem length_ahead_succ_lt {taken : List String} {base : String} {n : Nat}
    (h : numbered base n ∈ taken) :
    (ahead taken base (n + 1)).length < (ahead taken base n).length := by
  have hahead : numbered base n ∈ ahead taken base n :=
    mem_ahead.mpr ⟨h, fun m hm heq => Nat.ne_of_lt hm (numbered_injective base heq)⟩
  rw [ahead_succ, List.length_filter_lt_length_iff_exists]
  exact ⟨numbered base n, hahead, by simp⟩

/-- The first numbered name from `n` on that is not taken. -/
@[semireducible] -- so that a search among given names computes
def firstFree (taken : List String) (base : String) (n : Nat) : String :=
  if numbered base n ∈ taken then firstFree taken base (n + 1) else numbered base n
termination_by (ahead taken base n).length
decreasing_by exact length_ahead_succ_lt ‹_›

/-- The base name if it is free, else its first free numbered name. -/
def freeName (taken : List String) (base : String) : String :=
  if base ∈ taken then firstFree taken base 1 else base

end ProtoStubs
