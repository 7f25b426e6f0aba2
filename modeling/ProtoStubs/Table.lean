/-!
Tables keep their entries in the order in which the keys first came in. A value put under a key
that is already there takes the place of the old value, and the key keeps its position.
-/

namespace ProtoStubs

structure Table (κ ν : Type) where
  entries : List (κ × ν) := []
deriving Repr, DecidableEq

namespace Table

variable {κ ν : Type} [DecidableEq κ]

def keys (t : Table κ ν) : List κ := t.entries.map (·.1)

def lookup (k : κ) : List (κ × ν) → Option ν
  | [] => none
  | e :: rest => if e.1 = k then some e.2 else lookup k rest

def get? (t : Table κ ν) (k : κ) : Option ν := lookup k t.entries

def putEntry (k : κ) (v : ν) : List (κ × ν) → List (κ × ν)
  | [] => [(k, v)]
  | e :: rest => if e.1 = k then (k, v) :: rest else e :: putEntry k v rest

def put (t : Table κ ν) (k : κ) (v : ν) : Table κ ν := ⟨putEntry k v t.entries⟩

def ofList (entries : List (κ × ν)) : Table κ ν :=
  entries.foldl (fun t e => t.put e.1 e.2) {}

def push (t : Table κ (List ν)) (k : κ) (v : ν) : Table κ (List ν) :=
  t.put k ((t.get? k).getD [] ++ [v])

theorem get?_put (t : Table κ ν) (j k : κ) (v : ν) :
    (t.put k v).get? j = if j = k then some v else t.get? j := by
  obtain ⟨entries⟩ := t
  simp only [put, get?]
  induction entries with
  | nil => by_cases h : j = k <;> simp [putEntry, lookup, h, eq_comm]
  | cons e rest ih =>
    by_cases he : e.1 = k
    · by_cases h : j = k
      · simp [putEntry, lookup, he, h]
      · have hj : ¬k = j := fun hj => h hj.symm
        simp [putEntry, lookup, he, h, hj]
    · by_cases hj : e.1 = j
      · have h : ¬j = k := fun h => he (hj.trans h)
        simp [putEntry, lookup, hj, h]
      · simp [putEntry, lookup, he, hj, ih]

theorem keys_put (t : Table κ ν) (k : κ) (v : ν) :
    (t.put k v).keys = if k ∈ t.keys then t.keys else t.keys ++ [k] := by
  obtain ⟨entries⟩ := t
  simp only [put, keys]
  induction entries with
  | nil => rfl
  | cons e rest ih =>
    by_cases he : e.1 = k
    · simp [putEntry, he]
    · have hk : ¬k = e.1 := fun h => he h.symm
      simp only [putEntry, he, if_false, List.map_cons, List.mem_cons, hk, false_or, ih]
      by_cases hm : k ∈ rest.map (·.1) <;> simp [hm]

theorem get?_eq_none_iff (t : Table κ ν) (k : κ) : t.get? k = none ↔ k ∉ t.keys := by
  obtain ⟨entries⟩ := t
  simp only [get?, keys]
  induction entries with
  | nil => simp [lookup]
  | cons e rest ih =>
    by_cases he : e.1 = k
    · simp [lookup, he]
    · have hk : ¬k = e.1 := fun h => he h.symm
      simp only [lookup, he, if_false, ih, List.map_cons, List.mem_cons, hk, false_or]

end Table

end ProtoStubs
