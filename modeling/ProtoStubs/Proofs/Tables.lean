import Mathlib.Data.List.Induction
import Mathlib.Data.List.Nodup
import ProtoStubs.Table

/-!
Tables as lists. Putting an entry under a new key adds it at the end, and putting an entry that is
there changes nothing. Pushing values one after another groups them by their keys: the keys are in
the order in which they first occur, and the values of a key are in the order in which they came.
Grouping loses and repeats nothing.
-/

namespace ProtoStubs

theorem eraseDups_append_singleton {α : Type} [DecidableEq α] (l : List α) (a : α) :
    (l ++ [a]).eraseDups = if a ∈ l then l.eraseDups else l.eraseDups ++ [a] := by
  rw [List.eraseDups_append]
  by_cases h : a ∈ l
  · simp [List.removeAll, h]
  · simp [List.removeAll, h, List.eraseDups_cons]

theorem nodup_eraseDups {α : Type} [DecidableEq α] (l : List α) : l.eraseDups.Nodup := by
  induction l using List.reverseRecOn with
  | nil => exact List.nodup_nil
  | append_singleton l a ih =>
    rw [eraseDups_append_singleton]
    by_cases h : a ∈ l
    · rwa [if_pos h]
    · rw [if_neg h, List.nodup_append_comm, List.singleton_append, List.nodup_cons]
      exact ⟨fun hmem => h (List.mem_eraseDups.mp hmem), ih⟩

namespace Table

variable {κ ν : Type} [DecidableEq κ] {k : κ} {v : ν} {entries : List (κ × ν)}

theorem putEntry_of_forall_ne (h : ∀ e ∈ entries, e.1 ≠ k) :
    putEntry k v entries = entries ++ [(k, v)] := by
  induction entries with
  | nil => rfl
  | cons e rest ih =>
    have he : e.1 ≠ k := h e List.mem_cons_self
    rw [putEntry, if_neg he, ih fun e' he' => h e' (List.mem_cons_of_mem e he')]
    rfl

theorem putEntry_of_mem (hmem : (k, v) ∈ entries) (h : ∀ e ∈ entries, e.1 = k → e = (k, v)) :
    putEntry k v entries = entries := by
  induction entries with
  | nil => simp at hmem
  | cons e rest ih =>
    by_cases he : e.1 = k
    · rw [putEntry, if_pos he, h e List.mem_cons_self he]
    · have hrest : (k, v) ∈ rest := by
        rcases List.mem_cons.mp hmem with heq | hmem
        · exact (he (heq ▸ rfl)).elim
        · exact hmem
      rw [putEntry, if_neg he, ih hrest fun e' he' => h e' (List.mem_cons_of_mem e he')]

theorem putEntry_map {keys : List κ} (g : κ → ν) (hk : k ∈ keys) (hnodup : keys.Nodup) :
    putEntry k v (keys.map fun j => (j, g j)) =
      keys.map fun j => (j, if j = k then v else g j) := by
  induction keys with
  | nil => simp at hk
  | cons j rest ih =>
    rw [List.nodup_cons] at hnodup
    by_cases hj : j = k
    · subst hj
      have hrest : ∀ i ∈ rest, (i, g i) = (i, if i = j then v else g i) := by
        intro i hi
        have hne : i ≠ j := fun h => hnodup.1 (h ▸ hi)
        rw [if_neg hne]
      rw [List.map_cons, putEntry, if_pos rfl, List.map_cons, if_pos rfl,
        List.map_congr_left hrest]
    · have hrest : k ∈ rest := by simpa [Ne.symm hj] using hk
      rw [List.map_cons, putEntry, if_neg hj, ih hrest hnodup.2, List.map_cons, if_neg hj]

theorem lookup_map (g : κ → ν) (k : κ) (keys : List κ) :
    lookup k (keys.map fun j => (j, g j)) = if k ∈ keys then some (g k) else none := by
  induction keys with
  | nil => rfl
  | cons j rest ih =>
    by_cases hj : j = k
    · simp [lookup, hj]
    · simp [lookup, hj, ih, Ne.symm hj]

/-- Of the entries of a list with one key the last counts. -/
theorem get?_ofList (entries : List (κ × ν)) (k : κ) :
    (ofList entries).get? k = (entries.reverse.find? (·.1 = k)).map (·.2) := by
  induction entries using List.reverseRecOn with
  | nil => rfl
  | append_singleton rest e ih =>
    have hput : ofList (rest ++ [e]) = (ofList rest).put e.1 e.2 := List.foldl_append
    rw [hput, get?_put, ih, List.reverse_append, List.reverse_singleton, List.singleton_append]
    by_cases hk : e.1 = k
    · simp [hk]
    · simp [hk, Ne.symm hk]

def valuesOf (k : κ) (l : List (κ × ν)) : List ν := (l.filter (·.1 = k)).map (·.2)

/-- The values of a list under their keys, in the order in which the keys first occur. -/
def grouped (l : List (κ × ν)) : Table κ (List ν) :=
  ⟨(l.map (·.1)).eraseDups.map fun k => (k, valuesOf k l)⟩

theorem valuesOf_append (k : κ) (l : List (κ × ν)) (e : κ × ν) :
    valuesOf k (l ++ [e]) = if k = e.1 then valuesOf k l ++ [e.2] else valuesOf k l := by
  by_cases h : e.1 = k
  · simp [valuesOf, h]
  · simp [valuesOf, h, Ne.symm h]

theorem grouped_append (l : List (κ × ν)) (e : κ × ν) :
    grouped (l ++ [e]) = (grouped l).push e.1 e.2 := by
  have hkeys : ((l ++ [e]).map (·.1)).eraseDups = if e.1 ∈ l.map (·.1)
      then (l.map (·.1)).eraseDups else (l.map (·.1)).eraseDups ++ [e.1] := by
    rw [List.map_append]
    exact eraseDups_append_singleton _ _
  unfold push put get? grouped
  rw [hkeys, lookup_map]
  by_cases h : e.1 ∈ l.map (·.1)
  · rw [if_pos h, if_pos (List.mem_eraseDups.mpr h),
      putEntry_map _ (List.mem_eraseDups.mpr h) (nodup_eraseDups _)]
    congr 1
    refine List.map_congr_left fun k _ => ?_
    rw [valuesOf_append]
    by_cases hk : k = e.1
    · simp [hk]
    · simp [hk]
  · have hnew : ∀ k ∈ (l.map (·.1)).eraseDups, k ≠ e.1 := by
      intro k hk hke
      exact h (hke ▸ List.mem_eraseDups.mp hk)
    have hempty : valuesOf e.1 l = [] := by
      simp only [valuesOf, List.map_eq_nil_iff, List.filter_eq_nil_iff, decide_eq_true_eq]
      exact fun x hx hxe => h (List.mem_map.mpr ⟨x, hx, hxe⟩)
    rw [if_neg h, if_neg fun hmem => h (List.mem_eraseDups.mp hmem),
      putEntry_of_forall_ne (List.forall_mem_map.mpr hnew), List.map_append]
    congr 2
    · refine List.map_congr_left fun k hk => ?_
      rw [valuesOf_append, if_neg (hnew k hk)]
    · simp [valuesOf_append, hempty]

theorem foldl_push (l : List (κ × ν)) :
    l.foldl (fun t e => t.push e.1 e.2) {} = grouped l := by
  induction l using List.reverseRecOn with
  | nil => rfl
  | append_singleton l e ih => rw [List.foldl_append, ih, grouped_append]; rfl

def pairs (t : Table κ (List ν)) : List (κ × ν) :=
  t.entries.flatMap fun e => e.2.map fun v => (e.1, v)

theorem map_valuesOf (k : κ) (l : List (κ × ν)) :
    (valuesOf k l).map (fun v => (k, v)) = l.filter (·.1 = k) := by
  rw [valuesOf, List.map_map]
  refine List.map_congr_left (fun e he => ?_) |>.trans (List.map_id _)
  obtain rfl : e.1 = k := by simpa using (List.mem_filter.mp he).2
  rfl

/-- A list is put together again from its parts, if the keys are all there and different. -/
theorem flatMap_filter_perm {keys : List κ} (hnodup : keys.Nodup) {l : List (κ × ν)}
    (hkeys : ∀ e ∈ l, e.1 ∈ keys) : (keys.flatMap fun k => l.filter (·.1 = k)).Perm l := by
  induction keys generalizing l with
  | nil =>
    obtain rfl : l = [] := List.eq_nil_iff_forall_not_mem.mpr fun e he => by simpa using hkeys e he
    exact List.Perm.refl []
  | cons k rest ih =>
    obtain ⟨hk, hrest⟩ := List.nodup_cons.mp hnodup
    have hparts : ∀ j ∈ rest, l.filter (·.1 = j) =
        (l.filter fun e => !decide (e.1 = k)).filter (·.1 = j) := by
      intro j hj
      rw [List.filter_filter]
      apply List.filter_congr
      intro e _
      have hjk : j ≠ k := fun h => hk (h ▸ hj)
      by_cases he : e.1 = j <;> simp [he, hjk]
    have hothers : ∀ e ∈ l.filter fun e => !decide (e.1 = k), e.1 ∈ rest := by
      intro e he
      obtain ⟨hmem, hne⟩ := List.mem_filter.mp he
      exact (List.mem_cons.mp (hkeys e hmem)).resolve_left (by simpa using hne)
    rw [List.flatMap_cons, List.flatMap_congr hparts]
    exact ((ih hrest hothers).append_left _).trans (List.filter_append_perm _ l)

theorem pairs_grouped (l : List (κ × ν)) : (grouped l).pairs.Perm l := by
  rw [pairs, grouped, List.flatMap_map, List.flatMap_congr fun k _ => map_valuesOf k l]
  apply flatMap_filter_perm (nodup_eraseDups _)
  intro e he
  exact List.mem_eraseDups.mpr (List.mem_map_of_mem he)

end Table

end ProtoStubs
