import Mathlib.Data.List.TakeWhile
import ProtoStubs.Text.Basic

/-!
How texts are cut and trimmed. Pieces without the separator are read back from the text that joins
them, and the first separator of a text divides it. A trimmed text has no blank at its ends, and
only blanks were around it.
-/

namespace ProtoStubs.Text

variable {sep : Char} {s b p part key value : String}

theorem split_of_toList_eq {a b : String} (h : s.toList = a.toList ++ sep :: b.toList) :
    split sep s = split sep a ++ split sep b := by
  rw [split, h, List.splitOn_append_cons_self, List.map_append, split, split]

theorem split_of_notMem (h : sep ∉ s.toList) : split sep s = [s] := by
  have honce := List.splitOn_intercalate sep (List.forall_mem_singleton.mpr h)
    (List.cons_ne_nil _ _)
  rw [List.intercalate_singleton] at honce
  rw [split, honce]
  simp

theorem split_intercalate_of {mark : String} (hmark : mark.toList = [sep]) {ns : List String}
    (h : ∀ n ∈ ns, sep ∉ n.toList) (hne : ns ≠ []) : split sep (mark.intercalate ns) = ns := by
  have hpieces : ∀ piece ∈ ns.map String.toList, sep ∉ piece := List.forall_mem_map.mpr h
  rw [split, String.toList_intercalate, hmark,
    List.splitOn_intercalate sep hpieces (by simpa using hne), List.map_map]
  simp [Function.comp_def]

theorem intercalate_split {mark : String} (hmark : mark.toList = [sep]) (s : String) :
    mark.intercalate (split sep s) = s := by
  apply String.toList_injective
  rw [String.toList_intercalate, hmark, split, List.map_map]
  simp [Function.comp_def, List.intercalate_splitOn]

theorem split_intercalate {ns : List String} (h : ∀ n ∈ ns, '/' ∉ n.toList) (hne : ns ≠ []) :
    split '/' ("/".intercalate ns) = ns := split_intercalate_of rfl h hne

theorem of_mem_splitOn {α : Type} [DecidableEq α] {x : α} {xs piece : List α}
    (h : piece ∈ xs.splitOn x) : x ∉ piece ∧ piece ⊆ xs := by
  induction xs generalizing piece with
  | nil =>
    obtain rfl : piece = [] := by simpa using h
    simp
  | cons y ys ih =>
    rw [List.splitOn_cons_eq_if_modifyHead] at h
    obtain ⟨first, rest, hsplit⟩ := List.exists_cons_of_ne_nil (List.splitOn_ne_nil x ys)
    have htail : ∀ p ∈ ys.splitOn x, x ∉ p ∧ p ⊆ y :: ys := by
      intro p hp
      exact ⟨(ih hp).1, List.subset_cons_of_subset y (ih hp).2⟩
    by_cases hy : y = x
    · rcases List.mem_cons.mp (by simpa [hy] using h) with rfl | hp
      · simp
      · exact htail piece hp
    · rw [hsplit] at h htail
      rcases List.mem_cons.mp (by simpa [hy] using h) with rfl | hp
      · obtain ⟨hnot, hsub⟩ := htail first List.mem_cons_self
        exact ⟨by simp [hnot, Ne.symm hy], List.cons_subset.mpr ⟨List.mem_cons_self, hsub⟩⟩
      · exact htail piece (List.mem_cons_of_mem first hp)

theorem of_mem_split {n : String} (h : n ∈ split sep s) :
    sep ∉ n.toList ∧ n.toList ⊆ s.toList := by
  obtain ⟨piece, hpiece, rfl⟩ := List.mem_map.mp h
  rw [String.toList_ofList]
  exact of_mem_splitOn hpiece

theorem all_ne_of_notMem (h : sep ∉ s.toList) : ∀ c ∈ s.toList, decide (c ≠ sep) = true := by
  intro c hc
  rw [decide_eq_true_iff]
  rintro rfl
  exact h hc

theorem cut_append (h : sep ∉ key.toList) (hs : s.toList = key.toList ++ sep :: value.toList) :
    cut sep s = (key, some value) := by
  have hkey := all_ne_of_notMem h
  rw [cut, hs, List.takeWhile_append_of_pos hkey, List.dropWhile_append_of_pos hkey]
  simp

theorem cut_of_notMem (h : sep ∉ s.toList) : cut sep s = (s, none) := by
  have hall := all_ne_of_notMem h
  rw [cut, List.takeWhile_eq_self_iff.mpr hall, List.dropWhile_eq_nil_iff.mpr hall]
  simp

def AllBlank (s : String) : Prop := ∀ c ∈ s.toList, isBlank c = true

instance (s : String) : Decidable (AllBlank s) :=
  decidable_of_iff (s.toList.all isBlank = true) List.all_eq_true

theorem trim_blank_append (h : AllBlank b) (s : String) : trim (b ++ s) = trim s := by
  rw [trim, String.toList_append, List.dropWhile_append_of_pos h, trim]

theorem trim_append_blank (h : AllBlank b) (s : String) : trim (s ++ b) = trim s := by
  have hblank : b.toList.dropWhile isBlank = [] := List.dropWhile_eq_nil_iff.mpr h
  have hend : ∀ c ∈ b.toList.reverse, isBlank c = true := fun c hc => h c (List.mem_reverse.mp hc)
  rw [trim, String.toList_append, List.dropWhile_append]
  by_cases hnone : s.toList.dropWhile isBlank = []
  · rw [if_pos (by simp [hnone]), hblank, trim, hnone]
  · rw [if_neg (by simpa using hnone), List.reverse_append, List.dropWhile_append_of_pos hend, trim]

/-- A text that neither starts nor ends with a blank is left as it is. -/
theorem trim_eq_self (hfirst : ∀ c ∈ s.toList.head?, isBlank c = false)
    (hlast : ∀ c ∈ s.toList.getLast?, isBlank c = false) : trim s = s := by
  have hkeep : ∀ l : List Char, (∀ c ∈ l.head?, isBlank c = false) → l.dropWhile isBlank = l := by
    intro l hl
    cases l with
    | nil => rfl
    | cons c rest => exact List.dropWhile_cons_of_neg (by simp [hl c rfl])
  have hends : ∀ c ∈ s.toList.reverse.head?, isBlank c = false := by
    rw [List.head?_reverse]
    exact hlast
  rw [trim, hkeep _ hfirst, hkeep _ hends, List.reverse_reverse, String.ofList_toList]

/-- The text `part` is `p` with blanks around it. -/
def Pads (p part : String) : Prop :=
  ∃ before after, AllBlank before ∧ AllBlank after ∧ part = before ++ p ++ after

theorem Pads.refl (p : String) : Pads p p :=
  ⟨"", "", by simp [AllBlank], by simp [AllBlank], by simp⟩

theorem Pads.trim_eq (h : Pads p part) : trim part = trim p := by
  obtain ⟨before, after, hbefore, hafter, rfl⟩ := h
  rw [trim_append_blank hafter, trim_blank_append hbefore]

theorem Pads.notMem (h : Pads p part) (hsep : isBlank sep = false) (hp : sep ∉ p.toList) :
    sep ∉ part.toList := by
  obtain ⟨before, after, hbefore, hafter, rfl⟩ := h
  have hfree : ∀ b, AllBlank b → sep ∉ b.toList := by
    intro b hb hmem
    rw [hb sep hmem] at hsep
    cases hsep
  rw [String.toList_append, String.toList_append, List.mem_append, List.mem_append, not_or, not_or]
  exact ⟨⟨hfree before hbefore, hp⟩, hfree after hafter⟩

/-- The text `p` is `part` without the blanks around it. -/
structure Trims (part p : String) : Prop where
  pads : Pads p part
  first : ∀ c ∈ p.toList.head?, isBlank c = false
  last : ∀ c ∈ p.toList.getLast?, isBlank c = false

theorem trims_trim (s : String) : Trims s (trim s) := by
  let tail := s.toList.dropWhile isBlank
  have hinner : (trim s).toList = (tail.reverse.dropWhile isBlank).reverse :=
    String.toList_ofList
  -- What is dropped at either end is what `takeWhile` takes there.
  have htail : tail = (trim s).toList ++ (tail.reverse.takeWhile isBlank).reverse := by
    rw [hinner, ← List.reverse_append, List.takeWhile_append_dropWhile, List.reverse_reverse]
  have hwhole : s.toList = s.toList.takeWhile isBlank ++ tail :=
    List.takeWhile_append_dropWhile.symm
  refine ⟨⟨String.ofList (s.toList.takeWhile isBlank),
    String.ofList (tail.reverse.takeWhile isBlank).reverse, ?_, ?_, ?_⟩, ?_, ?_⟩
  · intro c hc
    rw [String.toList_ofList] at hc
    exact List.mem_takeWhile_imp hc
  · intro c hc
    rw [String.toList_ofList, List.mem_reverse] at hc
    exact List.mem_takeWhile_imp hc
  · apply String.toList_injective
    simp only [String.toList_append, String.toList_ofList, List.append_assoc]
    rw [← htail, ← hwhole]
  · intro c hc
    have hfront : c ∈ tail.head? := by
      rw [htail, List.head?_append, Option.mem_def, Option.mem_def.mp hc]
      rfl
    have hnot := List.head?_dropWhile_not isBlank s.toList
    rw [Option.mem_def.mp hfront] at hnot
    exact hnot
  · intro c hc
    rw [hinner, List.getLast?_reverse] at hc
    have hnot := List.head?_dropWhile_not isBlank tail.reverse
    rw [Option.mem_def.mp hc] at hnot
    exact hnot

theorem trims_iff : Trims part p ↔ trim part = p := by
  constructor
  · intro h
    exact h.pads.trim_eq.trans (trim_eq_self h.first h.last)
  · intro h
    exact h ▸ trims_trim part

end ProtoStubs.Text
