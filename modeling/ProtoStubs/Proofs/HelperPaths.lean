import ProtoStubs.Proofs.NormalPaths
import ProtoStubs.Proofs.Places

/-!
Where the import of the helper leads. Normalizing a path before it is joined to a directory makes no
difference to where it leads, so the way to the helper may be taken as it was put together: up one
directory for each segment of the package, and then along the path of the helper. A module lies as
many directories deep as its package has segments, provided that none of them is empty. So the way
up ends where all modules are written, and an absolute path leads away from there by itself.
-/

namespace ProtoStubs

namespace Text

variable {sep : Char} {s : String}

theorem exists_mem_splitOn {α : Type} [DecidableEq α] {x y : α} {xs : List α} (h : y ∈ xs)
    (hne : y ≠ x) : ∃ piece ∈ xs.splitOn x, y ∈ piece := by
  induction xs with
  | nil => simp at h
  | cons z zs ih =>
    obtain ⟨first, rest, hsplit⟩ := List.exists_cons_of_ne_nil (List.splitOn_ne_nil x zs)
    rw [List.splitOn_cons_eq_if_modifyHead, hsplit, List.modifyHead_cons]
    rw [hsplit] at ih
    rcases List.mem_cons.mp h with rfl | hrest
    · exact ⟨y :: first, by simp [hne], List.mem_cons_self⟩
    · obtain ⟨piece, hpiece, hy⟩ := ih hrest
      by_cases hz : z = x
      · exact ⟨piece, by simpa [hz] using Or.inr (List.mem_cons.mp hpiece), hy⟩
      · rcases List.mem_cons.mp hpiece with rfl | hpiece
        · exact ⟨z :: piece, by simp [hz], List.mem_cons_of_mem z hy⟩
        · exact ⟨piece, by simp [hz, hpiece], hy⟩

/-- Every other character than the one that the text is cut at is in a piece. -/
theorem exists_mem_split {ch : Char} (h : ch ∈ s.toList) (hne : ch ≠ sep) :
    ∃ n ∈ split sep s, ch ∈ n.toList := by
  obtain ⟨piece, hpiece, hch⟩ := exists_mem_splitOn h hne
  exact ⟨String.ofList piece, List.mem_map_of_mem hpiece, by simpa using hch⟩

end Text

namespace Layout

open ProtoStubs.Path

variable {package : String}

def ups (n : Nat) : String := String.join (List.replicate n "../")

theorem components_ups (n : Nat) : components (ups n) = List.replicate n ".." := by
  induction n with
  | zero => decide
  | succ n ih =>
    have htext : ups (n + 1) = ".." ++ "/" ++ ups n := by
      rw [ups, List.replicate_succ, String.join_cons, ups, show ".." ++ "/" = "../" by decide]
    rw [htext, components_append, ih, List.replicate_succ, show components ".." = [".."] by decide,
      List.singleton_append]

theorem isAbsolute_ups (n : Nat) : isAbsolute (ups n) = false := by
  cases n with
  | zero => decide
  | succ n =>
    rw [ups, List.replicate_succ, String.join_cons, isAbsolute_append (by decide)]
    decide

/-- From a relative directory, the path of the helper leads where its parts lead. -/
theorem normalize_join_helperPath {directory : String} (hd : isAbsolute directory = false)
    (package helper : String) :
    normalize (join directory (helperPath package helper)) =
      normalize (join directory (join (ups (segments package).length) helper)) := by
  by_cases hpackage : package = ""
  · have hnone : join (ups (segments package).length) helper = helper := by
      rw [segments, if_pos hpackage, List.length_nil]
      cases hhelper : isAbsolute helper with
      | true => exact join_of_absolute _ hhelper
      | false => simp [join, hhelper, ups]
    rw [helperPath, if_pos hpackage, hnone]
  · rw [helperPath, if_neg hpackage]
    exact normalize_join_normalize hd _

theorem noSlash_of_segments (h : ∀ n ∈ segments package, '/' ∉ n.toList) :
    '/' ∉ package.toList := by
  intro hslash
  have hne : package ≠ "" := by
    intro hempty
    simp [hempty] at hslash
  obtain ⟨n, hn, hmem⟩ := @Text.exists_mem_split '.' package '/' hslash (by decide)
  have hsegment : n ∈ segments package := by
    rw [segments, if_neg hne]
    exact hn
  exact h n hsegment hmem

/-- Without empty segments there is a directory for each of them. -/
theorem directories_eq_segments (h : ∀ n ∈ segments package, n ≠ "") :
    directories package = segments package := by
  rw [directories, List.filter_eq_self]
  intro n hn
  simpa using h n hn

end Layout

/-- Let the package of a file be empty, or let its segments be nonempty and without slashes. From
the directory that the module of the file lies in, the path of its helper import leads to where the
path of the helper leads from the root of the modules. -/
theorem helper_import_leads_to_helper (f : SchemaFile)
    (hpackage : f.package = "" ∨
      ∀ n ∈ Text.split '.' f.package, n ≠ "" ∧ '/' ∉ n.toList) (helper : String) :
    Path.normalize (Path.join (Path.parent f.modulePath) (Layout.helperPath f.package helper)) =
      Path.normalize helper := by
  have hsegments : ∀ n ∈ Layout.segments f.package, n ≠ "" ∧ '/' ∉ n.toList := by
    intro n hn
    by_cases hempty : f.package = ""
    · simp [Layout.segments, hempty] at hn
    · rw [Layout.segments, if_neg hempty] at hn
      exact (hpackage.resolve_left hempty) n hn
  have hslash := Layout.noSlash_of_segments fun n hn => (hsegments n hn).2
  have hdirectories : Layout.directories f.package = Layout.segments f.package :=
    Layout.directories_eq_segments fun n hn => (hsegments n hn).1
  have hnames : ∀ n ∈ Layout.segments f.package, Path.IsName n ∧ n ≠ ".." := by
    rw [← hdirectories]
    exact fun n hn => Layout.of_mem_directories hslash hn
  have hparent : Path.parent f.modulePath = "/".intercalate (Layout.segments f.package) := by
    rw [← hdirectories]
    exact Layout.parent_modulePath hslash f.name
  have hrelative : Path.isAbsolute (Path.parent f.modulePath) = false := by
    rw [hparent]
    exact Path.isAbsolute_intercalate fun n hn => (hnames n hn).1
  have hcomponents : Path.components (Path.parent f.modulePath) = Layout.segments f.package := by
    rw [hparent]
    exact Path.components_intercalate fun n hn => (hnames n hn).1
  rw [Layout.normalize_join_helperPath hrelative]
  cases habsolute : Path.isAbsolute helper with
  | true => rw [Path.join_of_absolute _ habsolute, Path.join_of_absolute _ habsolute]
  | false =>
    have hway := (Path.isAbsolute_join habsolute).trans
      (Layout.isAbsolute_ups (Layout.segments f.package).length)
    have hdown : ".." ∉ Layout.segments f.package := fun hdots => (hnames _ hdots).2 rfl
    rw [Path.normalize_of_relative ((Path.isAbsolute_join hway).trans hrelative),
      Path.components_join hway, Path.components_join habsolute, hcomponents,
      Layout.components_ups, Path.collapse_append_up hdown, Path.normalize_of_relative habsolute]

/-- Helpers beside the modules, further up, at an absolute place and at the root itself. -/
theorem nestedFile_helper_imports :
    let f : SchemaFile := { name := "x/..", package := "acme.v1" }
    (∀ n ∈ Text.split '.' f.package, n ≠ "" ∧ '/' ∉ n.toList) ∧
    ["lib/webapi", "../../lib/./webapi", "//srv/../webapi", ""].map
        (Layout.helperPath f.package) =
      ["../../lib/webapi", "../../../../lib/webapi", "//webapi", "../.."] ∧
    ["lib/webapi", "../../lib/./webapi", "//srv/../webapi", ""].map (fun helper =>
        Path.normalize (Path.join (Path.parent f.modulePath)
          (Layout.helperPath f.package helper))) =
      ["lib/webapi", "../../lib/webapi", "//webapi", "."] := by
  intro f
  have hsegments : ∀ n ∈ Text.split '.' f.package, n ≠ "" ∧ '/' ∉ n.toList := by decide +kernel
  refine ⟨hsegments, by decide +kernel, ?_⟩
  rw [List.map_congr_left fun helper _ =>
    helper_import_leads_to_helper f (Or.inr hsegments) helper]
  decide +kernel

end ProtoStubs
