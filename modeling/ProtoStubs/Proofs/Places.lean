import ProtoStubs.Layout
import ProtoStubs.Proofs.Paths

/-!
Where modules lie and how they are imported. If the package has no slashes and the stem is a name,
then the path of a module is made of the nonempty segments of the package and the stem, and it is
normal. A specifier, taken from the directory of the importing module, leads to the imported one.
-/

namespace ProtoStubs

namespace Path

variable {acc n : String} {ns : List String}

/-- The path has the names `ns`, and may have a slash after them. -/
def Spells (acc : String) (ns : List String) : Prop :=
  acc = "/".intercalate ns ∨ ns ≠ [] ∧ acc = "/".intercalate ns ++ "/"

theorem getLast?_intercalate_ne (hns : ∀ m ∈ ns, IsName m) :
    ("/".intercalate ns).toList.getLast? ≠ some '/' := by
  by_cases hne : ns = []
  · subst hne
    decide
  · obtain ⟨ch, rest, hlast, hch⟩ := exists_last_char hns hne
    rw [List.getLast?_eq_head?_reverse, hlast, List.head?_cons]
    exact fun h => hch (Option.some.inj h)

theorem join_of_noSlash (h : '/' ∉ n.toList) :
    join acc n =
      if acc = "" ∨ acc.toList.getLast? = some '/' then acc ++ n else acc ++ "/" ++ n := by
  rw [join, isAbsolute_of_noSlash h, if_neg Bool.false_ne_true]
  simp

theorem intercalate_ne_empty (hns : ∀ m ∈ ns, IsName m) (hne : ns ≠ []) :
    "/".intercalate ns ≠ "" := by
  intro hempty
  obtain ⟨ch, rest, hlast, _⟩ := exists_last_char hns hne
  simp [hempty] at hlast

theorem Spells.join_empty (hns : ∀ m ∈ ns, IsName m) (h : Spells acc ns) :
    Spells (join acc "") ns := by
  rw [join_of_noSlash (by simp)]
  rcases h with rfl | ⟨hne, rfl⟩
  · by_cases hne : ns = []
    · exact Or.inl (by simp [hne])
    · rw [if_neg (not_or.mpr ⟨intercalate_ne_empty hns hne, getLast?_intercalate_ne hns⟩)]
      exact Or.inr ⟨hne, by simp⟩
  · rw [if_pos (by simp)]
    exact Or.inr ⟨hne, by simp⟩

theorem Spells.join_name (hns : ∀ m ∈ ns, IsName m) (h : Spells acc ns) (hn : '/' ∉ n.toList) :
    join acc n = "/".intercalate (ns ++ [n]) := by
  rw [join_of_noSlash hn]
  by_cases hne : ns = []
  · obtain rfl : acc = "" := by simpa [Spells, hne] using h
    simp [hne]
  · rw [String.intercalate_append_of_ne_nil hne (List.cons_ne_nil n []),
      String.intercalate_singleton]
    rcases h with rfl | ⟨_, rfl⟩
    · rw [if_neg (not_or.mpr ⟨intercalate_ne_empty hns hne, getLast?_intercalate_ne hns⟩)]
    · rw [if_pos (by simp)]

/-- Segments are joined one by one, and empty ones leave no name. -/
theorem Spells.foldl_join {segments : List String} (hns : ∀ m ∈ ns, IsName m)
    (hsegments : ∀ m ∈ segments, m ≠ "" → IsName m) (h : Spells acc ns) :
    Spells (segments.foldl join acc) (ns ++ segments.filter (· ≠ "")) := by
  induction segments generalizing acc ns with
  | nil => simpa using h
  | cons n rest ih =>
    obtain ⟨hn, hrest⟩ := List.forall_mem_cons.mp hsegments
    by_cases hempty : n = ""
    · subst hempty
      exact ih hns hrest (h.join_empty hns)
    · have hall : ∀ m ∈ ns ++ [n], IsName m := by
        rw [List.forall_mem_append, List.forall_mem_singleton]
        exact ⟨hns, hn hempty⟩
      have hnext := ih hall hrest (Or.inl (h.join_name hns (hn hempty).noSlash))
      rw [List.foldl_cons, List.filter_cons_of_pos (by simpa using hempty), List.append_cons]
      exact hnext

theorem noSlash_fileName (p : String) : '/' ∉ (fileName p).toList := by
  intro h
  rw [fileName, String.toList_ofList, List.mem_reverse] at h
  simpa using List.mem_takeWhile_imp h

theorem toList_stem_subset (p : String) : (stem p).toList ⊆ p.toList := by
  unfold stem
  split
  · exact List.Subset.refl _
  · rename_i first before hdrop
    split
    · intro ch hch
      have hmem : ch ∈ p.toList.reverse.dropWhile (· ≠ '.') := by
        rw [hdrop]
        exact List.mem_cons_of_mem first (by simpa using hch)
      exact List.mem_reverse.mp ((List.dropWhile_suffix _).subset hmem)
    · exact List.Subset.refl _

end Path

namespace Layout

open ProtoStubs.Path

variable {package name : String}

theorem of_mem_segments {n : String} (h : n ∈ segments package) :
    '.' ∉ n.toList ∧ n.toList ⊆ package.toList := by
  unfold segments at h
  split at h
  · simp at h
  · exact Text.of_mem_split h

theorem isName_of_mem_segments {n : String} (hpackage : '/' ∉ package.toList)
    (h : n ∈ segments package) (hne : n ≠ "") : IsName n ∧ n ≠ ".." := by
  obtain ⟨hdot, hsub⟩ := of_mem_segments h
  refine ⟨⟨hne, ?_, fun hslash => hpackage (hsub hslash)⟩, ?_⟩
  · rintro rfl
    exact hdot (by decide)
  · rintro rfl
    exact hdot (by decide)

def directories (package : String) : List String := (segments package).filter (· ≠ "")

theorem of_mem_directories {n : String} (hpackage : '/' ∉ package.toList)
    (h : n ∈ directories package) : IsName n ∧ n ≠ ".." := by
  obtain ⟨hn, hne⟩ := List.mem_filter.mp h
  exact isName_of_mem_segments hpackage hn (by simpa using hne)

theorem noSlash_stem (name : String) : '/' ∉ (stem (fileName name)).toList :=
  fun h => noSlash_fileName name (toList_stem_subset _ h)

theorem modulePath_eq (hpackage : '/' ∉ package.toList) (name : String) :
    modulePath package name =
      "/".intercalate (directories package ++ [stem (fileName name)]) := by
  have hstart : Spells "" [] := Or.inl rfl
  have hspells := hstart.foldl_join (by simp)
    fun m hm hne => (isName_of_mem_segments hpackage hm hne).1
  rw [modulePath, List.foldl_append, List.foldl_cons, List.foldl_nil]
  exact hspells.join_name (fun m hm => (of_mem_directories hpackage hm).1) (noSlash_stem name)

/-- Whatever the file is called, its module lies in the directories of its package. -/
theorem parent_modulePath (hpackage : '/' ∉ package.toList) (name : String) :
    parent (modulePath package name) = "/".intercalate (directories package) := by
  rw [modulePath_eq hpackage]
  exact parent_intercalate (fun n hn => (of_mem_directories hpackage hn).1) (noSlash_stem name)

/-- A way that does not go up starts with a dot. -/
def dotted (way : String) : String :=
  if "../".toList.isPrefixOf way.toList then way else "./" ++ way

theorem specifier?_eq (directory user : String) {target : String} (h : target ≠ "") :
    specifier? directory user target =
      some (dotted (relative directory (orDot (parent user)) target)) := if_neg h

theorem isAbsolute_dotted (way : String) : isAbsolute (dotted way) = false := by
  unfold dotted
  split
  · rename_i hup
    obtain ⟨rest, hrest⟩ := List.isPrefixOf_iff_prefix.mp hup
    rw [isAbsolute, ← hrest]
    rfl
  · exact isAbsolute_append (by decide) way

theorem components_dotted (way : String) : components (dotted way) = components way := by
  unfold dotted
  split
  · rfl
  · exact components_append "." way

end Layout

/-- The module of the file has a place: each part of its path names something. -/
structure SchemaFile.Placed (f : SchemaFile) : Prop where
  package : '/' ∉ f.package.toList
  stem : Path.stem (Path.fileName f.name) ∉ ["", ".", ".."]

namespace SchemaFile

instance (f : SchemaFile) : Decidable f.Placed :=
  decidable_of_iff ('/' ∉ f.package.toList ∧ Path.stem (Path.fileName f.name) ∉ ["", ".", ".."])
    ⟨fun h => ⟨h.1, h.2⟩, fun h => ⟨h.package, h.stem⟩⟩

open ProtoStubs.Path ProtoStubs.Layout

variable {f g : SchemaFile}

def directories (f : SchemaFile) : List String := Layout.directories f.package

def names (f : SchemaFile) : List String := f.directories ++ [Path.stem (Path.fileName f.name)]

theorem Placed.isName_stem (h : f.Placed) : IsName (Path.stem (Path.fileName f.name)) := by
  have hstem := h.stem
  simp only [List.mem_cons, List.not_mem_nil, or_false, not_or] at hstem
  exact ⟨hstem.1, hstem.2.1, noSlash_stem f.name⟩

theorem Placed.of_mem_directories {n : String} (h : f.Placed) (hn : n ∈ f.directories) :
    IsName n ∧ n ≠ ".." := Layout.of_mem_directories h.package hn

theorem Placed.of_mem_names {n : String} (h : f.Placed) (hn : n ∈ f.names) :
    IsName n ∧ n ≠ ".." := by
  rcases List.mem_append.mp hn with hn | hn
  · exact h.of_mem_directories hn
  · have hstem := h.stem
    simp only [List.mem_cons, List.not_mem_nil, or_false, not_or] at hstem
    rw [List.mem_singleton.mp hn]
    exact ⟨h.isName_stem, hstem.2.2⟩

theorem Placed.modulePath_eq (h : f.Placed) : f.modulePath = "/".intercalate f.names :=
  Layout.modulePath_eq h.package f.name

theorem Placed.parent_modulePath (h : f.Placed) :
    parent f.modulePath = "/".intercalate f.directories :=
  Layout.parent_modulePath h.package f.name

theorem Placed.modulePath_ne_empty (h : f.Placed) : f.modulePath ≠ "" := by
  rw [h.modulePath_eq]
  exact intercalate_ne_empty (fun n hn => (h.of_mem_names hn).1) (by simp [names])

theorem Placed.components_modulePath (h : f.Placed) : components f.modulePath = f.names := by
  rw [h.modulePath_eq, components_intercalate fun n hn => (h.of_mem_names hn).1]

theorem Placed.components_parent (h : f.Placed) :
    components (parent f.modulePath) = f.directories := by
  rw [h.parent_modulePath,
    components_intercalate fun n hn => (h.of_mem_directories hn).1]

theorem Placed.isAbsolute_modulePath (h : f.Placed) : isAbsolute f.modulePath = false := by
  rw [h.modulePath_eq, isAbsolute_intercalate fun n hn => (h.of_mem_names hn).1]

theorem Placed.isAbsolute_parent (h : f.Placed) : isAbsolute (parent f.modulePath) = false := by
  rw [h.parent_modulePath,
    isAbsolute_intercalate fun n hn => (h.of_mem_directories hn).1]

/-- How the module of `g` is imported from the module of `f`: up out of the directories that they do
not share, and down to `g`. -/
def specifierTo (f g : SchemaFile) : String :=
  dotted (orDot ("/".intercalate (between f.directories g.names)))

theorem Placed.isName_of_mem_between {n : String} (hg : g.Placed)
    (hn : n ∈ between f.directories g.names) : IsName n := by
  rcases mem_between hn with rfl | hn
  · exact isName_dots
  · exact (hg.of_mem_names hn).1

/-- A specifier does not depend on the directory against which paths are made absolute. -/
theorem Placed.specifier?_eq (hf : f.Placed) (hg : g.Placed) {directory : String}
    (hd : isAbsolute directory = true) :
    specifier? directory f.modulePath g.modulePath = some (f.specifierTo g) := by
  have hstart : components (orDot (parent f.modulePath)) = f.directories := by
    rw [components_orDot, hf.components_parent]
  have hdown : ".." ∉ components (orDot (parent f.modulePath)) := by
    rw [hstart]
    exact fun hn => (hf.of_mem_directories hn).2 rfl
  have hdown' : ".." ∉ components g.modulePath := by
    rw [hg.components_modulePath]
    exact fun hn => (hg.of_mem_names hn).2 rfl
  have hrelative : isAbsolute (orDot (parent f.modulePath)) = false :=
    (isAbsolute_orDot _).trans hf.isAbsolute_parent
  rw [Layout.specifier?_eq directory f.modulePath hg.modulePath_ne_empty,
    relative_eq hd hrelative hdown hg.isAbsolute_modulePath hdown', hstart,
    hg.components_modulePath, specifierTo]

theorem Placed.components_specifierTo (hg : g.Placed) :
    components (f.specifierTo g) = between f.directories g.names := by
  rw [specifierTo, components_dotted, components_orDot]
  exact components_intercalate fun n hn => hg.isName_of_mem_between hn

/-- The specifier of a module, seen from the directory of another one, leads to it. -/
theorem Placed.normalize_specifierTo (hf : f.Placed) (hg : g.Placed) :
    normalize (join (parent f.modulePath) (f.specifierTo g)) = g.modulePath := by
  have hrelative : isAbsolute (f.specifierTo g) = false := isAbsolute_dotted _
  have hdown : ".." ∉ f.directories := fun hn => (hf.of_mem_directories hn).2 rfl
  have hdown' : ".." ∉ g.names := fun hn => (hg.of_mem_names hn).2 rfl
  rw [normalize_of_relative ((isAbsolute_join hrelative).trans hf.isAbsolute_parent),
    components_join hrelative, hf.components_parent, hg.components_specifierTo,
    collapse_append_between hdown hdown', ← hg.modulePath_eq, orDot, if_neg hg.modulePath_ne_empty]

theorem Placed.normalize_specifier (hf : f.Placed) (hg : g.Placed) {directory path : String}
    (hd : isAbsolute directory = true)
    (h : specifier? directory f.modulePath g.modulePath = some path) :
    normalize (join (parent f.modulePath) path) = g.modulePath := by
  obtain rfl := Option.some.inj ((hf.specifier?_eq hg hd).symm.trans h)
  exact hf.normalize_specifierTo hg

end SchemaFile

end ProtoStubs
