import Mathlib.Data.List.Basic
import ProtoStubs.Generation
import ProtoStubs.Proofs.Places

/-!
What specifiers look like and where they lead. Each specifier starts with dots. Taken from the
directory of the importing module it leads to the imported one, so modules with different paths have
different specifiers. It ends in the stem of the imported module, unless the path of that module is
also the path of a directory that the importing module lies in. Then it goes up to that directory
and ends in dots.
-/

namespace ProtoStubs

theorem Text.getLast?_split_append (a b : String) :
    (split '/' (a ++ "/" ++ b)).getLast? = (split '/' b).getLast? := by
  have hb : split '/' b ≠ [] := by simp [split, List.splitOn_ne_nil]
  rw [split_of_toList_eq (show (a ++ "/" ++ b).toList = a.toList ++ '/' :: b.toList by simp),
    List.getLast?_append_of_ne_nil _ hb]

namespace Path

variable {ns start target : List String}

/-- The way up to a directory that one lies in. -/
theorem between_of_prefix (h : target <+: start) :
    between start target = List.replicate (start.length - target.length) ".." := by
  obtain ⟨rest, rfl⟩ := h
  have hway := between_append target rest []
  rw [List.append_nil] at hway
  rw [hway, List.length_append, Nat.add_sub_cancel_left]
  cases rest <;> simp [between]

/-- Any other way ends where its target ends. -/
theorem getLast?_between (h : ¬ target <+: start) :
    (between start target).getLast? = target.getLast? := by
  fun_induction between start target with
  | case1 start a target ih =>
    have hrest : ¬ target <+: start := fun hpre => h (List.cons_prefix_cons.mpr ⟨rfl, hpre⟩)
    have hne : target ≠ [] := by
      rintro rfl
      exact hrest List.nil_prefix
    rw [ih hrest, List.getLast?_cons_of_ne_nil hne]
  | case2 a start b target hne => exact List.getLast?_append_of_ne_nil _ (List.cons_ne_nil b target)
  | case3 start target hne =>
    have hne : target ≠ [] := by
      rintro rfl
      exact h List.nil_prefix
    exact List.getLast?_append_of_ne_nil _ hne

theorem getLast?_split_orDot (h : ∀ n ∈ ns, IsName n) :
    (Text.split '/' (orDot ("/".intercalate ns))).getLast? = some (ns.getLast?.getD ".") := by
  by_cases hne : ns = []
  · subst hne
    decide
  · rw [orDot, if_neg (intercalate_ne_empty h hne),
      Text.split_intercalate (fun n hn => (h n hn).noSlash) hne, List.getLast?_eq_some_getLast hne,
      Option.getD_some]

end Path

namespace Layout

theorem dots_prefix_dotted (way : String) :
    "./".toList <+: (dotted way).toList ∨ "../".toList <+: (dotted way).toList := by
  unfold dotted
  split
  · rename_i hup
    exact Or.inr (List.isPrefixOf_iff_prefix.mp hup)
  · exact Or.inl (by simp)

theorem getLast?_split_dotted (way : String) :
    (Text.split '/' (dotted way)).getLast? = (Text.split '/' way).getLast? := by
  unfold dotted
  split
  · rfl
  · exact Text.getLast?_split_append "." way

end Layout

namespace SchemaFile

open ProtoStubs.Path

variable {f g : SchemaFile}

theorem Placed.getLast?_specifierTo (hg : g.Placed) :
    (Text.split '/' (f.specifierTo g)).getLast? =
      some ((between f.directories g.names).getLast?.getD ".") := by
  rw [specifierTo, Layout.getLast?_split_dotted,
    getLast?_split_orDot fun n hn => hg.isName_of_mem_between hn]

/-- A module that is no directory around the importing one is imported by its stem. -/
theorem Placed.getLast?_of_not_prefix (hg : g.Placed) (h : ¬ g.names <+: f.directories) :
    (Text.split '/' (f.specifierTo g)).getLast? = some (Path.stem (Path.fileName g.name)) := by
  rw [hg.getLast?_specifierTo, getLast?_between h, names, List.getLast?_concat, Option.getD_some]

/-- A module with the path of the directory of the importing one is imported as that directory. -/
theorem specifierTo_of_names_eq (h : g.names = f.directories) : f.specifierTo g = "./." := by
  rw [specifierTo, between_of_prefix (h ▸ List.prefix_refl _), h, Nat.sub_self]
  decide

/-- A module with the path of a directory further up is imported by going up. -/
theorem Placed.getLast?_of_prefix (hg : g.Placed) (h : g.names <+: f.directories)
    (hne : g.names ≠ f.directories) :
    (Text.split '/' (f.specifierTo g)).getLast? = some ".." := by
  have hlength : g.names.length < f.directories.length :=
    lt_of_le_of_ne h.length_le fun heq => hne (h.eq_of_length heq)
  rw [hg.getLast?_specifierTo, between_of_prefix h, List.getLast?_replicate,
    if_neg (by omega), Option.getD_some]

end SchemaFile

/-- From a module with a place there is a specifier to every module with a place. It starts with
dots, and joined to the directory of the importing module it gives the path of the imported one. So
modules with different paths have different specifiers. -/
theorem specifiers_lead_back (directory : String) (hd : Path.isAbsolute directory = true)
    (f : SchemaFile) (hf : f.Placed) :
    (∀ g : SchemaFile, g.Placed →
      ∃ s, Layout.specifier? directory f.modulePath g.modulePath = some s ∧
        ("./".toList <+: s.toList ∨ "../".toList <+: s.toList) ∧
        Path.normalize (Path.join (Path.parent f.modulePath) s) = g.modulePath) ∧
    ∀ g g' : SchemaFile, g.Placed → g'.Placed → g.modulePath ≠ g'.modulePath →
      Layout.specifier? directory f.modulePath g.modulePath ≠
        Layout.specifier? directory f.modulePath g'.modulePath := by
  constructor
  · intro g hg
    exact ⟨f.specifierTo g, hf.specifier?_eq hg hd, Layout.dots_prefix_dotted _,
      hf.normalize_specifierTo hg⟩
  · intro g g' hg hg' hne heq
    rw [hf.specifier?_eq hg hd, hf.specifier?_eq hg' hd, Option.some.injEq] at heq
    apply hne
    rw [← hf.normalize_specifierTo hg, heq, hf.normalize_specifierTo hg']

/-- A file named like a package, and one whose name starts with a dot. -/
def mailFiles : List SchemaFile :=
  [{ name := "mail.proto" }, { name := "x/.draft.proto", package := "mail" },
    { name := "post.proto", package := "mail..v1" }]

theorem mailFiles_specifiers_lead_back :
    let f : SchemaFile := { name := "v1.proto", package := "mail.v1" }
    f.Placed ∧ (∀ g ∈ mailFiles, g.Placed) ∧
    mailFiles.map (fun g => Layout.specifier? "/w" f.modulePath g.modulePath) =
      [some "./..", some "../.draft", some "./post"] ∧
    ∀ g ∈ mailFiles, ∃ s, Layout.specifier? "/w" f.modulePath g.modulePath = some s ∧
      Path.normalize (Path.join (Path.parent f.modulePath) s) = g.modulePath := by
  intro f
  have hf : f.Placed := by decide +kernel
  have hplaced : ∀ g ∈ mailFiles, g.Placed := by decide +kernel
  refine ⟨hf, hplaced, by decide +kernel, fun g hg => ?_⟩
  obtain ⟨s, hs, _, hleads⟩ := (specifiers_lead_back "/w" (by decide) f hf).1 g (hplaced g hg)
  exact ⟨s, hs, hleads⟩

/-- Let two modules have places. The last component of the specifier of one is its stem, exactly if
its path is not the path of a directory that the importing module lies in. If it is the path of the
very directory of the importing module, then the specifier is that directory as seen from itself; if
it is that of a directory further up, then the last component is two dots. -/
theorem specifier_ends_in_stem_iff (directory : String) (hd : Path.isAbsolute directory = true)
    (f g : SchemaFile) (hf : f.Placed) (hg : g.Placed) :
    ∃ s, Layout.specifier? directory f.modulePath g.modulePath = some s ∧
      ((Text.split '/' s).getLast? = some (Path.stem (Path.fileName g.name)) ↔
        ¬ Path.components g.modulePath <+: Path.components (Path.parent f.modulePath)) ∧
      (Path.components g.modulePath = Path.components (Path.parent f.modulePath) → s = "./.") ∧
      (Path.components g.modulePath <+: Path.components (Path.parent f.modulePath) →
        Path.components g.modulePath ≠ Path.components (Path.parent f.modulePath) →
        (Text.split '/' s).getLast? = some "..") := by
  rw [hg.components_modulePath, hf.components_parent]
  refine ⟨f.specifierTo g, hf.specifier?_eq hg hd, ⟨?_, hg.getLast?_of_not_prefix⟩,
    SchemaFile.specifierTo_of_names_eq, hg.getLast?_of_prefix⟩
  intro hlast hpre
  have hstem := hg.stem
  by_cases heq : g.names = f.directories
  · rw [SchemaFile.specifierTo_of_names_eq heq] at hlast
    have hdot : Path.stem (Path.fileName g.name) = "." := Option.some.inj hlast.symm
    rw [hdot] at hstem
    exact hstem (by decide)
  · rw [hg.getLast?_of_prefix hpre heq] at hlast
    rw [← Option.some.inj hlast] at hstem
    exact hstem (by decide)

/-- A module one directory further up, next to the directory that the importing module lies in. -/
theorem draftFile_specifier_ends_in_stem :
    let f : SchemaFile := { name := "v1.proto", package := "mail.v1" }
    let g : SchemaFile := { name := "x/.draft.proto", package := "mail" }
    f.Placed ∧ g.Placed ∧
    ∃ s, Layout.specifier? "/w" f.modulePath g.modulePath = some s ∧
      (Text.split '/' s).getLast? = some ".draft" := by
  intro f g
  have hf : f.Placed := by decide +kernel
  have hg : g.Placed := by decide +kernel
  have hname : Path.stem (Path.fileName g.name) = ".draft" := by decide +kernel
  obtain ⟨s, hs, hstem, _⟩ := specifier_ends_in_stem_iff "/w" (by decide) f g hf hg
  rw [hname] at hstem
  exact ⟨hf, hg, s, hs, hstem.mpr (by decide +kernel)⟩

def mailFile : SchemaFile := { name := "mail.proto", messages := [{ name := "Mail" }] }

/-- A file that uses a message of another file, in a package that is called like that file. -/
def boxFile : SchemaFile :=
  { name := "box.proto"
    package := "mail"
    messages := [
      { name := "Box"
        fields := [{ name := "first", kind := .member .message, typeName := ".Mail" }] }] }

/-- The module of the message is imported as the directory that the importing module lies in. -/
theorem boxFile_specifier_is_directory :
    boxFile.Placed ∧ mailFile.Placed ∧ boxFile.modulePath ≠ mailFile.modulePath ∧
    (∃ s, Layout.specifier? "/" boxFile.modulePath mailFile.modulePath = some s ∧
      (Text.split '/' s).getLast? = some "." ∧
      (Text.split '/' s).getLast? ≠ some (Path.stem (Path.fileName mailFile.name))) ∧
    ((Step.registerAll [mailFile, boxFile] >>= fun _ =>
      Step.moduleOf boxFile {}).start "/").result.toOption.map (·.imports.keys) = some ["./."] := by
  refine ⟨by decide +kernel, by decide +kernel, by decide +kernel, ⟨"./.", ?_⟩, by decide +kernel⟩
  decide +kernel

end ProtoStubs
