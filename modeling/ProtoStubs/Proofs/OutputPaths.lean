import ProtoStubs.CommandLine.Run
import ProtoStubs.Proofs.Calls
import ProtoStubs.Proofs.Composition
import ProtoStubs.Proofs.Imports
import ProtoStubs.Proofs.Places

/-!
Where the files of modules lie. As long as packages have no slashes, an output path is a plain list
of names, whatever the package and the file are called: empty segments leave no name, and the last
name has an ending. Directories have no dots in their names and files do, so no file stands where
another one needs a directory. Modules of one session have paths of their own, so no file is written
over another, and all of them lie below the directory they are written to.
-/

namespace ProtoStubs

namespace Path

theorem intercalate_concat_append (ns : List String) (n ending : String) :
    "/".intercalate (ns ++ [n]) ++ ending = "/".intercalate (ns ++ [n ++ ending]) := by
  by_cases hne : ns = []
  · simp [hne]
  · rw [String.intercalate_append_of_ne_nil hne (List.cons_ne_nil _ _),
      String.intercalate_append_of_ne_nil hne (List.cons_ne_nil _ _),
      String.intercalate_singleton, String.intercalate_singleton, String.append_assoc]

theorem isAbsolute_tidy (p : String) : isAbsolute (tidy p) = isAbsolute p :=
  isAbsolute_rooted p fun _ hn => isName_of_mem_components hn

theorem components_tidy (p : String) : components (tidy p) = components p :=
  components_rooted p fun _ hn => isName_of_mem_components hn

end Path

namespace SchemaFile

open ProtoStubs.Path

variable {f g : SchemaFile} {n : String}

def outputNames (f : SchemaFile) : List String :=
  f.directories ++ [Path.stem (Path.fileName f.name) ++ ".ts"]

theorem isName_withEnding (h : '/' ∉ n.toList) : IsName (n ++ ".ts") ∧ n ++ ".ts" ≠ ".." := by
  have hlast : (n ++ ".ts").toList.getLast? = some 's' := by simp
  refine ⟨⟨?_, ?_, by simpa using h⟩, ?_⟩
  · intro heq
    rw [heq] at hlast
    exact absurd hlast (by decide)
  · intro heq
    rw [heq] at hlast
    exact absurd hlast (by decide)
  · intro heq
    rw [heq] at hlast
    exact absurd hlast (by decide)

section Plain

variable (hf : '/' ∉ f.package.toList)

include hf

theorem of_mem_outputNames (hn : n ∈ f.outputNames) : IsName n ∧ n ≠ ".." := by
  rcases List.mem_append.mp hn with hn | hn
  · exact Layout.of_mem_directories hf hn
  · rw [List.mem_singleton.mp hn]
    exact isName_withEnding (Layout.noSlash_stem f.name)

theorem outputPath_eq : f.outputPath = "/".intercalate f.outputNames := by
  rw [outputPath, modulePath, Layout.modulePath_eq hf, intercalate_concat_append]
  rfl

theorem split_outputPath : Text.split '/' f.outputPath = f.outputNames := by
  rw [outputPath_eq hf]
  apply Text.split_intercalate
  · exact fun n hn => (of_mem_outputNames hf hn).1.noSlash
  · simp [outputNames]

theorem components_outputPath : components f.outputPath = f.outputNames := by
  rw [outputPath_eq hf, components_intercalate fun n hn => (of_mem_outputNames hf hn).1]

theorem isAbsolute_outputPath : isAbsolute f.outputPath = false := by
  rw [outputPath_eq hf, isAbsolute_intercalate fun n hn => (of_mem_outputNames hf hn).1]

theorem dots_notMem_outputNames : ".." ∉ f.outputNames :=
  fun hn => (of_mem_outputNames hf hn).2 rfl

/-- Output paths are normal as they are. -/
theorem normalize_outputPath : normalize f.outputPath = f.outputPath := by
  have hne : "/".intercalate f.outputNames ≠ "" :=
    intercalate_ne_empty (fun n hn => (of_mem_outputNames hf hn).1) (by simp [outputNames])
  rw [normalize_of_relative (isAbsolute_outputPath hf), components_outputPath hf,
    collapse_of_down (dots_notMem_outputNames hf), orDot, if_neg hne, outputPath_eq hf]

end Plain

/-- The file of one module is no directory on the way to another: its name has a dot. -/
theorem eq_of_outputNames_prefix (h : f.outputNames <+: g.outputNames) :
    f.outputNames = g.outputNames := by
  rcases List.prefix_concat_iff.mp h with heq | hdirectories
  · exact heq
  · have hlast : Path.stem (Path.fileName f.name) ++ ".ts" ∈ g.directories :=
      hdirectories.subset (by simp [outputNames])
    have hdot := (Layout.of_mem_segments (List.mem_of_mem_filter hlast)).1
    simp at hdot

end SchemaFile

namespace Context

variable {c : Context} {f g : SchemaFile}

/-- The files of the registered modules have places of their own, below the directory they are
written to. -/
structure LaidOut (c : Context) : Prop where
  relative : ∀ f ∈ c.files, Path.isAbsolute f.outputPath = false
  named : ∀ f ∈ c.files, ∀ n ∈ Text.split '/' f.outputPath, n ∉ ["", ".", ".."]
  distinct : (c.files.map fun f => Path.normalize f.outputPath).Nodup
  /-- No file is a directory that another one, or itself, lies in. -/
  apart : ∀ f ∈ c.files, ∀ g ∈ c.files,
    Path.components f.outputPath <+: Path.components g.outputPath → f = g

theorem Orderly.eq_of_prefix (h : c.Orderly) (hplain : ∀ f ∈ c.files, '/' ∉ f.package.toList)
    (hf : f ∈ c.files) (hg : g ∈ c.files)
    (hpre : Path.components f.outputPath <+: Path.components g.outputPath) : f = g := by
  rw [SchemaFile.components_outputPath (hplain f hf),
    SchemaFile.components_outputPath (hplain g hg)] at hpre
  apply h.eq_of_outputPath hf hg
  rw [SchemaFile.outputPath_eq (hplain f hf), SchemaFile.outputPath_eq (hplain g hg),
    SchemaFile.eq_of_outputNames_prefix hpre]

theorem Orderly.laidOut (h : c.Orderly) (hplain : ∀ f ∈ c.files, '/' ∉ f.package.toList) :
    c.LaidOut where
  relative f hf := SchemaFile.isAbsolute_outputPath (hplain f hf)
  named f hf n hn := by
    rw [SchemaFile.split_outputPath (hplain f hf)] at hn
    obtain ⟨hname, hdots⟩ := SchemaFile.of_mem_outputNames (hplain f hf) hn
    simp [hname.ne_empty, hname.ne_dot, hdots]
  distinct := by
    have hnodup : (c.files.map (·.outputPath)).Nodup :=
      (List.Nodup.of_map _ h.paths).map_on fun f hf g hg heq => h.eq_of_outputPath hf hg heq
    rwa [List.map_congr_left fun f hf => SchemaFile.normalize_outputPath (hplain f hf)]
  apart f hf g hg hpre := h.eq_of_prefix hplain hf hg hpre

end Context

namespace CommandLine.Job

open ProtoStubs.Path

variable {directory out p : String}

theorem isAbsolute_target (hp : isAbsolute p = false) :
    isAbsolute (target out p) = isAbsolute out :=
  (isAbsolute_tidy _).trans (isAbsolute_join hp)

theorem components_target (hp : isAbsolute p = false) :
    components (target out p) = components out ++ components p :=
  (components_tidy _).trans (components_join hp)

/-- What is written at a path without two dots lies below the directory it is written to. -/
theorem places_target (hd : isAbsolute directory = true) (hp : isAbsolute p = false)
    (hdots : ".." ∉ components p) :
    places directory (target out p) = places directory out ++ components p := by
  rw [places_eq_collapse hd, places_eq_collapse hd, isAbsolute_target hp, components_target hp,
    ← List.append_assoc, collapse_append_down hdots]

/-- Seen from the directory that it is written to, a file is where it is meant to be. -/
theorem relative_target (hd : isAbsolute directory = true) (hp : isAbsolute p = false)
    (hdots : ".." ∉ components p) : relative directory out (target out p) = normalize p := by
  rw [relative_eq_of_append (places_target hd hp hdots), normalize_of_relative hp,
    collapse_of_down hdots]

end CommandLine.Job

section Generation

variable {directory : String} {files : List SchemaFile} {requested : List String}
variable {options : Options} {t : Table String String}

/-- The output paths of a generation are those of distinct files that are registered. -/
theorem exists_files_of_generate
    (h : (generate directory files requested options).result = .ok t) :
    ∃ made : List SchemaFile, made.Nodup ∧ (∀ f ∈ made, f ∈ (registered directory files).files) ∧
      t.entries.map (·.1) = made.map (·.outputPath) := by
  obtain ⟨made, hnames, hmade, hentries⟩ := exists_modules_of_generate h
  refine ⟨made.map (·.1), List.Nodup.of_map (·.name) ?_, ?_, ?_⟩
  · rw [List.map_map]
    exact hnames ▸ nodup_eraseDups requested
  · exact List.forall_mem_map.mpr fun e he => (hmade e he).1
  · rw [hentries, List.map_map, List.map_map]
    rfl

section Plain

variable (hplain : ∀ f ∈ files, '/' ∉ f.package.toList)
  (h : (generate directory files requested options).result = .ok t)

include hplain h

theorem outputPath_of_mem_entries {e : String × String} (he : e ∈ t.entries) :
    Path.isAbsolute e.1 = false ∧ ".." ∉ Path.components e.1 ∧ Path.components e.1 ≠ [] ∧
      Path.normalize e.1 = e.1 := by
  obtain ⟨made, _, hmade, hpaths⟩ := exists_files_of_generate h
  have hmem := List.mem_map_of_mem (f := (·.1)) he
  rw [hpaths] at hmem
  obtain ⟨f, hf, hpath⟩ := List.mem_map.mp hmem
  have hfile := hplain f (files_registered_subset (registerAll_of_generate h) (hmade f hf))
  rw [← hpath, SchemaFile.components_outputPath hfile]
  exact ⟨SchemaFile.isAbsolute_outputPath hfile, SchemaFile.dots_notMem_outputNames hfile,
    by simp [SchemaFile.outputNames], SchemaFile.normalize_outputPath hfile⟩

/-- Of the files of one generation none stands on the way to another. -/
theorem pairwise_entries : t.entries.Pairwise fun e e' =>
    ¬ Path.components e.1 <+: Path.components e'.1 ∧
      ¬ Path.components e'.1 <+: Path.components e.1 := by
  obtain ⟨made, hnodup, hmade, hpaths⟩ := exists_files_of_generate h
  have horderly := registered_orderly directory files
  have hfiles : ∀ f ∈ (registered directory files).files, '/' ∉ f.package.toList :=
    fun f hf => hplain f (files_registered_subset (registerAll_of_generate h) hf)
  have hapart : (made.map (·.outputPath)).Pairwise fun p q =>
      ¬ Path.components p <+: Path.components q ∧ ¬ Path.components q <+: Path.components p := by
    rw [List.pairwise_map]
    refine hnodup.imp_of_mem fun {f g} hf hg hne => ⟨?_, ?_⟩
    · exact fun hpre => hne (horderly.eq_of_prefix hfiles (hmade f hf) (hmade g hg) hpre)
    · exact fun hpre => hne (horderly.eq_of_prefix hfiles (hmade g hg) (hmade f hf) hpre).symm
  rw [← hpaths, List.pairwise_map] at hapart
  exact hapart

end Plain

end Generation

/-- As long as packages have no slashes, the registered files of a session have output paths that
are relative, made of names only, distinct also when normalized, and none of them is a directory on
the way to another. So what one generation writes lies below the directory that it is written to,
and no file is written over another or stands where another needs a directory. -/
theorem output_paths_safe :
    (∀ (directory : String) (calls : List Call),
      (∀ f ∈ (contextAfter { directory := directory } calls).files, '/' ∉ f.package.toList) →
        (contextAfter { directory := directory } calls).LaidOut) ∧
    ∀ (directory out : String) (files : List SchemaFile) (requested : List String)
      (options : Options) (t : Table String String),
      Path.isAbsolute directory = true → (∀ f ∈ files, '/' ∉ f.package.toList) →
      (generate directory files requested options).result = .ok t →
      let place (e : String × String) := Path.places directory (CommandLine.Job.target out e.1)
      (∀ e ∈ t.entries, ∃ below, below ≠ [] ∧ place e = Path.places directory out ++ below) ∧
      t.entries.Pairwise fun e e' => ¬ place e <+: place e' ∧ ¬ place e' <+: place e := by
  constructor
  · intro directory calls hplain
    have horderly := (session_runs _ calls).orderly (Context.Orderly.start directory)
    exact horderly.laidOut hplain
  · intro directory out files requested options t hd hplain h place
    have hplace : ∀ e ∈ t.entries,
        place e = Path.places directory out ++ Path.components e.1 := by
      intro e he
      obtain ⟨hrelative, hdots, _⟩ := outputPath_of_mem_entries hplain h he
      exact CommandLine.Job.places_target hd hrelative hdots
    constructor
    · intro e he
      exact ⟨_, (outputPath_of_mem_entries hplain h he).2.2.1, hplace e he⟩
    · refine (pairwise_entries hplain h).imp_of_mem fun {e e'} he he' hapart => ?_
      rw [hplace e he, hplace e' he', List.prefix_append_right_inj, List.prefix_append_right_inj]
      exact hapart

def oddFiles : List SchemaFile :=
  [{ name := "..", package := "a..b" }, { name := "x/.proto", package := ".a.b." },
    { name := "b/", package := "a" }, { name := "b.proto", package := "a" }, { name := "" }]

theorem oddFiles_output_paths :
    (∀ f ∈ (contextAfter {} (oddFiles.map Call.register)).files, '/' ∉ f.package.toList) ∧
    (contextAfter {} (oddFiles.map Call.register)).LaidOut ∧
    (contextAfter {} (oddFiles.map Call.register)).files.map (·.outputPath) =
      ["a/b/...ts", "a/b/.proto.ts", "a/.ts", "a/b.ts", ".ts"] ∧
    ∃ t, (generate "/w" oddFiles ["b.proto", ""] {}).result = .ok t ∧
      t.entries.map (fun e => Path.places "/w" (CommandLine.Job.target "o/../x" e.1)) =
        [["w", "x", "a", "b.ts"], ["w", "x", ".ts"]] ∧
      t.entries.Pairwise fun e e' =>
        ¬ Path.places "/w" (CommandLine.Job.target "o/../x" e.1) <+:
          Path.places "/w" (CommandLine.Job.target "o/../x" e'.1) ∧
        ¬ Path.places "/w" (CommandLine.Job.target "o/../x" e'.1) <+:
          Path.places "/w" (CommandLine.Job.target "o/../x" e.1) := by
  have hplain : ∀ f ∈ (contextAfter {} (oddFiles.map Call.register)).files,
      '/' ∉ f.package.toList := by decide +kernel
  obtain ⟨t, ht, hplaces⟩ : ∃ t, (generate "/w" oddFiles ["b.proto", ""] {}).result = .ok t ∧
      t.entries.map (fun e => Path.places "/w" (CommandLine.Job.target "o/../x" e.1)) =
        [["w", "x", "a", "b.ts"], ["w", "x", ".ts"]] := ⟨_, rfl, by decide +kernel⟩
  refine ⟨hplain, output_paths_safe.1 "/" _ hplain, by decide +kernel, t, ht, hplaces, ?_⟩
  exact (output_paths_safe.2 "/w" "o/../x" oddFiles ["b.proto", ""] {} t (by decide)
    (by decide +kernel) ht).2

end ProtoStubs
