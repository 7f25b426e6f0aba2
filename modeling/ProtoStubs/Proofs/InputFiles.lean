import ProtoStubs.Proofs.ImportNames

/-!
The schema files that a run of the command is given, and the include directory that goes with them.
That directory is there so that every file has a name: it holds the files below a directory, or the
one file beside it, however the path to them is written. Only a path that begins with exactly two
slashes leads to a directory that holds nothing, and then it depends on the other include
directories whether all files have names.
-/

namespace ProtoStubs

/-- A traversal succeeds on all of a list, or stops at the first element that fails. -/
theorem mapM_cases {α β ε : Type} (f : α → Except ε β) (xs : List α) :
    (∃ ys, xs.mapM f = .ok ys ∧ ys.length = xs.length ∧ ∀ x ∈ xs, ∃ y, f x = .ok y) ∨
      ∃ before x after e, xs = before ++ x :: after ∧ (∀ x' ∈ before, ∃ y, f x' = .ok y) ∧
        f x = .error e ∧ xs.mapM f = .error e := by
  induction xs with
  | nil => exact Or.inl ⟨[], rfl, rfl, by simp⟩
  | cons x rest ih =>
    rw [List.mapM_cons]
    cases hx : f x with
    | error e => exact Or.inr ⟨[], x, rest, e, rfl, by simp, hx, rfl⟩
    | ok y =>
      rcases ih with ⟨ys, hrest, hlength, hall⟩ | ⟨before, x', after, e, rfl, hbefore, hx', hrest⟩
      · refine Or.inl ⟨y :: ys, ?_, by simp [hlength], List.forall_mem_cons.mpr ⟨⟨y, hx⟩, hall⟩⟩
        rw [hrest]
        rfl
      · refine Or.inr ⟨x :: before, x', after, e, rfl, ?_, hx', ?_⟩
        · exact List.forall_mem_cons.mpr ⟨⟨y, hx⟩, hbefore⟩
        · rw [hrest]
          rfl

instance (n : String) : Decidable (Path.IsName n) :=
  decidable_of_iff (n ≠ "" ∧ n ≠ "." ∧ '/' ∉ n.toList)
    ⟨fun ⟨h₁, h₂, h₃⟩ => ⟨h₁, h₂, h₃⟩, fun h => ⟨h.ne_empty, h.ne_dot, h.noSlash⟩⟩

namespace CommandLine

open ProtoStubs.Path

variable {directory path file i : String} {disk : Disk} {items : List String}

theorem mem_distinct : i ∈ distinct items ↔ i ∈ items ∧ i ≠ "" := by
  simp [distinct]

/-- The names on the way to each place are such as a directory can have in it. -/
def Disk.Named (d : Disk) : Prop := ∀ e ∈ d.nodes.entries, ∀ n ∈ e.1, IsName n ∧ n ≠ ".."

instance (d : Disk) : Decidable d.Named :=
  inferInstanceAs (Decidable (∀ e ∈ d.nodes.entries, ∀ n ∈ e.1, IsName n ∧ n ≠ ".."))

def inputs (disk : Disk) (directory path : String) : List String :=
  if disk.isDirectory directory path then schemaFiles disk directory path else [path]

def home (disk : Disk) (directory path : String) : String :=
  if disk.isDirectory directory path then path else parent (absolute directory path)

theorem ne_empty_of_isDirectory (h : disk.isDirectory directory path = true) : path ≠ "" := by
  rintro rfl
  unfold Disk.isDirectory at h
  split at h <;> simp at h

/-- The files below a directory are written as its path and the names that lead down to them. -/
theorem exists_names_of_mem_schemaFiles (hdisk : disk.Named)
    (h : file ∈ schemaFiles disk directory path) :
    ∃ names, (∀ n ∈ names, IsName n ∧ n ≠ "..") ∧ file = join path ("/".intercalate names) := by
  have hunder := (List.mem_filter.mp (List.mem_mergeSort.mp h)).1
  unfold Disk.filesUnder at hunder
  split at hunder
  · obtain ⟨names, hnames, rfl⟩ := List.mem_map.mp hunder
    obtain ⟨e, he, hfile⟩ := List.mem_filterMap.mp hnames
    refine ⟨names, ?_, rfl⟩
    split at hfile
    · split at hfile
      · obtain rfl := Option.some.inj hfile
        exact fun n hn => hdisk e he n (List.mem_of_mem_drop hn)
      · cases hfile
    · cases hfile
  · cases hunder

section Home

variable (hd : isAbsolute directory = true)

include hd

theorem home_ne_empty (disk : Disk) (path : String) : home disk directory path ≠ "" := by
  unfold home
  split
  · rename_i hdirectory
    exact ne_empty_of_isDirectory hdirectory
  · exact parent_absolute_ne_empty hd path

theorem slashes_home (disk : Disk) (path : String) :
    slashes (absolute directory (home disk directory path)) = 2 ↔
      slashes (absolute directory path) = 2 := by
  unfold home
  split
  · rfl
  · rw [slashes_eq_two_iff (isAbsolute_absolute hd _),
      slashes_eq_two_iff (isAbsolute_absolute hd _), (absolute_parent hd path).1]

/-- Each schema file lies below the directory that goes with it. -/
theorem home_prefix_input (hdisk : disk.Named) (h : file ∈ inputs disk directory path) :
    components (absolute directory (home disk directory path)) <+:
      components (absolute directory file) := by
  unfold inputs at h
  unfold home
  split at h
  · rename_i hdirectory
    obtain ⟨names, hnames, rfl⟩ := exists_names_of_mem_schemaFiles hdisk h
    have hall : ∀ n ∈ names, IsName n := fun n hn => (hnames n hn).1
    have hcomponents : components ("/".intercalate names) = names := components_intercalate hall
    have hdots : ".." ∉ components ("/".intercalate names) := by
      rw [hcomponents]
      exact fun hmem => (hnames _ hmem).2 rfl
    rw [if_pos hdirectory, components_absolute_join hd (isAbsolute_intercalate hall) hdots]
    exact List.prefix_append _ _
  · rename_i hdirectory
    rw [if_neg hdirectory, List.mem_singleton.mp h, (absolute_parent hd path).2]
    exact List.dropLast_prefix _

theorem home_holds_iff (hdisk : disk.Named) (h : file ∈ inputs disk directory path) :
    holds directory (home disk directory path) file = true ↔
      slashes (absolute directory path) ≠ 2 := by
  rw [holds_iff hd, Ne, slashes_home hd]
  exact and_iff_left (home_prefix_input hd hdisk h)

/-- A file has a name if the directory that goes with it holds it, or another one does. -/
theorem importName_input_iff (hdisk : disk.Named) (h : file ∈ inputs disk directory path)
    (given : List String) :
    (∃ name,
        importName directory (distinct (given ++ [home disk directory path])) file = .ok name) ↔
      slashes (absolute directory path) ≠ 2 ∨
        ∃ i ∈ given, i ≠ "" ∧ holds directory i file = true := by
  rw [importName_ok_iff, ← home_holds_iff hd hdisk h]
  constructor
  · rintro ⟨i, hi, hholds⟩
    obtain ⟨hmem, hne⟩ := mem_distinct.mp hi
    rcases List.mem_append.mp hmem with hgiven | hhome
    · exact Or.inr ⟨i, hgiven, hne, hholds⟩
    · rw [List.mem_singleton.mp hhome] at hholds
      exact Or.inl hholds
  · rintro (hhome | ⟨i, hgiven, hne, hholds⟩)
    · exact ⟨_, mem_distinct.mpr ⟨by simp, home_ne_empty hd disk path⟩, hhome⟩
    · exact ⟨i, mem_distinct.mpr ⟨List.mem_append_left _ hgiven, hne⟩, hholds⟩

end Home

theorem importName_error {includes : List String} {fault : Fault}
    (h : importName directory includes path = .error fault) :
    fault = .outsideIncludes path includes := by
  unfold importName at h
  split at h
  · cases h
  · exact (Except.error.inj h).symm

section Plan

variable {arguments : List String} {a : Arguments}

/-- A run whose arguments can be read looks for its files, then for their names. -/
theorem plan_eq (hparse : Arguments.parse arguments = .ok a) (hproto : a.proto = some path) :
    plan directory disk arguments =
      if (inputs disk directory path).isEmpty then
        .done {
          status := .ok 0
          stdout := "No .proto files found under directory: " ++ path ++ "\n"
          disk := disk }
      else
        match (inputs disk directory path).mapM
          (importName directory (distinct (a.includes ++ [home disk directory path]))) with
        | .error fault => .done (.ofFault disk fault)
        | .ok names =>
            .compile ⟨a, directory, inputs disk directory path,
              distinct (a.includes ++ [home disk directory path]), names⟩ := by
  unfold plan inputs home
  simp only [hparse, hproto]
  cases disk.isDirectory directory path <;> rfl

/-- A run goes on if all its files have names, and refuses the first one that has none. -/
theorem plan_cases (hparse : Arguments.parse arguments = .ok a) (hproto : a.proto = some path)
    (hinputs : inputs disk directory path ≠ []) :
    let files := inputs disk directory path
    let includes := distinct (a.includes ++ [home disk directory path])
    (∃ names, names ≠ [] ∧
      plan directory disk arguments = .compile ⟨a, directory, files, includes, names⟩ ∧
      ∀ file ∈ files, ∃ name, importName directory includes file = .ok name) ∨
    ∃ before file after, files = before ++ file :: after ∧
      plan directory disk arguments = .done (.ofFault disk (.outsideIncludes file includes)) ∧
      (∀ f ∈ before, ∃ name, importName directory includes f = .ok name) ∧
      ¬ ∃ name, importName directory includes file = .ok name := by
  intro files includes
  have hsome : files.isEmpty = false := by simpa using hinputs
  rw [plan_eq hparse hproto, hsome, if_neg Bool.false_ne_true]
  rcases mapM_cases (importName directory includes) files with
    ⟨names, hnames, hlength, hall⟩ | ⟨before, file, after, fault, hsplit, hbefore, hfile, herror⟩
  · rw [hnames]
    exact Or.inl ⟨names, fun hnil => hinputs (by simpa [hnil] using hlength.symm), rfl, hall⟩
  · rw [herror, importName_error hfile]
    exact Or.inr ⟨before, file, after, hsplit, rfl, hbefore, by simp [hfile]⟩

/-- A run names all its schema files exactly if the path to them, in its absolute form, does not
begin with exactly two slashes, or each file lies below an include directory that is given and
does not begin so either. Otherwise it refuses the first file that does not. -/
theorem inputs_named_unless_two_slashes (directory : String) (disk : Disk)
    (arguments : List String) (a : Arguments) (path : String)
    (hd : isAbsolute directory = true) (hdisk : disk.Named)
    (hparse : Arguments.parse arguments = .ok a) (hproto : a.proto = some path)
    (hinputs : inputs disk directory path ≠ []) :
    let files := inputs disk directory path
    let includes := distinct (a.includes ++ [home disk directory path])
    let Held (file : String) := ∃ i ∈ a.includes, i ≠ "" ∧ slashes (absolute directory i) ≠ 2 ∧
      components (absolute directory i) <+: components (absolute directory file)
    ((∃ names, plan directory disk arguments = .compile ⟨a, directory, files, includes, names⟩) ↔
      slashes (absolute directory path) ≠ 2 ∨ ∀ file ∈ files, Held file) ∧
    (¬ (slashes (absolute directory path) ≠ 2 ∨ ∀ file ∈ files, Held file) →
      ∃ before file after, files = before ++ file :: after ∧ (∀ f ∈ before, Held f) ∧
        ¬ Held file ∧
        plan directory disk arguments =
          .done (.ofFault disk (.outsideIncludes file includes))) := by
  intro files includes Held
  have hname : ∀ file ∈ files, ((∃ name, importName directory includes file = .ok name) ↔
      slashes (absolute directory path) ≠ 2 ∨ Held file) := by
    intro file hfile
    rw [importName_input_iff hd hdisk hfile]
    simp only [holds_iff hd, Held]
  rcases plan_cases hparse hproto hinputs with
    ⟨names, _, hplan, hall⟩ | ⟨before, file, after, hsplit, hplan, hbefore, hfile⟩
  · have hright : slashes (absolute directory path) ≠ 2 ∨ ∀ file ∈ files, Held file := by
      refine or_iff_not_imp_left.mpr fun htwo file hmem => ?_
      exact ((hname file hmem).mp (hall file hmem)).resolve_left htwo
    exact ⟨iff_of_true ⟨names, hplan⟩ hright, fun hnot => (hnot hright).elim⟩
  · have hmem : file ∈ files ∧ ∀ f ∈ before, f ∈ files := by
      simp only [files, hsplit]
      exact ⟨List.mem_append_right _ List.mem_cons_self, fun f hf => List.mem_append_left _ hf⟩
    obtain ⟨htwo, hnot⟩ := not_or.mp ((hname file hmem.1).not.mp hfile)
    refine ⟨iff_of_false ?_ ?_, fun _ => ⟨before, file, after, hsplit, ?_, hnot, hplan⟩⟩
    · rintro ⟨names, hcompile⟩
      rw [hplan] at hcompile
      cases hcompile
    · exact not_or.mpr ⟨htwo, fun hall => hnot (hall file hmem.1)⟩
    · intro f hf
      exact ((hname f (hmem.2 f hf)).mp (hbefore f hf)).resolve_left htwo

end Plan

def sourceDisk : Disk := .plant "/work" ["src/a/x.proto", "src/y.PROTO", "src/notes.txt"]

/-- The files below a directory that is written in a roundabout way, one of which an include
directory that is given holds too; and a file that only the directory that is given can name. -/
theorem sourceDisk_inputs_named :
    sourceDisk.Named ∧
    (∃ a names, plan "/work" sourceDisk
        ["--proto", "./src/../src/", "--out", "gen", "-I", "src/a", "-I", ""] =
      .compile ⟨a, "/work", ["./src/../src/a/x.proto", "./src/../src/y.PROTO"],
        ["src/a", "./src/../src/"], names⟩) ∧
    ∃ a names, plan "/work" sourceDisk
        ["--proto", "//work/src/a/x.proto", "--out", "gen", "-I", "src"] =
      .compile ⟨a, "/work", ["//work/src/a/x.proto"], ["src", "//work/src/a"], names⟩ := by
  have hdisk : sourceDisk.Named := by decide +kernel
  refine ⟨hdisk, ?_, ?_⟩
  · have hfound : (sourceDisk.filesUnder "/work" "./src/../src/").filter isSchemaPath =
        ["./src/../src/a/x.proto", "./src/../src/y.PROTO"] := by decide +kernel
    have hfiles : inputs sourceDisk "/work" "./src/../src/" =
        ["./src/../src/a/x.proto", "./src/../src/y.PROTO"] := by
      rw [inputs, if_pos (by decide +kernel), schemaFiles, hfound]
      exact List.mergeSort_of_pairwise (by decide +kernel)
    have hnamed := inputs_named_unless_two_slashes "/work" sourceDisk
      ["--proto", "./src/../src/", "--out", "gen", "-I", "src/a", "-I", ""]
      ⟨some "./src/../src/", some "gen", {}, ["src/a", ""], false⟩ "./src/../src/" (by decide)
      hdisk (by decide +kernel) rfl (by simp [hfiles])
    obtain ⟨names, hplan⟩ := hnamed.1.mpr (Or.inl (by decide +kernel))
    have hincludes : distinct (["src/a", ""] ++ [home sourceDisk "/work" "./src/../src/"]) =
        ["src/a", "./src/../src/"] := by decide +kernel
    rw [hfiles, hincludes] at hplan
    exact ⟨_, names, hplan⟩
  · have hnamed := inputs_named_unless_two_slashes "/work" sourceDisk
      ["--proto", "//work/src/a/x.proto", "--out", "gen", "-I", "src"]
      ⟨some "//work/src/a/x.proto", some "gen", {}, ["src"], false⟩ "//work/src/a/x.proto"
      (by decide) hdisk (by decide +kernel) rfl (by decide +kernel)
    have hfiles : inputs sourceDisk "/work" "//work/src/a/x.proto" = ["//work/src/a/x.proto"] := by
      decide +kernel
    have hincludes : distinct (["src"] ++ [home sourceDisk "/work" "//work/src/a/x.proto"]) =
        ["src", "//work/src/a"] := by decide +kernel
    rw [hfiles, hincludes] at hnamed
    obtain ⟨names, hplan⟩ := hnamed.1.mpr <| Or.inr <| List.forall_mem_singleton.mpr
      ⟨"src", List.mem_cons_self, by decide, by decide +kernel, by decide +kernel⟩
    exact ⟨_, names, hplan⟩

/-- The path leads to a file that is there, and yet the run refuses it, since the only include
directory is the one that goes with it. -/
theorem doubledSlashes_input_refused :
    sourceDisk.Named ∧
    ((sourceDisk.walk [] (Text.split '/' "//work/src/a/x.proto")).toOption.bind sourceDisk.get?) =
      some (.file "") ∧
    let report := run "/work" sourceDisk "set" .notFound
      ["--proto", "//work/src/a/x.proto", "--out", "gen"]
    report.status = .ok 1 ∧ report.commands = [] ∧
      report.stderr = "FATAL: '//work/src/a/x.proto' is not under any include directory: " ++
        "//work/src/a\n" := by
  decide +kernel

end CommandLine

end ProtoStubs
