import ProtoStubs.Proofs.Paths
import ProtoStubs.Proofs.Registration
import ProtoStubs.Proofs.Scopes

/-!
Full names tell the types of a file apart. A full name has a dot in front of each name of a path, so
the path can be read off it once the package is known, provided that no name is empty or has a dot
in it. Hence, where the names in each scope are distinct, a file declares no type twice. Registered
where none of its types is defined, it defines them all without a note, and each goes by its own
flat name in the file.
-/

namespace ProtoStubs

section FullName

variable {package : String} {p q : List String}

theorem fullName_eq (package : String) (hp : "" ∉ p) :
    fullName package p = "." ++ ".".intercalate (if package = "" then p else package :: p) := by
  have hnames : p.filter (· ≠ "") = p := by
    rw [List.filter_eq_self]
    intro n hn
    exact decide_eq_true fun hempty => hp (hempty ▸ hn)
  rw [fullName, List.filter_cons, hnames]
  by_cases hpackage : package = "" <;> simp [hpackage]

/-- The package comes first in a full name, and then the names of the path. -/
theorem intercalate_of_fullName (hp : "" ∉ p) (hq : "" ∉ q) (hpne : p ≠ []) (hqne : q ≠ [])
    (h : fullName package p = fullName package q) : ".".intercalate p = ".".intercalate q := by
  rw [fullName_eq package hp, fullName_eq package hq, String.append_right_inj] at h
  by_cases hpackage : package = ""
  · rwa [if_pos hpackage, if_pos hpackage] at h
  · rw [if_neg hpackage, if_neg hpackage, String.intercalate_cons_of_ne_nil hpne,
      String.intercalate_cons_of_ne_nil hqne, String.append_right_inj] at h
    exact h

/-- Paths of names without dots have full names of their own. -/
theorem eq_of_fullName (hp : ∀ n ∈ p, n ≠ "" ∧ '.' ∉ n.toList)
    (hq : ∀ n ∈ q, n ≠ "" ∧ '.' ∉ n.toList) (hpne : p ≠ []) (hqne : q ≠ [])
    (h : fullName package p = fullName package q) : p = q := by
  have hjoined : ".".intercalate p = ".".intercalate q :=
    intercalate_of_fullName (fun hmem => (hp "" hmem).1 rfl) (fun hmem => (hq "" hmem).1 rfl)
      hpne hqne h
  have hpieces := congrArg (Text.split '.') hjoined
  rw [Text.split_intercalate_of rfl (fun n hn => (hp n hn).2) hpne,
    Text.split_intercalate_of rfl (fun n hn => (hq n hn).2) hqne] at hpieces
  exact hpieces

end FullName

namespace SchemaFile

variable {f : SchemaFile}

def DotFree (f : SchemaFile) : Prop :=
  ∀ s ∈ f.scopes, ∀ n ∈ s.names fun _ => true, '.' ∉ n.toList

instance (f : SchemaFile) : Decidable f.DotFree :=
  inferInstanceAs (Decidable (∀ s ∈ f.scopes, ∀ n ∈ s.names fun _ => true, '.' ∉ n.toList))

theorem ne_nil_of_mem_paths {p : List String} (h : p ∈ f.paths) : p ≠ [] := by
  obtain ⟨s, _, hp⟩ := List.mem_flatMap.mp h
  obtain ⟨name, _, rfl⟩ := List.mem_map.mp hp
  exact List.append_ne_nil_of_right_ne_nil _ (List.cons_ne_nil name [])

/-- A file declares no full name twice. -/
theorem WellNamed.nodup_fullNames (h : f.WellNamed) (hdots : f.DotFree) :
    (f.declared.map (·.fullName)).Nodup := by
  have hnames : ∀ p ∈ f.paths, ∀ n ∈ p, n ≠ "" ∧ '.' ∉ n.toList := by
    intro p hp
    refine of_mem_pathsOf (fun s hs n hn => ⟨?_, hdots s hs n hn⟩) hp
    rintro rfl
    exact (h s hs).nonempty hn
  have hdistinct : (f.paths.map (fullName f.package)).Nodup := by
    refine (h.nodup_pathsOf _).map_on fun p hp q hq heq => ?_
    exact eq_of_fullName (hnames p hp) (hnames q hq) (ne_nil_of_mem_paths hp)
      (ne_nil_of_mem_paths hq) heq
  have hperm := f.declared_perm.map (·.fullName)
  rw [List.map_map] at hperm
  exact hperm.nodup_iff.mpr hdistinct

end SchemaFile

section Registering

open Context

variable {c : Context} {f : SchemaFile}

/-- Nothing is noted of types that are not defined and not declared twice. -/
theorem Context.duplicates_eq_nil {es : List Declared} (hnodup : (es.map (·.fullName)).Nodup)
    (hnew : ∀ e ∈ es, c.definition? e.fullName = none) : c.duplicates f es = [] := by
  induction es generalizing c with
  | nil => rfl
  | cons e rest ih =>
    obtain ⟨he, hrest⟩ := List.forall_mem_cons.mp hnew
    rw [List.map_cons, List.nodup_cons] at hnodup
    simp only [duplicates, he]
    refine ih hnodup.2 fun e' he' => ?_
    -- Entering one type defines none of the others.
    have hne : e.fullName ≠ e'.fullName := fun heq => hnodup.1 (heq ▸ List.mem_map_of_mem he')
    rw [definition?_define, hrest e' he', if_neg hne, Option.or_none]

/-- A file whose types are new is registered without a note. -/
theorem Step.notes_register (h : c.Admits f) (hnodup : (f.declared.map (·.fullName)).Nodup)
    (hnew : ∀ e ∈ f.declared, c.definition? e.fullName = none) :
    ((register f).run c).notes = [] := by
  have hpath : c.files.find? (·.modulePath == f.modulePath) = none := by
    rw [List.find?_eq_none]
    intro g hg
    simpa using h.path g hg
  have hnone : (c.addFile f).duplicates f f.declared = [] := duplicates_eq_nil hnodup hnew
  simp [run, register, h.name, hpath, hnone]

/-- A type that a file declares, once and before others, goes by its flat name in the file. -/
theorem Step.resolve_declared {e : Declared} (hnodup : (f.declared.map (·.fullName)).Nodup)
    (he : e ∈ f.declared) (hnew : c.definition? e.fullName = none) :
    (resolve e.fullName f.name).run (c.enroll f) = ⟨⟨.ok e.flatName, []⟩, c.enroll f⟩ := by
  have hdefined : (c.enroll f).definition? e.fullName = some (f.definitionOf e) := by
    rw [definition?_enroll, hnew, Option.none_or, SchemaFile.definition?,
      find?_eq_some_of_nodup Declared.fullName hnodup he, Option.map_some]
  apply resolve_settled
  simp [symbolFor?, hdefined, SchemaFile.definitionOf]

end Registering

/-- Let the names in each scope of a file be distinct, not empty and without dots. Then the file
declares no full name twice. Registered under a new name and with a new module, where none of its
types is defined, it leaves no note, and each type it declares is resolved, for the file itself, to
its own flat name. -/
theorem full_names_distinct (f : SchemaFile) (hf : f.WellNamed) (hdots : f.DotFree) :
    (f.declared.map (·.fullName)).Nodup ∧
    ∀ c : Context, c.file? f.name = none → (∀ g ∈ c.files, g.modulePath ≠ f.modulePath) →
      (∀ e ∈ f.declared, c.definition? e.fullName = none) →
      let outcome := (Step.register f).run c
      outcome.result = .ok () ∧ outcome.notes = [] ∧
      ∀ e ∈ f.declared, (Step.resolve e.fullName f.name).run outcome.context =
        ⟨⟨.ok e.flatName, []⟩, outcome.context⟩ := by
  have hnodup := hf.nodup_fullNames hdots
  refine ⟨hnodup, ?_⟩
  intro c hname hpath hnew outcome
  have hadmits : c.Admits f := ⟨hname, hpath⟩
  obtain ⟨hresult, hcontext⟩ : outcome.result = .ok () ∧ outcome.context = c.enroll f :=
    Step.register_admits hadmits
  refine ⟨hresult, Step.notes_register hadmits hnodup hnew, ?_⟩
  intro e he
  rw [hcontext]
  exact Step.resolve_declared hnodup he (hnew e he)

/-- A file whose names come up again at other depths, one of them as the name of a map entry. -/
def treeFile : SchemaFile :=
  { name := "tree.proto"
    package := "a..b"
    messages := [
      { name := "A"
        nested := [{ name := "A", enums := [{ name := "E" }] }, { name := "E", mapEntry := true }]
        enums := [{ name := "E" }] }]
    enums := [{ name := "E" }] }

theorem treeFile_full_names :
    treeFile.WellNamed ∧ treeFile.DotFree ∧
    treeFile.declared.map (·.fullName) =
      [".a..b.E", ".a..b.A", ".a..b.A.A", ".a..b.A.A.E", ".a..b.A.E"] ∧
    (treeFile.declared.map (·.fullName)).Nodup ∧
    ((Step.register treeFile).run (registered "/" [userFile "a"])).notes = [] ∧
    ((Step.resolve ".a..b.A.A.E" "tree.proto").run
      ((Step.register treeFile).run (registered "/" [userFile "a"])).context).result =
        .ok "AAE" := by
  have hwell : treeFile.WellNamed := by decide +kernel
  have hdots : treeFile.DotFree := by decide +kernel
  obtain ⟨hnodup, hcontexts⟩ := full_names_distinct treeFile hwell hdots
  obtain ⟨_, hnotes, hresolved⟩ := hcontexts (registered "/" [userFile "a"]) rfl
    (by decide +kernel) (by decide +kernel)
  have hmem : (⟨".a..b.A.A.E", "AAE"⟩ : Declared) ∈ treeFile.declared := by decide +kernel
  refine ⟨hwell, hdots, by decide +kernel, hnodup, hnotes, ?_⟩
  exact congrArg (·.result) (hresolved _ hmem)

end ProtoStubs
