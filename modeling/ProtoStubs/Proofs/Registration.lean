import Mathlib.Data.List.Nodup
import Mathlib.Data.List.Pairwise
import ProtoStubs.Generation
import ProtoStubs.Proofs.Resolution

/-!
What registering a file can do. A file whose name is known changes nothing, and so does a file whose
module another file has. Any other file is admitted: it comes in at the end of the files, and the
names it declares are defined unless they are defined already. Hence the definition of a type is
always the first declaration in the first file that declares it.
-/

namespace ProtoStubs

theorem filter_eq_singleton_of_nodup {α : Type} (key : α → String) {l : List α} {a : α}
    (hnodup : (l.map key).Nodup) (ha : a ∈ l) : l.filter (key · = key a) = [a] := by
  induction l with
  | nil => simp at ha
  | cons x rest ih =>
    rw [List.map_cons, List.nodup_cons] at hnodup
    rcases List.mem_cons.mp ha with rfl | ha
    · have hrest : rest.filter (key · = key a) = [] := by
        simp only [List.filter_eq_nil_iff, decide_eq_true_eq]
        exact fun y hy heq => hnodup.1 (heq ▸ List.mem_map_of_mem hy)
      rw [List.filter_cons_of_pos (by simp), hrest]
    · have hne : key x ≠ key a := fun h => hnodup.1 (h ▸ List.mem_map_of_mem ha)
      rw [List.filter_cons_of_neg (by simpa using hne)]
      exact ih hnodup.2 ha

theorem find?_eq_some_of_nodup {α : Type} (key : α → String) {l : List α} {a : α}
    (hnodup : (l.map key).Nodup) (ha : a ∈ l) : l.find? (key · == key a) = some a := by
  have hfirst := congrArg List.head? (filter_eq_singleton_of_nodup key hnodup ha)
  simpa only [List.head?_filter, List.head?_cons, beq_eq_decide] using hfirst

namespace SchemaFile

def definitionOf (f : SchemaFile) (e : Declared) : Definition :=
  ⟨e.fullName, f.name, e.flatName, f.modulePath⟩

def definition? (f : SchemaFile) (t : String) : Option Definition :=
  (f.declared.find? (·.fullName == t)).map f.definitionOf

theorem definition?_eq_some {f : SchemaFile} {t : String} {d : Definition}
    (h : f.definition? t = some d) :
    ∃ e ∈ f.declared, e.fullName = t ∧ d = f.definitionOf e := by
  obtain ⟨e, he, hd⟩ := Option.map_eq_some_iff.mp h
  exact ⟨e, List.mem_of_find?_eq_some he, by simpa using List.find?_some he, hd.symm⟩

end SchemaFile

namespace Context

variable {c c' : Context} {f : SchemaFile} {user t : String} {d : Definition}

theorem definition?_define (c : Context) (f : SchemaFile) (e : Declared) (t : String) :
    (c.define f e).definition? t =
      (c.definition? t).or (if e.fullName = t then some (f.definitionOf e) else none) := by
  simp only [definition?, define, List.find?_append]
  by_cases h : e.fullName = t <;> simp [h, SchemaFile.definitionOf]

theorem definition?_defineAll (c : Context) (f : SchemaFile) (es : List Declared) (t : String) :
    (c.defineAll f es).definition? t =
      (c.definition? t).or ((es.find? (·.fullName == t)).map f.definitionOf) := by
  induction es generalizing c with
  | nil => simp [defineAll]
  | cons e rest ih =>
    rw [defineAll]
    by_cases h : e.fullName = t
    · subst h
      rw [List.find?_cons_of_pos (by simp), Option.map_some]
      cases hd : c.definition? e.fullName with
      | some d => simp [ih, hd]
      | none => simp [ih, definition?_define, hd]
    · rw [List.find?_cons_of_neg (by simpa using h)]
      cases c.definition? e.fullName with
      | some d => exact ih c
      | none => simp [ih, definition?_define, h]

theorem defineAll_eq (c : Context) (f : SchemaFile) (es : List Declared) :
    c.defineAll f es = { c with definitions := (c.defineAll f es).definitions } := by
  induction es generalizing c with
  | nil => rfl
  | cons e rest ih =>
    rw [defineAll]
    cases c.definition? e.fullName with
    | some d => exact ih c
    | none => exact ih (c.define f e)

theorem mem_definitions_defineAll {es : List Declared}
    (h : d ∈ (c.defineAll f es).definitions) :
    d ∈ c.definitions ∨ ∃ e ∈ es, d = f.definitionOf e := by
  induction es generalizing c with
  | nil => exact Or.inl h
  | cons e rest ih =>
    rw [defineAll] at h
    cases hd : c.definition? e.fullName with
    | some d' =>
      rw [hd] at h
      rcases ih h with hold | ⟨e', he', heq⟩
      · exact Or.inl hold
      · exact Or.inr ⟨e', List.mem_cons_of_mem e he', heq⟩
    | none =>
      rw [hd] at h
      rcases ih h with hold | ⟨e', he', heq⟩
      · rcases List.mem_append.mp hold with hold | hnew
        · exact Or.inl hold
        · exact Or.inr ⟨e, List.mem_cons_self, List.mem_singleton.mp hnew⟩
      · exact Or.inr ⟨e', List.mem_cons_of_mem e he', heq⟩

theorem nodup_defineAll {es : List Declared} (h : (c.definitions.map (·.fullName)).Nodup) :
    ((c.defineAll f es).definitions.map (·.fullName)).Nodup := by
  induction es generalizing c with
  | nil => exact h
  | cons e rest ih =>
    rw [defineAll]
    cases hd : c.definition? e.fullName with
    | some d => exact ih h
    | none =>
      have hnew : ∀ d ∈ c.definitions, d.fullName ≠ e.fullName := by
        intro d hd'
        simpa using List.find?_eq_none.mp hd d hd'
      apply ih
      simp only [define, List.map_append, List.map_cons, List.map_nil]
      rw [List.nodup_append]
      refine ⟨h, List.nodup_singleton _, ?_⟩
      intro name hname name' hname'
      obtain ⟨d, hd', rfl⟩ := List.mem_map.mp hname
      rw [List.mem_singleton.mp hname']
      exact hnew d hd'

def enroll (c : Context) (f : SchemaFile) : Context := (c.addFile f).defineAll f f.declared

/-- Neither the name nor the module of the file is there already. -/
structure Admits (c : Context) (f : SchemaFile) : Prop where
  name : c.file? f.name = none
  path : ∀ g ∈ c.files, g.modulePath ≠ f.modulePath

theorem enroll_eq (c : Context) (f : SchemaFile) :
    c.enroll f = { c with
      files := c.files ++ [f]
      definitions := (c.enroll f).definitions } :=
  defineAll_eq (c.addFile f) f f.declared

theorem files_enroll (c : Context) (f : SchemaFile) : (c.enroll f).files = c.files ++ [f] := by
  rw [enroll_eq]

theorem bindings_enroll (c : Context) (f : SchemaFile) : (c.enroll f).bindings = c.bindings := by
  rw [enroll_eq]

theorem directory_enroll (c : Context) (f : SchemaFile) :
    (c.enroll f).directory = c.directory := by
  rw [enroll_eq]

theorem bindingsOf_enroll (c : Context) (f : SchemaFile) (user : String) :
    (c.enroll f).bindingsOf user = c.bindingsOf user := by
  rw [bindingsOf, bindings_enroll, bindingsOf]

theorem definition?_enroll (c : Context) (f : SchemaFile) (t : String) :
    (c.enroll f).definition? t = (c.definition? t).or (f.definition? t) :=
  definition?_defineAll (c.addFile f) f f.declared t

theorem file?_enroll (c : Context) (f : SchemaFile) (name : String) :
    (c.enroll f).file? name = (c.file? name).or (if f.name = name then some f else none) := by
  rw [file?, files_enroll, List.find?_append, file?]
  by_cases h : f.name = name <;> simp [h]

end Context

namespace Step

open Context

variable {c : Context} {f : SchemaFile}

theorem register_known (h : c.file? f.name ≠ none) :
    (register f).run c = ⟨⟨.ok (), []⟩, c⟩ := by
  have hsome := Option.isSome_iff_ne_none.mpr h
  simp [run, register, hsome]

theorem register_admits (h : c.Admits f) :
    ((register f).run c).result = .ok () ∧ ((register f).run c).context = c.enroll f := by
  have hpath : c.files.find? (·.modulePath == f.modulePath) = none := by
    apply List.find?_eq_none.mpr
    intro g hg
    simpa using h.path g hg
  constructor <;> simp [run, register, h.name, hpath, enroll]

/-- A file that is not known and not admitted has the module of another one. -/
theorem register_collides (hname : c.file? f.name = none) (h : ¬ c.Admits f) :
    ∃ g ∈ c.files, g.modulePath = f.modulePath ∧
      (register f).run c = ⟨⟨.error (.moduleCollision g.name f.name f.modulePath), []⟩, c⟩ := by
  cases hg : c.files.find? (·.modulePath == f.modulePath) with
  | none =>
    refine (h ⟨hname, ?_⟩).elim
    intro g hmem
    simpa using List.find?_eq_none.mp hg g hmem
  | some g =>
    refine ⟨g, List.mem_of_find?_eq_some hg, by simpa using List.find?_some hg, ?_⟩
    simp [run, register, hname, hg]

/-- Registering leaves the context as it is, or admits the file. -/
theorem register_cases (c : Context) (f : SchemaFile) :
    ((register f).run c).context = c ∨
      c.Admits f ∧ ((register f).run c).context = c.enroll f := by
  by_cases hname : c.file? f.name = none
  · by_cases hadmits : c.Admits f
    · exact Or.inr ⟨hadmits, (register_admits hadmits).2⟩
    · obtain ⟨g, _, _, hrun⟩ := register_collides hname hadmits
      exact Or.inl (by rw [hrun])
  · exact Or.inl (by rw [register_known hname])

theorem register_frame (c : Context) (f : SchemaFile) :
    ((register f).run c).context.directory = c.directory ∧
      ((register f).run c).context.bindings = c.bindings := by
  rcases register_cases c f with hsame | ⟨_, henroll⟩
  · rw [hsame]
    exact ⟨rfl, rfl⟩
  · rw [henroll]
    exact ⟨directory_enroll c f, bindings_enroll c f⟩

theorem register_ok (h : ((register f).run c).result = .ok ()) :
    c.file? f.name ≠ none ∨ c.Admits f := by
  by_cases hname : c.file? f.name = none
  · by_cases hadmits : c.Admits f
    · exact Or.inr hadmits
    · obtain ⟨g, _, _, hrun⟩ := register_collides hname hadmits
      simp [hrun] at h
  · exact Or.inl hname

/-- What every registration preserves holds after all of them. -/
theorem registerAll_preserves {P : Context → Prop}
    (hstep : ∀ c f, P c → P ((register f).run c).context) (files : List SchemaFile)
    {c : Context} (hc : P c) : P ((registerAll files).run c).context := by
  induction files generalizing c with
  | nil => exact hc
  | cons f rest ih =>
    change P (after ((register f).run c) fun _ => registerAll rest).context
    cases hr : ((register f).run c).result with
    | error fault =>
      rw [after_error _ hr]
      exact hstep c f hc
    | ok _ =>
      rw [after_ok _ hr]
      exact ih (hstep c f hc)

/-- Where all files are registered, a name stands for the first file that has it. -/
theorem file?_registerAll {files : List SchemaFile}
    (h : ((registerAll files).run c).result = .ok ()) (name : String) :
    ((registerAll files).run c).context.file? name =
      (c.file? name).or (files.find? (·.name == name)) := by
  induction files generalizing c with
  | nil => simp [registerAll]
  | cons f rest ih =>
    have hcons : (registerAll (f :: rest)).run c =
      after ((register f).run c) fun _ => registerAll rest := rfl
    rw [hcons] at h ⊢
    cases hr : ((register f).run c).result with
    | error fault => simp [after_error _ hr] at h
    | ok _ =>
      rw [after_ok _ hr] at h ⊢
      rw [ih h]
      rcases register_ok hr with hknown | hadmits
      · rw [register_known hknown]
        by_cases hf : f.name = name
        · subst hf
          obtain ⟨g, hg⟩ := Option.ne_none_iff_exists'.mp hknown
          simp [hg]
        · rw [List.find?_cons_of_neg (by simpa using hf)]
      · rw [(register_admits hadmits).2, file?_enroll, Option.or_assoc]
        by_cases hf : f.name = name
        · rw [List.find?_cons_of_pos (by simpa using hf)]
          simp [hf]
        · rw [List.find?_cons_of_neg (by simpa using hf)]
          simp [hf]

end Step

namespace Context

/-- Files have names and modules of their own, and the definition of a type is the first that a
file gives. -/
structure Orderly (c : Context) : Prop where
  names : (c.files.map (·.name)).Nodup
  paths : (c.files.map (·.modulePath)).Nodup
  unique : (c.definitions.map (·.fullName)).Nodup
  first : ∀ t, c.definition? t = c.files.findSome? (·.definition? t)

namespace Orderly

variable {c c' : Context} {f : SchemaFile} {user t : String} {d : Definition}

theorem start (directory : String) : Orderly { directory := directory } where
  names := List.nodup_nil
  paths := List.nodup_nil
  unique := List.nodup_nil
  first _ := rfl

theorem enroll (h : c.Orderly) (ha : c.Admits f) : (c.enroll f).Orderly where
  names := by
    rw [files_enroll, List.map_append, List.nodup_append]
    refine ⟨h.names, List.nodup_singleton _, ?_⟩
    intro name hname name' hname'
    obtain ⟨g, hg, rfl⟩ := List.mem_map.mp hname
    rw [List.mem_singleton.mp hname']
    simpa using List.find?_eq_none.mp ha.name g hg
  paths := by
    rw [files_enroll, List.map_append, List.nodup_append]
    refine ⟨h.paths, List.nodup_singleton _, ?_⟩
    intro path hpath path' hpath'
    obtain ⟨g, hg, rfl⟩ := List.mem_map.mp hpath
    rw [List.mem_singleton.mp hpath']
    exact ha.path g hg
  unique := nodup_defineAll h.unique
  first t := by
    rw [definition?_enroll, h.first, files_enroll, List.findSome?_append]
    simp

theorem gains (h : c.Orderly) (hg : c.Gains user c') : c'.Orderly where
  names := by rw [hg.files_eq]; exact h.names
  paths := by rw [hg.files_eq]; exact h.paths
  unique := by rw [hg.definitions_eq]; exact h.unique
  first t := by rw [hg.definition?_eq, hg.files_eq]; exact h.first t

theorem register (h : c.Orderly) (f : SchemaFile) :
    ((Step.register f).run c).context.Orderly := by
  rcases Step.register_cases c f with hsame | ⟨hadmits, henroll⟩
  · rw [hsame]
    exact h
  · rw [henroll]
    exact h.enroll hadmits

theorem definition?_of_mem (h : c.Orderly) (hd : d ∈ c.definitions) :
    c.definition? d.fullName = some d :=
  find?_eq_some_of_nodup Definition.fullName h.unique hd

theorem file?_of_mem (h : c.Orderly) (hf : f ∈ c.files) : c.file? f.name = some f :=
  find?_eq_some_of_nodup SchemaFile.name h.names hf

/-- A definition is one that a registered file gives. -/
theorem exists_file (h : c.Orderly) (hd : c.definition? t = some d) :
    ∃ g ∈ c.files, g.definition? t = some d := by
  rw [h.first] at hd
  exact List.exists_of_findSome?_eq_some hd

end Orderly

end Context

def SeparateTypes (files : List SchemaFile) : Prop :=
  ∀ f ∈ files, ∀ g ∈ files, ∀ d ∈ f.declared, ∀ e ∈ g.declared,
    d.fullName = e.fullName → f.name = g.name

instance (files : List SchemaFile) : Decidable (SeparateTypes files) :=
  inferInstanceAs (Decidable (∀ f ∈ files, ∀ g ∈ files, ∀ d ∈ f.declared, ∀ e ∈ g.declared,
    d.fullName = e.fullName → f.name = g.name))

theorem SeparateTypes.mono {small large : List SchemaFile} (h : SeparateTypes large)
    (hsub : small ⊆ large) : SeparateTypes small :=
  fun f hf g hg => h f (hsub hf) g (hsub hg)

section Distinct

variable {files : List SchemaFile}
  (hdistinct : ((files.flatMap (·.declared)).map (·.fullName)).Nodup)

include hdistinct

theorem nodup_declared {f : SchemaFile} (hf : f ∈ files) :
    (f.declared.map (·.fullName)).Nodup := by
  rw [List.map_flatMap, List.nodup_flatMap] at hdistinct
  exact hdistinct.1 f hf

theorem separateTypes_of_nodup : SeparateTypes files := by
  rw [List.map_flatMap, List.nodup_flatMap] at hdistinct
  intro f hf g hg d hd e he hname
  by_contra hne
  have hsymm : Std.Symm (Function.onFun List.Disjoint
      fun f : SchemaFile => f.declared.map (·.fullName)) := ⟨fun _ _ h _ hb ha => h ha hb⟩
  have hfg : f ≠ g := fun h => hne (congrArg SchemaFile.name h)
  have hdisjoint := hdistinct.2.forall hf hg hfg
  exact hdisjoint (List.mem_map_of_mem hd) (hname ▸ List.mem_map_of_mem he)

end Distinct

/-- A file that declares a type defines it, if no other file declares it. -/
theorem Context.Orderly.definition?_eq {c : Context} {g : SchemaFile} {t : String}
    {d : Definition} (h : c.Orderly) (hseparate : SeparateTypes c.files) (hg : g ∈ c.files)
    (hd : g.definition? t = some d) : c.definition? t = some d := by
  have hpart : (c.files.findSome? (·.definition? t)).isSome := by
    rw [List.findSome?_isSome_iff]
    exact ⟨g, hg, by simp [hd]⟩
  obtain ⟨d', hd'⟩ := Option.isSome_iff_exists.mp hpart
  rw [← h.first] at hd'
  obtain ⟨g', hg', hgd'⟩ := h.exists_file hd'
  obtain ⟨e, he, het, _⟩ := SchemaFile.definition?_eq_some hd
  obtain ⟨e', he', het', _⟩ := SchemaFile.definition?_eq_some hgd'
  have hname := hseparate g hg g' hg' e he e' he' (het.trans het'.symm)
  obtain rfl : g = g' := List.inj_on_of_nodup_map h.names hg hg' hname
  rw [hd', ← hgd', hd]

/-- A file defines what it declares, if no name is declared twice. -/
theorem Context.Orderly.definitionOf_mem {c : Context} {f : SchemaFile} {e : Declared}
    (h : c.Orderly) (hseparate : SeparateTypes c.files) (hf : f ∈ c.files)
    (hnodup : (f.declared.map (·.fullName)).Nodup) (he : e ∈ f.declared) :
    f.definitionOf e ∈ c.definitions := by
  have hd : f.definition? e.fullName = some (f.definitionOf e) := by
    rw [SchemaFile.definition?, find?_eq_some_of_nodup Declared.fullName hnodup he,
      Option.map_some]
  exact Context.mem_of_definition? (h.definition?_eq hseparate hf hd)

def registered (directory : String) (files : List SchemaFile) : Context :=
  ((Step.registerAll files).run { directory := directory }).context

theorem registered_orderly (directory : String) (files : List SchemaFile) :
    (registered directory files).Orderly :=
  Step.registerAll_preserves (fun _ f h => h.register f) files (Context.Orderly.start directory)

theorem registered_frame (directory : String) (files : List SchemaFile) :
    (registered directory files).directory = directory ∧
      (registered directory files).bindings = [] := by
  apply Step.registerAll_preserves (P := fun c => c.directory = directory ∧ c.bindings = []) _
    files ⟨rfl, rfl⟩
  rintro c f ⟨hdirectory, hbindings⟩
  obtain ⟨hd, hb⟩ := Step.register_frame c f
  exact ⟨hd.trans hdirectory, hb.trans hbindings⟩

theorem registered_bindingsOf (directory : String) (files : List SchemaFile) (user : String) :
    (registered directory files).bindingsOf user = [] := by
  rw [Context.bindingsOf, (registered_frame directory files).2, List.filter_nil]

theorem file?_registered {directory : String} {files : List SchemaFile}
    (h : ((Step.registerAll files).start directory).result = .ok ()) (name : String) :
    (registered directory files).file? name = files.find? (·.name == name) := by
  rw [registered, Step.file?_registerAll h]
  rfl

theorem files_registered_subset {directory : String} {files : List SchemaFile}
    (h : ((Step.registerAll files).start directory).result = .ok ()) :
    (registered directory files).files ⊆ files := by
  intro f hf
  have hfile := (registered_orderly directory files).file?_of_mem hf
  exact List.mem_of_find?_eq_some ((file?_registered h f.name).symm.trans hfile)

def userFile (package : String) : SchemaFile :=
  { name := package ++ ".proto", package := package, messages := [{ name := "User" }] }

/-- A file that uses two types with one flat name, one of them in a map, and has the first numbered
name itself. -/
def holderFile : SchemaFile :=
  { name := "c.proto"
    package := "c.d"
    messages := [
      { name := "Holder"
        fields := [
          { name := "x", kind := .member .message, typeName := ".a.User" },
          { name := "y", kind := .member .message, typeName := ".c.d.Holder.YEntry" },
          { name := "z", kind := .member .message, typeName := ".c.d.User_1" }]
        nested := [
          { name := "YEntry"
            fields := [{ name := "key" },
              { name := "value", kind := .member .message, typeName := ".b.User" }]
            mapEntry := true }] },
      { name := "User_1" }] }

def clashingFiles : List SchemaFile := [userFile "a", userFile "b", holderFile]

end ProtoStubs
