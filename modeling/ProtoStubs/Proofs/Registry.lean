import ProtoStubs.Proofs.Calls
import ProtoStubs.Proofs.Imports
import ProtoStubs.Proofs.Scopes

/-!
What a session knows of files and types depends only on the files that its calls offer, in their
order. A file gets in unless its name or its module is taken. A type is known if a file that got in
declares it, outside of map entries, and its definition is the first declaration in the first such
file. Nothing that is known is ever lost or changed. A file that does not get in leaves no trace.
-/

namespace ProtoStubs

def Call.offered? : Call → Option SchemaFile
  | .register f => some f
  | .module f _ => some f
  | _ => none

/-- One more file is offered. It gets in unless its name or its module is taken. -/
def accept (files : List SchemaFile) (f : SchemaFile) : List SchemaFile :=
  if f.name ∈ files.map (·.name) ∨ f.modulePath ∈ files.map (·.modulePath) then files
  else files ++ [f]

def accepted (offers : List SchemaFile) : List SchemaFile := offers.foldl accept []

namespace Message

variable {package : String} {scope : List String} {ms : List Message} {e : Declared}

/-- Messages declare those among them that are reached, with the enumerations in these. -/
theorem mem_declaredIn :
    e ∈ declaredIn package scope ms ↔ ∃ inner m, Reached scope ms inner m ∧
      (e = .ofPath package (inner ++ [m.name]) ∨
        ∃ d ∈ m.enums, e = .ofPath package (inner ++ [m.name] ++ [d.name])) := by
  induction ms using nested_induction generalizing scope with
  | step ms ih =>
    rw [declaredIn_eq]
    simp only [List.mem_flatMap, List.mem_cons, List.mem_append, List.mem_map, ordinaryIn,
      List.mem_filter, Bool.not_eq_true']
    constructor
    · rintro ⟨m, ⟨hm, hentry⟩, rfl | hnested | ⟨d, hd, rfl⟩⟩
      · exact ⟨scope, m, .here hm hentry, Or.inl rfl⟩
      · obtain ⟨inner, m', hreached, he⟩ := (ih m hm).mp hnested
        exact ⟨inner, m', .nested hm hentry hreached, he⟩
      · exact ⟨scope, m, .here hm hentry, Or.inr ⟨d, hd, rfl⟩⟩
    · rintro ⟨inner, m', hreached, he⟩
      cases hreached with
      | here hm hentry =>
        refine ⟨m', ⟨hm, hentry⟩, ?_⟩
        rcases he with rfl | ⟨d, hd, rfl⟩
        · exact Or.inl rfl
        · exact Or.inr (Or.inr ⟨d, hd, rfl⟩)
      | @nested _ _ _ m _ hm hentry hreached =>
        exact ⟨m, ⟨hm, hentry⟩, Or.inr (Or.inl ((ih m hm).mpr ⟨inner, m', hreached, he⟩))⟩

end Message

namespace SchemaFile

variable {f : SchemaFile}

/-- The file has a type with this path. Map entries, and what is nested in them, are no types. -/
inductive Declares (f : SchemaFile) : List String → Prop
  | enum {e : EnumDef} (he : e ∈ f.enums) : Declares f [e.name]
  | message {scope : List String} {m : Message} (hm : Message.Reached [] f.messages scope m) :
      Declares f (scope ++ [m.name])
  | nestedEnum {scope : List String} {m : Message} {e : EnumDef}
      (hm : Message.Reached [] f.messages scope m) (he : e ∈ m.enums) :
      Declares f (scope ++ [m.name] ++ [e.name])

theorem mem_declared_iff {e : Declared} :
    e ∈ f.declared ↔ ∃ path, f.Declares path ∧ e = .ofPath f.package path := by
  rw [declared, List.mem_append, Message.mem_declaredIn, List.mem_map]
  constructor
  · rintro (⟨d, hd, rfl⟩ | ⟨scope, m, hm, rfl | ⟨d, hd, rfl⟩⟩)
    · exact ⟨_, .enum hd, rfl⟩
    · exact ⟨_, .message hm, rfl⟩
    · exact ⟨_, .nestedEnum hm hd, rfl⟩
  · rintro ⟨path, hpath, rfl⟩
    cases hpath with
    | enum hd => exact Or.inl ⟨_, hd, rfl⟩
    | message hm => exact Or.inr ⟨_, _, hm, Or.inl rfl⟩
    | nestedEnum hm hd => exact Or.inr ⟨_, _, hm, Or.inr ⟨_, hd, rfl⟩⟩

end SchemaFile

/-- The definition is the first declaration of the type in the first file that declares it. -/
def FirstDeclared (files : List SchemaFile) (t : String) (d : Definition) : Prop :=
  ∃ before f after earlier e later,
    files = before ++ f :: after ∧ (∀ g ∈ before, ∀ e' ∈ g.declared, e'.fullName ≠ t) ∧
    f.declared = earlier ++ e :: later ∧ (∀ e' ∈ earlier, e'.fullName ≠ t) ∧
    e.fullName = t ∧ d = ⟨t, f.name, e.flatName, f.modulePath⟩

namespace SchemaFile

variable {f : SchemaFile} {t : String} {d : Definition}

theorem definition?_eq_none_iff : f.definition? t = none ↔ ∀ e ∈ f.declared, e.fullName ≠ t := by
  simp [definition?]

theorem definition?_eq_some_iff :
    f.definition? t = some d ↔ ∃ earlier e later,
      f.declared = earlier ++ e :: later ∧ (∀ e' ∈ earlier, e'.fullName ≠ t) ∧
      e.fullName = t ∧ d = ⟨t, f.name, e.flatName, f.modulePath⟩ := by
  simp only [definition?, Option.map_eq_some_iff, List.find?_eq_some_iff_append]
  constructor
  · rintro ⟨e, ⟨hname, earlier, later, hsplit, hearlier⟩, rfl⟩
    obtain rfl : e.fullName = t := by simpa using hname
    exact ⟨earlier, e, later, hsplit, by simpa using hearlier, rfl, rfl⟩
  · rintro ⟨earlier, e, later, hsplit, hearlier, rfl, rfl⟩
    exact ⟨e, ⟨by simp, earlier, later, hsplit, by simpa using hearlier⟩, rfl⟩

end SchemaFile

theorem firstDeclared_iff {files : List SchemaFile} {t : String} {d : Definition} :
    FirstDeclared files t d ↔ files.findSome? (·.definition? t) = some d := by
  simp only [List.findSome?_eq_some_iff, SchemaFile.definition?_eq_some_iff,
    SchemaFile.definition?_eq_none_iff]
  constructor
  · rintro ⟨before, f, after, earlier, e, later, hfiles, hbefore, hdeclared⟩
    exact ⟨before, f, after, hfiles, ⟨earlier, e, later, hdeclared⟩, hbefore⟩
  · rintro ⟨before, f, after, hfiles, ⟨earlier, e, later, hdeclared⟩, hbefore⟩
    exact ⟨before, f, after, earlier, e, later, hfiles, hbefore, hdeclared⟩

namespace Context

variable {c : Context} {f : SchemaFile}

theorem admits_iff : c.Admits f ↔
    ¬(f.name ∈ c.files.map (·.name) ∨ f.modulePath ∈ c.files.map (·.modulePath)) := by
  rw [not_or]
  constructor
  · intro h
    refine ⟨?_, ?_⟩
    · simpa [file?] using h.name
    · simpa using h.path
  · rintro ⟨hname, hpath⟩
    exact ⟨by simpa [file?] using hname, by simpa using hpath⟩

/-- A file that does not get in leaves no trace. -/
theorem register_unchanged (h : ¬ c.Admits f) : ((Step.register f).run c).context = c :=
  (Step.register_cases c f).resolve_right fun hadmitted => h hadmitted.1

/-- Registering a file is offering it. -/
theorem files_register (c : Context) (f : SchemaFile) :
    ((Step.register f).run c).context.files = accept c.files f := by
  by_cases hadmits : c.Admits f
  · rw [(Step.register_admits hadmits).2, files_enroll, accept, if_neg (admits_iff.mp hadmits)]
  · rw [register_unchanged hadmits, accept, if_pos (not_not.mp fun h => hadmits (admits_iff.mpr h))]

/-- A call offers at most one file, and otherwise leaves the files alone. -/
theorem files_perform (call : Call) (c : Context) :
    (call.perform.run c).context.files = (call.offered?.toList).foldl accept c.files := by
  have hfiles : (call.perform.run c).context.files = (call.registration c).files := by
    rcases Step.perform_context call c with hfirst | ⟨user, ds, _, hboth⟩
    · rw [hfirst]
    · rw [hboth, (Step.meetAll_gains _ user ds).files_eq]
  rw [hfiles]
  cases call with
  | register f => exact files_register c f
  | module f options => exact files_register c f
  | _ => rfl

theorem files_contextAfter (c : Context) (calls : List Call) :
    (contextAfter c calls).files = (calls.filterMap Call.offered?).foldl accept c.files := by
  induction calls generalizing c with
  | nil => rfl
  | cons call rest ih =>
    rw [contextAfter, ih, files_perform]
    cases h : call.offered? <;> simp [h]

/-- The context knows these files and no others, and of each type that they declare the first
declaration. -/
structure Registry (c : Context) (files : List SchemaFile) : Prop where
  paths : ∀ f ∈ files, ∀ g ∈ files, f.name ≠ g.name → f.modulePath ≠ g.modulePath
  file : ∀ n, c.file? n = files.find? (·.name == n)
  /-- Asking for a file gives the first of its name, and changes nothing. -/
  found : ∀ n f, files.find? (·.name == n) = some f → (Step.file n).run c = ⟨⟨.ok f, []⟩, c⟩
  missing : ∀ n, files.find? (·.name == n) = none →
    (Step.file n).run c = ⟨⟨.error (.unregisteredFile n), []⟩, c⟩
  defined : ∀ f ∈ files, ∀ e ∈ f.declared, ∃ d, c.definition? e.fullName = some d
  first : ∀ t d, c.definition? t = some d ↔ FirstDeclared files t d
  declared : ∀ d ∈ c.definitions, c.definition? d.fullName = some d ∧
    ∃ f ∈ files, ∃ path, f.Declares path ∧
      d = ⟨fullName f.package path, f.name, String.join path, f.modulePath⟩

theorem Orderly.registry (h : c.Orderly) : c.Registry c.files where
  paths f hf g hg hname hpath :=
    hname (congrArg SchemaFile.name (List.inj_on_of_nodup_map h.paths hf hg hpath))
  file _ := rfl
  found _ _ := Step.run_file_found
  missing _ := Step.run_file_missing
  defined f hf e he := by
    rw [h.first, ← Option.isSome_iff_exists, List.findSome?_isSome_iff]
    refine ⟨f, hf, ?_⟩
    rw [Option.isSome_iff_ne_none]
    exact fun hnone => SchemaFile.definition?_eq_none_iff.mp hnone e he rfl
  first t d := by rw [h.first, firstDeclared_iff]
  declared d hd := by
    have hself := h.definition?_of_mem hd
    obtain ⟨f, hf, hfd⟩ := h.exists_file hself
    obtain ⟨e, he, _, hdef⟩ := SchemaFile.definition?_eq_some hfd
    obtain ⟨path, hpath, rfl⟩ := SchemaFile.mem_declared_iff.mp he
    exact ⟨hself, f, hf, path, hpath, hdef⟩

/-- A file is refused exactly if its name is new and its module is that of another file. -/
theorem Orderly.register_error_iff (h : c.Orderly) {fault : Fault} :
    ((Step.register f).run c).result = .error fault ↔
      c.file? f.name = none ∧ ∃ g ∈ c.files, g.modulePath = f.modulePath ∧
        fault = .moduleCollision g.name f.name f.modulePath := by
  constructor
  · intro herror
    by_cases hname : c.file? f.name = none
    · by_cases hadmits : c.Admits f
      · simp [(Step.register_admits hadmits).1] at herror
      · obtain ⟨g, hg, hpath, hrun⟩ := Step.register_collides hname hadmits
        rw [hrun] at herror
        exact ⟨hname, g, hg, hpath, (Except.error.inj herror).symm⟩
    · simp [Step.register_known hname] at herror
  · rintro ⟨hname, g, hg, hpath, rfl⟩
    have hadmits : ¬ c.Admits f := fun hadmits => hadmits.path g hg hpath
    obtain ⟨g', hg', hpath', hrun⟩ := Step.register_collides hname hadmits
    obtain rfl : g = g' := List.inj_on_of_nodup_map h.paths hg hg' (hpath.trans hpath'.symm)
    rw [hrun]

end Context

/-- After any session, the context knows the files that got in, of those that were offered, and
their types. It goes on to know them alike, whatever calls follow. A file that is offered is refused
exactly if its name is new and its module is taken, and then, as if its name is taken, nothing
changes. -/
theorem registry_of_session (directory : String) (calls : List Call) :
    let c := contextAfter { directory := directory } calls
    c.Registry (accepted (calls.filterMap Call.offered?)) ∧
    (∀ more n f, ((Step.file n).run c).result = .ok f →
      ((Step.file n).run (contextAfter c more)).result = .ok f) ∧
    (∀ more t d, c.definition? t = some d → (contextAfter c more).definition? t = some d) ∧
    ∀ f,
      (∀ fault, ((Call.register f).perform.run c).result = .error fault ↔
        c.file? f.name = none ∧ ∃ g ∈ c.files, g.modulePath = f.modulePath ∧
          fault = .moduleCollision g.name f.name f.modulePath) ∧
      (c.file? f.name ≠ none ∨ (∃ fault, ((Call.register f).perform.run c).result = .error fault) →
        ((Call.register f).perform.run c).context = c) := by
  intro c
  have horderly : c.Orderly := (session_runs _ calls).orderly (Context.Orderly.start directory)
  have hfiles : c.files = accepted (calls.filterMap Call.offered?) :=
    Context.files_contextAfter { directory := directory } calls
  refine ⟨hfiles ▸ horderly.registry, ?_, ?_, ?_⟩
  · intro more n f hf
    exact Step.file_ok_iff.mpr ((session_runs c more).file?_eq (Step.file_ok_iff.mp hf))
  · intro more t d hd
    exact (session_runs c more).definition?_eq hd
  · intro f
    have hresult : ∀ fault, ((Call.register f).perform.run c).result = .error fault ↔
        ((Step.register f).run c).result = .error fault := by
      intro fault
      rw [Call.perform, Step.result_bind_pure]
      exact Step.map_eq_error_iff
    have hcontext : ((Call.register f).perform.run c).context =
        ((Step.register f).run c).context := Step.context_bind_pure _ _ c
    refine ⟨fun fault => (hresult fault).trans horderly.register_error_iff, ?_⟩
    intro hout
    rw [hcontext]
    apply Context.register_unchanged
    intro hadmits
    rcases hout with hknown | ⟨fault, herror⟩
    · exact hknown hadmits.name
    · obtain ⟨_, g, hg, hpath, _⟩ := horderly.register_error_iff.mp ((hresult fault).mp herror)
      exact hadmits.path g hg hpath

/-- A file, another one of its name, and one that has its module. -/
def rivalFiles : List SchemaFile :=
  [userFile "a", { userFile "a" with messages := [{ name := "Guest" }] },
    { userFile "a" with name := "copy/a.proto" }]

theorem rivalFiles_registry :
    let c := contextAfter {} (rivalFiles.map Call.register)
    c.Registry [userFile "a"] ∧
    (Step.file "a.proto").run c = ⟨⟨.ok (userFile "a"), []⟩, c⟩ ∧
    (Step.file "copy/a.proto").run c = ⟨⟨.error (.unregisteredFile "copy/a.proto"), []⟩, c⟩ ∧
    ((Call.register { userFile "a" with name := "copy/a.proto" }).perform.run c).result =
      .error (.moduleCollision "a.proto" "copy/a.proto" "a/a") ∧
    ∀ f ∈ rivalFiles, ((Call.register f).perform.run c).context = c := by
  intro c
  obtain ⟨hregistry, _, _, hregister⟩ := registry_of_session "/" (rivalFiles.map Call.register)
  have haccepted : accepted ((rivalFiles.map Call.register).filterMap Call.offered?) =
      [userFile "a"] := rfl
  rw [haccepted] at hregistry
  have hcollision :
      ((Call.register { userFile "a" with name := "copy/a.proto" }).perform.run c).result =
        .error (.moduleCollision "a.proto" "copy/a.proto" "a/a") := rfl
  have hknown : c.file? "a.proto" ≠ none := by
    rw [hregistry.file]
    decide
  refine ⟨hregistry, hregistry.found _ _ rfl, hregistry.missing _ rfl, hcollision, ?_⟩
  intro f hf
  apply (hregister f).2
  rcases List.mem_cons.mp hf with rfl | hf
  · exact Or.inl hknown
  rcases List.mem_cons.mp hf with rfl | hf
  · exact Or.inl hknown
  · obtain rfl := List.mem_singleton.mp hf
    exact Or.inr ⟨_, hcollision⟩

end ProtoStubs
