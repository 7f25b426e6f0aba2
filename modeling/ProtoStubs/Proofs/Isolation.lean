import ProtoStubs.Proofs.Calls

/-!
The files of a session do not get in each other's way. All that a file sees of a context are the
registered files, their definitions and its own bindings. Calls for another file add bindings of
that file and no more, unless they register it, and a call for the file itself does the same in all
contexts in which it sees the same. So its calls are answered as if the calls for other files had
been left out, but for the registrations in them.
-/

namespace ProtoStubs

namespace Context

variable {c c' c'' : Context} {user other : String} {f : SchemaFile}

/-- The contexts differ at most in the bindings of other files than `user`. -/
structure Alike (user : String) (c c' : Context) : Prop where
  directory : c'.directory = c.directory
  files : c'.files = c.files
  definitions : c'.definitions = c.definitions
  bindings : c'.bindingsOf user = c.bindingsOf user

theorem defineAll_congr {es : List Declared} (h : c'.definitions = c.definitions) :
    (c'.defineAll f es).definitions = (c.defineAll f es).definitions ∧
      c'.duplicates f es = c.duplicates f es := by
  induction es generalizing c c' with
  | nil => exact ⟨h, rfl⟩
  | cons e rest ih =>
    have hlookup : c'.definition? e.fullName = c.definition? e.fullName := by
      rw [definition?, h, definition?]
    rw [defineAll, defineAll, duplicates, duplicates, hlookup]
    cases c.definition? e.fullName with
    | some d => exact ⟨(ih h).1, congrArg _ (ih h).2⟩
    | none =>
      apply ih
      rw [define, define, h]

namespace Alike

theorem refl (user : String) (c : Context) : c.Alike user c := ⟨rfl, rfl, rfl, rfl⟩

theorem symm (h : c.Alike user c') : c'.Alike user c :=
  ⟨h.directory.symm, h.files.symm, h.definitions.symm, h.bindings.symm⟩

theorem trans (h : c.Alike user c') (h' : c'.Alike user c'') : c.Alike user c'' :=
  ⟨h'.directory.trans h.directory, h'.files.trans h.files, h'.definitions.trans h.definitions,
    h'.bindings.trans h.bindings⟩

theorem of_gains (h : c.Gains other c') (hne : user ≠ other) : c.Alike user c' :=
  ⟨h.directory_eq, h.files_eq, h.definitions_eq, h.bindingsOf_eq hne⟩

theorem below (h : c.Alike user c') : c.Below user c' :=
  Below.of_bindings h.directory h.files h.definitions h.bindings

theorem file?_eq (h : c.Alike user c') (name : String) : c'.file? name = c.file? name := by
  rw [file?, h.files, file?]

theorem definition?_eq (h : c.Alike user c') (t : String) :
    c'.definition? t = c.definition? t := by
  rw [definition?, h.definitions, definition?]

theorem typeFor_eq (h : c.Alike user c') : c'.typeFor user = c.typeFor user := by
  have hsymbol : ∀ t, c'.symbolFor? user t = c.symbolFor? user t :=
    fun t => h.below.symbolFor?_eq (h.definition?_eq t)
  simp only [typeFor, hsymbol]

theorem blocksFor_eq (h : c.Alike user c') (items : List Item) :
    c'.blocksFor user items = c.blocksFor user items := by
  rw [blocksFor, h.typeFor_eq, blocksFor]

theorem moduleIn_eq (h : c.Alike f.name c') (options : Options) :
    f.moduleIn options c' = f.moduleIn options c := by
  simp only [SchemaFile.moduleIn, h.blocksFor_eq, importsOf_congr h.bindings]

theorem enroll (h : c.Alike user c') (f : SchemaFile) :
    (c.enroll f).Alike user (c'.enroll f) where
  directory := by rw [directory_enroll, directory_enroll, h.directory]
  files := by rw [files_enroll, files_enroll, h.files]
  definitions := by
    have hknown : (c'.addFile f).definitions = (c.addFile f).definitions := h.definitions
    exact (defineAll_congr hknown).1
  bindings := by rw [bindingsOf_enroll, bindingsOf_enroll, h.bindings]

end Alike

end Context

namespace Step

open Context

variable {α β : Type} {user : String} {ds : List Demand}

/-- In contexts that are alike for `user` the step does the same, and the contexts after it are
alike again. -/
structure Respects (user : String) (step : Step α) : Prop where
  run : ∀ {c c' : Context}, c.Alike user c' →
    (step.run c').toLogged = (step.run c).toLogged ∧
      (step.run c).context.Alike user (step.run c').context

theorem pure_respects (user : String) (a : α) : Respects user (pure a) := ⟨fun h => ⟨rfl, h⟩⟩

theorem reading_respects {g : Context → α} (hg : ∀ {c c'}, c.Alike user c' → g c' = g c) :
    Respects user (reading g) := by
  constructor
  intro c c' h
  rw [run_reading, run_reading, hg h]
  exact ⟨rfl, h⟩

theorem Respects.bind {step : Step α} {next : α → Step β} (hstep : Respects user step)
    (hnext : ∀ {c a}, (step.run c).result = .ok a → Respects user (next a)) :
    Respects user (step >>= next) := by
  constructor
  intro c c' h
  obtain ⟨hlogged, halike⟩ := hstep.run h
  have hresult := congrArg Logged.result hlogged
  have hnotes := congrArg Logged.notes hlogged
  rw [run_bind, run_bind]
  cases hr : (step.run c).result with
  | error fault =>
    rw [after_error _ hr, after_error _ (hresult.trans hr), hnotes]
    exact ⟨rfl, halike⟩
  | ok a =>
    obtain ⟨hlogged', halike'⟩ := (hnext hr).run halike
    have hresult' := congrArg Logged.result hlogged'
    have hnotes' := congrArg Logged.notes hlogged'
    rw [after_ok _ hr, after_ok _ (hresult.trans hr), hnotes, hnotes', hresult']
    exact ⟨rfl, halike'⟩

theorem register_respects (user : String) (f : SchemaFile) : Respects user (register f) := by
  constructor
  intro c c' h
  simp only [run, register, h.file?_eq, h.files]
  split
  · exact ⟨rfl, h⟩
  · split
    · exact ⟨rfl, h⟩
    · have hknown : (c'.addFile f).definitions = (c.addFile f).definitions := h.definitions
      rw [(defineAll_congr hknown).2]
      exact ⟨rfl, h.enroll f⟩

theorem file_respects (user name : String) : Respects user (file name) := by
  constructor
  intro c c' h
  have hfile := h.file?_eq name
  cases hf : c.file? name with
  | none =>
    rw [run_file_missing hf, run_file_missing (hfile.trans hf)]
    exact ⟨rfl, h⟩
  | some f =>
    rw [run_file_found hf, run_file_found (hfile.trans hf)]
    exact ⟨rfl, h⟩

theorem meetAll_respects (user : String) (ds : List Demand) : Respects user (meetAll user ds) := by
  constructor
  intro c c' h
  have hds : ∀ t, .type t ∈ ds → c'.definition? t = c.definition? t :=
    fun t _ => h.definition?_eq t
  obtain ⟨hlogged, hbelow⟩ := meetAll_below h.below hds
  have hgains := meetAll_gains c user ds
  have hgains' := meetAll_gains c' user ds
  refine ⟨hlogged, hbelow.directory, ?_, ?_, hbelow.bindings⟩
  · rw [hgains'.files_eq, hgains.files_eq, h.files]
  · rw [hgains'.definitions_eq, hgains.definitions_eq, h.definitions]

theorem Reads.respects {step : Step α} {g : Context → α} (h : Reads user step ds g)
    (hg : ∀ {c c'}, c.Alike user c' → g c' = g c) : Respects user step := by
  rw [h.eq]
  exact (meetAll_respects user ds).bind fun _ => reading_respects hg

theorem moduleOf_respects (f : SchemaFile) (options : Options) :
    Respects f.name (moduleOf f options) := by
  rw [moduleOf_eq]
  exact (register_respects f.name f).bind fun _ =>
    (meetAll_respects f.name _).bind fun _ => reading_respects fun h => h.moduleIn_eq options

theorem linkItems_respects (strict : Bool) (user : String) (items : List Item) :
    Respects user (linkItems strict user items) :=
  (linkItems_reads strict user items).respects fun h => h.blocksFor_eq items

/-- A call for `user` is answered alike in contexts that are alike for `user`. -/
theorem perform_respects {call : Call} (h : call.user? = some user) :
    Respects user call.perform := by
  cases call with
  | register f => simp [Call.user?] at h
  | file name => simp [Call.user?] at h
  | imports asking => simp [Call.user?] at h
  | resolve t asking =>
    obtain rfl := Option.some.inj h
    refine Respects.bind ((resolve_reads t asking).respects ?_) fun _ => pure_respects asking _
    intro c c' halike
    rw [halike.below.symbolFor?_eq (halike.definition?_eq t)]
  | module f options =>
    obtain rfl := Option.some.inj h
    exact (moduleOf_respects f options).bind fun _ => pure_respects f.name _
  | moduleNamed name options =>
    obtain rfl := Option.some.inj h
    refine (file_respects name name).bind fun hf => ?_
    obtain rfl := file?_name (file_ok_iff.mp hf)
    exact (moduleOf_respects _ options).bind fun _ => pure_respects _ _
  | fieldType f index asking strict =>
    obtain rfl := Option.some.inj h
    refine Respects.bind ((typeExpr_reads strict asking _).respects ?_) fun _ =>
      pure_respects asking _
    intro c c' halike
    rw [halike.typeFor_eq]
  | messages ms package asking outer scope strict =>
    obtain rfl := Option.some.inj h
    exact (linkItems_respects strict asking _).bind fun _ => pure_respects asking _
  | service s package asking role =>
    obtain rfl := Option.some.inj h
    exact (linkItems_respects false asking _).bind fun _ => pure_respects asking _

/-- A call for another file does for `user` no more than its registration does. -/
theorem perform_alike {call : Call} (h : call.user? ≠ some user) (c : Context) :
    (call.registration c).Alike user (call.perform.run c).context := by
  rcases perform_context call c with hfirst | ⟨asking, ds, hasking, hboth⟩
  · rw [hfirst]
    exact Alike.refl user _
  · have hne : user ≠ asking := fun heq => h (heq ▸ hasking)
    rw [hboth]
    exact Alike.of_gains (meetAll_gains _ asking ds) hne

theorem registration_alike {c c' : Context} (h : c.Alike user c') (call : Call) :
    (call.registration c).Alike user (call.registration c') := by
  cases call with
  | register f => exact ((register_respects user f).run h).2
  | module f options => exact ((register_respects user f).run h).2
  | _ => exact h

end Step

/-- What is left of a call if nothing is resolved in it. Of the module of a file that is the
registration of the file; one that is looked up by its name is registered already. -/
def Call.remainder : Call → List Call
  | .register f => [.register f]
  | .module f _ => [.register f]
  | .file name => [.file name]
  | .moduleNamed name _ => [.file name]
  | .imports asking => [.imports asking]
  | _ => []

/-- A call for `user` stays, and all others resolve nothing. -/
def Call.restrict (user : String) (call : Call) : List Call :=
  if call.user? = some user then [call] else call.remainder

def answersTo (user : String) (c : Context) (calls : List Call) : List (Logged Answer) :=
  ((calls.zip (transcript c calls)).filter (·.1.user? = some user)).map (·.2)

section Restriction

variable {user : String} {c c' : Context} {call : Call}

theorem answersTo_cons (user : String) (c : Context) (call : Call) (rest : List Call) :
    answersTo user c (call :: rest) =
      (if call.user? = some user then [(call.perform.run c).toLogged] else []) ++
        answersTo user (call.perform.run c).context rest := by
  by_cases h : call.user? = some user <;> simp [answersTo, transcript, h]

theorem answersTo_append (user : String) (c : Context) (calls more : List Call) :
    answersTo user c (calls ++ more) =
      answersTo user c calls ++ answersTo user (contextAfter c calls) more := by
  induction calls generalizing c with
  | nil => rfl
  | cons call rest ih =>
    rw [List.cons_append, answersTo_cons, answersTo_cons, ih, List.append_assoc, contextAfter]

/-- What is left of a call registers what the call registers, and is for no file. -/
theorem remainder_spec (call : Call) (user : String) (c : Context) :
    contextAfter c call.remainder = call.registration c ∧
      answersTo user c call.remainder = [] := by
  have hregister : ∀ f, contextAfter c [.register f] = ((Step.register f).run c).context :=
    fun f => Step.context_bind_pure (Step.register f) _ c
  have hfile : ∀ name, contextAfter c [.file name] = c := fun name =>
    (Step.context_bind_pure (Step.file name) _ c).trans (Step.file_context name c)
  cases call with
  | register f => exact ⟨hregister f, rfl⟩
  | module f options => exact ⟨hregister f, rfl⟩
  | file name => exact ⟨hfile name, rfl⟩
  | moduleNamed name options => exact ⟨hfile name, rfl⟩
  | _ => exact ⟨rfl, rfl⟩

/-- One call and what is left of it: the answers for `user` are the same, and the contexts stay
alike. -/
theorem restrict_alike (h : c.Alike user c') (call : Call) :
    answersTo user c' (call.restrict user) = answersTo user c [call] ∧
      (call.perform.run c).context.Alike user (contextAfter c' (call.restrict user)) := by
  by_cases hown : call.user? = some user
  · obtain ⟨hlogged, halike⟩ := (Step.perform_respects hown).run h
    rw [Call.restrict, if_pos hown, answersTo_cons, answersTo_cons, if_pos hown, if_pos hown, hlogged]
    exact ⟨rfl, halike⟩
  · obtain ⟨hcontext, hnone⟩ := remainder_spec call user c'
    rw [Call.restrict, if_neg hown, hcontext, hnone, answersTo_cons, if_neg hown]
    exact ⟨rfl, (Step.perform_alike hown c).symm.trans (Step.registration_alike h call)⟩

/-- A session and what is left of it, call by call. -/
theorem restrictAll_alike (h : c.Alike user c') (calls : List Call) :
    answersTo user c' (calls.flatMap (Call.restrict user)) = answersTo user c calls ∧
      (contextAfter c calls).Alike user
        (contextAfter c' (calls.flatMap (Call.restrict user))) := by
  induction calls generalizing c c' with
  | nil => exact ⟨rfl, h⟩
  | cons call rest ih =>
    obtain ⟨hanswers, halike⟩ := restrict_alike h call
    obtain ⟨hrest, hlast⟩ := ih halike
    rw [List.flatMap_cons, answersTo_append, contextAfter_append, hanswers, hrest]
    exact ⟨(answersTo_append user c [call] rest).symm, hlast⟩

end Restriction

/-- Leave out of a session all that is resolved for other files than `user`, and keep the
registrations. Then every call for `user` is answered as before, and at every point of the session
the imports of `user` are the same. -/
theorem answers_of_restricted (c : Context) (user : String) (calls : List Call) :
    answersTo user c (calls.flatMap (Call.restrict user)) = answersTo user c calls ∧
      ∀ n, (contextAfter c ((calls.take n).flatMap (Call.restrict user))).importsOf user =
        (contextAfter c (calls.take n)).importsOf user := by
  refine ⟨(restrictAll_alike (Context.Alike.refl user c) calls).1, ?_⟩
  intro n
  have halike := (restrictAll_alike (Context.Alike.refl user c) (calls.take n)).2
  exact Context.importsOf_congr halike.bindings

end ProtoStubs
