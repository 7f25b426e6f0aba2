import ProtoStubs.Proofs.Stability
import ProtoStubs.Proofs.Variants

/-!
A module can be tried again after a failure. What the failed attempt leaves behind are bindings for
the types that it got to, and these are the first types that any attempt asks for, under whatever
options. So the next attempt would have bound the same types to the same symbols by itself. Files
that are registered in between change nothing in this, since they neither see nor touch bindings.
-/

namespace ProtoStubs

namespace Step

open Context

variable {c : Context} {user t : String} {ds : List Demand} {ts : List String}

/-- A resolution that is refused leaves no trace, unless the type is in a module without a path. -/
theorem resolve_refused {fault : Fault} (h : ((resolve t user).run c).result = .error fault)
    (hne : fault ≠ .emptyModulePath) : ((resolve t user).run c).context = c := by
  rcases resolve_error h with ⟨_, _, hsame⟩ | ⟨d, _, _, hfault, _⟩
  · exact hsame
  · exact (hne hfault).elim

/-- The context that demands leave is the one that the first of their types lead to. -/
theorem exists_types_met (h : ((meetAll user ds).run c).result ≠ .error .emptyModulePath) :
    ∃ ts, ts <+: typesOf ds ∧ ((meetAll user (ts.map .type)).run c).result = .ok () ∧
      ((meetAll user (ts.map .type)).run c).context = ((meetAll user ds).run c).context := by
  induction ds generalizing c with
  | nil => exact ⟨[], List.prefix_rfl, rfl, rfl⟩
  | cons d rest ih =>
    cases d with
    | type t =>
      cases hr : ((resolve t user).run c).result with
      | error fault =>
        obtain ⟨hresult, hcontext⟩ := meetAll_refused rest hr
        have hne : fault ≠ .emptyModulePath := fun heq => h (heq ▸ hresult)
        exact ⟨[], List.nil_prefix, rfl, (hcontext.trans (resolve_refused hr hne)).symm⟩
      | ok s =>
        obtain ⟨hresult, hcontext⟩ := meetAll_resolved rest hr
        rw [hresult] at h
        obtain ⟨ts, hfirst, hmet, hsame⟩ := ih h
        obtain ⟨hresult', hcontext'⟩ := meetAll_resolved (ts.map .type) hr
        refine ⟨t :: ts, List.cons_prefix_cons.mpr ⟨rfl, hfirst⟩, hresult'.trans hmet, ?_⟩
        rw [List.map_cons, hcontext', hsame, hcontext]
    | note n =>
      obtain ⟨hresult, hcontext⟩ := meetAll_note n rest
      rw [hresult] at h
      rw [hcontext]
      exact ih h
    | refuse fault => exact ⟨[], List.nil_prefix, rfl, rfl⟩

/-- Demands are met alike, whether or not the first of their types were met before. -/
theorem meetAll_of_types_met (hfirst : ts <+: typesOf ds)
    (hmet : ((meetAll user (ts.map .type)).run c).result = .ok ()) :
    ((meetAll user ds).run ((meetAll user (ts.map .type)).run c).context).result =
        ((meetAll user ds).run c).result ∧
      (((meetAll user ds).run c).result = .ok () →
        ((meetAll user ds).run ((meetAll user (ts.map .type)).run c).context).context =
          ((meetAll user ds).run c).context) := by
  induction ds generalizing ts c with
  | nil =>
    obtain rfl : ts = [] := List.prefix_nil.mp hfirst
    exact ⟨rfl, fun _ => rfl⟩
  | cons d rest ih =>
    cases d with
    | type t =>
      cases ts with
      | nil => exact ⟨rfl, fun _ => rfl⟩
      | cons t' ts =>
        obtain ⟨rfl, hrest⟩ := List.cons_prefix_cons.mp hfirst
        rw [List.map_cons] at hmet ⊢
        cases hr : ((resolve t' user).run c).result with
        | error fault => simp [(meetAll_refused _ hr).1] at hmet
        | ok s =>
          obtain ⟨hresult, hcontext⟩ := meetAll_resolved (ts.map .type) hr
          obtain ⟨hresult', hcontext'⟩ := meetAll_resolved rest hr
          rw [hresult] at hmet
          -- The type is settled since its first resolution, so the second one adds nothing.
          have hsettled := resolve_settled ((meetAll_gains _ user (ts.map .type)).symbolFor?_eq
            (symbolFor?_of_resolve hr))
          obtain ⟨hagain, hsame⟩ := meetAll_resolved rest (congrArg (·.result) hsettled)
          rw [hcontext, hagain, hsame, hresult', hcontext', congrArg (·.context) hsettled]
          exact ih hrest hmet
    | note n =>
      rw [(meetAll_note n rest).1, (meetAll_note n rest).2, (meetAll_note n rest).1,
        (meetAll_note n rest).2]
      exact ih hfirst hmet
    | refuse fault =>
      refine ⟨rfl, fun hok => ?_⟩
      cases hok

/-- A module comes out alike, whether or not the first of its types were met before. -/
theorem moduleOf_of_types_met {f : SchemaFile} {options : Options}
    (hknown : c.file? f.name ≠ none) (hfirst : ts <+: typesOf (f.demands options))
    (hmet : ((meetAll f.name (ts.map .type)).run c).result = .ok ()) :
    ((moduleOf f options).run ((meetAll f.name (ts.map .type)).run c).context).result =
      ((moduleOf f options).run c).result := by
  have hknown' : ((meetAll f.name (ts.map .type)).run c).context.file? f.name ≠ none := by
    rw [(meetAll_gains c f.name _).file?_eq]
    exact hknown
  obtain ⟨hresult, hcontext⟩ := meetAll_of_types_met hfirst hmet
  rw [(moduleOf_known options hknown').2, (moduleOf_known options hknown).2, hresult]
  cases hr : ((meetAll f.name (f.demands options)).run c).result with
  | error fault => rfl
  | ok _ => rw [hcontext hr]

end Step

namespace Context

variable {c c' : Context} {user : String}

theorem defineAll_bindings (c : Context) (f : SchemaFile) (bindings : List Binding)
    (es : List Declared) :
    ({ c with bindings := bindings } : Context).defineAll f es =
      { c.defineAll f es with bindings := bindings } := by
  induction es generalizing c with
  | nil => rfl
  | cons e rest ih =>
    rw [defineAll, defineAll]
    have hsame : ({ c with bindings := bindings } : Context).definition? e.fullName =
      c.definition? e.fullName := rfl
    rw [hsame]
    cases c.definition? e.fullName with
    | some d => exact ih c
    | none => exact ih (c.define f e)

/-- Registering a file neither sees nor touches bindings. -/
theorem register_bindings (c : Context) (f : SchemaFile) (bindings : List Binding) :
    ((Step.register f).run { c with bindings := bindings }).context =
      { ((Step.register f).run c).context with bindings := bindings } := by
  simp only [Step.run, Step.register]
  have hfile : ({ c with bindings := bindings } : Context).file? f.name = c.file? f.name := rfl
  rw [hfile]
  split
  · rfl
  · split
    · rfl
    · exact defineAll_bindings (c.addFile f) f bindings f.declared

theorem Gains.register (h : c.Gains user c') (f : SchemaFile) :
    ((Step.register f).run c).context.Gains user ((Step.register f).run c').context := by
  obtain ⟨new, hnew, rfl⟩ := h
  refine ⟨new, hnew, ?_⟩
  rw [(Step.register_frame c f).2]
  exact register_bindings c f (c.bindings ++ new)

/-- What was gained before files are registered is gained after it. -/
theorem Gains.registerAll (h : c.Gains user c') (files : List SchemaFile) :
    (contextAfter c (files.map .register)).Gains user
      (contextAfter c' (files.map .register)) := by
  induction files generalizing c c' with
  | nil => exact h
  | cons f rest ih =>
    apply ih
    rw [Call.perform, Step.context_bind_pure, Step.context_bind_pure]
    exact h.register f

end Context

namespace Step

open Context

variable {c : Context} {f : SchemaFile} {ds : List Demand}

/-- Demands that are met before other files are registered leave a file with what they leave it with
if they are met after that. -/
theorem meetAll_registerAll (hknown : c.file? f.name ≠ none)
    (hmet : ((meetAll f.name ds).run c).result = .ok ()) (files : List SchemaFile) :
    ((meetAll f.name ds).run (contextAfter c (files.map .register))).result = .ok () ∧
      Alike f.name ((meetAll f.name ds).run (contextAfter c (files.map .register))).context
        (contextAfter ((meetAll f.name ds).run c).context (files.map .register)) := by
  have hothers : ∀ call ∈ files.map Call.register, call.user? ≠ some f.name := by
    simp [Call.user?]
  have hgains := meetAll_gains c f.name ds
  have hknown' : ((meetAll f.name ds).run c).context.file? f.name ≠ none := by
    rw [hgains.file?_eq]
    exact hknown
  obtain ⟨hmet', hafter⟩ := meetAll_below_ok (contextAfter_below hothers hknown).1 hmet
  have hbefore := (contextAfter_below hothers hknown').1
  have hgains' := hgains.registerAll files
  have hlater := meetAll_gains (contextAfter c (files.map .register)) f.name ds
  refine ⟨hmet', ?_, ?_, ?_, hbefore.bindings.trans hafter.bindings.symm⟩
  · rw [hgains'.directory_eq, hlater.directory_eq]
  · rw [hgains'.files_eq, hlater.files_eq]
  · rw [hgains'.definitions_eq, hlater.definitions_eq]

end Step

/-- Let the module of a registered file fail with a diagnosed fault, and let any files be registered
after that. Then the module is made, or fails, under any options as it would without the first
attempt. -/
theorem module_after_failed_attempt (c : Context) (f : SchemaFile) (first second : Options)
    (files : List SchemaFile) {fault : Fault} (hknown : c.file? f.name ≠ none)
    (hfailed : ((Call.module f first).perform.run c).result = .error fault)
    (hdiagnosed : fault.isDiagnosed = true) :
    ((Call.module f second).perform.run
        (contextAfter c (.module f first :: files.map .register))).result =
      ((Call.module f second).perform.run (contextAfter c (files.map .register))).result := by
  obtain ⟨hresult, hcontext⟩ := Step.run_perform_module f first c
  obtain ⟨hattempt, hread⟩ := Step.moduleOf_known first hknown
  have hpath : ((Step.meetAll f.name (f.demands first)).run c).result ≠
      .error .emptyModulePath := by
    intro herror
    rw [hresult, hread, herror] at hfailed
    obtain rfl : Fault.emptyModulePath = fault := Except.error.inj hfailed
    cases hdiagnosed
  obtain ⟨ts, hfirst, hmet, hsame⟩ := Step.exists_types_met hpath
  rw [f.typesOf_demands first second] at hfirst
  obtain ⟨hmet', halike⟩ := Step.meetAll_registerAll hknown hmet files
  obtain ⟨g, hg⟩ := Option.ne_none_iff_exists'.mp hknown
  have hknown' : (contextAfter c (files.map .register)).file? f.name ≠ none := by
    simp [(session_runs c _).file?_eq hg]
  have hsecond := congrArg Logged.result ((Step.moduleOf_respects f second).run halike).1
  rw [contextAfter, hcontext, hattempt, ← hsame, (Step.run_perform_module f second _).1,
    (Step.run_perform_module f second _).1, hsecond,
    Step.moduleOf_of_types_met hknown' hfirst hmet']

/-- The first attempt stops at a type that is not known yet; the second is for another role. -/
theorem holderFile_after_failed_attempt :
    ((Call.module holderFile { strict := true }).perform.run
        (registered "/" [userFile "a", holderFile])).result =
      .error (.unresolvedType ".b.User" "c.proto") ∧
    ∃ text,
      ((Call.module holderFile { role := .server }).perform.run
        (contextAfter (registered "/" [userFile "a", holderFile])
          [.module holderFile { strict := true }, .register (userFile "b")])).result =
        .ok (.text text) ∧
      ((Call.module holderFile { role := .server }).perform.run
        (contextAfter (registered "/" [userFile "a", holderFile])
          [.register (userFile "b")])).result = .ok (.text text) := by
  have hfailed : ((Call.module holderFile { strict := true }).perform.run
      (registered "/" [userFile "a", holderFile])).result =
    .error (.unresolvedType ".b.User" "c.proto") := rfl
  obtain ⟨text, htext⟩ : ∃ text, ((Call.module holderFile { role := .server }).perform.run
      (contextAfter (registered "/" [userFile "a", holderFile])
        [.register (userFile "b")])).result = .ok (.text text) := ⟨_, rfl⟩
  have hretry := module_after_failed_attempt (registered "/" [userFile "a", holderFile]) holderFile
    { strict := true } { role := .server } [userFile "b"]
    (Option.isSome_iff_ne_none.mp (by decide +kernel)) hfailed rfl
  exact ⟨hfailed, text, hretry.trans htext, htext⟩

end ProtoStubs
