import ProtoStubs.Proofs.FlatNames
import ProtoStubs.Proofs.Isolation
import ProtoStubs.Proofs.Registry

/-!
What a resolution that fails leaves behind. A type that is not defined leaves nothing, and the
session goes on as if nobody had asked. A type of a module without a path leaves a binding that
cannot be imported. The binding shows in no imports and no other file sees it. But it holds its
symbol, so the type is settled: whenever the file asks again it is given the symbol, and never
an import with it.
-/

namespace ProtoStubs

namespace Context

variable {c c' : Context} {user t s : String} {d : Definition} {b : Binding} {es : List Event}

theorem newBinding_specifier (c : Context) (user : String) (h : d.modulePath = "") :
    (c.newBinding user d).specifier = none := if_pos h

theorem bindingsOf_bind_cases (c : Context) (b : Binding) (user : String) :
    (c.bind b).bindingsOf user = c.bindingsOf user ∨
      (c.bind b).bindingsOf user = c.bindingsOf user ++ [b] := by
  by_cases hb : b.user = user
  · subst hb
    exact Or.inr (bindingsOf_bind c b)
  · exact Or.inl ((Gains.bind c rfl).bindingsOf_eq (Ne.symm hb))

/-- A binding without a specifier is in no imports. -/
theorem importsOf_bind_of_none (h : b.specifier = none) (user : String) :
    (c.bind b).importsOf user = c.importsOf user := by
  have himport : b.import? = none := by rw [Binding.import?, h, Option.map_none]
  rw [importsOf_eq, importsOf_eq]
  rcases bindingsOf_bind_cases c b user with hsame | hmore
  · rw [hsame]
  · rw [hmore, List.filterMap_append, List.filterMap_cons_none himport, List.filterMap_nil,
      List.append_nil]

/-- Nothing is ever imported under the symbol of a binding that has no specifier. -/
theorem Runs.symbol_not_imported {directory : String} (h : Runs { directory := directory } es c)
    (hb : b ∈ c.bindingsOf user) (hnone : b.specifier = none) {i : String × Import}
    (hi : i ∈ (c.importsOf user).pairs) : i.2.symbol ≠ b.symbol := by
  intro hsymbol
  obtain ⟨b', hb', himport⟩ := mem_imports_iff.mp hi
  obtain ⟨path, hpath, rfl⟩ := Option.map_eq_some_iff.mp himport
  -- No two bindings of one file have one symbol.
  obtain rfl : b' = b := List.inj_on_of_nodup_map (h.nodup_symbols user) hb' hb hsymbol
  rw [hnone] at hpath
  cases hpath

/-- The files declare a type exactly if it is defined. -/
theorem Orderly.definition?_eq_none_iff (h : c.Orderly) :
    c.definition? t = none ↔ ∀ f ∈ c.files, ∀ e ∈ f.declared, e.fullName ≠ t := by
  rw [h.first, List.findSome?_eq_none_iff]
  exact forall₂_congr fun f _ => SchemaFile.definition?_eq_none_iff

end Context

/-- The answers that a file gets depend on what it sees, also in a session of many files. -/
theorem answersTo_alike {c c' : Context} {user : String} (h : c.Alike user c') (calls : List Call) :
    answersTo user c' calls = answersTo user c calls := by
  have hown := (restrictAll_alike (Context.Alike.refl user c') calls).1
  have hboth := (restrictAll_alike h calls).1
  exact hown.symm.trans hboth

namespace Call

variable {c : Context} {t user s : String} {fault : Fault}

/-- Asking for the symbol of a type is resolving it. -/
theorem run_perform_resolve (t user : String) (c : Context) :
    ((Call.resolve t user).perform.run c).result =
        ((Step.resolve t user).run c).result.map Answer.text ∧
      ((Call.resolve t user).perform.run c).context = ((Step.resolve t user).run c).context :=
  ⟨Step.result_bind_pure (Step.resolve t user) Answer.text c,
    Step.context_bind_pure (Step.resolve t user) Answer.text c⟩

theorem perform_resolve_settled (h : c.symbolFor? user t = some s) :
    ((Call.resolve t user).perform.run c).result = .ok (.text s) := by
  rw [(run_perform_resolve t user c).1, Step.resolve_settled h]
  rfl

theorem contextAfter_resolve (t user : String) (c : Context) :
    contextAfter c [.resolve t user] = ((Step.resolve t user).run c).context :=
  (run_perform_resolve t user c).2

end Call

namespace Context

variable {c c' : Context} {user t : String} {d : Definition} {b : Binding} {es : List Event}

/-- In whatever way a session goes on from a binding without a path, the type is answered with the
symbol of the binding, and the file has no import with that symbol. -/
theorem Unbound.answered_not_imported {directory : String} (hd : c.Unbound user t d)
    (hpath : d.modulePath = "")
    (h : Runs { directory := directory } es (c.bind (c.newBinding user d))) (more : List Call) :
    let later := contextAfter (c.bind (c.newBinding user d)) more
    ((Call.resolve t user).perform.run later).result = .ok (.text (c.newBinding user d).symbol) ∧
      ∀ i ∈ (later.importsOf user).pairs, i.2.symbol ≠ (c.newBinding user d).symbol := by
  intro later
  have hmore : (c.bind (c.newBinding user d)).Runs _ later := session_runs _ more
  have hmem : c.newBinding user d ∈ (c.bind (c.newBinding user d)).bindingsOf user := by
    rw [bindingsOf_newBinding]
    exact List.mem_append_right _ (List.mem_singleton_self _)
  constructor
  · exact Call.perform_resolve_settled (hmore.symbolFor?_eq hd.symbolFor?_bind)
  · intro i hi
    exact (h.trans hmore).symbol_not_imported (hmore.mem_bindingsOf hmem)
      (newBinding_specifier c user hpath) hi

/-- The file of a type with no module path is registered and has none. -/
theorem Orderly.exists_pathless (h : c.Orderly) (hd : c.definition? t = some d)
    (hpath : d.modulePath = "") :
    ∃ f ∈ c.files, f.modulePath = "" ∧ ∃ e ∈ f.declared, e.fullName = t := by
  obtain ⟨f, hf, hfd⟩ := h.exists_file hd
  obtain ⟨e, he, hname, rfl⟩ := SchemaFile.definition?_eq_some hfd
  exact ⟨f, hf, hpath, e, he, hname⟩

end Context

/-- Let a resolution fail, after any session. It changes no imports, and no answers to calls for
other files. The session goes on as if the call had not been made, exactly if the type is not
declared by a registered file whose module has the empty path; the fault tells the two cases apart.
If it is, then the file that asked is given a symbol for the type from the next time on, and has
no import with that symbol, whatever calls follow. -/
theorem failed_resolution_forgotten_iff (directory : String) (calls : List Call) (t user : String)
    {fault : Fault}
    (hfailed : ((Call.resolve t user).perform.run
      (contextAfter { directory := directory } calls)).result = .error fault) :
    let c := contextAfter { directory := directory } calls
    let c' := contextAfter c [.resolve t user]
    (∀ asking, c'.importsOf asking = c.importsOf asking) ∧
    (∀ other ≠ user, ∀ more, answersTo other c' more = answersTo other c more) ∧
    ((∀ more, transcript c' more = transcript c more) ↔
      ¬ ∃ f ∈ c.files, f.modulePath = "" ∧ ∃ e ∈ f.declared, e.fullName = t) ∧
    ((∀ more, transcript c' more = transcript c more) ↔ fault = .unresolvedType t user) ∧
    (fault = .unresolvedType t user ∨ fault = .emptyModulePath ∧
      ∃ s, ∀ more,
        ((Call.resolve t user).perform.run (contextAfter c' more)).result = .ok (.text s) ∧
        ∀ i ∈ ((contextAfter c' more).importsOf user).pairs, i.2.symbol ≠ s) := by
  intro c c'
  have hruns : Context.Runs { directory := directory } _ c := session_runs _ calls
  have horderly : c.Orderly := hruns.orderly (Context.Orderly.start directory)
  have hcontext : c' = ((Step.resolve t user).run c).context := Call.contextAfter_resolve t user c
  have herror : ((Step.resolve t user).run c).result = .error fault := by
    rw [(Call.run_perform_resolve t user _).1] at hfailed
    exact Step.map_eq_error_iff.mp hfailed
  rcases Step.resolve_error herror with ⟨hnone, hfault, hsame⟩ | ⟨d, hd, hpath, hfault, hbound⟩
  · have hc : c' = c := hcontext.trans hsame
    have hnowhere := horderly.definition?_eq_none_iff.mp hnone
    rw [hc]
    refine ⟨fun _ => rfl, fun _ _ _ => rfl, iff_of_true (fun _ => rfl) ?_,
      iff_of_true (fun _ => rfl) hfault, Or.inl hfault⟩
    rintro ⟨f, hf, _, e, he, hname⟩
    exact hnowhere f hf e he hname
  · have hc : c' = c.bind (c.newBinding user d) := hcontext.trans hbound
    have hruns' : Context.Runs { directory := directory } _ c' :=
      hruns.trans (session_runs c [.resolve t user])
    rw [hc] at hruns'
    have hstuck := hd.answered_not_imported hpath hruns'
    rw [← hc] at hstuck
    -- The second answer tells the two sessions apart.
    have hdiffers : ¬ ∀ more, transcript c' more = transcript c more := by
      intro hforgotten
      have hresult : ((Call.resolve t user).perform.run c').result =
          ((Call.resolve t user).perform.run c).result :=
        congrArg Logged.result (List.cons.inj (hforgotten [.resolve t user])).1
      have hagain : ((Call.resolve t user).perform.run c').result =
        .ok (.text (c.newBinding user d).symbol) := (hstuck []).1
      rw [hagain, hfailed] at hresult
      cases hresult
    refine ⟨fun asking => ?_, fun other hne more => ?_, iff_of_false hdiffers (not_not.mpr ?_),
      iff_of_false hdiffers (by simp [hfault]), Or.inr ⟨hfault, _, hstuck⟩⟩
    · rw [hc]
      exact Context.importsOf_bind_of_none (Context.newBinding_specifier c user hpath) asking
    · rw [hc]
      exact answersTo_alike (Context.Alike.of_gains (Context.Gains.bind c rfl) hne) more
    · exact horderly.exists_pathless hd.defined hpath

def namelessFile : SchemaFile := { name := "", messages := [{ name := "M" }] }

/-- Two resolutions that fail, one for a type that nobody declares and one for a type of a module
without a path. -/
theorem namelessFile_failed_resolutions :
    let c := contextAfter {} [.register namelessFile, .register (userFile "a"),
      .resolve ".a.User" "c.proto"]
    ((Call.resolve ".b.User" "c.proto").perform.run c).result =
      .error (.unresolvedType ".b.User" "c.proto") ∧
    (∀ more, transcript (contextAfter c [.resolve ".b.User" "c.proto"]) more = transcript c more) ∧
    ((Call.resolve ".M" "c.proto").perform.run c).result = .error .emptyModulePath ∧
    (∀ asking, (contextAfter c [.resolve ".M" "c.proto"]).importsOf asking = c.importsOf asking) ∧
    ∃ s, ∀ more,
      ((Call.resolve ".M" "c.proto").perform.run
        (contextAfter (contextAfter c [.resolve ".M" "c.proto"]) more)).result = .ok (.text s) := by
  intro c
  have hundefined : ((Call.resolve ".b.User" "c.proto").perform.run c).result =
    .error (.unresolvedType ".b.User" "c.proto") := rfl
  have hpathless : ((Call.resolve ".M" "c.proto").perform.run c).result =
    .error .emptyModulePath := rfl
  obtain ⟨_, _, _, hforgotten, _⟩ := failed_resolution_forgotten_iff "/" _ _ _ hundefined
  obtain ⟨himports, _, _, _, hfault | ⟨_, s, hstuck⟩⟩ :=
    failed_resolution_forgotten_iff "/" _ _ _ hpathless
  · cases hfault
  · exact ⟨hundefined, hforgotten.mpr rfl, hpathless, himports, s, fun more => (hstuck more).1⟩

/-- The first resolution fails. The second one succeeds with a symbol that is not imported, although
it would have failed if the first had not been made, and the next type of that name is numbered. -/
theorem namelessFile_second_resolution_succeeds :
    let c := contextAfter {} [.register namelessFile,
      .register { name := "p.proto", package := "p", messages := [{ name := "M" }] }]
    ((transcript c [.resolve ".M" "b.proto", .resolve ".M" "b.proto", .imports "b.proto",
        .resolve ".p.M" "b.proto"]).map (·.result) =
      [.error .emptyModulePath, .ok (.text "M"), .ok (.imports {}), .ok (.text "M_1")]) ∧
    (transcript c [.resolve ".M" "b.proto"]).map (·.result) = [.error .emptyModulePath] ∧
    (transcript c [.resolve ".p.M" "b.proto"]).map (·.result) = [.ok (.text "M")] ∧
    ¬ ∀ more, transcript (contextAfter c [.resolve ".M" "b.proto"]) more = transcript c more := by
  intro c
  have hfirst : (transcript c [.resolve ".M" "b.proto"]).map (·.result) =
    [.error .emptyModulePath] := rfl
  have hsecond : (transcript (contextAfter c [.resolve ".M" "b.proto"])
    [.resolve ".M" "b.proto"]).map (·.result) = [.ok (.text "M")] := rfl
  refine ⟨rfl, hfirst, rfl, fun hsame => ?_⟩
  have hresults := congrArg (List.map (·.result)) (hsame [.resolve ".M" "b.proto"])
  rw [hfirst, hsecond] at hresults
  cases hresults

end ProtoStubs
