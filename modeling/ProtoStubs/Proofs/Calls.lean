import ProtoStubs.Proofs.Agreement
import ProtoStubs.Proofs.Events

/-!
What one call can do. It registers at most one file, and that comes first; then it resolves types
for at most one file, the user of the call. So whatever registering and resolving keep is kept by
every call, and what was known once stays known: files, definitions and settled symbols.
-/

namespace ProtoStubs

theorem contextAfter_append (c : Context) (calls more : List Call) :
    contextAfter c (calls ++ more) = contextAfter (contextAfter c calls) more := by
  induction calls generalizing c with
  | nil => rfl
  | cons call rest ih => exact ih (call.perform.run c).context

theorem eventsOf_append (c : Context) (calls more : List Call) :
    eventsOf c (calls ++ more) = eventsOf c calls ++ eventsOf (contextAfter c calls) more := by
  induction calls generalizing c with
  | nil => rfl
  | cons call rest ih =>
    simp only [List.cons_append, eventsOf, contextAfter, ih, List.append_assoc]

namespace Call

def user? : Call → Option String
  | .register _ => none
  | .file _ => none
  | .imports _ => none
  | .resolve _ user => some user
  | .module f _ => some f.name
  | .moduleNamed name _ => some name
  | .fieldType _ _ user _ => some user
  | .messages _ _ user _ _ _ => some user
  | .service _ _ user _ => some user

/-- The context after the registration that a call begins with. -/
def registration : Call → Context → Context
  | .register f, c => ((Step.register f).run c).context
  | .module f _, c => ((Step.register f).run c).context
  | _, c => c

end Call

namespace Step

open Context

theorem moduleOf_context (f : SchemaFile) (options : Options) (c : Context) :
    ((moduleOf f options).run c).context = ((register f).run c).context ∨
      ((moduleOf f options).run c).context =
        ((meetAll f.name (f.demands options)).run ((register f).run c).context).context := by
  cases hr : ((register f).run c).result with
  | error fault => exact Or.inl (moduleOf_refused options hr).1
  | ok _ => exact Or.inr (moduleOf_registered options hr).1

theorem file?_register {c : Context} {f : SchemaFile}
    (h : ((register f).run c).result = .ok ()) :
    ((register f).run c).context.file? f.name ≠ none := by
  rcases register_ok h with hknown | hadmits
  · rw [register_known hknown]
    exact hknown
  · rw [(register_admits hadmits).2, file?_enroll]
    simp

/-- A module that was made leaves its file registered and its demands met, and can be read off the
context that it leaves. -/
theorem moduleOf_made {c : Context} {f : SchemaFile} {options : Options} {m : Module}
    (h : ((moduleOf f options).run c).result = .ok m) :
    ((moduleOf f options).run c).context.file? f.name ≠ none ∧
      ((moduleOf f options).run c).context.Meets f.name (f.demands options) ∧
      m = f.moduleIn options ((moduleOf f options).run c).context := by
  cases hr : ((register f).run c).result with
  | error fault => simp [(moduleOf_refused options hr).2] at h
  | ok _ =>
    obtain ⟨hcontext, hresult⟩ := moduleOf_registered options hr
    obtain ⟨_, hmet, rfl⟩ := map_eq_ok_iff.mp (hresult.symm.trans h)
    rw [hcontext]
    refine ⟨?_, meets_of_meetAll hmet, rfl⟩
    rw [(meetAll_gains _ f.name _).file?_eq]
    exact file?_register hr

theorem file_ok_iff {c : Context} {name : String} {f : SchemaFile} :
    ((file name).run c).result = .ok f ↔ c.file? name = some f := by
  cases hf : c.file? name with
  | none => simp [run_file_missing hf]
  | some g => simp [run_file_found hf]

theorem file_context (name : String) (c : Context) : ((file name).run c).context = c := by
  cases hf : c.file? name with
  | none => rw [run_file_missing hf]
  | some f => rw [run_file_found hf]

/-- A call ends with its registration, or goes on to meet demands of its user. -/
theorem perform_context (call : Call) (c : Context) :
    (call.perform.run c).context = call.registration c ∨
      ∃ user ds, call.user? = some user ∧
        (call.perform.run c).context = ((meetAll user ds).run (call.registration c)).context := by
  cases call with
  | register f =>
    rw [Call.perform, context_bind_pure]
    exact Or.inl rfl
  | file name =>
    rw [Call.perform, context_bind_pure]
    exact Or.inl (file_context name c)
  | imports user => exact Or.inl rfl
  | resolve t user =>
    rw [Call.perform, context_bind_pure]
    exact Or.inr ⟨user, _, rfl, (resolve_reads t user).context_eq c⟩
  | module f options =>
    rw [Call.perform, context_bind_pure]
    rcases moduleOf_context f options c with hfirst | hboth
    · exact Or.inl hfirst
    · exact Or.inr ⟨f.name, _, rfl, hboth⟩
  | moduleNamed name options =>
    rw [Call.perform, run_bind]
    cases hf : c.file? name with
    | none =>
      rw [run_file_missing hf, after_error _ rfl]
      exact Or.inl rfl
    | some f =>
      -- The file is known under its name, so it is not registered again.
      have hname : f.name = name := Context.file?_name hf
      have hknown : c.file? f.name ≠ none := by simp [hname, hf]
      rw [run_file_found hf, after_ok _ rfl, context_bind_pure, (moduleOf_known options hknown).1]
      exact Or.inr ⟨name, _, rfl, by rw [hname]; rfl⟩
  | fieldType f index user strict =>
    rw [Call.perform, context_bind_pure]
    exact Or.inr ⟨user, _, rfl, (typeExpr_reads strict user (f.type index)).context_eq c⟩
  | messages ms package user outer scope strict =>
    rw [Call.perform, context_bind_pure]
    exact Or.inr ⟨user, _, rfl, (linkItems_reads strict user _).context_eq c⟩
  | service s package user role =>
    rw [Call.perform, context_bind_pure]
    exact Or.inr ⟨user, _, rfl, (linkItems_reads false user _).context_eq c⟩

end Step

namespace Context

variable {c c' c'' : Context} {f : SchemaFile} {user t s : String} {d : Definition}
  {es : List Event}

theorem registration_cases (call : Call) (c : Context) :
    call.registration c = c ∨ ∃ f, c.Admits f ∧ call.registration c = c.enroll f := by
  cases call with
  | register f => exact (Step.register_cases c f).imp_right fun h => ⟨f, h⟩
  | module f options => exact (Step.register_cases c f).imp_right fun h => ⟨f, h⟩
  | _ => exact Or.inl rfl

theorem symbolFor?_enroll (f : SchemaFile) (h : c.symbolFor? user t = some s) :
    (c.enroll f).symbolFor? user t = some s := by
  obtain ⟨d, hd⟩ := exists_definition_of_symbolFor? h
  have hdefined : (c.enroll f).definition? t = c.definition? t := by
    rw [definition?_enroll, hd, Option.some_or]
  rw [symbolFor?_congr hdefined (symbol?_congr (bindingsOf_enroll c f user) t)]
  exact h

theorem definitions_subset_defineAll (c : Context) (f : SchemaFile) (es : List Declared) :
    c.definitions ⊆ (c.defineAll f es).definitions := by
  induction es generalizing c with
  | nil => exact List.Subset.refl _
  | cons e rest ih =>
    rw [defineAll]
    cases c.definition? e.fullName with
    | some d => exact ih c
    | none => exact List.Subset.trans (List.subset_append_left _ _) (ih (c.define f e))

namespace Below

theorem refl (user : String) (c : Context) : c.Below user c :=
  ⟨rfl, rfl, fun h => h, fun _ => Iff.rfl, rfl⟩

theorem trans (h : c.Below user c') (h' : c'.Below user c'') : c.Below user c'' where
  directory := h'.directory.trans h.directory
  place := h'.place.trans h.place
  definition hd := h'.definition (h.definition hd)
  taken s := (h'.taken s).trans (h.taken s)
  bindings := h'.bindings.trans h.bindings

/-- A file sees what it saw when another file comes in. -/
theorem enroll (c : Context) (hne : f.name ≠ user) : c.Below user (c.enroll f) where
  directory := directory_enroll c f
  place := by rw [modulePathOf, file?_enroll, if_neg hne, Option.or_none, modulePathOf]
  definition hd := by rw [definition?_enroll, hd, Option.some_or]
  taken s := by
    rw [mem_taken_iff, mem_taken_iff, bindingsOf_enroll]
    refine or_congr Iff.rfl (or_congr ⟨?_, ?_⟩ Iff.rfl)
    · rintro ⟨d, hd, hfile, hs⟩
      rcases mem_definitions_defineAll hd with hold | ⟨e, _, rfl⟩
      · exact ⟨d, hold, hfile, hs⟩
      · exact (hne hfile).elim
    · rintro ⟨d, hd, hown⟩
      exact ⟨d, definitions_subset_defineAll (c.addFile f) f f.declared hd, hown⟩
  bindings := bindingsOf_enroll c f user

end Below

namespace Runs

theorem file?_eq {name : String} (h : c.Runs es c') (hf : c.file? name = some f) :
    c'.file? name = some f := by
  induction h with
  | start => exact hf
  | registered _ _ ih => rw [file?_enroll, ih, Option.some_or]
  | resolved _ _ ih => rw [(Step.resolve_gains _ _ _).file?_eq, ih]
  | refused _ _ ih => rw [(Step.resolve_gains _ _ _).file?_eq, ih]

theorem definition?_eq (h : c.Runs es c') (hd : c.definition? t = some d) :
    c'.definition? t = some d := by
  induction h with
  | start => exact hd
  | registered _ _ ih => rw [definition?_enroll, ih, Option.some_or]
  | resolved _ _ ih => rw [(Step.resolve_gains _ _ _).definition?_eq, ih]
  | refused _ _ ih => rw [(Step.resolve_gains _ _ _).definition?_eq, ih]

theorem symbolFor?_eq (h : c.Runs es c') (hs : c.symbolFor? user t = some s) :
    c'.symbolFor? user t = some s := by
  induction h with
  | start => exact hs
  | registered _ _ ih => exact symbolFor?_enroll _ ih
  | resolved _ _ ih => exact (Step.resolve_gains _ _ _).symbolFor?_eq ih
  | refused _ _ ih => exact (Step.resolve_gains _ _ _).symbolFor?_eq ih

theorem mem_bindingsOf {b : Binding} (h : c.Runs es c') (hb : b ∈ c.bindingsOf user) :
    b ∈ c'.bindingsOf user := by
  induction h with
  | start => exact hb
  | registered _ _ ih => rw [bindingsOf_enroll]; exact ih
  | resolved _ _ ih => exact (Step.resolve_gains _ _ _).mem_bindingsOf ih
  | refused _ _ ih => exact (Step.resolve_gains _ _ _).mem_bindingsOf ih

/-- Every type that was resolved still has the symbol that it was given. -/
theorem settled (h : c.Runs es c') (hs : .resolved user t s ∈ es) :
    c'.symbolFor? user t = some s := by
  induction h with
  | start => simp at hs
  | registered _ _ ih => exact symbolFor?_enroll _ (ih (by simpa using hs))
  | @resolved es c' asking t' s' _ hnew ih =>
    rcases List.mem_append.mp hs with hold | hlast
    · exact (Step.resolve_gains c' t' asking).symbolFor?_eq (ih hold)
    · obtain ⟨rfl, rfl, rfl⟩ : user = asking ∧ t = t' ∧ s = s' := by simpa using hlast
      exact Step.symbolFor?_of_resolve hnew
  | refused _ _ ih => exact (Step.resolve_gains _ _ _).symbolFor?_eq (ih hs)

end Runs

end Context

end ProtoStubs
