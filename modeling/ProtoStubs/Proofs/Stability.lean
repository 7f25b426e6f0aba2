import ProtoStubs.Proofs.Isolation

/-!
A module that was made once is made again alike, whatever happens to other files in between. Once
its demands are met, all its types are settled; other files may come in and get bindings, but what
the file sees stays. So the second time no demand needs anything new: the context is left as it is,
and the module is read off the same symbols and bindings.
-/

namespace ProtoStubs

namespace Context

variable {c c' : Context} {user : String} {ds : List Demand}

namespace Below

theorem meets (h : c.Below user c') (hm : c.Meets user ds) : c'.Meets user ds := by
  intro d hd
  have hmet := hm d hd
  cases d with
  | type t =>
    obtain ⟨s, hs⟩ := hmet
    exact ⟨s, (h.symbolFor?_eq (h.definition?_eq_of_meets hm hd)).trans hs⟩
  | note n => trivial
  | refuse fault => exact hmet.elim

end Below

end Context

namespace Step

open Context

variable {c : Context} {user : String} {f : SchemaFile} {options : Options}

/-- A call for another file takes nothing from what a registered file sees. -/
theorem perform_below {call : Call} (h : call.user? ≠ some user) (hknown : c.file? user ≠ none) :
    c.Below user (call.perform.run c).context ∧
      (call.perform.run c).context.file? user ≠ none := by
  have halike := perform_alike h c
  rcases registration_cases call c with hsame | ⟨f, hadmits, henroll⟩
  · rw [hsame] at halike
    exact ⟨halike.below, by rw [halike.file?_eq]; exact hknown⟩
  · have hne : f.name ≠ user := fun heq => hknown (heq ▸ hadmits.name)
    rw [henroll] at halike
    refine ⟨(Below.enroll c hne).trans halike.below, ?_⟩
    rw [halike.file?_eq, file?_enroll, if_neg hne, Option.or_none]
    exact hknown

theorem contextAfter_below {calls : List Call} (h : ∀ call ∈ calls, call.user? ≠ some user)
    (hknown : c.file? user ≠ none) :
    c.Below user (contextAfter c calls) ∧ (contextAfter c calls).file? user ≠ none := by
  induction calls generalizing c with
  | nil => exact ⟨Below.refl user c, hknown⟩
  | cons call rest ih =>
    obtain ⟨hcall, hrest⟩ := List.forall_mem_cons.mp h
    obtain ⟨hbelow, hknown'⟩ := perform_below hcall hknown
    obtain ⟨hbelow', hlast⟩ := ih hrest hknown'
    exact ⟨hbelow.trans hbelow', hlast⟩

/-- Where the demands of a registered file are met, its module is there to be read off. -/
theorem moduleOf_of_meets (hknown : c.file? f.name ≠ none)
    (hm : c.Meets f.name (f.demands options)) :
    ((moduleOf f options).run c).result = .ok (f.moduleIn options c) ∧
      ((moduleOf f options).run c).context = c := by
  obtain ⟨hcontext, hresult⟩ := moduleOf_known options hknown
  obtain ⟨hok, hsame⟩ := meetAll_of_meets hm
  rw [hcontext, hresult, hok, hsame]
  exact ⟨rfl, rfl⟩

/-- Making a module answers with its text and leaves the context that this leaves. -/
theorem run_perform_module (f : SchemaFile) (options : Options) (c : Context) :
    ((Call.module f options).perform.run c).result =
        ((moduleOf f options).run c).result.map (fun m => .text m.text) ∧
      ((Call.module f options).perform.run c).context = ((moduleOf f options).run c).context := by
  exact ⟨result_bind_pure (moduleOf f options) _ c, context_bind_pure (moduleOf f options) _ c⟩

end Step

/-- Let the module of a file be made, and let any calls follow that are for other files. If the
module is then made once more, it has the same text, and all further calls are answered as if it had
not been made again. -/
theorem module_again_after_others (c : Context) (f : SchemaFile) (options : Options)
    (others : List Call) {text : String}
    (hfirst : ((Call.module f options).perform.run c).result = .ok (.text text))
    (hothers : ∀ call ∈ others, call.user? ≠ some f.name) :
    ∃ notes, ∀ more,
      transcript (contextAfter c (.module f options :: others)) (.module f options :: more) =
        ⟨.ok (.text text), notes⟩ ::
          transcript (contextAfter c (.module f options :: others)) more := by
  obtain ⟨hresult, hcontext⟩ := Step.run_perform_module f options c
  rw [hresult] at hfirst
  cases hm : ((Step.moduleOf f options).run c).result with
  | error fault =>
    rw [hm] at hfirst
    cases hfirst
  | ok m =>
    obtain rfl : m.text = text := by simpa [hm, Except.map] using hfirst
    obtain ⟨hknown, hmeets, rfl⟩ := Step.moduleOf_made hm
    obtain ⟨hbelow, hknown'⟩ := Step.contextAfter_below hothers hknown
    obtain ⟨hagain, hsame⟩ := Step.moduleOf_of_meets hknown' (hbelow.meets hmeets)
    rw [contextAfter, hcontext]
    generalize contextAfter ((Step.moduleOf f options).run c).context others = c'
      at hbelow hagain hsame ⊢
    obtain ⟨hresult', hcontext'⟩ := Step.run_perform_module f options c'
    rw [hagain, hbelow.moduleIn_eq hmeets] at hresult'
    refine ⟨((Call.module f options).perform.run c').notes, fun more => ?_⟩
    rw [transcript, hcontext', hsame]
    exact congrArg (· :: transcript c' more) (congrArg (Logged.mk · _) hresult')

theorem holderFile_again_after_others :
    ∃ text notes,
      ((Call.module holderFile {}).perform.run (registered "/" [userFile "a", userFile "b"])).result =
        .ok (.text text) ∧
      transcript (contextAfter (registered "/" [userFile "a", userFile "b"])
          [.module holderFile {}, .register (userFile "e"), .resolve ".e.User" "a.proto",
            .module (userFile "b") {}])
        [.module holderFile {}] = [⟨.ok (.text text), notes⟩] := by
  obtain ⟨text, htext⟩ : ∃ text,
      ((Call.module holderFile {}).perform.run
        (registered "/" [userFile "a", userFile "b"])).result = .ok (.text text) := ⟨_, rfl⟩
  obtain ⟨notes, hagain⟩ := module_again_after_others
    (registered "/" [userFile "a", userFile "b"]) holderFile {}
    [.register (userFile "e"), .resolve ".e.User" "a.proto", .module (userFile "b") {}] htext
    (by decide +kernel)
  exact ⟨text, notes, htext, hagain []⟩

end ProtoStubs
