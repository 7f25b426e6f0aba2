import Mathlib.Data.List.Infix
import ProtoStubs.Proofs.Calls
import ProtoStubs.Proofs.Imports
import ProtoStubs.Proofs.Places

/-!
Which names of a file its imports can never take. A new symbol avoids the flat names of the types
that the file defines, and no others: where another file defines a type first, a file that declares
it too does not define it, and its flat name is free for imports unless it has another type by that
name. So the declared names are safe for good exactly when the file defines a type by each of them.
If it does not, some file that may still come in has a type by that name.
-/

namespace ProtoStubs

/-- As long as the file is not registered, it has no bindings. -/
def BoundLate (user : String) (c : Context) (calls : List Call) : Prop :=
  ∀ before ∈ calls.inits,
    (contextAfter c before).file? user = none → (contextAfter c before).bindingsOf user = []

instance (user : String) (c : Context) (calls : List Call) : Decidable (BoundLate user c calls) :=
  inferInstanceAs (Decidable (∀ before ∈ calls.inits, (contextAfter c before).file? user = none →
    (contextAfter c before).bindingsOf user = []))

namespace BoundLate

variable {user : String} {c : Context} {call : Call} {calls rest : List Call}

theorem cons_iff :
    BoundLate user c (call :: rest) ↔
      (c.file? user = none → c.bindingsOf user = []) ∧
        BoundLate user (call.perform.run c).context rest := by
  rw [BoundLate, List.inits_cons, List.forall_mem_cons, List.forall_mem_map]
  rfl

theorem of_known (h : c.file? user ≠ none) : BoundLate user c calls := by
  intro before _ hnone
  obtain ⟨f, hf⟩ := Option.ne_none_iff_exists'.mp h
  simp [(session_runs c before).file?_eq hf] at hnone

end BoundLate

namespace Context

variable {c : Context} {f : SchemaFile} {user t s : String}

/-- The bindings of a file stay in order in a call that does not register the file after something
is bound for it. -/
theorem Ledger.perform (h : c.Ledger user) (hlate : c.file? user = none → c.bindingsOf user = [])
    (call : Call) : (call.perform.run c).context.Ledger user := by
  have hfirst : (call.registration c).Ledger user := by
    rcases registration_cases call c with hsame | ⟨f, hadmits, henroll⟩
    · rw [hsame]
      exact h
    · rw [henroll]
      by_cases hname : f.name = user
      · apply Ledger.of_bindingsOf_eq_nil
        rw [bindingsOf_enroll]
        exact hlate (hname ▸ hadmits.name)
      · exact h.enroll hname
  rcases Step.perform_context call c with hend | ⟨asking, ds, _, hmeets⟩
  · rw [hend]
    exact hfirst
  · rw [hmeets]
    exact Step.meetAll_preserves (P := (·.Ledger user)) (fun _ t hc => hc.resolve t asking) ds hfirst

theorem Ledger.contextAfter {calls : List Call} (h : c.Ledger user)
    (hlate : BoundLate user c calls) : (contextAfter c calls).Ledger user := by
  induction calls generalizing c with
  | nil => exact h
  | cons call rest ih =>
    obtain ⟨hhere, hrest⟩ := BoundLate.cons_iff.mp hlate
    exact ih (h.perform hhere call) hrest

/-- In a session that binds nothing for a file too early, the bindings of the file are in order. -/
theorem Ledger.of_session {directory : String} {calls : List Call}
    (h : BoundLate user { directory := directory } calls) :
    (ProtoStubs.contextAfter { directory := directory } calls).Ledger user :=
  Ledger.contextAfter (Ledger.of_bindingsOf_eq_nil rfl) h

def texts (c : Context) : List String :=
  c.files.map (·.name) ++ c.files.map (·.modulePath) ++ c.definitions.map (·.fullName)

/-- A name that is longer than all of them together. -/
def unseen (c : Context) : String :=
  String.ofList (List.replicate ((String.join c.texts).length + 1) 'x')

theorem length_le_join {texts : List String} (h : t ∈ texts) :
    t.length ≤ (String.join texts).length := by
  induction texts with
  | nil => simp at h
  | cons x rest ih =>
    rw [String.join_cons, String.length_append]
    rcases List.mem_cons.mp h with rfl | hrest
    · omega
    · have hle := ih hrest
      omega

/-- What is at least as long as the new name is new as well. -/
theorem ne_of_mem_texts {t' : String} (h : t ∈ c.texts) (hlong : c.unseen.length ≤ t'.length) :
    t ≠ t' := by
  rintro rfl
  have hle := length_le_join h
  rw [unseen, String.length_ofList, List.length_replicate] at hlong
  omega

theorem notMem_unseen {ch : Char} (h : ch ≠ 'x') : ch ∉ c.unseen.toList := by
  rw [unseen, String.toList_ofList, List.mem_replicate]
  exact fun hmem => h hmem.2

theorem unseen_ne_empty (c : Context) : c.unseen ≠ "" := by
  intro h
  have hlength : c.unseen.length = 0 := by rw [h]; rfl
  rw [unseen, String.length_ofList, List.length_replicate] at hlength
  omega

theorem directories_unseen (c : Context) : Layout.directories c.unseen = [c.unseen] := by
  have hsplit : Text.split '.' c.unseen = [c.unseen] :=
    Text.split_of_notMem (notMem_unseen (by decide))
  rw [Layout.directories, Layout.segments, if_neg c.unseen_ne_empty, hsplit]
  simp [c.unseen_ne_empty]

/-- A file that nothing in the context knows of, with one type. -/
def stranger (c : Context) (s : String) : SchemaFile :=
  { name := c.unseen, package := c.unseen, messages := [{ name := s }] }

def strangeType (c : Context) (s : String) : Declared := .ofPath c.unseen [s]

theorem length_lt_modulePath_stranger (c : Context) (s : String) :
    c.unseen.length < (c.stranger s).modulePath.length := by
  have hpath : (c.stranger s).modulePath =
      "/".intercalate (Layout.directories c.unseen ++ [Path.stem (Path.fileName c.unseen)]) :=
    Layout.modulePath_eq (notMem_unseen (by decide)) c.unseen
  have hslash : "/".length = 1 := rfl
  rw [hpath, directories_unseen]
  simp only [List.cons_append, List.nil_append, String.intercalate_cons_cons,
    String.intercalate_singleton, String.length_append]
  omega

theorem length_lt_strangeType (c : Context) (s : String) :
    c.unseen.length < (c.strangeType s).fullName.length := by
  have hdot : ".".length = 1 := rfl
  by_cases hs : s = ""
  · simp [strangeType, Declared.ofPath, fullName, hs, c.unseen_ne_empty, hdot]
  · simp only [strangeType, Declared.ofPath, fullName, ne_eq, decide_not, c.unseen_ne_empty, hs,
      decide_false, Bool.not_false, List.filter_cons_of_pos, List.filter_nil,
      String.intercalate_cons_cons, String.intercalate_singleton, String.length_append]
    omega

theorem admits_stranger (c : Context) (s : String) : c.Admits (c.stranger s) where
  name := by
    apply List.find?_eq_none.mpr
    intro g hg
    have hname : g.name ∈ c.texts :=
      List.mem_append_left _ (List.mem_append_left _ (List.mem_map_of_mem hg))
    rw [beq_iff_eq]
    exact ne_of_mem_texts hname (Nat.le_refl _)
  path g hg := by
    have hpath : g.modulePath ∈ c.texts :=
      List.mem_append_left _ (List.mem_append_right _ (List.mem_map_of_mem hg))
    exact ne_of_mem_texts hpath (c.length_lt_modulePath_stranger s).le

theorem definition?_strangeType (c : Context) (s : String) :
    c.definition? (c.strangeType s).fullName = none := by
  apply List.find?_eq_none.mpr
  intro d hd
  have hname : d.fullName ∈ c.texts := List.mem_append_right _ (List.mem_map_of_mem hd)
  rw [beq_iff_eq]
  exact ne_of_mem_texts hname (c.length_lt_strangeType s).le

theorem definition?_stranger (c : Context) (s : String) :
    ∃ d, (c.stranger s).definition? (c.strangeType s).fullName = some d ∧
      d.file = (c.stranger s).name ∧ d.flatName = s ∧
      d.modulePath = (c.stranger s).modulePath := by
  have hdeclared : (c.stranger s).declared = [c.strangeType s] := rfl
  generalize c.stranger s = g at hdeclared ⊢
  refine ⟨g.definitionOf (c.strangeType s), ?_, rfl, ?_, rfl⟩
  · rw [SchemaFile.definition?, hdeclared]
    simp
  · show String.join [s] = s
    rw [String.join_cons, String.join_nil, String.append_empty]

/-- Once the stranger has come in, its type is one of another file that the file has no binding
for. -/
theorem Ledger.exists_unbound (h : c.Ledger user) (hne : (c.stranger s).name ≠ user) :
    ∃ d, (c.enroll (c.stranger s)).Unbound user (c.strangeType s).fullName d ∧
      d.flatName = s ∧ d.modulePath = (c.stranger s).modulePath := by
  obtain ⟨d, hd, hfile, hflat, hpath⟩ := c.definition?_stranger s
  refine ⟨d, ⟨?_, hfile ▸ hne, ?_⟩, hflat, hpath⟩
  · rw [definition?_enroll, definition?_strangeType, Option.none_or, hd]
  · rw [symbol?_congr (bindingsOf_enroll c _ user), symbol?_eq_none_iff]
    intro hbound
    obtain ⟨b, hb, hname⟩ := List.mem_map.mp hbound
    obtain ⟨d', hd'⟩ := h.leads b hb
    have hdefined := hd'.defined
    rw [hname, definition?_strangeType] at hdefined
    cases hdefined

end Context

theorem resolved_mem_eventsOf {c : Context} {user t s : String}
    (h : ((Step.resolve t user).run c).result = .ok s) :
    .resolved user t s ∈ eventsOf c [.resolve t user] := by
  simp [eventsOf, Call.events, Step.resolutions, h]

namespace Context

variable {c c' : Context} {f : SchemaFile} {user t s : String} {d : Definition} {es : List Event}

theorem Runs.isForeign_eq (h : c.Runs es c') (hd : c.definition? t = some d)
    (hfile : d.file ≠ user) : c'.isForeign user t = true := by
  rw [isForeign, h.definition?_eq hd]
  simpa using hfile

theorem Unbound.resolve_ok (hd : c.Unbound user t d) (hpath : d.modulePath ≠ "")
    (hfree : d.flatName ∉ c.taken user) :
    ((Step.resolve t user).run c).result = .ok d.flatName := by
  rw [Step.resolve_unbound hd, newBinding, freeName_of_notMem hfree,
    Layout.specifier?_eq _ _ hpath]
  rfl

/-- A name that is not taken in a registered file is the symbol of a type that the file can still
be asked to import. -/
theorem Ledger.exists_resolved_of_notMem (h : c.Ledger user) (hknown : c.file? user ≠ none)
    (hfree : s ∉ c.taken user) :
    ∃ later t, .resolved user t s ∈ eventsOf c later ∧
      (ProtoStubs.contextAfter c later).isForeign user t = true := by
  have hadmits := c.admits_stranger s
  have hne : (c.stranger s).name ≠ user := fun heq => hknown (heq ▸ hadmits.name)
  obtain ⟨d, hd, rfl, hpath⟩ := h.exists_unbound hne
  have hcontext : ((Call.register (c.stranger d.flatName)).perform.run c).context =
      c.enroll (c.stranger d.flatName) := by
    rw [Call.perform, Step.context_bind_pure, (Step.register_admits hadmits).2]
  have hplaced : d.modulePath ≠ "" := by
    intro hempty
    have hlong := c.length_lt_modulePath_stranger d.flatName
    rw [← hpath, hempty] at hlong
    exact Nat.not_lt_zero _ hlong
  have hanswer := hd.resolve_ok hplaced (((Below.enroll c hne).taken d.flatName).not.mpr hfree)
  refine ⟨[.register (c.stranger d.flatName), .resolve (c.strangeType d.flatName).fullName user],
    (c.strangeType d.flatName).fullName, ?_, ?_⟩
  · rw [eventsOf, hcontext]
    exact List.mem_append_right _ (resolved_mem_eventsOf hanswer)
  · rw [ProtoStubs.contextAfter, hcontext]
    exact (session_runs _ _).isForeign_eq hd.defined hd.foreign

/-- So is a name that has been given to a type before. -/
theorem Ledger.exists_resolved_of_mem {b : Binding} (h : c.Ledger user)
    (hb : b ∈ c.bindingsOf user) :
    ∃ later t, .resolved user t b.symbol ∈ eventsOf c later ∧
      (ProtoStubs.contextAfter c later).isForeign user t = true := by
  obtain ⟨d, hd⟩ := h.leads b hb
  have hsettled : c.symbolFor? user b.typeName = some b.symbol := by
    simp [symbolFor?, hd.defined, hd.foreign, h.symbol?_of_mem hb]
  refine ⟨[.resolve b.typeName user], b.typeName, resolved_mem_eventsOf ?_, ?_⟩
  · rw [Step.resolve_settled hsettled]
  · exact (session_runs _ _).isForeign_eq hd.defined hd.foreign

/-- A name is safe only if it is reserved or is that of a type that the file defines. -/
theorem Ledger.exists_resolved (h : c.Ledger user) (hknown : c.file? user ≠ none)
    (hreserved : s ∉ reservedNames)
    (howned : ¬ ∃ d ∈ c.definitions, d.file = user ∧ d.flatName = s) :
    ∃ later t, .resolved user t s ∈ eventsOf c later ∧
      (ProtoStubs.contextAfter c later).isForeign user t = true := by
  by_cases hbound : ∃ b ∈ c.bindingsOf user, b.symbol = s
  · obtain ⟨b, hb, rfl⟩ := hbound
    exact h.exists_resolved_of_mem hb
  · apply h.exists_resolved_of_notMem hknown
    rw [mem_taken_iff]
    exact not_or.mpr ⟨hreserved, not_or.mpr ⟨howned, hbound⟩⟩

theorem symbol?_of_foreign (hs : c.symbolFor? user t = some s)
    (hforeign : c.isForeign user t = true) : c.symbol? user t = some s := by
  obtain ⟨d, hd⟩ := exists_definition_of_symbolFor? hs
  have hfile : d.file ≠ user := by simpa [isForeign, hd] using hforeign
  simpa [symbolFor?, hd, hfile] using hs

theorem exists_own_definition (hs : c.symbolFor? user t = some s)
    (hown : c.isForeign user t = false) :
    ∃ d, c.definition? t = some d ∧ d.file = user ∧ d.flatName = s := by
  obtain ⟨d, hd⟩ := exists_definition_of_symbolFor? hs
  have hfile : d.file = user := by simpa [isForeign, hd] using hown
  exact ⟨d, hd, hfile, by simpa [symbolFor?, hd, hfile] using hs⟩

/-- No type of another file has the symbol of a helper or of a type that the file defines. -/
theorem Ledger.ne_of_foreign (h : c.Ledger user) (hs : c.symbolFor? user t = some s)
    (hforeign : c.isForeign user t = true) :
    s ∉ reservedNames ∧ ∀ d ∈ c.definitions, d.file = user → d.flatName ≠ s := by
  obtain ⟨b, hb, _, rfl⟩ := exists_of_symbol? (symbol?_of_foreign hs hforeign)
  exact ⟨h.unreserved b hb, h.unowned b hb⟩

end Context

/-- Let nothing be bound for a file before it is registered. Then its declared names are safe from
all imports, however the session goes on, exactly when each of them is reserved or is the flat name
of a type that the file itself defines. -/
theorem declared_never_imported_iff (directory user : String) (calls : List Call) {f : SchemaFile}
    (hlate : BoundLate user { directory := directory } calls)
    (hf : (contextAfter { directory := directory } calls).file? user = some f) :
    (∀ later t s, .resolved user t s ∈ eventsOf { directory := directory } (calls ++ later) →
        (contextAfter { directory := directory } (calls ++ later)).isForeign user t = true →
        ∀ e ∈ f.declared, e.flatName ≠ s) ↔
      ∀ e ∈ f.declared, e.flatName ∈ reservedNames ∨
        ∃ d ∈ (contextAfter { directory := directory } calls).definitions,
          d.file = user ∧ d.flatName = e.flatName := by
  have horderly := (session_runs _ calls).orderly (Context.Orderly.start directory)
  have hledger := Context.Ledger.of_session hlate
  have hknown : (contextAfter { directory := directory } calls).file? user ≠ none := by simp [hf]
  constructor
  · intro hsafe e he
    by_contra hunsafe
    obtain ⟨hreserved, howned⟩ := not_or.mp hunsafe
    obtain ⟨later, t, hevent, hforeign⟩ := hledger.exists_resolved hknown hreserved howned
    refine hsafe later t e.flatName ?_ ?_ e he rfl
    · rw [eventsOf_append]
      exact List.mem_append_right _ hevent
    · rw [contextAfter_append]
      exact hforeign
  · rintro hown later t _ hevent hforeign e he rfl
    have hsettled := (session_runs _ _).settled hevent
    rw [contextAfter_append] at hforeign hsettled
    have hlater : (contextAfter (contextAfter { directory := directory } calls) later).Ledger user :=
      hledger.contextAfter (BoundLate.of_known hknown)
    obtain ⟨hreserved, howned⟩ := hlater.ne_of_foreign hsettled hforeign
    rcases hown e he with hhelper | ⟨d, hd, hfile, hname⟩
    · exact hreserved hhelper
    · -- What the file defines it defines for good.
      have hd' := (session_runs _ later).definition?_eq (horderly.definition?_of_mem hd)
      exact howned d (Context.mem_of_definition? hd') hfile hname

/-- A file that uses a type before the type is there keeps its own names all the same. -/
theorem holderFile_never_imported :
    BoundLate "c.proto" {} clashingCalls ∧
    (contextAfter {} clashingCalls).file? "c.proto" = some holderFile ∧
    ∀ later t s, .resolved "c.proto" t s ∈ eventsOf {} (clashingCalls ++ later) →
      (contextAfter {} (clashingCalls ++ later)).isForeign "c.proto" t = true →
      ∀ e ∈ holderFile.declared, e.flatName ≠ s := by
  have hlate : BoundLate "c.proto" {} clashingCalls := by decide +kernel
  have hfile : (contextAfter {} clashingCalls).file? "c.proto" = some holderFile := rfl
  exact ⟨hlate, hfile,
    (declared_never_imported_iff "/" "c.proto" clashingCalls hlate hfile).mpr (by decide +kernel)⟩

/-- Two files declare one type, and then a type of a third file with the same flat name is
resolved for the second. -/
def sharedCalls : List Call :=
  [.register (userFile "a"), .register { userFile "a" with name := "b.proto" },
    .register (userFile "q"), .resolve ".q.User" "b.proto"]

/-- The second file is registered first, declares the name, and yet imports another type by it. -/
theorem shared_name_is_imported :
    BoundLate "b.proto" {} sharedCalls ∧
    (∃ f, (contextAfter {} sharedCalls).file? "b.proto" = some f ∧
      ⟨".a.User", "User"⟩ ∈ f.declared) ∧
    .resolved "b.proto" ".q.User" "User" ∈ eventsOf {} sharedCalls ∧
    (contextAfter {} sharedCalls).isForeign "b.proto" ".q.User" = true := by
  refine ⟨by decide +kernel, ⟨_, rfl, by decide +kernel⟩, by decide +kernel, by decide +kernel⟩

end ProtoStubs
