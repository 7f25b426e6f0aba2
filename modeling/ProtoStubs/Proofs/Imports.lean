import ProtoStubs.Proofs.Bindings
import ProtoStubs.Proofs.Events

/-!
The imports of a file are a record of what was resolved for it. Over a whole session, whatever its
calls and whichever of them fail, the file has one import for each type of another file that was
resolved for it, in the order in which these were first resolved, and under the symbol that every
resolution of the type gave. It must be registered before anything is resolved for it, or never be
registered: otherwise its types come after the symbols and may clash with them.
-/

namespace ProtoStubs

/-- Nothing is resolved for the file before it is registered. -/
def RegisteredFirst (user : String) (es : List Event) : Prop :=
  es.Pairwise fun e e' => e' = .registered user → e.resolvedFor? user = none

instance (user : String) (es : List Event) : Decidable (RegisteredFirst user es) :=
  inferInstanceAs (Decidable (List.Pairwise _ _))

namespace Context

variable {c c' : Context} {f : SchemaFile} {user t s : String} {d : Definition} {es : List Event}

def isForeign (c : Context) (user t : String) : Bool := (c.definition? t).any (·.file ≠ user)

/-- The types of other files resolved for `user`, in the order of their first resolutions. -/
def foreignTypes (c : Context) (user : String) (es : List Event) : List String :=
  ((resolvedTypes user es).filter (c.isForeign user)).eraseDups

/-- The bindings of a file are in order and are what the events have asked for. -/
structure Recorded (c : Context) (user : String) (es : List Event) : Prop where
  ledger : c.Ledger user
  types : (c.bindingsOf user).map (·.typeName) = c.foreignTypes user es
  settled : ∀ t s, .resolved user t s ∈ es → c.symbolFor? user t = some s

theorem foreignTypes_congr
    (h : ∀ t s, .resolved user t s ∈ es → c'.definition? t = c.definition? t) :
    c'.foreignTypes user es = c.foreignTypes user es := by
  unfold foreignTypes
  congr 1
  apply List.filter_congr
  intro t ht
  obtain ⟨s, hs⟩ := mem_resolvedTypes.mp ht
  rw [isForeign, h t s hs, isForeign]

theorem foreignTypes_append_other {e : Event} (h : e.resolvedFor? user = none) :
    c.foreignTypes user (es ++ [e]) = c.foreignTypes user es := by
  simp [foreignTypes, resolvedTypes, h]

theorem foreignTypes_append_own (s : String) (h : c.isForeign user t = false) :
    c.foreignTypes user (es ++ [Event.resolved user t s]) = c.foreignTypes user es := by
  simp [foreignTypes, resolvedTypes, Event.resolvedFor?, h]

theorem foreignTypes_append_foreign (s : String) (h : c.isForeign user t = true) :
    c.foreignTypes user (es ++ [Event.resolved user t s]) =
      if t ∈ c.foreignTypes user es then c.foreignTypes user es
      else c.foreignTypes user es ++ [t] := by
  have hlist : (resolvedTypes user (es ++ [Event.resolved user t s])).filter (c.isForeign user) =
      (resolvedTypes user es).filter (c.isForeign user) ++ [t] := by
    simp [resolvedTypes, Event.resolvedFor?, h]
  rw [foreignTypes, hlist, eraseDups_append_singleton]
  simp only [foreignTypes, List.mem_eraseDups]

theorem foreignTypes_eq_nil (h : ∀ t s, .resolved user t s ∉ es) : c.foreignTypes user es = [] := by
  have hnone : resolvedTypes user es = [] := by
    apply List.eq_nil_iff_forall_not_mem.mpr
    intro t ht
    obtain ⟨s, hs⟩ := mem_resolvedTypes.mp ht
    exact h t s hs
  rw [foreignTypes, hnone]
  rfl

namespace Recorded

theorem start (directory user : String) : Recorded { directory := directory } user [] where
  ledger := Ledger.of_bindingsOf_eq_nil rfl
  types := rfl
  settled := by simp

/-- A file comes in, either another one or `user` itself before anything was resolved for it. -/
theorem enroll (h : c.Recorded user es)
    (hfirst : f.name = user → ∀ t s, .resolved user t s ∉ es) :
    (c.enroll f).Recorded user (es ++ [Event.registered f.name]) := by
  have hdefined : ∀ t s, .resolved user t s ∈ es →
      (c.enroll f).definition? t = c.definition? t := by
    intro t s hs
    obtain ⟨d, hd⟩ := exists_definition_of_symbolFor? (h.settled t s hs)
    rw [definition?_enroll, hd, Option.some_or]
  have htypes : ((c.enroll f).bindingsOf user).map (·.typeName) =
      (c.enroll f).foreignTypes user (es ++ [Event.registered f.name]) := by
    rw [bindingsOf_enroll, h.types, foreignTypes_append_other rfl, foreignTypes_congr hdefined]
  refine ⟨?_, htypes, ?_⟩
  · by_cases hname : f.name = user
    · apply Ledger.of_bindingsOf_eq_nil
      rw [foreignTypes_append_other rfl, foreignTypes_eq_nil (hfirst hname)] at htypes
      exact List.map_eq_nil_iff.mp htypes
    · exact h.ledger.enroll hname
  · intro t s hs
    have hold : .resolved user t s ∈ es := by simpa using hs
    rw [symbolFor?_congr (hdefined t s hold) (symbol?_congr (bindingsOf_enroll c f user) t)]
    exact h.settled t s hold

theorem resolve_other {asking : String} (h : c.Recorded user es) (hne : user ≠ asking) :
    ((Step.resolve t asking).run c).context.Recorded user (es ++ [Event.resolved asking t s]) := by
  have hgains := Step.resolve_gains c t asking
  have hfor : Event.resolvedFor? user (.resolved asking t s) = none := by
    simp [Event.resolvedFor?, Ne.symm hne]
  refine ⟨h.ledger.gains hgains hne, ?_, ?_⟩
  · rw [hgains.bindingsOf_eq hne, h.types, foreignTypes_append_other hfor,
      foreignTypes_congr fun t _ _ => hgains.definition?_eq t]
  · intro t' s' hs
    have hold : .resolved user t' s' ∈ es := by simpa [hne] using hs
    exact hgains.symbolFor?_eq (h.settled t' s' hold)

theorem resolve_settled (h : c.Recorded user es) (hs : c.symbolFor? user t = some s) :
    c.Recorded user (es ++ [Event.resolved user t s]) := by
  refine ⟨h.ledger, ?_, ?_⟩
  · rw [h.types]
    obtain ⟨d, hd⟩ := exists_definition_of_symbolFor? hs
    by_cases hfile : d.file = user
    · rw [foreignTypes_append_own s (by simp [isForeign, hd, hfile])]
    · have hbound : c.symbol? user t = some s := by simpa [symbolFor?, hd, hfile] using hs
      have hmem : t ∈ c.foreignTypes user es := by
        rw [← h.types]
        by_contra hnot
        simp [symbol?_eq_none_iff.mpr hnot] at hbound
      rw [foreignTypes_append_foreign s (by simp [isForeign, hd, hfile]), if_pos hmem]
  · intro t' s' hmem
    rcases List.mem_append.mp hmem with hold | hnew
    · exact h.settled t' s' hold
    · obtain ⟨rfl, rfl⟩ : t' = t ∧ s' = s := by simpa using hnew
      exact hs

theorem resolve_unbound (h : c.Recorded user es) (hd : c.Unbound user t d) :
    (c.bind (c.newBinding user d)).Recorded user
      (es ++ [Event.resolved user t (c.newBinding user d).symbol]) := by
  have hgains : c.Gains user (c.bind (c.newBinding user d)) := Gains.bind c rfl
  refine ⟨h.ledger.bind hd, ?_, ?_⟩
  · have hnew : t ∉ c.foreignTypes user es := by
      rw [← h.types]
      exact symbol?_eq_none_iff.mp hd.unbound
    have hforeign : c.isForeign user t = true := by simp [isForeign, hd.defined, hd.foreign]
    rw [bindingsOf_newBinding, List.map_append, List.map_singleton, hd.typeName_newBinding, h.types,
      foreignTypes_congr (fun t _ _ => hgains.definition?_eq t),
      foreignTypes_append_foreign _ hforeign, if_neg hnew]
  · intro t' s' hmem
    rcases List.mem_append.mp hmem with hold | hnew
    · exact hgains.symbolFor?_eq (h.settled t' s' hold)
    · obtain ⟨rfl, rfl⟩ : t' = t ∧ s' = (c.newBinding user d).symbol := by simpa using hnew
      exact hd.symbolFor?_bind

end Recorded

theorem Runs.orderly (h : c.Runs es c') (hc : c.Orderly) : c'.Orderly := by
  induction h with
  | start => exact hc
  | registered _ hf ih => exact ih.enroll hf
  | resolved _ _ ih => exact ih.gains (Step.resolve_gains _ _ _)
  | refused _ _ ih => exact ih.gains (Step.resolve_gains _ _ _)

/-- Where every registered file has a module, every type can be imported. -/
theorem Orderly.exists_specifier (h : c.Orderly) (hpaths : ∀ f ∈ c.files, f.modulePath ≠ "")
    (hd : c.definition? t = some d) (place : String) :
    ∃ path, Layout.specifier? c.directory place d.modulePath = some path := by
  obtain ⟨g, hg, hgd⟩ := h.exists_file hd
  obtain ⟨e, _, _, rfl⟩ := SchemaFile.definition?_eq_some hgd
  exact ⟨_, if_neg (hpaths g hg)⟩

/-- A resolution is recorded, for whichever file it is. -/
theorem Recorded.resolve {asking : String} (h : c.Recorded user es)
    (hs : ((Step.resolve t asking).run c).result = .ok s) :
    ((Step.resolve t asking).run c).context.Recorded user (es ++ [Event.resolved asking t s]) := by
  by_cases hne : user = asking
  · subst hne
    rcases lookup_cases c user t with hnone | ⟨s', hs'⟩ | ⟨d, hd⟩
    · simp [Step.resolve_undefined user hnone] at hs
    · rw [Step.resolve_settled hs'] at hs ⊢
      obtain rfl : s' = s := by simpa using hs
      exact h.resolve_settled hs'
    · have hsymbol := Step.symbolFor?_of_resolve hs
      rw [Step.resolve_unbound hd] at hsymbol ⊢
      obtain rfl : (c.newBinding user d).symbol = s :=
        Option.some.inj (hd.symbolFor?_bind.symm.trans hsymbol)
      exact h.resolve_unbound hd
  · exact h.resolve_other hne

/-- A resolution that is refused leaves no binding where all files have modules. -/
theorem Recorded.refuse {asking : String} {fault : Fault} (h : c.Recorded user es)
    (ho : c.Orderly) (hpaths : ∀ f ∈ c.files, f.modulePath ≠ "")
    (hs : ((Step.resolve t asking).run c).result = .error fault) :
    ((Step.resolve t asking).run c).context.Recorded user es := by
  rcases lookup_cases c asking t with hnone | ⟨s', hs'⟩ | ⟨d, hd⟩
  · rw [Step.resolve_undefined asking hnone]
    exact h
  · simp [Step.resolve_settled hs'] at hs
  · -- The type has a module, so there is a way to import it.
    obtain ⟨path, hpath⟩ := ho.exists_specifier hpaths hd.defined (c.modulePathOf asking)
    simp [Step.resolve_unbound hd, Binding.answer, newBinding, hpath] at hs

/-- A run step by step: registering and resolving, also where it is refused, keep the record. -/
theorem Runs.recorded {directory : String} (h : Runs { directory := directory } es c)
    (hpaths : ∀ f ∈ c.files, f.modulePath ≠ "") (horder : RegisteredFirst user es) :
    c.Recorded user es := by
  induction h with
  | start => exact Recorded.start directory user
  | @registered es c f h hf ih =>
    obtain ⟨hbefore, _, hlast⟩ := List.pairwise_append.mp horder
    have hfiles : ∀ g ∈ c.files, g.modulePath ≠ "" := by
      intro g hg
      exact hpaths g (by rw [files_enroll]; exact List.mem_append_left _ hg)
    apply (ih hfiles hbefore).enroll
    rintro rfl t s hs
    have hnone := hlast _ hs _ (List.mem_singleton_self _) rfl
    simp [Event.resolvedFor?] at hnone
  | resolved _ hs ih =>
    rw [(Step.resolve_gains _ _ _).files_eq] at hpaths
    exact (ih hpaths (List.pairwise_append.mp horder).1).resolve hs
  | refused h hs ih =>
    rw [(Step.resolve_gains _ _ _).files_eq] at hpaths
    exact (ih hpaths horder).refuse (h.orderly (Orderly.start directory)) hpaths hs

theorem Runs.directory_eq (h : c.Runs es c') : c'.directory = c.directory := by
  induction h with
  | start => rfl
  | registered _ _ ih => rw [directory_enroll, ih]
  | resolved _ _ ih => rw [(Step.resolve_gains _ _ _).directory_eq, ih]
  | refused _ _ ih => rw [(Step.resolve_gains _ _ _).directory_eq, ih]

/-- An import entry stands for a type: it has the name by which the type is declared, the way to
the module that declares it, and the symbol that every resolution gave. -/
structure StandsFor (c : Context) (user : String) (es : List Event) (t : String)
    (e : String × Import) : Prop where
  defined : ∃ d, c.definition? t = some d ∧ e.2.origin = d.flatName ∧
    Layout.specifier? c.directory (c.modulePathOf user) d.modulePath = some e.1
  bound : c.symbol? user t = some e.2.symbol
  answered : ∀ s, .resolved user t s ∈ es → s = e.2.symbol

theorem Recorded.standsFor {b : Binding} (h : c.Recorded user es) (ho : c.Orderly)
    (hpaths : ∀ f ∈ c.files, f.modulePath ≠ "") (hb : b ∈ c.bindingsOf user) :
    ∃ e, b.import? = some e ∧ c.StandsFor user es b.typeName e := by
  obtain ⟨d, hd⟩ := h.ledger.leads b hb
  obtain ⟨path, hpath⟩ := ho.exists_specifier hpaths hd.defined (c.modulePathOf user)
  have hsymbol := h.ledger.symbol?_of_mem hb
  refine ⟨(path, ⟨b.origin, b.symbol⟩), ?_, ⟨d, hd.defined, hd.origin, hpath⟩, hsymbol, ?_⟩
  · rw [Binding.import?, hd.specifier, hpath, Option.map_some]
  · intro s hs
    have hsettled := h.settled _ s hs
    simp only [symbolFor?, hd.defined, hd.foreign, if_false, hsymbol] at hsettled
    exact (Option.some.inj hsettled).symm

end Context

theorem forall₂_filterMap {α β γ : Type} {R : β → γ → Prop} {key : α → β} {g : α → Option γ}
    {l : List α} (h : ∀ a ∈ l, ∃ e, g a = some e ∧ R (key a) e) :
    List.Forall₂ R (l.map key) (l.filterMap g) := by
  induction l with
  | nil => exact List.Forall₂.nil
  | cons a rest ih =>
    obtain ⟨e, he, hr⟩ := h a List.mem_cons_self
    rw [List.map_cons, List.filterMap_cons_some he]
    exact List.Forall₂.cons hr (ih fun a' ha' => h a' (List.mem_cons_of_mem a ha'))

/-- After any session, no two types have one symbol in a file, no symbol is that of a helper, and
own types have none. The imports are those of the types of other files that were resolved for the
file, each once, grouped by module. -/
theorem imports_record_resolutions (directory user : String) (calls : List Call)
    (hpaths : ∀ f ∈ (contextAfter { directory := directory } calls).files, f.modulePath ≠ "")
    (horder : RegisteredFirst user (eventsOf { directory := directory } calls)) :
    let c := contextAfter { directory := directory } calls
    let es := eventsOf { directory := directory } calls
    (∀ t t' s, c.symbol? user t = some s → c.symbol? user t' = some s → t = t') ∧
    (∀ t s, c.symbol? user t = some s → s ≠ "webapi" ∧ s ≠ "Express") ∧
    (∀ t d, c.definition? t = some d → d.file = user → c.symbol? user t = none) ∧
    c.directory = directory ∧
    ∃ entries : List (String × Import),
      transcript { directory := directory } (calls ++ [.imports user]) =
        transcript { directory := directory } calls ++
          [⟨.ok (.imports (Table.grouped entries)), []⟩] ∧
      List.Forall₂ (c.StandsFor user es) (c.foreignTypes user es) entries := by
  intro c es
  have hruns : Context.Runs { directory := directory } es c := session_runs _ calls
  have horderly := hruns.orderly (Context.Orderly.start directory)
  have hrecord := hruns.recorded hpaths horder
  refine ⟨?_, ?_, ?_, hruns.directory_eq, (c.bindingsOf user).filterMap Binding.import?, ?_, ?_⟩
  · intro t t' s ht ht'
    obtain ⟨b, hb, rfl, hs⟩ := Context.exists_of_symbol? ht
    obtain ⟨b', hb', rfl, hs'⟩ := Context.exists_of_symbol? ht'
    rw [hrecord.ledger.eq_of_symbol hb hb' (hs.trans hs'.symm)]
  · intro t s ht
    obtain ⟨b, hb, _, rfl⟩ := Context.exists_of_symbol? ht
    simpa [reservedNames] using hrecord.ledger.unreserved b hb
  · intro t d hd hfile
    exact hrecord.ledger.symbol?_own hd hfile
  · rw [transcript_append, ← Context.importsOf_eq]
    rfl
  · rw [← hrecord.types]
    exact forall₂_filterMap fun b hb => hrecord.standsFor horderly hpaths hb

/-- The first module is refused because one of its types is not known yet. -/
def clashingCalls : List Call :=
  [.register (userFile "a"), .module holderFile {}, .resolve ".a.User" "b.proto",
    .register (userFile "b"), .moduleNamed "c.proto" {}]

theorem imports_of_clashingCalls :
    RegisteredFirst "c.proto" (eventsOf {} clashingCalls) ∧
    ∃ entries : List (String × Import),
      transcript {} (clashingCalls ++ [.imports "c.proto"]) =
        transcript {} clashingCalls ++ [⟨.ok (.imports (Table.grouped entries)), []⟩] ∧
      List.Forall₂
        ((contextAfter {} clashingCalls).StandsFor "c.proto" (eventsOf {} clashingCalls))
        [".a.User", ".b.User"] entries := by
  have horder : RegisteredFirst "c.proto" (eventsOf {} clashingCalls) := by decide +kernel
  have htypes : (contextAfter {} clashingCalls).foreignTypes "c.proto"
      (eventsOf {} clashingCalls) = [".a.User", ".b.User"] := by decide +kernel
  obtain ⟨_, _, _, _, entries, htranscript, hentries⟩ :=
    imports_record_resolutions "/" "c.proto" clashingCalls (by decide +kernel) horder
  exact ⟨horder, entries, htranscript, htypes ▸ hentries⟩

end ProtoStubs
