import ProtoStubs.Proofs.FreshNames
import ProtoStubs.Session

/-!
What resolving a type can do. An undefined type is refused. A type that the asking file has a symbol
for already, as its own or through a binding, costs nothing. For any other type one binding is added
at the end, and nothing else of the context changes. All later proofs go through these three cases.
-/

namespace ProtoStubs

namespace Context

variable {c c' c'' : Context} {user other t s : String} {d : Definition} {b : Binding}

/-- The symbol of a type in the file `user`, as far as it is settled: the flat name of an own type,
else the symbol of the binding. -/
def symbolFor? (c : Context) (user typeName : String) : Option String :=
  match c.definition? typeName with
  | some d => if d.file = user then some d.flatName else c.symbol? user typeName
  | none => none

/-- A type of another file that `user` has no binding for. -/
structure Unbound (c : Context) (user typeName : String) (d : Definition) : Prop where
  defined : c.definition? typeName = some d
  foreign : d.file ≠ user
  unbound : c.symbol? user typeName = none

def newBinding (c : Context) (user : String) (d : Definition) : Binding :=
  ⟨user, d.fullName, d.flatName, freeName (c.taken user) d.flatName,
    Layout.specifier? c.directory (c.modulePathOf user) d.modulePath⟩

theorem definition?_fullName (h : c.definition? t = some d) : d.fullName = t := by
  simpa using List.find?_some h

theorem mem_of_definition? (h : c.definition? t = some d) : d ∈ c.definitions :=
  List.mem_of_find?_eq_some h

theorem file?_name {f : SchemaFile} (h : c.file? t = some f) : f.name = t := by
  simpa using List.find?_some h

theorem mem_of_file? {f : SchemaFile} (h : c.file? t = some f) : f ∈ c.files :=
  List.mem_of_find?_eq_some h

theorem mem_taken_iff (c : Context) (user s : String) :
    s ∈ c.taken user ↔ s ∈ reservedNames ∨
      (∃ d ∈ c.definitions, d.file = user ∧ d.flatName = s) ∨
      ∃ b ∈ c.bindingsOf user, b.symbol = s := by
  simp only [taken, List.mem_append, List.mem_map, List.mem_filter, beq_iff_eq, and_assoc, or_assoc]

theorem lookup_cases (c : Context) (user t : String) :
    c.definition? t = none ∨ (∃ s, c.symbolFor? user t = some s) ∨ ∃ d, c.Unbound user t d := by
  cases hd : c.definition? t with
  | none => exact Or.inl rfl
  | some d =>
    by_cases hfile : d.file = user
    · exact Or.inr (Or.inl ⟨d.flatName, by simp [symbolFor?, hd, hfile]⟩)
    · cases hs : c.symbol? user t with
      | some s => exact Or.inr (Or.inl ⟨s, by simp [symbolFor?, hd, hfile, hs]⟩)
      | none => exact Or.inr (Or.inr ⟨d, hd, hfile, hs⟩)

theorem exists_definition_of_symbolFor? (h : c.symbolFor? user t = some s) :
    ∃ d, c.definition? t = some d := by
  cases hd : c.definition? t with
  | none => simp [symbolFor?, hd] at h
  | some d => exact ⟨d, rfl⟩

theorem symbolFor?_congr (hd : c.definition? t = c'.definition? t)
    (hs : c.symbol? user t = c'.symbol? user t) :
    c.symbolFor? user t = c'.symbolFor? user t := by
  simp only [symbolFor?, hd, hs]

theorem symbol?_congr (h : c.bindingsOf user = c'.bindingsOf user) (t : String) :
    c.symbol? user t = c'.symbol? user t := by
  simp only [symbol?, h]

/-- The context has gained bindings of `user` and is otherwise the same. -/
def Gains (user : String) (c c' : Context) : Prop :=
  ∃ new : List Binding, (∀ b ∈ new, b.user = user) ∧ c' = { c with bindings := c.bindings ++ new }

namespace Gains

theorem refl (user : String) (c : Context) : c.Gains user c := ⟨[], by simp, by simp⟩

theorem trans (h : c.Gains user c') (h' : c'.Gains user c'') : c.Gains user c'' := by
  obtain ⟨new, hnew, rfl⟩ := h
  obtain ⟨new', hnew', rfl⟩ := h'
  refine ⟨new ++ new', ?_, by simp⟩
  intro b hb
  rcases List.mem_append.mp hb with hb | hb
  · exact hnew b hb
  · exact hnew' b hb

theorem bind (c : Context) (h : b.user = user) : c.Gains user (c.bind b) :=
  ⟨[b], by simpa using h, rfl⟩

theorem directory_eq (h : c.Gains user c') : c'.directory = c.directory := by
  obtain ⟨new, _, rfl⟩ := h
  rfl

theorem files_eq (h : c.Gains user c') : c'.files = c.files := by
  obtain ⟨new, _, rfl⟩ := h
  rfl

theorem definitions_eq (h : c.Gains user c') : c'.definitions = c.definitions := by
  obtain ⟨new, _, rfl⟩ := h
  rfl

theorem definition?_eq (h : c.Gains user c') (t : String) :
    c'.definition? t = c.definition? t := by
  rw [definition?, h.definitions_eq, definition?]

theorem file?_eq (h : c.Gains user c') (name : String) : c'.file? name = c.file? name := by
  rw [file?, h.files_eq, file?]

theorem modulePathOf_eq (h : c.Gains user c') (name : String) :
    c'.modulePathOf name = c.modulePathOf name := by
  rw [modulePathOf, h.file?_eq, modulePathOf]

theorem bindingsOf_eq (h : c.Gains user c') (hne : other ≠ user) :
    c'.bindingsOf other = c.bindingsOf other := by
  obtain ⟨new, hnew, rfl⟩ := h
  have hnone : new.filter (·.user == other) = [] := by
    apply List.filter_eq_nil_iff.mpr
    intro b hb
    simpa [hnew b hb] using Ne.symm hne
  simp [bindingsOf, hnone]

theorem mem_bindingsOf (h : c.Gains user c') (hb : b ∈ c.bindingsOf other) :
    b ∈ c'.bindingsOf other := by
  obtain ⟨new, _, rfl⟩ := h
  rw [bindingsOf, List.filter_append]
  exact List.mem_append_left _ hb

/-- A symbol that is settled stays settled. -/
theorem symbolFor?_eq (h : c.Gains user c') (hs : c.symbolFor? other t = some s) :
    c'.symbolFor? other t = some s := by
  obtain ⟨new, _, rfl⟩ := h
  have hdef : definition? { c with bindings := c.bindings ++ new } t = c.definition? t := rfl
  unfold symbolFor? at hs ⊢
  rw [hdef]
  cases hd : c.definition? t with
  | none => simp [hd] at hs
  | some d =>
    by_cases hfile : d.file = other
    · simpa [hd, hfile] using hs
    · simp only [hd, hfile, if_false, symbol?, bindingsOf, List.filter_append,
        List.find?_append, Option.map_eq_some_iff] at hs ⊢
      obtain ⟨b, hb, hsymbol⟩ := hs
      exact ⟨b, by rw [hb, Option.some_or], hsymbol⟩

end Gains

theorem Unbound.typeName_newBinding (h : c.Unbound user t d) :
    (c.newBinding user d).typeName = t := definition?_fullName h.defined

theorem bindingsOf_bind (c : Context) (b : Binding) :
    (c.bind b).bindingsOf b.user = c.bindingsOf b.user ++ [b] := by
  simp [bindingsOf, bind]

theorem bindingsOf_newBinding (c : Context) (user : String) (d : Definition) :
    (c.bind (c.newBinding user d)).bindingsOf user =
      c.bindingsOf user ++ [c.newBinding user d] := bindingsOf_bind c (c.newBinding user d)

theorem Unbound.symbolFor?_bind (h : c.Unbound user t d) :
    (c.bind (c.newBinding user d)).symbolFor? user t = some (c.newBinding user d).symbol := by
  have hdef : (c.bind (c.newBinding user d)).definition? t = some d := h.defined
  have hnone : (c.bindingsOf user).find? (·.typeName == t) = none := by
    simpa [symbol?] using h.unbound
  simp only [symbolFor?, hdef, h.foreign, if_false, symbol?]
  rw [bindingsOf_newBinding, List.find?_append, hnone]
  simp [h.typeName_newBinding]

theorem newBinding_symbol_notMem (c : Context) (user : String) (d : Definition) :
    (c.newBinding user d).symbol ∉ c.taken user := freeName_notMem _ _

end Context

def Binding.answer (b : Binding) : Logged String :=
  match b.specifier with
  | some path => ⟨.ok b.symbol, [.imported b.user b.typeName b.symbol path]⟩
  | none => ⟨.error .emptyModulePath, []⟩

namespace Step

open Context

variable {c : Context} {user t s : String} {d : Definition}

theorem resolve_undefined (user : String) (h : c.definition? t = none) :
    (resolve t user).run c = ⟨⟨.error (.unresolvedType t user), []⟩, c⟩ := by
  simp [run, resolve, h]

theorem resolve_settled (h : c.symbolFor? user t = some s) :
    (resolve t user).run c = ⟨⟨.ok s, []⟩, c⟩ := by
  unfold symbolFor? at h
  cases hd : c.definition? t with
  | none => simp [hd] at h
  | some d =>
    by_cases hfile : d.file = user
    · have hs : d.flatName = s := by simpa [hd, hfile] using h
      simp [run, resolve, hd, hfile, hs]
    · have hs : c.symbol? user t = some s := by simpa [hd, hfile] using h
      simp [run, resolve, hd, hfile, hs]

theorem resolve_unbound (h : c.Unbound user t d) :
    (resolve t user).run c =
      ⟨(c.newBinding user d).answer, c.bind (c.newBinding user d)⟩ := by
  have hname : d.fullName = t := definition?_fullName h.defined
  simp only [run, resolve, h.defined, h.foreign, h.unbound, if_false, newBinding,
    Binding.answer, hname]
  cases Layout.specifier? c.directory (c.modulePathOf user) d.modulePath <;> rfl

theorem resolve_gains (c : Context) (t user : String) :
    c.Gains user ((resolve t user).run c).context := by
  rcases lookup_cases c user t with h | ⟨s, h⟩ | ⟨d, h⟩
  · rw [resolve_undefined user h]
    exact Gains.refl user c
  · rw [resolve_settled h]
    exact Gains.refl user c
  · rw [resolve_unbound h]
    exact Gains.bind c rfl

/-- There are two ways to fail. An undefined type is refused and leaves no trace. A type of a module
without a path is bound like any other, and then there is no way to import it. -/
theorem resolve_error {fault : Fault} (h : ((resolve t user).run c).result = .error fault) :
    c.definition? t = none ∧ fault = .unresolvedType t user ∧
        ((resolve t user).run c).context = c ∨
      ∃ d, c.Unbound user t d ∧ d.modulePath = "" ∧ fault = .emptyModulePath ∧
        ((resolve t user).run c).context = c.bind (c.newBinding user d) := by
  rcases lookup_cases c user t with hnone | ⟨s, hs⟩ | ⟨d, hd⟩
  · rw [resolve_undefined user hnone] at h ⊢
    exact Or.inl ⟨hnone, (Except.error.inj h).symm, rfl⟩
  · simp [resolve_settled hs] at h
  · rw [resolve_unbound hd] at h ⊢
    by_cases hpath : d.modulePath = ""
    · have hnone : (c.newBinding user d).specifier = none := if_pos hpath
      rw [Binding.answer, hnone] at h
      exact Or.inr ⟨d, hd, hpath, (Except.error.inj h).symm, rfl⟩
    · have hsome : ∃ path, (c.newBinding user d).specifier = some path := ⟨_, if_neg hpath⟩
      obtain ⟨path, hsome⟩ := hsome
      simp [Binding.answer, hsome] at h

/-- A type that was resolved is settled from then on. -/
theorem symbolFor?_of_resolve (h : ((resolve t user).run c).result = .ok s) :
    ((resolve t user).run c).context.symbolFor? user t = some s := by
  rcases lookup_cases c user t with hnone | ⟨s', hs⟩ | ⟨d, hd⟩
  · simp [resolve_undefined user hnone] at h
  · rw [resolve_settled hs] at h ⊢
    simpa [hs] using h
  · rw [resolve_unbound hd] at h ⊢
    have hsymbol : (c.newBinding user d).symbol = s := by
      unfold Binding.answer at h
      split at h
      · simpa using h
      · simp at h
    rw [← hsymbol]
    exact hd.symbolFor?_bind

end Step

end ProtoStubs
