import ProtoStubs.Proofs.Demands
import ProtoStubs.Proofs.Registration
import ProtoStubs.Proofs.Tables

/-!
The bindings of one file. No type is bound twice, and only types of other files are. A symbol stands
for one type only, and neither a helper nor a type of the file itself goes by it. Resolving keeps
this up for every file, and so does registering for files that have no bindings yet when they come
in. The imports of the file are its bindings, grouped by the modules they come from.
-/

namespace ProtoStubs

def Binding.import? (b : Binding) : Option (String × Import) :=
  b.specifier.map fun path => (path, ⟨b.origin, b.symbol⟩)

namespace Context

variable {c c' : Context} {f : SchemaFile} {user t s : String} {d : Definition}

theorem importsOf_eq (c : Context) (user : String) :
    c.importsOf user = Table.grouped ((c.bindingsOf user).filterMap Binding.import?) := by
  rw [← Table.foldl_push, List.foldl_filterMap, importsOf]
  congr
  funext table b
  unfold Binding.import?
  cases b.specifier <;> rfl

theorem mem_imports_iff {i : String × Import} :
    i ∈ (c.importsOf user).pairs ↔ ∃ b ∈ c.bindingsOf user, b.import? = some i := by
  rw [importsOf_eq, (Table.pairs_grouped _).mem_iff, List.mem_filterMap]

theorem exists_of_symbol? (h : c.symbol? user t = some s) :
    ∃ b ∈ c.bindingsOf user, b.typeName = t ∧ b.symbol = s := by
  obtain ⟨b, hb, hs⟩ := Option.map_eq_some_iff.mp h
  exact ⟨b, List.mem_of_find?_eq_some hb, by simpa using List.find?_some hb, hs⟩

theorem symbol?_eq_none_iff :
    c.symbol? user t = none ↔ t ∉ (c.bindingsOf user).map (·.typeName) := by
  simp [symbol?]

/-- A new binding has a symbol that no other binding of the file has. -/
theorem nodup_symbols_bind (h : ((c.bindingsOf user).map (·.symbol)).Nodup) (d : Definition) :
    (((c.bind (c.newBinding user d)).bindingsOf user).map (·.symbol)).Nodup := by
  have hnew : (c.newBinding user d).symbol ∉ (c.bindingsOf user).map (·.symbol) :=
    fun hmem => newBinding_symbol_notMem c user d (List.mem_append_right _ hmem)
  rw [bindingsOf_newBinding, List.map_append, List.map_singleton]
  exact h.append (List.nodup_singleton _) (List.disjoint_singleton.mpr hnew)

/-- The binding is for a type of another file, and leads to that type. -/
structure Leads (c : Context) (user : String) (b : Binding) (d : Definition) : Prop where
  defined : c.definition? b.typeName = some d
  foreign : d.file ≠ user
  origin : b.origin = d.flatName
  specifier : b.specifier = Layout.specifier? c.directory (c.modulePathOf user) d.modulePath

structure Ledger (c : Context) (user : String) : Prop where
  types : ((c.bindingsOf user).map (·.typeName)).Nodup
  symbols : ((c.bindingsOf user).map (·.symbol)).Nodup
  unreserved : ∀ b ∈ c.bindingsOf user, b.symbol ∉ reservedNames
  unowned : ∀ b ∈ c.bindingsOf user, ∀ d ∈ c.definitions, d.file = user → d.flatName ≠ b.symbol
  leads : ∀ b ∈ c.bindingsOf user, ∃ d, c.Leads user b d

namespace Ledger

theorem of_bindingsOf_eq_nil (h : c.bindingsOf user = []) : c.Ledger user := by
  constructor <;> simp [h]

/-- The bindings stay in order in a context that knows no less, as long as the file itself stays as
it is. -/
theorem frame (h : c.Ledger user) (hdirectory : c'.directory = c.directory)
    (hbindings : c'.bindingsOf user = c.bindingsOf user)
    (hplace : c'.modulePathOf user = c.modulePathOf user)
    (hown : ∀ d ∈ c'.definitions, d.file = user → d ∈ c.definitions)
    (hdefined : ∀ t d, c.definition? t = some d → c'.definition? t = some d) :
    c'.Ledger user where
  types := by rw [hbindings]; exact h.types
  symbols := by rw [hbindings]; exact h.symbols
  unreserved := by rw [hbindings]; exact h.unreserved
  unowned := by
    rw [hbindings]
    exact fun b hb d hd hfile => h.unowned b hb d (hown d hd hfile) hfile
  leads := by
    rw [hbindings]
    intro b hb
    obtain ⟨d, hd⟩ := h.leads b hb
    exact ⟨d, hdefined _ d hd.defined, hd.foreign, hd.origin,
      by rw [hdirectory, hplace]; exact hd.specifier⟩

theorem gains {other : String} (h : c.Ledger user) (hg : c.Gains other c') (hne : user ≠ other) :
    c'.Ledger user := by
  apply h.frame hg.directory_eq (hg.bindingsOf_eq hne) (hg.modulePathOf_eq user)
  · intro d hd _
    rwa [hg.definitions_eq] at hd
  · intro t d hd
    rwa [hg.definition?_eq]

theorem bind (h : c.Ledger user) (hd : c.Unbound user t d) :
    (c.bind (c.newBinding user d)).Ledger user := by
  have htaken := newBinding_symbol_notMem c user d
  rw [mem_taken_iff, not_or, not_or] at htaken
  obtain ⟨hreserved, howned, _⟩ := htaken
  constructor
  · rw [bindingsOf_newBinding, List.map_append, List.map_singleton, hd.typeName_newBinding]
    exact h.types.append (List.nodup_singleton t) (by simpa using symbol?_eq_none_iff.mp hd.unbound)
  · exact nodup_symbols_bind h.symbols d
  · rw [bindingsOf_newBinding, List.forall_mem_append, List.forall_mem_singleton]
    exact ⟨h.unreserved, hreserved⟩
  · rw [bindingsOf_newBinding, List.forall_mem_append, List.forall_mem_singleton]
    exact ⟨h.unowned, fun d' hd' hfile heq => howned ⟨d', hd', hfile, heq⟩⟩
  · rw [bindingsOf_newBinding, List.forall_mem_append, List.forall_mem_singleton]
    refine ⟨fun b hb => ?_, d, ?_, hd.foreign, rfl, rfl⟩
    · obtain ⟨d', hd'⟩ := h.leads b hb
      exact ⟨d', hd'.defined, hd'.foreign, hd'.origin, hd'.specifier⟩
    · rw [hd.typeName_newBinding]
      exact hd.defined

theorem resolve (h : c.Ledger user) (t asking : String) :
    ((Step.resolve t asking).run c).context.Ledger user := by
  by_cases hne : user = asking
  · subst hne
    rcases lookup_cases c user t with hnone | ⟨s, hs⟩ | ⟨d, hd⟩
    · rw [Step.resolve_undefined user hnone]
      exact h
    · rw [Step.resolve_settled hs]
      exact h
    · rw [Step.resolve_unbound hd]
      exact h.bind hd
  · exact h.gains (Step.resolve_gains c t asking) hne

/-- A file that comes in does not disturb the bindings of the others. -/
theorem enroll (h : c.Ledger user) (hne : f.name ≠ user) : (c.enroll f).Ledger user := by
  apply h.frame (directory_enroll c f) (bindingsOf_enroll c f user)
  · rw [modulePathOf, file?_enroll, if_neg hne, Option.or_none, modulePathOf]
  · intro d hd hfile
    rcases mem_definitions_defineAll hd with hold | ⟨e, _, rfl⟩
    · exact hold
    · exact (hne hfile).elim
  · intro t d hd
    rw [definition?_enroll, hd, Option.some_or]

theorem symbol?_of_mem {b : Binding} (h : c.Ledger user) (hb : b ∈ c.bindingsOf user) :
    c.symbol? user b.typeName = some b.symbol := by
  rw [symbol?, find?_eq_some_of_nodup Binding.typeName h.types hb, Option.map_some]

theorem eq_of_symbol {b b' : Binding} (h : c.Ledger user) (hb : b ∈ c.bindingsOf user)
    (hb' : b' ∈ c.bindingsOf user) (hs : b.symbol = b'.symbol) : b = b' :=
  List.inj_on_of_nodup_map h.symbols hb hb' hs

theorem symbol?_own (h : c.Ledger user) (hd : c.definition? t = some d) (hfile : d.file = user) :
    c.symbol? user t = none := by
  cases hs : c.symbol? user t with
  | none => rfl
  | some s =>
    obtain ⟨b, hb, rfl, _⟩ := exists_of_symbol? hs
    obtain ⟨d', hd'⟩ := h.leads b hb
    obtain rfl : d = d' := Option.some.inj (hd.symm.trans hd'.defined)
    exact (hd'.foreign hfile).elim

/-- Each binding that can be imported is the one import under its symbol. -/
theorem filter_imports {b : Binding} {path : String} (h : c.Ledger user)
    (hb : b ∈ c.bindingsOf user) (hpath : b.specifier = some path) :
    (c.importsOf user).pairs.filter (·.2.symbol = b.symbol) =
      [(path, ⟨b.origin, b.symbol⟩)] := by
  have himport : b.import? = some (path, ⟨b.origin, b.symbol⟩) := by
    rw [Binding.import?, hpath, Option.map_some]
  have hfilter : ((c.bindingsOf user).filterMap Binding.import?).filter (·.2.symbol = b.symbol) =
      ((c.bindingsOf user).filter (·.symbol = b.symbol)).filterMap Binding.import? := by
    rw [List.filter_filterMap, List.filterMap_filter]
    apply List.filterMap_congr
    intro b' _
    cases hs : b'.specifier with
    | none => simp [Binding.import?, hs]
    | some path' => by_cases hb' : b'.symbol = b.symbol <;> simp [Binding.import?, hs, hb']
  have hperm := (Table.pairs_grouped ((c.bindingsOf user).filterMap Binding.import?)).filter
    (·.2.symbol = b.symbol)
  rw [hfilter, filter_eq_singleton_of_nodup Binding.symbol h.symbols hb,
    List.filterMap_cons_some himport, List.filterMap_nil] at hperm
  rw [importsOf_eq]
  exact List.perm_singleton.mp hperm

/-- Nothing is imported under another symbol than that of a binding. -/
theorem exists_of_mem_imports {i : String × Import} (hi : i ∈ (c.importsOf user).pairs) :
    ∃ b ∈ c.bindingsOf user, b.symbol = i.2.symbol := by
  obtain ⟨b, hb, himport⟩ := mem_imports_iff.mp hi
  obtain ⟨path, _, rfl⟩ := Option.map_eq_some_iff.mp himport
  exact ⟨b, hb, rfl⟩

end Ledger

end Context

end ProtoStubs
