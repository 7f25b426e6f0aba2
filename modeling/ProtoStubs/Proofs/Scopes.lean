import Mathlib.Data.List.Nodup
import Mathlib.Data.List.Perm.Basic
import ProtoStubs.Proofs.References

/-!
The scopes of a schema file: the file itself, and each of its messages that is no map entry and lies
in none. A type is given by its path, the names of the messages around it and its own. The types
that a file declares, and those that its module writes, are the types of its scopes, though they
are listed in other orders. If names are distinct within each scope, then so are all paths.
-/

namespace ProtoStubs

/-- The messages and enumerations that stand side by side, with the names of the messages around
them. -/
structure Scope where
  path : List String
  messages : List Message
  enums : List EnumDef

mutual

def Message.scopes (path : List String) : Message → List Scope
  | ⟨name, _, nested, enums, mapEntry⟩ =>
      if mapEntry then []
      else ⟨path ++ [name], nested, enums⟩ :: Message.scopesIn (path ++ [name]) nested

def Message.scopesIn (path : List String) : List Message → List Scope
  | [] => []
  | m :: rest => m.scopes path ++ Message.scopesIn path rest

end

/-- An enumeration without values is declared but not written. -/
def EnumDef.isWritten (e : EnumDef) : Bool := !e.values.isEmpty

namespace Scope

variable {keep : EnumDef → Bool} {s : Scope}

/-- The names in a scope, with those enumerations that `keep` picks. -/
def names (keep : EnumDef → Bool) (s : Scope) : List String :=
  (ordinaryIn s.messages).map (·.name) ++ (s.enums.filter keep).map (·.name)

def paths (keep : EnumDef → Bool) (s : Scope) : List (List String) :=
  (s.names keep).map fun name => s.path ++ [name]

/-- The names in a scope are not empty, and no two of them are alike. -/
structure WellNamed (s : Scope) : Prop where
  nodup : (s.names fun _ => true).Nodup
  nonempty : "" ∉ s.names fun _ => true

instance (s : Scope) : Decidable s.WellNamed :=
  decidable_of_iff ((s.names fun _ => true).Nodup ∧ "" ∉ s.names fun _ => true)
    ⟨fun h => ⟨h.1, h.2⟩, fun h => ⟨h.nodup, h.nonempty⟩⟩

theorem names_sublist (keep : EnumDef → Bool) (s : Scope) :
    (s.names keep).Sublist (s.names fun _ => true) := by
  rw [names, names, List.filter_true]
  exact (List.Sublist.refl _).append (List.filter_sublist.map _)

theorem WellNamed.nodup_paths (h : s.WellNamed) (keep : EnumDef → Bool) : (s.paths keep).Nodup := by
  apply List.Nodup.map _ ((s.names_sublist keep).nodup h.nodup)
  intro name name' heq
  simpa using heq

theorem map_paths {α : Type} (keep : EnumDef → Bool) (s : Scope) (g : List String → α) :
    (s.paths keep).map g = ((ordinaryIn s.messages).map fun m => g (s.path ++ [m.name])) ++
      (s.enums.filter keep).map fun e => g (s.path ++ [e.name]) := by
  simp [paths, names, Function.comp_def]

theorem WellNamed.nodup_messages (h : s.WellNamed) :
    ((ordinaryIn s.messages).map (·.name)).Nodup :=
  (List.nodup_append.mp h.nodup).1

end Scope

namespace SchemaFile

def scopes (f : SchemaFile) : List Scope :=
  ⟨[], f.messages, f.enums⟩ :: Message.scopesIn [] f.messages

def pathsOf (keep : EnumDef → Bool) (f : SchemaFile) : List (List String) :=
  f.scopes.flatMap (Scope.paths keep)

def paths (f : SchemaFile) : List (List String) := f.pathsOf fun _ => true

def exports (f : SchemaFile) : List (List String) := f.pathsOf EnumDef.isWritten

def WellNamed (f : SchemaFile) : Prop := ∀ s ∈ f.scopes, s.WellNamed

instance (f : SchemaFile) : Decidable f.WellNamed :=
  inferInstanceAs (Decidable (∀ s ∈ f.scopes, s.WellNamed))

end SchemaFile

namespace Message

variable {α : Type} {path : List String} {ms : List Message}

/-- What holds of messages if it holds of all that is nested in them holds of all messages. -/
theorem nested_induction {P : List Message → Prop}
    (step : ∀ ms, (∀ m ∈ ms, P m.nested) → P ms) (ms : List Message) : P ms :=
  step ms fun m _ => nested_induction step m.nested
termination_by sizeOf ms
decreasing_by exact sizeOf_nested_lt ‹_›

/-- The same, one message after another. -/
theorem forest_induction {P : List Message → Prop} (nil : P [])
    (cons : ∀ m rest, P m.nested → P rest → P (m :: rest)) (ms : List Message) : P ms := by
  induction ms using nested_induction with
  | step ms ih =>
    induction ms with
    | nil => exact nil
    | cons m rest ihrest =>
      obtain ⟨hm, hrest⟩ := List.forall_mem_cons.mp ih
      exact cons m rest hm (ihrest hrest)

def scope (path : List String) (m : Message) : Scope := ⟨path ++ [m.name], m.nested, m.enums⟩

theorem scopesIn_eq (path : List String) (ms : List Message) :
    scopesIn path ms = (ordinaryIn ms).flatMap fun m =>
      m.scope path :: scopesIn (path ++ [m.name]) m.nested := by
  induction ms with
  | nil => rfl
  | cons m rest ih =>
    obtain ⟨name, fields, nested, enums, mapEntry⟩ := m
    rw [scopesIn, scopes, ih]
    cases mapEntry <;> rfl

theorem exists_path_eq {s : Scope} (h : s ∈ scopesIn path ms) :
    ∃ name inner, s.path = path ++ name :: inner := by
  induction ms using nested_induction generalizing path with
  | step ms ih =>
    rw [scopesIn_eq, List.mem_flatMap] at h
    obtain ⟨m, hm, hs⟩ := h
    rcases List.mem_cons.mp hs with rfl | hs
    · exact ⟨m.name, [], rfl⟩
    · obtain ⟨name, inner, heq⟩ := ih m (List.mem_of_mem_filter hm) hs
      exact ⟨m.name, name :: inner, by rw [heq, List.append_assoc, List.singleton_append]⟩

/-- The scopes of a message have its name in their paths. -/
theorem exists_path_eq_of_scope {s : Scope} {m : Message}
    (h : s ∈ m.scope path :: scopesIn (path ++ [m.name]) m.nested) :
    ∃ inner, s.path = path ++ m.name :: inner := by
  rcases List.mem_cons.mp h with rfl | hs
  · exact ⟨[], rfl⟩
  · obtain ⟨name, inner, heq⟩ := exists_path_eq hs
    exact ⟨name :: inner, by rw [heq, List.append_assoc, List.singleton_append]⟩

theorem wellNamed_of_scopesIn {m : Message} (h : ∀ s ∈ scopesIn path ms, s.WellNamed)
    (hm : m ∈ ordinaryIn ms) :
    (m.scope path).WellNamed ∧ ∀ s ∈ scopesIn (path ++ [m.name]) m.nested, s.WellNamed := by
  rw [scopesIn_eq] at h
  exact List.forall_mem_cons.mp fun s hs => h s (List.mem_flatMap.mpr ⟨m, hm, hs⟩)

/-- No two scopes have the same path. -/
theorem nodup_scopesIn (hms : ((ordinaryIn ms).map (·.name)).Nodup)
    (h : ∀ s ∈ scopesIn path ms, s.WellNamed) : ((scopesIn path ms).map (·.path)).Nodup := by
  induction ms using nested_induction generalizing path with
  | step ms ih =>
    rw [scopesIn_eq, List.map_flatMap, List.nodup_flatMap]
    constructor
    · intro m hm
      obtain ⟨hself, hnested⟩ := wellNamed_of_scopesIn h hm
      rw [List.map_cons, List.nodup_cons]
      refine ⟨?_, ih m (List.mem_of_mem_filter hm) hself.nodup_messages hnested⟩
      -- The paths of nested scopes are longer.
      intro hmem
      obtain ⟨s, hs, heq⟩ := List.mem_map.mp hmem
      obtain ⟨name, inner, hlong⟩ := exists_path_eq hs
      simp [scope, hlong] at heq
    · apply (List.pairwise_map.mp hms).imp
      intro m m' hne p hp hp'
      obtain ⟨s, hs, rfl⟩ := List.mem_map.mp hp
      obtain ⟨s', hs', heq⟩ := List.mem_map.mp hp'
      obtain ⟨inner, hpath⟩ := exists_path_eq_of_scope hs
      obtain ⟨inner', hpath'⟩ := exists_path_eq_of_scope hs'
      rw [hpath, hpath', List.append_cancel_left_eq, List.cons.injEq] at heq
      exact hne heq.1.symm

/-- What holds of all names in scopes holds of all names in their paths. -/
theorem of_mem_path {P : String → Prop} {s : Scope} (hpath : ∀ n ∈ path, P n)
    (hms : ∀ m ∈ ordinaryIn ms, P m.name)
    (h : ∀ s ∈ scopesIn path ms, ∀ n ∈ s.names fun _ => true, P n) (hs : s ∈ scopesIn path ms) :
    ∀ n ∈ s.path, P n := by
  induction ms using nested_induction generalizing path with
  | step ms ih =>
    rw [scopesIn_eq] at hs h
    obtain ⟨m, hm, hs⟩ := List.mem_flatMap.mp hs
    have hself : ∀ n ∈ path ++ [m.name], P n :=
      List.forall_mem_append.mpr ⟨hpath, List.forall_mem_singleton.mpr (hms m hm)⟩
    obtain ⟨hown, hnested⟩ := List.forall_mem_cons.mp
      fun s hs => h s (List.mem_flatMap.mpr ⟨m, hm, hs⟩)
    rcases List.mem_cons.mp hs with rfl | hs
    · exact hself
    · refine ih m (List.mem_of_mem_filter hm) hself (fun m' hm' => ?_) hnested hs
      exact hown m'.name (List.mem_append_left _ (List.mem_map_of_mem hm'))

/-- Any way of listing types that takes each message before or after what is nested in it lists the
types of the scopes. -/
theorem perm_scopes {keep : EnumDef → Bool} {g : List String → α}
    (listed : List String → List Message → List α)
    (hlisted : ∀ path ms, (listed path ms).Perm ((ordinaryIn ms).flatMap fun m =>
      g (path ++ [m.name]) :: (((m.enums.filter keep).map fun e => g (path ++ [m.name] ++ [e.name]))
        ++ listed (path ++ [m.name]) m.nested)))
    (path : List String) (ms : List Message) :
    (listed path ms).Perm (((ordinaryIn ms).map fun m => g (path ++ [m.name])) ++
      ((scopesIn path ms).flatMap (Scope.paths keep)).map g) := by
  induction ms using nested_induction generalizing path with
  | step ms ih =>
    have hparts : ∀ m ∈ ordinaryIn ms,
        (((m.enums.filter keep).map fun e => g (path ++ [m.name] ++ [e.name])) ++
          listed (path ++ [m.name]) m.nested).Perm
        (((m.scope path :: scopesIn (path ++ [m.name]) m.nested).flatMap
          (Scope.paths keep)).map g) := by
      intro m hm
      rw [List.flatMap_cons, List.map_append, Scope.map_paths]
      refine ((ih m (List.mem_of_mem_filter hm) (path ++ [m.name])).append_left _).trans ?_
      rw [← List.append_assoc]
      exact List.perm_append_comm.append_right _
    rw [scopesIn_eq, List.flatMap_assoc, List.map_flatMap, List.map_eq_flatMap]
    refine (hlisted path ms).trans (List.Perm.trans ?_ (List.flatMap_append_perm _ _ _).symm)
    exact List.Perm.flatMap_left _ fun m hm => (hparts m hm).cons _

theorem declaredIn_eq (package : String) (path : List String) (ms : List Message) :
    declaredIn package path ms = (ordinaryIn ms).flatMap fun m =>
      .ofPath package (path ++ [m.name]) :: (declaredIn package (path ++ [m.name]) m.nested ++
        m.enums.map (EnumDef.declared package (path ++ [m.name]))) := by
  induction ms with
  | nil => rfl
  | cons m rest ih =>
    obtain ⟨name, fields, nested, enums, mapEntry⟩ := m
    rw [declaredIn, declared, ih]
    cases mapEntry <;> rfl

theorem outlines_eq (package outer : String) (path : List String) (ms : List Message) :
    outlines package outer path ms = (ordinaryIn ms).flatMap (outline package outer path) := by
  induction ms with
  | nil => rfl
  | cons m rest ih =>
    rw [outlines, ih, ordinaryIn, ordinaryIn, List.filter_cons]
    cases m.mapEntry <;> rfl

end Message

def Block.declared? {ρ : Type} : Block ρ → Option String
  | .enum name _ => some name
  | .interface name _ => some name
  | .stub _ _ _ _ _ => none
  | .exports _ => none

def Item.declared? (item : Item) : Option String := item.block?.bind Block.declared?

def Module.declaredNames (m : Module) : List String := m.blocks.filterMap Block.declared?

theorem Block.declared?_subst {ρ σ : Type} (g : ρ → TypeExpr σ) (b : Block ρ) :
    (b.subst g).declared? = b.declared? := by
  cases b <;> rfl

theorem Context.declared?_blocksFor (c : Context) (user : String) (items : List Item) :
    (c.blocksFor user items).filterMap Block.declared? = items.filterMap Item.declared? := by
  rw [blocksFor, List.filterMap_map, List.filterMap_filterMap]
  congr 1
  funext item
  simp only [Item.declared?, Function.comp_def, Block.declared?_subst]

theorem EnumDef.declared?_outline (outer : String) (es : List EnumDef) :
    (es.flatMap (EnumDef.outline outer)).filterMap Item.declared? =
      (es.filter isWritten).map fun e => outer ++ e.name := by
  induction es with
  | nil => rfl
  | cons e rest ih =>
    rw [List.flatMap_cons, List.filterMap_append, ih, outline, List.filter_cons, isWritten]
    cases e.values.isEmpty <;> rfl

namespace Message

/-- The types that messages declare are those of their scopes. -/
theorem declaredIn_perm (package : String) (path : List String) (ms : List Message) :
    (declaredIn package path ms).Perm
      (((ordinaryIn ms).map fun m => Declared.ofPath package (path ++ [m.name])) ++
        ((scopesIn path ms).flatMap (Scope.paths fun _ => true)).map (Declared.ofPath package)) := by
  refine perm_scopes (declaredIn package) ?_ path ms
  intro path ms
  rw [declaredIn_eq]
  apply List.Perm.flatMap_left
  intro m _
  rw [List.filter_true]
  exact List.perm_append_comm.cons _

/-- The declarations of messages are written under the flat names of their paths. -/
theorem declared?_outlines_perm (package : String) (path : List String) (ms : List Message) :
    ((outlines package (String.join path) path ms).filterMap Item.declared?).Perm
      (((ordinaryIn ms).map fun m => String.join (path ++ [m.name])) ++
        ((scopesIn path ms).flatMap (Scope.paths EnumDef.isWritten)).map String.join) := by
  refine perm_scopes (fun path ms =>
    (outlines package (String.join path) path ms).filterMap Item.declared?) ?_ path ms
  intro path ms
  rw [outlines_eq, List.filterMap_flatMap]
  apply List.Perm.flatMap_left
  intro m _
  rw [outline_eq, List.filterMap_append, List.filterMap_append, EnumDef.declared?_outline,
    ← join_concat]
  simp only [← join_concat]
  exact (List.perm_append_singleton _ _).trans (List.perm_append_comm.cons _)

end Message

namespace SchemaFile

variable {f : SchemaFile}

/-- Enumerations of a file come before its messages. -/
theorem perm_pathsOf {α : Type} {keep : EnumDef → Bool} {g : List String → α} {listed : List α}
    (h : listed.Perm (((ordinaryIn f.messages).map fun m => g [m.name]) ++
      ((Message.scopesIn [] f.messages).flatMap (Scope.paths keep)).map g)) :
    (((f.enums.filter keep).map fun e => g [e.name]) ++ listed).Perm ((f.pathsOf keep).map g) := by
  rw [pathsOf, scopes, List.flatMap_cons, List.map_append, Scope.map_paths]
  refine (h.append_left _).trans ?_
  rw [← List.append_assoc]
  exact List.perm_append_comm.append_right _

/-- The types that a file declares are those of its scopes. -/
theorem declared_perm (f : SchemaFile) :
    f.declared.Perm (f.paths.map (Declared.ofPath f.package)) := by
  have h := perm_pathsOf (Message.declaredIn_perm f.package [] f.messages)
  rw [List.filter_true] at h
  exact h

theorem declared?_serviceOutline (f : SchemaFile) (role : Role) :
    (f.serviceOutline role).filterMap Item.declared? = [] := by
  rw [List.filterMap_eq_nil_iff]
  intro item hitem
  cases item with
  | note n => rfl
  | refuse fault => rfl
  | block b =>
    obtain ⟨s, _, hb⟩ := block_mem_serviceOutline.mp hitem
    simp only [Service.outline, List.mem_append, List.mem_flatMap] at hb
    rcases hb with ⟨m, _, hnote | hstub⟩ | hexports
    · split at hnote <;> simp at hnote
    · obtain rfl := Item.block.inj (List.mem_singleton.mp hstub)
      rfl
    · obtain rfl := Item.block.inj (List.mem_singleton.mp hexports)
      rfl

/-- The types that the module of a file declares are those of its scopes, under their flat names. -/
theorem declared?_outline_perm (f : SchemaFile) (role : Role) :
    ((f.outline role).filterMap Item.declared?).Perm (f.exports.map String.join) := by
  have hroot : ∀ name, "" ++ name = String.join [name] := fun name => (join_concat [] name).symm
  rw [outline, List.filterMap_append, declared?_serviceOutline, List.append_nil,
    List.filterMap_append, EnumDef.declared?_outline]
  simp only [hroot]
  exact perm_pathsOf (Message.declared?_outlines_perm f.package [] f.messages)

/-- What holds of all names in a file holds of all names in its paths. -/
theorem of_mem_pathsOf {P : String → Prop} {keep : EnumDef → Bool} {p : List String}
    (h : ∀ s ∈ f.scopes, ∀ n ∈ s.names fun _ => true, P n) (hp : p ∈ f.pathsOf keep) :
    ∀ n ∈ p, P n := by
  obtain ⟨s, hs, hp⟩ := List.mem_flatMap.mp hp
  obtain ⟨name, hname, rfl⟩ := List.mem_map.mp hp
  obtain ⟨hself, hnested⟩ := List.forall_mem_cons.mp h
  have hpath : ∀ n ∈ s.path, P n := by
    rcases List.mem_cons.mp hs with rfl | hs
    · exact fun n hn => absurd hn List.not_mem_nil
    · refine Message.of_mem_path (by simp) (fun m hm => ?_) hnested hs
      exact hself m.name (List.mem_append_left _ (List.mem_map_of_mem hm))
  refine List.forall_mem_append.mpr ⟨hpath, List.forall_mem_singleton.mpr ?_⟩
  exact h s hs name ((s.names_sublist keep).subset hname)

/-- No path of a well-named file has an empty name. -/
theorem WellNamed.notMem_of_mem_pathsOf {keep : EnumDef → Bool} {p : List String} (h : f.WellNamed)
    (hp : p ∈ f.pathsOf keep) : "" ∉ p := by
  have hnames : ∀ n ∈ p, n ≠ "" := by
    refine of_mem_pathsOf (fun s hs n hn hempty => ?_) hp
    exact (h s hs).nonempty (hempty ▸ hn)
  exact fun hmem => hnames "" hmem rfl

theorem WellNamed.nodup_pathsOf (h : f.WellNamed) (keep : EnumDef → Bool) :
    (f.pathsOf keep).Nodup := by
  obtain ⟨hself, hnested⟩ := List.forall_mem_cons.mp h
  have hscopes : (f.scopes.map (·.path)).Nodup := by
    rw [scopes, List.map_cons, List.nodup_cons]
    refine ⟨?_, Message.nodup_scopesIn hself.nodup_messages hnested⟩
    intro hmem
    obtain ⟨s, hs, heq⟩ := List.mem_map.mp hmem
    obtain ⟨name, inner, hpath⟩ := Message.exists_path_eq hs
    simp [hpath] at heq
  rw [pathsOf, List.nodup_flatMap]
  refine ⟨fun s hs => (h s hs).nodup_paths keep, (List.pairwise_map.mp hscopes).imp ?_⟩
  intro s s' hne p hp hp'
  obtain ⟨name, _, rfl⟩ := List.mem_map.mp hp
  obtain ⟨name', _, heq⟩ := List.mem_map.mp hp'
  exact hne (List.append_inj' heq rfl).1.symm

end SchemaFile

end ProtoStubs
