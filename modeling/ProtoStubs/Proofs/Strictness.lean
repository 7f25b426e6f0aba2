import ProtoStubs.Proofs.Calls
import ProtoStubs.Proofs.Composition
import ProtoStubs.Proofs.ModuleText
import ProtoStubs.Proofs.Variants

/-!
Strict mode refuses and changes nothing else. The demands of a module are the same in both modes but
for the fields whose kind has no type: one mode notes them and writes a string, the other refuses
them. Only fields that are written count: the fields of the messages that are reached, with the
values of their map entries. The keys of a map, a map entry that no field names, and what is nested
in a map entry are not written.
-/

namespace ProtoStubs

def Field.IsUntyped (f : Field) : Prop := ∀ k ∈ Kind.typed, f.kind.meaning? ≠ some k

instance (f : Field) : Decidable f.IsUntyped :=
  inferInstanceAs (Decidable (∀ k ∈ Kind.typed, f.kind.meaning? ≠ some k))

/-- The field has a kind without a type, or it names a map entry of its message whose second field
has one. -/
inductive Field.Unsupported (lookup : String → Option Message) (f : Field) : Prop
  | own (h : f.IsUntyped)
  | value {entry : Message} {v : Field} (hf : f.kind.meaning? = some .message)
      (hentry : lookup f.typeName = some entry) (hv : entry.fields[1]? = some v)
      (h : v.IsUntyped)

def SchemaFile.Unsupported (f : SchemaFile) : Prop :=
  ∃ scope m, Message.Reached [] f.messages scope m ∧
    ∃ g ∈ m.fields, g.Unsupported (m.entryNamed? f.package scope)

def Reference.isUnmapped : Reference → Bool
  | .unmapped _ _ => true
  | .type _ => false
  | .missingValue => false

namespace Field

variable {f : Field} {index : Table String Message}

theorem exists_unmapped_elementType :
    (∃ r ∈ f.elementType.references, r.isUnmapped = true) ↔ f.IsUntyped := by
  unfold elementType IsUntyped
  cases f.kind.meaning? with
  | none => simp [TypeExpr.references, Reference.isUnmapped]
  | some k =>
    have hk : (∀ k' ∈ Kind.typed, some k ≠ some k') ↔ k ∉ Kind.typed := by
      simpa using List.forall_mem_ne
    rw [hk]
    cases k <;> simp [TypeExpr.references, Reference.isUnmapped] <;> decide

theorem exists_unmapped_plainType :
    (∃ r ∈ f.plainType.references, r.isUnmapped = true) ↔ f.IsUntyped := by
  rw [← exists_unmapped_elementType, plainType]
  split <;> rfl

theorem not_isUntyped_of_message (hf : f.kind.meaning? = some .message) : ¬f.IsUntyped :=
  fun h => h .message (by decide) hf

theorem exists_unmapped_type :
    (∃ r ∈ (f.type index).references, r.isUnmapped = true) ↔ f.Unsupported index.get? := by
  rw [exists_mem_type f index (by simp [Reference.isUnmapped])]
  simp only [exists_unmapped_plainType]
  constructor
  · rintro (⟨entry, v, hkind, hentry, hv, huntyped⟩ | ⟨_, huntyped⟩)
    · exact .value hkind hentry hv huntyped
    · exact .own huntyped
  · rintro (huntyped | ⟨hkind, hentry, hv, huntyped⟩)
    · exact Or.inr ⟨fun hkind => (not_isUntyped_of_message hkind huntyped).elim, huntyped⟩
    · exact Or.inl ⟨_, _, hkind, hentry, hv, huntyped⟩

end Field

def HasUnmapped (items : List Item) : Prop :=
  ∃ b, .block b ∈ items ∧ ∃ r ∈ b.references, r.isUnmapped = true

namespace SchemaFile

variable {f : SchemaFile}

/-- Strict mode refuses a file for what its declarations refer to. -/
theorem unsupported_iff : f.Unsupported ↔ HasUnmapped f.declarations := by
  simp only [HasUnmapped, declarations, List.mem_append]
  constructor
  · rintro ⟨scope, m, hm, g, hg, hunsupported⟩
    rw [← funext (m.get?_entryIndex f.package scope)] at hunsupported
    obtain ⟨r, hr, hunmapped⟩ := Field.exists_unmapped_type.mpr hunsupported
    have hblock := hm.block_mem f.package
    exact ⟨_, .inr hblock, r, Message.mem_interface.mpr ⟨g, hg, hr⟩, hunmapped⟩
  · rintro ⟨b, henum | hmessage, r, hr, hunmapped⟩
    · obtain ⟨e, _, he⟩ := List.mem_flatMap.mp henum
      rw [EnumDef.references_eq_nil he] at hr
      simp at hr
    · obtain ⟨scope, m, hm, g, hg, hr'⟩ := Message.exists_reached hmessage hr
      refine ⟨scope, m, hm, g, hg, ?_⟩
      rw [← funext (m.get?_entryIndex f.package scope)]
      exact Field.exists_unmapped_type.mp ⟨r, hr', hunmapped⟩

end SchemaFile

/-- Strict mode demands the same, or refuses a field for its kind. -/
def Demand.Tightens (lax strict : Demand) : Prop :=
  strict = lax ∨ ∃ field user kind, strict = .refuse (.unsupportedKind field user kind)

theorem Reference.demand_tightens (user : String) (r : Reference) :
    (r.demand false user).Tightens (r.demand true user) := by
  cases r with
  | type t => exact Or.inl rfl
  | unmapped field kind => exact Or.inr ⟨field, user, kind, rfl⟩
  | missingValue => exact Or.inl rfl

theorem Item.demands_tightens (user : String) (item : Item) :
    List.Forall₂ Demand.Tightens (item.demands false user) (item.demands true user) := by
  cases item with
  | note n => exact .cons (Or.inl rfl) .nil
  | refuse fault => exact .cons (Or.inl rfl) .nil
  | block b =>
    rw [Item.demands, Item.demands, List.forall₂_map_left_iff, List.forall₂_map_right_iff,
      List.forall₂_same]
    exact fun r _ => r.demand_tightens user

theorem Item.demands_of_mapped {user : String} {items : List Item} (h : ¬HasUnmapped items) :
    items.flatMap (Item.demands true user) = items.flatMap (Item.demands false user) := by
  refine List.flatMap_congr fun item hitem => ?_
  cases item with
  | note n => rfl
  | refuse fault => rfl
  | block b =>
    refine List.map_congr_left fun r hr => ?_
    cases r with
    | type t => rfl
    | unmapped field kind => exact (h ⟨b, hitem, _, hr, rfl⟩).elim
    | missingValue => rfl

theorem Item.exists_refuse_of_unmapped {items : List Item} (user : String) (h : HasUnmapped items) :
    ∃ fault, .refuse fault ∈ items.flatMap (Item.demands true user) := by
  obtain ⟨b, hb, r, hr, hunmapped⟩ := h
  cases r with
  | unmapped field kind =>
    exact ⟨.unsupportedKind field user kind,
      List.mem_flatMap.mpr ⟨_, hb, List.mem_map.mpr ⟨_, hr, rfl⟩⟩⟩
  | type t => cases hunmapped
  | missingValue => cases hunmapped

namespace SchemaFile

variable {f : SchemaFile} {role : Role} {helper : Option String}

theorem demands_tightens (f : SchemaFile) (role : Role) (helper : Option String) :
    List.Forall₂ Demand.Tightens (f.demands ⟨role, helper, false⟩)
      (f.demands ⟨role, helper, true⟩) := by
  have hrest : ∀ ds : List Demand, List.Forall₂ Demand.Tightens ds ds :=
    fun ds => List.forall₂_same.mpr fun d _ => Or.inl rfl
  rw [demands_eq, demands_eq]
  refine List.rel_append (List.rel_append ?_ (hrest _)) (hrest _)
  generalize f.declarations = items
  induction items with
  | nil => exact .nil
  | cons item rest ih => exact List.rel_append (item.demands_tightens f.name) ih

theorem demands_of_supported (h : ¬f.Unsupported) :
    f.demands ⟨role, helper, true⟩ = f.demands ⟨role, helper, false⟩ := by
  rw [unsupported_iff] at h
  rw [demands_eq, demands_eq, Item.demands_of_mapped h]
  rfl

end SchemaFile

namespace Step

open Context

variable {c : Context} {f : SchemaFile} {role : Role} {helper : Option String}

/-- Where demands can be met, and can no longer once some are tightened, a kind is refused. -/
theorem meetAll_tightens {user : String} {ds ds' : List Demand} {fault : Fault}
    (h : List.Forall₂ Demand.Tightens ds ds') (hlax : ((meetAll user ds).run c).result = .ok ())
    (hstrict : ((meetAll user ds').run c).result = .error fault) :
    ∃ field user kind, fault = .unsupportedKind field user kind := by
  induction h generalizing c with
  | nil => cases hstrict
  | @cons d d' rest rest' hd _ ih =>
    rw [run_meetAll_cons] at hlax hstrict
    -- Both go on alike, up to the first demand that is tightened.
    rcases hd with rfl | ⟨field, user', kind, rfl⟩
    · cases hr : ((meet user d').run c).result with
      | error fault' => simp [after_error _ hr] at hlax
      | ok _ =>
        rw [after_ok _ hr] at hlax hstrict
        exact ih hlax hstrict
    · exact ⟨field, user', kind, (Except.error.inj hstrict).symm⟩

theorem moduleOf_of_supported (h : ¬f.Unsupported) :
    moduleOf f ⟨role, helper, true⟩ = moduleOf f ⟨role, helper, false⟩ := by
  rw [moduleOf_eq, moduleOf_eq, SchemaFile.demands_of_supported h]
  rfl

theorem supported_of_moduleOf {m : Module}
    (h : ((moduleOf f ⟨role, helper, true⟩).run c).result = .ok m) : ¬f.Unsupported := by
  intro hf
  obtain ⟨fault, hfault⟩ := Item.exists_refuse_of_unmapped f.name (SchemaFile.unsupported_iff.mp hf)
  have hdemand : .refuse fault ∈ f.demands ⟨role, helper, true⟩ := by
    rw [SchemaFile.demands_eq]
    exact List.mem_append_left _ (List.mem_append_left _ hfault)
  exact (moduleOf_made h).2.1 _ hdemand

end Step

namespace Context

variable {c : Context} {role : Role} {helper : Option String} {n : String}

/-- What strict mode makes is made without it. -/
theorem entry_of_strict {e : String × String} (h : c.entry ⟨role, helper, true⟩ n = .ok e) :
    c.entry ⟨role, helper, false⟩ n = .ok e := by
  obtain ⟨f, m, hf, hm, rfl⟩ := entry_ok h
  rw [Step.moduleOf_of_supported (Step.supported_of_moduleOf hm)] at hm
  simp only [entry, hf, hm]
  rfl

theorem supported_of_entry {e : String × String} {f : SchemaFile}
    (h : c.entry ⟨role, helper, true⟩ n = .ok e) (hf : c.file? n = some f) : ¬f.Unsupported := by
  obtain ⟨g, m, hg, hm, _⟩ := entry_ok h
  obtain rfl := Option.some.inj (hf.symm.trans hg)
  exact Step.supported_of_moduleOf hm

/-- What is made only without strict mode is refused there for a kind. -/
theorem entry_refused {e : String × String} {fault : Fault}
    (hlax : c.entry ⟨role, helper, false⟩ n = .ok e)
    (hstrict : c.entry ⟨role, helper, true⟩ n = .error fault) :
    (∃ field user kind, fault = .unsupportedKind field user kind) ∧
      ∃ f, c.file? n = some f ∧ f.Unsupported := by
  obtain ⟨f, m, hf, hm, _⟩ := entry_ok hlax
  have hknown : c.file? f.name ≠ none := by simp [file?_name hf, hf]
  have hunsupported : f.Unsupported := by
    by_contra h
    simp only [entry, hf, Step.moduleOf_of_supported h, hm] at hstrict
    cases hstrict
  have hfault : ((Step.meetAll f.name (f.demands ⟨role, helper, true⟩)).run c).result =
      .error fault := by
    rw [entry, hf] at hstrict
    have hmodule := Step.map_eq_error_iff.mp hstrict
    exact Step.map_eq_error_iff.mp ((Step.moduleOf_known _ hknown).2.symm.trans hmodule)
  have hmet := (Step.moduleOf_ok hknown hm).1
  exact ⟨Step.meetAll_tightens (f.demands_tightens role helper) hmet hfault, f, hf, hunsupported⟩

end Context

/-- A generation that succeeds in strict mode gives the same without it. One that succeeds without
strict mode gives the same in it, or is refused for the kind of a field. It is refused exactly if a
requested file has such a field. -/
theorem strict_only_refuses (directory : String) (files : List SchemaFile)
    (requested : List String) (role : Role) (helper : Option String) :
    let strict := (generate directory files requested ⟨role, helper, true⟩).result
    let lax := (generate directory files requested ⟨role, helper, false⟩).result
    (∀ t, strict = .ok t → lax = .ok t) ∧
    ∀ t, lax = .ok t →
      (strict = .ok t ∨ ∃ field user kind, strict = .error (.unsupportedKind field user kind)) ∧
      ((∃ fault, strict = .error fault) ↔
        ∃ n ∈ requested, ∃ f, files.find? (·.name == n) = some f ∧ f.Unsupported) := by
  intro strict lax
  have hmono : ∀ t, strict = .ok t → lax = .ok t := by
    intro t ht
    have hfiles := registerAll_of_generate ht
    refine (generate_eq_foldlM hfiles).trans ?_
    exact Step.foldlM_addEntry_mono (fun _ _ => Context.entry_of_strict)
      ((generate_eq_foldlM hfiles).symm.trans ht)
  refine ⟨hmono, fun t hlax => ?_⟩
  have hfile := file?_registered (registerAll_of_generate hlax)
  cases hstrict : strict with
  | ok t' =>
    obtain rfl := Except.ok.inj ((hmono t' hstrict).symm.trans hlax)
    refine ⟨Or.inl rfl, by simp, ?_⟩
    rintro ⟨n, hn, f, hf, hunsupported⟩
    obtain ⟨e, _, he⟩ := exists_entry hstrict hn
    exact (Context.supported_of_entry he ((hfile n).trans hf) hunsupported).elim
  | error fault =>
    -- The first name that fails in strict mode succeeds without it.
    obtain ⟨before, n, rest, hsplit, _, hfault⟩ := Step.foldlM_addEntry_error
      ((generate_eq_foldlM (registerAll_of_generate hlax)).symm.trans hstrict)
    have hn : n ∈ requested := by simp [hsplit]
    obtain ⟨e, _, he⟩ := exists_entry hlax hn
    obtain ⟨⟨field, user, kind, rfl⟩, f, hf, hunsupported⟩ := Context.entry_refused he hfault
    exact ⟨Or.inr ⟨field, user, kind, rfl⟩,
      fun _ => ⟨n, hn, f, (hfile n).symm.trans hf, hunsupported⟩, fun _ => ⟨_, rfl⟩⟩

/-- A map field in a nested message; the values of the map are groups. -/
def labelsFile : SchemaFile :=
  { name := "labels.proto"
    package := "x"
    messages := [
      { name := "Outer"
        nested := [
          { name := "Inner"
            fields := [
              { name := "labels", kind := .member .message
                typeName := ".x.Outer.Inner.LabelsEntry" }]
            nested := [
              { name := "LabelsEntry"
                fields := [{ name := "key" }, { name := "value", kind := .member .group }]
                mapEntry := true }] }] }] }

theorem labelsFile_refused_in_strict_mode :
    (∃ t, (generate "/" [labelsFile] ["labels.proto"] {}).result = .ok t) ∧
    ∃ field user kind, (generate "/" [labelsFile] ["labels.proto"] { strict := true }).result =
      .error (.unsupportedKind field user kind) := by
  obtain ⟨t, hlax⟩ : ∃ t, (generate "/" [labelsFile] ["labels.proto"] {}).result = .ok t := ⟨_, rfl⟩
  obtain ⟨hresult, hrefused⟩ :=
    (strict_only_refuses "/" [labelsFile] ["labels.proto"] .client (some "webapi")).2 t hlax
  have hinner : labelsFile.Unsupported :=
    ⟨["Outer"], _, .nested List.mem_cons_self rfl (.here List.mem_cons_self rfl), _,
      List.mem_cons_self, .value rfl rfl rfl (by decide)⟩
  obtain ⟨fault, hfault⟩ :=
    hrefused.mpr ⟨"labels.proto", List.mem_cons_self, labelsFile, rfl, hinner⟩
  refine ⟨⟨t, hlax⟩, hresult.resolve_left fun hok => ?_⟩
  cases hfault.symm.trans hok

end ProtoStubs
