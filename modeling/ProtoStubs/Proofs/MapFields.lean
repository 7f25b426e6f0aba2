import Mathlib.Data.List.Forall2
import ProtoStubs.Proofs.Strictness

/-!
How the fields of messages are written, at any depth. A field that names a map entry of its own
message is written as a record of the values of that entry, and never as an array. Of several
entries of one name the last counts. A map entry goes by its full name, which has the names of all
messages around it. Any other field of an enumeration or of a message is written by the symbol of
its type, and as an array if it is repeated.
-/

namespace ProtoStubs

def Message.entriesNamed (package : String) (scope : List String) (m : Message) (t : String) :
    List Message :=
  m.mapEntries.filter fun e => fullName package (scope ++ [m.name, e.name]) = t

/-- How a field is written in the file `user`, by what the context `c` answers. The field is one of
a message that has the map entries `entries` under the name of the field's type. -/
structure Field.WrittenAs (c : Context) (strict : Bool) (user : String) (entries : List Message)
    (f : Field) (text : String) : Prop where
  /-- Map fields and no others are written as records, unless a symbol looks like one. -/
  record_iff :
    (∀ s, ((Step.resolve f.typeName user).run c).result = .ok s → '\x7b' ∉ s.toList) →
      ((∃ value, text = "\x7b[key: string]: " ++ value ++ "\x7d") ↔
        f.kind.meaning? = some .message ∧ entries ≠ [])
  /-- The values of a map are written as the second field of the last entry would be by itself. -/
  record : f.kind.meaning? = some .message → ∀ e, entries.getLast? = some e →
    ∃ (v : Field) (t : TypeExpr String), e.fields[1]? = some v ∧
      (((v.type {}).bindM (Step.link strict user)).run c).result = .ok t ∧
      text = "\x7b[key: string]: " ++ t.text ++ "\x7d"
  /-- Other fields of a type with a name are written by its symbol. -/
  named : f.kind.meaning? = some .enum ∨ f.kind.meaning? = some .message ∧ entries = [] →
    ∃ s, ((Step.resolve f.typeName user).run c).result = .ok s ∧
      text = s ++ if f.isRepeated then "[]" else ""

theorem Message.getLast?_entriesNamed (package : String) (scope : List String) (m : Message)
    (t : String) :
    (m.entriesNamed package scope t).getLast? = (m.entryIndex package scope).get? t := by
  rw [get?_entryIndex, entryNamed?, ← List.head?_filter, List.filter_reverse,
    List.head?_reverse, entriesNamed]

namespace Field

variable {f : Field} {index : Table String Message} {symbol : String → String}

theorem type_empty (f : Field) : f.type {} = f.plainType := type_eq_plainType fun _ => rfl

theorem elementType_of_isNamed (h : f.IsNamed) : f.elementType = .named (.type f.typeName) := by
  unfold elementType
  rcases h with h | h <;> rw [h]

/-- A field of a type with a name is written by the symbol of its type. -/
theorem text_of_isNamed (h : f.IsNamed) :
    (f.plainType.subst (Reference.written symbol)).text =
      symbol f.typeName ++ if f.isRepeated then "[]" else "" := by
  rw [plainType, elementType_of_isNamed h]
  split
  · rfl
  · rw [String.append_empty]
    rfl

/-- The types that need no symbol, as they are written. -/
def basicTypes : List String := ["number", "boolean", "string"]

theorem text_mem_basicTypes (h : ¬f.IsNamed) :
    (f.elementType.subst (Reference.written symbol)).text ∈ basicTypes := by
  unfold IsNamed at h
  unfold elementType
  cases hf : f.kind.meaning? with
  | none => exact .tail _ (.tail _ (.head _))
  | some k =>
    rw [hf] at h
    cases k with
    | enum => exact (h (Or.inl rfl)).elim
    | message => exact (h (Or.inr rfl)).elim
    | bool => exact .tail _ (.head _)
    | int32 | uint32 | fixed32 | sint32 | sfixed32 | float | double => exact .head _
    | _ => exact .tail _ (.tail _ (.head _))

/-- Apart from symbols, only records have braces. -/
theorem brace_notMem_plainType (h : f.IsNamed → '\x7b' ∉ (symbol f.typeName).toList) :
    '\x7b' ∉ (f.plainType.subst (Reference.written symbol)).text.toList := by
  have hbasic : ∀ t ∈ basicTypes, '\x7b' ∉ t.toList := by decide
  have helement : '\x7b' ∉ (f.elementType.subst (Reference.written symbol)).text.toList := by
    by_cases hnamed : f.IsNamed
    · rw [elementType_of_isNamed hnamed]
      exact h hnamed
    · exact hbasic _ (text_mem_basicTypes hnamed)
  unfold plainType
  split
  · change '\x7b' ∉ ((f.elementType.subst (Reference.written symbol)).text ++ "[]").toList
    rw [String.toList_append, List.mem_append, not_or]
    exact ⟨helement, by decide⟩
  · exact helement

end Field

namespace Context

variable {c : Context} {strict : Bool} {user : String} {f : Field} {entries : List Message}
  {index : Table String Message}

/-- A map field is written as a record. -/
theorem writtenAs_of_entry {e : Message}
    (hmeets : c.Meets user ((f.type index).references.map (Reference.demand strict user)))
    (hf : f.kind.meaning? = some .message) (he : entries.getLast? = some e)
    (hindex : index.get? f.typeName = some e) :
    f.WrittenAs c strict user entries ((f.type index).subst (c.typeFor user)).text := by
  have hne : entries ≠ [] := by
    rintro rfl
    cases he
  rw [Field.type_of_entry hf hindex] at hmeets ⊢
  cases hv : e.fields[1]? with
  | none =>
    -- A map entry without a second field is refused.
    rw [hv] at hmeets
    exact (hmeets (.refuse .missingEntryValue) (List.mem_singleton_self _)).elim
  | some v =>
    rw [hv] at hmeets
    have hvalue := ((Step.typeExpr_reads strict user v.plainType).of_meets hmeets).1
    rw [← v.type_empty] at hvalue
    refine ⟨fun _ => ⟨fun _ => ⟨hf, hne⟩, fun _ => ⟨_, rfl⟩⟩, ?_, ?_⟩
    · intro _ e' he'
      obtain rfl := Option.some.inj (he.symm.trans he')
      exact ⟨v, _, hv, hvalue, by rw [v.type_empty]; rfl⟩
    · rintro (henum | ⟨_, hnil⟩)
      · rw [hf] at henum
        cases henum
      · exact (hne hnil).elim

/-- Any other field is written by itself. -/
theorem writtenAs_of_plain
    (hmeets : c.Meets user (f.plainType.references.map (Reference.demand strict user)))
    (hplain : ¬(f.kind.meaning? = some .message ∧ entries ≠ [])) :
    f.WrittenAs c strict user entries (f.plainType.subst (c.typeFor user)).text := by
  have hsymbol : f.IsNamed → ∃ s, c.symbolFor? user f.typeName = some s := by
    intro hnamed
    exact hmeets.type (List.mem_map.mpr ⟨_, Field.mem_plainType.mpr ⟨hnamed, rfl⟩, rfl⟩)
  refine ⟨fun hidentifier => ⟨?_, fun hmap => (hplain hmap).elim⟩, ?_, ?_⟩
  · rintro ⟨value, htext⟩
    have hbrace : '\x7b' ∈ (f.plainType.subst (c.typeFor user)).text.toList := by
      rw [htext, String.toList_append, String.toList_append]
      exact List.mem_append_left _ (List.mem_append_left _ (by decide))
    refine (Field.brace_notMem_plainType ?_ hbrace).elim
    intro hnamed
    obtain ⟨s, hs⟩ := hsymbol hnamed
    rw [hs, Option.getD_some]
    exact hidentifier s (by rw [Step.resolve_settled hs])
  · intro hf e he
    refine (hplain ⟨hf, ?_⟩).elim
    rintro rfl
    cases he
  · intro hnamed
    have hnamed : f.IsNamed := hnamed.imp_right And.left
    obtain ⟨s, hs⟩ := hsymbol hnamed
    refine ⟨s, by rw [Step.resolve_settled hs], ?_⟩
    rw [typeFor, Field.text_of_isNamed hnamed, hs, Option.getD_some]

/-- A field is written by the rules once all that its type refers to can be linked. -/
theorem writtenAs
    (hmeets : c.Meets user ((f.type index).references.map (Reference.demand strict user)))
    (hindex : entries.getLast? = index.get? f.typeName) :
    f.WrittenAs c strict user entries ((f.type index).subst (c.typeFor user)).text := by
  by_cases hmap : f.kind.meaning? = some .message ∧ entries ≠ []
  · obtain ⟨hf, hne⟩ := hmap
    have he := List.getLast?_eq_some_getLast hne
    exact writtenAs_of_entry hmeets hf he (hindex.symm.trans he)
  · have hplain : f.kind.meaning? = some .message → index.get? f.typeName = none := by
      intro hf
      have hnil : entries = [] := by
        by_contra hne
        exact hmap ⟨hf, hne⟩
      rw [← hindex, hnil, List.getLast?_nil]
    rw [Field.type_eq_plainType hplain] at hmeets ⊢
    exact writtenAs_of_plain hmeets hmap

end Context

/-- Whenever the module of a file can be made, each message that is reached has an interface under
its flat name, and each field of the message is written in it by the rules of its map entries. -/
theorem fields_written_at_any_depth (f : SchemaFile) (options : Options) (c : Context) (m : Module)
    (hm : ((Step.moduleOf f options).run c).result = .ok m) (scope : List String)
    (message : Message) (hmessage : Message.Reached [] f.messages scope message) :
    ∃ types : List (TypeExpr String),
      .interface (String.join (scope ++ [message.name]))
        ((message.fields.map (·.name)).zip types) ∈ m.blocks ∧
      List.Forall₂ (fun g t => g.WrittenAs ((Step.moduleOf f options).run c).context options.strict
        f.name (message.entriesNamed f.package scope g.typeName) t.text) message.fields types := by
  obtain ⟨_, hmeets, rfl⟩ := Step.moduleOf_made hm
  generalize ((Step.moduleOf f options).run c).context = c' at hmeets
  have hblock : .block (message.interface f.package (String.join (scope ++ [message.name])) scope) ∈
      f.outline options.role :=
    List.mem_append_left _ (List.mem_append_right _ (hmessage.block_mem f.package))
  refine ⟨message.fields.map fun g =>
    (g.type (message.entryIndex f.package scope)).subst (c'.typeFor f.name), ?_, ?_⟩
  · refine List.mem_map.mpr ⟨_, Item.mem_blocks.mpr hblock, ?_⟩
    rw [Message.interface, Block.subst, List.map_map, List.zip_map']
    rfl
  · rw [List.forall₂_map_right_iff, List.forall₂_same]
    intro g hg
    refine Context.writtenAs (fun d hd => hmeets d ?_) (message.getLast?_entriesNamed _ _ _)
    obtain ⟨r, hr, rfl⟩ := List.mem_map.mp hd
    refine List.mem_append_left _ (List.mem_flatMap.mpr ⟨_, hblock, List.mem_map_of_mem ?_⟩)
    exact Message.mem_interface.mpr ⟨g, hg, hr⟩

/-- A nested message with two map entries of one name, and a repeated field beside its map. -/
def ledgerFile : SchemaFile :=
  { name := "ledger.proto"
    package := "x"
    messages := [
      { name := "Ledger"
        nested := [
          { name := "Page"
            fields := [
              { name := "sums", label := .member .repeated, kind := .member .message
                typeName := ".x.Ledger.Page.SumsEntry" },
              { name := "notes", label := .member .repeated, kind := .member .message
                typeName := ".x.Ledger.Page" },
              { name := "ledger", kind := .member .message, typeName := ".x.Ledger" }]
            nested := [
              { name := "SumsEntry"
                fields := [{ name := "key" }, { name := "value", kind := .member .double }]
                mapEntry := true },
              { name := "SumsEntry"
                fields := [
                  { name := "key" },
                  { name := "value", label := .member .repeated, kind := .member .message
                    typeName := ".x.Ledger" }]
                mapEntry := true }] }] }] }

theorem ledgerFile_fields_written :
    ∃ c m message, Message.Reached [] ledgerFile.messages ["Ledger"] message ∧
      ((Step.moduleOf ledgerFile {}).run c).result = .ok m ∧
      m.blocks = [
        .interface "LedgerPage" [
          ("sums", .record (.array (.named "Ledger"))),
          ("notes", .array (.named "LedgerPage")),
          ("ledger", .named "Ledger")],
        .interface "Ledger" []] ∧
      ∃ types : List (TypeExpr String),
        .interface "LedgerPage" (["sums", "notes", "ledger"].zip types) ∈ m.blocks ∧
        List.Forall₂ (fun g t => g.WrittenAs ((Step.moduleOf ledgerFile {}).run c).context false
          "ledger.proto" (message.entriesNamed "x" ["Ledger"] g.typeName) t.text)
          message.fields types := by
  let c := ((Step.registerAll [ledgerFile]).run {}).context
  obtain ⟨m, hm⟩ : ∃ m, ((Step.moduleOf ledgerFile {}).run c).result = .ok m := ⟨_, rfl⟩
  have hpage : Message.Reached [] ledgerFile.messages ["Ledger"] _ :=
    .nested List.mem_cons_self rfl (.here List.mem_cons_self rfl)
  exact ⟨c, m, _, hpage, hm, by cases hm; rfl,
    fields_written_at_any_depth ledgerFile {} c m hm ["Ledger"] _ hpage⟩

end ProtoStubs
