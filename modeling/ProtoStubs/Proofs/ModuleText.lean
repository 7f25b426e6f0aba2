import ProtoStubs.Proofs.Scopes
import ProtoStubs.Proofs.Tables
import ProtoStubs.TypeScript.Text

/-!
How a module is written, letter by letter. Each part of a module is spelled out here from the names
that stand in it, and the type of a field from its kind, its label and the symbol of its type. The
text of a block is what is spelled out for it.
-/

namespace ProtoStubs

namespace Printed

def enum (name : String) (values : List String) : String :=
  "export enum " ++ name ++ " \x7b\n" ++
    String.join (values.map fun v => "  " ++ v ++ " = \"" ++ v ++ "\",\n") ++ "\x7d"

/-- Fields are given by their names and the texts of their types. -/
def interface (name : String) (fields : List (String × String)) : String :=
  "export interface " ++ name ++ " \x7b\n" ++
    String.join (fields.map fun field => "  " ++ field.1 ++ ": " ++ field.2 ++ ";\n") ++ "\x7d"

def stub (role : Role) (method route input output : String) : String :=
  match role with
  | .client =>
      "export function " ++ method ++ "(payload: " ++ input ++ "): Promise<" ++ output ++
        "> \x7b\n" ++ "  return webapi<" ++ output ++ ">(\"" ++ route ++ "\", payload);\n" ++ "\x7d"
  | .server =>
      "export function " ++ method ++ "(app: Express, handler: (params: " ++ input ++
        ") => Promise<" ++ output ++ ">) \x7b\n" ++ "  return webapi<" ++ input ++ ", " ++ output ++
        ">(\"" ++ route ++ "\", app, handler, \x7b method: \"POST\" \x7d);\n" ++ "\x7d"

def exports (methods : List String) : String :=
  "export default \x7b\n" ++ String.join (methods.map fun m => "  " ++ m ++ ",\n") ++ "\x7d;"

def banner (source : String) : String :=
  "/**\n" ++ " * This file is auto-generated by protoc-webapi-ts from " ++ source ++ "\n" ++
    " * Don't change manually\n" ++ " */"

def imports (specifier : String) (types : List Import) : String :=
  "import \x7b " ++ ", ".intercalate (types.map fun i => i.origin ++ " as " ++ i.symbol) ++
    " \x7d from \"" ++ specifier ++ "\";"

end Printed

/-- The text is that of a type that is declared under a name. -/
def Opens (name text : String) : Prop :=
  ∃ rest, text = "export enum " ++ name ++ " \x7b\n" ++ rest ∨
    text = "export interface " ++ name ++ " \x7b\n" ++ rest

theorem intercalate_lines (opening closing : String) (lines : List String) :
    "\n".intercalate (opening :: lines ++ [closing]) =
      opening ++ "\n" ++ String.join (lines.map (· ++ "\n")) ++ closing := by
  induction lines generalizing opening with
  | nil => simp
  | cons line rest ih =>
    rw [List.cons_append, List.cons_append, String.intercalate_cons_cons, ← List.cons_append, ih]
    simp [String.append_assoc]

theorem bracketed_eq (opening closing : String) (entries : List String) :
    bracketed opening entries closing =
      opening ++ "\n" ++ String.join (entries.map fun e => "  " ++ e ++ "\n") ++ closing := by
  rw [bracketed, intercalate_lines, List.map_map]
  rfl

namespace Block

theorem text_enum (name : String) (members : List String) :
    (Block.enum name members).text = Printed.enum name members := by
  unfold text Printed.enum
  simp [bracketed_eq, Function.comp_def, String.append_assoc]

theorem text_interface (name : String) (fields : List (String × TypeExpr String)) :
    (Block.interface name fields).text =
      Printed.interface name (fields.map fun field => (field.1, field.2.text)) := by
  unfold text Printed.interface
  simp [bracketed_eq, Function.comp_def, String.append_assoc]

theorem text_stub (role : Role) (method route : String) (input output : TypeExpr String) :
    (Block.stub role method route input output).text =
      Printed.stub role method route input.text output.text := by
  apply String.toList_injective
  cases role with
  | client =>
    unfold text Printed.stub
    simp [bracketed_eq]
  | server =>
    unfold text Printed.stub
    simp [bracketed_eq]

theorem text_exports (methods : List String) :
    (Block.exports methods).text = Printed.exports methods := by
  unfold text Printed.exports
  simp [bracketed_eq, Function.comp_def, String.append_assoc]

end Block

theorem Module.banner_eq (source : String) : Module.banner source = Printed.banner source := by
  have hfirst : "/**\n" = "/**" ++ "\n" := by decide
  have hthird : " * Don't change manually\n" = " * Don't change manually" ++ "\n" := by decide
  rw [Module.banner, Printed.banner, hfirst, hthird]
  simp only [String.intercalate_cons_cons, String.intercalate_singleton, String.append_assoc]

def Kind.numbers : List Kind := [.int32, .uint32, .fixed32, .sint32, .sfixed32, .float, .double]

def Kind.strings : List Kind := [.string, .bytes, .int64, .uint64, .sint64, .fixed64, .sfixed64]

def Kind.typed : List Kind := numbers ++ strings ++ [Kind.bool, Kind.enum, Kind.message]

/-- The map entry of a message that goes by a full name. Of several the last counts. -/
def Message.entryNamed? (package : String) (scope : List String) (m : Message) (t : String) :
    Option Message :=
  m.mapEntries.reverse.find? fun e => fullName package (scope ++ [m.name, e.name]) = t

theorem Message.get?_entryIndex (package : String) (scope : List String) (m : Message)
    (t : String) : (m.entryIndex package scope).get? t = m.entryNamed? package scope t := by
  rw [entryIndex, Table.get?_ofList, ← List.map_reverse, List.find?_map, Option.map_map]
  exact Option.map_id'

namespace Field

/-- What is written for one value of a field. What is neither a number, a truth value nor of a type
with a name is a string. -/
def elementText (symbol : String → String) (f : Field) : String :=
  if f.kind.meaning? ∈ Kind.numbers.map some then "number"
  else if f.kind.meaning? = some .bool then "boolean"
  else if f.kind.meaning? ∈ [some .enum, some .message] then symbol f.typeName
  else "string"

def plainText (symbol : String → String) (f : Field) : String :=
  f.elementText symbol ++ if f.isRepeated then "[]" else ""

/-- What is written for a field of a message whose map entries are found by `lookup`. A map field is
a record of what is written for the second field of its entry, and never an array. An entry without
a second field is refused before it is written. -/
def typeText (symbol : String → String) (lookup : String → Option Message) (f : Field) : String :=
  match if f.kind.meaning? = some .message then lookup f.typeName else none with
  | none => f.plainText symbol
  | some entry =>
      "\x7b[key: string]: " ++ (entry.fields[1]?.map (plainText symbol)).getD "string" ++ "\x7d"

variable {f : Field} {index : Table String Message} {symbol : String → String}

theorem text_elementType (f : Field) (symbol : String → String) :
    (f.elementType.subst (Reference.written symbol)).text = f.elementText symbol := by
  unfold elementType elementText
  cases f.kind.meaning? with
  | none => rfl
  | some k => cases k <;> rfl

theorem text_plainType (f : Field) (symbol : String → String) :
    (f.plainType.subst (Reference.written symbol)).text = f.plainText symbol := by
  rw [plainText, ← text_elementType, plainType]
  cases f.isRepeated with
  | true => rfl
  | false => exact String.append_empty.symm

theorem type_of_entry {e : Message} (hf : f.kind.meaning? = some .message)
    (he : index.get? f.typeName = some e) :
    f.type index = .record ((e.fields[1]?.map plainType).getD (.named .missingValue)) := by
  simp only [type, hf, he]
  cases e.fields[1]? <;> rfl

theorem type_eq_plainType
    (h : f.kind.meaning? = some .message → index.get? f.typeName = none) :
    f.type index = f.plainType := by
  unfold type
  split
  · rename_i e hf he
    rw [h hf] at he
    cases he
  · rfl

/-- By whatever symbols references are replaced, the type of a field is written as spelled out. -/
theorem text_type (f : Field) (index : Table String Message) (symbol : String → String) :
    ((f.type index).subst (Reference.written symbol)).text = f.typeText symbol index.get? := by
  unfold typeText
  split
  · rename_i hnone
    rw [type_eq_plainType fun hf => by simpa [hf] using hnone, text_plainType]
  · rename_i entry hentry
    obtain ⟨hf, he⟩ := Option.ite_none_right_eq_some.mp hentry
    rw [type_of_entry hf he]
    cases entry.fields[1]? with
    | none => rfl
    | some v =>
      rw [Option.map_some, Option.map_some, Option.getD_some, Option.getD_some, ← text_plainType]
      rfl

theorem elementText_of_isNamed (h : f.IsNamed) : f.elementText symbol = symbol f.typeName := by
  unfold elementText
  rcases h with h | h <;> simp [h, Kind.numbers]

/-- What a field refers to is written by its symbol: alone, in an array, or in a record. -/
theorem Refers.typeText {t : String} (h : f.Refers index t) :
    f.typeText symbol index.get? = symbol t ++ (if f.isRepeated then "[]" else "") ∨
      ∃ v : Field, f.typeText symbol index.get? =
        "\x7b[key: string]: " ++ (symbol t ++ if v.isRepeated then "[]" else "") ++ "\x7d" := by
  unfold Field.typeText
  cases h with
  | type hnamed hmap =>
    have hplain :
        (if f.kind.meaning? = some .message then index.get? f.typeName else none) = none :=
      ite_eq_right_iff.mpr hmap
    rw [hplain]
    exact Or.inl (congrArg (· ++ _) (elementText_of_isNamed hnamed))
  | @value entry v hf hentry hv hnamed =>
    rw [if_pos hf, hentry]
    refine Or.inr ⟨v, ?_⟩
    simp only [hv, Option.map_some, Option.getD_some, plainText, elementText_of_isNamed hnamed]

end Field

def Message.printed (package : String) (symbol : String → String) (scope : List String)
    (m : Message) : String :=
  Printed.interface (String.join (scope ++ [m.name]))
    (m.fields.map fun f => (f.name, f.typeText symbol (m.entryNamed? package scope)))

theorem Message.text_interface (package : String) (symbol : String → String) (scope : List String)
    (m : Message) :
    ((m.interface package (String.join (scope ++ [m.name])) scope).subst
      (Reference.written symbol)).text = m.printed package symbol scope := by
  rw [interface, Block.subst, Block.text_interface, printed, List.map_map, List.map_map]
  simp only [Function.comp_def, Field.text_type, funext (m.get?_entryIndex package scope)]

namespace Opens

variable {name : String}

theorem enum (name : String) (values : List String) : Opens name (Printed.enum name values) :=
  ⟨_, Or.inl (String.append_assoc ..)⟩

theorem interface (name : String) (fields : List (String × String)) :
    Opens name (Printed.interface name fields) :=
  ⟨_, Or.inr (String.append_assoc ..)⟩

/-- A declaration can be told by its first letters. -/
theorem not_append {front : String} (rest : String)
    (h : ∀ p ∈ ["export e", "export i"],
      ¬ p.toList <+: front.toList ∧ ¬ front.toList <+: p.toList) :
    ¬ Opens name (front ++ rest) := by
  intro hopens
  obtain ⟨p, hp, hprefix⟩ :
      ∃ p ∈ ["export e", "export i"], p.toList <+: (front ++ rest).toList := by
    obtain ⟨rest', heq | heq⟩ := hopens
    · exact ⟨"export e", by simp, by rw [heq]; simp⟩
    · exact ⟨"export i", by simp, by rw [heq]; simp⟩
  have hfront : front.toList <+: (front ++ rest).toList := by
    rw [String.toList_append]
    exact List.prefix_append _ _
  rcases List.prefix_or_prefix_of_prefix hprefix hfront with hle | hle
  · exact (h p hp).1 hle
  · exact (h p hp).2 hle

end Opens

namespace Block

variable {b : Block String} {name : String}

theorem opens_text (h : b.declared? = some name) : Opens name b.text := by
  cases b with
  | enum name' members =>
    obtain rfl := Option.some.inj h
    rw [text_enum]
    exact .enum name' members
  | interface name' fields =>
    obtain rfl := Option.some.inj h
    rw [text_interface]
    exact .interface name' _
  | stub role method route input output => cases h
  | exports methods => cases h

theorem not_opens_text (h : b.declared? = none) : ¬ Opens name b.text := by
  cases b with
  | enum name' members => cases h
  | interface name' fields => cases h
  | stub role method route input output =>
    obtain ⟨rest, hrest⟩ : ∃ rest,
        Printed.stub role method route input.text output.text = "export function " ++ rest := by
      unfold Printed.stub
      simp only [String.append_assoc]
      cases role <;> exact ⟨_, rfl⟩
    rw [text_stub, hrest]
    exact Opens.not_append rest (by decide)
  | exports methods =>
    rw [text_exports]
    unfold Printed.exports
    simp only [String.append_assoc]
    exact Opens.not_append _ (by decide)

end Block

namespace Module

variable {m : Module}

theorem exists_import {line : String} (h : line ∈ m.importLines) :
    ∃ rest, line = "import " ++ rest := by
  simp only [importLines, List.mem_append, List.mem_map] at h
  rcases h with (⟨e, _, rfl⟩ | hframework) | hhelper
  · have hfront : "import \x7b " = "import " ++ "\x7b " := by decide
    simp only [importLine, hfront, String.append_assoc]
    exact ⟨_, rfl⟩
  · split at hframework
    · obtain rfl := List.mem_singleton.mp hframework
      exact ⟨"\x7b Express \x7d from \"express\";", by decide⟩
    · simp at hframework
  · split at hhelper
    · simp at hhelper
    · obtain rfl := List.mem_singleton.mp hhelper
      have hfront : "import webapi from \"" = "import " ++ "webapi from \"" := by decide
      simp only [hfront, String.append_assoc]
      exact ⟨_, rfl⟩

theorem text_eq (m : Module) :
    m.text = "\n\n".intercalate (Printed.banner m.source ::
      (if m.importLines = [] then [] else ["\n".intercalate m.importLines]) ++
        m.blocks.map Block.text) := by
  rw [text, sections, banner_eq]
  simp [List.isEmpty_iff]

theorem not_opens_imports {name : String} (h : m.importLines ≠ []) :
    ¬ Opens name ("\n".intercalate m.importLines) := by
  cases hlines : m.importLines with
  | nil => exact (h hlines).elim
  | cons line lines =>
    obtain ⟨rest, rfl⟩ := exists_import (hlines ▸ List.mem_cons_self)
    rw [String.intercalate_cons_append]
    exact Opens.not_append _ (by decide)

/-- Besides the blocks that declare types, no section of a module looks like one. -/
theorem exists_sections {blocks others : List (Block String)}
    (hblocks : m.blocks = blocks ++ others) (hothers : others.filterMap Block.declared? = []) :
    ∃ before after : List String,
      m.text = "\n\n".intercalate (before ++ blocks.map Block.text ++ after) ∧
      ∀ s ∈ before ++ after, ∀ name, ¬ Opens name s := by
  refine ⟨Printed.banner m.source ::
    (if m.importLines = [] then [] else ["\n".intercalate m.importLines]),
    others.map Block.text, ?_, ?_⟩
  · rw [text_eq, hblocks, List.map_append, List.append_assoc]
  · intro s hs name
    rcases List.mem_append.mp hs with hbefore | hafter
    · rcases List.mem_cons.mp hbefore with rfl | himport
      · unfold Printed.banner
        simp only [String.append_assoc]
        exact Opens.not_append _ (by decide)
      · split at himport
        · simp at himport
        · rename_i hlines
          rw [List.mem_singleton.mp himport]
          exact not_opens_imports hlines
    · obtain ⟨b, hb, rfl⟩ := List.mem_map.mp hafter
      exact Block.not_opens_text (List.filterMap_eq_nil_iff.mp hothers b hb)

end Module

end ProtoStubs
