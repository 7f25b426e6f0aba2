import ProtoStubs.Proofs.Bindings
import ProtoStubs.Proofs.Blueprints
import ProtoStubs.Proofs.Composition
import ProtoStubs.Proofs.Places

/-!
The symbols of a module mean what the schema says. Where a module refers to a type, the symbol in
that place is the name of the type in the same module, and nothing is imported under it; or exactly
one import has the symbol, and it leads to the module and the name of that type.
-/

namespace ProtoStubs

/-- In the module `m` of the file `f`, the symbol denotes the type. -/
inductive Denotes (files : List SchemaFile) (f : SchemaFile) (m : Module) (t s : String) : Prop
  | own (e : Declared) (he : e ∈ f.declared) (ht : e.fullName = t) (hs : s = e.flatName)
      (hfree : ∀ i ∈ m.imports.pairs, i.2.symbol ≠ s)
  | imported (g : SchemaFile) (e : Declared) (path : String) (hg : g ∈ files)
      (hne : g.name ≠ f.name) (he : e ∈ g.declared) (ht : e.fullName = t)
      (himport : m.imports.pairs.filter (·.2.symbol = s) = [(path, ⟨e.flatName, s⟩)])
      (hpath : Path.normalize (Path.join (Path.parent f.modulePath) path) = g.modulePath)
      (hfree : ∀ e' ∈ f.declared, e'.flatName ≠ s) (hhelpers : s ≠ "webapi" ∧ s ≠ "Express")

namespace Context

variable {c : Context} {f : SchemaFile} {t s : String}

/-- A symbol that is settled denotes its type in the module that the context gives. -/
theorem Orderly.denotes {m : Module} (h : c.Orderly) (hledger : c.Ledger f.name)
    (hf : f ∈ c.files) (hown : ∀ e ∈ f.declared, f.definitionOf e ∈ c.definitions)
    (hplaced : ∀ g ∈ c.files, g.Placed) (hdirectory : Path.isAbsolute c.directory = true)
    (hm : m.imports = c.importsOf f.name) (hs : c.symbolFor? f.name t = some s) :
    Denotes c.files f m t s := by
  obtain ⟨d, hd⟩ := exists_definition_of_symbolFor? hs
  obtain ⟨g, hg, hgd⟩ := h.exists_file hd
  obtain ⟨e, he, ht, rfl⟩ := SchemaFile.definition?_eq_some hgd
  by_cases hname : g.name = f.name
  · obtain rfl : g = f := List.inj_on_of_nodup_map h.names hg hf hname
    have hflat : e.flatName = s := by
      simpa [symbolFor?, hd, SchemaFile.definitionOf] using hs
    refine .own e he ht hflat.symm ?_
    intro i hi
    obtain ⟨b, hb, hsymbol⟩ := Ledger.exists_of_mem_imports (hm ▸ hi)
    rw [← hsymbol, ← hflat]
    exact (hledger.unowned b hb _ (hown e he) rfl).symm
  · have hbound : c.symbol? f.name t = some s := by
      simpa [symbolFor?, hd, SchemaFile.definitionOf, hname] using hs
    obtain ⟨b, hb, hbt, rfl⟩ := exists_of_symbol? hbound
    obtain ⟨d, hleads⟩ := hledger.leads b hb
    obtain rfl : g.definitionOf e = d :=
      Option.some.inj (hd.symm.trans (hbt ▸ hleads.defined))
    have hplace : c.modulePathOf f.name = f.modulePath := by
      rw [modulePathOf, h.file?_of_mem hf]
    have hspecifier := hleads.specifier
    rw [hplace] at hspecifier
    have hpath := Layout.specifier?_eq c.directory f.modulePath (hplaced g hg).modulePath_ne_empty
    refine .imported g e _ hg hname he ht ?_
      ((hplaced f hf).normalize_specifier (hplaced g hg) hdirectory hpath) ?_ ?_
    · rw [hm, hledger.filter_imports hb (hspecifier.trans hpath), hleads.origin]
      rfl
    · intro e' he'
      exact hledger.unowned b hb _ (hown e' he') rfl
    · simpa [reservedNames] using hledger.unreserved b hb

theorem Ledger.meetAll {user : String} (h : c.Ledger user) (ds : List Demand) :
    ((Step.meetAll user ds).run c).context.Ledger user :=
  Step.meetAll_preserves (P := fun c => c.Ledger user) (fun _ r hc => hc.resolve r user) ds h

/-- The module of a registered file has for each type it refers to a symbol that denotes it. -/
theorem Orderly.exists_symbols {m : Module} {options : Options} (h : c.Orderly)
    (hledger : c.Ledger f.name) (hf : f ∈ c.files)
    (hown : ∀ e ∈ f.declared, f.definitionOf e ∈ c.definitions)
    (hplaced : ∀ g ∈ c.files, g.Placed) (hdirectory : Path.isAbsolute c.directory = true)
    (hm : ((Step.moduleOf f options).run c).result = .ok m) :
    ∃ symbol, m.blocks = (f.blocks options.role).map (Block.subst (Reference.written symbol)) ∧
      m.text = (f.blueprint m.imports m.helper symbol).text options.role ∧
      ∀ r, f.Refers r → Denotes c.files f m r (symbol r) := by
  have hknown : c.file? f.name ≠ none := by simp [h.file?_of_mem hf]
  obtain ⟨hmet, rfl⟩ := Step.moduleOf_ok hknown hm
  rw [(Step.moduleOf_known options hknown).1]
  have hgains := Step.meetAll_gains c f.name (f.demands options)
  have hmeets := Step.meets_of_meetAll hmet
  have hafter := hledger.meetAll (f.demands options)
  generalize ((Step.meetAll f.name (f.demands options)).run c).context = c'
    at hgains hmeets hafter ⊢
  refine ⟨fun r => (c'.symbolFor? f.name r).getD "", rfl, f.text_moduleIn c' options, ?_⟩
  intro r hr
  obtain ⟨s, hs⟩ := hmeets.exists_symbol hr
  have hdenotes : Denotes c'.files f (f.moduleIn options c') r s := by
    apply (h.gains hgains).denotes hafter
    · rwa [hgains.files_eq]
    · rwa [hgains.definitions_eq]
    · rwa [hgains.files_eq]
    · rwa [hgains.directory_eq]
    · rfl
    · exact hs
  simpa only [hs, Option.getD_some, hgains.files_eq] using hdenotes

end Context

/-- Let the files of a generation have places, and let no name be declared twice. Then each module
that is generated is written by symbols that denote the types: in the interface of each message that
is reached, what is written for a field has in it the symbol of what the field refers to, and the
stub of each method of the first service has the symbols of its input and output. Working
directories are absolute. -/
theorem generate_references_denote (directory : String) (files : List SchemaFile)
    (requested : List String) (options : Options) {t : Table String String}
    (hdirectory : Path.isAbsolute directory = true)
    (hplaced : ∀ g ∈ (registered directory files).files, g.Placed)
    (hdistinct : ((files.flatMap (·.declared)).map (·.fullName)).Nodup)
    (hok : (generate directory files requested options).result = .ok t) :
    ∀ u ∈ requested, ∃ f m symbol,
      let sections := (f.blueprint m.imports m.helper symbol).sections options.role
      (registered directory files).file? u = some f ∧
      ((Step.moduleOf f options).run (registered directory files)).result = .ok m ∧
      (f.outputPath, m.text) ∈ t.entries ∧
      m.blocks = (f.blocks options.role).map (Block.subst (Reference.written symbol)) ∧
      m.text = "\n\n".intercalate sections ∧
      (∀ scope message, Message.Reached [] f.messages scope message →
        Printed.interface (String.join (scope ++ [message.name]))
          (message.fields.map fun g =>
            (g.name, g.typeText symbol (message.entryNamed? f.package scope))) ∈ sections ∧
        ∀ g ∈ message.fields, ∀ r, g.Refers (message.entryIndex f.package scope) r →
          g.typeText symbol (message.entryNamed? f.package scope) =
              symbol r ++ (if g.isRepeated then "[]" else "") ∨
            ∃ v : Field, g.typeText symbol (message.entryNamed? f.package scope) =
              "\x7b[key: string]: " ++ (symbol r ++ if v.isRepeated then "[]" else "") ++ "\x7d") ∧
      (∀ s, f.services.head? = some s → ∀ method ∈ s.methods,
        Printed.stub options.role method.name (route f.package s.name method.name)
          (symbol method.input) (symbol method.output) ∈ sections) ∧
      ∀ r, f.Refers r → Denotes (registered directory files).files f m r (symbol r) := by
  intro u hu
  obtain ⟨entry, hmade, hentry⟩ := exists_entry hok hu
  obtain ⟨f, m, hf, hm, rfl⟩ := Context.entry_ok hentry
  have horderly := registered_orderly directory files
  have hplace := (registered_frame directory files).1
  have hsubset := files_registered_subset (registerAll_of_generate hok)
  have hmem := Context.mem_of_file? hf
  have hledger : (registered directory files).Ledger f.name :=
    Context.Ledger.of_bindingsOf_eq_nil (registered_bindingsOf directory files f.name)
  have hown : ∀ e ∈ f.declared, f.definitionOf e ∈ (registered directory files).definitions :=
    fun e he => horderly.definitionOf_mem ((separateTypes_of_nodup hdistinct).mono hsubset) hmem
      (nodup_declared hdistinct (hsubset hmem)) he
  obtain ⟨symbol, hblocks, htext, hdenotes⟩ := horderly.exists_symbols hledger hmem hown hplaced
    (by rw [hplace]; exact hdirectory) hm
  refine ⟨f, m, symbol, hf, hm, hmade, hblocks, htext, ?_, ?_, hdenotes⟩
  · intro scope message hreached
    refine ⟨hreached.printed_mem m.imports m.helper symbol options.role, fun g _ r hr => ?_⟩
    rw [← funext (message.get?_entryIndex f.package scope)]
    exact hr.typeText
  · intro s hs method hmethod
    exact Service.stub_mem m.imports m.helper symbol options.role hs hmethod

/-- A file that uses types with one flat name, in a field, in a map and as the input of a method. -/
def holdersFile : SchemaFile :=
  { holderFile with
    services := [
      { name := "Holders"
        methods := [{ name := "Find", input := ".b.User", output := ".c.d.Holder" }] }] }

theorem holdersFile_references_denote :
    ∃ m symbol,
      ((Step.moduleOf holdersFile {}).run
        (registered "/" [userFile "a", userFile "b", holdersFile])).result = .ok m ∧
      m.blocks = (holdersFile.blocks .client).map (Block.subst (Reference.written symbol)) ∧
      m.text =
        "/**\n * This file is auto-generated by protoc-webapi-ts from c.proto\n" ++
        " * Don't change manually\n */\n\n" ++
        "import \x7b User as User \x7d from \"../../a/a\";\n" ++
        "import \x7b User as User_2 \x7d from \"../../b/b\";\n" ++
        "import webapi from \"../../webapi\";\n\n" ++
        "export interface Holder \x7b\n" ++
        "  x: User;\n  y: \x7b[key: string]: User_2\x7d;\n  z: User_1;\n\x7d\n\n" ++
        "export interface User_1 \x7b\n\x7d\n\n" ++
        "export function Find(payload: User_2): Promise<Holder> \x7b\n" ++
        "  return webapi<Holder>(\"c.d.Holders/Find\", payload);\n\x7d\n\n" ++
        "export default \x7b\n  Find,\n\x7d;" ∧
      m.text = (holdersFile.blueprint m.imports m.helper symbol).text .client ∧
      Denotes (registered "/" [userFile "a", userFile "b", holdersFile]).files holdersFile m
        ".b.User" (symbol ".b.User") := by
  obtain ⟨t, ht⟩ : ∃ t, (generate "/" [userFile "a", userFile "b", holdersFile] ["c.proto"]
    {}).result = .ok t := ⟨_, rfl⟩
  obtain ⟨f, m, symbol, hf, hm, _, hblocks, htext, _, _, hdenotes⟩ :=
    generate_references_denote "/" [userFile "a", userFile "b", holdersFile] ["c.proto"] {}
      (by decide) (by decide +kernel) (by decide +kernel) ht "c.proto" List.mem_cons_self
  obtain rfl : holdersFile = f := Option.some.inj hf
  have hrefers : holdersFile.Refers ".b.User" :=
    .input (m := { name := "Find", input := ".b.User", output := ".c.d.Holder" }) rfl
      List.mem_cons_self
  refine ⟨m, symbol, hm, hblocks, ?_, htext, hdenotes _ hrefers⟩
  cases hm
  decide +kernel

end ProtoStubs
