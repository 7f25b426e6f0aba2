import ProtoStubs.CommandLine.Arguments
import ProtoStubs.Proofs.FlatNames
import ProtoStubs.Proofs.Parameters
import ProtoStubs.Proofs.Roles

/-!
What binds the names of the helpers in a module with a service. A file that declares such a name has
no module, and no type is imported under one. So besides the helper imports themselves only the
stubs can bind it, since methods may be called anything. The helper import is there unless the
command line names no helper and the file has no package; the parameter of a plugin always names
one.
-/

namespace ProtoStubs

inductive Binder where
  | imported
  | framework
  | helper
  | declaration
  | stub
deriving Repr, DecidableEq

def Block.binding? {ρ : Type} : Block ρ → Option (Binder × String)
  | .enum name _ => some (.declaration, name)
  | .interface name _ => some (.declaration, name)
  | .stub _ name _ _ _ => some (.stub, name)
  | .exports _ => none

namespace Module

def helperBindings (m : Module) : List (Binder × String) :=
  (if m.framework then [(Binder.framework, "Express")] else []) ++
    (if m.helper = "" then [] else [(Binder.helper, "webapi")])

def bindings (m : Module) : List (Binder × String) :=
  m.imports.pairs.map (fun i => (Binder.imported, i.2.symbol)) ++ m.helperBindings ++
    m.blocks.filterMap Block.binding?

def bindingsOf (m : Module) (name : String) : List (Binder × String) :=
  m.bindings.filter (·.2 = name)

end Module

namespace Context

variable {c : Context} {es : List Event}

theorem unreserved_resolve (h : ∀ b ∈ c.bindings, b.symbol ∉ reservedNames) (t user : String) :
    ∀ b ∈ ((Step.resolve t user).run c).context.bindings, b.symbol ∉ reservedNames := by
  rcases lookup_cases c user t with hnone | ⟨s, hs⟩ | ⟨d, hd⟩
  · rw [Step.resolve_undefined user hnone]
    exact h
  · rw [Step.resolve_settled hs]
    exact h
  · rw [Step.resolve_unbound hd]
    have hnew := newBinding_symbol_notMem c user d
    rw [mem_taken_iff, not_or] at hnew
    exact List.forall_mem_append.mpr ⟨h, List.forall_mem_singleton.mpr hnew.1⟩

/-- No type is ever imported under the name of a helper. -/
theorem Runs.unreserved {directory : String} (h : Runs { directory := directory } es c) :
    ∀ b ∈ c.bindings, b.symbol ∉ reservedNames := by
  induction h with
  | start => exact fun b hb => absurd hb List.not_mem_nil
  | registered _ _ ih =>
    rw [bindings_enroll]
    exact ih
  | resolved _ _ ih => exact unreserved_resolve ih _ _
  | refused _ _ ih => exact unreserved_resolve ih _ _

end Context

theorem Role.helperNames_subset (role : Role) : role.helperNames ⊆ reservedNames := by
  cases role <;> decide

theorem Block.binding?_subst {ρ σ : Type} (g : ρ → TypeExpr σ) (b : Block ρ) :
    (b.subst g).binding? = b.binding? := by
  cases b <;> rfl

theorem Block.binding?_of_declared? {ρ : Type} {b : Block ρ} (h : b.declared?.isSome) :
    b.binding? = b.declared?.map (Binder.declaration, ·) := by
  cases b with
  | enum name members => rfl
  | interface name fields => rfl
  | stub role name route input output => simp [declared?] at h
  | exports names => rfl

theorem EnumDef.isSome_declared? {outer : String} {es : List EnumDef} {b : Block Reference}
    (h : .block b ∈ es.flatMap (EnumDef.outline outer)) : b.declared?.isSome := by
  obtain ⟨e, _, he⟩ := List.mem_flatMap.mp h
  unfold EnumDef.outline at he
  split at he
  · simp at he
  · obtain rfl : b = e.block outer := by simpa using he
    rfl

theorem Message.isSome_declared? {package outer : String} {scope : List String}
    {ms : List Message} {b : Block Reference}
    (h : .block b ∈ outlines package outer scope ms) : b.declared?.isSome := by
  induction ms using nested_induction generalizing outer scope with
  | step ms ih =>
    obtain ⟨m, hm, _, hitem⟩ := mem_outlines.mp h
    rw [outline_eq, List.mem_append, List.mem_append] at hitem
    rcases hitem with (hnested | henum) | hself
    · exact ih m hm hnested
    · exact EnumDef.isSome_declared? henum
    · obtain rfl : b = m.interface package (outer ++ m.name) scope := by simpa using hself
      rfl

namespace SchemaFile

variable {f : SchemaFile} {c : Context}

theorem isSome_declared? {b : Block Reference} (h : .block b ∈ f.declarations) :
    b.declared?.isSome := by
  rcases List.mem_append.mp h with henum | hmessage
  · exact EnumDef.isSome_declared? henum
  · exact Message.isSome_declared? hmessage

theorem exports_subset_paths (f : SchemaFile) : f.exports ⊆ f.paths := by
  intro p hp
  obtain ⟨s, hs, hp⟩ := List.mem_flatMap.mp hp
  obtain ⟨name, hname, rfl⟩ := List.mem_map.mp hp
  exact List.mem_flatMap.mpr
    ⟨s, hs, List.mem_map_of_mem ((s.names_sublist EnumDef.isWritten).subset hname)⟩

/-- What the module of a file declares, the file declares. -/
theorem flatName_of_declared? {name : String} (h : name ∈ f.declarations.filterMap Item.declared?) :
    name ∈ f.declared.map (·.flatName) := by
  have hall : name ∈ (f.outline .client).filterMap Item.declared? := by
    rw [outline_eq, List.filterMap_append]
    exact List.mem_append_left _ h
  obtain ⟨p, hp, rfl⟩ := List.mem_map.mp ((f.declared?_outline_perm .client).mem_iff.mp hall)
  have hdeclared := f.declared_perm.mem_iff.mpr
    (List.mem_map_of_mem (f := Declared.ofPath f.package) (f.exports_subset_paths hp))
  exact List.mem_map.mpr ⟨_, hdeclared, rfl⟩

/-- The declarations of a module bind names that the file declares. -/
theorem of_mem_bindings_declarations {e : Binder × String}
    (h : e ∈ (c.blocksFor f.name f.declarations).filterMap Block.binding?) :
    e.1 = .declaration ∧ e.2 ∈ f.declared.map (·.flatName) := by
  obtain ⟨b, hb, he⟩ := List.mem_filterMap.mp h
  obtain ⟨b', hb', rfl⟩ := List.mem_map.mp hb
  have hitem := Item.mem_blocks.mp hb'
  rw [Block.binding?_subst, Block.binding?_of_declared? (isSome_declared? hitem),
    Option.map_eq_some_iff] at he
  obtain ⟨name, hname, rfl⟩ := he
  refine ⟨rfl, flatName_of_declared? (List.mem_filterMap.mpr ⟨_, hitem, ?_⟩)⟩
  exact hname

end SchemaFile

theorem Service.bindings_stubs (s : Service) (package : String) (symbol : String → String)
    (role : Role) :
    ((s.stubs package symbol).map (Stub.block role)).filterMap Block.binding? =
      s.methods.map fun m => (Binder.stub, m.name) := by
  rw [stubs, List.map_map, List.filterMap_map, ← List.filterMap_eq_map]
  rfl

/-- The names that declarations and stubs bind in the module of a file with a service. -/
theorem SchemaFile.bindings_blocks {f : SchemaFile} {s : Service} {dropped : List Service}
    (hs : f.services = s :: dropped) (options : Options) (c : Context) :
    (f.moduleIn options c).blocks.filterMap Block.binding? =
      (c.blocksFor f.name f.declarations).filterMap Block.binding? ++
        s.methods.map fun m => (Binder.stub, m.name) := by
  rw [blocks_moduleIn, blueprintIn, blueprint, hs, List.head?_cons, Option.map_some,
    Option.getD_some, List.filterMap_append, List.filterMap_append, Service.bindings_stubs]
  simp [Block.binding?]

section Made

variable {directory : String} {calls : List Call} {f : SchemaFile} {options : Options}
  {s : Service} {dropped : List Service} {m : Module} {name : String}
  (hs : f.services = s :: dropped)
  (hm : ((Step.moduleOf f options).run
    (contextAfter { directory := directory } calls)).result = .ok m)

include hs hm

/-- Only helper imports and stubs bind the name of a helper. -/
theorem bindingsOf_helperName (hname : name ∈ options.role.helperNames) :
    m.bindingsOf name = m.helperBindings.filter (·.2 = name) ++
      (s.methods.filter (·.name = name)).map fun method => (Binder.stub, method.name) := by
  obtain ⟨_, hmeets, rfl⟩ := Step.moduleOf_made hm
  have hruns := (session_runs { directory := directory } calls).trans
    (Step.moduleOf_runs f options _)
  generalize ((Step.moduleOf f options).run _).context = c at hmeets hruns
  have himported : ((f.moduleIn options c).imports.pairs.map
      fun i => (Binder.imported, i.2.symbol)).filter (·.2 = name) = [] := by
    simp only [List.filter_eq_nil_iff, List.forall_mem_map, decide_eq_true_eq]
    intro i hi heq
    obtain ⟨b, hb, hsymbol⟩ := Context.Ledger.exists_of_mem_imports hi
    have hreserved := options.role.helperNames_subset hname
    rw [← heq, ← hsymbol] at hreserved
    exact hruns.unreserved b (List.mem_of_mem_filter hb) hreserved
  have hdeclared : ((c.blocksFor f.name f.declarations).filterMap Block.binding?).filter
      (·.2 = name) = [] := by
    simp only [List.filter_eq_nil_iff, decide_eq_true_eq]
    rintro e he rfl
    have hclashes := (SchemaFile.clashes_eq_nil_of_meets hmeets).resolve_left (by simp [hs])
    have hdeclares := (SchemaFile.of_mem_bindings_declarations he).2
    have hclash : e.2 ∈ f.clashes options.role :=
      List.mem_filter.mpr ⟨hname, decide_eq_true hdeclares⟩
    rw [hclashes] at hclash
    exact List.not_mem_nil hclash
  rw [Module.bindingsOf, Module.bindings, SchemaFile.bindings_blocks hs, List.filter_append,
    List.filter_append, List.filter_append, himported, hdeclared, List.nil_append, List.nil_append,
    List.filter_map]
  rfl

theorem framework_eq : m.framework = (options.role == .server) := by
  obtain ⟨_, _, rfl⟩ := Step.moduleOf_made hm
  simp [SchemaFile.moduleIn, hs]

/-- The helper is imported unless there is neither a package nor a path to the helper. -/
theorem helper_eq_empty_iff :
    m.helper = "" ↔ f.package = "" ∧ options.helper.getD "" = "" := by
  obtain ⟨_, hmeets, rfl⟩ := Step.moduleOf_made hm
  simp only [SchemaFile.moduleIn, SchemaFile.helperSpecifier, hs, List.isEmpty_cons,
    Bool.false_eq_true, if_false]
  cases hh : options.helper with
  | some helper =>
    by_cases hpackage : f.package = ""
    · simp [Layout.helperPath, hpackage]
    · simp [Layout.helperPath, hpackage, Path.normalize, Path.orDot_ne_empty]
  | none =>
    -- Inside a package a module without a path to the helper is refused.
    have hpackage : f.package = "" := by
      by_contra hpackage
      have hrefuse : .refuse .noHelper ∈ f.demands options := by
        simp [SchemaFile.demands, SchemaFile.helperDemands, hs, hh, hpackage]
      exact hmeets _ hrefuse
    simp [hpackage]

/-- The helper import and the stubs called like it are all that binds the name of the helper. -/
theorem bindingsOf_webapi :
    m.bindingsOf "webapi" = (if m.helper = "" then [] else [(Binder.helper, "webapi")]) ++
      (s.methods.filter (·.name = "webapi")).map fun method => (Binder.stub, method.name) := by
  have hname : "webapi" ∈ options.role.helperNames := by cases options.role <;> decide
  rw [bindingsOf_helperName hs hm hname, Module.helperBindings]
  cases m.framework <;> by_cases hempty : m.helper = "" <;> simp [hempty]

theorem bindingsOf_express (hrole : options.role = .server) :
    m.bindingsOf "Express" = (.framework, "Express") ::
      (s.methods.filter (·.name = "Express")).map fun method => (Binder.stub, method.name) := by
  have hname : "Express" ∈ options.role.helperNames := by rw [hrole]; decide
  have hframework : m.framework = true := by rw [framework_eq hs hm, hrole]; rfl
  rw [bindingsOf_helperName hs hm hname, Module.helperBindings, hframework]
  by_cases hempty : m.helper = "" <;> simp [hempty]

end Made

theorem Service.filter_methods_eq_nil_iff (s : Service) (name : String) :
    s.methods.filter (·.name = name) = [] ↔ name ∉ s.methods.map (·.name) := by
  simp [List.filter_eq_nil_iff]

namespace Options

/-- The parameter of a plugin always leaves a path to the helper. -/
theorem helper_of_parse {parameter : String} {o : Options} (h : parse parameter = .ok o) :
    o.helper.getD "" ≠ "" := by
  obtain ⟨settings, hsets, heq⟩ := exists_settings_of_parse h
  rw [((eq_foldl_apply_iff hsets).mp heq).2.1, Option.getD_some]
  cases hlast : (settings.filterMap Setting.path?).getLast? with
  | none => decide
  | some path =>
    obtain ⟨s, hs, hpath⟩ := List.mem_filterMap.mp (List.mem_of_getLast? hlast)
    obtain ⟨p, _, hset⟩ := exists_sets_of_mem hsets hs
    exact hset.path_ne_empty hpath

end Options

/-- A module is written as its blueprint says. In the module of a file with a service no type is
declared or imported under the name of a helper. The name of the helper is bound once, by its
import, exactly if the file has a package or the options name a helper, as those of a plugin do, and
no method is called by that name; the name of the framework is bound once in a server module exactly
if no method is called by it. -/
theorem helper_names_bound_once_iff (directory : String) (calls : List Call) (f : SchemaFile)
    (options : Options) (s : Service) (dropped : List Service) (m : Module)
    (hs : f.services = s :: dropped)
    (hm : ((Step.moduleOf f options).run
      (contextAfter { directory := directory } calls)).result = .ok m) :
    (∃ symbol, m.text = (f.blueprint m.imports m.helper symbol).text options.role) ∧
    (∀ name ∈ options.role.helperNames, ∀ e ∈ m.bindingsOf name,
      e.1 ≠ .imported ∧ e.1 ≠ .declaration) ∧
    (m.bindingsOf "webapi" = [(.helper, "webapi")] ↔
      (f.package ≠ "" ∨ options.helper.getD "" ≠ "") ∧ "webapi" ∉ s.methods.map (·.name)) ∧
    ((f.package ≠ "" ∨ options.helper.getD "" ≠ "") →
      "import webapi from \"" ++ m.helper ++ "\";" ∈ m.importLines) ∧
    (∀ parameter, Options.parse parameter = .ok options → options.helper.getD "" ≠ "") ∧
    (options.role = .server →
      (m.bindingsOf "Express" = [(.framework, "Express")] ↔
        "Express" ∉ s.methods.map (·.name)) ∧
      "import \x7b Express \x7d from \"express\";" ∈ m.importLines) := by
  have hhelper : m.helper ≠ "" ↔ f.package ≠ "" ∨ options.helper.getD "" ≠ "" :=
    (helper_eq_empty_iff hs hm).not.trans Decidable.not_and_iff_not_or_not
  refine ⟨SchemaFile.text_of_made hm, ?_, ?_, ?_, fun _ => Options.helper_of_parse, ?_⟩
  · intro name hname e he
    rw [bindingsOf_helperName hs hm hname, List.mem_append] at he
    rcases he with himport | hstub
    · have hmem := List.mem_of_mem_filter himport
      unfold Module.helperBindings at hmem
      rcases List.mem_append.mp hmem with hmem | hmem
      · split at hmem <;> simp_all
      · split at hmem <;> simp_all
    · obtain ⟨method, _, rfl⟩ := List.mem_map.mp hstub
      simp
  · rw [bindingsOf_webapi hs hm, ← hhelper, ← s.filter_methods_eq_nil_iff]
    by_cases hempty : m.helper = ""
    · -- Without the import there are only stubs.
      cases s.methods.filter (·.name = "webapi") <;> simp [hempty]
    · simp [hempty]
  · intro hnamed
    have hne := hhelper.mpr hnamed
    simp [Module.importLines, hne]
  · intro hrole
    have hframework : m.framework = true := by rw [framework_eq hs hm, hrole]; rfl
    rw [bindingsOf_express hs hm hrole, ← s.filter_methods_eq_nil_iff]
    simp [Module.importLines, hframework]

/-- A file with a service that takes a type called like the framework. -/
def hooksFile : SchemaFile :=
  { name := "api.proto"
    package := "api"
    messages := [{ name := "Reply" }]
    services := [
      { name := "Hooks"
        methods := [{ name := "Receive", input := ".ext.Express", output := ".api.Reply" }] }] }

def expressFile : SchemaFile :=
  { name := "ext.proto", package := "ext", messages := [{ name := "Express" }] }

theorem hooksFile_helper_names :
    ∃ m, ((Step.moduleOf hooksFile { role := .server }).run
        (contextAfter {} [.register expressFile])).result = .ok m ∧
      m.bindings = [(.imported, "Express_1"), (.framework, "Express"), (.helper, "webapi"),
        (.declaration, "Reply"), (.stub, "Receive")] ∧
      m.bindingsOf "webapi" = [(.helper, "webapi")] ∧
      m.bindingsOf "Express" = [(.framework, "Express")] := by
  obtain ⟨m, hm, hbindings⟩ : ∃ m, ((Step.moduleOf hooksFile { role := .server }).run
        (contextAfter {} [.register expressFile])).result = .ok m ∧
      m.bindings = [(.imported, "Express_1"), (.framework, "Express"), (.helper, "webapi"),
        (.declaration, "Reply"), (.stub, "Receive")] := ⟨_, rfl, by decide +kernel⟩
  obtain ⟨_, _, hwebapi, _, _, hserver⟩ := helper_names_bound_once_iff "/" [.register expressFile]
    hooksFile { role := .server } _ [] m rfl hm
  exact ⟨m, hm, hbindings, hwebapi.mpr (by decide), (hserver rfl).1.mpr (by decide)⟩

def pingFile (method : String) : SchemaFile :=
  { name := "ping.proto"
    messages := [{ name := "Ping" }]
    services := [
      { name := "Pinger", methods := [{ name := method, input := ".Ping", output := ".Ping" }] }] }

/-- A method called like the helper binds its name a second time, and a command line without a path
to the helper leaves it unbound. -/
theorem pingFile_helper_name_not_bound_once :
    (∃ m, ((Step.moduleOf (pingFile "webapi") {}).run {}).result = .ok m ∧
      m.bindingsOf "webapi" = [(.helper, "webapi"), (.stub, "webapi")]) ∧
    (∃ m, ((Step.moduleOf (pingFile "Express") { role := .server }).run {}).result = .ok m ∧
      m.bindingsOf "Express" = [(.framework, "Express"), (.stub, "Express")]) ∧
    ∃ a, CommandLine.Arguments.parse
        ["--proto", "ping.proto", "--out", "out", "--webapi-path", ""] = .ok a ∧
      ∃ m, ((Step.moduleOf (pingFile "Call") a.options).run {}).result = .ok m ∧
        m.bindingsOf "webapi" = [] := by
  refine ⟨⟨_, rfl, by decide +kernel⟩, ⟨_, rfl, by decide +kernel⟩, ?_⟩
  refine ⟨⟨some "ping.proto", some "out", { helper := some "" }, [], false⟩, by decide +kernel, ?_⟩
  exact ⟨_, rfl, by decide +kernel⟩

end ProtoStubs
