import ProtoStubs.Proofs.Blueprints
import ProtoStubs.Proofs.Stability

/-!
The client module and the server module of a file fit together. Both ask for the same types in the
same order, so they leave the same context and are written from one blueprint. A file may have a
client module only: that is so if it has a service and declares the name that the framework is
imported under.
-/

namespace ProtoStubs

namespace SchemaFile

variable {f : SchemaFile}

/-- The framework is the one helper that only servers import. -/
theorem clashes_server (f : SchemaFile) :
    f.clashes .server =
      (if "Express" ∈ f.declared.map (·.flatName) then ["Express"] else []) ++
        f.clashes .client := by
  unfold clashes Role.helperNames
  rw [List.filter_cons]
  split <;> simp_all

theorem demands_of_service {s : Service} {dropped : List Service} (options : Options)
    (hs : f.services = s :: dropped) :
    f.demands options =
      f.declarations.flatMap (Item.demands options.strict f.name) ++ f.droppedDemands s dropped ++
        (f.clashDemands options.role ++ (s.demands ++ f.helperDemands options)) := by
  rw [demands_eq, serviceDemands, hs]
  simp only [List.append_assoc]

/-- Where a server module is not refused for a name, both roles demand the same. -/
theorem demands_server_eq (helper : Option String) (strict : Bool)
    (h : f.services = [] ∨ f.clashes .server = []) :
    f.demands ⟨.server, helper, strict⟩ = f.demands ⟨.client, helper, strict⟩ := by
  have hservice : f.serviceDemands .server = f.serviceDemands .client := by
    unfold serviceDemands
    rcases h with hnone | hfree
    · rw [hnone]
    · have hclient : f.clashes .client = [] := by
        rw [clashes_server, List.append_eq_nil_iff] at hfree
        exact hfree.2
      simp only [clashDemands, hfree, hclient]
  rw [demands_eq, demands_eq, hservice]
  rfl

/-- A module whose demands can be met has no service, or leaves the names of the helpers alone. -/
theorem clashes_eq_nil_of_meets {c : Context} {options : Options}
    (h : c.Meets f.name (f.demands options)) : f.services = [] ∨ f.clashes options.role = [] := by
  by_contra hclash
  obtain ⟨hservice, hnames⟩ := not_or.mp hclash
  obtain ⟨s, dropped, hs⟩ := List.exists_cons_of_ne_nil hservice
  have hrefuse : .refuse (.helperClash f.name (f.clashes options.role)) ∈ f.demands options := by
    rw [demands_eq]
    simp [serviceDemands, hs, clashDemands, hnames]
  exact h _ hrefuse

end SchemaFile

namespace Step

open Context

variable {c : Context} {f : SchemaFile} {options options' : Options}

/-- Modules with the same demands leave the same context, and each is read off it. -/
theorem moduleOf_congr (h : f.demands options' = f.demands options) (c : Context) :
    ((moduleOf f options').run c).context = ((moduleOf f options).run c).context ∧
      ((moduleOf f options').run c).result = ((moduleOf f options).run c).result.map fun _ =>
        f.moduleIn options' ((moduleOf f options).run c).context := by
  cases hr : ((register f).run c).result with
  | error fault =>
    obtain ⟨hcontext, hresult⟩ := moduleOf_refused options hr
    obtain ⟨hcontext', hresult'⟩ := moduleOf_refused options' hr
    rw [hcontext', hcontext, hresult', hresult]
    exact ⟨rfl, rfl⟩
  | ok _ =>
    obtain ⟨hcontext, hresult⟩ := moduleOf_registered options hr
    obtain ⟨hcontext', hresult'⟩ := moduleOf_registered options' hr
    rw [hcontext', hcontext, hresult', hresult, h]
    refine ⟨rfl, ?_⟩
    cases ((meetAll f.name (f.demands options)).run ((register f).run c).context).result <;> rfl

/-- A refusal comes up once the demands before it are met. -/
theorem meetAll_append_refuse {user : String} {ds es es' : List Demand} {fault : Fault}
    (h : ((meetAll user (ds ++ es)).run c).result = .ok ()) :
    ((meetAll user (ds ++ .refuse fault :: es')).run c).result = .error fault := by
  rw [meetAll_append, run_bind] at h ⊢
  cases hr : ((meetAll user ds).run c).result with
  | error fault' => simp [after_error _ hr] at h
  | ok _ =>
    rw [after_ok _ hr]
    rfl

variable {helper : Option String} {strict : Bool} {m : Module}

/-- A server module that can be made leaves the client module to be read off its context. -/
theorem moduleOf_client_of_server
    (h : ((moduleOf f ⟨.server, helper, strict⟩).run c).result = .ok m) :
    ((moduleOf f ⟨.client, helper, strict⟩).run c).context =
        ((moduleOf f ⟨.server, helper, strict⟩).run c).context ∧
      ((moduleOf f ⟨.client, helper, strict⟩).run c).result =
        .ok (f.moduleIn ⟨.client, helper, strict⟩
          ((moduleOf f ⟨.server, helper, strict⟩).run c).context) := by
  have hfree := SchemaFile.clashes_eq_nil_of_meets (moduleOf_made h).2.1
  obtain ⟨hcontext, hresult⟩ := moduleOf_congr (f.demands_server_eq helper strict hfree).symm c
  rw [hresult, h]
  exact ⟨hcontext, rfl⟩

/-- Where there is a client module, and the file has a service and declares the name of the
framework, the server module is refused for that name. -/
theorem moduleOf_server_refused
    (h : ((moduleOf f ⟨.client, helper, strict⟩).run c).result = .ok m) (hs : f.services ≠ [])
    (hserver : f.clashes .server = ["Express"]) :
    ((moduleOf f ⟨.server, helper, strict⟩).run c).result =
      .error (.helperClash f.name ["Express"]) := by
  have hclient : f.clashes .client = [] :=
    (SchemaFile.clashes_eq_nil_of_meets (moduleOf_made h).2.1).resolve_left hs
  have hrefuse : f.clashDemands .server = [.refuse (.helperClash f.name ["Express"])] := by
    simp [SchemaFile.clashDemands, hserver]
  obtain ⟨s, dropped, hservices⟩ := List.exists_cons_of_ne_nil hs
  cases hr : ((register f).run c).result with
  | error fault => simp [(moduleOf_refused _ hr).2] at h
  | ok _ =>
    obtain ⟨_, hmet, _⟩ := map_eq_ok_iff.mp ((moduleOf_registered _ hr).2.symm.trans h)
    -- Both roles demand the same up to the point where the server is refused.
    rw [SchemaFile.demands_of_service _ hservices] at hmet
    rw [(moduleOf_registered _ hr).2, SchemaFile.demands_of_service _ hservices, hrefuse,
      List.singleton_append, meetAll_append_refuse hmet]
    rfl

/-- A client module can be made where a server module cannot only because of the framework. -/
theorem moduleOf_client_only {fault : Fault}
    (hclient : ((moduleOf f ⟨.client, helper, strict⟩).run c).result = .ok m)
    (hserver : ((moduleOf f ⟨.server, helper, strict⟩).run c).result = .error fault) :
    f.services ≠ [] ∧ "Express" ∈ f.declared.map (·.flatName) ∧
      fault = .helperClash f.name ["Express"] := by
  have hclash : ¬(f.services = [] ∨ f.clashes .server = []) := by
    intro hfree
    have hresult := (moduleOf_congr (f.demands_server_eq helper strict hfree) c).2
    rw [hserver, hclient] at hresult
    cases hresult
  obtain ⟨hs, hnames⟩ := not_or.mp hclash
  have hfree := (SchemaFile.clashes_eq_nil_of_meets (moduleOf_made hclient).2.1).resolve_left hs
  by_cases hname : "Express" ∈ f.declared.map (·.flatName)
  · rw [f.clashes_server, if_pos hname, hfree] at hnames
    have hrefused := moduleOf_server_refused hclient hs
      (by rw [f.clashes_server, if_pos hname, hfree, List.append_nil])
    exact ⟨hs, hname, Except.error.inj (hserver.symm.trans hrefused)⟩
  · rw [f.clashes_server, if_neg hname, hfree] at hnames
    exact (hnames rfl).elim

end Step

/-- If the server module of a file can be made, so can the client module. Both leave the same
context, and both are written from one blueprint, in which each type that the file refers to has its
symbol. If only the client module can be made, the file has a service and declares the name of the
framework, and that is what the server module is refused for. -/
theorem client_and_server_agree (c : Context) (f : SchemaFile) (helper : Option String)
    (strict : Bool) :
    let client := (Call.module f ⟨.client, helper, strict⟩).perform.run c
    let server := (Call.module f ⟨.server, helper, strict⟩).perform.run c
    (∀ answer, server.result = .ok answer →
      client.context = server.context ∧
      (∀ t, f.Refers t → ∃ s, server.context.symbolFor? f.name t = some s) ∧
      answer = .text ((f.blueprintIn helper server.context).text .server) ∧
      client.result = .ok (.text ((f.blueprintIn helper server.context).text .client))) ∧
    ∀ answer fault, client.result = .ok answer → server.result = .error fault →
      f.services ≠ [] ∧ "Express" ∈ f.declared.map (·.flatName) ∧
        fault = .helperClash f.name ["Express"] := by
  intro client server
  obtain ⟨hclient, hclient'⟩ : client.result = _ ∧ client.context = _ :=
    Step.run_perform_module f ⟨.client, helper, strict⟩ c
  obtain ⟨hserver, hserver'⟩ : server.result = _ ∧ server.context = _ :=
    Step.run_perform_module f ⟨.server, helper, strict⟩ c
  constructor
  · intro answer hanswer
    obtain ⟨m, hm, rfl⟩ := Step.map_eq_ok_iff.mp (hserver.symm.trans hanswer)
    obtain ⟨_, hmeets, rfl⟩ := Step.moduleOf_made hm
    obtain ⟨hcontext, hresult⟩ := Step.moduleOf_client_of_server hm
    rw [hclient', hclient, hserver', hcontext, hresult]
    refine ⟨rfl, fun t ht => hmeets.exists_symbol ht, ?_, ?_⟩
    · exact congrArg Answer.text (f.text_moduleIn _ _)
    · exact congrArg (Except.ok ∘ Answer.text) (f.text_moduleIn _ _)
  · intro answer fault hanswer hfault
    obtain ⟨m, hm, _⟩ := Step.map_eq_ok_iff.mp (hclient.symm.trans hanswer)
    have hm' := Step.map_eq_error_iff.mp (hserver.symm.trans hfault)
    exact Step.moduleOf_client_only hm hm'

/-- A file with a service that uses a type of another file, and with the messages given. -/
def greeterFile (messages : List Message) : SchemaFile :=
  { name := "g.proto"
    package := "g"
    messages := messages
    services := [
      { name := "Greeter"
        methods := [{ name := "Greet", input := ".a.User", output := ".a.User" }] }] }

theorem greeterFile_client_and_server :
    (∃ blueprint : Blueprint,
      ((Call.module (greeterFile [{ name := "Hello", fields := [{ name := "count" }] }])
        { role := .server }).perform.run (registered "/" [userFile "a"])).result =
        .ok (.text (blueprint.text .server)) ∧
      ((Call.module (greeterFile [{ name := "Hello", fields := [{ name := "count" }] }])
        {}).perform.run (registered "/" [userFile "a"])).result =
        .ok (.text (blueprint.text .client)) ∧
      blueprint.stubs = [⟨"Greet", "g.Greeter/Greet", "User", "User"⟩] ∧
      blueprint.text .server =
        "/**\n * This file is auto-generated by protoc-webapi-ts from g.proto\n" ++
        " * Don't change manually\n */\n\n" ++
        "import \x7b User as User \x7d from \"../a/a\";\n" ++
        "import \x7b Express \x7d from \"express\";\nimport webapi from \"../webapi\";\n\n" ++
        "export interface Hello \x7b\n  count: number;\n\x7d\n\n" ++
        "export function Greet(app: Express, handler: (params: User) => Promise<User>) \x7b\n" ++
        "  return webapi<User, User>(\"g.Greeter/Greet\", app, handler, " ++
        "\x7b method: \"POST\" \x7d);\n\x7d\n\nexport default \x7b\n  Greet,\n\x7d;" ∧
      blueprint.text .client =
        "/**\n * This file is auto-generated by protoc-webapi-ts from g.proto\n" ++
        " * Don't change manually\n */\n\n" ++
        "import \x7b User as User \x7d from \"../a/a\";\nimport webapi from \"../webapi\";\n\n" ++
        "export interface Hello \x7b\n  count: number;\n\x7d\n\n" ++
        "export function Greet(payload: User): Promise<User> \x7b\n" ++
        "  return webapi<User>(\"g.Greeter/Greet\", payload);\n\x7d\n\n" ++
        "export default \x7b\n  Greet,\n\x7d;") ∧
    ((Call.module (greeterFile [{ name := "Express" }]) { role := .server }).perform.run
      (registered "/" [userFile "a"])).result = .error (.helperClash "g.proto" ["Express"]) := by
  constructor
  · obtain ⟨answer, hserver⟩ : ∃ answer,
        ((Call.module (greeterFile [{ name := "Hello", fields := [{ name := "count" }] }])
          { role := .server }).perform.run (registered "/" [userFile "a"])).result = .ok answer :=
      ⟨_, rfl⟩
    obtain ⟨_, _, rfl, hclient⟩ := (client_and_server_agree (registered "/" [userFile "a"])
      (greeterFile _) (some "webapi") false).1 answer hserver
    exact ⟨_, hserver, hclient, rfl, by decide +kernel, by decide +kernel⟩
  · obtain ⟨answer, hclient⟩ : ∃ answer,
        ((Call.module (greeterFile [{ name := "Express" }]) {}).perform.run
          (registered "/" [userFile "a"])).result = .ok answer := ⟨_, rfl⟩
    obtain ⟨fault, hserver⟩ : ∃ fault,
        ((Call.module (greeterFile [{ name := "Express" }]) { role := .server }).perform.run
          (registered "/" [userFile "a"])).result = .error fault := ⟨_, rfl⟩
    obtain ⟨_, _, rfl⟩ := (client_and_server_agree (registered "/" [userFile "a"])
      (greeterFile [{ name := "Express" }]) (some "webapi") false).2 answer fault hclient hserver
    exact hserver

end ProtoStubs
