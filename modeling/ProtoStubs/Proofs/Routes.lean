import ProtoStubs.Proofs.Composition
import ProtoStubs.Proofs.HelperNames
import ProtoStubs.Proofs.Paths

/-!
Routes tell methods apart. The method is what stands after the last slash of a route, and the
service what stands before it, from the last dot on. So a route can be read back whatever the
package is, provided that services have no dots and methods no slashes in their names. In the
modules of one generation stubs share a route only if package, service and method have the same
names.
-/

namespace ProtoStubs

namespace Text

variable {mark : String} {sep : Char} {a a' b b' : String}

theorem split_append_last (hmark : mark.toList = [sep]) (a : String) (hb : sep ∉ b.toList) :
    split sep (a ++ mark ++ b) = split sep a ++ [b] := by
  have hwhole : (a ++ mark ++ b).toList = a.toList ++ sep :: b.toList := by simp [hmark]
  rw [split_of_toList_eq hwhole, split_of_notMem hb]

/-- The last mark in a text tells what is before it and what is after it. -/
theorem eq_of_last_mark (hmark : mark.toList = [sep]) (hb : sep ∉ b.toList)
    (hb' : sep ∉ b'.toList) (h : a ++ mark ++ b = a' ++ mark ++ b') : a = a' ∧ b = b' := by
  have hpieces := congrArg (split sep) h
  rw [split_append_last hmark a hb, split_append_last hmark a' hb'] at hpieces
  obtain rfl : b = b' := by simpa using (List.append_inj' hpieces rfl).2
  exact ⟨by simpa using h, rfl⟩

end Text

section Route

variable {package package' service service' method method' : String}

def routeHead (package service : String) : String :=
  if package = "" then service else package ++ "." ++ service

theorem route_eq (package service method : String) :
    route package service method = routeHead package service ++ "/" ++ method := by
  unfold route routeHead
  split <;> simp

/-- A dot stands before the slash exactly if there is a package. -/
theorem dot_mem_routeHead_iff (hs : '.' ∉ service.toList) :
    '.' ∈ (routeHead package service).toList ↔ package ≠ "" := by
  by_cases hpackage : package = "" <;> simp [routeHead, hpackage, hs]

theorem eq_of_routeHead (hs : '.' ∉ service.toList) (hs' : '.' ∉ service'.toList)
    (h : routeHead package service = routeHead package' service') :
    package = package' ∧ service = service' := by
  have hsame : package ≠ "" ↔ package' ≠ "" := by
    rw [← dot_mem_routeHead_iff hs, h, dot_mem_routeHead_iff hs']
  by_cases hpackage : package = ""
  · have hpackage' : package' = "" := not_not.mp (mt hsame.mpr (not_not.mpr hpackage))
    rw [routeHead, if_pos hpackage, routeHead, if_pos hpackage'] at h
    exact ⟨hpackage.trans hpackage'.symm, h⟩
  · rw [routeHead, if_neg hpackage, routeHead, if_neg (hsame.mp hpackage)] at h
    exact Text.eq_of_last_mark rfl hs hs' h

theorem eq_of_route (hs : '.' ∉ service.toList) (hs' : '.' ∉ service'.toList)
    (hm : '/' ∉ method.toList) (hm' : '/' ∉ method'.toList)
    (h : route package service method = route package' service' method') :
    package = package' ∧ service = service' ∧ method = method' := by
  rw [route_eq, route_eq] at h
  obtain ⟨hhead, hmethod⟩ := Text.eq_of_last_mark rfl hm hm' h
  obtain ⟨hpackage, hservice⟩ := eq_of_routeHead hs hs' hhead
  exact ⟨hpackage, hservice, hmethod⟩

end Route

def Block.stub? {ρ : Type} : Block ρ → Option (String × String)
  | .stub _ name route _ _ => some (name, route)
  | .enum _ _ | .interface _ _ | .exports _ => none

def Module.stubs (m : Module) : List (String × String) := m.blocks.filterMap Block.stub?

namespace SchemaFile

variable {f : SchemaFile}

/-- The methods of the first service of a file, with their routes. -/
def routes (f : SchemaFile) : List (String × String) :=
  (f.services.head?.map fun s =>
    s.methods.map fun m => (m.name, route f.package s.name m.name)).getD []

/-- The first service of the file has no dot in its name, and its methods no slash in theirs. -/
def Routable (f : SchemaFile) : Prop :=
  ∀ s ∈ f.services.head?, '.' ∉ s.name.toList ∧ ∀ m ∈ s.methods, '/' ∉ m.name.toList

instance (f : SchemaFile) : Decidable f.Routable :=
  inferInstanceAs (Decidable (∀ s ∈ f.services.head?,
    '.' ∉ s.name.toList ∧ ∀ m ∈ s.methods, '/' ∉ m.name.toList))

theorem mem_routes {r : String × String} : r ∈ f.routes ↔
    ∃ s ∈ f.services.head?, ∃ m ∈ s.methods, r = (m.name, route f.package s.name m.name) := by
  unfold routes
  cases f.services.head? with
  | none => simp
  | some s => simp [eq_comm]

end SchemaFile

theorem Block.stub?_subst {ρ σ : Type} (g : ρ → TypeExpr σ) (b : Block ρ) :
    (b.subst g).stub? = b.stub? := by
  cases b <;> rfl

theorem Block.stub?_of_declared? {ρ : Type} {b : Block ρ} (h : b.declared?.isSome) :
    b.stub? = none := by
  cases b with
  | stub role name route input output => simp [declared?] at h
  | enum | interface | exports => rfl

theorem Service.stubs_blocks (s : Service) (package : String) (symbol : String → String)
    (role : Role) :
    ((s.stubs package symbol).map (Stub.block role)).filterMap Block.stub? =
      s.methods.map fun m => (m.name, route package s.name m.name) := by
  rw [stubs, List.map_map, List.filterMap_map, ← List.filterMap_eq_map]
  rfl

namespace SchemaFile

variable {f : SchemaFile}

theorem stubs_declarations (f : SchemaFile) (c : Context) :
    (c.blocksFor f.name f.declarations).filterMap Block.stub? = [] := by
  rw [List.filterMap_eq_nil_iff]
  intro b hb
  obtain ⟨b', hb', rfl⟩ := List.mem_map.mp hb
  rw [Block.stub?_subst]
  exact Block.stub?_of_declared? (isSome_declared? (Item.mem_blocks.mp hb'))

/-- The module of a file has a stub for each method of the first service. -/
theorem stubs_moduleIn (f : SchemaFile) (options : Options) (c : Context) :
    (f.moduleIn options c).stubs = f.routes := by
  rw [Module.stubs, blocks_moduleIn, List.filterMap_append, List.filterMap_append,
    stubs_declarations, List.nil_append, blueprintIn, blueprint, routes]
  cases f.services.head? with
  | none => rfl
  | some s =>
    rw [Option.map_some, Option.getD_some, Service.stubs_blocks]
    exact List.append_nil _

theorem stubs_of_made {c : Context} {options : Options} {m : Module}
    (h : ((Step.moduleOf f options).run c).result = .ok m) : m.stubs = f.routes := by
  obtain ⟨_, _, rfl⟩ := Step.moduleOf_made h
  exact f.stubs_moduleIn options _

/-- Files share a route only for methods with one name, of services with one name in one
package. -/
theorem Routable.eq_of_mem_routes {g : SchemaFile} {r r' : String × String} (hf : f.Routable)
    (hg : g.Routable) (hr : r ∈ f.routes) (hr' : r' ∈ g.routes) (h : r.2 = r'.2) :
    f.package = g.package ∧ (∃ s ∈ f.services.head?, ∃ s' ∈ g.services.head?, s.name = s'.name) ∧
      r.1 = r'.1 := by
  obtain ⟨s, hs, m, hm, rfl⟩ := mem_routes.mp hr
  obtain ⟨s', hs', m', hm', rfl⟩ := mem_routes.mp hr'
  obtain ⟨hpackage, hservice, hmethod⟩ := eq_of_route (hf s hs).1 (hg s' hs').1
    ((hf s hs).2 m hm) ((hg s' hs').2 m' hm') h
  exact ⟨hpackage, ⟨s, hs, s', hs', hservice⟩, hmethod⟩

end SchemaFile

/-- Where services have no dots and methods no slashes in their names, a route tells the package,
the service and the method. Hence, in all modules of a generation that succeeds, each written by its
blueprint with a stub for every method of the first service of its file, stubs have the same route
only if the packages of their files, the names of these services and the methods are the same. -/
theorem routes_identify_methods :
    (∀ package package' service service' method method' : String,
      '.' ∉ service.toList → '.' ∉ service'.toList → '/' ∉ method.toList → '/' ∉ method'.toList →
      route package service method = route package' service' method' →
      package = package' ∧ service = service' ∧ method = method') ∧
    ∀ (directory : String) (files : List SchemaFile) (requested : List String) (options : Options)
      (t : Table String String), (∀ f ∈ files, f.Routable) →
      (generate directory files requested options).result = .ok t →
      ∃ made : List (SchemaFile × Module),
        made.map (·.1.name) = requested.eraseDups ∧
        t.entries = made.map (fun e => (e.1.outputPath, e.2.text)) ∧
        (∀ e ∈ made, e.1 ∈ files ∧
          ((Step.moduleOf e.1 options).run (registered directory files)).result = .ok e.2 ∧
          e.2.stubs = e.1.routes ∧
          ∃ symbol, e.2.text = (e.1.blueprint e.2.imports e.2.helper symbol).text options.role) ∧
        ∀ e ∈ made, ∀ e' ∈ made, ∀ r ∈ e.2.stubs, ∀ r' ∈ e'.2.stubs, r.2 = r'.2 →
          e.1.package = e'.1.package ∧
          (∃ s ∈ e.1.services.head?, ∃ s' ∈ e'.1.services.head?, s.name = s'.name) ∧
          r.1 = r'.1 := by
  refine ⟨fun _ _ _ _ _ _ => eq_of_route, ?_⟩
  intro directory files requested options t hroutable hok
  obtain ⟨made, hnames, hmade, hentries⟩ := exists_modules_of_generate hok
  have hfiles : ∀ e ∈ made, e.1 ∈ files := fun e he =>
    files_registered_subset (registerAll_of_generate hok) (hmade e he).1
  have hstubs : ∀ e ∈ made, e.2.stubs = e.1.routes := fun e he =>
    SchemaFile.stubs_of_made (hmade e he).2
  refine ⟨made, hnames, hentries, fun e he => ⟨hfiles e he, (hmade e he).2, hstubs e he,
    SchemaFile.text_of_made (hmade e he).2⟩, ?_⟩
  intro e he e' he' r hr r' hr' hroute
  rw [hstubs e he] at hr
  rw [hstubs e' he'] at hr'
  exact (hroutable e.1 (hfiles e he)).eq_of_mem_routes (hroutable e'.1 (hfiles e' he'))
    hr hr' hroute

def echoFiles : List SchemaFile :=
  userFile "a" ::
    [("x.proto", "a"), ("y.proto", "a"), ("z.proto", "")].map fun (name, package) =>
      { name := name
        package := package
        services := [
          { name := "Echo"
            methods := [{ name := "Say", input := ".a.User", output := ".a.User" }] }] }

theorem echoFiles_routes :
    (∀ f ∈ echoFiles, f.Routable) ∧
    route "a" "Echo" "Say" ≠ route "" "Echo" "Say" ∧
    ∃ t, (generate "/" echoFiles ["x.proto", "y.proto", "z.proto"] {}).result = .ok t ∧
      ∃ made : List (SchemaFile × Module),
        t.entries = made.map (fun e => (e.1.outputPath, e.2.text)) ∧
        ∃ e ∈ made, ∃ e' ∈ made, e.1.name = "x.proto" ∧ e'.1.name = "y.proto" ∧
          ("Say", "a.Echo/Say") ∈ e.2.stubs ∧ ("Say", "a.Echo/Say") ∈ e'.2.stubs ∧
          e.1.package = e'.1.package := by
  have hroutable : ∀ f ∈ echoFiles, f.Routable := by decide +kernel
  obtain ⟨hinjective, hmodules⟩ := routes_identify_methods
  refine ⟨hroutable, ?_, ?_⟩
  · intro heq
    have hpackage := (hinjective "a" "" "Echo" "Echo" "Say" "Say" (by decide) (by decide)
      (by decide) (by decide) heq).1
    exact absurd hpackage (by decide)
  · obtain ⟨t, ht⟩ : ∃ t,
        (generate "/" echoFiles ["x.proto", "y.proto", "z.proto"] {}).result = .ok t := ⟨_, rfl⟩
    obtain ⟨made, hnames, hentries, hmade, hsame⟩ := hmodules "/" echoFiles _ {} t hroutable ht
    refine ⟨t, ht, made, hentries, ?_⟩
    obtain ⟨e, he, hx⟩ := List.mem_map.mp (hnames ▸ by decide : "x.proto" ∈ made.map (·.1.name))
    obtain ⟨e', he', hy⟩ := List.mem_map.mp (hnames ▸ by decide : "y.proto" ∈ made.map (·.1.name))
    have hroutes : ∀ f ∈ echoFiles, f.name = "x.proto" ∨ f.name = "y.proto" →
        ("Say", "a.Echo/Say") ∈ f.routes := by decide +kernel
    have hr : ("Say", "a.Echo/Say") ∈ e.2.stubs :=
      (hmade e he).2.2.1 ▸ hroutes e.1 (hmade e he).1 (Or.inl hx)
    have hr' : ("Say", "a.Echo/Say") ∈ e'.2.stubs :=
      (hmade e' he').2.2.1 ▸ hroutes e'.1 (hmade e' he').1 (Or.inr hy)
    exact ⟨e, he, e', he', hx, hy, hr, hr', (hsame e he e' he' _ hr _ hr' rfl).1⟩

end ProtoStubs
