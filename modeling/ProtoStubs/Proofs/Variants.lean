import ProtoStubs.Proofs.References

/-!
What the options change in what a module demands. The declarations of the file come first; there a
strict generation refuses what another one only notes. The first service comes next, and the role
decides which names the file must leave to the helpers. All types that are asked for stay the same,
in the same order, whatever the options.
-/

namespace ProtoStubs

def Demand.type? : Demand → Option String
  | .type t => some t
  | .note _ => none
  | .refuse _ => none

def typesOf (ds : List Demand) : List String := ds.filterMap Demand.type?

theorem typesOf_append (ds es : List Demand) : typesOf (ds ++ es) = typesOf ds ++ typesOf es :=
  List.filterMap_append

/-- A reference asks for the same type in strict mode as otherwise, if it asks for one. -/
theorem Reference.type?_demand (strict strict' : Bool) (user : String) (r : Reference) :
    (r.demand strict user).type? = (r.demand strict' user).type? := by
  cases r with
  | type t => rfl
  | unmapped field kind => cases strict <;> cases strict' <;> rfl
  | missingValue => rfl

theorem Item.typesOf_demands (strict strict' : Bool) (user : String) (item : Item) :
    typesOf (item.demands strict user) = typesOf (item.demands strict' user) := by
  cases item with
  | note n => rfl
  | refuse fault => rfl
  | block b =>
    simp only [Item.demands, typesOf, List.filterMap_map, Function.comp_def]
    exact List.filterMap_congr fun r _ => r.type?_demand strict strict' user

theorem typesOf_flatMap_demands (strict strict' : Bool) (user : String) (items : List Item) :
    typesOf (items.flatMap (Item.demands strict user)) =
      typesOf (items.flatMap (Item.demands strict' user)) := by
  simp only [typesOf, List.filterMap_flatMap]
  exact List.flatMap_congr fun item _ => item.typesOf_demands strict strict' user

def Service.demands (s : Service) : List Demand :=
  s.methods.flatMap fun m =>
    (if m.isStreaming then [Demand.note (.streamingMethod s.name m.name)] else []) ++
      [Demand.type m.input, Demand.type m.output]

/-- Neither the role nor the strictness changes what a service demands. -/
theorem Service.flatMap_demands_outline (s : Service) (package user : String) (role : Role)
    (strict : Bool) : (s.outline package role).flatMap (Item.demands strict user) = s.demands := by
  rw [outline, List.flatMap_append, List.flatMap_assoc, demands]
  refine (List.append_nil _).trans (List.flatMap_congr fun m _ => ?_)
  cases m.isStreaming <;> rfl

namespace SchemaFile

def declarations (f : SchemaFile) : List Item :=
  f.enums.flatMap (EnumDef.outline "") ++ Message.outlines f.package "" [] f.messages

theorem outline_eq (f : SchemaFile) (role : Role) :
    f.outline role = f.declarations ++ f.serviceOutline role := rfl

def clashes (f : SchemaFile) (role : Role) : List String :=
  role.helperNames.filter (· ∈ f.declared.map (·.flatName))

def clashDemands (f : SchemaFile) (role : Role) : List Demand :=
  if f.clashes role = [] then [] else [.refuse (.helperClash f.name (f.clashes role))]

/-- Services after the first are only noted. -/
def droppedDemands (f : SchemaFile) (s : Service) (dropped : List Service) : List Demand :=
  if dropped.isEmpty then [] else [.note (.droppedServices f.name s.name (dropped.map (·.name)))]

def serviceDemands (f : SchemaFile) (role : Role) : List Demand :=
  match f.services with
  | [] => []
  | s :: dropped => f.droppedDemands s dropped ++ f.clashDemands role ++ s.demands

theorem flatMap_demands_helperClash (f : SchemaFile) (role : Role) (strict : Bool) :
    (f.helperClash role).flatMap (Item.demands strict f.name) = f.clashDemands role := by
  unfold helperClash clashDemands clashes
  split
  · rename_i hnone
    rw [hnone]
    rfl
  · rename_i hsome
    rw [if_neg hsome]
    rfl

theorem flatMap_demands_serviceOutline (f : SchemaFile) (role : Role) (strict : Bool) :
    (f.serviceOutline role).flatMap (Item.demands strict f.name) = f.serviceDemands role := by
  unfold serviceOutline serviceDemands
  cases f.services with
  | nil => rfl
  | cons s dropped =>
    simp only [List.flatMap_append, flatMap_demands_helperClash, Service.flatMap_demands_outline,
      droppedDemands]
    cases dropped.isEmpty <;> rfl

/-- The demands of a module, part by part. -/
theorem demands_eq (f : SchemaFile) (options : Options) :
    f.demands options = f.declarations.flatMap (Item.demands options.strict f.name) ++
      f.serviceDemands options.role ++ f.helperDemands options := by
  rw [demands, outline_eq, List.flatMap_append, flatMap_demands_serviceOutline]

theorem typesOf_clashDemands (f : SchemaFile) (role : Role) :
    typesOf (f.clashDemands role) = [] := by
  unfold clashDemands
  split <;> rfl

theorem typesOf_helperDemands (f : SchemaFile) (options : Options) :
    typesOf (f.helperDemands options) = [] := by
  unfold helperDemands
  split <;> rfl

theorem typesOf_serviceDemands (f : SchemaFile) (role role' : Role) :
    typesOf (f.serviceDemands role) = typesOf (f.serviceDemands role') := by
  unfold serviceDemands
  cases f.services with
  | nil => rfl
  | cons s dropped => simp only [typesOf_append, typesOf_clashDemands]

/-- A module asks for the same types under all options. -/
theorem typesOf_demands (f : SchemaFile) (options options' : Options) :
    typesOf (f.demands options) = typesOf (f.demands options') := by
  simp only [demands_eq, typesOf_append, typesOf_helperDemands]
  rw [typesOf_flatMap_demands options.strict options'.strict,
    typesOf_serviceDemands f options.role options'.role]

end SchemaFile

end ProtoStubs
