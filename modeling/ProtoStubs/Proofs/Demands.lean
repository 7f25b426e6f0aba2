import ProtoStubs.Linking
import ProtoStubs.Proofs.Resolution

/-!
Linking in two parts. First all demands of an outline are met, one after another up to the first
that is refused; then the blocks are read off the context, with each reference replaced by the
symbol it has there. The parts can be told apart because a symbol, once settled, does not change.
-/

namespace ProtoStubs

section Substitution

variable {ρ σ : Type}

namespace TypeExpr

def references : TypeExpr ρ → List ρ
  | .named r => [r]
  | .array t => t.references
  | .record t => t.references
  | .number => []
  | .boolean => []
  | .string => []

def subst (f : ρ → TypeExpr σ) : TypeExpr ρ → TypeExpr σ
  | .number => .number
  | .boolean => .boolean
  | .string => .string
  | .named r => f r
  | .array t => .array (t.subst f)
  | .record t => .record (t.subst f)

theorem subst_congr {f g : ρ → TypeExpr σ} (t : TypeExpr ρ)
    (h : ∀ r ∈ t.references, f r = g r) : t.subst f = t.subst g := by
  induction t with
  | number => rfl
  | boolean => rfl
  | string => rfl
  | named r => exact h r (List.mem_singleton_self r)
  | array t ih => rw [subst, subst, ih h]
  | record t ih => rw [subst, subst, ih h]

end TypeExpr

namespace Block

def references : Block ρ → List ρ
  | .enum _ _ => []
  | .interface _ fields => fields.flatMap (·.2.references)
  | .stub _ _ _ input output => input.references ++ output.references
  | .exports _ => []

def subst (f : ρ → TypeExpr σ) : Block ρ → Block σ
  | .enum name members => .enum name members
  | .interface name fields => .interface name (fields.map fun e => (e.1, e.2.subst f))
  | .stub role name route input output => .stub role name route (input.subst f) (output.subst f)
  | .exports names => .exports names

theorem subst_congr {f g : ρ → TypeExpr σ} (b : Block ρ)
    (h : ∀ r ∈ b.references, f r = g r) : b.subst f = b.subst g := by
  cases b with
  | enum name members => rfl
  | interface name fields =>
    have hfields : ∀ e ∈ fields, (e.1, e.2.subst f) = (e.1, e.2.subst g) := by
      intro e he
      rw [e.2.subst_congr fun r hr => h r (List.mem_flatMap.mpr ⟨e, he, hr⟩)]
    rw [subst, subst, List.map_congr_left hfields]
  | stub role name route input output =>
    rw [subst, subst, input.subst_congr fun r hr => h r (List.mem_append_left _ hr),
      output.subst_congr fun r hr => h r (List.mem_append_right _ hr)]
  | exports names => rfl

end Block

end Substitution

inductive Demand where
  | type (fullName : String)
  | note (n : Note)
  | refuse (fault : Fault)
deriving Repr, DecidableEq

def Reference.demand (strict : Bool) (user : String) : Reference → Demand
  | .type fullName => .type fullName
  | .unmapped field kind =>
      if strict then .refuse (.unsupportedKind field user kind)
      else .note (.mappedToString field user kind)
  | .missingValue => .refuse .missingEntryValue

/-- What is written for a reference, by the symbols that types have. -/
def Reference.written (symbol : String → String) : Reference → TypeExpr String
  | .type fullName => .named (symbol fullName)
  | .unmapped _ _ => .string
  | .missingValue => .string

def Item.demands (strict : Bool) (user : String) : Item → List Demand
  | .note n => [.note n]
  | .refuse fault => [.refuse fault]
  | .block b => b.references.map (Reference.demand strict user)

def Item.block? : Item → Option (Block Reference)
  | .block b => some b
  | _ => none

theorem Item.mem_blocks {items : List Item} {b : Block Reference} :
    b ∈ items.filterMap Item.block? ↔ .block b ∈ items := by
  rw [List.mem_filterMap]
  constructor
  · rintro ⟨item, hitem, hblock⟩
    cases item with
    | note n => simp [Item.block?] at hblock
    | refuse fault => simp [Item.block?] at hblock
    | block b' =>
      obtain rfl := Option.some.inj hblock
      exact hitem
  · intro hb
    exact ⟨_, hb, rfl⟩

theorem Item.type_mem_demands {items : List Item} {b : Block Reference} {t : String} (strict : Bool)
    (user : String) (hb : .block b ∈ items) (ht : .type t ∈ b.references) :
    .type t ∈ items.flatMap (Item.demands strict user) :=
  List.mem_flatMap.mpr ⟨.block b, hb, List.mem_map.mpr ⟨.type t, ht, rfl⟩⟩

namespace Context

def typeFor (c : Context) (user : String) : Reference → TypeExpr String :=
  Reference.written fun fullName => (c.symbolFor? user fullName).getD ""

def blocksFor (c : Context) (user : String) (items : List Item) : List (Block String) :=
  (items.filterMap Item.block?).map (Block.subst (c.typeFor user))

theorem blocksFor_append (c : Context) (user : String) (items more : List Item) :
    c.blocksFor user (items ++ more) = c.blocksFor user items ++ c.blocksFor user more := by
  simp only [blocksFor, List.filterMap_append, List.map_append]

/-- Every type demanded is settled, and nothing is refused. -/
def Meets (c : Context) (user : String) (demands : List Demand) : Prop :=
  ∀ d ∈ demands, match d with
    | .type fullName => ∃ s, c.symbolFor? user fullName = some s
    | .note _ => True
    | .refuse _ => False

variable {c c' : Context} {user : String} {ds es : List Demand}

theorem Meets.append_iff : c.Meets user (ds ++ es) ↔ c.Meets user ds ∧ c.Meets user es := by
  simp only [Meets, List.mem_append, or_imp, forall_and]

theorem Meets.cons_iff {d : Demand} :
    c.Meets user (d :: ds) ↔ c.Meets user [d] ∧ c.Meets user ds :=
  List.singleton_append ▸ Meets.append_iff

theorem Meets.mono (h : c.Meets user ds) (hg : c.Gains user c') : c'.Meets user ds := by
  intro d hd
  have hmet := h d hd
  cases d with
  | type fullName =>
    obtain ⟨s, hs⟩ := hmet
    exact ⟨s, hg.symbolFor?_eq hs⟩
  | note n => trivial
  | refuse fault => exact hmet.elim

theorem Meets.type {fullName : String} (h : c.Meets user ds) (hd : .type fullName ∈ ds) :
    ∃ s, c.symbolFor? user fullName = some s := h _ hd

end Context

namespace Step

open Context

variable {α β : Type} {user : String} {ds es : List Demand}

def meet (user : String) : Demand → Step Unit
  | .type fullName => do
      let _ ← resolve fullName user
      return ()
  | .note n => note n
  | .refuse fault => fail fault

def meetAll (user : String) : List Demand → Step Unit
  | [] => return ()
  | d :: rest => do
      meet user d
      meetAll user rest

theorem meetAll_append (user : String) (ds es : List Demand) :
    meetAll user (ds ++ es) = (meetAll user ds >>= fun _ => meetAll user es) := by
  induction ds with
  | nil => simp [meetAll]
  | cons d rest ih => simp [meetAll, ih]

theorem run_meet_type (c : Context) (user t : String) :
    (meet user (.type t)).run c =
      after ((resolve t user).run c) fun _ => (pure () : Step Unit) := rfl

theorem run_meetAll_cons (d : Demand) (rest : List Demand) (c : Context) :
    (meetAll user (d :: rest)).run c =
      after ((meet user d).run c) fun _ => meetAll user rest := rfl

/-- Where a type is resolved, the demands after it are met in the context that this leaves. -/
theorem meetAll_resolved {c : Context} {t s : String} (rest : List Demand)
    (h : ((resolve t user).run c).result = .ok s) :
    ((meetAll user (.type t :: rest)).run c).result =
        ((meetAll user rest).run ((resolve t user).run c).context).result ∧
      ((meetAll user (.type t :: rest)).run c).context =
        ((meetAll user rest).run ((resolve t user).run c).context).context := by
  rw [run_meetAll_cons, run_meet_type, after_ok _ h, run_pure, after_ok _ rfl]
  exact ⟨rfl, rfl⟩

/-- Where a type is refused, that is the end of it. -/
theorem meetAll_refused {c : Context} {t : String} {fault : Fault} (rest : List Demand)
    (h : ((resolve t user).run c).result = .error fault) :
    ((meetAll user (.type t :: rest)).run c).result = .error fault ∧
      ((meetAll user (.type t :: rest)).run c).context = ((resolve t user).run c).context := by
  rw [run_meetAll_cons, run_meet_type, after_error _ h, after_error _ rfl]
  exact ⟨rfl, rfl⟩

theorem meetAll_note {c : Context} (n : Note) (rest : List Demand) :
    ((meetAll user (.note n :: rest)).run c).result = ((meetAll user rest).run c).result ∧
      ((meetAll user (.note n :: rest)).run c).context = ((meetAll user rest).run c).context := by
  rw [run_meetAll_cons, meet, run_note, after_ok _ rfl]
  exact ⟨rfl, rfl⟩

theorem meet_preserves {P : Context → Prop} {c : Context}
    (hstep : ∀ c t, P c → P ((resolve t user).run c).context) (d : Demand) (hc : P c) :
    P ((meet user d).run c).context := by
  cases d with
  | type t =>
    have h := hstep c t hc
    rw [run_meet_type]
    cases hr : ((resolve t user).run c).result with
    | error fault => simpa only [after_error _ hr] using h
    | ok s => simpa only [after_ok _ hr, run_pure] using h
  | note n => exact hc
  | refuse fault => exact hc

/-- What every resolution for `user` preserves holds after all demands. -/
theorem meetAll_preserves {P : Context → Prop} {c : Context}
    (hstep : ∀ c t, P c → P ((resolve t user).run c).context) (ds : List Demand) (hc : P c) :
    P ((meetAll user ds).run c).context := by
  induction ds generalizing c with
  | nil => exact hc
  | cons d rest ih =>
    have hfirst := meet_preserves hstep d hc
    rw [run_meetAll_cons]
    cases hr : ((meet user d).run c).result with
    | error fault => simpa only [after_error _ hr] using hfirst
    | ok _ =>
      rw [after_ok _ hr]
      exact ih hfirst

theorem meet_gains (c : Context) (user : String) (d : Demand) :
    c.Gains user ((meet user d).run c).context :=
  meet_preserves (fun _ t h => h.trans (resolve_gains _ t user)) d (Gains.refl user c)

theorem meetAll_gains (c : Context) (user : String) (ds : List Demand) :
    c.Gains user ((meetAll user ds).run c).context :=
  meetAll_preserves (fun _ t h => h.trans (resolve_gains _ t user)) ds (Gains.refl user c)

theorem meets_of_meet (d : Demand) {c : Context} (h : ((meet user d).run c).result = .ok ()) :
    ((meet user d).run c).context.Meets user [d] := by
  intro d' hd'
  obtain rfl := List.mem_singleton.mp hd'
  cases d' with
  | type t =>
    rw [run_meet_type] at h ⊢
    cases hr : ((resolve t user).run c).result with
    | error fault => simp [after_error _ hr] at h
    | ok s =>
      rw [after_ok _ hr]
      exact ⟨s, symbolFor?_of_resolve hr⟩
  | note n => trivial
  | refuse fault => simp [meet, run_fail] at h

/-- Demands that were met without a refusal are met in the context that this leaves. -/
theorem meets_of_meetAll {c : Context} (h : ((meetAll user ds).run c).result = .ok ()) :
    ((meetAll user ds).run c).context.Meets user ds := by
  induction ds generalizing c with
  | nil => intro d hd; simp at hd
  | cons d rest ih =>
    rw [run_meetAll_cons] at h ⊢
    cases hr : ((meet user d).run c).result with
    | error fault => simp [after_error _ hr] at h
    | ok _ =>
      rw [after_ok _ hr] at h ⊢
      have hfirst := (meets_of_meet d hr).mono (meetAll_gains _ user rest)
      exact Meets.cons_iff.mpr ⟨hfirst, ih h⟩

/-- Where all demands are met already, meeting them again changes nothing. -/
theorem meetAll_of_meets {c : Context} (h : c.Meets user ds) :
    ((meetAll user ds).run c).result = .ok () ∧ ((meetAll user ds).run c).context = c := by
  induction ds with
  | nil => exact ⟨rfl, rfl⟩
  | cons d rest ih =>
    obtain ⟨hfirst, hrest⟩ := Meets.cons_iff.mp h
    have hd : ((meet user d).run c).result = .ok () ∧ ((meet user d).run c).context = c := by
      cases d with
      | type t =>
        obtain ⟨s, hs⟩ := hfirst.type (List.mem_singleton_self _)
        rw [run_meet_type, resolve_settled hs]
        exact ⟨rfl, rfl⟩
      | note n => exact ⟨rfl, rfl⟩
      | refuse fault => exact (hfirst _ (List.mem_singleton_self _)).elim
    rw [run_meetAll_cons, after_ok _ hd.1, hd.2]
    exact ih hrest

def reading (g : Context → α) : Step α := fun c => ⟨⟨.ok (g c), []⟩, c⟩

theorem run_reading (g : Context → α) (c : Context) :
    (reading g).run c = ⟨⟨.ok (g c), []⟩, c⟩ := rfl

theorem run_reading_bind (g : Context → α) (next : α → Step β) (c : Context) :
    (reading g >>= next).run c = (next (g c)).run c := rfl

/-- The step meets the demands `ds` and then reads its result off the context. Bindings that come
later do not change what it reads. -/
structure Reads (user : String) (step : Step α) (ds : List Demand) (g : Context → α) : Prop where
  eq : step = (meetAll user ds >>= fun _ => reading g)
  stable : ∀ {c c' : Context}, c.Meets user ds → c.Gains user c' → g c' = g c

namespace Reads

theorem pure (user : String) (a : α) : Reads user (Pure.pure a) [] fun _ => a :=
  ⟨rfl, fun _ _ => rfl⟩

theorem bind {step : Step α} {next : α → Step β} {g : Context → α} {h : α → Context → β}
    (hstep : Reads user step ds g) (hnext : ∀ a, Reads user (next a) es (h a)) :
    Reads user (step >>= next) (ds ++ es) fun c => h (g c) c := by
  constructor
  · rw [hstep.eq, bind_assoc, meetAll_append, bind_assoc]
    apply ext
    intro c
    rw [run_bind, run_bind]
    apply after_congr
    intro _ hfirst
    rw [run_reading_bind, (hnext _).eq, run_bind, run_bind]
    apply after_congr
    intro _ hsecond
    -- What the first step read is what would be read at the end.
    have hsame := hstep.stable (meets_of_meetAll hfirst) (meetAll_gains _ user es)
    rw [run_reading, run_reading, hsame]
  · intro c c' hm hg
    obtain ⟨hds, hes⟩ := Meets.append_iff.mp hm
    rw [hstep.stable hds hg, (hnext (g c)).stable hes hg]

theorem map {step : Step α} {g : Context → α} (hstep : Reads user step ds g) (f : α → β) :
    Reads user (step >>= fun a => Pure.pure (f a)) ds fun c => f (g c) := by
  simpa only [List.append_nil] using hstep.bind fun a => Reads.pure user (f a)

/-- What was read is what the context says that the step leaves. -/
theorem of_ok {step : Step α} {g : Context → α} {c : Context} {a : α} (h : Reads user step ds g)
    (ha : (step.run c).result = .ok a) :
    a = g (step.run c).context ∧ (step.run c).context.Meets user ds := by
  rw [h.eq, run_bind] at ha ⊢
  cases hr : ((meetAll user ds).run c).result with
  | error fault => simp [after_error _ hr] at ha
  | ok _ =>
    rw [after_ok _ hr] at ha ⊢
    exact ⟨(Except.ok.inj ha).symm, meets_of_meetAll hr⟩

/-- Where all demands are met already, the step only reads. -/
theorem of_meets {step : Step α} {g : Context → α} {c : Context} (h : Reads user step ds g)
    (hm : c.Meets user ds) : (step.run c).result = .ok (g c) ∧ (step.run c).context = c := by
  obtain ⟨hresult, hcontext⟩ := meetAll_of_meets hm
  rw [h.eq, run_bind, after_ok _ hresult, hcontext]
  exact ⟨rfl, rfl⟩

end Reads

theorem note_reads (user : String) (n : Note) : Reads user (note n) [.note n] fun _ => () :=
  ⟨by simp [meetAll, meet]; rfl, fun _ _ => rfl⟩

theorem fail_reads (user : String) (fault : Fault) (g : Context → α) :
    Reads user (fail fault) [.refuse fault] g :=
  ⟨rfl, fun hm _ => (hm _ (List.mem_singleton_self _)).elim⟩

theorem resolve_reads (t user : String) :
    Reads user (resolve t user) [.type t] fun c => (c.symbolFor? user t).getD "" := by
  constructor
  · have hmeet : meetAll user [.type t] = (resolve t user >>= fun _ => pure ()) := by
      simp [meetAll, meet]
    apply ext
    intro c
    rw [hmeet, bind_assoc, run_bind]
    refine (after_pure ((resolve t user).run c)).symm.trans ?_
    apply after_congr
    intro s hs
    rw [pure_bind, run_pure, run_reading, symbolFor?_of_resolve hs, Option.getD_some]
  · intro c c' hm hg
    obtain ⟨s, hs⟩ := hm.type (List.mem_singleton_self _)
    rw [hs, hg.symbolFor?_eq hs]

theorem link_reads (strict : Bool) (user : String) (r : Reference) :
    Reads user (link strict user r) [r.demand strict user] fun c => c.typeFor user r := by
  cases r with
  | type t => exact (resolve_reads t user).map TypeExpr.named
  | unmapped field kind =>
    cases strict with
    | true => exact fail_reads user _ _
    | false => exact (note_reads user _).map fun _ => TypeExpr.string
  | missingValue => exact fail_reads user _ _

theorem typeExpr_reads (strict : Bool) (user : String) (t : TypeExpr Reference) :
    Reads user (t.bindM (link strict user)) (t.references.map (Reference.demand strict user))
      fun c => t.subst (c.typeFor user) := by
  induction t with
  | number => exact Reads.pure user _
  | boolean => exact Reads.pure user _
  | string => exact Reads.pure user _
  | named r => exact link_reads strict user r
  | array t ih => exact ih.map TypeExpr.array
  | record t ih => exact ih.map TypeExpr.record

theorem fields_reads (strict : Bool) (user : String)
    (fields : List (String × TypeExpr Reference)) :
    Reads user
      (fields.mapM fun e => do return (e.1, ← e.2.bindM (link strict user)))
      ((fields.flatMap (·.2.references)).map (Reference.demand strict user))
      fun c => fields.map fun e => (e.1, e.2.subst (c.typeFor user)) := by
  induction fields with
  | nil => exact Reads.pure user []
  | cons e rest ih =>
    rw [List.mapM_cons, List.flatMap_cons, List.map_append]
    exact ((typeExpr_reads strict user e.2).map (Prod.mk e.1)).bind fun head =>
      ih.map (List.cons head)

theorem block_reads (strict : Bool) (user : String) (b : Block Reference) :
    Reads user (b.bindM (link strict user)) (b.references.map (Reference.demand strict user))
      fun c => b.subst (c.typeFor user) := by
  cases b with
  | enum name members => exact Reads.pure user _
  | interface name fields => exact (fields_reads strict user fields).map (Block.interface name)
  | stub role name route input output =>
    rw [Block.references, List.map_append]
    exact (typeExpr_reads strict user input).bind fun linked =>
      (typeExpr_reads strict user output).map (Block.stub role name route linked)
  | exports names => exact Reads.pure user _

theorem linkItems_reads (strict : Bool) (user : String) (items : List Item) :
    Reads user (linkItems strict user items) (items.flatMap (Item.demands strict user))
      fun c => c.blocksFor user items := by
  induction items with
  | nil => exact Reads.pure user []
  | cons item rest ih =>
    cases item with
    | note n => exact (note_reads user n).bind fun _ => ih
    | refuse fault => exact (fail_reads user fault fun _ => ()).bind fun _ => ih
    | block b =>
      exact (block_reads strict user b).bind fun linked => ih.map (List.cons linked)

end Step

namespace SchemaFile

/-- A module in a package cannot do without a helper if it has a service. -/
def helperDemands (f : SchemaFile) (options : Options) : List Demand :=
  if f.services.isEmpty ∨ f.package = "" ∨ options.helper.isSome then [] else [.refuse .noHelper]

def demands (f : SchemaFile) (options : Options) : List Demand :=
  (f.outline options.role).flatMap (Item.demands options.strict f.name) ++ f.helperDemands options

def helperSpecifier (f : SchemaFile) (options : Options) : String :=
  if f.services.isEmpty then "" else (options.helper.map (Layout.helperPath f.package)).getD ""

def moduleIn (f : SchemaFile) (options : Options) (c : Context) : Module where
  source := f.name
  imports := c.importsOf f.name
  framework := !f.services.isEmpty && options.role == .server
  helper := f.helperSpecifier options
  blocks := c.blocksFor f.name (f.outline options.role)

end SchemaFile

namespace Step

theorem helper_reads (f : SchemaFile) (options : Options) :
    Reads f.name
      (if !f.services.isEmpty then helperOf f.package options.helper else pure "")
      (f.helperDemands options) fun _ => f.helperSpecifier options := by
  unfold SchemaFile.helperDemands SchemaFile.helperSpecifier
  cases hs : f.services.isEmpty with
  | true => simpa using Reads.pure f.name ""
  | false =>
    cases hh : options.helper with
    | some helper => simpa [helperOf] using Reads.pure f.name (Layout.helperPath f.package helper)
    | none =>
      by_cases hp : f.package = ""
      · simpa [helperOf, hp] using Reads.pure f.name ""
      · simpa [helperOf, hp] using fail_reads f.name .noHelper fun _ => ""

/-- A module is made by registering its file, meeting its demands, and reading the module off the
context. -/
theorem moduleOf_eq (f : SchemaFile) (options : Options) :
    moduleOf f options = (register f >>= fun _ =>
      meetAll f.name (f.demands options) >>= fun _ => reading (f.moduleIn options)) := by
  have hparts := (linkItems_reads options.strict f.name (f.outline options.role)).bind
    fun blocks => (helper_reads f options).map (Prod.mk blocks)
  have hmodule : moduleOf f options = (register f >>= fun _ =>
      (linkItems options.strict f.name (f.outline options.role) >>= fun blocks =>
        (if !f.services.isEmpty then helperOf f.package options.helper else pure "") >>= fun h =>
          pure (blocks, h)) >>= fun parts => reading fun c =>
            { f.moduleIn options c with helper := parts.2, blocks := parts.1 }) := by
    simp only [bind_assoc, pure_bind]
    unfold moduleOf SchemaFile.moduleIn
    cases f.services.isEmpty <;> rfl
  rw [hmodule, hparts.eq, bind_assoc]
  rfl

theorem map_eq_ok_iff {r : Except Fault α} {g : α → β} {b : β} :
    r.map g = .ok b ↔ ∃ a, r = .ok a ∧ g a = b := by
  cases r <;> simp [Except.map]

theorem map_eq_error_iff {r : Except Fault α} {g : α → β} {fault : Fault} :
    r.map g = .error fault ↔ r = .error fault := by
  cases r <;> simp [Except.map]

variable {c : Context} {f : SchemaFile}

/-- A file that cannot be registered has no module. -/
theorem moduleOf_refused {fault : Fault} (options : Options)
    (h : ((register f).run c).result = .error fault) :
    ((moduleOf f options).run c).context = ((register f).run c).context ∧
      ((moduleOf f options).run c).result = .error fault := by
  rw [moduleOf_eq, run_bind, after_error _ h]
  exact ⟨rfl, rfl⟩

/-- The module of a file that is registered, and whether there is one, is told by its demands. -/
theorem moduleOf_registered (options : Options) (h : ((register f).run c).result = .ok ()) :
    ((moduleOf f options).run c).context =
        ((meetAll f.name (f.demands options)).run ((register f).run c).context).context ∧
      ((moduleOf f options).run c).result =
        ((meetAll f.name (f.demands options)).run ((register f).run c).context).result.map fun _ =>
          f.moduleIn options
            ((meetAll f.name (f.demands options)).run ((register f).run c).context).context := by
  rw [moduleOf_eq, run_bind, after_ok _ h, run_bind]
  cases hr : ((meetAll f.name (f.demands options)).run ((register f).run c).context).result with
  | error fault =>
    rw [after_error _ hr]
    exact ⟨rfl, rfl⟩
  | ok _ =>
    rw [after_ok _ hr]
    exact ⟨rfl, rfl⟩

end Step

end ProtoStubs
