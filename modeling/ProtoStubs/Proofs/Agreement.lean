import ProtoStubs.Proofs.Demands
import ProtoStubs.Proofs.Registration

/-!
Two contexts compared as one file sees them. Resolving reads the definition of the type, and of the
asking file its place, its bindings and the names taken in it, and nothing more. Where the second
context has all of this that the first has, what succeeds in the first succeeds in the second with
the same result; where both define the same types, failures are the same too.
-/

namespace ProtoStubs

namespace Context

variable {c c' : Context} {user t s : String} {d : Definition} {b : Binding}
variable {ds : List Demand}

/-- What the file `user` sees of `c` it also sees of `c'`. -/
structure Below (user : String) (c c' : Context) : Prop where
  directory : c'.directory = c.directory
  place : c'.modulePathOf user = c.modulePathOf user
  definition : ∀ {t d}, c.definition? t = some d → c'.definition? t = some d
  taken : ∀ s, s ∈ c'.taken user ↔ s ∈ c.taken user
  bindings : c'.bindingsOf user = c.bindingsOf user

theorem mem_taken_bind (c : Context) (b : Binding) (s : String) :
    s ∈ (c.bind b).taken b.user ↔ s ∈ c.taken b.user ∨ s = b.symbol := by
  have hdefinitions : (c.bind b).definitions = c.definitions := rfl
  rw [taken, taken, bindingsOf_bind, hdefinitions, List.map_append]
  simp only [List.mem_append, List.map_cons, List.map_nil, List.mem_singleton, or_assoc]

namespace Below

/-- Contexts that differ only in the bindings of other files. -/
theorem of_bindings (hdirectory : c'.directory = c.directory) (hfiles : c'.files = c.files)
    (hdefinitions : c'.definitions = c.definitions)
    (hbindings : c'.bindingsOf user = c.bindingsOf user) : c.Below user c' where
  directory := hdirectory
  place := by rw [modulePathOf, file?, hfiles, modulePathOf, file?]
  definition h := by rwa [definition?, hdefinitions]
  taken s := by rw [Context.taken, hdefinitions, hbindings, Context.taken]
  bindings := hbindings

theorem newBinding_eq (h : c.Below user c') (d : Definition) :
    c'.newBinding user d = c.newBinding user d := by
  simp only [newBinding, h.directory, h.place, freeName_congr d.flatName h.taken]

theorem bind (h : c.Below user c') (hb : b.user = user) :
    (c.bind b).Below user (c'.bind b) where
  directory := h.directory
  place := h.place
  definition := h.definition
  taken s := by
    subst hb
    rw [mem_taken_bind, mem_taken_bind, h.taken]
  bindings := by
    subst hb
    rw [bindingsOf_bind, bindingsOf_bind, h.bindings]

theorem symbolFor?_eq (h : c.Below user c') (hd : c'.definition? t = c.definition? t) :
    c'.symbolFor? user t = c.symbolFor? user t :=
  symbolFor?_congr hd (symbol?_congr h.bindings t)

theorem unbound (h : c.Below user c') (hd : c.Unbound user t d) : c'.Unbound user t d where
  defined := h.definition hd.defined
  foreign := hd.foreign
  unbound := by rw [symbol?_congr h.bindings, hd.unbound]

end Below

/-- Types that are settled are defined alike in a context above. -/
theorem Below.definition?_eq_of_meets (h : c.Below user c') (hm : c.Meets user ds)
    (ht : .type t ∈ ds) : c'.definition? t = c.definition? t := by
  obtain ⟨s, hs⟩ := hm.type ht
  obtain ⟨d, hd⟩ := exists_definition_of_symbolFor? hs
  rw [hd, h.definition hd]

end Context

namespace Step

open Context

variable {c c' : Context} {user t : String} {ds : List Demand}

theorem resolve_below (h : c.Below user c') (hd : c'.definition? t = c.definition? t) :
    ((resolve t user).run c').toLogged = ((resolve t user).run c).toLogged ∧
      ((resolve t user).run c).context.Below user ((resolve t user).run c').context := by
  rcases lookup_cases c user t with hnone | ⟨s, hs⟩ | ⟨d, hu⟩
  · rw [resolve_undefined user hnone, resolve_undefined user (hd.trans hnone)]
    exact ⟨rfl, h⟩
  · rw [resolve_settled hs, resolve_settled ((h.symbolFor?_eq hd).trans hs)]
    exact ⟨rfl, h⟩
  · rw [resolve_unbound hu, resolve_unbound (h.unbound hu), h.newBinding_eq]
    exact ⟨rfl, h.bind rfl⟩

theorem meet_below (h : c.Below user c') (d : Demand)
    (hd : ∀ t, d = .type t → c'.definition? t = c.definition? t) :
    ((meet user d).run c').toLogged = ((meet user d).run c).toLogged ∧
      ((meet user d).run c).context.Below user ((meet user d).run c').context := by
  cases d with
  | type t =>
    obtain ⟨hlogged, hbelow⟩ := resolve_below h (hd t rfl)
    have hresult := congrArg Logged.result hlogged
    have hnotes := congrArg Logged.notes hlogged
    rw [run_meet_type, run_meet_type]
    cases hr : ((resolve t user).run c).result with
    | error fault =>
      rw [after_error _ hr, after_error _ (hresult.trans hr), hnotes]
      exact ⟨rfl, hbelow⟩
    | ok s =>
      rw [after_ok _ hr, after_ok _ (hresult.trans hr), hnotes]
      exact ⟨rfl, hbelow⟩
  | note n => exact ⟨rfl, h⟩
  | refuse fault => exact ⟨rfl, h⟩

/-- Demands for types that both contexts define alike are met alike. -/
theorem meetAll_below (h : c.Below user c')
    (hds : ∀ t, .type t ∈ ds → c'.definition? t = c.definition? t) :
    ((meetAll user ds).run c').toLogged = ((meetAll user ds).run c).toLogged ∧
      ((meetAll user ds).run c).context.Below user ((meetAll user ds).run c').context := by
  induction ds generalizing c c' with
  | nil => exact ⟨rfl, h⟩
  | cons d rest ih =>
    obtain ⟨hlogged, hbelow⟩ := meet_below h d
      (fun t ht => hds t (ht ▸ List.mem_cons_self))
    have hresult := congrArg Logged.result hlogged
    have hnotes := congrArg Logged.notes hlogged
    rw [run_meetAll_cons, run_meetAll_cons]
    cases hr : ((meet user d).run c).result with
    | error fault =>
      rw [after_error _ hr, after_error _ (hresult.trans hr), hnotes]
      exact ⟨rfl, hbelow⟩
    | ok _ =>
      have hrest : ∀ t, .type t ∈ rest →
          ((meet user d).run c').context.definition? t =
            ((meet user d).run c).context.definition? t := by
        intro t ht
        rw [(meet_gains c' user d).definition?_eq, (meet_gains c user d).definition?_eq]
        exact hds t (List.mem_cons_of_mem d ht)
      obtain ⟨hlogged', hbelow'⟩ := ih hbelow hrest
      have hresult' := congrArg Logged.result hlogged'
      have hnotes' := congrArg Logged.notes hlogged'
      rw [after_ok _ hr, after_ok _ (hresult.trans hr), hnotes, hnotes', hresult']
      exact ⟨rfl, hbelow'⟩

/-- Demands that are met in a context are met above it with the same notes. -/
theorem meetAll_below_ok (h : c.Below user c') (hok : ((meetAll user ds).run c).result = .ok ()) :
    ((meetAll user ds).run c').result = .ok () ∧
      ((meetAll user ds).run c).context.Below user ((meetAll user ds).run c').context := by
  have hgains := meetAll_gains c user ds
  have hds : ∀ t, .type t ∈ ds → c'.definition? t = c.definition? t := by
    intro t ht
    obtain ⟨s, hs⟩ := (meets_of_meetAll hok).type ht
    obtain ⟨d, hd⟩ := exists_definition_of_symbolFor? hs
    rw [hgains.definition?_eq] at hd
    rw [hd, h.definition hd]
  obtain ⟨hlogged, hbelow⟩ := meetAll_below h hds
  exact ⟨(congrArg Logged.result hlogged).trans hok, hbelow⟩

end Step

namespace Context

variable {c c' : Context} {user t : String} {f : SchemaFile} {options : Options}

theorem importsOf_congr (h : c'.bindingsOf user = c.bindingsOf user) :
    c'.importsOf user = c.importsOf user := by
  rw [importsOf, h, importsOf]

/-- The module of a file is the same in a context above, if its demands are met. -/
theorem Below.moduleIn_eq (h : c.Below f.name c') (hm : c.Meets f.name (f.demands options)) :
    f.moduleIn options c' = f.moduleIn options c := by
  have hblocks : c'.blocksFor f.name (f.outline options.role) =
      c.blocksFor f.name (f.outline options.role) := by
    apply List.map_congr_left
    intro b hb
    apply Block.subst_congr
    intro r hr
    cases r with
    | type t =>
      have ht := List.mem_append_left (f.helperDemands options)
        (Item.type_mem_demands options.strict f.name (Item.mem_blocks.mp hb) hr)
      simp only [typeFor, Reference.written, h.symbolFor?_eq (h.definition?_eq_of_meets hm ht)]
    | unmapped field kind => rfl
    | missingValue => rfl
  simp only [SchemaFile.moduleIn, hblocks, importsOf_congr h.bindings]

end Context

namespace Step

open Context

variable {c c' : Context} {f : SchemaFile} {options : Options}

/-- The same for a file that is registered already. -/
theorem moduleOf_known (options : Options) (h : c.file? f.name ≠ none) :
    ((moduleOf f options).run c).context =
        ((meetAll f.name (f.demands options)).run c).context ∧
      ((moduleOf f options).run c).result =
        ((meetAll f.name (f.demands options)).run c).result.map fun _ =>
          f.moduleIn options ((meetAll f.name (f.demands options)).run c).context := by
  have hknown := register_known h
  simpa only [hknown] using moduleOf_registered options (congrArg (·.result) hknown)

theorem moduleOf_ok {m : Module} (h : c.file? f.name ≠ none)
    (hok : ((moduleOf f options).run c).result = .ok m) :
    ((meetAll f.name (f.demands options)).run c).result = .ok () ∧
      m = f.moduleIn options ((moduleOf f options).run c).context := by
  obtain ⟨hcontext, hresult⟩ := moduleOf_known options h
  obtain ⟨_, hmet, rfl⟩ := map_eq_ok_iff.mp (hresult.symm.trans hok)
  rw [hcontext]
  exact ⟨hmet, rfl⟩

/-- A module that can be made in a context is made alike above it. -/
theorem moduleOf_below_ok {m : Module} (h : c.Below f.name c') (hc : c.file? f.name ≠ none)
    (hc' : c'.file? f.name ≠ none) (hok : ((moduleOf f options).run c).result = .ok m) :
    ((moduleOf f options).run c').result = .ok m ∧
      ((moduleOf f options).run c).context.Below f.name ((moduleOf f options).run c').context := by
  obtain ⟨hmet, hm⟩ := moduleOf_ok hc hok
  obtain ⟨hmet', hbelow⟩ := meetAll_below_ok h hmet
  have hcontext := (moduleOf_known options hc).1
  obtain ⟨hcontext', hresult'⟩ := moduleOf_known options hc'
  rw [hcontext] at hm ⊢
  rw [hcontext', hresult', hmet', hm]
  refine ⟨?_, hbelow⟩
  rw [← hbelow.moduleIn_eq (meets_of_meetAll hmet)]
  rfl

/-- Where both contexts define the same types, also a failure is the same. -/
theorem moduleOf_below (h : c.Below f.name c') (hdefs : ∀ t, c'.definition? t = c.definition? t)
    (hc : c.file? f.name ≠ none) (hc' : c'.file? f.name ≠ none) :
    ((moduleOf f options).run c').result = ((moduleOf f options).run c).result ∧
      ((moduleOf f options).run c).context.Below f.name ((moduleOf f options).run c').context := by
  obtain ⟨hlogged, hbelow⟩ := @meetAll_below c c' f.name (f.demands options) h fun t _ => hdefs t
  have hresult := congrArg Logged.result hlogged
  obtain ⟨hcontext, hread⟩ := moduleOf_known options hc
  obtain ⟨hcontext', hread'⟩ := moduleOf_known options hc'
  rw [hcontext, hcontext', hread, hread', hresult]
  refine ⟨?_, hbelow⟩
  cases hr : ((meetAll f.name (f.demands options)).run c).result with
  | error fault => rfl
  | ok _ =>
    have hmet := meets_of_meetAll hr
    rw [hbelow.moduleIn_eq hmet]

/-- Making a module once more changes nothing and gives the same module. -/
theorem moduleOf_again {m : Module} (hc : c.file? f.name ≠ none)
    (hok : ((moduleOf f options).run c).result = .ok m) :
    ((moduleOf f options).run ((moduleOf f options).run c).context).result = .ok m ∧
      ((moduleOf f options).run ((moduleOf f options).run c).context).context =
        ((moduleOf f options).run c).context := by
  obtain ⟨hmet, hm⟩ := moduleOf_ok hc hok
  have hcontext := (moduleOf_known options hc).1
  have hgains := meetAll_gains c f.name (f.demands options)
  have hc' : ((meetAll f.name (f.demands options)).run c).context.file? f.name ≠ none := by
    rw [hgains.file?_eq]
    exact hc
  obtain ⟨hagain, hsame⟩ := meetAll_of_meets (meets_of_meetAll hmet)
  rw [hcontext] at hm ⊢
  obtain ⟨hcontext', hresult'⟩ := moduleOf_known options hc'
  rw [hcontext', hresult', hagain, hsame, hm]
  exact ⟨rfl, rfl⟩

end Step

end ProtoStubs
