import Mathlib.Data.List.Forall2
import ProtoStubs.Proofs.Calls
import ProtoStubs.Proofs.ModuleText
import ProtoStubs.Proofs.Variants

/-!
What is registered of a file is what its module declares. The types of a file stand at sites, and a
site has an address: the positions of the messages around the type and its own. Two types of one
name are thus told apart. Registering lists a message before what is nested in it, and the module
writes it after that. Both go through the same sites, and the module leaves out the enumerations
without values and nothing else.
-/

namespace ProtoStubs

inductive TypeDef where
  | message (m : Message)
  | enum (e : EnumDef)

def TypeDef.name : TypeDef → String
  | .message m => m.name
  | .enum e => e.name

structure Site where
  /-- The positions of the messages around it, the outermost first. -/
  around : List Nat
  /-- Its position among the types beside it. Messages are counted before enumerations. -/
  position : Nat
  /-- The names of the messages around it. -/
  scope : List String
  type : TypeDef

namespace Site

def address (s : Site) : List Nat := s.around ++ [s.position]

def path (s : Site) : List String := s.scope ++ [s.type.name]

def flatName (s : Site) : String := String.join s.path

def declared (package : String) (s : Site) : Declared := .ofPath package s.path

/-- Only an enumeration without values is not written. -/
def isWritten (s : Site) : Bool :=
  match s.type with
  | .message _ => true
  | .enum e => e.isWritten

/-- The type lies in the message at `t`, at any depth. -/
def Inside (s t : Site) : Prop := t.address <+: s.around

instance (s t : Site) : Decidable (s.Inside t) :=
  inferInstanceAs (Decidable (t.address <+: s.around))

/-- The block declares the type at the site: a message as an interface with its fields, an
enumeration with its values. -/
def DeclaredBy (s : Site) (b : Block String) : Prop :=
  match s.type, b with
  | .message m, .interface name fields =>
      name = s.flatName ∧ fields.map (·.1) = m.fields.map (·.name)
  | .enum e, .enum name members => name = s.flatName ∧ members = e.values
  | _, _ => False

def printed (package : String) (symbol : String → String) (s : Site) : String :=
  match s.type with
  | .message m => m.printed package symbol s.scope
  | .enum e => Printed.enum s.flatName e.values

end Site

/-- Whether messages are listed before or after what is nested in them. -/
inductive Listing where
  | outermostFirst
  | innermostFirst

def Listing.arrange {α : Type} (order : Listing) (outer : α) (inner : List α) : List α :=
  match order with
  | .outermostFirst => outer :: inner
  | .innermostFirst => inner ++ [outer]

def EnumDef.sites (around : List Nat) (scope : List String) (position : Nat)
    (es : List EnumDef) : List Site :=
  (es.zipIdx position).map fun e => ⟨around, e.2, scope, .enum e.1⟩

mutual

def Message.sites (order : Listing) (around : List Nat) (scope : List String) (position : Nat) :
    Message → List Site
  | ⟨name, fields, nested, enums, mapEntry⟩ =>
      if mapEntry then []
      else
        order.arrange ⟨around, position, scope, .message ⟨name, fields, nested, enums, mapEntry⟩⟩
          (Message.sitesIn order (around ++ [position]) (scope ++ [name]) 0 nested ++
            EnumDef.sites (around ++ [position]) (scope ++ [name]) nested.length enums)

/-- The sites of messages that stand side by side, counted from `position` on, and of all that is
nested in them. Map entries have none. -/
def Message.sitesIn (order : Listing) (around : List Nat) (scope : List String) (position : Nat) :
    List Message → List Site
  | [] => []
  | m :: rest =>
      m.sites order around scope position ++ Message.sitesIn order around scope (position + 1) rest

end

def SchemaFile.sitesBy (order : Listing) (f : SchemaFile) : List Site :=
  EnumDef.sites [] [] f.messages.length f.enums ++ Message.sitesIn order [] [] 0 f.messages

/-- The sites of a file in the order in which its types are registered. -/
def SchemaFile.sites (f : SchemaFile) : List Site := f.sitesBy .outermostFirst

theorem Listing.perm_arrange {α : Type} (order : Listing) (outer : α) (inner : List α) :
    (order.arrange outer inner).Perm (outer :: inner) := by
  cases order with
  | outermostFirst => exact .refl _
  | innermostFirst => exact List.perm_append_singleton outer inner

namespace Message

variable {order order' : Listing} {around : List Nat} {scope : List String} {position : Nat}
  {s : Site} {m : Message} {ms : List Message}

def site (around : List Nat) (scope : List String) (position : Nat) (m : Message) : Site :=
  ⟨around, position, scope, .message m⟩

def sitesWithin (order : Listing) (around : List Nat) (scope : List String) (position : Nat)
    (m : Message) : List Site :=
  sitesIn order (around ++ [position]) (scope ++ [m.name]) 0 m.nested ++
    EnumDef.sites (around ++ [position]) (scope ++ [m.name]) m.nested.length m.enums

theorem sitesIn_cons (order : Listing) (around : List Nat) (scope : List String) (position : Nat)
    (m : Message) (rest : List Message) :
    sitesIn order around scope position (m :: rest) =
      (if m.mapEntry then [] else
        order.arrange (m.site around scope position) (m.sitesWithin order around scope position)) ++
        sitesIn order around scope (position + 1) rest := by
  obtain ⟨name, fields, nested, enums, mapEntry⟩ := m
  rw [sitesIn, sites]
  rfl

/-- Both orders list the same sites. -/
theorem sitesIn_perm (order order' : Listing) (around : List Nat) (scope : List String)
    (position : Nat) (ms : List Message) :
    (sitesIn order around scope position ms).Perm (sitesIn order' around scope position ms) := by
  induction ms using forest_induction generalizing around scope position with
  | nil => exact .refl _
  | cons m rest hnested hrest =>
    rw [sitesIn_cons, sitesIn_cons]
    refine List.Perm.append ?_ (hrest around scope (position + 1))
    cases m.mapEntry with
    | true => exact .refl _
    | false =>
      have hwithin : (m.sitesWithin order around scope position).Perm
          (m.sitesWithin order' around scope position) := (hnested _ _ _).append_right _
      exact (order.perm_arrange _ _).trans ((hwithin.cons _).trans (order'.perm_arrange _ _).symm)

theorem mem_sitesIn_cons {rest : List Message} :
    s ∈ sitesIn order around scope position (m :: rest) ↔
      (m.mapEntry = false ∧
        (s = m.site around scope position ∨ s ∈ m.sitesWithin order around scope position)) ∨
        s ∈ sitesIn order around scope (position + 1) rest := by
  rw [sitesIn_cons, List.mem_append]
  cases m.mapEntry with
  | true => simp
  | false => simp [(order.perm_arrange _ _).mem_iff]

/-- What lies in a message has the positions of the messages around it, and more. -/
theorem around_of_mem_sitesIn (h : s ∈ sitesIn order around scope position ms) :
    around <+: s.around := by
  induction ms using forest_induction generalizing around scope position with
  | nil => simp [sitesIn] at h
  | cons m rest hnested hrest =>
    rcases mem_sitesIn_cons.mp h with ⟨_, rfl | hwithin⟩ | hlater
    · exact List.prefix_refl _
    · rcases List.mem_append.mp hwithin with hin | henum
      · exact (List.prefix_append _ _).trans (hnested hin)
      · obtain ⟨e, _, rfl⟩ := List.mem_map.mp henum
        exact List.prefix_append _ _
    · exact hrest hlater

theorem around_of_mem_sitesWithin (h : s ∈ m.sitesWithin order around scope position) :
    around ++ [position] <+: s.around := by
  rcases List.mem_append.mp h with hin | henum
  · exact around_of_mem_sitesIn hin
  · obtain ⟨e, _, rfl⟩ := List.mem_map.mp henum
    exact List.prefix_refl _

/-- The address of a site begins with the position of the message that it belongs to. -/
theorem address_of_mem_sitesIn (h : s ∈ sitesIn order around scope position ms) :
    ∃ i, position ≤ i ∧ i < position + ms.length ∧ around ++ [i] <+: s.address := by
  induction ms generalizing position with
  | nil => simp [sitesIn] at h
  | cons m rest ih =>
    rcases mem_sitesIn_cons.mp h with ⟨_, rfl | hwithin⟩ | hlater
    · exact ⟨position, Nat.le_refl _, by simp, List.prefix_refl _⟩
    · exact ⟨position, Nat.le_refl _, by simp,
        (around_of_mem_sitesWithin hwithin).trans (List.prefix_append _ _)⟩
    · obtain ⟨i, hle, hlt, hi⟩ := ih hlater
      exact ⟨i, by omega, by rw [List.length_cons]; omega, hi⟩

end Message

/-- No later address has an earlier one at its front, so nothing stands after a message that it lies
in, and no address comes up twice. -/
def InnerFirst (sites : List Site) : Prop :=
  sites.Pairwise fun s s' => ¬ s.address <+: s'.address

theorem eq_of_concat_prefix {around address : List Nat} {i j : Nat}
    (hi : around ++ [i] <+: address) (hj : around ++ [j] <+: address) : i = j := by
  have hsame := (List.prefix_of_prefix_length_le hi hj (by simp)).eq_of_length (by simp)
  simpa using hsame

theorem EnumDef.innerFirst_sites (around : List Nat) (scope : List String) (position : Nat)
    (es : List EnumDef) : InnerFirst (EnumDef.sites around scope position es) := by
  rw [InnerFirst, EnumDef.sites, List.pairwise_map]
  have hpositions : ((es.zipIdx position).map (·.2)).Nodup := by
    rw [List.zipIdx_map_snd]
    exact List.nodup_range'
  refine (List.pairwise_map.mp hpositions).imp fun {e e'} hne hprefix => hne ?_
  exact eq_of_concat_prefix hprefix (List.prefix_refl _)

namespace Message

/-- A message and what lies in it have other addresses than the enumerations beside it. -/
theorem address_apart {order : Listing} {around : List Nat} {scope : List String}
    {ms : List Message} {es : List EnumDef} {s s' : Site} (hs : s ∈ sitesIn order around scope 0 ms)
    (hs' : s' ∈ EnumDef.sites around scope ms.length es) :
    ¬ s.address <+: s'.address ∧ ¬ s'.address <+: s.address := by
  obtain ⟨i, _, hi, hfront⟩ := address_of_mem_sitesIn hs
  obtain ⟨e, he, rfl⟩ := List.mem_map.mp hs'
  have hle : ms.length ≤ e.2 := List.le_snd_of_mem_zipIdx he
  constructor
  · intro hprefix
    have hposition : i = e.2 := eq_of_concat_prefix (hfront.trans hprefix) (List.prefix_refl _)
    omega
  · intro hprefix
    have hposition : i = e.2 := eq_of_concat_prefix hfront hprefix
    omega

theorem innerFirst_sitesIn (around : List Nat) (scope : List String) (position : Nat)
    (ms : List Message) : InnerFirst (sitesIn .innermostFirst around scope position ms) := by
  induction ms using forest_induction generalizing around scope position with
  | nil => exact List.Pairwise.nil
  | cons m rest hnested hrest =>
    have hfirst : InnerFirst (sitesIn .innermostFirst around scope position [m]) := by
      rw [sitesIn_cons, sitesIn, List.append_nil]
      cases m.mapEntry with
      | true => exact List.Pairwise.nil
      | false =>
        have hwithin : InnerFirst (m.sitesWithin .innermostFirst around scope position) :=
          List.pairwise_append.mpr ⟨hnested _ _ 0, EnumDef.innerFirst_sites _ _ _ _,
            fun s hs s' hs' => (address_apart hs hs').1⟩
        refine List.pairwise_append.mpr ⟨hwithin, List.pairwise_singleton _ _, ?_⟩
        -- What lies in the message has a longer address than the message itself.
        intro s hs s' hs' hprefix
        have hlong := (around_of_mem_sitesWithin hs).length_le
        have hshort := hprefix.length_le
        rw [List.mem_singleton.mp hs'] at hshort
        simp only [Site.address, site, List.length_append, List.length_singleton] at hlong hshort
        omega
    have hsplit : sitesIn .innermostFirst around scope position (m :: rest) =
        sitesIn .innermostFirst around scope position [m] ++
          sitesIn .innermostFirst around scope (position + 1) rest := by
      rw [sitesIn_cons, sitesIn_cons, sitesIn, List.append_nil]
    rw [hsplit]
    refine List.pairwise_append.mpr ⟨hfirst, hrest around scope (position + 1), ?_⟩
    intro s hs s' hs' hprefix
    obtain ⟨i, _, hi, hfront⟩ := address_of_mem_sitesIn hs
    obtain ⟨j, hj, _, hfront'⟩ := address_of_mem_sitesIn hs'
    have hsame := eq_of_concat_prefix (hfront.trans hprefix) hfront'
    rw [List.length_singleton] at hi
    omega

end Message

/-- The block of a type, with references still to be linked. -/
def Site.block (package : String) (s : Site) : Block Reference :=
  match s.type with
  | .message m => m.interface package s.flatName s.scope
  | .enum e => .enum s.flatName e.values

/-- Enumerations are declared at their sites. -/
theorem EnumDef.map_declared_sites (package : String) (around : List Nat) (scope : List String)
    (position : Nat) (es : List EnumDef) :
    (EnumDef.sites around scope position es).map (Site.declared package) =
      es.map (EnumDef.declared package scope) := by
  induction es generalizing position with
  | nil => rfl
  | cons e rest ih =>
    rw [EnumDef.sites, List.zipIdx_cons, List.map_cons, List.map_cons, List.map_cons]
    exact congrArg _ (ih (position + 1))

/-- Enumerations that have values are written at their sites. -/
theorem EnumDef.blocks_outline (package : String) (around : List Nat) (scope : List String)
    (position : Nat) (es : List EnumDef) :
    (es.flatMap (EnumDef.outline (String.join scope))).filterMap Item.block? =
      ((EnumDef.sites around scope position es).filter Site.isWritten).map
        (Site.block package) := by
  induction es generalizing position with
  | nil => rfl
  | cons e rest ih =>
    have hrest := ih (position + 1)
    rw [EnumDef.sites, List.zipIdx_cons, List.map_cons, List.flatMap_cons, List.filterMap_append,
      hrest]
    have hwritten : (Site.mk around position scope (.enum e)).isWritten = e.isWritten := rfl
    rw [List.filter_cons, hwritten, EnumDef.outline, EnumDef.isWritten]
    cases e.values.isEmpty with
    | true => rfl
    | false =>
      simp [Item.block?, EnumDef.block, Site.block, Site.flatName, Site.path, TypeDef.name,
        EnumDef.sites]

namespace Message

/-- Messages are declared at their sites, those around others first. -/
theorem map_declared_sitesIn (package : String) (around : List Nat) (scope : List String)
    (position : Nat) (ms : List Message) :
    (sitesIn .outermostFirst around scope position ms).map (Site.declared package) =
      declaredIn package scope ms := by
  induction ms using forest_induction generalizing around scope position with
  | nil => rfl
  | cons m rest hnested hrest =>
    obtain ⟨name, fields, nested, enums, mapEntry⟩ := m
    rw [sitesIn_cons, declaredIn, declared, List.map_append, hrest]
    cases mapEntry with
    | true => rfl
    | false =>
      have hwithin : (sitesWithin .outermostFirst around scope position
          ⟨name, fields, nested, enums, false⟩).map (Site.declared package) =
          declaredIn package (scope ++ [name]) nested ++
            enums.map (EnumDef.declared package (scope ++ [name])) := by
        rw [sitesWithin, List.map_append, EnumDef.map_declared_sites]
        exact congrArg (· ++ _) (hnested _ _ _)
      rw [if_neg Bool.false_ne_true, if_neg Bool.false_ne_true, ← hwithin]
      rfl

/-- Messages are written at their sites, those inside others first. -/
theorem blocks_outlines (package : String) (around : List Nat) (scope : List String)
    (position : Nat) (ms : List Message) :
    (outlines package (String.join scope) scope ms).filterMap Item.block? =
      ((sitesIn .innermostFirst around scope position ms).filter Site.isWritten).map
        (Site.block package) := by
  induction ms using forest_induction generalizing around scope position with
  | nil => rfl
  | cons m rest hnested hrest =>
    rw [sitesIn_cons, outlines, List.filterMap_append, List.filter_append, List.map_append,
      hrest around scope (position + 1)]
    refine congrArg (· ++ _) ?_
    cases m.mapEntry with
    | true => rfl
    | false =>
      rw [if_neg Bool.false_ne_true, if_neg Bool.false_ne_true, outline_eq, ← join_concat,
        List.filterMap_append, List.filterMap_append, hnested (around ++ [position]) _ 0,
        EnumDef.blocks_outline package (around ++ [position]) _ m.nested.length,
        Listing.arrange, sitesWithin, List.filter_append, List.filter_append, List.map_append,
        List.map_append]
      rfl

end Message

/-- Whatever its references are linked to, the block of a type declares it. -/
theorem Site.declaredBy_block (package : String) (g : Reference → TypeExpr String) (s : Site) :
    s.DeclaredBy ((s.block package).subst g) := by
  obtain ⟨around, position, scope, type⟩ := s
  cases type with
  | message m => exact ⟨rfl, by simp [Function.comp_def]⟩
  | enum e => exact ⟨rfl, rfl⟩

theorem Site.declared?_block (package : String) (g : Reference → TypeExpr String) (s : Site) :
    ((s.block package).subst g).declared? = some s.flatName := by
  obtain ⟨around, position, scope, type⟩ := s
  cases type <;> rfl

theorem Site.text_block (package : String) (symbol : String → String) (s : Site) :
    ((s.block package).subst (Reference.written symbol)).text = s.printed package symbol := by
  obtain ⟨around, position, scope, type⟩ := s
  cases type with
  | message m => exact m.text_interface package symbol scope
  | enum e => exact Block.text_enum _ _

namespace SchemaFile

/-- The blocks declare the types of the file, as far as these are written. -/
structure DeclaredBy (f : SchemaFile) (blocks : List (Block String)) : Prop where
  /-- The names are those that are registered, but for the enumerations without values. -/
  names : (blocks.filterMap Block.declared?).Perm
    ((f.sites.filter Site.isWritten).map Site.flatName)
  /-- The texts of the blocks declare types under these names. -/
  opens : List.Forall₂ Opens (blocks.filterMap Block.declared?) (blocks.map Block.text)
  /-- Each type has one block and each block one type, the text of the block is what is spelled out
  for the type, and what lies in a message comes before the message. -/
  blocks : ∃ (written : List Site) (symbol : String → String),
    written.Perm (f.sites.filter Site.isWritten) ∧
    List.Forall₂ Site.DeclaredBy written blocks ∧
    blocks.map Block.text = written.map (Site.printed f.package symbol) ∧
    written.Pairwise fun s s' => ¬ s'.Inside s

variable (f : SchemaFile)

theorem sitesBy_perm (order : Listing) : (f.sitesBy order).Perm f.sites :=
  (Message.sitesIn_perm order .outermostFirst [] [] 0 f.messages).append_left _

theorem innerFirst_sitesBy : InnerFirst (f.sitesBy .innermostFirst) :=
  List.pairwise_append.mpr ⟨EnumDef.innerFirst_sites _ _ _ _, Message.innerFirst_sitesIn _ _ _ _,
    fun _ hs _ hs' => (Message.address_apart hs' hs).2⟩

theorem nodup_address : (f.sites.map Site.address).Nodup := by
  have hnodup : ((f.sitesBy .innermostFirst).map Site.address).Nodup := by
    refine List.pairwise_map.mpr (f.innerFirst_sitesBy.imp ?_)
    intro s s' hapart heq
    exact hapart (heq ▸ List.prefix_refl s.address)
  exact (((f.sitesBy_perm .innermostFirst).map _).nodup_iff).mp hnodup

/-- The types of a file are registered at its sites. -/
theorem map_declared_sites : f.sites.map (Site.declared f.package) = f.declared := by
  rw [sites, sitesBy, List.map_append, EnumDef.map_declared_sites, Message.map_declared_sitesIn,
    declared]

/-- The types of a file are written at its sites, those inside messages first. -/
theorem blocks_declarations :
    f.declarations.filterMap Item.block? =
      ((f.sitesBy .innermostFirst).filter Site.isWritten).map (Site.block f.package) := by
  rw [declarations, List.filterMap_append, sitesBy, List.filter_append, List.map_append]
  exact congrArg₂ (· ++ ·) (EnumDef.blocks_outline f.package [] [] f.messages.length f.enums)
    (Message.blocks_outlines f.package [] [] 0 f.messages)

theorem declaredBy_blocksFor (c : Context) (user : String) :
    f.DeclaredBy (c.blocksFor user f.declarations) := by
  have hperm := (f.sitesBy_perm .innermostFirst).filter Site.isWritten
  have hnames : Block.declared? ∘ Block.subst (c.typeFor user) ∘ Site.block f.package =
      some ∘ Site.flatName := funext fun s => s.declared?_block f.package _
  rw [Context.blocksFor, blocks_declarations, List.map_map]
  constructor
  · rw [List.filterMap_map, hnames, List.filterMap_eq_map]
    exact hperm.map Site.flatName
  · rw [List.filterMap_map, hnames, List.filterMap_eq_map, List.map_map,
      List.forall₂_map_left_iff, List.forall₂_map_right_iff, List.forall₂_same]
    exact fun s _ => Block.opens_text (s.declared?_block f.package _)
  · refine ⟨_, fun t => (c.symbolFor? user t).getD "", hperm, ?_, ?_, ?_⟩
    · rw [List.forall₂_map_right_iff, List.forall₂_same]
      exact fun s _ => s.declaredBy_block f.package _
    · rw [List.map_map]
      exact List.map_congr_left fun s _ => s.text_block f.package _
    · refine (f.innerFirst_sitesBy.filter _).imp fun h hin => h ?_
      exact hin.trans (List.prefix_append _ _)

/-- The blocks of a module that declare types come first, and its text has theirs in this order. -/
theorem exists_declaredBy {f : SchemaFile} {options : Options} {c : Context} {m : Module}
    (h : ((Step.moduleOf f options).run c).result = .ok m) :
    ∃ blocks stubs, m.blocks = blocks ++ stubs ∧ f.DeclaredBy blocks ∧
      stubs.filterMap Block.declared? = [] ∧
      ∃ before after : List String,
        m.text = "\n\n".intercalate (before ++ blocks.map Block.text ++ after) ∧
        ∀ s ∈ before ++ after, ∀ name, ¬ Opens name s := by
  obtain ⟨_, _, rfl⟩ := Step.moduleOf_made h
  have hsplit := Context.blocksFor_append ((Step.moduleOf f options).run c).context f.name
    f.declarations (f.serviceOutline options.role)
  have hothers : (Context.blocksFor ((Step.moduleOf f options).run c).context f.name
      (f.serviceOutline options.role)).filterMap Block.declared? = [] := by
    rw [Context.declared?_blocksFor, declared?_serviceOutline]
  exact ⟨_, _, hsplit, f.declaredBy_blocksFor _ f.name, hothers,
    Module.exists_sections hsplit hothers⟩

end SchemaFile

/-- The sites of a file are where its types are registered, in that order, and they have distinct
addresses. Whenever the declarations of the file can be linked, for whatever file and in whatever
context, the blocks declare the types at the sites: under the names that are registered, without the
enumerations that have no values, with one interface for each message and one enumeration for each
that has values, and with all that lies in a message before its interface. The messages by
themselves are answered with the texts of their blocks. In a module these blocks come first, and
neither the others nor their texts declare a type. -/
theorem registered_types_are_declared (f : SchemaFile) :
    f.sites.map (Site.declared f.package) = f.declared ∧
    (f.sites.map Site.address).Nodup ∧
    (∀ (strict : Bool) (user : String) (c : Context) (blocks : List (Block String)),
      ((Step.linkItems strict user f.declarations).run c).result = .ok blocks →
        f.DeclaredBy blocks) ∧
    (∀ (strict : Bool) (user : String) (c : Context) (answer : Answer),
      ((Call.messages f.messages f.package user "" [] strict).perform.run c).result = .ok answer →
        ∃ blocks : List (Block String), answer = .blocks (blocks.map fun b => b.text ++ "\n") ∧
          SchemaFile.DeclaredBy { f with enums := [] } blocks) ∧
    ∀ (options : Options) (c : Context) (m : Module),
      ((Step.moduleOf f options).run c).result = .ok m →
        ∃ blocks stubs, m.blocks = blocks ++ stubs ∧ f.DeclaredBy blocks ∧
          stubs.filterMap Block.declared? = [] ∧
          ∃ before after : List String,
            m.text = "\n\n".intercalate (before ++ blocks.map Block.text ++ after) ∧
            ∀ s ∈ before ++ after, ∀ name, ¬ Opens name s := by
  refine ⟨f.map_declared_sites, f.nodup_address, ?_, ?_, fun _ _ _ h => f.exists_declaredBy h⟩
  · intro strict user c blocks h
    rw [((Step.linkItems_reads strict user f.declarations).of_ok h).1]
    exact f.declaredBy_blocksFor _ user
  · intro strict user c answer h
    have hreads := (Step.linkItems_reads strict user
      (Message.outlines f.package "" [] f.messages)).map
        fun blocks => Answer.blocks (blocks.map Block.lines)
    refine ⟨_, (hreads.of_ok h).1, ?_⟩
    exact SchemaFile.declaredBy_blocksFor { f with enums := [] } _ user

/-- Messages of one name side by side, enumerations with and without values, and a message inside a
map entry. -/
def paletteFile : SchemaFile :=
  { name := "palette.proto"
    enums := [{ name := "Mode", values := ["LIGHT", "DARK"] }]
    messages := [
      { name := "Palette"
        fields := [{ name := "size", kind := .member .int32 }]
        nested := [
          { name := "Ink"
            enums := [{ name := "Blank" }, { name := "Tone", values := ["RED"] }] },
          { name := "NamesEntry", nested := [{ name := "Lost" }], mapEntry := true }] },
      { name := "Palette", nested := [{ name := "Ink" }] }] }

theorem paletteFile_types_are_declared :
    paletteFile.declared.map (·.flatName) =
      ["Mode", "Palette", "PaletteInk", "PaletteInkBlank", "PaletteInkTone", "Palette",
        "PaletteInk"] ∧
    (∃ s ∈ paletteFile.sites, ∃ t ∈ paletteFile.sites, s.Inside t) ∧
    ∃ blocks, ((Step.linkItems true "any.proto" paletteFile.declarations).run {}).result =
        .ok blocks ∧
      blocks.map Block.text = [
        "export enum Mode \x7b\n  LIGHT = \"LIGHT\",\n  DARK = \"DARK\",\n\x7d",
        "export enum PaletteInkTone \x7b\n  RED = \"RED\",\n\x7d",
        "export interface PaletteInk \x7b\n\x7d",
        "export interface Palette \x7b\n  size: number;\n\x7d",
        "export interface PaletteInk \x7b\n\x7d",
        "export interface Palette \x7b\n\x7d"] ∧
      blocks.filterMap Block.declared? =
        ["Mode", "PaletteInkTone", "PaletteInk", "Palette", "PaletteInk", "Palette"] ∧
      paletteFile.DeclaredBy blocks := by
  refine ⟨by decide +kernel, by decide +kernel, _, rfl, by decide +kernel, by decide +kernel, ?_⟩
  exact (registered_types_are_declared paletteFile).2.2.1 true "any.proto" {} _ rfl

end ProtoStubs
