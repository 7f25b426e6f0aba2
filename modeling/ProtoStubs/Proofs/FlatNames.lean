import ProtoStubs.Proofs.Declarations
import ProtoStubs.Proofs.Shadowing

/-!
When two types of a file have one flat name. A flat name joins the names of a path and does not say
where one name ends and the next begins. So two paths have one flat name if, after the names they
share, the next name of one is cut short in the other and made up for by the names that follow.
There is no other way. Hence the declarations of a module have distinct names exactly when no two
paths of the file merge like this, and only such types are ever resolved under one symbol.
-/

namespace ProtoStubs

/-- The paths have their first names in common; then `p` has a name `x` where `q` has `x ++ z`, and
the names that follow in `p` spell `z` and the names that follow in `q`. -/
def Merges (p q : List String) : Prop :=
  ∃ common x z xs ys, z ≠ "" ∧ p = common ++ x :: xs ∧ q = common ++ (x ++ z) :: ys ∧
    String.join xs = z ++ String.join ys

namespace Merges

variable {p q : List String}

theorem cons (h : Merges p q) (name : String) : Merges (name :: p) (name :: q) := by
  obtain ⟨common, x, z, xs, ys, hz, rfl, rfl, hjoin⟩ := h
  exact ⟨name :: common, x, z, xs, ys, hz, rfl, rfl, hjoin⟩

theorem join_eq (h : Merges p q) : String.join p = String.join q := by
  obtain ⟨common, x, z, xs, ys, _, rfl, rfl, hjoin⟩ := h
  rw [String.join_append, String.join_append, String.join_cons, String.join_cons, hjoin,
    String.append_assoc]

theorem ne (h : Merges p q) : p ≠ q := by
  obtain ⟨common, x, z, xs, ys, hz, rfl, rfl, _⟩ := h
  intro heq
  rw [List.append_cancel_left_eq, List.cons.injEq] at heq
  exact hz (String.append_eq_left_iff.mp heq.1.symm)

end Merges

theorem append_eq_append_cases {a b x y : String} (h : a ++ x = b ++ y) :
    (∃ z, b = a ++ z ∧ x = z ++ y) ∨ ∃ z, a = b ++ z ∧ y = z ++ x := by
  have hchars := congrArg String.toList h
  rw [String.toList_append, String.toList_append, List.append_eq_append_iff] at hchars
  rcases hchars with ⟨chars, hb, hx⟩ | ⟨chars, ha, hy⟩
  · exact Or.inl ⟨String.ofList chars, String.toList_injective (by simp [hb]),
      String.toList_injective (by simp [hx])⟩
  · exact Or.inr ⟨String.ofList chars, String.toList_injective (by simp [ha]),
      String.toList_injective (by simp [hy])⟩

theorem join_eq_empty_iff {p : List String} (hp : "" ∉ p) : String.join p = "" ↔ p = [] := by
  cases p with
  | nil => simp
  | cons x xs =>
    obtain ⟨hx, _⟩ := not_or.mp (List.mem_cons.not.mp hp)
    simp [String.append_eq_empty_iff, Ne.symm hx]

/-- Paths without empty names that have one flat name are the same or merge. -/
theorem eq_or_merges_of_join {p q : List String} (hp : "" ∉ p) (hq : "" ∉ q)
    (h : String.join p = String.join q) : p = q ∨ Merges p q ∨ Merges q p := by
  induction p generalizing q with
  | nil => exact Or.inl ((join_eq_empty_iff hq).mp h.symm).symm
  | cons x xs ih =>
    cases q with
    | nil => exact Or.inl ((join_eq_empty_iff hp).mp h)
    | cons y ys =>
      obtain ⟨_, hxs⟩ := not_or.mp (List.mem_cons.not.mp hp)
      obtain ⟨_, hys⟩ := not_or.mp (List.mem_cons.not.mp hq)
      rw [String.join_cons, String.join_cons] at h
      by_cases hxy : x = y
      · subst hxy
        rcases ih hxs hys ((String.append_right_inj x).mp h) with rfl | hmerges | hmerges
        · exact Or.inl rfl
        · exact Or.inr (Or.inl (hmerges.cons x))
        · exact Or.inr (Or.inr (hmerges.cons x))
      · rcases append_eq_append_cases h with ⟨z, rfl, hjoin⟩ | ⟨z, rfl, hjoin⟩
        · have hz : z ≠ "" := by
            rintro rfl
            exact hxy (String.append_empty).symm
          exact Or.inr (Or.inl ⟨[], x, z, xs, ys, hz, rfl, rfl, hjoin⟩)
        · have hz : z ≠ "" := by
            rintro rfl
            exact hxy String.append_empty
          exact Or.inr (Or.inr ⟨[], y, z, ys, xs, hz, rfl, rfl, hjoin⟩)

/-- The declarations of a module have the flat names of the paths it exports. -/
theorem declaredNames_perm {c : Context} {f : SchemaFile} {options : Options} {m : Module}
    (h : ((Step.moduleOf f options).run c).result = .ok m) :
    m.declaredNames.Perm (f.exports.map String.join) := by
  obtain ⟨_, _, rfl⟩ := Step.moduleOf_made h
  rw [Module.declaredNames, SchemaFile.moduleIn, Context.declared?_blocksFor]
  exact f.declared?_outline_perm options.role

/-- The text of a module declares types under these names, one after another, and under no
others. -/
theorem exists_declaring_texts {c : Context} {f : SchemaFile} {options : Options} {m : Module}
    (h : ((Step.moduleOf f options).run c).result = .ok m) :
    ∃ before texts after : List String, m.text = "\n\n".intercalate (before ++ texts ++ after) ∧
      List.Forall₂ Opens m.declaredNames texts ∧
      ∀ s ∈ before ++ after, ∀ name, ¬ Opens name s := by
  obtain ⟨blocks, stubs, hblocks, hdeclared, hstubs, before, after, htext, hothers⟩ :=
    SchemaFile.exists_declaredBy h
  refine ⟨before, blocks.map Block.text, after, htext, ?_, hothers⟩
  rw [Module.declaredNames, hblocks, List.filterMap_append, hstubs, List.append_nil]
  exact hdeclared.opens

theorem SchemaFile.WellNamed.nodup_join_iff {f : SchemaFile} (h : f.WellNamed)
    (keep : EnumDef → Bool) :
    ((f.pathsOf keep).map String.join).Nodup ↔
      ∀ p ∈ f.pathsOf keep, ∀ q ∈ f.pathsOf keep, ¬ Merges p q := by
  rw [List.nodup_map_iff_inj_on (h.nodup_pathsOf keep)]
  constructor
  · intro hinj p hp q hq hmerges
    exact hmerges.ne (hinj p hp q hq hmerges.join_eq)
  · intro hapart p hp q hq hjoin
    rcases eq_or_merges_of_join (h.notMem_of_mem_pathsOf hp) (h.notMem_of_mem_pathsOf hq) hjoin with
      heq | hmerges | hmerges
    · exact heq
    · exact (hapart p hp q hq hmerges).elim
    · exact (hapart q hq p hp hmerges).elim

namespace Context

variable {c : Context} {f : SchemaFile} {user t t' s : String} {es : List Event}

/-- A type that a file defines has a path in it, and goes by the flat name of the path there. -/
theorem Orderly.exists_path (h : c.Orderly) (hf : c.file? f.name = some f)
    (hs : c.symbolFor? f.name t = some s) (hown : c.isForeign f.name t = false) :
    ∃ p ∈ f.paths, t = fullName f.package p ∧ s = String.join p := by
  obtain ⟨d, hd, hfile, hflat⟩ := exists_own_definition hs hown
  obtain ⟨g, hg, hgd⟩ := h.exists_file hd
  obtain ⟨e, he, rfl, rfl⟩ := SchemaFile.definition?_eq_some hgd
  obtain rfl : g = f := by
    have hname : g.name = f.name := hfile
    rw [← hname, h.file?_of_mem hg] at hf
    exact Option.some.inj hf
  obtain ⟨p, hp, rfl⟩ := List.mem_map.mp (g.declared_perm.mem_iff.mp he)
  exact ⟨p, hp, rfl, hflat.symm⟩

theorem nodup_symbols_resolve (h : ((c.bindingsOf user).map (·.symbol)).Nodup)
    (t asking : String) :
    ((((Step.resolve t asking).run c).context.bindingsOf user).map (·.symbol)).Nodup := by
  by_cases hne : user = asking
  · subst hne
    rcases lookup_cases c user t with hnone | ⟨s, hs⟩ | ⟨d, hd⟩
    · rw [Step.resolve_undefined user hnone]
      exact h
    · rw [Step.resolve_settled hs]
      exact h
    · rw [Step.resolve_unbound hd]
      exact nodup_symbols_bind h d
  · rw [(Step.resolve_gains c t asking).bindingsOf_eq hne]
    exact h

/-- A file has no two bindings with one symbol, also if it is registered late. -/
theorem Runs.nodup_symbols {directory : String} (h : Runs { directory := directory } es c)
    (user : String) : ((c.bindingsOf user).map (·.symbol)).Nodup := by
  induction h with
  | start => exact List.nodup_nil
  | registered _ _ ih =>
    rw [bindingsOf_enroll]
    exact ih
  | resolved _ _ ih => exact nodup_symbols_resolve ih _ _
  | refused _ _ ih => exact nodup_symbols_resolve ih _ _

/-- Types of other files have different symbols. -/
theorem Runs.eq_of_foreign {directory : String} (h : Runs { directory := directory } es c)
    (hs : c.symbolFor? user t = some s) (hs' : c.symbolFor? user t' = some s)
    (hforeign : c.isForeign user t = true) (hforeign' : c.isForeign user t' = true) : t = t' := by
  obtain ⟨b, hb, rfl, hsymbol⟩ := exists_of_symbol? (symbol?_of_foreign hs hforeign)
  obtain ⟨b', hb', rfl, hsymbol'⟩ := exists_of_symbol? (symbol?_of_foreign hs' hforeign')
  rw [List.inj_on_of_nodup_map (h.nodup_symbols user) hb hb' (hsymbol.trans hsymbol'.symm)]

/-- No type of another file goes by the symbol of an own type. -/
theorem Ledger.isForeign_eq_false (h : c.Ledger user) (hs : c.symbolFor? user t = some s)
    (hs' : c.symbolFor? user t' = some s) (hown : c.isForeign user t' = false) :
    c.isForeign user t = false := by
  obtain ⟨d, hd, hfile, hflat⟩ := exists_own_definition hs' hown
  cases hforeign : c.isForeign user t with
  | false => rfl
  | true =>
    obtain ⟨_, howned⟩ := h.ne_of_foreign hs hforeign
    exact (howned d (mem_of_definition? hd) hfile hflat).elim

end Context

def SchemaFile.Blends (f : SchemaFile) (t t' : String) : Prop :=
  ∃ p ∈ f.paths, ∃ q ∈ f.paths,
    t = fullName f.package p ∧ t' = fullName f.package q ∧ (Merges p q ∨ Merges q p)

namespace Context

variable {c : Context} {f : SchemaFile} {user t t' s : String} {es : List Event}

/-- Two types that a file defines have one symbol in it only if their paths merge. -/
theorem Orderly.eq_or_blends (h : c.Orderly) (hwell : f.WellNamed) (hf : c.file? f.name = some f)
    (hs : c.symbolFor? f.name t = some s) (hs' : c.symbolFor? f.name t' = some s)
    (hown : c.isForeign f.name t = false) (hown' : c.isForeign f.name t' = false) :
    t = t' ∨ f.Blends t t' := by
  obtain ⟨p, hp, ht, hjoin⟩ := h.exists_path hf hs hown
  obtain ⟨q, hq, ht', hjoin'⟩ := h.exists_path hf hs' hown'
  rcases eq_or_merges_of_join (hwell.notMem_of_mem_pathsOf hp) (hwell.notMem_of_mem_pathsOf hq)
    (hjoin.symm.trans hjoin') with rfl | hmerges
  · exact Or.inl (ht.trans ht'.symm)
  · exact Or.inr ⟨p, hp, q, hq, ht, ht', hmerges⟩

/-- For a file that was not bound to anything before it was registered, two types with one symbol
are the same or both its own. -/
theorem Runs.eq_or_own {directory : String} (h : Runs { directory := directory } es c)
    (hledger : c.Ledger user) (hs : c.symbolFor? user t = some s)
    (hs' : c.symbolFor? user t' = some s) :
    t = t' ∨ c.isForeign user t = false ∧ c.isForeign user t' = false := by
  cases hforeign : c.isForeign user t with
  | false => exact Or.inr ⟨rfl, hledger.isForeign_eq_false hs' hs hforeign⟩
  | true =>
    cases hforeign' : c.isForeign user t' with
    | true => exact Or.inl (h.eq_of_foreign hs hs' hforeign hforeign')
    | false =>
      rw [hledger.isForeign_eq_false hs hs' hforeign'] at hforeign
      cases hforeign

theorem isForeign_of_own (hs : c.symbolFor? user t = some s) (hown : c.isForeign f.name t = false)
    (hne : user ≠ f.name) : c.isForeign user t = true := by
  obtain ⟨d, hd⟩ := exists_definition_of_symbolFor? hs
  have hfile : d.file = f.name := by simpa [isForeign, hd] using hown
  simpa [isForeign, hd, hfile] using Ne.symm hne

end Context

/-- Let the names in each scope of a file be distinct and not empty. Whenever its module can be
made, the declarations have the flat names of the exported paths and are written under them, and
these names are distinct exactly when no two of the paths merge. In every session, two types that
the file defines are resolved under one symbol only if they are the same, or for the file itself and
with paths that merge; if nothing was bound for the file before it was registered, this holds of all
types that are resolved for it. -/
theorem flat_names_distinct_iff (f : SchemaFile) (hf : f.WellNamed) :
    (∀ (c : Context) (options : Options) (m : Module),
      ((Step.moduleOf f options).run c).result = .ok m →
        m.declaredNames.Perm (f.exports.map String.join) ∧
        (∃ before texts after : List String,
          m.text = "\n\n".intercalate (before ++ texts ++ after) ∧
          List.Forall₂ Opens m.declaredNames texts ∧
          ∀ s ∈ before ++ after, ∀ name, ¬ Opens name s) ∧
        (m.declaredNames.Nodup ↔ ∀ p ∈ f.exports, ∀ q ∈ f.exports, ¬ Merges p q)) ∧
    ∀ (directory : String) (calls : List Call) (user t t' s : String),
      let c := contextAfter { directory := directory } calls
      let es := eventsOf { directory := directory } calls
      c.file? f.name = some f →
      c.isForeign f.name t = false ∧ c.isForeign f.name t' = false ∨
        user = f.name ∧ BoundLate user { directory := directory } calls →
      .resolved user t s ∈ es → .resolved user t' s ∈ es →
      t = t' ∨ user = f.name ∧ f.Blends t t' := by
  constructor
  · intro c options m hm
    have hperm := declaredNames_perm hm
    exact ⟨hperm, exists_declaring_texts hm,
      hperm.nodup_iff.trans (hf.nodup_join_iff EnumDef.isWritten)⟩
  · intro directory calls user t t' s c es hfile hwhich hevent hevent'
    have hruns : Context.Runs { directory := directory } es c := session_runs _ calls
    have horderly := hruns.orderly (Context.Orderly.start directory)
    have hs := hruns.settled hevent
    have hs' := hruns.settled hevent'
    by_cases huser : user = f.name
    · subst huser
      have hown : t = t' ∨ c.isForeign f.name t = false ∧ c.isForeign f.name t' = false := by
        rcases hwhich with hboth | ⟨_, hlate⟩
        · exact Or.inr hboth
        · exact hruns.eq_or_own (Context.Ledger.of_session hlate) hs hs'
      rcases hown with heq | ⟨ht, ht'⟩
      · exact Or.inl heq
      · exact (horderly.eq_or_blends hf hfile hs hs' ht ht').imp_right fun h => ⟨rfl, h⟩
    · rcases hwhich with ⟨ht, ht'⟩ | ⟨heq, _⟩
      · exact Or.inl (hruns.eq_of_foreign hs hs' (Context.isForeign_of_own hs ht huser)
          (Context.isForeign_of_own hs' ht' huser))
      · exact (huser heq).elim

/-- A file that uses types of other files under its own names, one of them before it is there. -/
theorem holderFile_flat_names_distinct :
    holderFile.WellNamed ∧
    (∃ m, ((Step.moduleOf holderFile {}).run (registered "/" [userFile "a", userFile "b"])).result =
        .ok m ∧ m.declaredNames = ["Holder", "User_1"] ∧
      m.text =
        "/**\n * This file is auto-generated by protoc-webapi-ts from c.proto\n" ++
        " * Don't change manually\n */\n\n" ++
        "import \x7b User as User \x7d from \"../../a/a\";\n" ++
        "import \x7b User as User_2 \x7d from \"../../b/b\";\n\n" ++
        "export interface Holder \x7b\n" ++
        "  x: User;\n  y: \x7b[key: string]: User_2\x7d;\n  z: User_1;\n\x7d\n\n" ++
        "export interface User_1 \x7b\n\x7d" ∧
      ∀ p ∈ holderFile.exports, ∀ q ∈ holderFile.exports, ¬ Merges p q) ∧
    (contextAfter {} clashingCalls).file? "c.proto" = some holderFile ∧
    ∀ t t' s, .resolved "c.proto" t s ∈ eventsOf {} clashingCalls →
      .resolved "c.proto" t' s ∈ eventsOf {} clashingCalls → t = t' ∨ holderFile.Blends t t' := by
  have hwell : holderFile.WellNamed := by decide +kernel
  obtain ⟨hmodule, hsession⟩ := flat_names_distinct_iff holderFile hwell
  have hlate : BoundLate "c.proto" {} clashingCalls := by decide +kernel
  obtain ⟨m, hm⟩ : ∃ m, ((Step.moduleOf holderFile {}).run
      (registered "/" [userFile "a", userFile "b"])).result = .ok m := ⟨_, rfl⟩
  refine ⟨hwell, ⟨m, hm, ?_, ?_, (hmodule _ {} m hm).2.2.mp ?_⟩, rfl, ?_⟩
  · cases hm
    decide +kernel
  · cases hm
    decide +kernel
  · cases hm
    decide +kernel
  · intro t t' s hevent hevent'
    exact (hsession "/" clashingCalls "c.proto" t t' s rfl (Or.inr ⟨rfl, hlate⟩) hevent
      hevent').imp_right And.right

/-- A message whose name runs together the names of another message and of one nested in it. -/
def mergingFile : SchemaFile :=
  { name := "m.proto"
    package := "p"
    messages := [{ name := "Outer", nested := [{ name := "Inner" }] }, { name := "OuterInner" }] }

/-- All names are made of letters and distinct in their scopes, and yet two interfaces have one
name, and two types are resolved under one symbol. -/
theorem mergingFile_names_not_distinct :
    mergingFile.WellNamed ∧
    (∀ n ∈ mergingFile.package :: mergingFile.scopes.flatMap (Scope.names fun _ => true),
      n.toList.all Char.isAlpha = true) ∧
    (∃ m, ((Step.moduleOf mergingFile {}).run {}).result = .ok m ∧
      m.declaredNames = ["OuterInner", "Outer", "OuterInner"] ∧ ¬ m.declaredNames.Nodup ∧
      m.text =
        "/**\n * This file is auto-generated by protoc-webapi-ts from m.proto\n" ++
        " * Don't change manually\n */\n\nexport interface OuterInner \x7b\n\x7d\n\n" ++
        "export interface Outer \x7b\n\x7d\n\nexport interface OuterInner \x7b\n\x7d") ∧
    ∀ t ∈ [".p.Outer.Inner", ".p.OuterInner"],
      .resolved "m.proto" t "OuterInner" ∈ eventsOf {}
        [.register mergingFile, .resolve ".p.Outer.Inner" "m.proto",
          .resolve ".p.OuterInner" "m.proto"] := by
  refine ⟨by decide +kernel, by decide +kernel,
    ⟨_, rfl, by decide +kernel, by decide +kernel, ?_⟩, ?_⟩
  · decide +kernel
  · decide +kernel

end ProtoStubs
