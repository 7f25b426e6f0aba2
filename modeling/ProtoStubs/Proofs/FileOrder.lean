import Mathlib.Data.List.Perm.Basic
import ProtoStubs.Proofs.Composition

/-!
The order of the files, and files that nobody asks for, do not matter as long as no two files have
the same name or module or define the same type. A requested file then finds the same definitions
in the larger set of files as in the smaller one, whatever the order, and the names taken in its
module are its own in both.
-/

namespace ProtoStubs

namespace Step

variable {c : Context} {files : List SchemaFile}

/-- Files with names and modules of their own are all admitted. -/
theorem registerAll_distinct (hnames : ((c.files ++ files).map (·.name)).Nodup)
    (hpaths : ((c.files ++ files).map (·.modulePath)).Nodup) :
    ((registerAll files).run c).result = .ok () ∧
      ((registerAll files).run c).context.files = c.files ++ files := by
  induction files generalizing c with
  | nil => exact ⟨rfl, (List.append_nil _).symm⟩
  | cons f rest ih =>
    have hadmits : c.Admits f := by
      constructor
      · apply List.find?_eq_none.mpr
        intro g hg
        rw [List.map_append, List.nodup_append] at hnames
        simpa using hnames.2.2 g.name (List.mem_map_of_mem hg) f.name List.mem_cons_self
      · intro g hg
        rw [List.map_append, List.nodup_append] at hpaths
        exact hpaths.2.2 g.modulePath (List.mem_map_of_mem hg) f.modulePath List.mem_cons_self
    obtain ⟨hok, hcontext⟩ := register_admits hadmits
    have hcons : (registerAll (f :: rest)).run c =
      after ((register f).run c) fun _ => registerAll rest := rfl
    rw [hcons, after_ok _ hok, hcontext]
    rw [List.append_cons, ← Context.files_enroll] at hnames hpaths
    have hrest := ih hnames hpaths
    rw [Context.files_enroll, ← List.append_cons] at hrest
    exact hrest

end Step

theorem registered_ok (directory : String) {files : List SchemaFile}
    (hnames : (files.map (·.name)).Nodup) (hpaths : (files.map (·.modulePath)).Nodup) :
    ((Step.registerAll files).start directory).result = .ok () ∧
      (registered directory files).files = files :=
  Step.registerAll_distinct (c := { directory := directory }) hnames hpaths

section Registered

variable {directory : String} {small large : List SchemaFile} {f : SchemaFile} {user : String}
  (hsmall : (registered directory small).files = small)
  (hlarge : (registered directory large).files = large) (hsub : small ⊆ large)
  (hseparate : SeparateTypes large)

include hsmall hlarge hsub

theorem file?_of_small (hf : (registered directory small).file? user = some f) :
    (registered directory large).file? user = some f := by
  have hmem : f ∈ small := hsmall ▸ Context.mem_of_file? hf
  rw [← Context.file?_name hf]
  apply (registered_orderly directory large).file?_of_mem
  rw [hlarge]
  exact hsub hmem

include hseparate

theorem definition?_of_small {t : String} {d : Definition}
    (hd : (registered directory small).definition? t = some d) :
    (registered directory large).definition? t = some d := by
  obtain ⟨g, hg, hgd⟩ := (registered_orderly directory small).exists_file hd
  apply (registered_orderly directory large).definition?_eq (hlarge.symm ▸ hseparate) _ hgd
  rw [hlarge]
  exact hsub (hsmall ▸ hg)

/-- The definitions that belong to a file come from it, wherever it stands. -/
theorem own_definition_iff (hf : (registered directory small).file? user = some f)
    {d : Definition} (hd : d.file = user) :
    d ∈ (registered directory large).definitions ↔
      d ∈ (registered directory small).definitions := by
  have hs := registered_orderly directory small
  have hl := registered_orderly directory large
  constructor
  · intro hmem
    obtain ⟨g, hg, hgd⟩ := hl.exists_file (hl.definition?_of_mem hmem)
    obtain ⟨e, _, _, rfl⟩ := SchemaFile.definition?_eq_some hgd
    have hname : g.name = f.name := hd.trans (Context.file?_name hf).symm
    have hf' := Context.mem_of_file? (file?_of_small hsmall hlarge hsub hf)
    obtain rfl : g = f := List.inj_on_of_nodup_map hl.names hg hf' hname
    have hsep : SeparateTypes (registered directory small).files :=
      hsmall.symm ▸ hseparate.mono hsub
    exact Context.mem_of_definition? (hs.definition?_eq hsep (Context.mem_of_file? hf) hgd)
  · intro hmem
    exact Context.mem_of_definition?
      (definition?_of_small hsmall hlarge hsub hseparate (hs.definition?_of_mem hmem))

/-- What a requested file sees among fewer files in any order, it also sees among more. -/
theorem registered_below (hf : (registered directory small).file? user = some f) :
    (registered directory small).Below user (registered directory large) := by
  have hnone := registered_bindingsOf directory small user
  have hnone' := registered_bindingsOf directory large user
  constructor
  · rw [(registered_frame directory small).1, (registered_frame directory large).1]
  · rw [Context.modulePathOf, file?_of_small hsmall hlarge hsub hf, Context.modulePathOf, hf]
  · exact definition?_of_small hsmall hlarge hsub hseparate
  · intro s
    have hsame : (∃ d ∈ (registered directory large).definitions, d.file = user ∧ d.flatName = s) ↔
        ∃ d ∈ (registered directory small).definitions, d.file = user ∧ d.flatName = s := by
      apply exists_congr
      intro d
      rw [and_congr_left_iff]
      rintro ⟨hd, _⟩
      exact own_definition_iff hsmall hlarge hsub hseparate hf hd
    rw [Context.mem_taken_iff, Context.mem_taken_iff, hnone, hnone', hsame]
  · rw [hnone, hnone']

end Registered

/-- Let no two files of a list have the same name or module or define the same type. What can be
generated from some of the files, in any order, is generated alike from the whole list. -/
theorem generate_of_sublist_perm (directory : String) {files part given : List SchemaFile}
    (requested : List String) (options : Options)
    (hnames : (files.map (·.name)).Nodup) (hpaths : (files.map (·.modulePath)).Nodup)
    (htypes : SeparateTypes files) (hpart : part.Sublist files) (hgiven : given.Perm part)
    {t : Table String String}
    (hok : (generate directory given requested options).result = .ok t) :
    (generate directory files requested options).result = .ok t := by
  have hnames' : (given.map (·.name)).Nodup :=
    (hgiven.map _).nodup_iff.mpr (hnames.sublist (hpart.map _))
  have hpaths' : (given.map (·.modulePath)).Nodup :=
    (hgiven.map _).nodup_iff.mpr (hpaths.sublist (hpart.map _))
  have hsub : given ⊆ files := fun f hf => hpart.subset (hgiven.mem_iff.mp hf)
  obtain ⟨hregister, hfiles⟩ := registered_ok directory hnames hpaths
  obtain ⟨hregister', hfiles'⟩ := registered_ok directory hnames' hpaths'
  rw [generate_eq_foldlM hregister'] at hok
  rw [generate_eq_foldlM hregister]
  apply Step.foldlM_addEntry_mono _ hok
  intro name e he
  obtain ⟨f, m, hf, hm, rfl⟩ := Context.entry_ok he
  obtain rfl := Context.file?_name hf
  have hbelow := registered_below hfiles' hfiles hsub htypes hf
  have hf' := file?_of_small hfiles' hfiles hsub hf
  have hm' := (Step.moduleOf_below_ok hbelow (by simp [hf]) (by simp [hf']) hm).1
  simp only [Context.entry, hf', hm']
  rfl

theorem generate_more_than_reversed :
    ∃ t, (generate "/" clashingFiles.reverse ["c.proto"] {}).result = .ok t ∧
      (generate "/" (userFile "e" :: clashingFiles) ["c.proto"] {}).result = .ok t := by
  obtain ⟨t, ht⟩ :
      ∃ t, (generate "/" clashingFiles.reverse ["c.proto"] {}).result = .ok t := ⟨_, rfl⟩
  exact ⟨t, ht, generate_of_sublist_perm "/" ["c.proto"] {} (by decide +kernel)
    (by decide +kernel) (by decide +kernel) (List.sublist_cons_self _ clashingFiles)
    (List.reverse_perm _) ht⟩

end ProtoStubs
