import ProtoStubs.Proofs.Agreement
import ProtoStubs.Proofs.Tables

/-!
A generation is put together from independent ones. The modules of one run share a context, but
making a module only adds bindings of its own file, and making it again adds none. So each module
comes out as if it were the only one requested. Output paths tell modules apart, and the result has
one entry for each name requested, in the order in which the names first occur.
-/

namespace ProtoStubs

namespace Context

/-- The output path and the text of one module, made by itself. -/
def entry (c : Context) (options : Options) (name : String) : Except Fault (String × String) :=
  match c.file? name with
  | none => .error (.missingDescriptor name)
  | some f => ((Step.moduleOf f options).run c).result.map fun m => (f.outputPath, m.text)

/-- The context `c'` comes from `c` by making modules: each file has the bindings it had, or those
that making its module by itself gives it. -/
structure Visits (options : Options) (c c' : Context) : Prop where
  directory : c'.directory = c.directory
  files : c'.files = c.files
  definitions : c'.definitions = c.definitions
  bindings : ∀ user, c'.bindingsOf user = c.bindingsOf user ∨
    ∃ f m, c.file? user = some f ∧ ((Step.moduleOf f options).run c).result = .ok m ∧
      c'.bindingsOf user = ((Step.moduleOf f options).run c).context.bindingsOf user

variable {c c' : Context} {f : SchemaFile} {options : Options} {name : String}

theorem Visits.refl (options : Options) (c : Context) : c.Visits options c :=
  ⟨rfl, rfl, rfl, fun _ => Or.inl rfl⟩

theorem Visits.file?_eq (h : c.Visits options c') (name : String) :
    c'.file? name = c.file? name := by
  rw [file?, h.files, file?]

theorem Visits.definition?_eq (h : c.Visits options c') (t : String) :
    c'.definition? t = c.definition? t := by
  rw [definition?, h.definitions, definition?]

theorem moduleOf_gains (options : Options) (h : c.file? f.name ≠ none) :
    c.Gains f.name ((Step.moduleOf f options).run c).context := by
  rw [(Step.moduleOf_known options h).1]
  exact Step.meetAll_gains c f.name _

/-- A module comes out as it does by itself, and leaves the bindings that it leaves by itself. -/
theorem Visits.moduleOf_eq (h : c.Visits options c') (hf : c.file? name = some f) :
    ((Step.moduleOf f options).run c').result = ((Step.moduleOf f options).run c).result ∧
      ((Step.moduleOf f options).run c').context.bindingsOf f.name =
        ((Step.moduleOf f options).run c).context.bindingsOf f.name := by
  obtain rfl := file?_name hf
  have hknown : c.file? f.name ≠ none := by simp [hf]
  have hknown' : c'.file? f.name ≠ none := by rw [h.file?_eq]; exact hknown
  rcases h.bindings f.name with hsame | ⟨g, m, hg, hok, hdone⟩
  · have hbelow := Below.of_bindings h.directory h.files h.definitions hsame
    obtain ⟨hresult, hafter⟩ := Step.moduleOf_below hbelow h.definition?_eq hknown hknown'
    exact ⟨hresult, hafter.bindings⟩
  · -- The module was made before: compare with making it a second time by itself.
    obtain rfl : g = f := by simpa [hf] using hg.symm
    have hgains := moduleOf_gains options hknown
    obtain ⟨hagain, hcontext⟩ := Step.moduleOf_again hknown hok
    have hbelow : ((Step.moduleOf g options).run c).context.Below g.name c' :=
      Below.of_bindings (h.directory.trans hgains.directory_eq.symm)
        (h.files.trans hgains.files_eq.symm)
        (h.definitions.trans hgains.definitions_eq.symm) hdone
    have hdefs : ∀ t, c'.definition? t =
        ((Step.moduleOf g options).run c).context.definition? t := by
      intro t
      rw [h.definition?_eq, hgains.definition?_eq]
    obtain ⟨hresult, hafter⟩ := Step.moduleOf_below hbelow hdefs
      (by rw [hgains.file?_eq]; exact hknown) hknown'
    refine ⟨hresult.trans (hagain.trans hok.symm), ?_⟩
    rw [hafter.bindings, hcontext]

theorem Visits.moduleOf {m : Module} (h : c.Visits options c') (hf : c.file? name = some f)
    (hok : ((Step.moduleOf f options).run c).result = .ok m) :
    c.Visits options ((Step.moduleOf f options).run c').context := by
  obtain rfl := file?_name hf
  have hgains : c'.Gains f.name ((Step.moduleOf f options).run c').context :=
    moduleOf_gains options (by rw [h.file?_eq, hf]; simp)
  refine ⟨hgains.directory_eq.trans h.directory, hgains.files_eq.trans h.files,
    hgains.definitions_eq.trans h.definitions, ?_⟩
  intro user
  by_cases huser : user = f.name
  · subst huser
    exact Or.inr ⟨f, m, hf, hok, (h.moduleOf_eq hf).2⟩
  · rw [hgains.bindingsOf_eq huser]
    exact h.bindings user

end Context

namespace Step

open Context

variable {c c' : Context} {options : Options}

def addEntry (c : Context) (options : Options) (made : Table String String) (name : String) :
    Except Fault (Table String String) :=
  (c.entry options name).map fun e => made.put e.1 e.2

theorem run_render_missing {name : String} (made : Table String String) (rest : List String)
    (h : c.file? name = none) :
    (render options made (name :: rest)).run c =
      ⟨⟨.error (.missingDescriptor name), []⟩, c⟩ := by
  have hfile := run_file_missing h
  rw [render, run_bind, run_orFail_error _ (congrArg (·.result) hfile), hfile, after_error _ rfl]

theorem run_render_found {name : String} {f : SchemaFile} (made : Table String String)
    (rest : List String) (h : c.file? name = some f) :
    (render options made (name :: rest)).run c =
      after ((moduleOf f options).run c) fun m => note (.rendered name f.outputPath) >>= fun _ =>
        render options (made.put f.outputPath m.text) rest := by
  have hfile := run_file_found h
  rw [render, run_bind, run_orFail_ok _ (congrArg (·.result) hfile), hfile, after_ok _ rfl]
  rfl

/-- The modules of a run are those that the requested files have by themselves. -/
theorem render_result (h : c.Visits options c') (made : Table String String)
    (names : List String) :
    ((render options made names).run c').result = names.foldlM (addEntry c options) made := by
  induction names generalizing c' made with
  | nil => rfl
  | cons name rest ih =>
    rw [List.foldlM_cons]
    have hfile := h.file?_eq name
    cases hf : c.file? name with
    | none =>
      rw [run_render_missing made rest (hfile.trans hf)]
      simp only [addEntry, entry, hf]
      rfl
    | some f =>
      have hresult := (h.moduleOf_eq hf).1
      rw [run_render_found made rest (hfile.trans hf)]
      cases hr : ((moduleOf f options).run c).result with
      | error fault =>
        rw [after_error _ (hresult.trans hr)]
        simp only [addEntry, entry, hf, hr]
        rfl
      | ok m =>
        rw [after_ok _ (hresult.trans hr), run_bind, run_note, after_ok _ rfl]
        simp only [addEntry, entry, hf, hr]
        exact ih (h.moduleOf hf hr) (made.put f.outputPath m.text)

theorem addEntry_error {made : Table String String} {name : String} {fault : Fault}
    (h : addEntry c options made name = .error fault) :
    c.entry options name = .error fault := by
  exact map_eq_error_iff.mp h

theorem addEntry_ok {made made' : Table String String} {name : String}
    (h : addEntry c options made name = .ok made') :
    ∃ e, c.entry options name = .ok e ∧ made' = made.put e.1 e.2 := by
  obtain ⟨e, he, rfl⟩ := map_eq_ok_iff.mp h
  exact ⟨e, he, rfl⟩

/-- A run fails as its first name that fails by itself. -/
theorem foldlM_addEntry_error {made : Table String String} {names : List String} {fault : Fault}
    (h : names.foldlM (addEntry c options) made = .error fault) :
    ∃ before name rest, names = before ++ name :: rest ∧
      (∀ k ∈ before, ∃ e, c.entry options k = .ok e) ∧ c.entry options name = .error fault := by
  induction names generalizing made with
  | nil => cases h
  | cons name rest ih =>
    rw [List.foldlM_cons] at h
    cases hadd : addEntry c options made name with
    | error fault' =>
      rw [hadd] at h
      cases h
      exact ⟨[], name, rest, rfl, by simp, addEntry_error hadd⟩
    | ok made' =>
      rw [hadd] at h
      obtain ⟨before, name', rest', hsplit, hbefore, hfault⟩ := ih h
      obtain ⟨e, he, _⟩ := addEntry_ok hadd
      refine ⟨name :: before, name', rest', by rw [hsplit]; rfl, ?_, hfault⟩
      intro k hk
      rcases List.mem_cons.mp hk with rfl | hk
      · exact ⟨e, he⟩
      · exact hbefore k hk

/-- A run succeeds alike where more entries can be made. -/
theorem foldlM_addEntry_mono {options' : Options}
    (hentry : ∀ name e, c.entry options name = .ok e → c'.entry options' name = .ok e)
    {made t : Table String String} {names : List String}
    (h : names.foldlM (addEntry c options) made = .ok t) :
    names.foldlM (addEntry c' options') made = .ok t := by
  induction names generalizing made with
  | nil =>
    rw [List.foldlM_nil] at h ⊢
    exact h
  | cons name rest ih =>
    rw [List.foldlM_cons] at h ⊢
    cases hadd : addEntry c options made name with
    | error fault =>
      rw [hadd] at h
      cases h
    | ok made' =>
      rw [hadd] at h
      obtain ⟨e, he, rfl⟩ := addEntry_ok hadd
      have hadd' : addEntry c' options' made name = .ok (made.put e.1 e.2) := by
        rw [addEntry, hentry name e he]
        rfl
      rw [hadd']
      exact ih h

end Step

namespace Context

variable {c : Context} {options : Options} {name name' : String} {e e' : String × String}

theorem entry_ok (h : c.entry options name = .ok e) :
    ∃ f m, c.file? name = some f ∧ ((Step.moduleOf f options).run c).result = .ok m ∧
      e = (f.outputPath, m.text) := by
  unfold entry at h
  cases hf : c.file? name with
  | none => simp [hf] at h
  | some f =>
    rw [hf] at h
    obtain ⟨m, hm, rfl⟩ := Step.map_eq_ok_iff.mp h
    exact ⟨f, m, rfl, hm, rfl⟩

/-- Entries of names are the texts of modules of the files with these names. -/
theorem exists_modules_of_entries {names : List String} {entries : List (String × String)}
    (h : names.map (c.entry options) = entries.map Except.ok) :
    ∃ made : List (SchemaFile × Module), made.map (·.1.name) = names ∧
      (∀ e ∈ made, e.1 ∈ c.files ∧ ((Step.moduleOf e.1 options).run c).result = .ok e.2) ∧
      entries = made.map fun e => (e.1.outputPath, e.2.text) := by
  induction names generalizing entries with
  | nil =>
    obtain rfl : entries = [] := by simpa using h.symm
    exact ⟨[], rfl, by simp, rfl⟩
  | cons name rest ih =>
    cases entries with
    | nil => simp at h
    | cons e entries =>
      rw [List.map_cons, List.map_cons, List.cons.injEq] at h
      obtain ⟨made, hnames, hmade, rfl⟩ := ih h.2
      obtain ⟨f, m, hf, hm, rfl⟩ := entry_ok h.1
      refine ⟨(f, m) :: made, ?_, ?_, rfl⟩
      · rw [List.map_cons, file?_name hf, hnames]
      · exact List.forall_mem_cons.mpr ⟨⟨mem_of_file? hf, hm⟩, hmade⟩

theorem Orderly.eq_of_outputPath {f g : SchemaFile} (h : c.Orderly) (hf : f ∈ c.files)
    (hg : g ∈ c.files) (hpath : f.outputPath = g.outputPath) : f = g := by
  have hmodule : f.modulePath = g.modulePath := by
    simpa [SchemaFile.outputPath] using hpath
  exact List.inj_on_of_nodup_map h.paths hf hg hmodule

/-- The output path of an entry tells which name it is for. -/
theorem Orderly.name_eq_of_entry (h : c.Orderly) (he : c.entry options name = .ok e)
    (he' : c.entry options name' = .ok e') (hpath : e.1 = e'.1) : name = name' := by
  obtain ⟨f, m, hf, _, rfl⟩ := entry_ok he
  obtain ⟨g, m', hg, _, rfl⟩ := entry_ok he'
  have hsame := h.eq_of_outputPath (mem_of_file? hf) (mem_of_file? hg) hpath
  rw [← file?_name hf, ← file?_name hg, hsame]

end Context

namespace Step

open Context

variable {c : Context} {options : Options}

/-- The entries of a run are those of the names seen so far, each at its first place. -/
theorem foldlM_addEntry_ok (hc : c.Orderly) {made t : Table String String}
    {done names : List String}
    (hmade : done.eraseDups.map (c.entry options) = made.entries.map Except.ok)
    (h : names.foldlM (addEntry c options) made = .ok t) :
    (done ++ names).eraseDups.map (c.entry options) = t.entries.map Except.ok := by
  induction names generalizing made done with
  | nil =>
    cases h
    rwa [List.append_nil]
  | cons name rest ih =>
    rw [List.foldlM_cons] at h
    cases hadd : addEntry c options made name with
    | error fault =>
      rw [hadd] at h
      cases h
    | ok made' =>
      rw [hadd] at h
      obtain ⟨e, he, rfl⟩ := addEntry_ok hadd
      rw [List.append_cons]
      refine ih ?_ h
      -- An entry with the path of this one is an entry of this name.
      have hname : ∀ e' ∈ made.entries, e'.1 = e.1 → name ∈ done ∧ e' = e := by
        intro e' he' hpath
        have hmem := List.mem_map_of_mem (f := Except.ok (ε := Fault)) he'
        rw [← hmade] at hmem
        obtain ⟨name', hdone, hentry⟩ := List.mem_map.mp hmem
        obtain rfl := hc.name_eq_of_entry hentry he hpath
        exact ⟨List.mem_eraseDups.mp hdone, Except.ok.inj (hentry.symm.trans he)⟩
      rw [eraseDups_append_singleton]
      by_cases hdone : name ∈ done
      · have hmem : Except.ok e ∈ made.entries.map (Except.ok (ε := Fault)) := by
          rw [← hmade, ← he]
          exact List.mem_map_of_mem (List.mem_eraseDups.mpr hdone)
        have hold : (e.1, e.2) ∈ made.entries := by simpa using hmem
        have hput := Table.putEntry_of_mem hold fun e' he' hpath => (hname e' he' hpath).2
        rw [if_pos hdone, hmade]
        exact congrArg (List.map Except.ok) hput.symm
      · have hnew : ∀ e' ∈ made.entries, e'.1 ≠ e.1 :=
          fun e' he' hpath => hdone (hname e' he' hpath).1
        have hput := Table.putEntry_of_forall_ne (v := e.2) hnew
        rw [if_neg hdone, List.map_append, hmade, Table.put, hput, List.map_append]
        simp [he]

end Step

section Generation

variable {directory : String} {files : List SchemaFile} {requested : List String}
variable {options : Options}

theorem generate_eq (directory : String) (files : List SchemaFile) (requested : List String)
    (options : Options) :
    generate directory files requested options =
      (Step.after ((Step.registerAll files).run { directory := directory })
        fun _ => Step.render options {} requested).toLogged := rfl

theorem generate_eq_foldlM
    (hfiles : ((Step.registerAll files).start directory).result = .ok ()) :
    (generate directory files requested options).result =
      requested.foldlM (Step.addEntry (registered directory files) options) {} := by
  have hok : ((Step.registerAll files).run { directory := directory }).result = .ok () := hfiles
  rw [generate_eq, Step.after_ok _ hok]
  exact Step.render_result (Context.Visits.refl options (registered directory files)) {} requested

theorem registerAll_of_generate {t : Table String String}
    (h : (generate directory files requested options).result = .ok t) :
    ((Step.registerAll files).start directory).result = .ok () := by
  cases hr : ((Step.registerAll files).run { directory := directory }).result with
  | error fault =>
    rw [generate_eq, Step.after_error _ hr] at h
    cases h
  | ok _ => exact hr

/-- The entries of a generation are those of the names by themselves. -/
theorem generate_entries {t : Table String String}
    (hfiles : ((Step.registerAll files).start directory).result = .ok ())
    (hok : (generate directory files requested options).result = .ok t) :
    requested.eraseDups.map ((registered directory files).entry options) =
      t.entries.map Except.ok := by
  have hstart : ([] : List String).eraseDups.map ((registered directory files).entry options) =
      ({} : Table String String).entries.map Except.ok := rfl
  rw [generate_eq_foldlM hfiles] at hok
  exact Step.foldlM_addEntry_ok (registered_orderly directory files) hstart hok

/-- A generation that succeeds makes the modules of the files requested, each once. -/
theorem exists_modules_of_generate {t : Table String String}
    (h : (generate directory files requested options).result = .ok t) :
    ∃ made : List (SchemaFile × Module), made.map (·.1.name) = requested.eraseDups ∧
      (∀ e ∈ made, e.1 ∈ (registered directory files).files ∧
        ((Step.moduleOf e.1 options).run (registered directory files)).result = .ok e.2) ∧
      t.entries = made.map fun e => (e.1.outputPath, e.2.text) :=
  Context.exists_modules_of_entries (generate_entries (registerAll_of_generate h) h)

/-- What is requested of a generation that succeeds is among its entries. -/
theorem exists_entry {t : Table String String} {u : String}
    (hok : (generate directory files requested options).result = .ok t) (hu : u ∈ requested) :
    ∃ e ∈ t.entries, (registered directory files).entry options u = .ok e := by
  have hmem := List.mem_map_of_mem (f := (registered directory files).entry options)
    (List.mem_eraseDups.mpr hu)
  rw [generate_entries (registerAll_of_generate hok) hok] at hmem
  obtain ⟨e, he, hentry⟩ := List.mem_map.mp hmem
  exact ⟨e, he, hentry.symm⟩

theorem generate_single
    (hfiles : ((Step.registerAll files).start directory).result = .ok ()) (name : String) :
    (generate directory files [name] options).result =
      ((registered directory files).entry options name).map fun e => ⟨[e]⟩ := by
  rw [generate_eq_foldlM hfiles, List.foldlM_cons]
  cases he : (registered directory files).entry options name with
  | error fault =>
    simp only [Step.addEntry, he]
    rfl
  | ok e =>
    simp only [Step.addEntry, he]
    rfl

theorem generate_single_ok_iff
    (hfiles : ((Step.registerAll files).start directory).result = .ok ()) (name : String) :
    (∃ t, (generate directory files [name] options).result = .ok t) ↔
      ∃ e, (registered directory files).entry options name = .ok e := by
  rw [generate_single hfiles]
  cases (registered directory files).entry options name <;> simp [Except.map]

/-- Once its files are registered, a generation succeeds exactly if each requested name does by
itself. Its entries are then the entries of the names by themselves, in the order in which the names
first occur; otherwise it fails as the first name that fails by itself. -/
theorem generate_composes (directory : String) (files : List SchemaFile)
    (requested : List String) (options : Options)
    (hfiles : ((Step.registerAll files).start directory).result = .ok ()) :
    ((∃ t, (generate directory files requested options).result = .ok t) ↔
      ∀ n ∈ requested, ∃ t, (generate directory files [n] options).result = .ok t) ∧
    (∀ t, (generate directory files requested options).result = .ok t →
      requested.eraseDups.map (fun n => (generate directory files [n] options).result) =
        t.entries.map fun e => .ok ⟨[e]⟩) ∧
    (∀ fault, (generate directory files requested options).result = .error fault →
      ∃ before n after, requested = before ++ n :: after ∧
        (∀ k ∈ before, ∃ t, (generate directory files [k] options).result = .ok t) ∧
        (generate directory files [n] options).result = .error fault) := by
  have hfault : ∀ fault, (generate directory files requested options).result = .error fault →
      ∃ before n after, requested = before ++ n :: after ∧
        (∀ k ∈ before, ∃ t, (generate directory files [k] options).result = .ok t) ∧
        (generate directory files [n] options).result = .error fault := by
    intro fault hfail
    obtain ⟨before, n, after, hsplit, hbefore, hn⟩ :=
      Step.foldlM_addEntry_error ((generate_eq_foldlM hfiles).symm.trans hfail)
    refine ⟨before, n, after, hsplit, ?_, ?_⟩
    · intro k hk
      exact (generate_single_ok_iff hfiles k).mpr (hbefore k hk)
    · rw [generate_single hfiles, hn]
      rfl
  refine ⟨⟨?_, ?_⟩, ?_, hfault⟩
  · rintro ⟨t, ht⟩ n hn
    obtain ⟨e, _, he⟩ := exists_entry ht hn
    exact (generate_single_ok_iff hfiles n).mpr ⟨e, he⟩
  · intro hall
    cases hr : (generate directory files requested options).result with
    | ok t => exact ⟨t, rfl⟩
    | error fault =>
      obtain ⟨before, n, after, hsplit, _, hn⟩ := hfault fault hr
      obtain ⟨t, ht⟩ := hall n (by simp [hsplit])
      rw [hn] at ht
      cases ht
  · intro t ht
    have hsingle : (fun n => (generate directory files [n] options).result) =
        Except.map (fun e => ⟨[e]⟩) ∘ (registered directory files).entry options := by
      funext n
      exact generate_single hfiles n
    rw [hsingle, ← List.map_map, generate_entries hfiles ht, List.map_map]
    rfl

theorem generate_composes_of_clashes :
    ((Step.registerAll clashingFiles).start "/").result = .ok () ∧
    ∃ t, (generate "/" clashingFiles ["c.proto", "a.proto", "c.proto"] {}).result = .ok t ∧
      ["c.proto", "a.proto"].map (fun n => (generate "/" clashingFiles [n] {}).result) =
        t.entries.map fun e => .ok ⟨[e]⟩ := by
  have hfiles : ((Step.registerAll clashingFiles).start "/").result = .ok () := by decide +kernel
  have hcompose := generate_composes "/" clashingFiles ["c.proto", "a.proto", "c.proto"] {} hfiles
  obtain ⟨t, ht⟩ : ∃ t,
      (generate "/" clashingFiles ["c.proto", "a.proto", "c.proto"] {}).result = .ok t := ⟨_, rfl⟩
  have hdups : ["c.proto", "a.proto", "c.proto"].eraseDups = ["c.proto", "a.proto"] := by decide
  exact ⟨hfiles, t, ht, hdups ▸ hcompose.2.1 t ht⟩

end Generation

end ProtoStubs
