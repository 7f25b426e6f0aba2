import ProtoStubs.Plugin
import ProtoStubs.Proofs.InputFiles
import ProtoStubs.Proofs.OutputPaths
import ProtoStubs.Proofs.PrintedOptions
import ProtoStubs.Proofs.Writing

/-!
The command and the plugin make the same of the same schema files. Both generate everything before
anything is told or written, so a run of the command that fails leaves the disk as it was; otherwise
it writes below its output directory what the plugin answers, and no other file.
-/

namespace ProtoStubs.CommandLine

open Disk

variable {directory out : String}

namespace Job

variable {p q : String}

theorem startOf_target (hp : Path.isAbsolute p = false) :
    startOf directory (target out p) = startOf directory out := by
  rw [startOf, startOf, isAbsolute_target hp]

theorem placeOf_target (hp : Path.isAbsolute p = false) (hdots : ".." ∉ Path.components p) :
    placeOf directory (target out p) =
      lead (startOf directory out) (Path.components out) ++ Path.components p := by
  rw [placeOf, startOf_target hp, components_target hp, lead_append, lead_of_down hdots]

theorem mem_around_target {place : Place} (hp : Path.isAbsolute p = false)
    (hne : Path.components p ≠ []) :
    place ∈ around directory (target out p) ↔ place ∈
      way (startOf directory out) (Path.components out ++ (Path.components p).dropLast) := by
  rw [around, startOf_target hp, components_target hp, List.dropLast_append_of_ne_nil hne]

/-- A file below a directory is not on the way to another, unless its name is, or it is already on
the way to the directory and so on its own way. -/
theorem placeOf_target_notMem_around
    (hp : Path.isAbsolute p = false) (hp' : ".." ∉ Path.components p)
    (hpne : Path.components p ≠ [])
    (hq : Path.isAbsolute q = false) (hq' : ".." ∉ Path.components q)
    (hqne : Path.components q ≠ [])
    (houtside : placeOf directory (target out p) ∉ around directory (target out p))
    (hpq : ¬ Path.components p <+: Path.components q) :
    placeOf directory (target out p) ∉ around directory (target out q) := by
  intro hmem
  obtain ⟨before, hb, hlead⟩ := mem_way.mp ((mem_around_target hq hqne).mp hmem)
  rcases List.prefix_or_prefix_of_prefix hb (List.prefix_append _ _) with hb | ⟨rest, rfl⟩
  · apply houtside
    rw [← hlead, mem_around_target hp hpne]
    exact mem_way.mpr ⟨before, hb.trans (List.prefix_append _ _), rfl⟩
  · have hrest := (List.prefix_append_right_inj _).mp hb
    have hrestdots : ".." ∉ rest :=
      fun hmem => hq' (List.mem_of_mem_dropLast (hrest.subset hmem))
    rw [lead_append, lead_of_down hrestdots, placeOf_target hp hp', List.append_cancel_left_eq]
      at hlead
    rw [← hlead] at hpq
    exact hpq (hrest.trans (List.dropLast_prefix _))

end Job

section Generated

variable {files : List SchemaFile} {requested : List String} {options : Options}
variable {t : Table String String} {d : Disk}

theorem outputs_ne_nil (out : String)
    (h : (generate directory files requested options).result = .ok t) (hne : requested ≠ []) :
    Job.outputs out t ≠ [] := by
  intro hnil
  have hentries := generate_entries (registerAll_of_generate h) h
  obtain ⟨name, rest, rfl⟩ := List.exists_cons_of_ne_nil hne
  rw [List.map_eq_nil_iff.mp hnil, List.eraseDups_cons] at hentries
  simp at hentries

variable (hplain : ∀ f ∈ files, '/' ∉ f.package.toList)
  (h : (generate directory files requested options).result = .ok t)

include hplain h

/-- The files of one generation do not stand in each other's way. -/
theorem outputs_apart (hclear : ∀ e ∈ Job.outputs out t, d.Clear directory e.1) :
    (Job.outputs out t).Pairwise fun a b => Apart directory a.1 b.1 := by
  have hclear' : ∀ e ∈ t.entries, d.Clear directory (Job.target out e.1) :=
    fun e he => hclear (Job.target out e.1, e.2 ++ "\n") (List.mem_map.mpr ⟨e, he, rfl⟩)
  rw [Job.outputs, List.pairwise_map]
  refine (pairwise_entries hplain h).imp_of_mem fun {a b} ha hb ⟨hab, hba⟩ => ?_
  obtain ⟨ha₁, ha₂, ha₃, _⟩ := outputPath_of_mem_entries hplain h ha
  obtain ⟨hb₁, hb₂, hb₃, _⟩ := outputPath_of_mem_entries hplain h hb
  simp only
  refine ⟨?_, ?_, fun heq => hba ?_⟩
  · exact Job.placeOf_target_notMem_around ha₁ ha₂ ha₃ hb₁ hb₂ hb₃ (hclear' a ha).outside hab
  · exact Job.placeOf_target_notMem_around hb₁ hb₂ hb₃ ha₁ ha₂ ha₃ (hclear' b hb).outside hba
  · rw [Job.placeOf_target ha₁ ha₂, Job.placeOf_target hb₁ hb₂, List.append_cancel_left_eq] at heq
    rw [heq]

theorem relative_outputs (out : String) (hd : Path.isAbsolute directory = true) :
    (Job.outputs out t).map (fun e => (Path.relative directory out e.1, e.2)) =
      t.entries.map fun e => (e.1, e.2 ++ "\n") := by
  rw [Job.outputs, List.map_map]
  refine List.map_congr_left fun e he => ?_
  obtain ⟨hrelative, hdots, _, hnormal⟩ := outputPath_of_mem_entries hplain h he
  simp only [Function.comp_apply]
  rw [Job.relative_target hd hrelative hdots, hnormal]

end Generated

theorem compile_of_plan {disk : Disk} {arguments : List String} {job : Job}
    (h : plan directory disk arguments = .compile job) :
    job.directory = directory ∧ job.names ≠ [] := by
  cases hparse : Arguments.parse arguments with
  | error e => cases e <;> simp [plan, hparse] at h
  | ok a =>
    cases hproto : a.proto with
    | none => simp [plan, hparse, hproto] at h
    | some path =>
      by_cases hinputs : inputs disk directory path = []
      · rw [plan_eq hparse hproto, hinputs, List.isEmpty_nil, if_pos rfl] at h
        cases h
      · rcases plan_cases hparse hproto hinputs with ⟨names, hne, hplan, _⟩ | ⟨_, _, _, _, hplan, _⟩
        · rw [hplan] at h
          cases h
          exact ⟨rfl, hne⟩
        · rw [hplan] at h
          cases h

/-- A run that fails before anything is written leaves the disk as it was. -/
theorem Job.complete_of_error {job : Job} {compiled : Compilation} {fault : Fault} (disk : Disk)
    (h : (job.generated compiled).result = .error fault) :
    job.complete disk compiled =
      { Report.ofFault disk fault with
        stderr :=
          job.log (job.generated compiled).notes ++ (Report.ofFault disk fault).stderr } := by
  simp [complete, h]

/-- A run whose files can all be written lists them. -/
theorem Job.complete_of_writeAll {job : Job} {compiled : Compilation} {t : Table String String}
    {disk disk' : Disk} (h : (job.generated compiled).result = .ok t)
    (hout : job.arguments.out = some out)
    (hwrite : disk.writeAll job.directory (outputs out t) = ⟨disk', outputs out t, none⟩) :
    job.complete disk compiled =
      { status := .ok 0
        stdout := listing (outputs out t)
        stderr := job.log (job.generated compiled).notes
        written := outputs out t
        disk := disk' } := by
  simp [complete, h, hout, hwrite]

/-- What the plugin makes of a parameter that can be read. -/
theorem respond_of_parse {parameter : String} {options : Options} (names : List String)
    (files : List SchemaFile) (h : Options.parse parameter = .ok options) :
    Plugin.respond directory ⟨names, parameter, files⟩ =
      match (generate directory files names options).result with
      | .ok t => .ok { files := t.entries.map fun e => (e.1, e.2 ++ "\n") }
      | .error fault =>
          if fault.isDiagnosed then .ok { error := some fault.message } else .error fault := by
  cases hmade : (generate directory files names options).result <;>
    simp [Plugin.respond, Plugin.answer, h, hmade, bind, Except.bind, pure, Except.pure]

theorem parse_parameter {o : Options} {path : String} (hpath : o.helper = some path)
    (hne : path ≠ "") (hcomma : ',' ∉ path.toList) (htrim : Text.trim path = path) :
    Options.parse ("role=" ++ o.role.name ++ ",webapi_path=" ++ path ++
      (if o.strict then ",strict" else "")) = .ok o := by
  have htext : "role=" ++ o.role.name ++ ",webapi_path=" ++ path ++
      (if o.strict then ",strict" else "") =
        ",".intercalate (Options.printed o.role path o.strict) := by
    apply String.toList_inj.mp
    cases o.strict <;> simp [Options.printed]
  rw [htext, Options.parse_printed _ _ hne hcomma htrim, ← hpath]

/-- The command and the plugin agree. Where the plugin fails without an answer, the command fails in
the same way; where it answers with an error, the command tells that error and fails; and neither
leaves anything behind. Otherwise the command writes below its output directory the files of the
answer in their order, lists them, and changes nothing else but for making directories. -/
theorem command_agrees_with_plugin (directory : String) (disk : Disk) (arguments : List String)
    (output : String) (bytes : Wire.Bytes) (job : Job) (set : DescriptorSet) (out path : String)
    (hd : Path.isAbsolute directory = true)
    (hplan : plan directory disk arguments = .compile job)
    (hset : DescriptorSet.ofBytes bytes = some set)
    (hplain : ∀ f ∈ set.files, '/' ∉ f.package.toList)
    (hout : job.arguments.out = some out)
    (hpath : job.arguments.options.helper = some path)
    (hne : path ≠ "") (hcomma : ',' ∉ path.toList) (htrim : Text.trim path = path)
    (hclear : ∀ p ∈ job.targets (.finished bytes), disk.Clear directory p) :
    let options := job.arguments.options
    let parameter := "role=" ++ options.role.name ++ ",webapi_path=" ++ path ++
      (if options.strict then ",strict" else "")
    let report := run directory disk output (.finished bytes) arguments
    match Plugin.respond directory ⟨job.names, parameter, set.files⟩ with
    | .error fault => report.status = .error fault ∧ report.written = [] ∧ report.disk = disk
    | .ok response =>
        (∀ e, response.error = some e ↔ report.status = .ok 1 ∧
          report.stderr =
            job.log (job.generated (.finished bytes)).notes ++ "FATAL: " ++ e ++ "\n") ∧
        (response.error.isSome → report.written = [] ∧ report.disk = disk) ∧
        (response.error = none →
          report.status = .ok 0 ∧
          report.written.map (fun e => (Path.relative directory out e.1, e.2)) = response.files ∧
          report.stdout = "Generated:\n" ++ "\n".intercalate (report.written.map (·.1)) ++ "\n" ∧
          (∀ e ∈ report.written,
            report.disk.get? (Disk.placeOf directory e.1) = some (.file e.2)) ∧
          ∀ place, place ∉ report.written.map (fun e => Disk.placeOf directory e.1) →
            report.disk.get? place = disk.get? place ∨
              disk.get? place = none ∧ report.disk.get? place = some .directory) := by
  intro options parameter report
  obtain ⟨hdirectory, hnames⟩ := compile_of_plan hplan
  have hreport : report =
      { job.complete disk (.finished bytes) with commands := [job.command output] } := by
    simp only [report, run, hplan]
  have hgenerated : job.generated (.finished bytes) =
      generate directory set.files job.names options := by
    simp only [Job.generated, hset, hdirectory, options]
  have hparse : Options.parse parameter = .ok options :=
    parse_parameter hpath hne hcomma htrim
  rw [respond_of_parse job.names set.files hparse, ← hgenerated]
  cases hresult : (job.generated (.finished bytes)).result with
  | error fault =>
    rw [hreport, Job.complete_of_error disk hresult, Report.ofFault]
    by_cases hfault : fault.isDiagnosed
    · simp [hfault, String.append_assoc]
    · simp [hfault]
  | ok t =>
    -- every fault of the generator comes before the first write, so from here on all is written
    have hclear' : ∀ e ∈ Job.outputs out t, disk.Clear directory e.1 := fun e he => by
      apply hclear
      simp only [Job.targets, hresult, hout]
      exact List.mem_map_of_mem he
    rw [hgenerated] at hresult
    have hlisted := outputs_ne_nil out hresult hnames
    obtain ⟨disk', hwrite, htexts, hother⟩ :=
      Disk.writeAll_of_clear hclear' (outputs_apart hplain hresult hclear')
    have hfiles := relative_outputs hplain hresult out hd
    rw [← hgenerated] at hresult
    rw [hreport, Job.complete_of_writeAll hresult hout (hdirectory ▸ hwrite)]
    refine ⟨by simp, by simp, fun _ => ⟨rfl, hfiles, ?_, htexts, fun place hplace => ?_⟩⟩
    · simp [listing, hlisted]
    · rw [hother place hplace]
      refine paved_cases (fun p hp => ?_) place
      obtain ⟨e, he, hp⟩ := List.mem_flatMap.mp hp
      exact (hclear' e he).noFile p hp

def Plan.job? : Plan → Option Job
  | .done _ => none
  | .compile job => some job

theorem Plan.eq_compile (p : Plan) (h : p.job?.isSome) :
    ∃ job, p = .compile job ∧ p.job? = some job := by
  cases p with
  | done r => cases h
  | compile job => exact ⟨job, rfl, rfl⟩

def shopSet : DescriptorSet :=
  { files := [{ name := "shop.proto", package := "a.b", messages := [{ name := "Cart" }] }] }

def shopDisk : Disk := .plant "/work" ["shop.proto", "old/", "gen/a/notes.txt"]

def shopArguments : List String :=
  ["--proto", "shop.proto", "--out=old/../gen", "--server", "--strict", "--webapi-path", "x = y"]

theorem shopSet_command_agrees :
    ∃ job set response, plan "/work" shopDisk shopArguments = .compile job ∧
      DescriptorSet.ofBytes shopSet.toBytes = some set ∧
      Plugin.respond "/work" ⟨job.names, "role=server,webapi_path=x = y,strict", set.files⟩ =
        .ok response ∧
      response.error = none ∧
      let report := run "/work" shopDisk "set" (.finished shopSet.toBytes) shopArguments
      report.status = .ok 0 ∧
      report.written.map (fun e => (Path.relative "/work" "old/../gen" e.1, e.2)) =
        response.files ∧
      report.written.map (·.1) = ["old/../gen/a/b/shop.ts"] := by
  obtain ⟨job, hplan, hjob⟩ := (plan "/work" shopDisk shopArguments).eq_compile (by decide +kernel)
  obtain ⟨set, hset⟩ := Option.isSome_iff_exists.mp
    (show (DescriptorSet.ofBytes shopSet.toBytes).isSome = true by decide +kernel)
  have harguments : ((plan "/work" shopDisk shopArguments).job?.map (·.arguments)) =
      some ⟨some "shop.proto", some "old/../gen", ⟨.server, some "x = y", true⟩, [], false⟩ := by
    decide +kernel
  have hclear : ∀ job ∈ (plan "/work" shopDisk shopArguments).job?,
      ∀ p ∈ job.targets (.finished shopSet.toBytes), shopDisk.Clear "/work" p := by decide +kernel
  have hplain : ∀ set ∈ DescriptorSet.ofBytes shopSet.toBytes,
      ∀ f ∈ set.files, '/' ∉ f.package.toList := by decide +kernel
  have hfine : ∀ job ∈ (plan "/work" shopDisk shopArguments).job?,
      ∀ set ∈ DescriptorSet.ofBytes shopSet.toBytes,
      ((Plugin.respond "/work" ⟨job.names, "role=server,webapi_path=x = y,strict", set.files⟩).map
        (·.error)).toOption = some none := by decide +kernel
  have hwritten : (run "/work" shopDisk "set" (.finished shopSet.toBytes) shopArguments).written.map
      (·.1) = ["old/../gen/a/b/shop.ts"] := by decide +kernel
  rw [hjob, Option.map_some, Option.some.injEq] at harguments
  have hagrees := command_agrees_with_plugin "/work" shopDisk shopArguments "set" shopSet.toBytes
    job set "old/../gen" "x = y" (by decide) hplan hset (hplain set hset) (by rw [harguments])
    (by rw [harguments]) (by decide) (by decide) (by decide +kernel) (hclear job hjob)
  have hresponse := hfine job hjob set hset
  simp only [harguments, if_true] at hagrees
  cases hrespond : Plugin.respond "/work"
      ⟨job.names, "role=server,webapi_path=x = y,strict", set.files⟩ with
  | error fault =>
    rw [hrespond] at hresponse
    cases hresponse
  | ok response =>
    rw [hrespond] at hresponse
    have herror : response.error = none := by simpa [Except.map, Except.toOption] using hresponse
    have htext : "role=" ++ Role.server.name ++ ",webapi_path=" ++ "x = y" ++ ",strict" =
        "role=server,webapi_path=x = y,strict" := by decide +kernel
    rw [htext, hrespond] at hagrees
    obtain ⟨hstatus, hfiles, _⟩ := hagrees.2.2 herror
    exact ⟨job, set, response, hplan, hset, hrespond, herror, hstatus, hfiles, hwritten⟩

end ProtoStubs.CommandLine
