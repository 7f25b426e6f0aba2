import ProtoStubs.Proofs.Demands
import ProtoStubs.Proofs.Registration
import ProtoStubs.Transcript

/-!
What happens in a session. Files are registered and types are resolved, inside calls of all kinds
and also in calls that fail later on. A session leaves the context that its registrations and
resolutions lead to one after another, so an invariant need only be shown for these.
-/

namespace ProtoStubs

inductive Event where
  | registered (name : String)
  | resolved (user typeName symbol : String)
deriving Repr, DecidableEq

def Event.resolvedFor? (user : String) : Event → Option String
  | .registered _ => none
  | .resolved asking typeName _ => if asking = user then some typeName else none

def resolvedTypes (user : String) (es : List Event) : List String :=
  es.filterMap (Event.resolvedFor? user)

theorem mem_resolvedTypes {user t : String} {es : List Event} :
    t ∈ resolvedTypes user es ↔ ∃ s, .resolved user t s ∈ es := by
  rw [resolvedTypes, List.mem_filterMap]
  constructor
  · rintro ⟨e, he, hfor⟩
    cases e with
    | registered name => simp [Event.resolvedFor?] at hfor
    | resolved asking typeName symbol =>
      obtain ⟨rfl, rfl⟩ : asking = user ∧ typeName = t := by simpa [Event.resolvedFor?] using hfor
      exact ⟨symbol, he⟩
  · rintro ⟨s, hs⟩
    exact ⟨_, hs, by simp [Event.resolvedFor?]⟩

namespace Step

/-- A file that is known is not registered once more. -/
def registrations (f : SchemaFile) (c : Context) : List Event :=
  match c.file? f.name, ((register f).run c).result with
  | none, .ok _ => [.registered f.name]
  | _, _ => []

/-- The resolutions that succeed while demands are met, up to the first that is refused. -/
def resolutions (user : String) : List Demand → Context → List Event
  | [], _ => []
  | .note _ :: rest, c => resolutions user rest c
  | .refuse _ :: _, _ => []
  | .type t :: rest, c =>
      match ((resolve t user).run c).result with
      | .ok s => .resolved user t s :: resolutions user rest ((resolve t user).run c).context
      | .error _ => []

def moduleEvents (f : SchemaFile) (options : Options) (c : Context) : List Event :=
  registrations f c ++
    match ((register f).run c).result with
    | .ok _ => resolutions f.name (f.demands options) ((register f).run c).context
    | .error _ => []

end Step

open Step in
def Call.events : Call → Context → List Event
  | .register f, c => registrations f c
  | .file _, _ => []
  | .resolve typeName user, c => resolutions user [.type typeName] c
  | .imports _, _ => []
  | .module f options, c => moduleEvents f options c
  | .moduleNamed name options, c =>
      match c.file? name with
      | some f => moduleEvents f options c
      | none => []
  | .fieldType f index user strict, c =>
      resolutions user ((f.type index).references.map (Reference.demand strict user)) c
  | .messages ms package user outer scope strict, c =>
      resolutions user
        ((Message.outlines package outer scope ms).flatMap (Item.demands strict user)) c
  | .service s package user role, c =>
      resolutions user ((s.outline package role).flatMap (Item.demands false user)) c

def contextAfter (c : Context) : List Call → Context
  | [] => c
  | call :: rest => contextAfter (call.perform.run c).context rest

def eventsOf (c : Context) : List Call → List Event
  | [] => []
  | call :: rest => call.events c ++ eventsOf (call.perform.run c).context rest

theorem transcript_append (c : Context) (calls more : List Call) :
    transcript c (calls ++ more) =
      transcript c calls ++ transcript (contextAfter c calls) more := by
  induction calls generalizing c with
  | nil => rfl
  | cons call rest ih => simp only [List.cons_append, transcript, contextAfter, ih]

namespace Context

/-- The events lead from one context to the other. A resolution that is refused is no event, but
it may have left a binding. -/
inductive Runs (c : Context) : List Event → Context → Prop
  | start : Runs c [] c
  | registered {es : List Event} {c' : Context} {f : SchemaFile} (h : Runs c es c')
      (hf : c'.Admits f) : Runs c (es ++ [Event.registered f.name]) (c'.enroll f)
  | resolved {es : List Event} {c' : Context} {user t s : String} (h : Runs c es c')
      (hs : ((Step.resolve t user).run c').result = .ok s) :
      Runs c (es ++ [Event.resolved user t s]) ((Step.resolve t user).run c').context
  | refused {es : List Event} {c' : Context} {user t : String} {fault : Fault} (h : Runs c es c')
      (hs : ((Step.resolve t user).run c').result = .error fault) :
      Runs c es ((Step.resolve t user).run c').context

theorem Runs.trans {c c' c'' : Context} {es es' : List Event} (h : c.Runs es c')
    (h' : c'.Runs es' c'') : c.Runs (es ++ es') c'' := by
  induction h' with
  | start => rwa [List.append_nil]
  | registered _ hf ih =>
    rw [← List.append_assoc]
    exact ih.registered hf
  | resolved _ hs ih =>
    rw [← List.append_assoc]
    exact ih.resolved hs
  | refused _ hs ih => exact ih.refused hs

end Context

namespace Step

open Context

variable {α β : Type} {user : String} {ds : List Demand}

theorem registrations_runs (f : SchemaFile) (c : Context) :
    c.Runs (registrations f c) ((register f).run c).context := by
  by_cases hname : c.file? f.name = none
  · by_cases hadmits : c.Admits f
    · obtain ⟨hok, hcontext⟩ := register_admits hadmits
      rw [registrations, hname, hok, hcontext]
      exact Runs.start.registered hadmits
    · obtain ⟨g, _, _, hrun⟩ := register_collides hname hadmits
      rw [registrations, hname, hrun]
      exact Runs.start
  · obtain ⟨g, hg⟩ := Option.ne_none_iff_exists'.mp hname
    rw [registrations, register_known hname, hg]
    exact Runs.start

theorem resolutions_runs (user : String) (ds : List Demand) (c : Context) :
    c.Runs (resolutions user ds c) ((meetAll user ds).run c).context := by
  induction ds generalizing c with
  | nil => exact Runs.start
  | cons d rest ih =>
    cases d with
    | type t =>
      rw [resolutions]
      cases hr : ((resolve t user).run c).result with
      | error fault =>
        rw [(meetAll_refused rest hr).2]
        exact Runs.start.refused hr
      | ok s =>
        rw [(meetAll_resolved rest hr).2]
        exact (Runs.start.resolved hr).trans (ih _)
    | note n =>
      rw [(meetAll_note n rest).2]
      exact ih c
    | refuse fault => exact Runs.start

theorem context_bind_pure (step : Step α) (g : α → β) (c : Context) :
    ((step >>= fun a => pure (g a)).run c).context = (step.run c).context := by
  rw [run_bind]
  cases hr : (step.run c).result with
  | error fault => rw [after_error _ hr]
  | ok a => rw [after_ok _ hr, run_pure]

theorem result_bind_pure (step : Step α) (g : α → β) (c : Context) :
    ((step >>= fun a => pure (g a)).run c).result = (step.run c).result.map g := by
  rw [run_bind]
  cases hr : (step.run c).result with
  | error fault =>
    rw [after_error _ hr]
    rfl
  | ok a =>
    rw [after_ok _ hr]
    rfl

theorem Reads.context_eq {step : Step α} {g : Context → α} (h : Reads user step ds g)
    (c : Context) : (step.run c).context = ((meetAll user ds).run c).context := by
  rw [h.eq, run_bind]
  cases hr : ((meetAll user ds).run c).result with
  | error fault => rw [after_error _ hr]
  | ok _ => rw [after_ok _ hr, run_reading]

/-- A step that meets demands and reads a result does no more than the resolutions. -/
theorem Reads.runs {step : Step α} {g : Context → α} (h : Reads user step ds g) (c : Context) :
    c.Runs (resolutions user ds c) (step.run c).context := by
  rw [h.context_eq]
  exact resolutions_runs user ds c

theorem moduleOf_runs (f : SchemaFile) (options : Options) (c : Context) :
    c.Runs (moduleEvents f options c) ((moduleOf f options).run c).context := by
  have hfirst := registrations_runs f c
  rw [moduleEvents]
  cases hr : ((register f).run c).result with
  | error fault =>
    rw [(moduleOf_refused options hr).1, List.append_nil]
    exact hfirst
  | ok _ =>
    rw [(moduleOf_registered options hr).1]
    exact hfirst.trans (resolutions_runs _ _ _)

theorem perform_runs (call : Call) (c : Context) :
    c.Runs (call.events c) (call.perform.run c).context := by
  cases call with
  | register f =>
    rw [Call.perform, context_bind_pure]
    exact registrations_runs f c
  | file name =>
    rw [Call.perform, context_bind_pure]
    cases hf : c.file? name with
    | none => rw [run_file_missing hf]; exact Runs.start
    | some f => rw [run_file_found hf]; exact Runs.start
  | resolve t user =>
    rw [Call.perform, context_bind_pure]
    exact (resolve_reads t user).runs c
  | imports user => exact Runs.start
  | module f options =>
    rw [Call.perform, context_bind_pure]
    exact moduleOf_runs f options c
  | moduleNamed name options =>
    rw [Call.perform, Call.events, run_bind]
    cases hf : c.file? name with
    | none =>
      rw [run_file_missing hf, after_error _ rfl]
      exact Runs.start
    | some f =>
      rw [run_file_found hf, after_ok _ rfl, context_bind_pure]
      exact moduleOf_runs f options c
  | fieldType f index user strict =>
    rw [Call.perform, context_bind_pure]
    exact (typeExpr_reads strict user (f.type index)).runs c
  | messages ms package user outer scope strict =>
    rw [Call.perform, context_bind_pure]
    exact (linkItems_reads strict user _).runs c
  | service s package user role =>
    rw [Call.perform, context_bind_pure]
    exact (linkItems_reads false user _).runs c

end Step

/-- A session leads where its registrations and resolutions lead. -/
theorem session_runs (c : Context) (calls : List Call) :
    c.Runs (eventsOf c calls) (contextAfter c calls) := by
  induction calls generalizing c with
  | nil => exact Context.Runs.start
  | cons call rest ih => exact (Step.perform_runs call c).trans (ih _)

end ProtoStubs
