import ProtoStubs.Context
import ProtoStubs.Fault
import ProtoStubs.Note

/-!
Sessions: steps that read and extend a context, write notes, and give a result or a fault. After a
fault the following steps are not taken, and what was done and noted up to there stays.
-/

namespace ProtoStubs

structure Logged (α : Type) where
  result : Except Fault α
  notes : List Note := []
deriving Repr

structure Outcome (α : Type) extends Logged α where
  context : Context
deriving Repr

def Step (α : Type) : Type := Context → Outcome α

namespace Step

variable {α β : Type}

def run (step : Step α) (c : Context) : Outcome α := step c

def start (step : Step α) (directory : String) : Logged α :=
  (step { directory := directory }).toLogged

def after (o : Outcome α) (next : α → Step β) : Outcome β :=
  match o.result with
  | .error fault => ⟨⟨.error fault, o.notes⟩, o.context⟩
  | .ok a =>
      let last := next a o.context
      ⟨⟨last.result, o.notes ++ last.notes⟩, last.context⟩

instance : Monad Step where
  pure a := fun c => ⟨⟨.ok a, []⟩, c⟩
  bind step next := fun c => after (step c) next

@[simp] theorem run_pure (a : α) (c : Context) : (pure a : Step α).run c = ⟨⟨.ok a, []⟩, c⟩ := rfl

@[simp] theorem run_bind (step : Step α) (next : α → Step β) (c : Context) :
    (step >>= next).run c = after (step.run c) next := rfl

theorem after_pure (o : Outcome α) : after o (fun a => pure a) = o := by
  obtain ⟨⟨result, notes⟩, context⟩ := o
  cases result with
  | error fault => rfl
  | ok a => simp [after, pure]

theorem after_after {γ : Type} (o : Outcome α) (f : α → Step β) (g : β → Step γ) :
    after (after o f) g = after o fun a => f a >>= g := by
  obtain ⟨⟨result, notes⟩, context⟩ := o
  cases result with
  | error fault => rfl
  | ok a =>
    simp only [after, bind]
    cases (f a context).result <;> simp [List.append_assoc]

instance : LawfulMonad Step := .mk' Step
  (fun step => funext fun c => after_pure (step c))
  (fun _ _ => rfl)
  (fun step f g => funext fun c => after_after (step c) f g)

def fail (fault : Fault) : Step α := fun c => ⟨⟨.error fault, []⟩, c⟩

def note (n : Note) : Step Unit := fun c => ⟨⟨.ok (), [n]⟩, c⟩

def current : Step Context := fun c => ⟨⟨.ok c, []⟩, c⟩

/-- Takes a step whose fault, if it has one, is told as another. -/
def orFail (fault : Fault) (step : Step α) : Step α := fun c =>
  let o := step c
  match o.result with
  | .error _ => ⟨⟨.error fault, o.notes⟩, o.context⟩
  | .ok _ => o

theorem ext {step step' : Step α} (h : ∀ c, step.run c = step'.run c) : step = step' := funext h

theorem after_error {o : Outcome α} {fault : Fault} (next : α → Step β)
    (h : o.result = .error fault) :
    after o next = ⟨⟨.error fault, o.notes⟩, o.context⟩ := by
  simp [after, h]

theorem after_ok {o : Outcome α} {a : α} (next : α → Step β) (h : o.result = .ok a) :
    after o next =
      ⟨⟨((next a).run o.context).result, o.notes ++ ((next a).run o.context).notes⟩,
        ((next a).run o.context).context⟩ := by
  simp [after, h, run]

theorem after_congr {o : Outcome α} {next next' : α → Step β}
    (h : ∀ a, o.result = .ok a → (next a).run o.context = (next' a).run o.context) :
    after o next = after o next' := by
  cases hr : o.result with
  | error fault => rw [after_error _ hr, after_error _ hr]
  | ok a => rw [after_ok _ hr, after_ok _ hr, h a hr]

theorem run_note (n : Note) (c : Context) : (note n).run c = ⟨⟨.ok (), [n]⟩, c⟩ := rfl

theorem run_fail (fault : Fault) (c : Context) :
    (fail fault : Step α).run c = ⟨⟨.error fault, []⟩, c⟩ := rfl

theorem run_orFail_error {step : Step α} {c : Context} {first : Fault} (fault : Fault)
    (h : (step.run c).result = .error first) :
    (orFail fault step).run c = ⟨⟨.error fault, (step.run c).notes⟩, (step.run c).context⟩ := by
  simp_all [orFail, run]

theorem run_orFail_ok {step : Step α} {c : Context} {a : α} (fault : Fault)
    (h : (step.run c).result = .ok a) : (orFail fault step).run c = step.run c := by
  simp_all [orFail, run]

/-- Registers a schema file, unless there is one of that name. Two files must not have the same
module. -/
def register (f : SchemaFile) : Step Unit := fun c =>
  if (c.file? f.name).isSome then ⟨⟨.ok (), []⟩, c⟩
  else
    match c.files.find? (·.modulePath == f.modulePath) with
    | some other => ⟨⟨.error (.moduleCollision other.name f.name f.modulePath), []⟩, c⟩
    | none =>
        let known := c.addFile f
        let notes := (known.duplicates f f.declared).map fun e => .duplicateType e.1 e.2 f.name
        ⟨⟨.ok (), notes⟩, known.defineAll f f.declared⟩

/-- The symbol under which the file `user` reaches a type. A new symbol stays bound also where
there is no way to import it. -/
def resolve (typeName user : String) : Step String := fun c =>
  match c.definition? typeName with
  | none => ⟨⟨.error (.unresolvedType typeName user), []⟩, c⟩
  | some d =>
      if d.file = user then ⟨⟨.ok d.flatName, []⟩, c⟩
      else
        match c.symbol? user typeName with
        | some symbol => ⟨⟨.ok symbol, []⟩, c⟩
        | none =>
            let symbol := freeName (c.taken user) d.flatName
            let specifier := Layout.specifier? c.directory (c.modulePathOf user) d.modulePath
            let bound := c.bind ⟨user, typeName, d.flatName, symbol, specifier⟩
            match specifier with
            | none => ⟨⟨.error .emptyModulePath, []⟩, bound⟩
            | some path => ⟨⟨.ok symbol, [.imported user typeName symbol path]⟩, bound⟩

def file (name : String) : Step SchemaFile := fun c =>
  match c.file? name with
  | some f => ⟨⟨.ok f, []⟩, c⟩
  | none => ⟨⟨.error (.unregisteredFile name), []⟩, c⟩

theorem run_file_missing {c : Context} {name : String} (h : c.file? name = none) :
    (file name).run c = ⟨⟨.error (.unregisteredFile name), []⟩, c⟩ := by
  simp [file, run, h]

theorem run_file_found {c : Context} {name : String} {f : SchemaFile} (h : c.file? name = some f) :
    (file name).run c = ⟨⟨.ok f, []⟩, c⟩ := by
  simp [file, run, h]

end Step

end ProtoStubs
