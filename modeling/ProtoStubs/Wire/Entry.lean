import ProtoStubs.Schema.Kind
import ProtoStubs.Wire.Token

/-!
Messages on the wire as folds over their entries: a reader starts from the value of a message
without entries and takes the entries in one by one. What it does not know, by number or by form,
it passes over.
-/

namespace ProtoStubs.Wire

def foldEntries {α : Type} (absorb : α → Entry → Option α) (start : α) (bytes : Bytes) : Option α :=
  (Entry.scan bytes).bind (·.foldlM absorb start)

def writeEntries (entries : List Entry) : Bytes := entries.flatMap Entry.write

def text? (content : Bytes) : Option String := String.fromUTF8? ⟨content.toArray⟩

/-- A number on the wire is cut to 32 bits; one without a member leaves the old value. -/
def codedOr {α : Type} [Numbered α] (old : Coded α) (n : Nat) : Coded α :=
  match (Coded.member? (n % 0x100000000 : Nat) : Option α) with
  | some a => .member a
  | none => old

namespace Entry

def text (number : Nat) (s : String) : Entry := ⟨number, .bytes s.toUTF8.data.toList⟩

def flag (number : Nat) (b : Bool) : Entry := ⟨number, .varint b.toNat⟩

def nested (number : Nat) (entries : List Entry) : Entry := ⟨number, .bytes (writeEntries entries)⟩

def coded {α : Type} [Numbered α] (number : Nat) (value : Coded α) : Entry :=
  match value with
  | .member a => ⟨number, .varint (Numbered.number a).toNat⟩
  | .number n => ⟨number, .varint (n % 0x10000000000000000).toNat⟩

end Entry

private theorem foldlM_congr {α β : Type} {f g : α → β → Option α} {l : List β} {a : α}
    (h : ∀ x ∈ l, ∀ a, f a x = g a x) : l.foldlM f a = l.foldlM g a := by
  induction l generalizing a with
  | nil => rfl
  | cons x rest ih =>
    simp only [List.foldlM_cons, h x List.mem_cons_self]
    congr 1
    funext b
    exact ih fun y hy => h y (List.mem_cons_of_mem _ hy)

/-- Two readers that agree on the entries of a message read it alike. -/
theorem foldEntries_congr {α : Type} {f g : α → Entry → Option α} {start : α} {bytes : Bytes}
    (h : ∀ e : Entry, e.content.length < bytes.length → ∀ a, f a e = g a e) :
    foldEntries f start bytes = foldEntries g start bytes := by
  unfold foldEntries
  cases hscan : Entry.scan bytes with
  | none => rfl
  | some entries => exact foldlM_congr fun e he => h e (Entry.content_length_lt hscan he)

end ProtoStubs.Wire
