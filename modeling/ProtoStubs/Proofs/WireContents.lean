import Mathlib.Data.List.Forall2
import Mathlib.Logic.Equiv.Defs
import ProtoStubs.Proofs.WireLevels

/-!
What the entries of a message say about its fields. The entries under one number are read for
themselves, whatever stands between them: the last of them counts, or all of them in their order. A
reader that takes in each entry for every field is thus the readers of its fields side by side.

An encoding is faithful if reading gives the encoded value back, and if the shape of the message
admits it within the room that it takes and within no other.
-/

namespace ProtoStubs.Wire

variable {α β : Type} {number k room room' : Nat} {es rest : List Entry} {bytes content : Bytes}

def contentsAt (number : Nat) (es : List Entry) : List Bytes :=
  es.filterMap fun e =>
    match e.value with
    | .bytes content => if e.number = number then some content else none
    | _ => none

def numbersAt (number : Nat) (es : List Entry) : List Nat :=
  es.filterMap fun e =>
    match e.value with
    | .varint n => if e.number = number then some n else none
    | _ => none

theorem mem_contentsAt : content ∈ contentsAt k es ↔ ⟨k, .bytes content⟩ ∈ es := by
  rw [contentsAt, List.mem_filterMap]
  constructor
  · rintro ⟨⟨number, value⟩, he, h⟩
    cases value with
    | bytes c =>
      obtain ⟨rfl, rfl⟩ : number = k ∧ c = content := by simpa using h
      exact he
    | _ => simp at h
  · exact fun he => ⟨_, he, by simp⟩

section Slots

/-- Reads the entries with bytes under a number, and passes over the others. -/
def bytesSlot (k : Nat) (f : β → Bytes → Option β) (b : β) : Entry → Option β
  | ⟨number, .bytes content⟩ => if number = k then f b content else some b
  | _ => some b

def numberSlot (k : Nat) (f : β → Nat → β) (b : β) : Entry → Option β
  | ⟨number, .varint n⟩ => some (if number = k then f b n else b)
  | _ => some b

@[simp] theorem bytesSlot_bytes (k number : Nat) (f : β → Bytes → Option β) (b : β)
    (content : Bytes) :
    bytesSlot k f b ⟨number, .bytes content⟩ = if number = k then f b content else some b := rfl

@[simp] theorem bytesSlot_varint (k number n : Nat) (f : β → Bytes → Option β) (b : β) :
    bytesSlot k f b ⟨number, .varint n⟩ = some b := rfl

@[simp] theorem numberSlot_bytes (k number : Nat) (f : β → Nat → β) (b : β) (content : Bytes) :
    numberSlot k f b ⟨number, .bytes content⟩ = some b := rfl

@[simp] theorem numberSlot_varint (k number n : Nat) (f : β → Nat → β) (b : β) :
    numberSlot k f b ⟨number, .varint n⟩ = some (if number = k then f b n else b) := rfl

theorem bytesSlot_pass {e : Entry} (h : ∀ content, e = ⟨k, .bytes content⟩ → False)
    (f : β → Bytes → Option β) (b : β) : bytesSlot k f b e = some b := by
  unfold bytesSlot
  split
  · next number content =>
    have hk : number ≠ k := by
      rintro rfl
      exact h content rfl
    exact if_neg hk
  · rfl

theorem numberSlot_pass {e : Entry} (h : ∀ n, e = ⟨k, .varint n⟩ → False) (f : β → Nat → β)
    (b : β) :
    numberSlot k f b e = some b := by
  unfold numberSlot
  split
  · next number n =>
    have hk : number ≠ k := by
      rintro rfl
      exact h n rfl
    rw [if_neg hk]
  · rfl

theorem foldlM_bytesSlot (k : Nat) (f : β → Bytes → Option β) (b : β) (es : List Entry) :
    es.foldlM (bytesSlot k f) b = (contentsAt k es).foldlM f b := by
  induction es generalizing b with
  | nil => rfl
  | cons e rest ih =>
    obtain ⟨number, value⟩ := e
    cases value with
    | bytes content =>
      by_cases h : number = k <;> simp [bytesSlot, contentsAt, h, ih]
    | _ => simp [bytesSlot, contentsAt, ih]

theorem foldlM_numberSlot (k : Nat) (f : β → Nat → β) (b : β) (es : List Entry) :
    es.foldlM (numberSlot k f) b = some ((numbersAt k es).foldl f b) := by
  induction es generalizing b with
  | nil => rfl
  | cons e rest ih =>
    obtain ⟨number, value⟩ := e
    cases value with
    | varint n =>
      by_cases h : number = k <;> simp [numberSlot, numbersAt, h, ih]
    | _ => simp [numberSlot, numbersAt, ih]

def both (s : α → Entry → Option α) (t : β → Entry → Option β) (x : α × β) (e : Entry) :
    Option (α × β) :=
  (s x.1 e).bind fun a => (t x.2 e).map fun b => (a, b)

theorem foldlM_both {s : α → Entry → Option α} {t : β → Entry → Option β} {x y : α × β} :
    es.foldlM (both s t) x = some y ↔ es.foldlM s x.1 = some y.1 ∧ es.foldlM t x.2 = some y.2 := by
  induction es generalizing x with
  | nil => simp [Prod.ext_iff]
  | cons e rest ih =>
    simp only [List.foldlM_cons, Option.bind_eq_bind, Option.bind_eq_some_iff]
    constructor
    · rintro ⟨z, hz, h⟩
      obtain ⟨a, ha, hmap⟩ := Option.bind_eq_some_iff.mp hz
      obtain ⟨b, hb, rfl⟩ := Option.map_eq_some_iff.mp hmap
      exact ⟨⟨a, ha, (ih.mp h).1⟩, ⟨b, hb, (ih.mp h).2⟩⟩
    · rintro ⟨⟨a, ha, hs⟩, ⟨b, hb, ht⟩⟩
      exact ⟨(a, b), by simp [both, ha, hb], ih.mpr ⟨hs, ht⟩⟩

/-- A reader of records that reads their parts for themselves. -/
theorem foldlM_of_equiv {absorb : α → Entry → Option α} {slots : β → Entry → Option β}
    (parts : α ≃ β) (hstep : ∀ b e, absorb (parts.symm b) e = (slots b e).map parts.symm)
    {a a' : α} : es.foldlM absorb a = some a' ↔ es.foldlM slots (parts a) = some (parts a') := by
  have hmap : ∀ b, es.foldlM absorb (parts.symm b) = (es.foldlM slots b).map parts.symm := by
    induction es with
    | nil => exact fun b => rfl
    | cons e rest ih =>
      intro b
      rw [List.foldlM_cons, List.foldlM_cons, hstep]
      cases slots b e with
      | none => rfl
      | some b' => exact ih b'
  rw [← parts.symm_apply_apply a, hmap, parts.apply_symm_apply, Option.map_eq_some_iff]
  constructor
  · rintro ⟨b, hb, rfl⟩
    rw [hb, parts.apply_symm_apply]
  · exact fun h => ⟨_, h, parts.symm_apply_apply a'⟩

end Slots

section Fields

def utf8 (s : String) : Bytes := s.toUTF8.data.toList

theorem text?_eq_some_iff {t : String} : text? content = some t ↔ content = utf8 t := by
  rw [text?, String.fromUTF8?, Option.dite_none_right_eq_some]
  constructor
  · rintro ⟨hvalid, h⟩
    rw [← Option.some.inj h]
    rfl
  · rintro rfl
    exact ⟨t.isValidUTF8, rfl⟩

/-- The last text under a number, or the empty one. -/
def TextAt (k : Nat) (es : List Entry) (s : String) : Prop :=
  ∃ texts : List String, contentsAt k es = texts.map utf8 ∧ texts.getLastD "" = s

/-- The member that a number on the wire stands for, cut to 32 bits. -/
def codeOf? [Numbered α] (n : Nat) : Option (Coded α) :=
  (Coded.member? (n % 0x100000000 : Nat)).map Coded.member

def lastCode [Numbered α] (default : Coded α) (numbers : List Nat) : Coded α :=
  (numbers.filterMap codeOf?).getLastD default

def isSet (numbers : List Nat) : Bool := (numbers.map (· != 0)).getLastD false

abbrev textSlot (k : Nat) : String → Entry → Option String :=
  bytesSlot k fun _ content => text? content

abbrev manySlot (k : Nat) (read : Bytes → Option α) : List α → Entry → Option (List α) :=
  bytesSlot k fun vs content => (read content).map fun v => vs ++ [v]

abbrev codeSlot [Numbered α] (k : Nat) : Coded α → Entry → Option (Coded α) := numberSlot k codedOr

abbrev flagSlot (k : Nat) : Bool → Entry → Option Bool := numberSlot k fun _ n => n != 0

theorem foldlM_texts {contents : List Bytes} {start t : String} :
    contents.foldlM (fun _ content => text? content) start = some t ↔
      ∃ texts : List String, contents = texts.map utf8 ∧ texts.getLastD start = t := by
  induction contents generalizing start with
  | nil =>
    constructor
    · exact fun h => ⟨[], rfl, Option.some.inj h⟩
    · rintro ⟨texts, hnil, rfl⟩
      rw [List.map_eq_nil_iff.mp hnil.symm]
      rfl
  | cons content rest ih =>
    simp only [List.foldlM_cons, Option.bind_eq_bind, Option.bind_eq_some_iff, text?_eq_some_iff,
      ih]
    constructor
    · rintro ⟨s, rfl, texts, rfl, rfl⟩
      exact ⟨s :: texts, rfl, List.getLastD_cons⟩
    · rintro ⟨texts, hcons, rfl⟩
      obtain ⟨s, texts, rfl, rfl, rfl⟩ := List.map_eq_cons_iff.mp hcons.symm
      exact ⟨s, rfl, texts, rfl, List.getLastD_cons.symm⟩

theorem foldlM_textSlot {t : String} : es.foldlM (textSlot k) "" = some t ↔ TextAt k es t := by
  rw [textSlot, foldlM_bytesSlot, foldlM_texts, TextAt]

theorem foldlM_many {read : Bytes → Option α} {contents : List Bytes} {start vs : List α} :
    contents.foldlM (fun vs content => (read content).map fun v => vs ++ [v]) start = some vs ↔
      ∃ added, start ++ added = vs ∧
        List.Forall₂ (fun content v => read content = some v) contents added := by
  induction contents generalizing start with
  | nil => simp
  | cons content rest ih =>
    simp only [List.foldlM_cons, Option.bind_eq_bind, Option.bind_eq_some_iff,
      Option.map_eq_some_iff, ih]
    constructor
    · rintro ⟨_, ⟨v, hv, rfl⟩, added, rfl, hrest⟩
      exact ⟨v :: added, by simp, .cons hv hrest⟩
    · rintro ⟨added, rfl, hadded⟩
      cases hadded with
      | @cons _ v _ added hv hrest => exact ⟨_, ⟨v, hv, rfl⟩, added, by simp, hrest⟩

theorem foldlM_manySlot {read : Bytes → Option α} {vs : List α} :
    es.foldlM (manySlot k read) [] = some vs ↔
      List.Forall₂ (fun content v => read content = some v) (contentsAt k es) vs := by
  rw [manySlot, foldlM_bytesSlot, foldlM_many]
  simp

theorem foldlM_textsSlot {texts : List String} :
    es.foldlM (manySlot k text?) [] = some texts ↔ contentsAt k es = texts.map utf8 := by
  simp only [foldlM_manySlot, text?_eq_some_iff]
  rw [← List.forall₂_map_right_iff (R := Eq), List.forall₂_eq_eq_eq]

theorem foldl_codedOr [Numbered α] (default : Coded α) (numbers : List Nat) :
    numbers.foldl codedOr default = lastCode default numbers := by
  induction numbers generalizing default with
  | nil => rfl
  | cons n rest ih =>
    rw [List.foldl_cons, ih, lastCode, lastCode, codedOr]
    cases h : (Coded.member? (n % 0x100000000 : Nat) : Option α) with
    | none =>
      have hcode : (codeOf? n : Option (Coded α)) = none := by rw [codeOf?, h, Option.map_none]
      rw [List.filterMap_cons_none hcode]
    | some a =>
      have hcode : (codeOf? n : Option (Coded α)) = some (.member a) := by
        rw [codeOf?, h, Option.map_some]
      rw [List.filterMap_cons_some hcode, List.getLastD_cons]

theorem foldlM_codeSlot [Numbered α] {default code : Coded α} :
    es.foldlM (codeSlot k) default = some code ↔ lastCode default (numbersAt k es) = code := by
  rw [codeSlot, foldlM_numberSlot, foldl_codedOr, Option.some.injEq]

theorem foldl_flags (b : Bool) (numbers : List Nat) :
    numbers.foldl (fun _ n => n != 0) b = (numbers.map (· != 0)).getLastD b := by
  induction numbers generalizing b with
  | nil => rfl
  | cons n rest ih => rw [List.foldl_cons, ih, List.map_cons, List.getLastD_cons]

theorem foldlM_flagSlot {b : Bool} :
    es.foldlM (flagSlot k) false = some b ↔ isSet (numbersAt k es) = b := by
  rw [flagSlot, foldlM_numberSlot, foldl_flags, Option.some.injEq, isSet]

end Fields

section Faithful

variable {s part : Shape} {read : Bytes → Option α} {Enc : Nat → α → Bytes → Prop}

/-- An encoding of what stands in a message with so much room. -/
def under (Enc : Nat → α → Bytes → Prop) : (room : Nat) → α → Bytes → Prop
  | 0 => fun _ _ => False
  | room + 1 => Enc room

/-- An encoding in which the entries of a message say what the value is. -/
def Encoding (Fills : Nat → α → List Entry → Prop) (room : Nat) (v : α) (bytes : Bytes) : Prop :=
  ∃ es, Carries 5 room bytes es ∧ Fills room v es

def ManyAt (Enc : Nat → α → Bytes → Prop) (room k : Nat) (es : List Entry) (vs : List α) : Prop :=
  List.Forall₂ (fun content v => under Enc room v content) (contentsAt k es) vs

namespace Shape

/-- An entry is as the shape says, if `Inner` is how messages stand in it: its bytes are a message
of the shape that goes with its number, or numbers one after another. -/
def Allows (Inner : Shape → Bytes → Prop) (s : Shape) (e : Entry) : Prop :=
  ∀ content, e.value = .bytes content →
    (∀ part, s.parts.lookup e.number = some (.message part) → Inner part content) ∧
      (s.parts.lookup e.number = some .numbers → Varint.Spelled content)

/-- Bytes are a message of the shape, with messages and groups together at most `room` deep. -/
def Conforms : (room : Nat) → Shape → Bytes → Prop
  | 0 => fun s bytes => ∃ es, Carries 5 0 bytes es ∧ ∀ e ∈ es, s.Allows (fun _ _ => False) e
  | room + 1 => fun s bytes =>
      ∃ es, Carries 5 (room + 1) bytes es ∧ ∀ e ∈ es, s.Allows (Conforms room) e

theorem admitsEntry_iff {inner : Shape → Bytes → Bool} {Inner : Shape → Bytes → Prop} {e : Entry}
    (h : ∀ part content, inner part content = true ↔ Inner part content) :
    s.admitsEntry inner e = true ↔ s.Allows Inner e := by
  obtain ⟨number, value⟩ := e
  cases value with
  | bytes content =>
    rw [admitsEntry]
    cases hpart : s.parts.lookup number with
    | none => simp [Allows, hpart]
    | some known =>
      cases known with
      | message part => simp [Allows, hpart, h]
      | numbers => simp [Allows, hpart, Varint.isSome_scan_iff]
  | _ => simp [admitsEntry, Allows]

/-- A message is checked to be of its shape, one level after another. -/
theorem below_iff (room : Nat) (part : Shape) (content : Bytes) :
    below room part content = true ↔ under Conforms room part content := by
  induction room generalizing part content with
  | zero => simp [below, under]
  | succ room ih =>
    have hinner : ∀ e, part.admitsEntry (below room) e = true ↔
        part.Allows (under Conforms room) e := fun _ => admitsEntry_iff ih
    rw [below, under, admits_iff]
    simp only [hinner]
    cases room <;> rfl

end Shape

/-- The entries that are not read are as the shape says. -/
def Others (s : Shape) (read : List Nat) (room : Nat) (es : List Entry) : Prop :=
  ∀ e ∈ es, e.number ∉ read → s.Allows (under Shape.Conforms room) e

theorem others_of_all {ks : List Nat}
    (h : ∀ e ∈ es, s.admitsEntry (Shape.below room) e = true) : Others s ks room es :=
  fun e he _ => (Shape.admitsEntry_iff (Shape.below_iff room)).mp (h e he)

/-- Entries are all well-formed if those are that are read, number by number. -/
theorem Others.all {ks : List Nat} (h : Others s ks room es)
    (hread : ∀ k ∈ ks, ∀ e ∈ es, e.number = k → s.admitsEntry (Shape.below room) e = true) :
    ∀ e ∈ es, s.admitsEntry (Shape.below room) e = true := by
  intro e he
  by_cases hk : e.number ∈ ks
  · exact hread _ hk e he rfl
  · exact (Shape.admitsEntry_iff (Shape.below_iff room)).mpr (h e he hk)

/-- A message is encoded exactly if it is read, and is well-formed within the room. -/
def FaithfulAt (s : Shape) (read : Bytes → Option α) (Enc : Nat → α → Bytes → Prop) (room : Nat) :
    Prop :=
  ∀ v bytes, Enc room v bytes ↔ read bytes = some v ∧ s.admits room bytes = true

theorem FaithfulAt.of_fills {Fills : Nat → α → List Entry → Prop} {value : List Entry → Option α}
    (hread : ∀ bytes es, Carries 5 room bytes es → read bytes = value es)
    (hfills : ∀ v es, Fills room v es ↔
      value es = some v ∧ ∀ e ∈ es, s.admitsEntry (Shape.below room) e = true) :
    FaithfulAt s read (Encoding Fills) room := by
  intro v bytes
  rw [Shape.admits_iff]
  constructor
  · rintro ⟨es, hcarries, h⟩
    obtain ⟨hvalue, hall⟩ := (hfills v es).mp h
    exact ⟨(hread bytes es hcarries).trans hvalue, es, hcarries, hall⟩
  · rintro ⟨hvalue, es, hcarries, hall⟩
    exact ⟨es, hcarries, (hfills v es).mpr ⟨(hread bytes es hcarries).symm.trans hvalue, hall⟩⟩

theorem under_iff (hfaithful : ∀ r < room, FaithfulAt part read Enc r) (v : α) (content : Bytes) :
    under Enc room v content ↔ Shape.below room part content = true ∧ read content = some v := by
  cases room with
  | zero => simp [under, Shape.below]
  | succ room => rw [under, Shape.below, hfaithful room (Nat.lt_succ_self room), and_comm]

/-- Values are encoded one after another exactly if they are read, and each is well-formed. -/
theorem manyAt_iff (s : Shape) (k : Nat) (hfaithful : ∀ r < room, FaithfulAt part read Enc r)
    (hpart : s.parts.lookup k = some (.message part)) (es : List Entry) (vs : List α) :
    ManyAt Enc room k es vs ↔ es.foldlM (manySlot k read) [] = some vs ∧
      ∀ e ∈ es, e.number = k → s.admitsEntry (Shape.below room) e = true := by
  have hentries : (∀ content ∈ contentsAt k es, Shape.below room part content = true) ↔
      ∀ e ∈ es, e.number = k → s.admitsEntry (Shape.below room) e = true := by
    constructor
    · rintro h ⟨number, value⟩ he rfl
      cases value with
      | bytes content =>
        simp only [Shape.admitsEntry, hpart]
        exact h content (mem_contentsAt.mpr he)
      | _ => rfl
    · intro h content hcontent
      have hentry := h _ (mem_contentsAt.mp hcontent) rfl
      simpa only [Shape.admitsEntry, hpart] using hentry
  simp only [ManyAt, under_iff hfaithful]
  rw [List.forall₂_and_left, hentries, foldlM_manySlot, and_comm]

end Faithful

end ProtoStubs.Wire
