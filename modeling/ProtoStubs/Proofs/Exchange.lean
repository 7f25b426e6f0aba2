import ProtoStubs.Proofs.Serializing

/-!
Requests and responses on the wire. A request in any encoding is answered like the request itself,
as long as it is not nested too deep, and the answer is read back as what it was written from.
-/

namespace ProtoStubs.Plugin

open Wire

variable {room : Nat} {bytes : Bytes}

structure Reply where
  error : Option String
  features : Nat
  files : List (String × String)
deriving Repr, DecidableEq

namespace Reply

structure FillsFile (file : String × String) (es : List Entry) : Prop where
  name : TextAt 1 es file.1
  text : TextAt 15 es file.2

structure Fills (reply : Reply) (es : List Entry) : Prop where
  error : ∃ texts : List String, contentsAt 1 es = texts.map utf8 ∧ texts.getLast? = reply.error
  features : (numbersAt 2 es).getLastD 0 = reply.features
  files : List.Forall₂ (fun content file => ∃ size room es, Carries size room content es ∧
    FillsFile file es) (contentsAt 15 es) reply.files

/-- A response on the wire, whatever its size. -/
def Encodes (reply : Reply) (bytes : Bytes) : Prop :=
  ∃ size room es, Carries size room bytes es ∧ reply.Fills es

end Reply

namespace Response

def reply (r : Response) : Reply := ⟨r.error, supportedFeatures, r.files⟩

end Response

theorem utf8_injective : Function.Injective utf8 := by
  intro s t h
  have hs : text? (utf8 s) = some s := text?_eq_some_iff.mpr rfl
  rw [h, text?_eq_some_iff.mpr rfl] at hs
  exact (Option.some.inj hs).symm

theorem textAt_iff_eq {k : Nat} {es : List Entry} {s t : String} (h : contentsAt k es = [utf8 s]) :
    TextAt k es t ↔ t = s := by
  constructor
  · rintro ⟨texts, htexts, rfl⟩
    rw [h, ← List.map_singleton] at htexts
    obtain rfl := utf8_injective.list_map htexts
    rfl
  · rintro rfl
    exact textAt_singleton t h

/-- Some size is enough for all that is written. -/
theorem exists_carries {es : List Entry} (hplain : ∀ e ∈ es, e.Plain) :
    ∃ size room, Carries size room (writeEntries es) es := by
  have hlength : (writeEntries es).length < Varint.capacity ((writeEntries es).length + 1) :=
    Nat.lt_of_succ_lt (Varint.lt_capacity _)
  exact ⟨_, 0, carries_writeEntries hplain hlength⟩

theorem exists_carries_iff {es : List Entry} (hplain : ∀ e ∈ es, e.Plain) {P : List Entry → Prop} :
    (∃ size room es', Carries size room (writeEntries es) es' ∧ P es') ↔ P es := by
  obtain ⟨size, room, hcarries⟩ := exists_carries hplain
  constructor
  · rintro ⟨_, _, es', hcarries', h⟩
    rw [hcarries.unique hcarries']
    exact h
  · exact fun h => ⟨size, room, es, hcarries, h⟩

theorem fillsFile_iff {written file : String × String} :
    Reply.FillsFile file [.text 1 written.1, .text 15 written.2] ↔ file = written := by
  have hname : TextAt 1 [.text 1 written.1, .text 15 written.2] file.1 ↔ file.1 = written.1 :=
    textAt_iff_eq (by simp [Entry.text_eq])
  have htext : TextAt 15 [.text 1 written.1, .text 15 written.2] file.2 ↔ file.2 = written.2 :=
    textAt_iff_eq (by simp [Entry.text_eq])
  rw [Prod.ext_iff, ← hname, ← htext]
  exact ⟨fun h => ⟨h.name, h.text⟩, fun h => ⟨h.1, h.2⟩⟩

/-- The entries of a response say what it is, and nothing else. -/
theorem fills_entries_iff {r : Response} {reply : Reply} :
    reply.Fills r.entries ↔ reply = r.reply := by
  have herror : contentsAt 1 r.entries = r.error.toList.map utf8 := by
    simp [Response.entries, Entry.nested]
  have hfeatures : (numbersAt 2 r.entries).getLastD 0 = supportedFeatures := by
    simp [Response.entries, Entry.nested]
  have hfiles : contentsAt 15 r.entries =
      r.files.map fun f => writeEntries [.text 1 f.1, .text 15 f.2] := by
    simp [Response.entries, Entry.nested]
  have hplain : ∀ f : String × String, ∀ e ∈ [Entry.text 1 f.1, .text 15 f.2], e.Plain := by
    simp [Entry.text_eq]
  have hlast : r.error.toList.getLast? = r.error := by cases r.error <;> rfl
  constructor
  · rintro ⟨⟨texts, htexts, hreply⟩, hnumber, hmany⟩
    rw [herror] at htexts
    obtain rfl := utf8_injective.list_map htexts
    rw [hfiles, List.forall₂_map_left_iff] at hmany
    simp only [exists_carries_iff (hplain _), fillsFile_iff] at hmany
    have hsame : r.files = reply.files := by
      rw [← List.forall₂_eq_eq_eq]
      exact hmany.imp fun _ _ h => h.symm
    rw [Response.reply, ← hlast, hreply, ← hfeatures, hnumber, hsame]
  · rintro rfl
    refine ⟨⟨r.error.toList, herror, hlast⟩, hfeatures, ?_⟩
    rw [hfiles, List.forall₂_map_left_iff]
    simp only [exists_carries_iff (hplain _), fillsFile_iff]
    exact List.forall₂_same.mpr fun _ _ => rfl

/-- What a response is written as is read back as that response only. -/
theorem reply_encodes_iff {r : Response} {reply : Reply} :
    reply.Encodes r.toBytes ↔ reply = r.reply := by
  have hplain : ∀ e ∈ r.entries, e.Plain := by
    simp only [Response.entries, List.forall_mem_append, List.forall_mem_map]
    simp [Entry.text_eq, Entry.nested, supportedFeatures]
  rw [Reply.Encodes, Response.toBytes, exists_carries_iff hplain, fills_entries_iff]

/-- A request that is encoded is read if and only if it is not too deep. -/
theorem ofBytes_of_encodes {q : Request} (hencodes : q.Encodes room bytes) :
    Request.ofBytes bytes = if Shape.request.wellFormed bytes then some q else none := by
  rw [Request.ofBytes, ((Request.faithful room q bytes).mp hencodes).1]

theorem wellFormed_of_encodes {q : Request} (hencodes : q.Encodes room bytes)
    (hroom : room ≤ Shape.depthLimit) : Shape.request.wellFormed bytes = true :=
  Shape.admits_mono hroom ((Request.faithful room q bytes).mp hencodes).2

theorem exchange_of_encodes (directory : String) {q : Request} (hencodes : q.Encodes room bytes)
    (hroom : room ≤ Shape.depthLimit) :
    exchange directory bytes = (respond directory q).map Response.toBytes := by
  rw [exchange, ofBytes_of_encodes hencodes, if_pos (wellFormed_of_encodes hencodes hroom)]

theorem exchange_of_deep (directory : String) {q : Request} (hencodes : q.Encodes room bytes)
    (hdeep : ¬ q.Encodes Shape.depthLimit bytes) :
    exchange directory bytes = .error .malformedBytes := by
  have hread := ofBytes_of_encodes hencodes
  split_ifs at hread with hwell
  · exact absurd (Request.ofBytes_eq_some_iff.mp hread) hdeep
  · rw [exchange, hread]

/-- Bytes that encode a request are answered with what the request is answered with, unless they are
too deep, and the answer is read back as what it was written from. -/
theorem exchange_commutes_with_encoding (directory : String) {q : Request}
    (hencodes : q.Encodes room bytes) :
    (room ≤ Shape.depthLimit →
      exchange directory bytes = (respond directory q).map Response.toBytes) ∧
    (¬ q.Encodes Shape.depthLimit bytes → exchange directory bytes = .error .malformedBytes) ∧
    ∀ r, respond directory q = .ok r →
      ∀ reply : Reply, reply.Encodes r.toBytes ↔ reply = r.reply :=
  ⟨exchange_of_encodes directory hencodes, exchange_of_deep directory hencodes,
    fun _ _ _ => reply_encodes_iff⟩

def paddedFile : SchemaFile where
  name := "a.proto"
  package := "p"
  messages := [{ name := "A", fields := [{ name := "s", kind := .member .string }] }]

def paddedRequest : Request :=
  { requested := ["a.proto"], parameter := "role=server", files := [paddedFile] }

/-- The parts of `paddedRequest` out of order, a label with a byte too many, and entries of all
forms and a group that nobody reads. -/
def paddedBytes : Bytes :=
  [0x38, 0x01, 0x7a, 0x1e, 0x22, 0x0d, 0x12, 0x08, 0x28, 0x09, 0x0a, 0x01, 0x73, 0x20, 0x81, 0x00,
    0x0a, 0x01, 0x41, 0xa0, 0x01, 0x01, 0x12, 0x01, 0x70, 0x0a, 0x07, 0x61, 0x2e, 0x70, 0x72, 0x6f,
    0x74, 0x6f, 0x4b, 0x08, 0x05, 0x13, 0x14, 0x4c, 0x0a, 0x07, 0x61, 0x2e, 0x70, 0x72, 0x6f, 0x74,
    0x6f, 0x55, 0x01, 0x02, 0x03, 0x04, 0x59, 0x01, 0x02, 0x03, 0x04, 0x05, 0x06, 0x07, 0x08, 0x12,
    0x0b, 0x72, 0x6f, 0x6c, 0x65, 0x3d, 0x73, 0x65, 0x72, 0x76, 0x65, 0x72, 0xa2, 0x01, 0x02, 0x00,
    0xff]

theorem paddedBytes_exchanged :
    paddedRequest.Encodes Shape.depthLimit paddedBytes ∧ paddedBytes ≠ paddedRequest.toBytes ∧
      ∃ r, respond "" paddedRequest = .ok r ∧ r.error = none ∧ r.files.map Prod.fst = ["p/a.ts"] ∧
        exchange "" paddedBytes = .ok r.toBytes ∧
        ∀ reply : Reply, reply.Encodes r.toBytes ↔ reply = r.reply := by
  have hread : Request.ofBytes paddedBytes = some paddedRequest := by decide +kernel
  have hencodes := Request.ofBytes_eq_some_iff.mp hread
  obtain ⟨hexchange, _, hreply⟩ := exchange_commutes_with_encoding "" hencodes
  have hmade : (respond "" paddedRequest).toOption.map (fun r => (r.error, r.files.map Prod.fst)) =
      some (none, ["p/a.ts"]) := by decide +kernel
  refine ⟨hencodes, by decide +kernel, ?_⟩
  cases hrespond : respond "" paddedRequest with
  | error fault =>
    rw [hrespond] at hmade
    cases hmade
  | ok r =>
    rw [hrespond] at hexchange hmade
    obtain ⟨herror, hfiles⟩ := Prod.mk.inj (Option.some.inj hmade)
    exact ⟨r, rfl, herror, hfiles, hexchange (Nat.le_refl _), hreply r hrespond⟩

def chain : (n : Nat) → Message
  | 0 => { name := "M" }
  | n + 1 => { name := "M", nested := [chain n] }

def chainRequest (n : Nat) : Request :=
  { files := [{ name := "chain.proto", messages := [chain n] }] }

theorem writable_chain (n : Nat) : (chain n).Writable := by
  induction n with
  | zero => exact .mk nofun nofun
  | succ n ih => exact .mk nofun fun m hm => List.mem_singleton.mp hm ▸ ih

/-- A request that is one level too deep is refused, though it is encoded as it should be and would
be answered. -/
theorem chainRequest_refused :
    (chainRequest 99).Encodes 101 (chainRequest 99).toBytes ∧
      respond "" (chainRequest 99) = .ok {} ∧
      exchange "" (chainRequest 99).toBytes = .error .malformedBytes := by
  have hwritable : (chainRequest 99).Writable := by
    intro f hf m hm
    rw [List.mem_singleton.mp hf] at hm
    rw [List.mem_singleton.mp hm]
    exact writable_chain 99
  have hheight : (chainRequest 99).height = 101 := by decide +kernel
  have hencodes (room : Nat) :
      (chainRequest 99).Encodes room (chainRequest 99).toBytes ↔ 101 ≤ room := by
    rw [Request.encodes_toBytes hwritable (by decide +kernel), hheight]
  have hdeep : ¬ (chainRequest 99).Encodes Shape.depthLimit (chainRequest 99).toBytes := by
    rw [hencodes]
    decide
  have hencodes' := (hencodes 101).mpr (Nat.le_refl 101)
  exact ⟨hencodes', by decide +kernel, exchange_of_deep "" hencodes' hdeep⟩

end ProtoStubs.Plugin
