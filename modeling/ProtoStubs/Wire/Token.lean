import ProtoStubs.Wire.Varint

/-!
The fields of a message on the wire. Bytes are read as tokens, each with a field number: a value,
or the begin or end of a group. Groups may be nested and must be balanced; no message here has
fields in groups, so they are dropped with all that is in them, and what is left are the entries
of the message. No field of a message has the number zero; inside groups it is a number like any
other.
-/

namespace ProtoStubs.Wire

inductive Value where
  | varint (n : Nat)
  | fixed64 (bytes : Bytes)
  | bytes (content : Bytes)
  | fixed32 (bytes : Bytes)
deriving Repr, DecidableEq

structure Entry where
  number : Nat
  value : Value
deriving Repr, DecidableEq

inductive Token where
  | entry (e : Entry)
  | openGroup (number : Nat)
  | closeGroup (number : Nat)
deriving Repr, DecidableEq

namespace Token

def takeBytes (n : Nat) (bytes : Bytes) : Option (Bytes × Bytes) :=
  if n ≤ bytes.length then some (bytes.take n, bytes.drop n) else none

/-- A tag is a number of at most five bytes below two to the 32nd: the field number above three
bits for the form of what follows. -/
def readTag (bytes : Bytes) : Option (Nat × Nat × Bytes) :=
  match Varint.readUpTo 5 bytes with
  | none => none
  | some (tag, rest) => if tag < 0x100000000 then some (tag / 8, tag % 8, rest) else none

/-- One token off the front. A length has at most five bytes. -/
def read (bytes : Bytes) : Option (Token × Bytes) :=
  match readTag bytes with
  | none => none
  | some (number, form, rest) =>
      match form with
      | 0 => (Varint.read rest).map fun r => (.entry ⟨number, .varint r.1⟩, r.2)
      | 1 => (takeBytes 8 rest).map fun r => (.entry ⟨number, .fixed64 r.1⟩, r.2)
      | 2 =>
          match Varint.readUpTo 5 rest with
          | none => none
          | some (length, rest) =>
              (takeBytes length rest).map fun r => (.entry ⟨number, .bytes r.1⟩, r.2)
      | 3 => some (.openGroup number, rest)
      | 4 => some (.closeGroup number, rest)
      | 5 => (takeBytes 4 rest).map fun r => (.entry ⟨number, .fixed32 r.1⟩, r.2)
      | _ => none

theorem takeBytes_length {n : Nat} {bytes taken rest : Bytes}
    (h : takeBytes n bytes = some (taken, rest)) : taken.length + rest.length = bytes.length := by
  simp only [takeBytes] at h
  split at h
  · simp only [Option.some.injEq, Prod.mk.injEq] at h
    obtain ⟨rfl, rfl⟩ := h
    simp
    omega
  · simp at h

theorem readTag_length {bytes rest : Bytes} {number form : Nat}
    (h : readTag bytes = some (number, form, rest)) : rest.length < bytes.length := by
  simp only [readTag] at h
  split at h
  · simp at h
  · next tag rest' hread =>
    split at h
    · have := Varint.readUpTo_length hread
      simp_all
    · simp at h

def content : Token → Bytes
  | .entry ⟨_, .bytes content⟩ => content
  | _ => []

theorem read_length {bytes rest : Bytes} {t : Token} (h : read bytes = some (t, rest)) :
    t.content.length + rest.length < bytes.length := by
  simp only [read] at h
  split at h
  · simp at h
  · next number form rest' htag =>
    have hlt := readTag_length htag
    split at h
    · simp only [Option.map_eq_some_iff, Prod.mk.injEq] at h
      obtain ⟨⟨n, tail⟩, hread, rfl, rfl⟩ := h
      have := Varint.read_length hread
      simp only [content, List.length_nil]
      omega
    · simp only [Option.map_eq_some_iff, Prod.mk.injEq] at h
      obtain ⟨⟨taken, tail⟩, htake, rfl, rfl⟩ := h
      have := takeBytes_length htake
      simp only [content, List.length_nil]
      omega
    · split at h
      · simp at h
      · next length tail hread =>
        have := Varint.readUpTo_length hread
        simp only [Option.map_eq_some_iff, Prod.mk.injEq] at h
        obtain ⟨⟨taken, tail'⟩, htake, rfl, rfl⟩ := h
        have := takeBytes_length htake
        simp only [content]
        omega
    · simp only [Option.some.injEq, Prod.mk.injEq] at h
      obtain ⟨rfl, rfl⟩ := h
      simpa [content] using hlt
    · simp only [Option.some.injEq, Prod.mk.injEq] at h
      obtain ⟨rfl, rfl⟩ := h
      simpa [content] using hlt
    · simp only [Option.map_eq_some_iff, Prod.mk.injEq] at h
      obtain ⟨⟨taken, tail⟩, htake, rfl, rfl⟩ := h
      have := takeBytes_length htake
      simp only [content, List.length_nil]
      omega
    · simp at h

def scan (bytes : Bytes) : Option (List Token) :=
  if bytes = [] then some []
  else
    match h : read bytes with
    | none => none
    | some (t, rest) =>
        have := read_length h
        (scan rest).map (t :: ·)
termination_by bytes.length
decreasing_by omega

theorem content_length_lt {bytes : Bytes} {tokens : List Token} {t : Token}
    (h : scan bytes = some tokens) (ht : t ∈ tokens) : t.content.length < bytes.length := by
  fun_induction scan bytes generalizing tokens with
  | case1 => simp_all
  | case2 => simp at h
  | case3 bytes hne first rest hread hlt ih =>
    have := read_length hread
    simp only [Option.map_eq_some_iff] at h
    obtain ⟨tail, htail, rfl⟩ := h
    rcases List.mem_cons.mp ht with rfl | hmem
    · omega
    · have := ih htail hmem
      omega

/-- Whether at most `room` groups are ever open inside one another, of which `opened` are open
already. -/
def nestWithin (room : Nat) : (opened : Nat) → List Token → Bool
  | _, [] => true
  | opened, .entry _ :: rest => nestWithin room opened rest
  | opened, .openGroup _ :: rest => opened < room && nestWithin room (opened + 1) rest
  | opened, .closeGroup _ :: rest => nestWithin room (opened - 1) rest

end Token

namespace Entry

/-- The entries among tokens, inside the groups `opened`, the innermost first. -/
def ofTokens : (opened : List Nat) → List Token → Option (List Entry)
  | [], [] => some []
  | _ :: _, [] => none
  | [], .entry e :: rest => if e.number = 0 then none else (ofTokens [] rest).map (e :: ·)
  | opened@(_ :: _), .entry _ :: rest => ofTokens opened rest
  | opened, .openGroup number :: rest =>
      if opened = [] ∧ number = 0 then none else ofTokens (number :: opened) rest
  | [], .closeGroup _ :: _ => none
  | inner :: opened, .closeGroup number :: rest =>
      if number = inner then ofTokens opened rest else none

def scan (bytes : Bytes) : Option (List Entry) := (Token.scan bytes).bind (ofTokens [])

def content (e : Entry) : Bytes := (Token.entry e).content

theorem mem_of_mem_ofTokens {opened : List Nat} {tokens : List Token} {entries : List Entry}
    {e : Entry} (h : ofTokens opened tokens = some entries) (he : e ∈ entries) :
    Token.entry e ∈ tokens := by
  fun_induction ofTokens opened tokens generalizing entries with
  | case1 => simp_all
  | case2 => simp at h
  | case3 => simp at h
  | case4 first rest hne ih =>
    simp only [Option.map_eq_some_iff] at h
    obtain ⟨tail, htail, rfl⟩ := h
    rcases List.mem_cons.mp he with rfl | hmem
    · exact List.mem_cons_self
    · exact List.mem_cons_of_mem _ (ih htail hmem)
  | case5 rest inner opened first ih => exact List.mem_cons_of_mem _ (ih h he)
  | case6 => simp at h
  | case7 opened number rest hne ih => exact List.mem_cons_of_mem _ (ih h he)
  | case8 => simp at h
  | case9 opened number rest ih => exact List.mem_cons_of_mem _ (ih h he)
  | case10 => simp at h

/-- Nested bytes are fewer than the bytes they stand in. -/
theorem content_length_lt {bytes : Bytes} {entries : List Entry} {e : Entry}
    (h : scan bytes = some entries) (he : e ∈ entries) : e.content.length < bytes.length := by
  simp only [scan, Option.bind_eq_some_iff] at h
  obtain ⟨tokens, htokens, hentries⟩ := h
  exact Token.content_length_lt htokens (mem_of_mem_ofTokens hentries he)

def form : Value → Nat
  | .varint _ => 0
  | .fixed64 _ => 1
  | .bytes _ => 2
  | .fixed32 _ => 5

def write (e : Entry) : Bytes :=
  Varint.write (8 * e.number + form e.value) ++
    match e.value with
    | .varint n => Varint.write n
    | .fixed64 bytes | .fixed32 bytes => bytes
    | .bytes content => Varint.write content.length ++ content

end Entry

end ProtoStubs.Wire
