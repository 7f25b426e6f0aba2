/-!
Variable-length numbers: seven bits in each byte, the lowest first, with the top bit set on all
bytes but the last. A number has at most ten bytes and is taken modulo two to the 64th; it may have
more bytes than it needs.
-/

namespace ProtoStubs.Wire

abbrev Bytes := List UInt8

namespace Varint

/-- A number of at most `limit` bytes off the front. -/
def readUpTo : (limit : Nat) → Bytes → Option (Nat × Bytes)
  | 0, _ => none
  | _ + 1, [] => none
  | limit + 1, b :: rest =>
      if b < 128 then some (b.toNat, rest)
      else
        match readUpTo limit rest with
        | none => none
        | some (high, rest) => some (b.toNat - 128 + 128 * high, rest)

def read (bytes : Bytes) : Option (Nat × Bytes) :=
  (readUpTo 10 bytes).map fun r => (r.1 % 0x10000000000000000, r.2)

/-- The fewest bytes that read back as `n`. -/
def write (n : Nat) : Bytes :=
  if n < 128 then [n.toUInt8] else (n % 128 + 128).toUInt8 :: write (n / 128)

theorem readUpTo_length {limit : Nat} {bytes rest : Bytes} {n : Nat}
    (h : readUpTo limit bytes = some (n, rest)) : rest.length < bytes.length := by
  induction limit generalizing bytes n with
  | zero => simp [readUpTo] at h
  | succ limit ih =>
    cases bytes with
    | nil => simp [readUpTo] at h
    | cons b tail =>
      simp only [readUpTo] at h
      split at h
      · simp_all
      · split at h
        · simp at h
        · next high rest' hread =>
          simp only [Option.some.injEq, Prod.mk.injEq] at h
          obtain ⟨-, rfl⟩ := h
          have := ih hread
          simp only [List.length_cons]
          omega

theorem read_length {bytes rest : Bytes} {n : Nat} (h : read bytes = some (n, rest)) :
    rest.length < bytes.length := by
  simp only [read, Option.map_eq_some_iff] at h
  obtain ⟨⟨m, rest'⟩, hread, heq⟩ := h
  have := readUpTo_length hread
  simp_all

def scan (bytes : Bytes) : Option (List Nat) :=
  if bytes = [] then some []
  else
    match h : read bytes with
    | none => none
    | some (n, rest) =>
        have := read_length h
        (scan rest).map (n :: ·)
termination_by bytes.length

end Varint

end ProtoStubs.Wire
