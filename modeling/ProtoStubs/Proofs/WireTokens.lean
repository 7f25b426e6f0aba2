import Mathlib.Data.List.Basic
import ProtoStubs.Wire.Entry

/-!
The spelling of numbers and tokens on the wire. A number may have more bytes than it needs, but how
far it reaches is told by its bytes, so no two spellings begin alike and bytes are spelled by one
list of tokens at most. Reading accepts exactly the spellings within its limits, and what is written
is a spelling.
-/

namespace ProtoStubs.Wire

variable {bytes rest a b : Bytes}

namespace Varint

variable {limit n m : Nat}

/-- Bytes that spell a number: seven bits in each, the lowest first. -/
inductive Spells : Nat → Bytes → Prop
  | last {byte : UInt8} (h : byte < 128) : Spells byte.toNat [byte]
  | more {byte : UInt8} {high : Nat} {tail : Bytes} (h : ¬ byte < 128) (htail : Spells high tail) :
      Spells (byte.toNat - 128 + 128 * high) (byte :: tail)

theorem Spells.ne_nil (h : Spells n bytes) : bytes ≠ [] := by
  cases h <;> simp

theorem readUpTo_append (h : Spells n a) (hlimit : a.length ≤ limit) (rest : Bytes) :
    readUpTo limit (a ++ rest) = some (n, rest) := by
  induction h generalizing limit with
  | last hbyte =>
    obtain ⟨limit, rfl⟩ := Nat.exists_eq_add_of_le' hlimit
    simp [readUpTo, hbyte]
  | more hbyte _ ih =>
    obtain ⟨limit, rfl⟩ := Nat.exists_eq_add_of_le' (Nat.le_of_add_left_le hlimit)
    have htail := ih (Nat.le_of_succ_le_succ hlimit)
    simp [readUpTo, hbyte, htail]

theorem spells_of_readUpTo (h : readUpTo limit bytes = some (n, rest)) :
    ∃ a, Spells n a ∧ a.length ≤ limit ∧ bytes = a ++ rest := by
  induction limit generalizing bytes n with
  | zero => simp [readUpTo] at h
  | succ limit ih =>
    cases bytes with
    | nil => simp [readUpTo] at h
    | cons byte tail =>
      rw [readUpTo] at h
      split at h
      · next hbyte =>
        cases h
        exact ⟨[byte], .last hbyte, by simp, rfl⟩
      · next hbyte =>
        split at h
        · cases h
        · next high rest' hread =>
          cases h
          obtain ⟨a, ha, hlimit, rfl⟩ := ih hread
          exact ⟨byte :: a, .more hbyte ha, by simpa using hlimit, rfl⟩

/-- No spelling of a number goes on as another. -/
theorem Spells.unique (ha : Spells n a) (hb : Spells m b) {x y : Bytes} (h : a ++ x = b ++ y) :
    n = m ∧ a = b ∧ x = y := by
  -- a limit that both spellings keep, so that one reading finds both of them
  have hread := readUpTo_append ha (Nat.le_add_right a.length b.length) x
  rw [h, readUpTo_append hb (Nat.le_add_left b.length a.length)] at hread
  obtain ⟨rfl, rfl⟩ : m = n ∧ y = x := by simpa using hread
  exact ⟨rfl, List.append_cancel_right h, rfl⟩

theorem spells_write (n : Nat) : Spells n (write n) := by
  fun_induction write n with
  | case1 n hn =>
    have hbyte : n.toUInt8.toNat = n := by simp; omega
    have hlast : n.toUInt8 < 128 := by
      rw [UInt8.lt_iff_toNat_lt, hbyte]
      exact hn
    simpa [hbyte] using Spells.last hlast
  | case2 n hn ih =>
    have hbyte : (n % 128 + 128).toUInt8.toNat = n % 128 + 128 := by simp; omega
    have hmore : ¬ (n % 128 + 128).toUInt8 < 128 := by
      rw [UInt8.lt_iff_toNat_lt, hbyte]
      exact Nat.not_lt.mpr (Nat.le_add_left 128 _)
    have hnumber : (n % 128 + 128).toUInt8.toNat - 128 + 128 * (n / 128) = n := by
      rw [hbyte]
      omega
    have hspells := Spells.more hmore ih
    rwa [hnumber] at hspells

/-- Bytes that spell numbers one after another, each in at most ten bytes. -/
inductive Spelled : Bytes → Prop
  | nil : Spelled []
  | cons {n : Nat} {a b : Bytes} (ha : Spells n a) (hshort : a.length ≤ 10) (hb : Spelled b) :
      Spelled (a ++ b)

theorem isSome_scan_iff : (scan bytes).isSome = true ↔ Spelled bytes := by
  constructor
  · intro h
    fun_induction scan bytes with
    | case1 => exact .nil
    | case2 => cases h
    | case3 bytes _ n rest hread _ ih =>
      rw [Option.isSome_map] at h
      obtain ⟨⟨_, _⟩, hupTo, heq⟩ := Option.map_eq_some_iff.mp hread
      obtain ⟨a, ha, hshort, rfl⟩ := spells_of_readUpTo hupTo
      cases heq
      exact .cons ha hshort (ih h)
  · intro h
    induction h with
    | nil => simp [scan]
    | @cons n a b ha hshort _ ih =>
      have hread : read (a ++ b) = some (n % 0x10000000000000000, b) := by
        rw [read, readUpTo_append ha hshort, Option.map_some]
      have hne : a ++ b ≠ [] := List.append_ne_nil_of_left_ne_nil ha.ne_nil b
      rw [scan, if_neg hne]
      split
      · next hnone => simp [hread] at hnone
      · next hsome =>
        cases hread.symm.trans hsome
        rw [Option.isSome_map]
        exact ih

def capacity : (size : Nat) → Nat
  | 0 => 1
  | size + 1 => 128 * capacity size

theorem lt_capacity (n : Nat) : n < capacity n := by
  induction n with
  | zero => decide
  | succ n ih =>
    rw [capacity]
    omega

theorem length_write_le (h : n < capacity (limit + 1)) : (write n).length ≤ limit + 1 := by
  induction limit generalizing n with
  | zero =>
    have hn : n < 128 := h
    rw [write, if_pos hn]
    simp
  | succ limit ih =>
    rw [write]
    split_ifs
    · simp
    · simpa using ih (Nat.div_lt_of_lt_mul h)

end Varint

namespace Token

variable {size size' number form : Nat} {t t' : Token} {tokens tokens' : List Token}

structure Tag (number form : Nat) (bytes : Bytes) : Prop where
  spells : Varint.Spells (8 * number + form) bytes
  short : bytes.length ≤ 5
  fits : 8 * number + form < 0x100000000

/-- The bytes of a token after its tag. Lengths have at most `size` bytes. -/
inductive Payload (size number : Nat) : (form : Nat) → Token → Bytes → Prop
  | varint {n : Nat} {value : Bytes} (hvalue : Varint.Spells n value) (hshort : value.length ≤ 10) :
      Payload size number 0 (.entry ⟨number, .varint (n % 0x10000000000000000)⟩) value
  | fixed64 {value : Bytes} (hvalue : value.length = 8) :
      Payload size number 1 (.entry ⟨number, .fixed64 value⟩) value
  | bytes {length content : Bytes} (hlength : Varint.Spells content.length length)
      (hsize : length.length ≤ size) :
      Payload size number 2 (.entry ⟨number, .bytes content⟩) (length ++ content)
  | openGroup : Payload size number 3 (.openGroup number) []
  | closeGroup : Payload size number 4 (.closeGroup number) []
  | fixed32 {value : Bytes} (hvalue : value.length = 4) :
      Payload size number 5 (.entry ⟨number, .fixed32 value⟩) value

inductive Spells (size : Nat) (t : Token) : Bytes → Prop
  | mk {number form : Nat} {tag payload : Bytes} (htag : Tag number form tag)
      (hpayload : Payload size number form t payload) : Spells size t (tag ++ payload)

theorem Payload.form_lt (h : Payload size number form t bytes) : form < 8 := by
  cases h <;> decide

theorem readTag_append (h : Tag number form a) (hform : form < 8) (rest : Bytes) :
    readTag (a ++ rest) = some (number, form, rest) := by
  have hnumber : (8 * number + form) / 8 = number := by omega
  have hrest : (8 * number + form) % 8 = form := by omega
  rw [readTag, Varint.readUpTo_append h.spells h.short]
  simp only [h.fits, if_true, hnumber, hrest]

theorem tag_of_readTag (h : readTag bytes = some (number, form, rest)) :
    ∃ a, Tag number form a ∧ bytes = a ++ rest := by
  unfold readTag at h
  split at h
  · cases h
  · next tag rest' hread =>
    split at h
    · next hfits =>
      cases h
      obtain ⟨a, ha, hshort, rfl⟩ := Varint.spells_of_readUpTo hread
      have hsum : 8 * (tag / 8) + tag % 8 = tag := Nat.div_add_mod tag 8
      exact ⟨a, ⟨by rwa [hsum], hshort, by rwa [hsum]⟩, rfl⟩
    · cases h

theorem takeBytes_append (a rest : Bytes) : takeBytes a.length (a ++ rest) = some (a, rest) := by
  simp [takeBytes]

theorem append_of_takeBytes {n : Nat} (h : takeBytes n bytes = some (a, rest)) :
    a.length = n ∧ bytes = a ++ rest := by
  unfold takeBytes at h
  split at h
  · next hle =>
    cases h
    exact ⟨List.length_take_of_le hle, (List.take_append_drop n bytes).symm⟩
  · cases h

theorem read_append (h : Spells 5 t a) (rest : Bytes) : read (a ++ rest) = some (t, rest) := by
  obtain ⟨htag, hpayload⟩ := h
  rw [read, List.append_assoc, readTag_append htag hpayload.form_lt]
  cases hpayload with
  | varint hvalue hshort => simp [Varint.read, Varint.readUpTo_append hvalue hshort]
  | fixed64 hvalue => simp [← hvalue, takeBytes_append]
  | bytes hlength hsize => simp [Varint.readUpTo_append hlength hsize, takeBytes_append]
  | openGroup => rfl
  | closeGroup => rfl
  | fixed32 hvalue => simp [← hvalue, takeBytes_append]

theorem spells_of_read (h : read bytes = some (t, rest)) :
    ∃ a, Spells 5 t a ∧ bytes = a ++ rest := by
  unfold read at h
  split at h
  · cases h
  · next number form rest' hreadTag =>
    obtain ⟨tag, htag, rfl⟩ := tag_of_readTag hreadTag
    suffices ∃ payload, Payload 5 number form t payload ∧ rest' = payload ++ rest by
      obtain ⟨payload, hpayload, rfl⟩ := this
      exact ⟨tag ++ payload, ⟨htag, hpayload⟩, (List.append_assoc _ _ _).symm⟩
    split at h
    · obtain ⟨⟨n, tail⟩, hread, heq⟩ := Option.map_eq_some_iff.mp h
      cases heq
      obtain ⟨⟨m, tail'⟩, hupTo, heq⟩ := Option.map_eq_some_iff.mp hread
      cases heq
      obtain ⟨value, hvalue, hshort, rfl⟩ := Varint.spells_of_readUpTo hupTo
      exact ⟨value, .varint hvalue hshort, rfl⟩
    · obtain ⟨⟨value, tail⟩, htake, heq⟩ := Option.map_eq_some_iff.mp h
      cases heq
      obtain ⟨hlength, rfl⟩ := append_of_takeBytes htake
      exact ⟨value, .fixed64 hlength, rfl⟩
    · split at h
      · cases h
      · next length tail hread =>
        obtain ⟨⟨content, tail'⟩, htake, heq⟩ := Option.map_eq_some_iff.mp h
        cases heq
        obtain ⟨spelled, hspelled, hshort, rfl⟩ := Varint.spells_of_readUpTo hread
        obtain ⟨rfl, rfl⟩ := append_of_takeBytes htake
        exact ⟨spelled ++ content, .bytes hspelled hshort, (List.append_assoc _ _ _).symm⟩
    · cases h
      exact ⟨[], .openGroup, rfl⟩
    · cases h
      exact ⟨[], .closeGroup, rfl⟩
    · obtain ⟨⟨value, tail⟩, htake, heq⟩ := Option.map_eq_some_iff.mp h
      cases heq
      obtain ⟨hlength, rfl⟩ := append_of_takeBytes htake
      exact ⟨value, .fixed32 hlength, rfl⟩
    · cases h

theorem Spells.ne_nil (h : Spells size t a) : a ≠ [] := by
  obtain ⟨htag, _⟩ := h
  simp [htag.spells.ne_nil]

theorem Payload.unique {x y : Bytes} (ha : Payload size number form t a)
    (hb : Payload size' number form t' b) (h : a ++ x = b ++ y) : t = t' ∧ x = y := by
  cases ha with
  | varint hvalue =>
    cases hb with
    | varint hvalue' =>
      obtain ⟨rfl, _, rfl⟩ := hvalue.unique hvalue' h
      exact ⟨rfl, rfl⟩
  | fixed64 hvalue =>
    cases hb with
    | fixed64 hvalue' =>
      obtain ⟨rfl, rfl⟩ := List.append_inj h (hvalue.trans hvalue'.symm)
      exact ⟨rfl, rfl⟩
  | bytes hlength =>
    cases hb with
    | bytes hlength' =>
      rw [List.append_assoc, List.append_assoc] at h
      obtain ⟨hsame, _, hrest⟩ := hlength.unique hlength' h
      obtain ⟨rfl, rfl⟩ := List.append_inj hrest hsame
      exact ⟨rfl, rfl⟩
  | openGroup =>
    cases hb
    exact ⟨rfl, h⟩
  | closeGroup =>
    cases hb
    exact ⟨rfl, h⟩
  | fixed32 hvalue =>
    cases hb with
    | fixed32 hvalue' =>
      obtain ⟨rfl, rfl⟩ := List.append_inj h (hvalue.trans hvalue'.symm)
      exact ⟨rfl, rfl⟩

/-- No spelling of a token goes on as another, whatever lengths are allowed. -/
theorem Spells.unique (ha : Spells size t a) (hb : Spells size' t' b) {x y : Bytes}
    (h : a ++ x = b ++ y) : t = t' ∧ x = y := by
  obtain @⟨number, form, _, _, htag, hpayload⟩ := ha
  obtain @⟨number', form', _, _, htag', hpayload'⟩ := hb
  rw [List.append_assoc, List.append_assoc] at h
  obtain ⟨hsum, _, hrest⟩ := htag.spells.unique htag'.spells h
  have hform := hpayload.form_lt
  have hform' := hpayload'.form_lt
  obtain rfl : number = number' := by omega
  obtain rfl : form = form' := by omega
  exact hpayload.unique hpayload' hrest

inductive Spelled (size : Nat) : List Token → Bytes → Prop
  | nil : Spelled size [] []
  | cons {t : Token} {tokens : List Token} {a b : Bytes} (ht : Spells size t a)
      (htokens : Spelled size tokens b) : Spelled size (t :: tokens) (a ++ b)

theorem scan_of_spelled (h : Spelled 5 tokens bytes) : scan bytes = some tokens := by
  induction h with
  | nil => rw [scan, if_pos rfl]
  | @cons t tokens a b ht htokens ih =>
    have hne : a ++ b ≠ [] := by simp [ht.ne_nil]
    have hread := read_append ht b
    rw [scan, if_neg hne]
    split
    · next hnone =>
      rw [hread] at hnone
      cases hnone
    · next t' rest hsome =>
      rw [hread] at hsome
      cases hsome
      rw [ih, Option.map_some]

theorem spelled_of_scan (h : scan bytes = some tokens) : Spelled 5 tokens bytes := by
  fun_induction scan bytes generalizing tokens with
  | case1 =>
    cases h
    exact .nil
  | case2 => cases h
  | case3 bytes _ t rest hread _ ih =>
    obtain ⟨tail, htail, rfl⟩ := Option.map_eq_some_iff.mp h
    obtain ⟨a, ha, rfl⟩ := spells_of_read hread
    exact .cons ha (ih htail)

/-- Bytes are scanned exactly as they are spelled. -/
theorem scan_iff : scan bytes = some tokens ↔ Spelled 5 tokens bytes :=
  ⟨spelled_of_scan, scan_of_spelled⟩

/-- Bytes spell one list of tokens at most. -/
theorem Spelled.unique (ha : Spelled size tokens bytes) (hb : Spelled size' tokens' bytes) :
    tokens = tokens' := by
  induction ha generalizing tokens' with
  | nil =>
    generalize hnil : ([] : Bytes) = bytes at hb
    cases hb with
    | nil => rfl
    | cons ht => simp [ht.ne_nil] at hnil
  | @cons t tokens a b ht _ ih =>
    generalize hbytes : a ++ b = bytes at hb
    cases hb with
    | nil => simp [ht.ne_nil] at hbytes
    | cons ht' htokens' =>
      obtain ⟨rfl, rfl⟩ := ht.unique ht' hbytes
      rw [ih htokens']

end Token

namespace Entry

variable {size : Nat} {e : Entry} {es : List Entry}

/-- Whether an entry can be written with lengths of at most `size` bytes. -/
structure Fits (size : Nat) (e : Entry) : Prop where
  number : 8 * e.number + 5 < 0x100000000
  value : match e.value with
    | .varint n => n < 0x10000000000000000
    | .fixed64 bytes => bytes.length = 8
    | .bytes content => content.length < Varint.capacity size
    | .fixed32 bytes => bytes.length = 4

theorem form_le (v : Value) : form v ≤ 5 := by
  cases v <;> simp [form]

theorem spells_write (h : Fits (size + 1) e) : Token.Spells (size + 1) (.entry e) e.write := by
  obtain ⟨number, value⟩ := e
  have htag : Token.Tag number (form value) (Varint.write (8 * number + form value)) := by
    have hform := form_le value
    have hnumber : 8 * number + 5 < 0x100000000 := h.number
    refine ⟨Varint.spells_write _, Varint.length_write_le ?_, by omega⟩
    calc 8 * number + form value < 0x100000000 := by omega
      _ ≤ Varint.capacity (4 + 1) := by decide
  have hvalue := h.value
  refine ⟨htag, ?_⟩
  cases value with
  | varint n =>
    have hlength : (Varint.write n).length ≤ 9 + 1 :=
      Varint.length_write_le (Nat.lt_of_lt_of_le hvalue (by decide))
    have hpayload : Token.Payload (size + 1) number 0
        (.entry ⟨number, .varint (n % 0x10000000000000000)⟩) (Varint.write n) :=
      .varint (Varint.spells_write n) hlength
    rwa [Nat.mod_eq_of_lt hvalue] at hpayload
  | fixed64 bytes => exact .fixed64 hvalue
  | bytes content => exact .bytes (Varint.spells_write _) (Varint.length_write_le hvalue)
  | fixed32 bytes => exact .fixed32 hvalue

theorem spelled_writeEntries (h : ∀ e ∈ es, Fits (size + 1) e) :
    Token.Spelled (size + 1) (es.map .entry) (writeEntries es) := by
  induction es with
  | nil => exact .nil
  | cons e rest ih =>
    obtain ⟨he, hrest⟩ := List.forall_mem_cons.mp h
    exact .cons (spells_write he) (ih hrest)

end Entry

end ProtoStubs.Wire
