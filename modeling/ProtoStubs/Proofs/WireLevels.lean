import Mathlib.Tactic.SplitIfs
import ProtoStubs.Proofs.WireTokens
import ProtoStubs.Wire.Shape

/-!
One level of a message on the wire: its entries, with groups between them that nobody reads. A level
has room for groups and messages down to some depth. Bytes have the entries of one level at most,
and they are well-formed in a shape if and only if they have them within the room and each of them
is well-formed.
-/

namespace ProtoStubs.Wire

variable {room limit size size' room' : Nat} {body rest tokens : List Token} {es es' : List Entry}
variable {bytes : Bytes}

/-- What may stand inside a group: anything, as long as the groups in it are closed in turn and at
most `room` of them are open at once. -/
inductive Token.Enclosed : (room : Nat) → List Token → Prop
  | nil {room : Nat} : Enclosed room []
  | entry {room : Nat} {e : Entry} {rest : List Token} (hrest : Enclosed room rest) :
      Enclosed room (.entry e :: rest)
  | group {room number : Nat} {body rest : List Token} (hbody : Enclosed room body)
      (hrest : Enclosed (room + 1) rest) :
      Enclosed (room + 1) (.openGroup number :: (body ++ .closeGroup number :: rest))

namespace Entry

/-- The entries among tokens, outside of groups. Groups are at most `room` deep. -/
inductive Listed : (room : Nat) → List Token → List Entry → Prop
  | nil {room : Nat} : Listed room [] []
  | entry {room : Nat} {e : Entry} {rest : List Token} {es : List Entry} (hnumber : e.number ≠ 0)
      (hrest : Listed room rest es) : Listed room (.entry e :: rest) (e :: es)
  | group {room number : Nat} {body rest : List Token} {es : List Entry} (hnumber : number ≠ 0)
      (hbody : Token.Enclosed room body) (hrest : Listed (room + 1) rest es) :
      Listed (room + 1) (.openGroup number :: (body ++ .closeGroup number :: rest)) es

/-- What is inside a group adds no entries. -/
theorem ofTokens_enclosed (h : Token.Enclosed room body) (inner : Nat) (opened : List Nat)
    (rest : List Token) :
    ofTokens (inner :: opened) (body ++ rest) = ofTokens (inner :: opened) rest := by
  induction h generalizing inner opened rest with
  | nil => rfl
  | entry _ ih => exact ih inner opened rest
  | @group room number body tail _ _ ihbody ihtail =>
    have hopen : ¬ ((inner :: opened) = [] ∧ number = 0) := by simp
    rw [List.cons_append, List.append_assoc, List.cons_append, ofTokens, if_neg hopen, ihbody,
      ofTokens, if_pos rfl, ihtail]

/-- A group leaves as many groups open as there were. -/
theorem nestWithin_enclosed {opened : Nat} (h : Token.Enclosed room body)
    (hroom : opened + room ≤ limit) (rest : List Token) :
    Token.nestWithin limit opened (body ++ rest) = Token.nestWithin limit opened rest := by
  induction h generalizing opened rest with
  | nil => rfl
  | entry _ ih => exact ih hroom rest
  | @group room number body tail _ _ ihbody ihtail =>
    have hopen : opened < limit := by omega
    rw [List.cons_append, List.append_assoc, List.cons_append, Token.nestWithin,
      ihbody (by omega), Token.nestWithin, Nat.add_sub_cancel, ihtail hroom]
    simp [hopen]

theorem ofTokens_of_listed (h : Listed room tokens es) : ofTokens [] tokens = some es := by
  induction h with
  | nil => rfl
  | entry hnumber _ ih => rw [ofTokens, if_neg hnumber, ih, Option.map_some]
  | group hnumber hbody _ ih =>
    rw [ofTokens, if_neg (fun h => hnumber h.2), ofTokens_enclosed hbody, ofTokens, if_pos rfl, ih]

theorem nestWithin_of_listed (h : Listed room tokens es) :
    Token.nestWithin room 0 tokens = true := by
  induction h with
  | nil => rfl
  | entry _ _ ih => exact ih
  | @group room number body rest _ _ hbody _ ih =>
    rw [Token.nestWithin, nestWithin_enclosed hbody (Nat.le_of_eq (Nat.add_comm _ _)),
      Token.nestWithin, Nat.sub_self, ih]
    simp

/-- Tokens that close an open group: what is inside it, its end, and what follows. -/
theorem exists_enclosed {inner : Nat} {opened : List Nat}
    (h : ofTokens (inner :: opened) tokens = some es)
    (hnest : Token.nestWithin limit (opened.length + 1) tokens = true)
    (hlimit : opened.length + 1 ≤ limit) :
    ∃ body rest, tokens = body ++ .closeGroup inner :: rest ∧
      Token.Enclosed (limit - (opened.length + 1)) body ∧
      ofTokens opened rest = some es ∧ Token.nestWithin limit opened.length rest = true := by
  induction hlength : tokens.length using Nat.strongRecOn generalizing tokens inner opened with
  | ind length ih =>
    subst hlength
    cases tokens with
    | nil => cases h
    | cons t tail =>
      have hshort : tail.length < (t :: tail).length := Nat.lt_succ_self _
      cases t with
      | entry e =>
        have htail : ofTokens (inner :: opened) tail = some es := h
        have hnest' : Token.nestWithin limit (opened.length + 1) tail = true := hnest
        obtain ⟨body, rest, rfl, hbody, hrest⟩ := ih _ hshort htail hnest' hlimit rfl
        exact ⟨.entry e :: body, rest, rfl, .entry hbody, hrest⟩
      | openGroup number =>
        -- the group that opens here ends first, and then the one around it
        rw [ofTokens, if_neg (by simp)] at h
        rw [Token.nestWithin, Bool.and_eq_true, decide_eq_true_iff] at hnest
        obtain ⟨body, rest, rfl, hbody, h', hnest'⟩ := ih _ hshort h hnest.2 hnest.1 rfl
        have hshort' : rest.length < (Token.openGroup number ::
            (body ++ Token.closeGroup number :: rest)).length := by
          simp only [List.length_cons, List.length_append]
          omega
        obtain ⟨body', rest', rfl, hbody', hrest'⟩ := ih _ hshort' h' hnest' hlimit rfl
        refine ⟨.openGroup number :: (body ++ .closeGroup number :: body'), rest', by simp, ?_,
          hrest'⟩
        obtain ⟨room, hroom⟩ : ∃ room, limit - (opened.length + 1) = room + 1 :=
          ⟨limit - (opened.length + 2), by have := hnest.1; omega⟩
        have hinner : limit - ((inner :: opened).length + 1) = room := by
          rw [List.length_cons]
          omega
        rw [hroom] at hbody' ⊢
        rw [hinner] at hbody
        exact .group hbody hbody'
      | closeGroup number =>
        rw [ofTokens] at h
        split_ifs at h with hnumber
        · subst hnumber
          exact ⟨[], tail, rfl, .nil, h, hnest⟩

theorem listed_of_ofTokens (h : ofTokens [] tokens = some es)
    (hnest : Token.nestWithin room 0 tokens = true) : Listed room tokens es := by
  induction hlength : tokens.length using Nat.strongRecOn generalizing tokens es with
  | ind length ih =>
    subst hlength
    cases tokens with
    | nil =>
      cases h
      exact .nil
    | cons t tail =>
      have hshort : tail.length < (t :: tail).length := Nat.lt_succ_self _
      cases t with
      | entry e =>
        rw [ofTokens] at h
        split_ifs at h with hnumber
        obtain ⟨es', hes', rfl⟩ := Option.map_eq_some_iff.mp h
        exact .entry hnumber (ih _ hshort hes' hnest rfl)
      | openGroup number =>
        rw [ofTokens] at h
        split_ifs at h with hnumber
        rw [Token.nestWithin, Bool.and_eq_true, decide_eq_true_iff] at hnest
        obtain ⟨body, rest, rfl, hbody, hrest, hnest'⟩ := exists_enclosed h hnest.2 hnest.1
        have hshort' : rest.length < (Token.openGroup number ::
            (body ++ Token.closeGroup number :: rest)).length := by
          simp only [List.length_cons, List.length_append]
          omega
        have hlisted := ih _ hshort' hrest hnest' rfl
        cases room with
        | zero => cases hnest.1
        | succ room => exact .group (fun hzero => hnumber ⟨rfl, hzero⟩) hbody hlisted
      | closeGroup number => cases h

/-- Groups balance and stay within the room exactly if entries are listed among them. -/
theorem listed_iff : Listed room tokens es ↔
    ofTokens [] tokens = some es ∧ Token.nestWithin room 0 tokens = true :=
  ⟨fun h => ⟨ofTokens_of_listed h, nestWithin_of_listed h⟩, fun h => listed_of_ofTokens h.1 h.2⟩

theorem enclosed_mono (h : Token.Enclosed room body) (hroom : room ≤ room') :
    Token.Enclosed room' body := by
  induction h generalizing room' with
  | nil => exact .nil
  | entry _ ih => exact .entry (ih hroom)
  | group _ _ ihbody ihrest =>
    cases room' with
    | zero => cases hroom
    | succ room' => exact .group (ihbody (Nat.le_of_succ_le_succ hroom)) (ihrest hroom)

theorem listed_mono (h : Listed room tokens es) (hroom : room ≤ room') :
    Listed room' tokens es := by
  induction h generalizing room' with
  | nil => exact .nil
  | entry hnumber _ ih => exact .entry hnumber (ih hroom)
  | group hnumber hbody _ ih =>
    cases room' with
    | zero => cases hroom
    | succ room' =>
      exact .group hnumber (enclosed_mono hbody (Nat.le_of_succ_le_succ hroom)) (ih hroom)

theorem listed_map (h : ∀ e ∈ es, e.number ≠ 0) : Listed room (es.map .entry) es := by
  induction es with
  | nil => exact .nil
  | cons e rest ih =>
    obtain ⟨he, hrest⟩ := List.forall_mem_cons.mp h
    exact .entry he (ih hrest)

end Entry

/-- The entries of a message on the wire. Lengths have at most `size` bytes, and groups are at most
`room` deep. -/
def Carries (size room : Nat) (bytes : Bytes) (es : List Entry) : Prop :=
  ∃ tokens, Token.Spelled size tokens bytes ∧ Entry.Listed room tokens es

namespace Carries

theorem unique (h : Carries size room bytes es) (h' : Carries size' room' bytes es') :
    es = es' := by
  obtain ⟨tokens, hspelled, hlisted⟩ := h
  obtain ⟨tokens', hspelled', hlisted'⟩ := h'
  obtain rfl := hspelled.unique hspelled'
  have hes := Entry.ofTokens_of_listed hlisted
  rw [Entry.ofTokens_of_listed hlisted'] at hes
  exact (Option.some.inj hes).symm

theorem mono (h : Carries size room bytes es) (hroom : room ≤ room') :
    Carries size room' bytes es := by
  obtain ⟨tokens, hspelled, hlisted⟩ := h
  exact ⟨tokens, hspelled, Entry.listed_mono hlisted hroom⟩

/-- The entries of a message are those among its tokens, if the groups are closed and not too
deep. -/
theorem iff_scan : Carries 5 room bytes es ↔ ∃ tokens, Token.scan bytes = some tokens ∧
    Entry.ofTokens [] tokens = some es ∧ Token.nestWithin room 0 tokens = true := by
  simp only [Carries, Token.scan_iff, Entry.listed_iff]

theorem scan_eq (h : Carries 5 room bytes es) : Entry.scan bytes = some es := by
  obtain ⟨tokens, hscan, hes, _⟩ := iff_scan.mp h
  rw [Entry.scan, hscan, Option.bind_some, hes]

theorem foldEntries_eq {α : Type} (h : Carries 5 room bytes es) (absorb : α → Entry → Option α)
    (start : α) : foldEntries absorb start bytes = es.foldlM absorb start := by
  rw [foldEntries, h.scan_eq, Option.bind_some]

theorem writeEntries (hfits : ∀ e ∈ es, e.Fits (size + 1)) (hnumber : ∀ e ∈ es, e.number ≠ 0) :
    Carries (size + 1) room (writeEntries es) es :=
  ⟨es.map .entry, Entry.spelled_writeEntries hfits, Entry.listed_map hnumber⟩

end Carries

namespace Shape

/-- Whether bytes are a message that may stand in one with so much room. -/
def below : (room : Nat) → Shape → Bytes → Bool
  | 0 => fun _ _ => false
  | room + 1 => admits room

theorem admits_eq (room : Nat) (s : Shape) (bytes : Bytes) :
    s.admits room bytes = s.admitsWith room (below room) bytes := by
  cases room <;> rfl

/-- Bytes are well-formed if and only if they have entries that are. -/
theorem admits_iff {s : Shape} : s.admits room bytes = true ↔
    ∃ es, Carries 5 room bytes es ∧ ∀ e ∈ es, s.admitsEntry (below room) e = true := by
  rw [admits_eq, admitsWith]
  constructor
  · intro h
    split at h
    · cases h
    · next tokens hscan =>
      rw [Bool.and_eq_true] at h
      obtain ⟨hnest, h⟩ := h
      split at h
      · cases h
      · next es hes =>
        exact ⟨es, Carries.iff_scan.mpr ⟨tokens, hscan, hes, hnest⟩, List.all_eq_true.mp h⟩
  · rintro ⟨es, hcarries, hall⟩
    obtain ⟨tokens, hscan, hes, hnest⟩ := Carries.iff_scan.mp hcarries
    simp only [hscan, hes, hnest, List.all_eq_true.mpr hall, Bool.and_self]

theorem admitsEntry_mono {inner inner' : Shape → Bytes → Bool} {s : Shape} {e : Entry}
    (h : ∀ part content, inner part content = true → inner' part content = true)
    (hadmits : s.admitsEntry inner e = true) : s.admitsEntry inner' e = true := by
  obtain ⟨number, value⟩ := e
  cases value with
  | bytes content =>
    rw [admitsEntry] at hadmits ⊢
    cases hpart : s.parts.lookup number with
    | none => rfl
    | some part =>
      rw [hpart] at hadmits
      cases part with
      | message part => exact h part content hadmits
      | numbers => exact hadmits
  | _ => rfl

/-- What is well-formed stays so in more room. -/
theorem below_mono (hroom : room ≤ room') {part : Shape} {content : Bytes}
    (h : below room part content = true) : below room' part content = true := by
  induction room generalizing room' part content with
  | zero => cases h
  | succ room ih =>
    cases room' with
    | zero => cases hroom
    | succ room' =>
      have hle : room ≤ room' := Nat.le_of_succ_le_succ hroom
      obtain ⟨es, hcarries, hall⟩ := admits_iff.mp h
      exact admits_iff.mpr ⟨es, hcarries.mono hle,
        fun e he => admitsEntry_mono (fun _ _ => ih hle) (hall e he)⟩

theorem admits_mono {s : Shape} (hroom : room ≤ room') (h : s.admits room bytes = true) :
    s.admits room' bytes = true :=
  below_mono (Nat.succ_le_succ hroom) h

end Shape

end ProtoStubs.Wire
