import Mathlib.Data.List.Forall2
import ProtoStubs.Options
import ProtoStubs.Proofs.Texts

/-!
The language of parameters. A piece either sets one option or is refused, and which of the two does
not depend on the pieces before it. So a parameter is read exactly if all its pieces set something.
Of several pieces that set the same option the last one counts, and the fault of a parameter that is
not read is that of the first piece that is refused.
-/

namespace ProtoStubs

theorem Role.ofName?_name (r : Role) : Role.ofName? r.name = some r := by
  cases r <;> rfl

theorem Role.ofName?_eq_none {name : String} (h : ∀ r : Role, name ≠ r.name) :
    Role.ofName? name = none := by
  simp [Role.ofName?, (h .client).symm, (h .server).symm]

inductive Setting where
  | role (r : Role)
  | helper (path : String)
  | strict
deriving Repr, DecidableEq

namespace Setting

def role? : Setting → Option Role
  | .role r => some r
  | _ => none

def path? : Setting → Option String
  | .helper path => some path
  | _ => none

end Setting

namespace Options

variable {p key value : String} {s : Setting} {fault : Fault} {ps before after : List String}
  {settings : List Setting}

theorem keyValue_append (hfirst : '=' ∉ key.toList) (value : String) :
    keyValue (key ++ "=" ++ value) = (Text.trim key, some (Text.trim value)) := by
  have hcut : Text.cut '=' (key ++ "=" ++ value) = (key, some value) :=
    Text.cut_append hfirst (by simp)
  rw [keyValue, hcut]

theorem keyValue_word (h : '=' ∉ p.toList) : keyValue p = (p, none) := by
  rw [keyValue, Text.cut_of_notMem h]

/-- The pieces of a parameter are its parts between commas, without the blanks around them. Parts
that are blank or empty do not count. -/
def Pieces (parameter : String) (ps : List String) : Prop :=
  ∃ parts trimmed, parameter = ",".intercalate parts ∧ (∀ part ∈ parts, ',' ∉ part.toList) ∧
    List.Forall₂ Text.Trims parts trimmed ∧ ps = trimmed.filter (· ≠ "")

theorem forall₂_trims {parts trimmed : List String} :
    List.Forall₂ Text.Trims parts trimmed ↔ trimmed = parts.map Text.trim := by
  have hsame : Text.Trims = fun part p => Text.trim part = p :=
    funext fun _ => funext fun _ => propext Text.trims_iff
  rw [hsame, ← List.forall₂_map_left_iff, List.forall₂_eq_eq_eq, eq_comm]

theorem pieces_iff {parameter : String} : Pieces parameter ps ↔ pieces parameter = ps := by
  constructor
  · rintro ⟨parts, trimmed, rfl, hcommas, htrimmed, rfl⟩
    rw [forall₂_trims.mp htrimmed, pieces]
    cases parts with
    | nil => decide
    | cons part rest => rw [Text.split_intercalate_of rfl hcommas (List.cons_ne_nil _ _)]
  · rintro rfl
    exact ⟨_, _, (Text.intercalate_split rfl parameter).symm, fun _ h => (Text.of_mem_split h).1,
      forall₂_trims.mpr rfl, rfl⟩

/-- A piece sets an option: the bare name of a role, the word for strictness, or a key and a value
around the first equals sign. Blanks around keys and values do not count. -/
inductive Sets : String → Setting → Prop
  | word (r : Role) : Sets r.name (.role r)
  | strict : Sets "strict" .strict
  | role {key value : String} {r : Role} (hfirst : '=' ∉ key.toList)
      (hkey : Text.Trims key "role") (hvalue : Text.Trims value r.name) :
      Sets (key ++ "=" ++ value) (.role r)
  | helper {key value path : String} (hfirst : '=' ∉ key.toList)
      (hkey : Text.Trims key "webapi_path") (hvalue : Text.Trims value path) (hne : path ≠ "") :
      Sets (key ++ "=" ++ value) (.helper path)

/-- A piece is refused. Where a role is to be named the fault is in the name, or in that there is
none; otherwise it is in the piece as a whole. -/
inductive Refuses : String → Fault → Prop
  | noRole : Refuses "role" (.unknownRole none)
  | role {key value name : String} (hfirst : '=' ∉ key.toList) (hkey : Text.Trims key "role")
      (hvalue : Text.Trims value name) (hname : ∀ r : Role, name ≠ r.name) :
      Refuses (key ++ "=" ++ value) (.unknownRole (some name))
  | word {p : String} (hbare : '=' ∉ p.toList)
      (hword : p ∉ ["client", "server", "strict", "role"]) : Refuses p (.unknownOption p)
  | noPath {key value : String} (hfirst : '=' ∉ key.toList)
      (hkey : Text.Trims key "webapi_path") (hvalue : Text.Trims value "") :
      Refuses (key ++ "=" ++ value) (.unknownOption (key ++ "=" ++ value))
  | key {key value name : String} (hfirst : '=' ∉ key.toList) (hkey : Text.Trims key name)
      (hname : name ∉ ["role", "webapi_path"]) :
      Refuses (key ++ "=" ++ value) (.unknownOption (key ++ "=" ++ value))

def apply (o : Options) : Setting → Options
  | .role r => { o with role := r }
  | .helper path => { o with helper := some path }
  | .strict => { o with strict := true }

/-- What a piece sets is set, whatever the options are. -/
theorem Sets.set_eq (h : Sets p s) (o : Options) : o.set p = .ok (o.apply s) := by
  cases h with
  | word r => cases r <;> rfl
  | strict => rfl
  | role hfirst hkey hvalue =>
    rw [set, keyValue_append hfirst, Text.trims_iff.mp hkey, Text.trims_iff.mp hvalue]
    simp [Role.ofName?_name, apply]
  | helper hfirst hkey hvalue hne =>
    rw [set, keyValue_append hfirst, Text.trims_iff.mp hkey, Text.trims_iff.mp hvalue]
    simp [hne, apply]

theorem Refuses.set_eq (h : Refuses p fault) (o : Options) : o.set p = .error fault := by
  cases h with
  | noRole => rfl
  | role hfirst hkey hvalue hname =>
    rw [set, keyValue_append hfirst, Text.trims_iff.mp hkey, Text.trims_iff.mp hvalue]
    simp [Role.ofName?_eq_none hname]
  | word hbare hword =>
    rw [set, keyValue_word hbare]
    simp only [List.mem_cons, List.not_mem_nil, or_false, not_or] at hword
    obtain ⟨hclient, hserver, hstrict, hrole⟩ := hword
    split <;> simp_all
  | noPath hfirst hkey hvalue =>
    rw [set, keyValue_append hfirst, Text.trims_iff.mp hkey, Text.trims_iff.mp hvalue]
    simp
  | key hfirst hkey hname =>
    rw [set, keyValue_append hfirst, Text.trims_iff.mp hkey]
    simp only [List.mem_cons, List.not_mem_nil, or_false, not_or] at hname
    obtain ⟨hrole, hpath⟩ := hname
    split <;> simp_all

theorem exists_first_equals (h : '=' ∈ p.toList) :
    ∃ key value, '=' ∉ key.toList ∧ p = key ++ "=" ++ value := by
  obtain ⟨before, after, hsplit, hfirst⟩ := List.eq_append_cons_of_mem h
  refine ⟨String.ofList before, String.ofList after, by simpa using hfirst, ?_⟩
  apply String.toList_injective
  simp [hsplit]

/-- Every piece either sets an option or is refused. -/
theorem sets_or_refuses (p : String) : (∃ s, Sets p s) ∨ ∃ fault, Refuses p fault := by
  by_cases hbare : '=' ∈ p.toList
  · obtain ⟨key, value, hfirst, rfl⟩ := exists_first_equals hbare
    have hvalue := Text.trims_trim value
    by_cases hrole : Text.trim key = "role"
    · by_cases hname : ∃ r : Role, Text.trim value = r.name
      · obtain ⟨r, hr⟩ := hname
        exact Or.inl ⟨_, .role hfirst (Text.trims_iff.mpr hrole) (hr ▸ hvalue)⟩
      · exact Or.inr ⟨_, .role hfirst (Text.trims_iff.mpr hrole) hvalue (not_exists.mp hname)⟩
    · by_cases hpath : Text.trim key = "webapi_path"
      · by_cases hempty : Text.trim value = ""
        · exact Or.inr ⟨_, .noPath hfirst (Text.trims_iff.mpr hpath) (hempty ▸ hvalue)⟩
        · exact Or.inl ⟨_, .helper hfirst (Text.trims_iff.mpr hpath) hvalue hempty⟩
      · exact Or.inr ⟨_, .key hfirst (Text.trims_trim key) (by simp [hrole, hpath])⟩
  · by_cases hword : p ∈ ["client", "server", "strict", "role"]
    · simp only [List.mem_cons, List.not_mem_nil, or_false] at hword
      rcases hword with rfl | rfl | rfl | rfl
      · exact Or.inl ⟨_, .word .client⟩
      · exact Or.inl ⟨_, .word .server⟩
      · exact Or.inl ⟨_, .strict⟩
      · exact Or.inr ⟨_, .noRole⟩
    · exact Or.inr ⟨_, .word hbare hword⟩

theorem Refuses.not_sets (h : Refuses p fault) : ¬ ∃ s, Sets p s := by
  rintro ⟨s, hs⟩
  have hboth := (hs.set_eq {}).symm.trans (h.set_eq {})
  cases hboth

theorem Sets.eq_strict_iff (h : Sets p s) : s = .strict ↔ p = "strict" := by
  have hkeyed : ∀ key value : String, key ++ "=" ++ value ≠ "strict" := by
    intro key value heq
    have hmem : '=' ∈ (key ++ "=" ++ value).toList := by simp
    rw [heq] at hmem
    exact absurd hmem (by decide)
  cases h with
  | word r => cases r <;> decide
  | strict => exact iff_of_true rfl rfl
  | role _ _ _ => exact iff_of_false nofun (hkeyed _ _)
  | helper _ _ _ _ => exact iff_of_false nofun (hkeyed _ _)

/-- No piece sets an empty path. -/
theorem Sets.path_ne_empty {path : String} (h : Sets p s) (hpath : s.path? = some path) :
    path ≠ "" := by
  cases h with
  | word r => cases hpath
  | strict => cases hpath
  | role _ _ _ => cases hpath
  | helper _ _ _ hne =>
    obtain rfl := Option.some.inj hpath
    exact hne

section Run

/-- Pieces that all set something are applied one after another. -/
theorem foldlM_of_sets (h : List.Forall₂ Sets ps settings) (o : Options) :
    ps.foldlM set o = .ok (settings.foldl apply o) := by
  induction h generalizing o with
  | nil => rfl
  | cons hp _ ih =>
    rw [List.foldlM_cons, hp.set_eq o]
    exact ih _

/-- The first piece that is refused ends the reading, whatever follows it. -/
theorem foldlM_of_refuses (h : List.Forall₂ Sets before settings) (hp : Refuses p fault)
    (after : List String) (o : Options) : (before ++ p :: after).foldlM set o = .error fault := by
  rw [List.foldlM_append, foldlM_of_sets h]
  change (p :: after).foldlM set _ = _
  rw [List.foldlM_cons, hp.set_eq]
  rfl

/-- Either all pieces set something, or there is a first one that is refused. -/
theorem settings_or_refused (ps : List String) :
    (∃ settings, List.Forall₂ Sets ps settings) ∨
      ∃ before p after settings fault, ps = before ++ p :: after ∧
        List.Forall₂ Sets before settings ∧ Refuses p fault := by
  induction ps with
  | nil => exact Or.inl ⟨[], .nil⟩
  | cons p rest ih =>
    rcases sets_or_refuses p with ⟨s, hs⟩ | ⟨fault, hfault⟩
    · rcases ih with ⟨settings, hrest⟩ | ⟨before, q, after, settings, fault, rfl, hbefore, hq⟩
      · exact Or.inl ⟨s :: settings, .cons hs hrest⟩
      · exact Or.inr ⟨p :: before, q, after, s :: settings, fault, rfl, .cons hs hbefore, hq⟩
    · exact Or.inr ⟨[], p, rest, [], fault, rfl, .nil, hfault⟩

theorem exists_settings_iff :
    (∃ settings, List.Forall₂ Sets ps settings) ↔ ∀ p ∈ ps, ∃ s, Sets p s := by
  induction ps with
  | nil => simp
  | cons p rest ih =>
    rw [List.forall_mem_cons, ← ih]
    constructor
    · rintro ⟨settings, h⟩
      cases h with
      | cons hp hrest => exact ⟨⟨_, hp⟩, ⟨_, hrest⟩⟩
    · rintro ⟨⟨s, hs⟩, settings, hrest⟩
      exact ⟨s :: settings, .cons hs hrest⟩

theorem exists_sets_of_mem (h : List.Forall₂ Sets ps settings) (hs : s ∈ settings) :
    ∃ p ∈ ps, Sets p s := by
  induction h with
  | nil => simp at hs
  | @cons p s' rest settings hp _ ih =>
    rcases List.mem_cons.mp hs with rfl | hs
    · exact ⟨p, List.mem_cons_self, hp⟩
    · obtain ⟨q, hq, hsets⟩ := ih hs
      exact ⟨q, List.mem_cons_of_mem p hq, hsets⟩

theorem strict_mem_iff (h : List.Forall₂ Sets ps settings) :
    .strict ∈ settings ↔ "strict" ∈ ps := by
  induction h with
  | nil => simp
  | cons hp _ ih => rw [List.mem_cons, List.mem_cons, ih, eq_comm, hp.eq_strict_iff, eq_comm]

theorem eq_of_same {o o' : Options} (hrole : o.role = o'.role) (hhelper : o.helper = o'.helper)
    (hstrict : o.strict = true ↔ o'.strict = true) : o = o' := by
  obtain ⟨r, path, strict⟩ := o
  obtain rfl : r = o'.role := hrole
  obtain rfl : path = o'.helper := hhelper
  obtain rfl : strict = o'.strict := Bool.eq_iff_iff.mpr hstrict
  rfl

/-- Of settings of the same option the last one counts. -/
theorem foldl_apply (settings : List Setting) (o : Options) :
    (settings.foldl apply o).role = ((settings.filterMap Setting.role?).getLast?).getD o.role ∧
      (settings.foldl apply o).helper =
        ((settings.filterMap Setting.path?).getLast?).or o.helper ∧
      ((settings.foldl apply o).strict = true ↔ o.strict = true ∨ .strict ∈ settings) := by
  induction settings generalizing o with
  | nil => simp
  | cons s rest ih =>
    obtain ⟨hrole, hhelper, hstrict⟩ := ih (o.apply s)
    rw [List.foldl_cons, hrole, hhelper, hstrict]
    cases s with
    | role r => simp [apply, Setting.role?, Setting.path?, List.getLast?_cons]
    | helper path => simp [apply, Setting.role?, Setting.path?, List.getLast?_cons]
    | strict => simp [apply, Setting.role?, Setting.path?]

end Run

section Parse

variable {parameter : String} {o : Options}

theorem parse_of_sets (h : List.Forall₂ Sets (pieces parameter) settings) :
    parse parameter = .ok (settings.foldl apply {}) := foldlM_of_sets h {}

theorem parse_of_refuses (hsplit : pieces parameter = before ++ p :: after)
    (h : List.Forall₂ Sets before settings) (hp : Refuses p fault) :
    parse parameter = .error fault := by
  rw [parse, hsplit]
  exact foldlM_of_refuses h hp after {}

/-- What is read was set piece by piece. -/
theorem exists_settings_of_parse (h : parse parameter = .ok o) :
    ∃ settings, List.Forall₂ Sets (pieces parameter) settings ∧ o = settings.foldl apply {} := by
  rcases settings_or_refused (pieces parameter) with
    ⟨settings, hall⟩ | ⟨before, p, after, settings, fault, hsplit, hbefore, hp⟩
  · rw [parse_of_sets hall] at h
    exact ⟨settings, hall, (Except.ok.inj h).symm⟩
  · rw [parse_of_refuses hsplit hbefore hp] at h
    cases h

/-- What is not read has a first piece that is refused. -/
theorem exists_refused_of_parse (h : parse parameter = .error fault) :
    ∃ before p after, pieces parameter = before ++ p :: after ∧
      (∀ q ∈ before, ∃ s, Sets q s) ∧ Refuses p fault := by
  rcases settings_or_refused (pieces parameter) with
    ⟨settings, hall⟩ | ⟨before, p, after, settings, fault', hsplit, hbefore, hp⟩
  · rw [parse_of_sets hall] at h
    cases h
  · rw [parse_of_refuses hsplit hbefore hp] at h
    obtain rfl : fault' = fault := Except.error.inj h
    exact ⟨before, p, after, hsplit, exists_settings_iff.mp ⟨settings, hbefore⟩, hp⟩

/-- Options are settled by the last role, the last path, and strictness anywhere. -/
theorem eq_foldl_apply_iff (h : List.Forall₂ Sets ps settings) :
    o = settings.foldl apply {} ↔
      o.role = ((settings.filterMap Setting.role?).getLast?).getD .client ∧
      o.helper = some (((settings.filterMap Setting.path?).getLast?).getD "webapi") ∧
      (o.strict = true ↔ "strict" ∈ ps) := by
  obtain ⟨hrole, hhelper, hstrict⟩ := foldl_apply settings {}
  have hdefault : ∀ last : Option String, last.or (some "webapi") = some (last.getD "webapi") := by
    intro last
    cases last <;> rfl
  rw [hdefault] at hhelper
  rw [strict_mem_iff h] at hstrict
  constructor
  · rintro rfl
    exact ⟨hrole, hhelper, by simpa using hstrict⟩
  · rintro ⟨hr, hh, hs⟩
    exact eq_of_same (hr.trans hrole.symm) (hh.trans hhelper.symm)
      (by simpa [hs] using hstrict.symm)

end Parse

/-- Every parameter has its pieces and is read exactly if each of them sets something. Then its role
is the last one that is set, or that of a client; its path to the helper is the last one that is
set, or the usual one; and it is strict exactly if one of the pieces says so. Otherwise the fault is
that of the first piece that does not set anything. -/
theorem parse_accepts_exactly (parameter : String) :
    (∃ ps, Pieces parameter ps) ∧ ∀ ps, Pieces parameter ps →
      ((∃ o, parse parameter = .ok o) ↔ ∀ p ∈ ps, ∃ s, Sets p s) ∧
      (∀ o, parse parameter = .ok o ↔
        ∃ settings, List.Forall₂ Sets ps settings ∧
          o.role = ((settings.filterMap Setting.role?).getLast?).getD .client ∧
          o.helper = some (((settings.filterMap Setting.path?).getLast?).getD "webapi") ∧
          (o.strict = true ↔ "strict" ∈ ps)) ∧
      ∀ fault, parse parameter = .error fault ↔
        ∃ before p after, ps = before ++ p :: after ∧
          (∀ q ∈ before, ∃ s, Sets q s) ∧ (¬ ∃ s, Sets p s) ∧ Refuses p fault := by
  refine ⟨⟨_, pieces_iff.mpr rfl⟩, fun ps hpieces => ?_⟩
  obtain rfl := pieces_iff.mp hpieces
  refine ⟨?_, fun o => ?_, fun fault => ?_⟩
  · rw [← exists_settings_iff]
    constructor
    · rintro ⟨o, ho⟩
      obtain ⟨settings, hall, _⟩ := exists_settings_of_parse ho
      exact ⟨settings, hall⟩
    · rintro ⟨settings, hall⟩
      exact ⟨_, parse_of_sets hall⟩
  · constructor
    · intro ho
      obtain ⟨settings, hall, heq⟩ := exists_settings_of_parse ho
      exact ⟨settings, hall, (eq_foldl_apply_iff hall).mp heq⟩
    · rintro ⟨settings, hall, hfields⟩
      rw [(eq_foldl_apply_iff hall).mpr hfields]
      exact parse_of_sets hall
  · constructor
    · intro hfault
      obtain ⟨before, p, after, hsplit, hbefore, hp⟩ := exists_refused_of_parse hfault
      exact ⟨before, p, after, hsplit, hbefore, hp.not_sets, hp⟩
    · rintro ⟨before, p, after, hsplit, hbefore, _, hp⟩
      obtain ⟨settings, hall⟩ := exists_settings_iff.mpr hbefore
      exact parse_of_refuses hsplit hall hp

/-- Roles as a word and with a key, several equals signs, blanks and empty parts. -/
def mixedParameter : String := "\tserver ,, webapi_path = a=b\u2003,strict,\u00a0role =client ,"

/-- Pieces that only look as if they set something, with their faults. -/
def lookalikes : List (String × Fault) :=
  [("role", .unknownRole none), ("role= admin", .unknownRole (some "admin")),
    ("role==client", .unknownRole (some "=client")), ("client=", .unknownOption "client="),
    ("strict=1", .unknownOption "strict=1"), ("webapi_path", .unknownOption "webapi_path"),
    ("webapi_path =", .unknownOption "webapi_path =")]

theorem mixedParameter_read :
    (Pieces mixedParameter ["server", "webapi_path = a=b", "strict", "role =client"] ∧
      parse mixedParameter = .ok ⟨.client, some "a=b", true⟩ ∧
      ∀ p ∈ ["server", "webapi_path = a=b", "strict", "role =client"], ∃ s, Sets p s) ∧
    ∀ e ∈ lookalikes, Pieces ("strict," ++ e.1) ["strict", e.1] ∧
      parse ("strict," ++ e.1) = .error e.2 ∧ ∃ p ∈ ["strict", e.1], Refuses p e.2 := by
  have hread : pieces mixedParameter = ["server", "webapi_path = a=b", "strict", "role =client"] ∧
      parse mixedParameter = .ok ⟨.client, some "a=b", true⟩ := by decide +kernel
  have hrefused : ∀ e ∈ lookalikes, pieces ("strict," ++ e.1) = ["strict", e.1] ∧
      parse ("strict," ++ e.1) = .error e.2 := by decide +kernel
  constructor
  · have hpieces := pieces_iff.mpr hread.1
    exact ⟨hpieces, hread.2, (((parse_accepts_exactly _).2 _ hpieces).1).mp ⟨_, hread.2⟩⟩
  · intro e he
    obtain ⟨hpieces, hfault⟩ := hrefused e he
    obtain ⟨before, p, after, hsplit, _, _, hp⟩ :=
      (((parse_accepts_exactly _).2 _ (pieces_iff.mpr hpieces)).2.2 e.2).mp hfault
    refine ⟨pieces_iff.mpr hpieces, hfault, p, ?_, hp⟩
    rw [hsplit]
    exact List.mem_append_right before List.mem_cons_self

end Options

end ProtoStubs
