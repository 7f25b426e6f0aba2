import Mathlib.Data.List.Perm.Basic
import ProtoStubs.Proofs.Parameters

/-!
Options that are written as a parameter are read back. Trimming undoes blanks around a piece, and a
piece without commas is cut out of the text as it was. Each option is set by one piece only, so the
pieces may come in any order, and the path of the helper may have anything in it that is neither a
comma nor a blank at one of its ends.
-/

namespace ProtoStubs

namespace Options

variable {p : String} {ps : List String} {settings : List Setting}

def printed (r : Role) (path : String) (strict : Bool) : List String :=
  ["role=" ++ r.name, "webapi_path=" ++ path] ++ if strict then ["strict"] else []

def printedSettings (r : Role) (path : String) (strict : Bool) : List Setting :=
  [Setting.role r, Setting.helper path] ++ if strict then [Setting.strict] else []

section Printed

variable {r : Role} {path parameter : String} {strict : Bool}

theorem sets_printed (hne : path ≠ "") (htrim : Text.trim path = path) :
    List.Forall₂ Sets (printed r path strict) (printedSettings r path strict) := by
  have hrole : Sets ("role" ++ "=" ++ r.name) (.role r) :=
    .role (by decide) (Text.trims_iff.mpr (by decide)) (Text.trims_iff.mpr (by cases r <;> decide))
  have hhelper : Sets ("webapi_path" ++ "=" ++ path) (.helper path) :=
    .helper (by decide) (Text.trims_iff.mpr (by decide)) (Text.trims_iff.mpr htrim) hne
  rw [show "webapi_path" ++ "=" = "webapi_path=" by decide] at hhelper
  rw [show "role" ++ "=" = "role=" by decide] at hrole
  cases strict with
  | false => exact .cons hrole (.cons hhelper .nil)
  | true => exact .cons hrole (.cons hhelper (.cons .strict .nil))

/-- In which order the printed pieces are set makes no difference. -/
theorem foldl_apply_of_perm (h : settings.Perm (printedSettings r path strict)) :
    settings.foldl apply {} = ⟨r, some path, strict⟩ := by
  obtain ⟨hrole, hhelper, hstrict⟩ := foldl_apply settings {}
  have hroles : settings.filterMap Setting.role? = [r] := by
    apply List.perm_singleton.mp
    refine (h.filterMap Setting.role?).trans (List.Perm.of_eq ?_)
    cases strict <;> rfl
  have hpaths : settings.filterMap Setting.path? = [path] := by
    apply List.perm_singleton.mp
    refine (h.filterMap Setting.path?).trans (List.Perm.of_eq ?_)
    cases strict <;> rfl
  have hmem : .strict ∈ settings ↔ strict = true := by
    rw [h.mem_iff]
    cases strict <;> simp [printedSettings]
  rw [hroles] at hrole
  rw [hpaths] at hhelper
  exact eq_of_same hrole hhelper (by simpa [hmem] using hstrict)

/-- The printed pieces are read back in any order. -/
theorem parse_of_perm (hne : path ≠ "") (htrim : Text.trim path = path)
    (h : (pieces parameter).Perm (printed r path strict)) :
    parse parameter = .ok ⟨r, some path, strict⟩ := by
  obtain ⟨settings, hsets, hperm⟩ := List.perm_comp_forall₂ h (sets_printed hne htrim)
  rw [parse_of_sets hsets, foldl_apply_of_perm hperm]

theorem trim_webapi_path (htrim : Text.trim path = path) (hne : path ≠ "") :
    Text.trim ("webapi_path=" ++ path) = "webapi_path=" ++ path := by
  refine Text.trim_eq_self (by simp; decide) ?_
  have hlast : ("webapi_path=" ++ path).toList.getLast? = path.toList.getLast? := by
    have hsome : path.toList.getLast?.isSome = true := by simpa using hne
    rw [String.toList_append, List.getLast?_append, Option.or_of_isSome hsome]
  rw [hlast]
  exact (Text.trims_iff.mpr htrim).last

theorem of_mem_printed (hne : path ≠ "") (hcomma : ',' ∉ path.toList)
    (htrim : Text.trim path = path) (hp : p ∈ printed r path strict) :
    ',' ∉ p.toList ∧ Text.trim p = p := by
  have hrole : ',' ∉ ("role=" ++ r.name).toList ∧
      Text.trim ("role=" ++ r.name) = "role=" ++ r.name := by
    cases r <;> decide
  have hpath : ',' ∉ ("webapi_path=" ++ path).toList ∧
      Text.trim ("webapi_path=" ++ path) = "webapi_path=" ++ path :=
    ⟨by simp [hcomma], trim_webapi_path htrim hne⟩
  rcases List.mem_append.mp hp with hp | hp
  · simp only [List.mem_cons, List.not_mem_nil, or_false] at hp
    rcases hp with rfl | rfl
    · exact hrole
    · exact hpath
  · obtain rfl : p = "strict" := by
      cases strict with
      | false => simp at hp
      | true => exact List.mem_singleton.mp hp
    decide

end Printed

/-- Pieces that are padded with blanks, some of them with nothing in them, are read back from the
text with commas between them. -/
theorem pieces_of_pads {parts : List String} (hpads : List.Forall₂ Text.Pads ps parts)
    (h : ∀ p ∈ ps, ',' ∉ p.toList ∧ Text.trim p = p) :
    pieces (",".intercalate parts) = ps.filter (· ≠ "") := by
  have hparts : (∀ part ∈ parts, ',' ∉ part.toList) ∧ List.Forall₂ Text.Trims parts ps := by
    induction hpads with
    | nil => exact ⟨by simp, .nil⟩
    | @cons p part ps parts hp _ ih =>
      obtain ⟨⟨hcomma, htrim⟩, hrest⟩ := List.forall_mem_cons.mp h
      obtain ⟨hcommas, htrims⟩ := ih hrest
      have hpart : Text.Trims part p := Text.trims_iff.mpr (hp.trim_eq.trans htrim)
      exact ⟨List.forall_mem_cons.mpr ⟨hp.notMem (by decide) hcomma, hcommas⟩, .cons hpart htrims⟩
  exact pieces_iff.mp ⟨parts, ps, rfl, hparts.1, hparts.2, rfl⟩

/-- What is printed is read back, if the path has no comma and no blanks at its ends. -/
theorem parse_printed (r : Role) {path : String} (strict : Bool) (hne : path ≠ "")
    (hcomma : ',' ∉ path.toList) (htrim : Text.trim path = path) :
    parse (",".intercalate (printed r path strict)) = .ok ⟨r, some path, strict⟩ := by
  have hpads : List.Forall₂ Text.Pads (printed r path strict) (printed r path strict) :=
    List.forall₂_same.mpr fun p _ => Text.Pads.refl p
  have hpieces := pieces_of_pads hpads fun p hp => of_mem_printed hne hcomma htrim hp
  apply parse_of_perm hne htrim
  rw [hpieces]
  apply List.Perm.of_eq
  rw [List.filter_eq_self]
  cases strict <;> simp [printed]

/-- The pieces are written as one text: in any order, with commas between them and blanks around
each of them, and with any number of blank pieces. -/
def Writes (order : List String) (parameter : String) : Prop :=
  ∃ ps parts, (ps.filter (· ≠ "")).Perm order ∧ List.Forall₂ Text.Pads ps parts ∧
    parameter = ",".intercalate parts

/-- Let the options have a path to the helper that is not empty, has no comma and neither starts nor
ends with a blank. However their pieces are written as a parameter, the options are read back. -/
theorem written_options_read_back (o : Options) {path parameter : String}
    (hpath : o.helper = some path) (hne : path ≠ "") (hcomma : ',' ∉ path.toList)
    (hfirst : ∀ c ∈ path.toList.head?, Text.isBlank c = false)
    (hlast : ∀ c ∈ path.toList.getLast?, Text.isBlank c = false)
    (hwritten : Writes (printed o.role path o.strict) parameter) :
    parse parameter = .ok o := by
  obtain ⟨ps, parts, hperm, hpads, rfl⟩ := hwritten
  have htrim : Text.trim path = path := Text.trim_eq_self hfirst hlast
  have hplain : ∀ p ∈ ps, ',' ∉ p.toList ∧ Text.trim p = p := by
    intro p hp
    by_cases hempty : p = ""
    · subst hempty
      decide
    · have hkept : p ∈ ps.filter (· ≠ "") := List.mem_filter.mpr ⟨hp, by simpa using hempty⟩
      exact of_mem_printed hne hcomma htrim (hperm.mem_iff.mp hkept)
  have hread := parse_of_perm hne htrim ((pieces_of_pads hpads hplain).symm ▸ hperm)
  rw [hread, ← hpath]

/-- A path with an equals sign, a blank and a letter beyond the first ones, written backwards. -/
theorem serverOptions_read_back :
    let o : Options := { role := .server, helper := some "lib/é =x", strict := true }
    Writes (printed o.role "lib/é =x" o.strict)
      "\tstrict , ,webapi_path=lib/é =x,,\u2003role=server\n" ∧
    parse "\tstrict , ,webapi_path=lib/é =x,,\u2003role=server\n" = .ok o := by
  intro o
  have hwritten : Writes (printed o.role "lib/é =x" o.strict)
      "\tstrict , ,webapi_path=lib/é =x,,\u2003role=server\n" := by
    refine ⟨["strict", "", "webapi_path=lib/é =x", "", "role=server"],
      ["\tstrict ", " ", "webapi_path=lib/é =x", "", "\u2003role=server\n"], by decide, ?_,
      by decide⟩
    refine .cons ⟨"\t", " ", ?_, ?_, ?_⟩ (.cons ⟨" ", "", ?_, ?_, ?_⟩ (.cons (.refl _)
      (.cons (.refl _) (.cons ⟨"\u2003", "\n", ?_, ?_, ?_⟩ .nil))))
    all_goals decide
  have hfirst : ∀ c ∈ "lib/é =x".toList.head?, Text.isBlank c = false := by
    intro c hc
    obtain rfl := Option.some.inj hc
    rfl
  have hlast : ∀ c ∈ "lib/é =x".toList.getLast?, Text.isBlank c = false := by
    intro c hc
    obtain rfl := Option.some.inj hc
    rfl
  exact ⟨hwritten, written_options_read_back o rfl (by decide) (by decide) hfirst hlast hwritten⟩

end Options

end ProtoStubs
