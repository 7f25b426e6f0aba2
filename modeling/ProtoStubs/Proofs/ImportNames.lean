import ProtoStubs.CommandLine.Run
import ProtoStubs.Proofs.NormalPaths

/-!
The names under which schema files are imported. An include directory holds the paths whose names
begin with all of its own, whole names and not parts of them; one that is written with exactly two
slashes in front holds nothing. The first include directory that holds a path gives it its name: the
names that are left of it, with slashes between them.
-/

namespace ProtoStubs

namespace Path

variable {p q : String} {start target : List String}

theorem shared_prefix_target (start target : List String) : shared start target <+: target := by
  fun_induction shared start target with
  | case1 start a target ih => exact List.cons_prefix_cons.mpr ⟨rfl, ih⟩
  | case2 a start b target hne => exact List.nil_prefix
  | case3 => exact List.nil_prefix

theorem shared_eq_right_iff : shared start target = target ↔ target <+: start := by
  fun_induction shared start target with
  | case1 start a target ih => rw [List.cons.injEq, List.cons_prefix_cons, ih]
  | case2 a start b target hne => simp [List.cons_prefix_cons, Ne.symm hne]
  | case3 start target hne =>
    cases target with
    | nil => simp
    | cons b target =>
      cases start with
      | nil => simp
      | cons a start => exact (hne a start b target rfl rfl).elim

/-- The directory above two paths is written with one slash in front, so it is never one with
two. -/
theorem common_eq_right_iff (hq : isAbsolute q = true)
    (hnormal : q = root q ++ "/".intercalate (components q)) :
    common p q = q ↔ slashes q ≠ 2 ∧ components q <+: components p := by
  have hnames : ∀ n ∈ shared (components p) (components q), IsName n :=
    fun n hn => isName_of_mem_components ((shared_prefix_target _ _).subset hn)
  have hroot : root (common p q) = "/" := (root_append_slash (isAbsolute_intercalate hnames)).1
  have hcomponents : components (common p q) = shared (components p) (components q) := by
    have hsplit := components_append "" ("/".intercalate (shared (components p) (components q)))
    rw [components_empty, List.nil_append, components_intercalate hnames] at hsplit
    exact hsplit
  rw [← shared_eq_right_iff]
  constructor
  · intro heq
    rw [heq] at hroot hcomponents
    refine ⟨fun htwo => ?_, hcomponents.symm⟩
    rw [root_eq_of_absolute hq, if_pos htwo] at hroot
    exact absurd hroot (by decide)
  · rintro ⟨hslashes, hshared⟩
    rw [root_eq_of_absolute hq, if_neg hslashes] at hnormal
    rw [common, hshared, ← hnormal]

end Path

namespace CommandLine

open ProtoStubs.Path

variable {directory i path : String} {includes : List String}

section Holds

variable (hd : isAbsolute directory = true)

include hd

theorem holds_iff : holds directory i path = true ↔
    slashes (absolute directory i) ≠ 2 ∧
      components (absolute directory i) <+: components (absolute directory path) := by
  rw [holds, beq_iff_eq]
  exact common_eq_right_iff (isAbsolute_absolute hd i) (absolute_eq_root_append hd i)

/-- A path that a directory holds is named by the names that are left of it. -/
theorem relative_of_append {rest : List String}
    (h : components (absolute directory path) = components (absolute directory i) ++ rest) :
    relative directory (absolute directory i) (absolute directory path) =
      orDot ("/".intercalate rest) := by
  apply relative_eq_of_append
  rw [places_eq_components hd, places_eq_components hd, absolute_absolute hd,
    absolute_absolute hd, h]

/-- The way down from a directory to a path that it holds. -/
theorem relative_of_prefix
    (h : components (absolute directory i) <+: components (absolute directory path)) :
    let name := relative directory (absolute directory i) (absolute directory path)
    components (absolute directory i) ++ components name =
        components (absolute directory path) ∧
      isAbsolute name = false ∧ ".." ∉ components name ∧
      (components (absolute directory i) = components (absolute directory path) → name = ".") := by
  obtain ⟨rest, hrest⟩ := h
  have hsub : rest ⊆ components (absolute directory path) := by
    rw [← hrest]
    exact List.subset_append_right _ _
  have hnames : ∀ n ∈ rest, IsName n := fun n hn => isName_of_mem_components (hsub hn)
  intro name
  have hname : name = orDot ("/".intercalate rest) := relative_of_append hd hrest.symm
  rw [hname, isAbsolute_orDot, isAbsolute_intercalate hnames, components_orDot,
    components_intercalate hnames]
  refine ⟨hrest, rfl, fun hdots => dots_notMem_absolute hd path (hsub hdots), fun hsame => ?_⟩
  have hnil : rest = [] := by simpa [hsame] using hrest
  rw [hnil]
  decide

/-- The beginning of a name is another name. -/
theorem holds_of_part {front rest : List String} {name more : String} (hmore : more ≠ "")
    (hi : components (absolute directory i) = front ++ [name])
    (hpath : components (absolute directory path) = front ++ (name ++ more) :: rest) :
    holds directory i path = false := by
  refine Bool.eq_false_iff.mpr fun h => hmore ?_
  obtain ⟨tail, htail⟩ := ((holds_iff hd).mp h).2
  rw [hi, hpath, List.append_assoc, List.append_cancel_left_eq, List.singleton_append,
    List.cons.injEq] at htail
  exact String.append_eq_left_iff.mp htail.1.symm

end Holds

theorem importName_of_none (h : ∀ i ∈ includes, holds directory i path = false) :
    importName directory includes path = .error (.outsideIncludes path includes) := by
  have hnone : includes.find? (holds directory · path) = none := by
    rw [List.find?_eq_none]
    exact fun i hi => by simp [h i hi]
  rw [importName, hnone]

theorem importName_of_first {before : List String} (after : List String)
    (hbefore : ∀ j ∈ before, holds directory j path = false) (hi : holds directory i path = true) :
    importName directory (before ++ i :: after) path =
      .ok (relative directory (absolute directory i) (absolute directory path)) := by
  have hfirst : (before ++ i :: after).find? (holds directory · path) = some i := by
    rw [List.find?_eq_some_iff_append]
    exact ⟨hi, before, after, rfl, fun j hj => by simp [hbefore j hj]⟩
  rw [importName, hfirst]

theorem exists_first_holding (h : ∃ i ∈ includes, holds directory i path = true) :
    ∃ before i after, includes = before ++ i :: after ∧
      (∀ j ∈ before, holds directory j path = false) ∧ holds directory i path = true := by
  obtain ⟨i, hfound⟩ := Option.isSome_iff_exists.mp (List.find?_isSome.mpr h)
  obtain ⟨hi, before, after, hsplit, hbefore⟩ := List.find?_eq_some_iff_append.mp hfound
  exact ⟨before, i, after, hsplit, fun j hj => by simpa using hbefore j hj, hi⟩

theorem importName_ok_iff :
    (∃ name, importName directory includes path = .ok name) ↔
      ∃ i ∈ includes, holds directory i path = true := by
  constructor
  · rintro ⟨name, hname⟩
    by_contra hnone
    have hout : ∀ i ∈ includes, holds directory i path = false :=
      fun i hi => Bool.eq_false_iff.mpr fun hholds => hnone ⟨i, hi, hholds⟩
    rw [importName_of_none hout] at hname
    cases hname
  · intro hsome
    obtain ⟨before, i, after, rfl, hbefore, hi⟩ := exists_first_holding hsome
    exact ⟨_, importName_of_first after hbefore hi⟩

/-- Let no include directory be written, in its absolute form, with exactly two slashes in front.
There is a name for a path exactly if the names on the way to some include directory are the first
on the way to the path. The first such directory gives the name: its components, followed by those
of the name, are those of the path, and the name leads down only. Otherwise the path is refused. A
directory whose last name is merely the beginning of a name never holds a path. -/
theorem import_name_from_first_holder (directory : String) (includes : List String) (path : String)
    (hd : isAbsolute directory = true)
    (hincludes : ∀ i ∈ includes, slashes (absolute directory i) ≠ 2) :
    let parts (p : String) := components (absolute directory p)
    ((∃ name, importName directory includes path = .ok name) ↔
      ∃ i ∈ includes, parts i <+: parts path) ∧
    (∀ before i after, includes = before ++ i :: after →
      (∀ j ∈ before, ¬ parts j <+: parts path) → parts i <+: parts path →
      ∃ name, importName directory includes path = .ok name ∧
        parts i ++ components name = parts path ∧ isAbsolute name = false ∧
        ".." ∉ components name ∧ (parts i = parts path → name = ".")) ∧
    ((∀ i ∈ includes, ¬ parts i <+: parts path) →
      importName directory includes path = .error (.outsideIncludes path includes)) ∧
    ∀ i front name more rest, more ≠ "" → parts i = front ++ [name] →
      parts path = front ++ (name ++ more) :: rest → holds directory i path = false := by
  intro parts
  have hholds : ∀ i ∈ includes, (holds directory i path = true ↔ parts i <+: parts path) := by
    intro i hi
    rw [holds_iff hd]
    exact and_iff_right (hincludes i hi)
  have hout : ∀ i ∈ includes, ¬ parts i <+: parts path → holds directory i path = false :=
    fun i hi hnot => Bool.eq_false_iff.mpr fun h => hnot ((hholds i hi).mp h)
  refine ⟨?_, ?_, ?_, ?_⟩
  · rw [importName_ok_iff]
    exact exists_congr fun i => and_congr_right (hholds i)
  · rintro before i after rfl hbefore hi
    have hearlier : ∀ j ∈ before, holds directory j path = false :=
      fun j hj => hout j (List.mem_append_left _ hj) (hbefore j hj)
    have hself : holds directory i path = true :=
      (hholds i (List.mem_append_right _ List.mem_cons_self)).mpr hi
    exact ⟨_, importName_of_first after hearlier hself, relative_of_prefix hd hi⟩
  · intro hnone
    exact importName_of_none fun i hi => hout i hi (hnone i hi)
  · intro i front name more rest hmore hi hpath
    exact holds_of_part hd hmore hi hpath

/-- The first include directory has a name that the path only begins with; the second is the one
that holds it, though it is written in a roundabout way. -/
theorem shopPath_import_names :
    let includes := ["sho", "./shop/../shop//", "/"]
    (∀ i ∈ includes, slashes (absolute "/w" i) ≠ 2) ∧
    (∃ name, importName "/w" includes "shop/x/../a.proto" = .ok name ∧
      ["w", "shop"] ++ components name = ["w", "shop", "a.proto"] ∧ isAbsolute name = false) ∧
    importName "/w" includes "shop" = .ok "." ∧
    importName "/w" ["sho"] "shop/x/../a.proto" =
      .error (.outsideIncludes "shop/x/../a.proto" ["sho"]) := by
  intro includes
  have hincludes : ∀ i ∈ includes, slashes (absolute "/w" i) ≠ 2 := by decide +kernel
  obtain ⟨_, hfile, _⟩ :=
    import_name_from_first_holder "/w" includes "shop/x/../a.proto" (by decide) hincludes
  obtain ⟨name, hname, hcomponents, hrelative, _⟩ :=
    hfile ["sho"] "./shop/../shop//" ["/"] rfl (by decide +kernel) (by decide +kernel)
  obtain ⟨_, hdirectory, _⟩ :=
    import_name_from_first_holder "/w" includes "shop" (by decide) hincludes
  obtain ⟨dot, hdot, _, _, _, hsame⟩ :=
    hdirectory ["sho"] "./shop/../shop//" ["/"] rfl (by decide +kernel) (by decide +kernel)
  obtain ⟨_, _, hrefused, _⟩ :=
    import_name_from_first_holder "/w" ["sho"] "shop/x/../a.proto" (by decide) (by decide +kernel)
  refine ⟨hincludes, ⟨name, hname, ?_, hrelative⟩, ?_, hrefused (by decide +kernel)⟩
  · have hi : components (absolute "/w" "./shop/../shop//") = ["w", "shop"] := by decide +kernel
    have hpath : components (absolute "/w" "shop/x/../a.proto") = ["w", "shop", "a.proto"] := by
      decide +kernel
    rw [← hi, ← hpath]
    exact hcomponents
  · rw [hdot, hsame (by decide +kernel)]

end CommandLine

end ProtoStubs
