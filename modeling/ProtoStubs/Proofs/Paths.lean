import ProtoStubs.Path
import ProtoStubs.Proofs.Texts

/-!
The algebra of paths. Paths are read through their components: joining appends them, and a
normalized path is its components, collapsed and written with slashes between them. Going from one
directory to a target and collapsing gives the target back, whatever directory both are seen from.
-/

namespace ProtoStubs

namespace Path

variable {a b p : String} {n : String} {ns start target stack : List String} {anchored : Bool}

/-- A component that names something; two dots do. -/
structure IsName (n : String) : Prop where
  ne_empty : n ≠ ""
  ne_dot : n ≠ "."
  noSlash : '/' ∉ n.toList

theorem isName_dots : IsName ".." := ⟨by decide, by decide, by decide⟩

theorem isName_of_mem_components (h : n ∈ components p) : IsName n := by
  obtain ⟨hsplit, hn⟩ := List.mem_filter.mp h
  simp only [ne_eq, decide_not, Bool.and_eq_true, Bool.not_eq_eq_eq_not, Bool.not_true,
    decide_eq_false_iff_not] at hn
  exact ⟨hn.1, hn.2, (Text.of_mem_split hsplit).1⟩

@[simp] theorem components_empty : components "" = [] := by decide

@[simp] theorem isAbsolute_empty : isAbsolute "" = false := by decide

theorem components_append (a b : String) :
    components (a ++ "/" ++ b) = components a ++ components b := by
  have h : (a ++ "/" ++ b).toList = a.toList ++ '/' :: b.toList := by simp
  rw [components, Text.split_of_toList_eq h, List.filter_append, components, components]

theorem components_intercalate (h : ∀ n ∈ ns, IsName n) : components ("/".intercalate ns) = ns := by
  by_cases hne : ns = []
  · subst hne
    decide
  · rw [components, Text.split_intercalate (fun n hn => (h n hn).noSlash) hne]
    apply List.filter_eq_self.mpr
    intro n hn
    simp [(h n hn).ne_empty, (h n hn).ne_dot]

theorem components_orDot (p : String) : components (orDot p) = components p := by
  unfold orDot
  by_cases h : p = ""
  · subst h
    decide
  · rw [if_neg h]

theorem orDot_ne_empty (p : String) : orDot p ≠ "" := by
  unfold orDot
  by_cases h : p = ""
  · rw [if_pos h]
    decide
  · rwa [if_neg h]

theorem exists_append_slash (h : a.toList.getLast? = some '/') : ∃ a', a = a' ++ "/" := by
  obtain ⟨init, hinit⟩ := List.getLast?_eq_some_iff.mp h
  exact ⟨String.ofList init, String.toList_injective (by simpa using hinit)⟩

theorem components_join (h : isAbsolute b = false) :
    components (join a b) = components a ++ components b := by
  unfold join
  rw [h, if_neg Bool.false_ne_true]
  by_cases hempty : a = ""
  · simp [hempty]
  · by_cases hlast : a.toList.getLast? = some '/'
    · obtain ⟨a', rfl⟩ := exists_append_slash hlast
      have ha : components (a' ++ "/") = components a' := by
        simpa using components_append a' ""
      rw [if_pos (by simp), components_append, ha]
    · rw [if_neg (by simp [hempty, hlast]), components_append]

theorem isAbsolute_append (h : a ≠ "") (b : String) : isAbsolute (a ++ b) = isAbsolute a := by
  have hne : a.toList ≠ [] := by simpa using h
  obtain ⟨x, rest, hx⟩ := List.exists_cons_of_ne_nil hne
  simp [isAbsolute, hx]

theorem isAbsolute_join (h : isAbsolute b = false) :
    isAbsolute (join a b) = isAbsolute a := by
  unfold join
  rw [h, if_neg Bool.false_ne_true]
  by_cases hempty : a = ""
  · simpa [hempty] using h
  · split
    · exact isAbsolute_append hempty b
    · rw [String.append_assoc, isAbsolute_append hempty]

theorem isAbsolute_orDot (p : String) : isAbsolute (orDot p) = isAbsolute p := by
  unfold orDot
  by_cases h : p = ""
  · subst h
    decide
  · rw [if_neg h]

theorem root_of_relative (h : isAbsolute p = false) : root p = "" := by
  unfold isAbsolute at h
  unfold root
  split <;> simp_all

theorem root_of_absolute (h : isAbsolute p = true) : root p = "/" ∨ root p = "/" ++ "/" := by
  obtain ⟨rest, hrest⟩ : ∃ rest, p.toList = '/' :: rest :=
    List.head?_eq_some_iff.mp (by simpa [isAbsolute] using h)
  rw [root, hrest]
  split <;> simp_all

section Collapse

theorem mem_foldl_descend (h : n ∈ ns.foldl (descend anchored) stack) : n ∈ stack ∨ n ∈ ns := by
  induction ns generalizing stack with
  | nil => exact Or.inl h
  | cons x rest ih =>
    rcases ih h with hstack | hrest
    · unfold descend at hstack
      split at hstack
      · rcases List.mem_cons.mp hstack with rfl | hold
        · exact Or.inr List.mem_cons_self
        · exact Or.inl hold
      · exact Or.inl (List.mem_of_mem_tail hstack)
    · exact Or.inr (List.mem_cons_of_mem x hrest)

theorem mem_collapse (h : n ∈ collapse anchored ns) : n ∈ ns := by
  rcases mem_foldl_descend (List.mem_reverse.mp h) with hnil | hn
  · simp at hnil
  · exact hn

/-- Names are put on the stack one by one. -/
theorem foldl_descend_down (h : ".." ∉ ns) (stack : List String) :
    ns.foldl (descend anchored) stack = ns.reverse ++ stack := by
  induction ns generalizing stack with
  | nil => rfl
  | cons n rest ih =>
    obtain ⟨hn, hrest⟩ := not_or.mp (List.mem_cons.not.mp h)
    have hstep : descend anchored stack n = n :: stack := by simp [descend, Ne.symm hn]
    rw [List.foldl_cons, hstep, ih hrest, List.reverse_cons, List.append_assoc,
      List.singleton_append]

/-- As many times two dots as there are names on top take these off the stack. -/
theorem foldl_descend_up (h : ".." ∉ ns) (stack : List String) :
    (List.replicate ns.length "..").foldl (descend anchored) (ns ++ stack) = stack := by
  induction ns with
  | nil => rfl
  | cons n rest ih =>
    obtain ⟨hn, hrest⟩ := not_or.mp (List.mem_cons.not.mp h)
    have hstep : descend anchored (n :: rest ++ stack) ".." = rest ++ stack := by
      simp [descend, Ne.symm hn]
    rw [List.length_cons, List.replicate_succ, List.foldl_cons, hstep, ih hrest]

theorem between_append (shared start target : List String) :
    between (shared ++ start) (shared ++ target) = between start target := by
  induction shared with
  | nil => rfl
  | cons n rest ih => rw [List.cons_append, List.cons_append, between, if_pos rfl, ih]

theorem mem_between (h : n ∈ between start target) : n = ".." ∨ n ∈ target := by
  fun_induction between start target with
  | case1 start a target ih =>
    rcases ih h with hdots | hn
    · exact Or.inl hdots
    · exact Or.inr (List.mem_cons_of_mem a hn)
  | case2 a start b target hne =>
    rcases List.mem_append.mp h with hdots | hn
    · exact Or.inl (List.eq_of_mem_replicate hdots)
    · exact Or.inr hn
  | case3 start target hne =>
    rcases List.mem_append.mp h with hdots | hn
    · exact Or.inl (List.eq_of_mem_replicate hdots)
    · exact Or.inr hn

/-- Going up out of all of `start` and down to `target`. -/
theorem foldl_descend_over (hstart : ".." ∉ start) (htarget : ".." ∉ target)
    (stack : List String) :
    (List.replicate start.length ".." ++ target).foldl (descend anchored)
      (start.reverse ++ stack) = target.reverse ++ stack := by
  have hup := @foldl_descend_up start.reverse anchored (by simpa using hstart) stack
  rw [List.length_reverse] at hup
  rw [List.foldl_append, hup, foldl_descend_down htarget]

/-- From a stack that ends in `start`, the way to `target` leads to `target`. -/
theorem foldl_descend_between (hstart : ".." ∉ start) (htarget : ".." ∉ target)
    (stack : List String) :
    (between start target).foldl (descend anchored) (start.reverse ++ stack) =
      target.reverse ++ stack := by
  fun_induction between start target generalizing stack with
  | case1 start a target ih =>
    -- The shared name stays on the stack, below the rest of the way.
    have hstart' := List.not_mem_of_not_mem_cons hstart
    have htarget' := List.not_mem_of_not_mem_cons htarget
    simpa using ih hstart' htarget' (a :: stack)
  | case2 a start b target hne => exact foldl_descend_over hstart htarget stack
  | case3 start target hne => exact foldl_descend_over hstart htarget stack

theorem collapse_append_between (hstart : ".." ∉ start) (htarget : ".." ∉ target) :
    collapse anchored (start ++ between start target) = target := by
  have h := @foldl_descend_between start target anchored hstart htarget []
  rw [collapse, List.foldl_append, foldl_descend_down hstart, h, List.append_nil,
    List.reverse_reverse]

end Collapse

theorem normalize_of_relative (h : isAbsolute p = false) :
    normalize p = orDot ("/".intercalate (collapse false (components p))) := by
  rw [normalize, root_of_relative h, h, String.empty_append]

theorem filter_split_rooted {r : String} (hr : r = "/" ∨ r = "/" ++ "/") (h : ∀ n ∈ ns, IsName n) :
    (Text.split '/' (r ++ "/".intercalate ns)).filter (· ≠ "") = ns := by
  have hslash : ∀ x, (Text.split '/' ("/" ++ x)).filter (· ≠ "") =
      (Text.split '/' x).filter (· ≠ "") := by
    intro x
    have hx : ("/" ++ x).toList = "".toList ++ '/' :: x.toList := by simp
    rw [Text.split_of_toList_eq hx, List.filter_append]
    rfl
  have hnames : (Text.split '/' ("/".intercalate ns)).filter (· ≠ "") = ns := by
    by_cases hne : ns = []
    · subst hne
      decide
    · rw [Text.split_intercalate (fun n hn => (h n hn).noSlash) hne]
      apply List.filter_eq_self.mpr
      intro n hn
      simpa using (h n hn).ne_empty
  rcases hr with rfl | rfl
  · rw [hslash, hnames]
  · rw [String.append_assoc, hslash, hslash, hnames]

theorem collapse_append_down {ms : List String} (h : ".." ∉ ms) :
    collapse anchored (ns ++ ms) = collapse anchored ns ++ ms := by
  rw [collapse, List.foldl_append, foldl_descend_down h, List.reverse_append,
    List.reverse_reverse, collapse]

theorem collapse_of_down (h : ".." ∉ ns) : collapse anchored ns = ns := by
  have hnone : collapse anchored ([] ++ ns) = collapse anchored [] ++ ns := collapse_append_down h
  simpa [collapse] using hnone

/-- A path is made absolute as it is seen from the directory. -/
theorem absolute_eq_normalize (directory p : String) :
    absolute directory p = normalize (join directory p) := by
  unfold absolute join
  split <;> rfl

theorem components_join_eq (a b : String) :
    components (join a b) = (if isAbsolute b then [] else components a) ++ components b := by
  cases hb : isAbsolute b with
  | true => rw [join, if_pos hb, if_pos rfl, List.nil_append]
  | false => rw [components_join hb, if_neg Bool.false_ne_true]

/-- From an absolute directory every path is seen as an absolute one. -/
theorem isAbsolute_join_of_absolute (ha : isAbsolute a = true) (b : String) :
    isAbsolute (join a b) = true := by
  cases hb : isAbsolute b with
  | true => rw [join, if_pos hb, hb]
  | false => rw [isAbsolute_join hb, ha]

/-- The names on the way to a path: those of the path itself, after those of the directory unless
the path is absolute. -/
theorem places_eq_collapse {directory : String} (hd : isAbsolute directory = true) (p : String) :
    places directory p =
      collapse true ((if isAbsolute p then [] else components directory) ++ components p) := by
  have habsolute := isAbsolute_join_of_absolute hd p
  have hroot := root_of_absolute habsolute
  have hne : root (join directory p) ++
      "/".intercalate (collapse true (components (join directory p))) ≠ "" := by
    rcases hroot with h | h <;> simp [h]
  rw [places, absolute_eq_normalize, normalize, habsolute, orDot, if_neg hne, ← components_join_eq]
  exact filter_split_rooted hroot fun n hn => isName_of_mem_components (mem_collapse hn)

/-- The names on the way to a path below an absolute directory. -/
theorem places_eq {directory : String} (hd : isAbsolute directory = true)
    (hp : isAbsolute p = false) (hdots : ".." ∉ components p) :
    places directory p = collapse true (components directory) ++ components p := by
  rw [places_eq_collapse hd, hp, if_neg Bool.false_ne_true, collapse_append_down hdots]

theorem relative_eq {directory : String} (hd : isAbsolute directory = true)
    (ha : isAbsolute a = false) (ha' : ".." ∉ components a)
    (hb : isAbsolute b = false) (hb' : ".." ∉ components b) :
    relative directory a b = orDot ("/".intercalate (between (components a) (components b))) := by
  rw [relative, places_eq hd ha ha', places_eq hd hb hb', between_append]

/-- The way down from a directory is what is left of the names. -/
theorem relative_eq_of_append {directory : String} {rest : List String}
    (h : places directory b = places directory a ++ rest) :
    relative directory a b = orDot ("/".intercalate rest) := by
  have hway := between_append (places directory a) [] rest
  rw [List.append_nil] at hway
  rw [relative, h, hway]
  rfl

theorem isAbsolute_of_noSlash (h : '/' ∉ n.toList) : isAbsolute n = false := by
  by_contra habs
  obtain ⟨chars, hchars⟩ : ∃ chars, n.toList = '/' :: chars :=
    List.head?_eq_some_iff.mp (by simpa [isAbsolute] using habs)
  exact h (by simp [hchars])

theorem isAbsolute_intercalate (h : ∀ n ∈ ns, IsName n) :
    isAbsolute ("/".intercalate ns) = false := by
  cases ns with
  | nil => decide
  | cons n rest =>
    obtain ⟨hn, _⟩ := List.forall_mem_cons.mp h
    have hfirst := isAbsolute_of_noSlash hn.noSlash
    by_cases hne : rest = []
    · rwa [hne, String.intercalate_singleton]
    · rw [String.intercalate_cons_of_ne_nil hne, String.append_assoc,
        isAbsolute_append hn.ne_empty]
      exact hfirst

section Rooted

variable (p) (h : ∀ n ∈ ns, IsName n)

include h

theorem isAbsolute_rooted : isAbsolute (orDot (root p ++ "/".intercalate ns)) = isAbsolute p := by
  rw [isAbsolute_orDot]
  cases hp : isAbsolute p with
  | false =>
    rw [root_of_relative hp, String.empty_append]
    exact isAbsolute_intercalate h
  | true =>
    rcases root_of_absolute hp with hroot | hroot
    · rw [hroot, isAbsolute_append (by decide)]
      decide
    · rw [hroot, isAbsolute_append (by decide)]
      decide

/-- Names that are written after the root of a path are read back. -/
theorem components_rooted : components (orDot (root p ++ "/".intercalate ns)) = ns := by
  have hnames : components ("/".intercalate ns) = ns := components_intercalate h
  have hslash : ∀ x, components ("/" ++ x) = components x := by
    intro x
    simpa using components_append "" x
  rw [components_orDot]
  cases hp : isAbsolute p with
  | false => rw [root_of_relative hp, String.empty_append, hnames]
  | true =>
    rcases root_of_absolute hp with hroot | hroot
    · rw [hroot, hslash, hnames]
    · rw [hroot, String.append_assoc, hslash, hslash, hnames]

end Rooted

theorem intercalate_concat (hne : ns ≠ []) (n : String) :
    ("/".intercalate (ns ++ [n])).toList = ("/".intercalate ns).toList ++ '/' :: n.toList := by
  rw [String.intercalate_append_of_ne_nil hne (List.cons_ne_nil n [])]
  simp

theorem exists_last_char (hns : ∀ m ∈ ns, IsName m) (hne : ns ≠ []) :
    ∃ ch rest, ("/".intercalate ns).toList.reverse = ch :: rest ∧ ch ≠ '/' := by
  obtain ⟨ms, m, rfl⟩ : ∃ ms m, ns = ms ++ [m] :=
    ⟨ns.dropLast, ns.getLast hne, (List.dropLast_concat_getLast hne).symm⟩
  have hm : IsName m := hns m (by simp)
  obtain ⟨ch, rest, hch⟩ := List.exists_cons_of_ne_nil
    (List.reverse_ne_nil_iff.mpr (String.toList_eq_nil_iff.not.mpr hm.ne_empty))
  have hslash : ch ≠ '/' := by
    rintro rfl
    exact hm.noSlash (List.mem_reverse.mp (hch ▸ List.mem_cons_self))
  by_cases hms : ms = []
  · exact ⟨ch, rest, by simpa [hms] using hch, hslash⟩
  · refine ⟨ch, rest ++ '/' :: ("/".intercalate ms).toList.reverse, ?_, hslash⟩
    rw [intercalate_concat hms, List.reverse_append, List.reverse_cons, hch]
    simp

theorem exists_parent_append (p : String) : ∃ rest, p = parent p ++ rest := by
  have hends : (parent p).toList.reverse <:+ p.toList.reverse := by
    unfold parent
    simp only [String.toList_ofList, List.reverse_reverse]
    split_ifs
    · exact List.dropWhile_suffix _
    · exact (List.dropWhile_suffix _).trans (List.dropWhile_suffix _)
  obtain ⟨rest, hrest⟩ := List.reverse_suffix.mp hends
  refine ⟨String.ofList rest, String.toList_inj.mp ?_⟩
  rw [String.toList_append, String.toList_ofList, hrest]

/-- The directory of a path is all but its last name. The slashes in front are kept. -/
theorem parent_rooted {r : String} (hr : ∀ ch ∈ r.toList, ch = '/') (hns : ∀ m ∈ ns, IsName m)
    (hn : '/' ∉ n.toList) :
    parent (r ++ "/".intercalate (ns ++ [n])) = r ++ "/".intercalate ns := by
  have hskip : ∀ ch ∈ n.toList.reverse, decide (ch ≠ '/') = true := by
    intro ch hch
    rw [decide_eq_true_iff]
    rintro rfl
    exact hn (List.mem_reverse.mp hch)
  have hall : ∀ ch ∈ r.toList.reverse, ch = '/' := fun ch hch => hr ch (List.mem_reverse.mp hch)
  by_cases hne : ns = []
  · have hhead : r.toList.reverse.dropWhile (· ≠ '/') = r.toList.reverse := by
      cases hchars : r.toList.reverse with
      | nil => rfl
      | cons ch rest => simp [hall ch (hchars ▸ List.mem_cons_self)]
    have hnames : r.toList.reverse.dropWhile (· == '/') = [] := by
      rw [List.dropWhile_eq_nil_iff]
      exact fun ch hch => beq_iff_eq.mpr (hall ch hch)
    subst hne
    rw [parent, List.nil_append, String.intercalate_singleton, String.toList_append,
      List.reverse_append, List.dropWhile_append_of_pos hskip, hhead, hnames, List.isEmpty_nil,
      if_pos rfl, List.reverse_reverse, String.ofList_toList]
    simp
  · obtain ⟨ch, rest, hlast, hch⟩ := exists_last_char hns hne
    have hhead : (r ++ "/".intercalate (ns ++ [n])).toList.reverse.dropWhile (· ≠ '/') =
        '/' :: ch :: (rest ++ r.toList.reverse) := by
      rw [String.toList_append, intercalate_concat hne, List.reverse_append, List.reverse_append,
        List.reverse_cons, hlast, List.append_assoc, List.append_assoc,
        List.dropWhile_append_of_pos hskip]
      simp
    have hnames : List.dropWhile (· == '/') ('/' :: ch :: (rest ++ r.toList.reverse)) =
        ("/".intercalate ns).toList.reverse ++ r.toList.reverse := by
      rw [hlast]
      simp [hch]
    rw [parent, hhead, hnames, hlast, List.cons_append, List.isEmpty_cons,
      if_neg Bool.false_ne_true, ← List.cons_append, ← hlast, ← List.reverse_append,
      List.reverse_reverse, ← String.toList_append, String.ofList_toList]

theorem parent_intercalate (hns : ∀ m ∈ ns, IsName m) (hn : '/' ∉ n.toList) :
    parent ("/".intercalate (ns ++ [n])) = "/".intercalate ns := by
  simpa using @parent_rooted n ns "" (by simp) hns hn

end Path

end ProtoStubs
