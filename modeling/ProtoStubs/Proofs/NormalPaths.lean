import ProtoStubs.Proofs.Paths

/-!
Normal forms of paths. Normalizing a second time changes nothing, and neither does normalizing a
path before it is joined to a directory. Seen from an absolute directory, every path has an absolute
form: one slash or two, and the names on the way to it, among which there are no two dots. What is
joined to a path lies below it, and the directory around it has all its names but the last.
-/

namespace ProtoStubs

namespace Path

variable {a b p : String} {ns : List String} {anchored : Bool}

section Collapse

/-- One more component on a stack, which is then walked from `below`, or one more component after
the stack was walked. -/
theorem foldl_descend_reverse (stack below : List String) (n : String) :
    (descend false stack n).reverse.foldl (descend anchored) below =
      descend anchored (stack.reverse.foldl (descend anchored) below) n := by
  by_cases hpush : n ≠ ".." ∨ stack = [] ∨ stack.head? = some ".."
  · have hstep : descend false stack n = n :: stack := by
      apply if_pos
      simpa [or_assoc] using hpush
    rw [hstep, List.reverse_cons, List.foldl_append, List.foldl_cons, List.foldl_nil]
  · -- Two dots take off the name that is on top, here and there.
    obtain ⟨hn, hne, hhead⟩ : n = ".." ∧ stack ≠ [] ∧ stack.head? ≠ some ".." := by
      simpa [not_or] using hpush
    obtain ⟨top, rest, rfl⟩ := List.exists_cons_of_ne_nil hne
    have htop : top ≠ ".." := by simpa using hhead
    subst hn
    have hstep : descend false (top :: rest) ".." = rest := by simp [descend, htop]
    rw [hstep, List.reverse_cons, List.foldl_append, List.foldl_cons, List.foldl_nil]
    simp [descend, htop]

theorem foldl_descend_foldl (ns stack below : List String) :
    (ns.foldl (descend false) stack).reverse.foldl (descend anchored) below =
      ns.foldl (descend anchored) (stack.reverse.foldl (descend anchored) below) := by
  induction ns generalizing stack with
  | nil => rfl
  | cons n rest ih => rw [List.foldl_cons, List.foldl_cons, ih, foldl_descend_reverse]

/-- What is collapsed by itself leads on as before. -/
theorem collapse_append_collapse (ms ns : List String) :
    collapse anchored (ms ++ collapse false ns) = collapse anchored (ms ++ ns) := by
  have hwalk := @foldl_descend_foldl anchored ns [] (ms.foldl (descend anchored) [])
  rw [collapse, collapse, collapse, List.foldl_append, List.foldl_append, hwalk]
  rfl

/-- No two dots are left in front of an absolute path. -/
theorem dots_notMem_collapse (ns : List String) : ".." ∉ collapse true ns := by
  have hwalk : ∀ stack : List String, ".." ∉ stack → ".." ∉ ns.foldl (descend true) stack := by
    induction ns with
    | nil => exact fun stack hstack => hstack
    | cons n rest ih =>
      intro stack hstack
      apply ih
      have hhead : stack.head? ≠ some ".." := fun h => hstack (List.mem_of_head? h)
      by_cases hn : n = ".."
      · subst hn
        have hstep : descend true stack ".." = stack.tail := by simp [descend, hhead]
        rw [hstep]
        exact fun h => hstack (List.mem_of_mem_tail h)
      · have hstep : descend true stack n = n :: stack := by simp [descend, hn]
        rw [hstep, List.mem_cons, not_or]
        exact ⟨Ne.symm hn, hstack⟩
  rw [collapse, List.mem_reverse]
  exact hwalk [] List.not_mem_nil

/-- Going up out of all names comes out where one started. -/
theorem collapse_append_up (h : ".." ∉ ns) (ms : List String) :
    collapse anchored (ns ++ (List.replicate ns.length ".." ++ ms)) = collapse anchored ms := by
  have hup := @foldl_descend_up ns.reverse anchored (by simpa using h) []
  rw [List.length_reverse] at hup
  rw [collapse, List.foldl_append, foldl_descend_down h, List.foldl_append, hup, collapse]

end Collapse

section Normalize

theorem root_append_slash (h : isAbsolute p = false) :
    root ("/" ++ p) = "/" ∧ root ("/" ++ "/" ++ p) = "/" ++ "/" := by
  have hfirst : p.toList.head? ≠ some '/' := by simpa [isAbsolute] using h
  cases hp : p.toList with
  | nil => simp [root, hp]
  | cons ch rest =>
    have hch : ch ≠ '/' := by simpa [hp] using hfirst
    constructor
    · simp [root, hp, hch]
    · simp [root, hp, hch]

/-- Names that are written after the root of a path leave it the root that it is. -/
theorem root_rooted (p : String) (h : ∀ n ∈ ns, IsName n) :
    root (orDot (root p ++ "/".intercalate ns)) = root p := by
  have hnames := root_append_slash (isAbsolute_intercalate h)
  cases hp : isAbsolute p with
  | false =>
    have hrelative := isAbsolute_rooted p h
    rw [root_of_relative (hrelative.trans hp), root_of_relative hp]
  | true =>
    rcases root_of_absolute hp with hroot | hroot
    · rw [hroot, orDot, if_neg (by simp), hnames.1]
    · rw [hroot, orDot, if_neg (by simp), hnames.2]

theorem isName_of_mem_collapse {n : String} (h : n ∈ collapse anchored (components p)) :
    IsName n := isName_of_mem_components (mem_collapse h)

theorem isAbsolute_normalize (p : String) : isAbsolute (normalize p) = isAbsolute p :=
  isAbsolute_rooted p fun _ hn => isName_of_mem_collapse hn

theorem components_normalize (p : String) :
    components (normalize p) = collapse (isAbsolute p) (components p) :=
  components_rooted p fun _ hn => isName_of_mem_collapse hn

theorem root_normalize (p : String) : root (normalize p) = root p :=
  root_rooted p fun _ hn => isName_of_mem_collapse hn

theorem join_of_absolute (a : String) (h : isAbsolute b = true) : join a b = b := if_pos h

theorem normalize_of_absolute (h : isAbsolute p = true) :
    normalize p = orDot (root p ++ "/".intercalate (collapse true (components p))) := by
  rw [normalize, h]

theorem collapse_collapse (ns : List String) :
    collapse anchored (collapse anchored ns) = collapse anchored ns := by
  cases anchored with
  | true => exact collapse_of_down (dots_notMem_collapse ns)
  | false => exact collapse_append_collapse [] ns

/-- A normalized path is normal. -/
theorem normalize_normalize (p : String) : normalize (normalize p) = normalize p := by
  rw [normalize, root_normalize, isAbsolute_normalize, components_normalize, collapse_collapse]
  rfl

/-- A path leads to the same place, seen from a relative directory, if it is normalized first. -/
theorem normalize_join_normalize (ha : isAbsolute a = false) (b : String) :
    normalize (join a (normalize b)) = normalize (join a b) := by
  have hsame := isAbsolute_normalize b
  cases hb : isAbsolute b with
  | true =>
    rw [join_of_absolute a (hsame.trans hb), join_of_absolute a hb, normalize_normalize]
  | false =>
    rw [hb] at hsame
    rw [normalize_of_relative ((isAbsolute_join hsame).trans ha),
      normalize_of_relative ((isAbsolute_join hb).trans ha), components_join hsame,
      components_join hb, components_normalize, hb, collapse_append_collapse]

end Normalize

section Slashes

def slashes (p : String) : Nat := (p.toList.takeWhile (· == '/')).length

/-- Only two slashes in front are kept apart from one. -/
theorem root_eq_of_absolute (h : isAbsolute p = true) :
    root p = if slashes p = 2 then "/" ++ "/" else "/" := by
  obtain ⟨rest, hrest⟩ : ∃ rest, p.toList = '/' :: rest :=
    List.head?_eq_some_iff.mp (by simpa [isAbsolute] using h)
  rw [root, slashes, hrest]
  cases rest with
  | nil => simp
  | cons second rest =>
    by_cases hsecond : second = '/'
    · cases rest with
      | nil => simp [hsecond]
      | cons third rest => by_cases hthird : third = '/' <;> simp [hsecond, hthird]
    · simp [hsecond]

theorem slashes_eq_two_iff (h : isAbsolute p = true) : slashes p = 2 ↔ root p = "/" ++ "/" := by
  rw [root_eq_of_absolute h]
  by_cases htwo : slashes p = 2
  · simp [htwo]
  · simp only [htwo, if_false, false_iff]
    decide

theorem orDot_root_append (h : isAbsolute p = true) (names : String) :
    orDot (root p ++ names) = root p ++ names := by
  apply if_neg
  rcases root_of_absolute h with hroot | hroot <;> simp [hroot]

theorem eq_slash_of_mem_root {ch : Char} (h : ch ∈ (root p).toList) : ch = '/' := by
  cases hp : isAbsolute p with
  | false => simp [root_of_relative hp] at h
  | true => rcases root_of_absolute hp with hroot | hroot <;> simpa [hroot] using h

/-- The parent of the root is the root itself. -/
theorem parent_root_append (hp : isAbsolute p = true) (h : ∀ n ∈ ns, IsName n) :
    parent (root p ++ "/".intercalate ns) = root p ++ "/".intercalate ns.dropLast := by
  by_cases hne : ns = []
  · subst hne
    rcases root_of_absolute hp with hroot | hroot <;> rw [hroot] <;> decide
  · obtain ⟨ms, n, rfl⟩ : ∃ ms n, ns = ms ++ [n] :=
      ⟨_, _, (List.dropLast_concat_getLast hne).symm⟩
    obtain ⟨hms, hn⟩ := List.forall_mem_append.mp h
    rw [List.dropLast_concat]
    exact parent_rooted (fun ch hch => eq_slash_of_mem_root hch) hms
      (List.forall_mem_singleton.mp hn).noSlash

end Slashes

section Absolute

variable {directory : String} (hd : isAbsolute directory = true)

include hd

theorem isAbsolute_absolute (p : String) : isAbsolute (absolute directory p) = true := by
  rw [absolute_eq_normalize, isAbsolute_normalize, isAbsolute_join_of_absolute hd]

theorem components_absolute (p : String) :
    components (absolute directory p) =
      collapse true ((if isAbsolute p then [] else components directory) ++ components p) := by
  rw [absolute_eq_normalize, components_normalize, isAbsolute_join_of_absolute hd,
    components_join_eq]

theorem places_eq_components (p : String) :
    places directory p = components (absolute directory p) := by
  rw [places_eq_collapse hd, components_absolute hd]

theorem dots_notMem_absolute (p : String) : ".." ∉ components (absolute directory p) := by
  rw [components_absolute hd]
  exact dots_notMem_collapse _

theorem absolute_absolute (p : String) :
    absolute directory (absolute directory p) = absolute directory p := by
  rw [absolute_eq_normalize directory (absolute directory p),
    join_of_absolute _ (isAbsolute_absolute hd p), absolute_eq_normalize, normalize_normalize]

/-- An absolute form is its root and its components. -/
theorem absolute_eq_root_append (p : String) :
    absolute directory p =
      root (absolute directory p) ++ "/".intercalate (components (absolute directory p)) := by
  have hself := isAbsolute_absolute hd p
  have hnormal : normalize (absolute directory p) = absolute directory p := by
    rw [absolute_eq_normalize, normalize_normalize]
  rw [normalize_of_absolute hself, orDot_root_append hself,
    collapse_of_down (dots_notMem_absolute hd p)] at hnormal
  exact hnormal.symm

/-- What is joined to a path lies below it, as long as it does not lead up again. -/
theorem components_absolute_join (hb : isAbsolute b = false) (hdots : ".." ∉ components b) :
    components (absolute directory (join a b)) =
      components (absolute directory a) ++ components b := by
  rw [components_absolute hd, components_absolute hd, isAbsolute_join hb, components_join hb,
    ← List.append_assoc, collapse_append_down hdots]

/-- The directory around a path has the names of the path but the last. -/
theorem parent_absolute (p : String) :
    parent (absolute directory p) = root (absolute directory p) ++
      "/".intercalate (components (absolute directory p)).dropLast := by
  rw [← parent_root_append (isAbsolute_absolute hd p) fun n hn => isName_of_mem_components hn,
    ← absolute_eq_root_append hd]

theorem parent_absolute_ne_empty (p : String) : parent (absolute directory p) ≠ "" := by
  rw [parent_absolute hd, ← orDot_root_append (isAbsolute_absolute hd p)]
  exact orDot_ne_empty _

theorem absolute_parent (p : String) :
    root (absolute directory (parent (absolute directory p))) = root (absolute directory p) ∧
      components (absolute directory (parent (absolute directory p))) =
        (components (absolute directory p)).dropLast := by
  have hself := isAbsolute_absolute hd p
  have hnames : ∀ n ∈ (components (absolute directory p)).dropLast, IsName n :=
    fun n hn => isName_of_mem_components (List.dropLast_subset _ hn)
  have hdots : ".." ∉ (components (absolute directory p)).dropLast :=
    fun hmem => dots_notMem_absolute hd p (List.dropLast_subset _ hmem)
  have habsolute := (isAbsolute_rooted (absolute directory p) hnames).trans hself
  rw [parent_absolute hd, ← orDot_root_append hself, absolute_eq_normalize directory (orDot _),
    join_of_absolute _ habsolute, root_normalize, components_normalize, habsolute,
    root_rooted _ hnames, components_rooted _ hnames, collapse_of_down hdots]
  exact ⟨rfl, rfl⟩

end Absolute

end Path

end ProtoStubs
