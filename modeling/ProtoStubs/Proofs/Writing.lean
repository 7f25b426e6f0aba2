import Mathlib.Data.List.Infix
import ProtoStubs.CommandLine.Disk
import ProtoStubs.Proofs.Paths

/-!
Writing files. A path leads from place to place, and writing a file at it needs a directory at every
place on the way. If nothing stands in the way then the file is written, directories that are not
there are made, and everything else stays. Files that do not stand in each other's way can be
written one after another, and all of them are there in the end.
-/

namespace ProtoStubs.CommandLine.Disk

variable {d d' : Disk} {start place : Place} {names : List String} {name : String}

def next (place : Place) (name : String) : Place :=
  if name = ".." then place.dropLast else place ++ [name]

def lead (start : Place) (names : List String) : Place := names.foldl next start

/-- The places on the way along names, the first and the last included. -/
def way (start : Place) (names : List String) : List Place := names.inits.map (lead start)

def isFile (d : Disk) (place : Place) : Bool :=
  match d.get? place with
  | some (.file _) => true
  | _ => false

structure Fits (name : String) : Prop where
  isName : Path.IsName name
  short : name.utf8ByteSize ≤ 255

theorem lead_concat (start : Place) (names : List String) (name : String) :
    lead start (names ++ [name]) = next (lead start names) name := by
  rw [lead, List.foldl_concat, lead]

theorem lead_append (start : Place) (names more : List String) :
    lead start (names ++ more) = lead (lead start names) more := List.foldl_append

/-- Names without two dots lead down. -/
theorem lead_of_down (h : ".." ∉ names) (start : Place) : lead start names = start ++ names := by
  induction names generalizing start with
  | nil => simp [lead]
  | cons n rest ih =>
    obtain ⟨hn, hrest⟩ := not_or.mp (List.mem_cons.not.mp h)
    have hstep : lead start (n :: rest) = lead (next start n) rest := rfl
    rw [hstep, ih hrest, next, if_neg (Ne.symm hn), List.append_assoc, List.singleton_append]

theorem mem_way :
    place ∈ way start names ↔ ∃ before, before <+: names ∧ lead start before = place := by
  simp [way]

theorem start_mem_way (start : Place) (names : List String) : start ∈ way start names :=
  mem_way.mpr ⟨[], List.nil_prefix, rfl⟩

theorem mem_way_concat : place ∈ way start (names ++ [name]) ↔
    place ∈ way start names ∨ place = lead start (names ++ [name]) := by
  simp only [mem_way, List.prefix_concat_iff]
  constructor
  · rintro ⟨before, rfl | hbefore, rfl⟩
    · exact Or.inr rfl
    · exact Or.inl ⟨before, hbefore, rfl⟩
  · rintro (⟨before, hbefore, rfl⟩ | rfl)
    · exact ⟨before, Or.inr hbefore, rfl⟩
    · exact ⟨_, Or.inl rfl, rfl⟩

theorem get?_put (hplace : place ≠ []) (d : Disk) (node : Node) (p : Place) :
    (d.put place node).get? p = if p = place then some node else d.get? p := by
  unfold get? put
  rw [Table.get?_put]
  by_cases hp : p = []
  · simp [hp, Ne.symm hplace]
  · simp [hp]

theorem step_directory (h : d.get? place = some .directory) (hname : Fits name) :
    d.step place name = .ok (next place name) := by
  have hne := hname.isName.ne_empty
  have hdot := hname.isName.ne_dot
  have hshort : ¬ 255 < name.utf8ByteSize := Nat.not_lt.mpr hname.short
  unfold step next
  simp only [h, hne, hdot, decide_false, Bool.or_self, Bool.false_eq_true, if_false, hshort]
  by_cases hdots : name = ".." <;> simp [hdots]

theorem walk_concat (d : Disk) (start : Place) (names : List String) (name : String) :
    d.walk start (names ++ [name]) = (d.walk start names >>= fun place => d.step place name) := by
  rw [walk, List.foldlM_append]
  simp only [List.foldlM_cons, List.foldlM_nil, bind_pure]
  rfl

theorem ne_concat_of_before {before : List String} (h : before <+: names) (name : String) :
    before ≠ names ++ [name] := by
  rintro rfl
  exact absurd h.length_le (by simp)

/-- Where directories are all along the way, it can be walked. -/
theorem walk_of_directories (hfits : ∀ n ∈ names, Fits n)
    (h : ∀ before, before <+: names → before ≠ names →
      d.get? (lead start before) = some .directory) :
    d.walk start names = .ok (lead start names) := by
  induction names using List.reverseRecOn with
  | nil => rfl
  | append_singleton names n ih =>
    obtain ⟨hnames, hn⟩ := List.forall_mem_append.mp hfits
    have hall : ∀ before, before <+: names → d.get? (lead start before) = some .directory :=
      fun before hb => h before (hb.trans (List.prefix_append names [n])) (ne_concat_of_before hb n)
    rw [walk_concat, ih hnames fun before hb _ => hall before hb, lead_concat]
    exact step_directory (hall names List.prefix_rfl) (List.forall_mem_singleton.mp hn)

/-- Where no file is on the way, it can be walked or something on it is not there yet. -/
theorem walk_cases (d : Disk) (start : Place) (hfits : ∀ n ∈ names, Fits n)
    (hopen : ∀ before, before <+: names → before ≠ names → d.isFile (lead start before) = false) :
    d.walk start names = .error .absent ∨
      ∀ before, before <+: names → before ≠ names →
        d.get? (lead start before) = some .directory := by
  induction names using List.reverseRecOn with
  | nil => exact Or.inr fun before hb hne => (hne (List.prefix_nil.mp hb)).elim
  | append_singleton names n ih =>
    obtain ⟨hnames, _⟩ := List.forall_mem_append.mp hfits
    have hall : ∀ before, before <+: names → d.isFile (lead start before) = false :=
      fun before hb =>
        hopen before (hb.trans (List.prefix_append names [n])) (ne_concat_of_before hb n)
    rw [walk_concat]
    rcases ih hnames fun before hb _ => hall before hb with habsent | hdirectories
    · rw [habsent]
      exact Or.inl rfl
    · rw [walk_of_directories hnames hdirectories]
      have hlast := hall names List.prefix_rfl
      cases hnode : d.get? (lead start names) with
      | none =>
        refine Or.inl ?_
        change d.step (lead start names) n = .error .absent
        rw [step, hnode]
      | some node =>
        cases node with
        | file text => simp [isFile, hnode] at hlast
        | directory =>
          refine Or.inr fun before hb hne => ?_
          have hb := (List.prefix_concat_iff.mp hb).resolve_left hne
          by_cases heq : before = names
          · rw [heq, hnode]
          · exact hdirectories before hb heq

theorem ne_nil_of_get? (h : d.get? place = none) : place ≠ [] := by
  rintro rfl
  simp [get?] at h

/-- Below directories, a directory is made unless it is there already. -/
theorem makeDirectory_of_directories (hfits : ∀ n ∈ names ++ [name], Fits n)
    (h : ∀ p ∈ way start names, d.get? p = some .directory)
    (hfree : d.isFile (lead start (names ++ [name])) = false) :
    ∃ d', (d.makeDirectory start names name = .made d' ∨
        d.makeDirectory start names name = .present ∧ d' = d) ∧
      ∀ p, d'.get? p =
        if p = lead start (names ++ [name]) then some .directory else d.get? p := by
  have hwalk : d.walk start (names ++ [name]) = .ok (lead start (names ++ [name])) :=
    walk_of_directories hfits fun before hb hne =>
      h _ (mem_way.mpr ⟨before, (List.prefix_concat_iff.mp hb).resolve_left hne, rfl⟩)
  cases hnode : d.get? (lead start (names ++ [name])) with
  | none =>
    refine ⟨d.put (lead start (names ++ [name])) .directory, Or.inl ?_,
      get?_put (ne_nil_of_get? hnode) d .directory⟩
    simp [makeDirectory, hwalk, hnode]
  | some node =>
    cases node with
    | file text => simp [isFile, hnode] at hfree
    | directory =>
      refine ⟨d, Or.inr ⟨by simp [makeDirectory, hwalk, hnode], rfl⟩, fun p => ?_⟩
      by_cases hp : p = lead start (names ++ [name]) <;> simp [hp, hnode]

/-- What a place holds once there are directories at some places. -/
def paved (d : Disk) (places : List Place) (p : Place) : Option Node :=
  if p ∈ places then some .directory else d.get? p

theorem paved_concat (d : Disk) (start : Place) (names : List String) (name : String) (p : Place) :
    d.paved (way start (names ++ [name])) p =
      if p = lead start (names ++ [name]) then some .directory
      else d.paved (way start names) p := by
  by_cases hlast : p = lead start (names ++ [name]) <;> simp [paved, mem_way_concat, hlast]

theorem paved_of_directories {places : List Place}
    (h : ∀ p ∈ places, d.get? p = some .directory) (p : Place) : d.paved places p = d.get? p := by
  by_cases hp : p ∈ places
  · rw [paved, if_pos hp, h p hp]
  · rw [paved, if_neg hp]

/-- Where there are no files, directories are all that is new. -/
theorem paved_cases {places : List Place} (h : ∀ p ∈ places, d.isFile p = false) (p : Place) :
    d.paved places p = d.get? p ∨ d.get? p = none ∧ d.paved places p = some .directory := by
  by_cases hp : p ∈ places
  · rw [paved, if_pos hp]
    cases hnode : d.get? p with
    | none => exact Or.inr ⟨rfl, rfl⟩
    | some node =>
      cases node with
      | directory => exact Or.inl rfl
      | file text =>
        have hfile := h p hp
        simp [isFile, hnode] at hfile
  · rw [paved, if_neg hp]
    exact Or.inl rfl

/-- Where no file is on the way, directories are made all along it, and nothing else changes. -/
theorem makeDirectories_reverse (hstart : d.get? start = some .directory)
    (hfits : ∀ n ∈ names, Fits n) (hopen : ∀ p ∈ way start names, d.isFile p = false) :
    ∃ d', d.makeDirectories start names.reverse = .ok d' ∧
      ∀ p, d'.get? p = d.paved (way start names) p := by
  induction names using List.reverseRecOn with
  | nil =>
    refine ⟨d, rfl, fun p => ?_⟩
    by_cases hp : p = start <;> simp [paved, way, lead, hp, hstart]
  | append_singleton names n ih =>
    obtain ⟨hnames, hn⟩ := List.forall_mem_append.mp hfits
    have habove : ∀ p ∈ way start names, d.isFile p = false :=
      fun p hp => hopen p (mem_way_concat.mpr (Or.inl hp))
    have hfree := hopen _ (mem_way_concat.mpr (Or.inr rfl))
    rw [List.reverse_concat', makeDirectories, List.reverse_reverse]
    have hwalk := walk_cases d start hfits fun before hb hne =>
      habove _ (mem_way.mpr ⟨before, (List.prefix_concat_iff.mp hb).resolve_left hne, rfl⟩)
    rcases hwalk with habsent | hdirectories
    · -- Something above is missing: it is made first, and the last directory then.
      obtain ⟨d₁, hmade, hget⟩ := ih hnames habove
      have hpaved : ∀ p ∈ way start names, d₁.get? p = some .directory := fun p hp => by
        rw [hget, paved, if_pos hp]
      have hfree₁ : d₁.isFile (lead start (names ++ [n])) = false := by
        rw [isFile, hget, paved]
        split_ifs with hp
        · rfl
        · exact hfree
      obtain ⟨d', hlast, hget'⟩ := makeDirectory_of_directories hfits hpaved hfree₁
      refine ⟨d', ?_, fun p => by rw [hget', paved_concat, hget]⟩
      have hstopped : d.makeDirectory start names n = .stopped .absent := by
        rw [makeDirectory, habsent]
      rcases hlast with hlast | ⟨hlast, rfl⟩ <;> 
        simp [hstopped, hmade, hlast, bind, Except.bind, pure, Except.pure]
    · have hthere : ∀ p ∈ way start names, d.get? p = some .directory := fun p hp => by
        obtain ⟨before, hb, rfl⟩ := mem_way.mp hp
        exact hdirectories before (hb.trans (List.prefix_append names [n]))
          (ne_concat_of_before hb n)
      obtain ⟨d', hlast, hget'⟩ := makeDirectory_of_directories hfits hthere hfree
      refine ⟨d', ?_, fun p => by rw [hget', paved_concat, paved_of_directories hthere]⟩
      rcases hlast with hlast | ⟨hlast, rfl⟩ <;> simp [hlast]

def placeOf (directory path : String) : Place :=
  lead (startOf directory path) (Path.components path)

def around (directory path : String) : List Place :=
  way (startOf directory path) (Path.components path).dropLast

structure Clear (d : Disk) (directory path : String) : Prop where
  noNul : '\x00' ∉ path.toList
  short : path.utf8ByteSize ≤ 4095
  shortNames : ∀ n ∈ Path.components path, n.utf8ByteSize ≤ 255
  start : d.get? (startOf directory path) = some .directory
  noFile : ∀ p ∈ around directory path, d.isFile p = false
  free : d.get? (placeOf directory path) ≠ some .directory
  outside : placeOf directory path ∉ around directory path

instance (d : Disk) (directory path : String) : Decidable (d.Clear directory path) :=
  decidable_of_iff
    ('\x00' ∉ path.toList ∧ path.utf8ByteSize ≤ 4095 ∧
      (∀ n ∈ Path.components path, n.utf8ByteSize ≤ 255) ∧
      d.get? (startOf directory path) = some .directory ∧
      (∀ p ∈ around directory path, d.isFile p = false) ∧
      d.get? (placeOf directory path) ≠ some .directory ∧
      placeOf directory path ∉ around directory path)
    ⟨fun ⟨h₁, h₂, h₃, h₄, h₅, h₆, h₇⟩ => ⟨h₁, h₂, h₃, h₄, h₅, h₆, h₇⟩,
      fun ⟨h₁, h₂, h₃, h₄, h₅, h₆, h₇⟩ => ⟨h₁, h₂, h₃, h₄, h₅, h₆, h₇⟩⟩

variable {directory path text : String}

theorem checkPath_of_append (rest : String) (hnul : '\x00' ∉ (path ++ rest).toList)
    (hshort : (path ++ rest).utf8ByteSize ≤ 4095) : checkPath path = .ok () := by
  have hnul' : '\x00' ∉ path.toList := fun h => hnul (by simp [h])
  have hshort' : ¬ 4095 < path.utf8ByteSize := by
    rw [String.utf8ByteSize_append] at hshort
    omega
  rw [checkPath, if_neg hnul', if_neg hshort']

namespace Clear

variable (h : d.Clear directory path)
include h

theorem fits : ∀ n ∈ Path.components path, Fits n :=
  fun n hn => ⟨Path.isName_of_mem_components hn, h.shortNames n hn⟩

theorem components_ne_nil : Path.components path ≠ [] := by
  intro hnil
  apply h.free
  rw [placeOf, hnil]
  exact h.start

theorem placeOf_ne_nil : placeOf directory path ≠ [] := by
  intro hnil
  apply h.free
  rw [hnil]
  rfl

theorem checkPath_eq : checkPath path = .ok () := by
  have hshort : ¬ 4095 < path.utf8ByteSize := Nat.not_lt.mpr h.short
  rw [Disk.checkPath, if_neg h.noNul, if_neg hshort]

theorem checkPath_parent : Disk.checkPath (Path.parent path) = .ok () := by
  obtain ⟨rest, hrest⟩ := Path.exists_parent_append path
  exact checkPath_of_append rest (hrest ▸ h.noNul) (hrest ▸ h.short)

/-- The file is written, there are directories on the way to it, and nothing else changes. -/
theorem write_eq (text : String) :
    ∃ d', d.write directory path text = .ok d' ∧
      ∀ p, d'.get? p =
        if p = placeOf directory path then some (.file text)
        else d.paved (around directory path) p := by
  have hlast := List.dropLast_concat_getLast h.components_ne_nil
  obtain ⟨d₁, hmade, hget⟩ := makeDirectories_reverse h.start
    (fun n hn => h.fits n (List.mem_of_mem_dropLast hn)) h.noFile
  rw [← around] at hget
  have hwalk : d₁.walk (startOf directory path) (Path.components path) =
      .ok (placeOf directory path) := by
    refine walk_of_directories h.fits fun before hb hne => ?_
    have hb : before <+: (Path.components path).dropLast := by
      rw [← hlast] at hb hne
      exact (List.prefix_concat_iff.mp hb).resolve_left hne
    rw [hget, paved, around, if_pos (mem_way.mpr ⟨before, hb, rfl⟩)]
  have hfree : d₁.get? (placeOf directory path) ≠ some .directory := by
    rw [hget, paved, if_neg h.outside]
    exact h.free
  refine ⟨d₁.put (placeOf directory path) (.file text), ?_, fun p => ?_⟩
  · simp [write, List.tail_reverse, h.checkPath_parent, hmade, h.checkPath_eq, hwalk, hfree, bind,
      Except.bind, pure, Except.pure]
  · rw [get?_put h.placeOf_ne_nil, hget]

end Clear

/-- Neither of two paths leads to a place on the way to the other, nor to the same place. -/
structure Apart (directory p q : String) : Prop where
  left : placeOf directory p ∉ around directory q
  right : placeOf directory q ∉ around directory p
  ne : placeOf directory q ≠ placeOf directory p

theorem isFile_paved {places : List Place} {p : Place} (hget : d'.get? p = d.paved places p)
    (h : d.isFile p = false) : d'.isFile p = false := by
  rw [isFile, hget, paved]
  split_ifs
  · rfl
  · exact h

/-- After a file is written, nothing keeps one from being written apart from it. -/
theorem Clear.of_write {p q : String} (hq : d.Clear directory q)
    (hapart : Apart directory p q)
    (hget : ∀ p', d'.get? p' =
      if p' = placeOf directory p then some (.file text) else d.paved (around directory p) p') :
    d'.Clear directory q := by
  have hother : ∀ p' ∈ around directory q, d'.get? p' = d.paved (around directory p) p' :=
    fun p' hp' => by rw [hget, if_neg (ne_of_mem_of_not_mem hp' hapart.left)]
  refine ⟨hq.noNul, hq.short, hq.shortNames, ?_, fun p' hp' => ?_, ?_, hq.outside⟩
  · rw [hother _ (start_mem_way _ _), paved, hq.start, ite_self]
  · exact isFile_paved (hother p' hp') (hq.noFile p' hp')
  · rw [hget, if_neg hapart.ne, paved, if_neg hapart.right]
    exact hq.free

/-- Files that do not stand in each other's way are all written, and nothing else changes but for
directories that are made around them. -/
theorem writeAll_of_clear {files : List (String × String)}
    (hclear : ∀ e ∈ files, d.Clear directory e.1)
    (hapart : files.Pairwise fun a b => Apart directory a.1 b.1) :
    ∃ d', d.writeAll directory files = ⟨d', files, none⟩ ∧
      (∀ e ∈ files, d'.get? (placeOf directory e.1) = some (.file e.2)) ∧
      ∀ p, p ∉ files.map (placeOf directory ·.1) →
        d'.get? p = d.paved (files.flatMap (around directory ·.1)) p := by
  induction files generalizing d with
  | nil => exact ⟨d, rfl, by simp, by simp [paved]⟩
  | cons e rest ih =>
    obtain ⟨he, hrest⟩ := List.forall_mem_cons.mp hclear
    obtain ⟨hfirst, hpairs⟩ := List.pairwise_cons.mp hapart
    obtain ⟨d₁, hwrite, hget₁⟩ := he.write_eq e.2
    have hrest₁ : ∀ f ∈ rest, d₁.Clear directory f.1 := fun f hf =>
      (hrest f hf).of_write (hfirst f hf) hget₁
    obtain ⟨d', hall, htexts, hother⟩ := ih hrest₁ hpairs
    refine ⟨d', ?_, ?_, ?_⟩
    · unfold writeAll
      simp only [hwrite, hall]
    · refine List.forall_mem_cons.mpr ⟨?_, htexts⟩
      -- the files after the first neither replace it nor put a directory in its place
      have hkept : placeOf directory e.1 ∉ rest.map (placeOf directory ·.1) := fun hmem => by
        obtain ⟨f, hf, heq⟩ := List.mem_map.mp hmem
        exact (hfirst f hf).ne heq
      have hoff : placeOf directory e.1 ∉ rest.flatMap (around directory ·.1) := fun hmem => by
        obtain ⟨f, hf, hat⟩ := List.mem_flatMap.mp hmem
        exact (hfirst f hf).left hat
      rw [hother _ hkept, paved, if_neg hoff, hget₁]
      exact if_pos rfl
    · intro p hp
      obtain ⟨hpe, hprest⟩ := not_or.mp (List.mem_cons.not.mp hp)
      have hstep : d₁.get? p = d.paved (around directory e.1) p := (hget₁ p).trans (if_neg hpe)
      rw [hother p hprest]
      simp only [paved, hstep, List.flatMap_cons, List.mem_append]
      by_cases h₁ : p ∈ rest.flatMap (around directory ·.1) <;>
        by_cases h₂ : p ∈ around directory e.1 <;> simp [h₁, h₂]

end ProtoStubs.CommandLine.Disk
