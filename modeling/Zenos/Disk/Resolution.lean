-- Paths are resolved by comparing texts. The law is about components: a mount
-- point should win when its components are the longest ones that the path
-- starts with. The two agree unless a mount point ends inside a component.
import Zenos.Disk.Mounts
import Zenos.Ext2.Mount

namespace zenos_kernel.disk.vfs

open Path

/-! ## Normal paths -/

/-- What `normalize_path` keeps of a part: all but `.` and `..`. -/
def IsName (part : List Char) : Prop := part ≠ [] ∧ '/' ∉ part ∧ part ≠ ['.'] ∧ part ≠ ['.', '.']

theorem component_of_isName {part : List Char} (h : IsName part) (cs : List (List Char)) :
    component cs part = cs ++ [part] := by
  obtain ⟨hne, -, hdot, hdots⟩ := h
  simp [component, hne, hdot, hdots]

variable {cs : List (List Char)}

theorem isName_component {part : List Char} (hcs : ∀ c ∈ cs, IsName c)
    (hpart : '/' ∉ part) : ∀ c ∈ component cs part, IsName c := by
  unfold component
  split
  · exact hcs
  rename_i hkeep
  simp only [not_or] at hkeep
  split
  · exact fun c hc => hcs c (List.dropLast_subset cs hc)
  · rename_i hdots
    intro c hc
    simp only [List.mem_append, List.mem_singleton] at hc
    rcases hc with hc | rfl
    · exact hcs c hc
    · exact ⟨hkeep.1, hpart, hkeep.2, hdots⟩

variable {parts : List (List Char)}

theorem isName_foldl (hparts : ∀ part ∈ parts, '/' ∉ part) (hcs : ∀ c ∈ cs, IsName c) :
    ∀ c ∈ parts.foldl component cs, IsName c := by
  induction parts generalizing cs with
  | nil => exact hcs
  | cons part parts ih =>
    apply ih
    · exact fun p hp => hparts p (List.mem_cons_of_mem part hp)
    · exact isName_component hcs (hparts part List.mem_cons_self)

variable (path : List Char)

theorem isName_components : ∀ c ∈ components path, IsName c := by
  apply isName_foldl
  · exact fun part hpart => sep_notMem_of_mem_splitOn hpart
  · simp

theorem names_components : Names '/' (components path) := by
  intro c hc
  obtain ⟨hne, hsep, -⟩ := isName_components path c hc
  exact ⟨hne, hsep⟩

/-- The components of a path of names are the names. -/
theorem foldl_component (hparts : ∀ part ∈ parts, IsName part)
    (cs : List (List Char)) : parts.foldl component cs = cs ++ parts := by
  induction parts generalizing cs with
  | nil => simp
  | cons part parts ih =>
    rw [List.foldl_cons, component_of_isName (hparts part List.mem_cons_self),
      ih (fun p hp => hparts p (List.mem_cons_of_mem part hp))]
    simp

theorem components_normalize_path : components (normalize_path path) = components path := by
  have hnames := isName_components path
  unfold normalize_path
  generalize components path = cs at *
  cases cs with
  | nil => decide
  | cons c cs =>
    have hsplit : ('/' :: ['/'].intercalate (c :: cs)).splitOn '/' = [] :: c :: cs := by
      rw [List.splitOn_cons_eq_if_modifyHead,
        List.splitOn_intercalate '/' (fun l hl => (hnames l hl).2.1) (by simp)]
      simp
    rw [components, hsplit]
    exact foldl_component hnames []

/-- A path as the mount table holds it. -/
def Normal : Prop := normalize_path path = path

theorem normal_normalize_path : Normal (normalize_path path) := by
  rw [Normal, normalize_path, components_normalize_path]
  rfl

variable {path normalized_path : List Char}

theorem normalize_path_of_ne_nil (h : components path ≠ []) :
    normalize_path path = joined '/' (components path) := by
  rw [normalize_path]
  generalize components path = cs at *
  cases cs with
  | nil => exact absurd rfl h
  | cons c cs => exact cons_intercalate c cs

theorem normalize_path_of_nil (h : components path = []) : normalize_path path = ['/'] := by
  rw [normalize_path, h]
  rfl

theorem components_append (p q : List Char) :
    components (p ++ '/' :: q) = (q.splitOn '/').foldl component (components p) := by
  rw [components, List.splitOn_append_cons_self, List.foldl_append, components]

theorem parts_normalize_path (path : List Char) :
    Path.parts '/' (normalize_path path) = components path := by
  by_cases h : components path = []
  · rw [normalize_path_of_nil h, h]
    rfl
  · rw [normalize_path_of_ne_nil h, parts_joined (names_components path)]

/-- The parts of the text are names, and they are what is left of the parts of the path. A part
behind a last `/` would be empty. -/
theorem normalize_path_is_lexical (p q : List Char) :
    (normalize_path p).head? = some '/' ∧
    (normalize_path p = ['/'] ∨ ∀ part ∈ (normalize_path p).tail.splitOn '/', IsName part) ∧
    normalize_path (normalize_path p) = normalize_path p ∧
    normalize_path (p ++ '/' :: q) = normalize_path (normalize_path p ++ '/' :: q) ∧
    Path.parts '/' (normalize_path p) = (p.splitOn '/').foldl (fun kept part =>
      if part = [] ∨ part = ['.'] then kept
      else if part = ['.', '.'] then kept.dropLast else kept ++ [part]) [] := by
  refine ⟨rfl, ?_, normal_normalize_path p, ?_, parts_normalize_path p⟩
  · by_cases h : components p = []
    · exact Or.inl (normalize_path_of_nil h)
    · right
      change ∀ part ∈ (['/'].intercalate (components p)).splitOn '/', IsName part
      rw [List.splitOn_intercalate '/' (fun c hc => (isName_components p c hc).2.1) h]
      exact isName_components p
  · rw [normalize_path, normalize_path, components_append, components_append,
      components_normalize_path]

/-- A normal path starts another one when its components do, or when it cuts one. -/
theorem normalize_path_starts_iff (m path : List Char) :
    normalize_path m <+: normalize_path path ↔
      components m <+: components path ∨ Cuts (components m) (components path) := by
  rw [← joined_prefix_cases (names_components m) (names_components path)]
  by_cases hm : components m = []
  · rw [normalize_path_of_nil hm, hm]
    simp [normalize_path]
  rw [normalize_path_of_ne_nil hm]
  by_cases hp : components path = []
  · rw [normalize_path_of_nil hp, hp]
    obtain ⟨c, cs, hc⟩ := List.exists_cons_of_ne_nil hm
    have hne := (names_components m c (by simp [hc])).1
    obtain ⟨a, as, rfl⟩ := List.exists_cons_of_ne_nil hne
    simp [hc]
  · rw [normalize_path_of_ne_nil hp]

/-- Of two texts that start a third, the longer one is not the shorter one. -/
theorem prefix_of_len_le {s t u : List Char} (hs : s <+: u) (ht : t <+: u) (h : len s ≤ len t) :
    s <+: t := by
  rcases List.prefix_or_prefix_of_prefix hs ht with hst | hts
  · exact hst
  obtain ⟨r, rfl⟩ := hts
  have hr : r = [] := by
    cases r with
    | nil => rfl
    | cons c r =>
      have := c.utf8Size_pos
      simp [len] at h
      omega
  simp [hr]

namespace VFS

variable {φ : Type} {best : Option (List Char × φ)}

/-! ## The longest text -/

/-- `best` is the longest of the mount points that start the path, as texts. -/
def LongestText (entries : List (List Char × φ)) (normalized_path : List Char) :
    Option (List Char × φ) → Prop
  | none => ∀ e ∈ entries, ¬ e.1 <+: normalized_path
  | some best => best ∈ entries ∧ best.1 <+: normalized_path ∧
      ∀ e ∈ entries, e.1 <+: normalized_path → len e.1 ≤ len best.1

theorem longestText_better {entries : List (List Char × φ)}
    (h : LongestText entries normalized_path best) (entry : List Char × φ) :
    LongestText (entries ++ [entry]) normalized_path (better normalized_path best entry) := by
  unfold better
  by_cases hstarts : entry.1 <+: normalized_path
  · rw [if_pos (by simpa using hstarts)]
    cases best with
    | none =>
      refine ⟨by simp, hstarts, List.forall_mem_append.mpr ⟨?_, by simp⟩⟩
      exact fun e he hes => absurd hes (h e he)
    | some best =>
      obtain ⟨hmem, hbest, hmax⟩ := h
      dsimp only
      split
      · rename_i hlt
        refine ⟨by simp, hstarts, List.forall_mem_append.mpr ⟨?_, by simp⟩⟩
        exact fun e he hes => (hmax e he hes).trans hlt.le
      · rename_i hge
        refine ⟨List.mem_append_left _ hmem, hbest, List.forall_mem_append.mpr ⟨hmax, ?_⟩⟩
        exact List.forall_mem_singleton.mpr fun _ => not_lt.mp hge
  · rw [if_neg (by simpa using hstarts)]
    cases best with
    | none =>
      exact List.forall_mem_append.mpr ⟨h, List.forall_mem_singleton.mpr hstarts⟩
    | some best =>
      obtain ⟨hmem, hbest, hmax⟩ := h
      refine ⟨List.mem_append_left _ hmem, hbest, List.forall_mem_append.mpr ⟨hmax, ?_⟩⟩
      exact List.forall_mem_singleton.mpr fun hes => absurd hes hstarts

theorem longestText_foldl {done rest : List (List Char × φ)}
    (h : LongestText done normalized_path best) :
    LongestText (done ++ rest) normalized_path (rest.foldl (better normalized_path) best) := by
  induction rest generalizing done best with
  | nil => simpa using h
  | cons entry rest ih =>
    rw [List.append_cons]
    exact ih (longestText_better h entry)

variable (vfs : VFS φ) (path : List Char)

theorem longestText_path_to_fs :
    LongestText vfs.fs (normalize_path path) (vfs.path_to_fs path) := by
  have h : LongestText ([] : List (List Char × φ)) (normalize_path path) none := by
    simp [LongestText]
  exact longestText_foldl h

/-! ## The longest list of components -/

/-- `best` is the mount whose components are the longest ones that start the
components of the path. -/
def LongestMount : Option (List Char × φ) → Prop
  | none => ∀ e ∈ vfs.fs, ¬ components e.1 <+: components path
  | some best => best ∈ vfs.fs ∧ components best.1 <+: components path ∧
      ∀ e ∈ vfs.fs, components e.1 <+: components path →
        (components e.1).length ≤ (components best.1).length

/-- A mount point that ends inside a component of the path is no longer than
a mount point that holds the component. -/
def Uncut : Prop :=
  ∀ e ∈ vfs.fs, Path.Cuts (components e.1) (components path) →
    ∃ e' ∈ vfs.fs, components e'.1 <+: components path ∧
      (components e.1).length ≤ (components e'.1).length

/-- Every mount point is a normal path. -/
def Tidy : Prop := ∀ e ∈ vfs.fs, Normal e.1

variable {e : List Char × φ} {vfs : VFS φ}

theorem Tidy.starts_iff (h : vfs.Tidy) (he : e ∈ vfs.fs) (path : List Char) :
    e.1 <+: normalize_path path ↔
      components e.1 <+: components path ∨ Cuts (components e.1) (components path) := by
  rw [← normalize_path_starts_iff, h e he]

/-- The components of a mount point that starts another one are no more. -/
theorem Tidy.length_le (h : vfs.Tidy) {e' : List Char × φ} (he : e ∈ vfs.fs) (he' : e' ∈ vfs.fs)
    (hstarts : e.1 <+: e'.1) : (components e.1).length ≤ (components e'.1).length := by
  rw [← h e' he'] at hstarts
  rcases (h.starts_iff he e'.1).mp hstarts with hfirst | hcuts
  · exact hfirst.length_le
  · exact hcuts.length_le

/-- A mount point that is not cut off is the longest by its components. -/
theorem Tidy.longestMount_of_first (h : vfs.Tidy) {path : List Char} {best : List Char × φ}
    (hbest : LongestText vfs.fs (normalize_path path) (some best))
    (hfirst : components best.1 <+: components path) : vfs.LongestMount path (some best) := by
  obtain ⟨hmem, hstarts, hmax⟩ := hbest
  refine ⟨hmem, hfirst, ?_⟩
  intro e he hefirst
  have hes := (h.starts_iff he path).mpr (Or.inl hefirst)
  exact h.length_le he hmem (prefix_of_len_le hes hstarts (hmax e he hes))

theorem longestMount_iff_uncut (h : vfs.Tidy) (path : List Char) :
    vfs.LongestMount path (vfs.path_to_fs path) ↔ vfs.Uncut path := by
  have htext := longestText_path_to_fs vfs path
  constructor
  · intro hlongest e he hcuts
    have hes := (h.starts_iff he path).mpr (Or.inr hcuts)
    generalize vfs.path_to_fs path = best at htext hlongest
    cases best with
    | none => exact absurd hes (htext e he)
    | some best =>
      obtain ⟨hmem, hstarts, hmax⟩ := htext
      refine ⟨best, hmem, hlongest.2.1, ?_⟩
      exact h.length_le he hmem (prefix_of_len_le hes hstarts (hmax e he hes))
  · intro huncut
    generalize vfs.path_to_fs path = best at htext ⊢
    cases best with
    | none =>
      intro e he hfirst
      exact htext e he ((h.starts_iff he path).mpr (Or.inl hfirst))
    | some best =>
      have ⟨hmem, hstarts, hmax⟩ := htext
      apply h.longestMount_of_first htext
      rcases (h.starts_iff hmem path).mp hstarts with hfirst | hcuts
      · exact hfirst
      -- a mount that holds the cut component would be a longer text
      obtain ⟨e, he, hefirst, hlen⟩ := huncut best hmem hcuts
      have hes := (h.starts_iff he path).mpr (Or.inl hefirst)
      have hle : e.1 <+: best.1 := prefix_of_len_le hes hstarts (hmax e he hes)
      have hge : best.1 <+: e.1 := by
        rw [← h e he]
        exact (h.starts_iff hmem e.1).mpr (Or.inr (hcuts.of_prefix hefirst hlen))
      rw [hle.eq_of_length_le hge.length_le] at hefirst
      exact absurd hefirst hcuts.not_first

/-! ## The rest of the path -/

theorem parts_tail_normalize_path (path : List Char) :
    Path.parts '/' (normalize_path path).tail = components path := by
  have hnames := names_components path
  rw [normalize_path, List.tail_cons, ← Path.parts_cons_sep]
  generalize components path = cs at *
  cases cs with
  | nil => decide
  | cons c cs => rw [Path.cons_intercalate, Path.parts_joined hnames]

theorem relative_parts_eq {m path : List Char} (hm : Normal m) {rest : List (List Char)}
    (hrest : components path = components m ++ rest) :
    relative_parts (normalize_path path) m = rest := by
  rw [relative_parts, Path.parts_dropWhile]
  by_cases hnil : components m = []
  · have hroot : m = ['/'] := by rw [← hm, normalize_path_of_nil hnil]
    rw [hroot, List.length_singleton, List.drop_one, parts_tail_normalize_path, hrest, hnil,
      List.nil_append]
  · have hne : components path ≠ [] := by simp [hrest, hnil]
    have hnames := names_components path
    rw [hrest] at hnames
    have htext : m = Path.joined '/' (components m) := by
      rw [← normalize_path_of_ne_nil hnil, hm]
    rw [normalize_path_of_ne_nil hne, hrest, Path.joined_append, ← htext, List.drop_left,
      Path.parts_joined fun c hc => hnames c (List.mem_append_right _ hc)]

theorem path_to_fs_normalize_path (vfs : VFS φ) (path : List Char) :
    vfs.path_to_fs (normalize_path path) = vfs.path_to_fs path := by
  rw [path_to_fs, path_to_fs, normal_normalize_path]

section Law

variable {σ δ : Type} [InodeOps σ δ] [FileSystem φ σ δ]

/-- The path is looked up in the mount with the longest components, and there
the components that are left are looked up. -/
def ResolvesByComponents (σ δ : Type) [InodeOps σ δ] [FileSystem φ σ δ] (vfs : VFS φ)
    (path : List Char) : Prop :=
  vfs.LongestMount path (vfs.path_to_fs path) ∧
    match vfs.path_to_fs path with
    | none => (vfs.open_file path : EStateM _ σ (Inode δ)) = throw (.err .NotFound) ∧
        ∀ perms, (vfs.create_file path perms : EStateM _ σ (Inode δ)) = throw (.err .NotFound)
    | some (mount_point, fs) => ∃ rest, components path = components mount_point ++ rest ∧
        (vfs.open_file path : EStateM _ σ (Inode δ)) = open_parts fs rest ∧
        ∀ perms, (vfs.create_file path perms : EStateM _ σ (Inode δ)) = create_parts fs rest perms

/-- A path is resolved by its components exactly when no mount point ends
inside one of them, or a mount point at least as long holds it. -/
theorem paths_resolve_by_components_iff (vfs : VFS φ) (h : vfs.Tidy) (path : List Char) :
    vfs.ResolvesByComponents σ δ path ↔ vfs.Uncut path := by
  rw [← longestMount_iff_uncut h]
  constructor
  · exact fun hres => hres.1
  · intro hlongest
    refine ⟨hlongest, ?_⟩
    cases hbest : vfs.path_to_fs path with
    | none =>
      constructor
      · rw [open_file, path_to_fs_normalize_path, hbest]
      · intro perms
        rw [create_file, path_to_fs_normalize_path, hbest]
    | some best =>
      rw [hbest] at hlongest
      obtain ⟨hmem, ⟨rest, hrest⟩, -⟩ := hlongest
      have hrel := relative_parts_eq (h best hmem) hrest.symm
      refine ⟨rest, hrest.symm, ?_, ?_⟩
      · rw [open_file, path_to_fs_normalize_path, hbest]
        dsimp only
        rw [hrel]
      · intro perms
        rw [create_file, path_to_fs_normalize_path, hbest]
        dsimp only
        rw [hrel]

end Law

/-- The mounts of a disk with the partitions `boot` and root. -/
def bootMounts : VFS Unit where
  fs := [("/".toList, ()), ("/boot".toList, ())]
  sorted := by decide

theorem tidy_bootMounts : bootMounts.Tidy := by
  unfold Tidy Normal
  decide

theorem a_file_of_boot_resolves :
    bootMounts.Tidy ∧ bootMounts.ResolvesByComponents fs.ext2.Ext2FSInner fs.ext2.Ext2Data
      "/boot/grub/../kernel".toList := by
  refine ⟨tidy_bootMounts, (paths_resolve_by_components_iff bootMounts tidy_bootMounts _).mpr ?_⟩
  intro e he hcuts
  have hfirst : ∀ e ∈ bootMounts.fs,
      components e.1 <+: components "/boot/grub/../kernel".toList := by decide
  exact absurd (hfirst e he) hcuts.not_first

/-- `/bootstrap` belongs to the root, but goes to `/boot`. -/
theorem a_longer_name_goes_to_boot :
    bootMounts.Tidy ∧ bootMounts.path_to_fs "/bootstrap".toList = some ("/boot".toList, ()) ∧
      ¬ bootMounts.ResolvesByComponents fs.ext2.Ext2FSInner fs.ext2.Ext2Data
        "/bootstrap".toList := by
  have hbest : bootMounts.path_to_fs "/bootstrap".toList = some ("/boot".toList, ()) := by decide
  refine ⟨tidy_bootMounts, hbest, ?_⟩
  intro hres
  have hlongest := hres.1
  have hfirst : ¬ components "/boot".toList <+: components "/bootstrap".toList := by decide
  exact hfirst hlongest.2.1

end VFS

end zenos_kernel.disk.vfs
