import NameBinding.Discovery
import NameBinding.Proofs.Distinct
import NameBinding.Proofs.Folders

/-!
What discovery finds. It finds every interface below a root that is a folder and nothing else, in
path order and each path once, and it reports the other roots one by one. How roots and entries
are ordered makes no difference to the files.
-/

namespace NameBinding

namespace Path

theorem eq_of_order {left right : Path} (h : left.order right = .eq) : left = right := by
  obtain ⟨absolute, names, trailing⟩ := left
  obtain ⟨absolute', names', trailing'⟩ := right
  simp only [order, compareLex, compareOn, Ordering.then_eq_eq] at h
  obtain ⟨habsolute, hnames, htrailing⟩ := h
  obtain rfl := Std.LawfulEqOrd.eq_of_compare habsolute
  obtain rfl := Std.LawfulEqOrd.eq_of_compare hnames
  obtain rfl := Std.LawfulEqOrd.eq_of_compare htrailing
  rfl

instance : Std.LawfulEqOrd Path where
  eq_of_compare := eq_of_order

/-- The path of what is in a folder, down these names. -/
def join (folder : Path) (location : List Text) : Path :=
  { folder with names := folder.names ++ location, trailing := false }

end Path

namespace Discovery

/-- Whether there is a folder at the root. -/
def isSearched (disk : Disk) (root : Path) : Bool :=
  (disk.find? root.toText).any (·.isFolder)

/-- The normal form of the path of an interface: a file at any depth below the folder at this
root, whose name ends in the suffix and has something before it. -/
def InterfaceBelow (disk : Disk) (root file : Path) : Prop :=
  ∃ entries location name content, disk.find? root.toText = some (.folder entries) ∧
    (Node.folder entries).Holds (location ++ [name]) content ∧
    suffix <:+ name ∧ suffix.length < name.length ∧
    file = (root.join (location ++ [name])).normalize

variable {disk other : Disk} {root file : Path} {roots others paths : List Path}

theorem isInterface_iff {name : Text} :
    isInterface name = true ↔ suffix <:+ name ∧ suffix.length < name.length := by
  rw [isInterface, Bool.and_eq_true, List.isSuffixOf_iff_suffix, decide_eq_true_eq]

theorem trailing_of_mem_searchRoots (h : root ∈ searchRoots paths) : root.trailing = false := by
  obtain ⟨path, -, rfl⟩ := List.mem_map.mp (List.mem_eraseDups.mp h)
  rfl

theorem mem_interfacesBelow (hroot : root.trailing = false) :
    file ∈ interfacesBelow disk root ↔ InterfaceBelow disk root file := by
  have hjoin (location : List Text) :
      ({ root with names := root.names ++ location } : Path) = root.join location := by
    rw [Path.join, ← hroot]
  unfold interfacesBelow
  split
  · next entries hfolder =>
    have hfiles (location : List Text) : location ∈ Node.filesAmong entries ↔
        ∃ content, (Node.folder entries).Holds location content := by
      rw [← Node.mem_files, Node.files]
    simp only [List.mem_map, List.mem_filter, hfiles, hjoin]
    constructor
    · rintro ⟨location, ⟨⟨content, hholds⟩, hname⟩, rfl⟩
      rcases List.eq_nil_or_concat' location with rfl | ⟨folders, name, rfl⟩
      · cases hname
      · rw [List.getLastD_concat] at hname
        obtain ⟨hsuffix, hlonger⟩ := isInterface_iff.mp hname
        exact ⟨entries, folders, name, content, hfolder, hholds, hsuffix, hlonger, rfl⟩
    · rintro ⟨_, folders, name, content, hsame, hholds, hsuffix, hlonger, rfl⟩
      obtain ⟨rfl⟩ := Node.folder.inj (Option.some.inj (hfolder.symm.trans hsame))
      refine ⟨folders ++ [name], ⟨⟨content, hholds⟩, ?_⟩, rfl⟩
      rw [List.getLastD_concat]
      exact isInterface_iff.mpr ⟨hsuffix, hlonger⟩
  · next hother =>
    constructor
    · exact nofun
    · rintro ⟨entries, -, -, -, hfolder, -⟩
      exact absurd hfolder (hother entries)

theorem mem_files_run :
    file ∈ (run disk roots).files ↔ ∃ root ∈ roots, file ∈ interfacesBelow disk root := by
  rw [run, Std.TreeSet.mem_toList, Std.TreeSet.mem_ofList, List.contains_iff_mem,
    List.mem_flatMap]

/-- The files are in order, so they are settled by which they are. -/
theorem files_run_congr (h : ∀ file, file ∈ (run disk roots).files ↔
    file ∈ (run other others).files) : (run disk roots).files = (run other others).files := by
  have hsame : ∀ file,
      file ∈ Std.TreeSet.ofList (roots.flatMap (interfacesBelow disk)) ↔
        file ∈ Std.TreeSet.ofList (others.flatMap (interfacesBelow other)) := by
    intro file
    rw [← Std.TreeSet.mem_toList, ← Std.TreeSet.mem_toList]
    exact h file
  exact (Std.TreeSet.Equiv.of_forall_mem_iff hsame).toList_eq

theorem issue?_eq (disk : Disk) (root : Path) :
    issue? disk root = if isSearched disk root then none else
      some ⟨root, if (disk.find? root.toText).isNone then .missing else .notAFolder⟩ := by
  unfold issue? isSearched
  cases disk.find? root.toText with
  | none => rfl
  | some node => cases node <;> rfl

theorem issues_run (disk : Disk) (roots : List Path) :
    (run disk roots).issues = (roots.filter (!isSearched disk ·)).map fun root =>
      ⟨root, if (disk.find? root.toText).isNone then .missing else .notAFolder⟩ := by
  have hissues (roots : List Path) : (run disk roots).issues = roots.filterMap (issue? disk) := rfl
  rw [hissues]
  induction roots with
  | nil => rfl
  | cons first rest ih =>
      cases hfirst : isSearched disk first with
      | true =>
          rw [List.filterMap_cons_none (by rw [issue?_eq, hfirst]; rfl),
            List.filter_cons_of_neg (by simp [hfirst]), ih]
      | false =>
          rw [List.filterMap_cons_some (by rw [issue?_eq, hfirst]; rfl),
            List.filter_cons_of_pos (by simp [hfirst]), List.map_cons, ih]

theorem InterfaceBelow.isSearched (h : InterfaceBelow disk root file) :
    isSearched disk root = true := by
  obtain ⟨entries, -, -, -, hfolder, -⟩ := h
  rw [Discovery.isSearched, hfolder]
  rfl

/-- Where the folders enumerate their entries in another order the same interfaces are found. -/
theorem InterfaceBelow.reordered (hdisk : disk.Reordered other)
    (h : InterfaceBelow disk root file) : InterfaceBelow other root file := by
  obtain ⟨entries, folders, name, content, hfolder, hholds, hname⟩ := h
  have hfind := hdisk.find? root.toText
  rw [hfolder] at hfind
  generalize hother : other.find? root.toText = found at hfind
  cases hfind with
  | some hnode =>
      cases hnode with
      | @folder _ changed hnames hentries =>
          have hsame : (Node.folder entries).Reordered (.folder changed) := .folder hnames hentries
          exact ⟨changed, folders, name, content, hother, hsame.holds hholds, hname⟩

theorem issue?_reordered (hdisk : disk.Reordered other) (root : Path) :
    issue? disk root = issue? other root := by
  have hfind := hdisk.find? root.toText
  unfold issue?
  generalize disk.find? root.toText = found at hfind ⊢
  generalize other.find? root.toText = found' at hfind ⊢
  cases hfind with
  | none => rfl
  | some hnode => cases hnode <;> rfl

/-- Discovery is exact, whatever the disk and the roots. The files are in strictly increasing
order and are just the interfaces below those roots that are folders. The other roots are
reported, one issue each and in their order, and do nothing else. Other orders of the roots lead
to the same files and to the same issues in another order; other orders in which the folders
enumerate their entries lead to the same result. -/
theorem run_exact (disk : Disk) (paths : List Path) :
    let roots := searchRoots paths
    let found := run disk roots
    found.files.Pairwise (fun left right => left.order right = .lt) ∧
      (∀ file, file ∈ found.files ↔ ∃ root ∈ roots, InterfaceBelow disk root file) ∧
      found.issues = ((roots.filter (!isSearched disk ·)).map fun root =>
        ⟨root, if (disk.find? root.toText).isNone then .missing else .notAFolder⟩) ∧
      (run disk (roots.filter (isSearched disk))).files = found.files ∧
      (∀ others, others.Perm roots →
        (run disk others).files = found.files ∧ (run disk others).issues.Perm found.issues) ∧
      (∀ others, others.Perm paths → (searchRoots others).Perm roots) ∧
      ∀ other, disk.Reordered other → run other roots = found := by
  intro roots found
  have hsorted : found.files.Pairwise (fun left right => compare left right = .lt) :=
    Std.TreeSet.ordered_toList
  have hfiles (disk : Disk) (others : List Path) (hothers : ∀ root ∈ others, root ∈ roots)
      (file : Path) :
      file ∈ (run disk others).files ↔ ∃ root ∈ others, InterfaceBelow disk root file := by
    rw [mem_files_run]
    refine exists_congr fun root => and_congr_right fun hroot => ?_
    exact mem_interfacesBelow (trailing_of_mem_searchRoots (hothers root hroot))
  have hall (disk : Disk) := hfiles disk roots fun _ hroot => hroot
  refine ⟨hsorted, hall disk, issues_run disk roots, ?_, ?_, ?_, ?_⟩
  · refine files_run_congr fun file => ?_
    rw [hfiles disk _ fun _ hroot => (List.mem_filter.mp hroot).1, hall disk]
    constructor
    · rintro ⟨root, hroot, hbelow⟩
      exact ⟨root, (List.mem_filter.mp hroot).1, hbelow⟩
    · rintro ⟨root, hroot, hbelow⟩
      exact ⟨root, List.mem_filter.mpr ⟨hroot, hbelow.isSearched⟩, hbelow⟩
  · intro others hperm
    refine ⟨files_run_congr fun file => ?_, hperm.filterMap _⟩
    rw [mem_files_run, mem_files_run]
    exact exists_congr fun root => and_congr_left' hperm.mem_iff
  · intro others hperm
    exact perm_eraseDups ((hperm.filter _).map _)
  · intro other hdisk
    have hsame : (run other roots).files = found.files := by
      refine files_run_congr fun file => ?_
      rw [hall other, hall disk]
      exact exists_congr fun root => and_congr_right fun _ =>
        ⟨.reordered hdisk.symm, .reordered hdisk⟩
    have hissues : (run other roots).issues = found.issues :=
      List.filterMap_congr fun root _ => (issue?_reordered hdisk root).symm
    exact congrArg₂ Discovery.mk hsame hissues

/-- Two roots overlap, one is missing and one is a file. A file that is named by the suffix alone
is no interface. -/
theorem run_exact_stables :
    let lib : List (Text × Node) :=
      [("Barn.sigilmod", .file []), ("deep", .folder [("Hay.sigilmod", .file [])])]
    let entries : List (Text × Node) :=
      [("lib", .folder lib), ("Stall.sigilmod", .file []), (".sigilmod", .file [])]
    let disk (entries : List (Text × Node)) : Disk := ⟨.folder entries, []⟩
    let paths : List Path :=
      ["gone", "lib/deep/", "Stall.sigilmod", ".", "./lib//deep"].map fun (text : Text) =>
        Path.ofText text
    let found := run (disk entries) (searchRoots paths)
    (disk entries).Reordered (disk entries.reverse) ∧ paths.reverse.Perm paths ∧
      run (disk entries.reverse) (searchRoots paths) = found ∧
      (run (disk entries) (searchRoots paths.reverse)).files = found.files ∧
      found.files.map (·.toText) =
        (["Stall.sigilmod", "lib/Barn.sigilmod", "lib/deep/Hay.sigilmod"] : List Text) ∧
      found.issues.map (fun issue => (issue.root.toText, issue.fault)) =
        [(("gone" : Text), .missing), (("Stall.sigilmod" : Text), .notAFolder)] := by
  intro lib entries disk paths found
  obtain ⟨-, -, -, -, hroots, hpaths, hdisks⟩ := run_exact (disk entries) paths
  have hdeep : (Node.folder [("Hay.sigilmod", .file [])]).Tree :=
    .folder (by decide) (List.forall_mem_singleton.mpr (.file []))
  have hlib : (Node.folder lib).Tree :=
    .folder (by decide) (List.forall_mem_cons.mpr ⟨.file [], List.forall_mem_singleton.mpr hdeep⟩)
  have htree : (Node.folder entries).Tree := by
    refine .folder (by decide) (List.forall_mem_cons.mpr ⟨hlib, ?_⟩)
    exact List.forall_mem_cons.mpr ⟨.file [], List.forall_mem_singleton.mpr (.file [])⟩
  have hdisk : (disk entries).Reordered (disk entries.reverse) :=
    ⟨rfl, htree.reordered_of_perm (List.reverse_perm entries).symm⟩
  have hperm : paths.reverse.Perm paths := List.reverse_perm paths
  exact ⟨hdisk, hperm, hdisks _ hdisk, (hroots _ (hpaths _ hperm)).1, by decide +kernel,
    by decide +kernel⟩

end Discovery

end NameBinding
