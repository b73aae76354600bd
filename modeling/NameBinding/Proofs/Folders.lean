import NameBinding.Disk
import Mathlib.Data.List.Nodup

/-!
What is in a folder. The files below a node are those that the tree holds, and where a path leads
does not depend on the order in which folders enumerate their entries.
-/

namespace NameBinding

namespace Node

/-- A file with this content stands below the node, down these names. -/
inductive Holds : Node → (location : List Text) → (content : Text) → Prop where
  | here (content : Text) : Holds (.file content) [] content
  | inFolder {entries : List (Text × Node)} {name : Text} {node : Node} {location : List Text}
      {content : Text} : (name, node) ∈ entries → Holds node location content →
      Holds (.folder entries) (name :: location) content

/-- No folder of the tree has two entries of one name. -/
inductive Tree : Node → Prop where
  | file (content : Text) : Tree (.file content)
  | folder {entries : List (Text × Node)} : (entries.map (·.1)).Nodup →
      (∀ entry ∈ entries, Tree entry.2) → Tree (.folder entries)

/-- The same tree, but for the order of entries in its folders. -/
inductive Reordered : Node → Node → Prop where
  | file (content : Text) : Reordered (.file content) (.file content)
  | folder {entries others : List (Text × Node)} :
      (entries.map (·.1)).Perm (others.map (·.1)) →
      (∀ (name : Text) (node other : Node), (name, node) ∈ entries → (name, other) ∈ others →
        Reordered node other) →
      Reordered (.folder entries) (.folder others)

section Files

variable {location : List Text} {content : Text}

mutual

theorem mem_files : (node : Node) → {location : List Text} →
    (location ∈ node.files ↔ ∃ content, node.Holds location content)
  | .file content, location => by
    rw [files, List.mem_singleton]
    constructor
    · rintro rfl
      exact ⟨content, .here content⟩
    · rintro ⟨_, h⟩
      cases h
      rfl
  | .folder entries, location => by
    rw [files, mem_filesAmong entries]
    constructor
    · rintro ⟨name, node, rest, hentry, rfl, content, h⟩
      exact ⟨content, .inFolder hentry h⟩
    · rintro ⟨content, h⟩
      cases h with
      | inFolder hentry h => exact ⟨_, _, _, hentry, rfl, content, h⟩

theorem mem_filesAmong : (entries : List (Text × Node)) → {location : List Text} →
    (location ∈ filesAmong entries ↔ ∃ name node rest, (name, node) ∈ entries ∧
      location = name :: rest ∧ ∃ content, node.Holds rest content)
  | [], location => by simp [filesAmong]
  | (first, node) :: rest, location => by
    rw [filesAmong, List.mem_append, List.mem_map, mem_filesAmong rest]
    constructor
    · rintro (⟨inner, hinner, rfl⟩ | ⟨name, other, inner, hentry, h⟩)
      · exact ⟨first, node, inner, List.mem_cons_self, rfl, (mem_files node).mp hinner⟩
      · exact ⟨name, other, inner, List.mem_cons_of_mem _ hentry, h⟩
    · rintro ⟨name, other, inner, hentry, rfl, h⟩
      rcases List.mem_cons.mp hentry with hfirst | hlater
      · obtain ⟨rfl, rfl⟩ := Prod.mk.inj hfirst
        exact .inl ⟨inner, (mem_files other).mpr h, rfl⟩
      · exact .inr ⟨name, other, inner, hlater, rfl, h⟩

end

end Files

section Order

variable {node other : Node} {entries others : List (Text × Node)}

theorem Reordered.symm (h : node.Reordered other) : other.Reordered node := by
  induction h with
  | file content => exact .file content
  | folder hnames _ ih =>
      exact .folder hnames.symm fun name left right hleft hright => ih name right left hright hleft

theorem exists_entry_of_mem {name : Text} (hnames : (entries.map (·.1)).Perm (others.map (·.1)))
    (h : (name, node) ∈ entries) : ∃ other, (name, other) ∈ others := by
  obtain ⟨⟨_, other⟩, hother, rfl⟩ :=
    List.mem_map.mp (hnames.mem_iff.mp (List.mem_map_of_mem (f := (·.1)) h))
  exact ⟨other, hother⟩

theorem Reordered.holds (h : node.Reordered other) {location : List Text} {content : Text}
    (hholds : node.Holds location content) : other.Holds location content := by
  induction h generalizing location with
  | file _ => exact hholds
  | folder hnames _ ih =>
      cases hholds with
      | inFolder hentry hbelow =>
          obtain ⟨other, hother⟩ := exists_entry_of_mem hnames hentry
          exact .inFolder hother (ih _ _ other hentry hother hbelow)

theorem Tree.reordered_self (h : node.Tree) : node.Reordered node := by
  induction h with
  | file content => exact .file content
  | folder hnames _ ih =>
      refine .folder (.refl _) fun name left right hleft hright => ?_
      obtain ⟨-, rfl⟩ := Prod.mk.inj (List.inj_on_of_nodup_map hnames hleft hright rfl)
      exact ih _ hleft

/-- A folder may enumerate its entries in any order. -/
theorem Tree.reordered_of_perm (h : (Node.folder entries).Tree) (hperm : entries.Perm others) :
    (Node.folder entries).Reordered (.folder others) := by
  cases h with
  | folder hnames hentries =>
      refine .folder (hperm.map _) fun name left right hleft hright => ?_
      have hsame := List.inj_on_of_nodup_map hnames hleft (hperm.mem_iff.mpr hright) rfl
      obtain ⟨-, rfl⟩ := Prod.mk.inj hsame
      exact (hentries _ hleft).reordered_self

theorem Reordered.isFolder (h : node.Reordered other) : node.isFolder = other.isFolder := by
  cases h <;> rfl

theorem mem_of_lookup {name : Text} (h : entries.lookup name = some node) :
    (name, node) ∈ entries := by
  obtain ⟨before, after, rfl, -⟩ := List.lookup_eq_some_iff.mp h
  exact List.mem_append_right _ List.mem_cons_self

theorem lookup_eq_none_of_perm {name : Text}
    (hnames : (entries.map (·.1)).Perm (others.map (·.1))) (h : entries.lookup name = none) :
    others.lookup name = none := by
  rw [List.lookup_eq_none_iff] at h ⊢
  intro entry hentry
  obtain ⟨node, hnode⟩ := exists_entry_of_mem hnames.symm hentry
  exact h (entry.1, node) hnode

theorem Reordered.child? (h : node.Reordered other) (name : Text) :
    Option.Rel Reordered (node.child? name) (other.child? name) := by
  cases h with
  | file content => exact .none
  | @folder entries others hnames hentries =>
      change Option.Rel Reordered (entries.lookup name) (others.lookup name)
      cases hentry : entries.lookup name with
      | none =>
          rw [lookup_eq_none_of_perm hnames hentry]
          exact .none
      | some node =>
          cases hother : others.lookup name with
          | none =>
              rw [lookup_eq_none_of_perm hnames.symm hother] at hentry
              cases hentry
          | some other =>
              exact .some (hentries name node other (mem_of_lookup hentry) (mem_of_lookup hother))

theorem Reordered.get? (h : node.Reordered other) (location : List Text) :
    Option.Rel Reordered (node.get? location) (other.get? location) := by
  induction location generalizing node other with
  | nil => exact .some h
  | cons name rest ih =>
      have hchild := h.child? name
      unfold Node.get?
      rw [List.foldlM_cons, List.foldlM_cons]
      generalize node.child? name = left at hchild ⊢
      generalize other.child? name = right at hchild ⊢
      cases hchild with
      | none => exact .none
      | some hchild => exact ih hchild

end Order

end Node

namespace Disk

/-- The same disk, but for the order in which its folders enumerate their entries. -/
structure Reordered (disk other : Disk) : Prop where
  workingFolder : disk.workingFolder = other.workingFolder
  root : disk.root.Reordered other.root

variable {disk other : Disk}

theorem Reordered.symm (h : disk.Reordered other) : other.Reordered disk :=
  ⟨h.workingFolder.symm, h.root.symm⟩

theorem Reordered.enter? (h : disk.Reordered other) (location : List Text) (name : Text) :
    disk.enter? location name = other.enter? location name := by
  have hget := h.root.get? location
  unfold Disk.enter?
  generalize disk.root.get? location = left at hget ⊢
  generalize other.root.get? location = right at hget ⊢
  cases hget with
  | none => rfl
  | @some node next hnode =>
      have hchild := hnode.child? name
      rw [Option.bind_eq_bind, Option.bind_some, Option.bind_some, hnode.isFolder]
      generalize node.child? name = left at hchild ⊢
      generalize next.child? name = right at hchild ⊢
      cases hchild <;> rfl

theorem Reordered.follow (h : disk.Reordered other) (location names : List Text) :
    disk.follow location names = other.follow location names := by
  induction names generalizing location with
  | nil => rfl
  | cons name rest ih =>
      unfold Disk.follow
      rw [h.enter? location name]
      cases other.enter? location name with
      | none => rfl
      | some next => exact ih next

theorem Reordered.locate? (h : disk.Reordered other) (written : Text) :
    disk.locate? written = other.locate? written := by
  have hstart : disk.start = other.start := by
    funext path
    rw [Disk.start, Disk.start, h.workingFolder]
  have hfollow : disk.followAll? = other.followAll? := by
    funext location names
    rw [Disk.followAll?, Disk.followAll?, h.follow]
  have henter : disk.enter? = other.enter? := by
    funext location name
    exact h.enter? location name
  rw [Disk.locate?, Disk.locate?, hstart, hfollow, henter]

/-- What stands at a path is the same but for its order. -/
theorem Reordered.find? (h : disk.Reordered other) (written : Text) :
    Option.Rel Node.Reordered (disk.find? written) (other.find? written) := by
  unfold Disk.find?
  rw [h.locate? written]
  cases other.locate? written with
  | none => exact .none
  | some location => exact h.root.get? location

end Disk

end NameBinding
