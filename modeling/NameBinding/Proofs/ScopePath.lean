import NameBinding.Proofs.Distinct
import NameBinding.Proofs.DottedPath
import NameBinding.Proofs.Exposure
import NameBinding.Proofs.Naming

/-!
Paths of names through a registry. A path leads to one scope at most, and where no name
has a dot the owner of a symbol spells the path to its scope; so the owner tells which
scope a symbol stands in.
-/

namespace NameBinding

section Lists

variable {α β : Type}

theorem position_eq_of_key {key : α → β} {list : List α} (h : (list.map key).Nodup)
    {left right : Nat} {a b : α} (hleft : list[left]? = some a)
    (hright : list[right]? = some b) (hkey : key a = key b) : left = right := by
  have hbound : left < (list.map key).length := by
    rw [List.length_map]
    exact (List.getElem?_eq_some_iff.mp hleft).1
  apply (List.getElem?_inj hbound h).mp
  simp [hleft, hright, hkey]

theorem findSome?_eq_of_mem {f : α → Option β} {list : List α} {a : α} (ha : a ∈ list)
    (h : ∀ b ∈ list, f b = none ∨ f b = f a) : list.findSome? f = f a := by
  cases hfound : list.findSome? f with
  | none => exact (List.findSome?_eq_none_iff.mp hfound a ha).symm
  | some value =>
      obtain ⟨b, hb, hvalue⟩ := List.exists_of_findSome?_eq_some hfound
      rcases h b hb with hnone | hsame
      · rw [hnone] at hvalue
        cases hvalue
      · rw [← hsame, hvalue]

theorem append_cons_inj [BEq α] [LawfulBEq α] {a : α} {left right rest rest' : List α}
    (hleft : a ∉ left) (hright : a ∉ right) (h : left ++ a :: rest = right ++ a :: rest') :
    left = right ∧ rest = rest' := by
  have hcut {front back : List α} (hfront : a ∉ front) :
      (front ++ a :: back).takeWhile (· != a) = front := by
    rw [List.takeWhile_append_of_pos]
    · simp
    · intro b hb
      simpa using ne_of_mem_of_not_mem hb hfront
  obtain rfl : left = right := by rw [← hcut hleft, h, hcut hright]
  exact ⟨rfl, (List.cons.inj (List.append_cancel_left h)).2⟩

theorem find?_eraseDups [BEq α] [LawfulBEq α] (p : α → Bool) (list : List α) :
    list.eraseDups.find? p = list.find? p := by
  have hhead (list : List α) : list.eraseDups.head? = list.head? := by
    cases list <;> simp [List.eraseDups_cons]
  rw [← List.head?_filter, ← eraseDups_filter, hhead, List.head?_filter]

end Lists

namespace Symbol

/-- Symbols of one name that have owners are told apart by their descriptions. -/
theorem eq_of_describe {left right : Symbol} (hleft : left.owner ≠ [])
    (hright : right.owner ≠ []) (hname : left.name = right.name)
    (h : left.describe = right.describe) :
    left.kind = right.kind ∧ left.owner = right.owner := by
  -- No keyword has a blank, so the first blank of a description ends the kind.
  have hblank : (" " : Text) = [32] := by decide
  have hkeyword (kind : Kind) : 32 ∉ kind.keyword := by cases kind <;> decide
  simp only [describe, List.isEmpty_iff, hleft, hright, if_false, hname, hblank,
    List.append_assoc, List.singleton_append] at h
  obtain ⟨hkind, howner⟩ := append_cons_inj (hkeyword left.kind) (hkeyword right.kind) h
  constructor
  · apply Option.some.inj
    rw [← Kind.ofKeyword?_keyword left.kind, hkind, Kind.ofKeyword?_keyword]
  · exact List.append_cancel_right (List.append_cancel_right howner)

end Symbol

namespace Scope

/-- No scope from this one down has a dot in its name. -/
def Plain (scope : Scope) : Prop :=
  ∀ path inner, scope.Leads path inner → Text.dot ∉ inner.module.name

theorem plain_iff {scope : Scope} :
    scope.Plain ↔
      ∀ inner ∈ nestedIn scope.place scope.module, Text.dot ∉ inner.module.name := by
  constructor
  · intro h inner hinner
    obtain ⟨path, hpath⟩ := mem_nestedIn_iff.mp hinner
    exact h path inner hpath
  · intro h path inner hpath
    exact h inner (mem_nestedIn_iff.mpr ⟨path, hpath⟩)

theorem Plain.inner {outer inner : Scope} (h : outer.Plain) {path : List Text}
    (hinner : outer.Leads path inner) : inner.Plain := by
  intro below deeper hdeeper
  exact h _ deeper (hinner.trans hdeeper)

theorem leads_of_mem {outer inner : Scope} (h : inner ∈ outer.submodules) :
    outer.Leads [inner.module.name] inner :=
  .down h (.here inner)

theorem Plain.path {outer inner : Scope} {path : List Text} (h : outer.Plain)
    (hinner : outer.Leads path inner) : ∀ name ∈ path, Text.dot ∉ name := by
  induction hinner with
  | here => simp
  | down hstep _ ih =>
      have hchild := leads_of_mem hstep
      exact List.forall_mem_cons.mpr ⟨h _ _ hchild, ih (h.inner hchild)⟩

theorem leads_cons_iff {outer target : Scope} {name : Text} {path : List Text} :
    outer.Leads (name :: path) target ↔
      ∃ inner ∈ outer.submodules, inner.module.name = name ∧ inner.Leads path target := by
  constructor
  · intro h
    generalize hfull : name :: path = full at h
    cases h with
    | here => cases hfull
    | @down _ inner _ _ hstep hbelow =>
        obtain ⟨rfl, rfl⟩ := List.cons.inj hfull
        exact ⟨inner, hstep, rfl, hbelow⟩
  · rintro ⟨inner, hstep, rfl, hbelow⟩
    exact .down hstep hbelow

theorem eq_of_name {outer left right : Scope} (h : outer.module.WellNamed)
    (hleft : left ∈ outer.submodules) (hright : right ∈ outer.submodules)
    (hname : left.module.name = right.module.name) : left = right := by
  obtain ⟨index, hindex, hplace⟩ := mem_submodules hleft
  obtain ⟨index', hindex', hplace'⟩ := mem_submodules hright
  obtain rfl := position_eq_of_key h.submodules hindex hindex' hname
  obtain ⟨place, module⟩ := left
  obtain ⟨place', module'⟩ := right
  obtain rfl : module = module' := Option.some.inj (hindex.symm.trans hindex')
  rw [Scope.mk.injEq]
  exact ⟨hplace.trans hplace'.symm, rfl⟩

/-- A path of names leads to one scope at most. -/
theorem Leads.unique {outer left right : Scope} {path : List Text} (h : outer.WellNamed)
    (hleft : outer.Leads path left) (hright : outer.Leads path right) : left = right := by
  induction hleft with
  | here =>
      cases hright
      rfl
  | @down outer inner target path hstep _ ih =>
      obtain ⟨other, hother, hname, hbelow⟩ := leads_cons_iff.mp hright
      obtain rfl := eq_of_name (h _ _ (.here outer)) hother hstep hname
      exact ih (h.inner (leads_of_mem hstep)) hbelow

theorem eq_of_key {scope : Scope} (h : scope.module.WellNamed) {left right : Located}
    (hleft : left ∈ scope.symbols) (hright : right ∈ scope.symbols)
    (hkind : left.symbol.kind = right.symbol.kind)
    (hname : left.symbol.name = right.symbol.name) : left = right := by
  obtain ⟨index, hindex, hplace⟩ := mem_symbols hleft
  obtain ⟨index', hindex', hplace'⟩ := mem_symbols hright
  obtain rfl := position_eq_of_key h.symbols hindex hindex' (Prod.ext hkind hname)
  obtain ⟨place, symbol⟩ := left
  obtain ⟨place', symbol'⟩ := right
  obtain rfl : symbol = symbol' := Option.some.inj (hindex.symm.trans hindex')
  rw [Located.mk.injEq]
  exact ⟨hplace.trans hplace'.symm, rfl⟩

theorem child?_of_mem {outer inner : Scope} (h : outer.module.WellNamed)
    (hinner : inner ∈ outer.submodules) : outer.child? inner.module.name = some inner := by
  cases hfound : outer.child? inner.module.name with
  | none => simpa using List.find?_eq_none.mp hfound inner hinner
  | some other =>
      have hname : other.module.name = inner.module.name := by
        simpa using List.find?_some hfound
      rw [eq_of_name h (List.mem_of_find?_eq_some hfound) hinner hname]

theorem findSubmodule?_of_mem {outer inner : Scope} (h : outer.module.WellNamed)
    (hinner : inner ∈ outer.submodules) (hplain : Text.dot ∉ inner.module.name) :
    outer.findSubmodule? inner.module.name = some inner := by
  rw [findSubmodule?_of_plain hplain, child?_of_mem h hinner]

/-- A scope's own symbols come before whatever else comes with it. -/
theorem search?_of_find? {scope : Scope} {name : Text} {context : Context}
    {located : Located} (h : scope.find? name context = some located) (reexport : Bool) :
    scope.search? reexport name context = some located := by
  have hexposed : ∃ below, scope.exposed reexport = scope.symbols ++ below := by
    obtain ⟨place, _, symbols, submodules, _⟩ := scope
    exact ⟨_, rfl⟩
  obtain ⟨below, hbelow⟩ := hexposed
  unfold find? at h
  rw [search?_eq_find?, hbelow, List.find?_append, h]
  rfl

end Scope

namespace Registry

/-- No name of a module or of a submodule has a dot, as no identifier has. -/
def PlainNames (registry : Registry) : Prop :=
  ∀ module ∈ registry.modules, (Scope.ofModule module).Plain

theorem plainNames_iff {registry : Registry} :
    registry.PlainNames ↔
      ∀ module ∈ registry.modules.toList,
        ∀ inner ∈ Scope.nestedIn (.root module.name) module, Text.dot ∉ inner.module.name := by
  simp only [PlainNames, Scope.plain_iff, Scope.ofModule, Array.mem_toList_iff]

instance (registry : Registry) : Decidable registry.PlainNames :=
  decidable_of_iff _ plainNames_iff.symm

/-- The path leads to the scope: its first part names a registered module and the other
parts are the names on the way down. -/
def Leads (registry : Registry) : (path : List Text) → Scope → Prop
  | [], _ => False
  | head :: path, scope => ∃ root, registry.lookup? head = some root ∧ root.Leads path scope

theorem mem_of_lookup? {registry : Registry} {name : Text} {scope : Scope}
    (h : registry.lookup? name = some scope) :
    ∃ module ∈ registry.modules, Scope.ofModule module = scope := by
  unfold lookup? at h
  simp only [Option.bind_eq_bind, Option.pure_def, Option.bind_eq_some_iff,
    Option.some.injEq] at h
  obtain ⟨position, -, module, hmodule, hscope⟩ := h
  exact ⟨module, Array.mem_of_getElem? hmodule, hscope⟩

variable {registry : Registry} (hreach : registry.Reachable)

include hreach

theorem Reachable.wellNamed {name : Text} {scope : Scope}
    (h : registry.lookup? name = some scope) : scope.WellNamed := by
  obtain ⟨module, hmodule, rfl⟩ := mem_of_lookup? h
  exact Scope.wellNamed_of_fault? (hreach.faultless module hmodule)

theorem Leads.wellNamed {path : List Text} {scope : Scope} (h : registry.Leads path scope) :
    scope.WellNamed := by
  cases path with
  | nil => exact h.elim
  | cons head path =>
      obtain ⟨root, hroot, hscope⟩ := h
      exact (Reachable.wellNamed hreach hroot).inner hscope

theorem Leads.unique {path : List Text} {left right : Scope}
    (hleft : registry.Leads path left) (hright : registry.Leads path right) :
    left = right := by
  cases path with
  | nil => exact hleft.elim
  | cons head path =>
      obtain ⟨root, hroot, hleft⟩ := hleft
      obtain ⟨root', hroot', hright⟩ := hright
      obtain rfl : root = root' := Option.some.inj (hroot.symm.trans hroot')
      exact hleft.unique (Reachable.wellNamed hreach hroot) hright

/-- The owner of a symbol spells the path to its scope. -/
theorem Leads.owner {path : List Text} {scope : Scope} (h : registry.Leads path scope)
    {located : Located} (hlocated : located ∈ scope.symbols) :
    located.symbol.owner = Text.dotted path := by
  cases path with
  | nil => exact h.elim
  | cons head path =>
      obtain ⟨root, hroot, hscope⟩ := h
      have hholds : root.Holds path located := ⟨scope, hscope, located, hlocated, .here _⟩
      exact hholds.owner (hreach.sound.lookup? hroot).2.2.2

theorem Leads.owner_ne_nil {path : List Text} {scope : Scope}
    (h : registry.Leads path scope) {located : Located} (hlocated : located ∈ scope.symbols) :
    located.symbol.owner ≠ [] := by
  rw [h.owner hreach hlocated]
  cases path with
  | nil => exact h.elim
  | cons head path =>
      obtain ⟨root, hroot, -⟩ := h
      obtain ⟨byte, bytes, rfl⟩ := List.exists_cons_of_ne_nil (hreach.sound.lookup? hroot).1
      cases path <;> simp [Text.dotted, List.intercalate]

variable (hplain : registry.PlainNames)

include hplain

theorem Leads.plain {path : List Text} {scope : Scope} (h : registry.Leads path scope) :
    path ≠ [] ∧ ∀ name ∈ path, Text.dot ∉ name := by
  cases path with
  | nil => exact h.elim
  | cons head path =>
      obtain ⟨root, hroot, hscope⟩ := h
      obtain ⟨module, hmodule, rfl⟩ := mem_of_lookup? hroot
      have hname : (Scope.ofModule module).module.name = head :=
        (hreach.sound.lookup? hroot).2.2.1
      have hscopes := hplain module hmodule
      refine ⟨by simp, List.forall_mem_cons.mpr ⟨?_, hscopes.path hscope⟩⟩
      rw [← hname]
      exact hscopes _ _ (.here _)

/-- Symbols of one owner stand in one scope. -/
theorem Leads.eq_of_owner {path path' : List Text} {scope scope' : Scope}
    (h : registry.Leads path scope) (h' : registry.Leads path' scope') {left right : Located}
    (hleft : left ∈ scope.symbols) (hright : right ∈ scope'.symbols)
    (howner : left.symbol.owner = right.symbol.owner) : scope = scope' := by
  obtain ⟨hnonempty, hnames⟩ := h.plain hreach hplain
  obtain ⟨hnonempty', hnames'⟩ := h'.plain hreach hplain
  rw [h.owner hreach hleft, h'.owner hreach hright] at howner
  obtain rfl := Text.dotted_inj hnonempty hnonempty' hnames hnames' howner
  exact h.unique hreach h'

end Registry

end NameBinding
