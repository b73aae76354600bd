import NameBinding.Proofs.Address
import NameBinding.Proofs.Classification
import NameBinding.Proofs.Soundness

/-!
Names that a module shares with a declaration. One declaration of the name goes before
the module as far as its members go; any other path below the name is read as if the
module alone had it.
-/

namespace NameBinding

theorem eq_singleton_iff_of_nodup {α : Type} {list : List α} {a : α} (h : list.Nodup) :
    list = [a] ↔ ∀ b, b ∈ list ↔ b = a := by
  constructor
  · rintro rfl b
    exact List.mem_singleton
  · intro hmem
    exact List.perm_singleton.mp
      ((List.perm_ext_iff_of_nodup h (List.nodup_singleton a)).mpr
        fun b => (hmem b).trans List.mem_singleton.symm)

/-- The locals that have another name. -/
def Locals.without (locals : Locals) (name : Text) : Locals :=
  { locals with symbols := locals.symbols.filter (·.name != name) }

namespace ImportTable

def addEntries (table : ImportTable) (entries : List ImportEntry) : ImportTable :=
  entries.foldl addEntry table

theorem bindings_addEntries (table : ImportTable) (entries : List ImportEntry) :
    (table.addEntries entries).bindings = table.bindings := by
  induction entries generalizing table with
  | nil => rfl
  | cons first rest ih => exact ih (table.addEntry first)

theorem entries_addEntries (table : ImportTable) (entries : List ImportEntry) :
    (table.addEntries entries).entries.toList = table.entries.toList ++ entries := by
  induction entries generalizing table with
  | nil => exact (List.append_nil _).symm
  | cons first rest ih =>
      have hstep := ih (table.addEntry first)
      unfold addEntries at hstep ⊢
      rw [List.foldl_cons, hstep]
      simp [addEntry]

theorem Reachable.addEntries {table : ImportTable} (h : table.Reachable)
    (entries : List ImportEntry) : (table.addEntries entries).Reachable := by
  induction entries generalizing table with
  | nil => exact h
  | cons first rest ih => exact ih (.addEntry first h)

/-- The table without the single imports of a name. All imports keep their entries. -/
def withoutSingle (table : ImportTable) (name : Text) : ImportTable :=
  (({} : ImportTable).addBindings (table.bindings.toList.filter fun binding =>
    binding.tier != .importedDeclaration || binding.name != name)).addEntries
      table.entries.toList

theorem reachable_withoutSingle (table : ImportTable) (name : Text) :
    (table.withoutSingle name).Reachable :=
  (Reachable.empty.addBindings _).addEntries _

theorem entries_withoutSingle (table : ImportTable) (name : Text) :
    (table.withoutSingle name).entries = table.entries := by
  apply Array.toList_inj.mp
  rw [withoutSingle, entries_addEntries, entries_addBindings]
  rfl

theorem mem_bindings_withoutSingle {table : ImportTable} {name : Text} {binding : Binding} :
    binding ∈ (table.withoutSingle name).bindings ↔
      binding ∈ table.bindings ∧
        (binding.tier = .importedDeclaration → binding.name ≠ name) := by
  rw [withoutSingle, bindings_addEntries, ← Array.mem_toList_iff, bindings_addBindings]
  simp [imp_iff_not_or]

theorem bindsBy_withoutSingle_iff {table : ImportTable} {tier : Tier} {name other : Text}
    {context : Context} {binding : Binding} :
    (table.withoutSingle name).BindsBy tier other context binding ↔
      table.BindsBy tier other context binding ∧
        (tier = .importedDeclaration → other ≠ name) := by
  constructor
  · intro h
    obtain ⟨hmem, hkept⟩ := mem_bindings_withoutSingle.mp h.mem
    obtain rfl := h.tier
    obtain rfl := h.name
    exact ⟨⟨hmem, rfl, rfl, h.fits⟩, hkept⟩
  · rintro ⟨⟨hmem, rfl, rfl, hfits⟩, hkept⟩
    exact ⟨mem_bindings_withoutSingle.mpr ⟨hmem, hkept⟩, rfl, rfl, hfits⟩

end ImportTable

namespace Resolver

/-- The resolver of a unit that neither declares nor imports singly anything of the name. -/
def without (resolver : Resolver) (name : Text) : Resolver :=
  { resolver with
    imports := resolver.imports.withoutSingle name
    locals := resolver.locals.without name }

/-- Under other names everything stays bound, and what comes with modules does under any
name. -/
theorem boundAt_without_iff {resolver : Resolver} {name other : Text} {context : Context}
    {tier : Tier} :
    (resolver.without name).BoundAt other context tier ↔
      resolver.BoundAt other context tier ∧ (tier ∈ declarationTiers → other ≠ name) := by
  cases tier with
  | localDeclaration =>
      simp only [BoundAt, without, Locals.without, List.mem_filter, bne_iff_ne]
      constructor
      · rintro ⟨symbol, ⟨hsymbol, hkept⟩, rfl, hfits⟩
        exact ⟨⟨symbol, hsymbol, rfl, hfits⟩, fun _ => hkept⟩
      · rintro ⟨⟨symbol, hsymbol, rfl, hfits⟩, hkept⟩
        exact ⟨symbol, ⟨hsymbol, hkept (by decide)⟩, rfl, hfits⟩
  | importedDeclaration =>
      simp [BoundAt, without, ImportTable.bindsBy_withoutSingle_iff, declarationTiers]
  | importedModule =>
      simp [BoundAt, without, ImportTable.bindsBy_withoutSingle_iff, declarationTiers]

theorem not_declares_without (resolver : Resolver) (name : Text) :
    ¬ (resolver.without name).Declares name := by
  rw [declares_iff]
  rintro ⟨tier, htier, hbound⟩
  exact (boundAt_without_iff.mp hbound).2 htier rfl

variable {resolver : Resolver}

/-- Qualifying does not look at declarations. -/
theorem throughModule?_without (resolver : Resolver) (head name : Text) (rest : List Text)
    (context : Context) :
    (resolver.without head).throughModule? head name rest context =
      resolver.throughModule? head name rest context := by
  have hoptions : (resolver.without head).options = resolver.options := rfl
  have hlookup : (resolver.without head).registry.lookup? head =
      resolver.registry.lookup? head := rfl
  refine throughModule?_congr hoptions hlookup ?_ name rest context
  intro _ module
  rw [ImportTable.importsModule, without, ImportTable.entries_withoutSingle]
  rfl

/-- A declaration that the name means: the one that the first tier with the name yields,
if locals and single imports are the tiers to look at. -/
structure Prefers (resolver : Resolver) (name : Text) (tier : Tier) (symbol : Located) :
    Prop where
  first : ∃ before after, declarationTiers = before ++ tier :: after ∧
    ∀ earlier ∈ before, ¬ resolver.BoundAt name .any earlier
  sole : ∀ other, resolver.Yields name .any other tier ↔ other = symbol

section Preferred

variable (hindexed : resolver.imports.Indexed)

include hindexed

theorem candidates_eq_singleton_iff {name : Text} {context : Context} {tier : Tier}
    {symbol : Located} :
    resolver.candidates name context tier = [symbol] ↔
      ∀ other, resolver.Yields name context other tier ↔ other = symbol := by
  have hnodup : (resolver.candidates name context tier).Nodup := by
    cases tier with
    | localDeclaration => exact (nodup_located resolver.locals).of_map.filter _
    | importedDeclaration | importedModule => exact nodup_eraseDups _
  simp only [eq_singleton_iff_of_nodup hnodup, mem_candidates_iff hindexed]

theorem search?_eq_prefers_iff {name : Text} {tier : Tier} {symbol : Located} :
    resolver.search? name .any declarationTiers = some ⟨tier, symbol, []⟩ ↔
      resolver.Prefers name tier symbol := by
  rw [search?_eq_some_iff hindexed, Match.candidates, candidates_eq_singleton_iff hindexed]
  constructor
  · rintro ⟨hsole, hfirst⟩
    exact ⟨hfirst, hsole⟩
  · intro h
    exact ⟨h.sole, h.first⟩

/-- A declaration supplies the member that the rest of the path picks. -/
theorem preferredMember?_eq_some_iff {head name : Text} {rest : List Text}
    {context : Context} {target : Located} {tier : Tier} :
    resolver.preferredMember? head name rest context = some (target, tier) ↔
      ∃ symbol, resolver.Prefers head tier symbol ∧
        Picks context symbol.members (name :: rest) target := by
  simp only [preferredMember?, Option.bind_eq_some_iff, Option.map_eq_some_iff,
    ← search?_eq_prefers_iff hindexed, ← Located.follow?_eq_some_iff]
  constructor
  · rintro ⟨⟨tier, symbol, others⟩, hsearch, target, hfollow, hpair⟩
    obtain ⟨rfl, rfl⟩ := Prod.mk.inj hpair
    cases others with
    | nil => exact ⟨symbol, hsearch, hfollow⟩
    | cons second more => cases hfollow
  · rintro ⟨symbol, hsearch, hfollow⟩
    exact ⟨_, hsearch, target, hfollow, rfl⟩

end Preferred

/-- Where a module and declarations share the head of a path, one declaration that the
head means goes first, with the member that the rest of the path picks. In every other
case the path means what it does without these declarations. -/
theorem resolve_collision (registry : Registry) (hreach : registry.Reachable)
    (table : ImportTable) (htable : table.Reachable) (locals : Locals) (options : Options)
    (reference : Reference) (hdotted : reference.isDotted = true)
    (hmodule : reference.head ∈ registry.names) :
    let resolver : Resolver := ⟨registry, table, locals, options⟩
    (∀ tier symbol target, resolver.Prefers reference.head tier symbol →
      Picks reference.context symbol.members reference.path.tail target →
        resolver.resolve reference = .found target (some tier)) ∧
    ((¬ ∃ tier symbol target, resolver.Prefers reference.head tier symbol ∧
        Picks reference.context symbol.members reference.path.tail target) →
      resolver.resolve reference = (resolver.without reference.head).resolve reference) := by
  obtain ⟨path, context, span⟩ := reference
  match path with
  | [] => cases hdotted
  | [_] => cases hdotted
  | head :: name :: rest =>
      intro resolver
      have hindexed : resolver.imports.Indexed := htable.indexed
      obtain ⟨scope, hscope⟩ : ∃ scope, registry.lookup? head = some scope :=
        hreach.sound.exists_lookup?_iff.mpr hmodule
      have hnonempty : head ≠ [] := (hreach.sound.lookup? hscope).1
      refine ⟨?_, ?_⟩
      · intro tier symbol target hprefers hpicks
        have hsupplied : resolver.preferredMember? head name rest context = some (target, tier) :=
          (preferredMember?_eq_some_iff hindexed).mpr ⟨symbol, hprefers, hpicks⟩
        rw [resolve_dotted hnonempty, dotted_eq, hsupplied]
      · intro hnothing
        have hpreferred : resolver.preferredMember? head name rest context = none := by
          apply Option.eq_none_iff_forall_ne_some.mpr
          rintro ⟨target, tier⟩ hsupplied
          obtain ⟨symbol, hprefers, hpicks⟩ :=
            (preferredMember?_eq_some_iff hindexed).mp hsupplied
          exact hnothing ⟨tier, symbol, target, hprefers, hpicks⟩
        have hwithout : (resolver.without head).preferredMember? head name rest context = none :=
          preferredMember?_of_not_declares (ImportTable.reachable_withoutSingle table head).indexed
            (not_declares_without resolver head) name rest context
        have hthrough : resolver.throughModule? head name rest context =
            some (resolver.qualified scope name rest context) := by
          rw [throughModule?, hscope]
          rfl
        -- Both resolvers leave the path to the module, and qualifying reads no declaration.
        show _ = (resolver.without head).resolve _
        rw [resolve_dotted hnonempty, resolve_dotted hnonempty, dotted_eq, dotted_eq, hpreferred,
          hwithout, throughModule?_without, hthrough]

/-- The case of a local type goes before the function of the module, and the leg that is
no case is the one of the module. -/
theorem resolve_collision_triathlon :
    let imports : List Import := [⟨"Triathlon", .everything, {}⟩]
    let table := (ImportTable.build .sports "Meet" {} imports).1
    let locals : Locals :=
      { unit := "Meet"
        symbols := [{ name := "Triathlon", kind := .enumType, members := [{ name := "swim" }] }] }
    let resolver : Resolver := ⟨.sports, table, locals, { requireImport := true }⟩
    let legs : Located :=
      ⟨.declared 0, { name := "Triathlon", kind := .enumType, members := [{ name := "swim" }] }⟩
    let swim : Located := ⟨.member (.declared 0) 0, { name := "swim" }⟩
    let leg (name : Text) : Reference := ⟨["Triathlon", name], .value, {}⟩
    Registry.sports.Reachable ∧ table.Reachable ∧
      (∀ name, (leg name).isDotted = true ∧ (leg name).head ∈ Registry.sports.names) ∧
      resolver.Prefers "Triathlon" .localDeclaration legs ∧
      Picks .value legs.members ["swim"] swim ∧
      resolver.resolve (leg "swim") = .found swim (some .localDeclaration) ∧
      (¬ ∃ tier symbol target, resolver.Prefers "Triathlon" tier symbol ∧
        Picks .value symbol.members ["run"] target) ∧
      resolver.resolve (leg "run") = (resolver.without "Triathlon").resolve (leg "run") ∧
      (resolver.resolve (leg "run")).map (·.symbol.describe) =
        .found "func Triathlon.run" none := by
  intro imports table locals resolver legs swim leg
  have htable : table.Reachable := ImportTable.after_reachable .sports "Meet" {} imports
  have hindexed : resolver.imports.Indexed := htable.indexed
  have hmodule : ("Triathlon" : Text) ∈ Registry.sports.names := by decide
  have hleg (name : Text) :
      (leg name).isDotted = true ∧ (leg name).head ∈ Registry.sports.names := ⟨rfl, hmodule⟩
  have hcollision (name : Text) :=
    resolve_collision .sports Registry.sports_reachable table htable locals
      { requireImport := true } (leg name) (hleg name).1 (hleg name).2
  have hprefers : resolver.Prefers "Triathlon" .localDeclaration legs :=
    (search?_eq_prefers_iff hindexed).mp (by decide)
  have hpicks : Picks .value legs.members ["swim"] swim :=
    .last ⟨[], [], rfl, rfl, rfl, by simp⟩
  have hnothing : ¬ ∃ tier symbol target, resolver.Prefers "Triathlon" tier symbol ∧
      Picks .value symbol.members ["run"] target := by
    rintro ⟨tier, symbol, target, hpreferred, hpicked⟩
    have hsupplied := (preferredMember?_eq_some_iff hindexed).mpr ⟨symbol, hpreferred, hpicked⟩
    have hnone : resolver.preferredMember? "Triathlon" "run" [] .value = none := by decide
    rw [hnone] at hsupplied
    cases hsupplied
  exact ⟨Registry.sports_reachable, htable, hleg, hprefers, hpicks,
    (hcollision "swim").1 _ _ _ hprefers hpicks, hnothing, (hcollision "run").2 hnothing,
    by decide +kernel⟩

end Resolver

end NameBinding
