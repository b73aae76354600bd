import NameBinding.Proofs.Contribution
import Mathlib.Data.List.MinMax

/-!
What the tiers have under a name, for any table that bindings are added to. Imports give
every single-declaration binding an order of its own; bindings that are added otherwise
may share one, and then the last of them need not be a single symbol.
-/

namespace NameBinding

section Latest

theorem le_foldl_max {orders : List Nat} {start order : Nat} (h : order ∈ start :: orders) :
    order ≤ orders.foldl max start := by
  induction orders generalizing start order with
  | nil => exact Nat.le_of_eq (List.mem_singleton.mp h)
  | cons first rest ih =>
      rw [List.foldl_cons]
      have hstart : max start first ≤ rest.foldl max (max start first) := ih List.mem_cons_self
      rcases List.mem_cons.mp h with rfl | hlater
      · exact (Nat.le_max_left _ _).trans hstart
      · rcases List.mem_cons.mp hlater with rfl | hrest
        · exact (Nat.le_max_right _ _).trans hstart
        · exact ih (List.mem_cons_of_mem _ hrest)

/-- The bindings of the greatest order are those that none comes after. -/
theorem Binding.mem_latest_iff {bindings : List Binding} {binding : Binding} :
    binding ∈ bindings.filter (·.order == (bindings.map (·.order)).foldl max 0) ↔
      binding ∈ bindings ∧ ∀ other ∈ bindings, other.order ≤ binding.order := by
  rw [List.mem_filter, beq_iff_eq, and_congr_right_iff]
  intro hbinding
  have hbelow : ∀ other ∈ bindings, other.order ≤ (bindings.map (·.order)).foldl max 0 :=
    fun other hother => le_foldl_max (List.mem_cons_of_mem _ (List.mem_map_of_mem hother))
  constructor
  · intro horder other hother
    rw [horder]
    exact hbelow other hother
  · intro hlast
    apply Nat.le_antisymm (hbelow binding hbinding)
    apply Binding.foldl_max_le (Nat.zero_le _)
    intro order horder
    obtain ⟨other, hother, rfl⟩ := List.mem_map.mp horder
    exact hlast other hother

theorem Binding.exists_latest {bindings : List Binding} {binding : Binding}
    (h : binding ∈ bindings) :
    ∃ latest ∈ bindings, ∀ other ∈ bindings, other.order ≤ latest.order := by
  obtain ⟨latest, hlatest⟩ : ∃ latest, bindings.argmax Binding.order = some latest :=
    Option.ne_none_iff_exists'.mp fun hnone =>
      List.ne_nil_of_mem h (List.argmax_eq_none.mp hnone)
  exact ⟨latest, List.argmax_mem hlatest, fun other hother =>
    List.le_of_mem_argmax hother hlatest⟩

end Latest

namespace ImportTable

/-- The binding gives the name, at the tier, to a symbol that fits the context. -/
structure BindsBy (table : ImportTable) (tier : Tier) (name : Text) (context : Context)
    (binding : Binding) : Prop where
  mem : binding ∈ table.bindings
  tier : binding.tier = tier
  name : binding.name = name
  fits : binding.symbol.symbol.kind.fits context = true

theorem mem_fitting_iff {table : ImportTable} (h : table.Indexed) {tier : Tier} {name : Text}
    {context : Context} {binding : Binding} :
    binding ∈ (table.bindingsNamed name tier).filter (·.symbol.symbol.kind.fits context) ↔
      table.BindsBy tier name context binding := by
  rw [bindingsNamed_eq_filter h]
  simp only [List.mem_filter, Array.mem_toList_iff, Bool.and_eq_true, beq_iff_eq]
  constructor
  · rintro ⟨⟨hmem, htier, hname⟩, hfits⟩
    exact ⟨hmem, htier, hname, hfits⟩
  · rintro ⟨hmem, htier, hname, hfits⟩
    exact ⟨⟨hmem, htier, hname⟩, hfits⟩

end ImportTable

namespace Resolver

/-- The tier has something of the name that fits the context: the unit declares it, or a
binding gives the name to it. -/
def BoundAt (resolver : Resolver) (name : Text) (context : Context) : Tier → Prop
  | .localDeclaration =>
    ∃ symbol ∈ resolver.locals.symbols, symbol.name = name ∧ symbol.kind.fits context = true
  | .importedDeclaration => ∃ binding, resolver.imports.BindsBy .importedDeclaration name context binding
  | .importedModule => ∃ binding, resolver.imports.BindsBy .importedModule name context binding

/-- The tier yields the symbol for the name: a local of the name, what is imported singly
and by none after it, or any symbol that comes with a module. -/
def Yields (resolver : Resolver) (name : Text) (context : Context) (symbol : Located) :
    Tier → Prop
  | .localDeclaration =>
    symbol ∈ resolver.locals.located ∧
      symbol.symbol.name = name ∧ symbol.symbol.kind.fits context = true
  | .importedDeclaration =>
    ∃ latest, resolver.imports.BindsBy .importedDeclaration name context latest ∧
      (∀ other, resolver.imports.BindsBy .importedDeclaration name context other →
        other.order ≤ latest.order) ∧ latest.symbol = symbol
  | .importedModule =>
    ∃ binding, resolver.imports.BindsBy .importedModule name context binding ∧
      binding.symbol = symbol

variable {resolver : Resolver}

theorem boundAt_any {name : Text} {context : Context} {tier : Tier}
    (h : resolver.BoundAt name context tier) : resolver.BoundAt name .any tier := by
  cases tier with
  | localDeclaration =>
      obtain ⟨symbol, hsymbol, hname, -⟩ := h
      exact ⟨symbol, hsymbol, hname, rfl⟩
  | importedDeclaration | importedModule =>
      obtain ⟨binding, hbinding⟩ := h
      exact ⟨binding, hbinding.mem, hbinding.tier, hbinding.name, rfl⟩

variable (h : resolver.imports.Indexed)

include h

theorem mem_candidates_iff {name : Text} {context : Context} {tier : Tier}
    {symbol : Located} :
    symbol ∈ resolver.candidates name context tier ↔
      resolver.Yields name context symbol tier := by
  cases tier with
  | localDeclaration =>
      simp only [candidates, Locals.named, Yields, List.mem_filter, Located.answers,
        Symbol.answers, Bool.and_eq_true, beq_iff_eq]
  | importedDeclaration =>
      simp only [candidates, importedDeclarations, Yields, List.mem_eraseDups, List.mem_map,
        Binding.mem_latest_iff, ImportTable.mem_fitting_iff h, and_assoc]
  | importedModule =>
      simp only [candidates, importedModuleSymbols, Yields, List.mem_eraseDups, List.mem_map,
        ImportTable.mem_fitting_iff h]

/-- Whatever is bound at a tier, the tier yields a symbol. -/
theorem exists_yields_iff {name : Text} {context : Context} {tier : Tier} :
    (∃ symbol, resolver.Yields name context symbol tier) ↔
      resolver.BoundAt name context tier := by
  cases tier with
  | localDeclaration =>
      constructor
      · rintro ⟨symbol, hlocated, hname, hfits⟩
        obtain ⟨index, hindex, rfl⟩ := List.mem_mapIdx.mp hlocated
        exact ⟨_, List.getElem_mem hindex, hname, hfits⟩
      · rintro ⟨symbol, hsymbol, hname, hfits⟩
        obtain ⟨index, hindex, rfl⟩ := List.getElem_of_mem hsymbol
        exact ⟨⟨.declared index, _⟩, List.mem_mapIdx.mpr ⟨index, hindex, rfl⟩, hname, hfits⟩
  | importedDeclaration =>
      constructor
      · rintro ⟨_, latest, hlatest, -⟩
        exact ⟨latest, hlatest⟩
      · rintro ⟨binding, hbinding⟩
        obtain ⟨latest, hlatest, hlast⟩ :=
          Binding.exists_latest ((ImportTable.mem_fitting_iff h).mpr hbinding)
        refine ⟨latest.symbol, latest, (ImportTable.mem_fitting_iff h).mp hlatest, ?_, rfl⟩
        intro other hother
        exact hlast other ((ImportTable.mem_fitting_iff h).mpr hother)
  | importedModule =>
      constructor
      · rintro ⟨_, binding, hbinding, -⟩
        exact ⟨binding, hbinding⟩
      · rintro ⟨binding, hbinding⟩
        exact ⟨_, binding, hbinding, rfl⟩

/-- A tier has no candidates exactly if nothing is bound at it. -/
theorem candidates_eq_nil_iff {name : Text} {context : Context} {tier : Tier} :
    resolver.candidates name context tier = [] ↔ ¬ resolver.BoundAt name context tier := by
  simp only [List.eq_nil_iff_forall_not_mem, mem_candidates_iff h, ← exists_yields_iff h,
    not_exists]

/-- A search fails exactly if the name is bound at none of the tiers. -/
theorem search?_eq_none_iff {name : Text} {context : Context} {tiers : List Tier} :
    resolver.search? name context tiers = none ↔
      ∀ tier ∈ tiers, ¬ resolver.BoundAt name context tier := by
  simp only [search?, List.findSome?_eq_none_iff, ← candidates_eq_nil_iff h]
  apply forall₂_congr
  intro tier _
  cases resolver.candidates name context tier <;> simp

/-- A search stops at the first of the tiers at which the name is bound. -/
theorem search?_eq_some_iff {name : Text} {context : Context} {tiers : List Tier}
    {found : Match} :
    resolver.search? name context tiers = some found ↔
      resolver.candidates name context found.tier = found.candidates ∧
        ∃ before after, tiers = before ++ found.tier :: after ∧
          ∀ earlier ∈ before, ¬ resolver.BoundAt name context earlier := by
  rw [search?, List.findSome?_eq_some_iff]
  simp only [← candidates_eq_nil_iff h]
  constructor
  · rintro ⟨before, tier, after, hsplit, hfound, hbefore⟩
    cases hcandidates : resolver.candidates name context tier with
    | nil => simp [hcandidates] at hfound
    | cons first others =>
        obtain rfl : (⟨tier, first, others⟩ : Match) = found := by
          simpa [hcandidates] using hfound
        refine ⟨hcandidates, before, after, hsplit, ?_⟩
        intro earlier hearlier
        have hnothing := hbefore earlier hearlier
        cases hempty : resolver.candidates name context earlier with
        | nil => rfl
        | cons _ _ => simp [hempty] at hnothing
  · obtain ⟨tier, first, others⟩ := found
    rintro ⟨hcandidates, before, after, hsplit, hbefore⟩
    refine ⟨before, tier, after, hsplit, ?_, ?_⟩
    · dsimp only at hcandidates
      rw [hcandidates]
      rfl
    · intro earlier hearlier
      rw [hbefore earlier hearlier]

end Resolver

end NameBinding
