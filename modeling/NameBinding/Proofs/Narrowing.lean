import NameBinding.Proofs.Distinct
import NameBinding.Proofs.Shown

/-!
Asking for less. A use in a narrower context means what it meant in any context, as long
as that fits; it fails where the wider use failed; and where the wider use was ambiguous,
the candidates that fit are left, in their order.
-/

namespace NameBinding

/-- What the candidates of one tier come to. -/
def Outcome.ofCandidates (tier : Option Tier) : List Located → Outcome Located
  | [] => .failed .unresolved
  | [symbol] => .found symbol tier
  | first :: second :: others => .failed (.ambiguous tier (first :: second :: others))

theorem Match.outcome_nil (found : Match) (context : Context) :
    found.outcome context [] = .ofCandidates (some found.tier) found.candidates := by
  obtain ⟨tier, first, others⟩ := found
  cases others <;> rfl

/-- What was found is kept where it fits, and so is a failure that is no ambiguity. -/
structure Outcome.Narrows (context : Context) (wide narrow : Outcome Located) : Prop where
  found (symbol : Located) (tier : Option Tier) : wide = .found symbol tier →
    symbol.symbol.kind.fits context = true → narrow = wide
  failed (failure : Failure Located) : wide = .failed failure →
    failure.status ≠ .ambiguous → narrow = wide

namespace Outcome.Narrows

variable {context : Context}

theorem refl (outcome : Outcome Located) : Outcome.Narrows context outcome outcome :=
  ⟨fun _ _ _ _ => rfl, fun _ _ _ => rfl⟩

theorem of_found {symbol : Located} {tier : Option Tier} {narrow : Outcome Located}
    (h : symbol.symbol.kind.fits context = true → narrow = .found symbol tier) :
    Outcome.Narrows context (.found symbol tier) narrow where
  found := by
    intro symbol' tier' hfound hfits
    obtain ⟨rfl, rfl⟩ := Outcome.found.inj hfound
    exact h hfits
  failed := nofun

theorem of_ambiguous (tier : Option Tier) (candidates : List Located)
    (narrow : Outcome Located) :
    Outcome.Narrows context (.failed (.ambiguous tier candidates)) narrow where
  found := nofun
  failed := by
    intro failure hfailed hother
    obtain rfl := Outcome.failed.inj hfailed
    exact absurd rfl hother

end Outcome.Narrows

namespace Located

/-- A context asks for no more than that the kind fits. -/
theorem answers_eq (located : Located) (name : Text) (context : Context) :
    located.answers name context =
      (located.answers name .any && located.symbol.kind.fits context) := by
  simp [answers, Symbol.answers, Kind.fits]

theorem filter_answers (symbols : List Located) (name : Text) (context : Context) :
    symbols.filter (·.answers name context) =
      (symbols.filter (·.answers name .any)).filter (·.symbol.kind.fits context) := by
  rw [List.filter_filter]
  apply List.filter_congr
  intro located _
  rw [answers_eq, Bool.and_comm]

variable {symbols : List Located} {located target : Located} {name : Text} {context : Context}
  {path : List Text}

/-- The first symbol of the name is the first one that fits, if it fits. -/
theorem find?_narrowed (h : symbols.find? (·.answers name .any) = some located)
    (hfits : located.symbol.kind.fits context = true) :
    symbols.find? (·.answers name context) = some located := by
  rw [← List.head?_filter] at h ⊢
  obtain ⟨rest, hrest⟩ := List.head?_eq_some_iff.mp h
  rw [filter_answers, hrest, List.filter_cons, if_pos hfits]
  rfl

theorem find?_narrowed_none (h : symbols.find? (·.answers name .any) = none) :
    symbols.find? (·.answers name context) = none := by
  rw [← List.head?_filter, List.head?_eq_none_iff] at h ⊢
  rw [filter_answers, h]
  rfl

/-- Only the last step of a path asks for the context. -/
theorem follow?_narrowed (h : located.follow? .any path = some target)
    (hfits : target.symbol.kind.fits context = true) :
    located.follow? context path = some target := by
  induction path generalizing located with
  | nil => exact h
  | cons name rest ih =>
      cases rest with
      | nil => exact find?_narrowed h hfits
      | cons next others =>
          obtain ⟨member, hmember, hrest⟩ := Option.bind_eq_some_iff.mp h
          exact Option.bind_eq_some_iff.mpr ⟨member, hmember, ih hrest⟩

theorem follow?_narrowed_none (h : located.follow? .any path = none) :
    located.follow? context path = none := by
  induction path generalizing located with
  | nil => cases h
  | cons name rest ih =>
      cases rest with
      | nil => exact find?_narrowed_none h
      | cons next others =>
          rw [follow?, Option.bind_eq_none_iff] at h ⊢
          · intro member hmember
            exact ih (h member hmember)
          · simp
          · simp

end Located

namespace Outcome.Narrows

variable {context : Context}

/-- A path that is followed below a symbol, with a failure that does not ask for the
context. -/
theorem followed (symbol : Located) (path : List Text) (tier : Option Tier)
    (failure : Failure Located) :
    Outcome.Narrows context
      (match symbol.follow? .any path with
        | some target => .found target tier
        | none => .failed failure)
      (match symbol.follow? context path with
        | some target => .found target tier
        | none => .failed failure) := by
  cases hwide : symbol.follow? .any path with
  | none =>
      rw [Located.follow?_narrowed_none hwide]
      exact .refl _
  | some target =>
      apply of_found
      intro hfits
      rw [Located.follow?_narrowed hwide hfits]

theorem outcome (found : Match) (path : List Text) :
    Outcome.Narrows context (found.outcome .any path) (found.outcome context path) := by
  obtain ⟨tier, first, others⟩ := found
  cases others with
  | nil => exact followed first path (some tier) .unresolved
  | cons second more => exact .refl _

end Outcome.Narrows

/-- If a binding of the greatest order is kept, the greatest order of those kept is the
same. -/
theorem Binding.latest_filter {bindings : List Binding} {p : Binding → Bool}
    {binding : Binding} (hbinding : binding ∈ bindings) (hkept : p binding = true)
    (hlatest : binding.order = (bindings.map (·.order)).foldl max 0) :
    ((bindings.filter p).map (·.order)).foldl max 0 =
      (bindings.map (·.order)).foldl max 0 := by
  apply Nat.le_antisymm
  · apply foldl_max_le (Nat.zero_le _)
    intro order horder
    obtain ⟨other, hother, rfl⟩ := List.mem_map.mp horder
    exact le_foldl_max (List.mem_cons_of_mem _
      (List.mem_map_of_mem (List.mem_of_mem_filter hother)))
  · rw [← hlatest]
    exact le_foldl_max (List.mem_cons_of_mem _
      (List.mem_map_of_mem (List.mem_filter.mpr ⟨hbinding, hkept⟩)))

namespace Resolver

variable (resolver : Resolver) (name : Text) (context : Context)

/-- A narrower context leaves the bindings of symbols that fit. -/
theorem fitting_narrowed (tier : Tier) :
    (resolver.imports.bindingsNamed name tier).filter (·.symbol.symbol.kind.fits context) =
      ((resolver.imports.bindingsNamed name tier).filter
        (·.symbol.symbol.kind.fits .any)).filter (·.symbol.symbol.kind.fits context) := by
  rw [List.filter_filter]
  apply List.filter_congr
  intro binding _
  simp [Kind.fits]

theorem eraseDups_symbols_filter (bindings : List Binding) :
    ((bindings.filter (·.symbol.symbol.kind.fits context)).map (·.symbol)).eraseDups =
      ((bindings.map (·.symbol)).eraseDups).filter (·.symbol.kind.fits context) := by
  rw [← eraseDups_filter, List.filter_map]
  rfl

theorem importedModuleSymbols_narrowed :
    resolver.importedModuleSymbols name context =
      (resolver.importedModuleSymbols name .any).filter (·.symbol.kind.fits context) := by
  unfold importedModuleSymbols
  rw [fitting_narrowed]
  exact eraseDups_symbols_filter context _

/-- Whatever is imported singly under a name, the last of it is a candidate. -/
theorem fitting_eq_nil_of_importedDeclarations
    (h : resolver.importedDeclarations name context = []) :
    (resolver.imports.bindingsNamed name .importedDeclaration).filter
      (·.symbol.symbol.kind.fits context) = [] := by
  rw [List.eq_nil_iff_forall_not_mem]
  intro binding hbinding
  obtain ⟨latest, hlatest, hlast⟩ := Binding.exists_latest hbinding
  have hcandidate : latest.symbol ∈ resolver.importedDeclarations name context :=
    List.mem_eraseDups.mpr (List.mem_map_of_mem (Binding.mem_latest_iff.mpr ⟨hlatest, hlast⟩))
  rw [h] at hcandidate
  cases hcandidate

/-- A tier without candidates has none in a narrower context. -/
theorem candidates_narrowed_nil {tier : Tier} (h : resolver.candidates name .any tier = []) :
    resolver.candidates name context tier = [] := by
  cases tier with
  | localDeclaration =>
      have hnone : resolver.locals.located.filter (·.answers name .any) = [] := h
      show resolver.locals.located.filter (·.answers name context) = []
      rw [Located.filter_answers, hnone]
      rfl
  | importedModule =>
      have hnone : resolver.importedModuleSymbols name .any = [] := h
      show resolver.importedModuleSymbols name context = []
      rw [importedModuleSymbols_narrowed, hnone]
      rfl
  | importedDeclaration =>
      have hnone := fitting_eq_nil_of_importedDeclarations resolver name .any h
      show resolver.importedDeclarations name context = []
      unfold importedDeclarations
      rw [fitting_narrowed, hnone]
      rfl

/-- A tier that has a candidate that fits keeps those that fit, in their order. The last
of the single imports is still the last, as one of its symbols fits. -/
theorem candidates_narrowed {tier : Tier}
    (h : ∃ symbol ∈ resolver.candidates name .any tier,
      symbol.symbol.kind.fits context = true) :
    resolver.candidates name context tier =
      (resolver.candidates name .any tier).filter (·.symbol.kind.fits context) := by
  cases tier with
  | localDeclaration => exact Located.filter_answers _ name context
  | importedModule => exact importedModuleSymbols_narrowed resolver name context
  | importedDeclaration =>
      unfold candidates importedDeclarations at h ⊢
      rw [fitting_narrowed]
      generalize (resolver.imports.bindingsNamed name .importedDeclaration).filter
        (·.symbol.symbol.kind.fits .any) = bindings at h ⊢
      obtain ⟨symbol, hsymbol, hfits⟩ := h
      obtain ⟨binding, hbinding, rfl⟩ := List.mem_map.mp (List.mem_eraseDups.mp hsymbol)
      obtain ⟨hmember, hlatest⟩ := List.mem_filter.mp hbinding
      dsimp only
      rw [Binding.latest_filter hmember hfits (beq_iff_eq.mp hlatest), List.filter_comm,
        eraseDups_symbols_filter]

/-- A name that is found nowhere is not found in a narrower context. -/
theorem search?_narrowed_none {tiers : List Tier}
    (h : resolver.search? name .any tiers = none) :
    resolver.search? name context tiers = none := by
  induction tiers with
  | nil => rfl
  | cons tier rest ih =>
      rw [search?_cons] at h ⊢
      cases hwide : resolver.candidates name .any tier with
      | cons first others =>
          rw [hwide] at h
          cases h
      | nil =>
          rw [hwide] at h
          rw [candidates_narrowed_nil resolver name context hwide]
          exact ih h

/-- The tier that is found stays the first if one of its candidates fits, and those that
fit are left. -/
theorem search?_narrowed {tiers : List Tier} {found : Match}
    (h : resolver.search? name .any tiers = some found)
    (hfits : ∃ symbol ∈ found.candidates, symbol.symbol.kind.fits context = true) :
    ∃ narrowed : Match, resolver.search? name context tiers = some narrowed ∧
      narrowed.tier = found.tier ∧
      narrowed.candidates = found.candidates.filter (·.symbol.kind.fits context) := by
  induction tiers with
  | nil => cases h
  | cons tier rest ih =>
      rw [search?_cons] at h ⊢
      cases hwide : resolver.candidates name .any tier with
      | nil =>
          rw [hwide] at h
          rw [candidates_narrowed_nil resolver name context hwide]
          exact ih h
      | cons first others =>
          rw [hwide] at h
          obtain rfl := Option.some.inj h
          have hexists : ∃ symbol ∈ resolver.candidates name .any tier,
              symbol.symbol.kind.fits context = true := by
            rw [hwide]
            exact hfits
          have hkept := candidates_narrowed resolver name context hexists
          obtain ⟨symbol, hsymbol, hsymbolFits⟩ := hexists
          have hsome : (resolver.candidates name .any tier).filter
              (·.symbol.kind.fits context) ≠ [] :=
            List.ne_nil_of_mem (List.mem_filter.mpr ⟨hsymbol, hsymbolFits⟩)
          obtain ⟨head, tail, hcons⟩ := List.exists_cons_of_ne_nil hsome
          rw [hkept, hcons]
          rw [hwide] at hcons
          exact ⟨⟨tier, head, tail⟩, rfl, rfl, hcons.symm⟩

/-- Of an ambiguous name the candidates that fit are left. -/
theorem unqualified_narrowed {found : Match}
    (h : resolver.search? name .any allTiers = some found)
    (hfits : ∃ symbol ∈ found.candidates, symbol.symbol.kind.fits context = true) :
    resolver.unqualified name context =
      .ofCandidates (some found.tier)
        (found.candidates.filter (·.symbol.kind.fits context)) := by
  obtain ⟨narrowed, hnarrowed, htier, hcandidates⟩ :=
    search?_narrowed resolver name context h hfits
  rw [unqualified_eq, hnarrowed, ← htier, ← hcandidates]
  exact narrowed.outcome_nil context

theorem unqualified_narrows :
    Outcome.Narrows context (resolver.unqualified name .any)
      (resolver.unqualified name context) := by
  cases hwide : resolver.search? name .any allTiers with
  | none =>
      have hnarrow := search?_narrowed_none resolver name context hwide
      rw [unqualified_eq, unqualified_eq, hwide, hnarrow]
      exact .refl _
  | some found =>
      have houtcome : resolver.unqualified name .any =
          .ofCandidates (some found.tier) found.candidates := by
        rw [unqualified_eq, hwide]
        exact found.outcome_nil .any
      have hkept := unqualified_narrowed resolver name context hwide
      rw [houtcome]
      obtain ⟨tier, first, others⟩ := found
      cases others with
      | cons second more => exact .of_ambiguous _ _ _
      | nil =>
          apply Outcome.Narrows.of_found
          intro hfits
          rw [hkept ⟨first, List.mem_singleton_self first, hfits⟩, Match.candidates,
            List.filter_cons, if_pos hfits]
          rfl

/-- Qualifying goes down alike and, unless it has arrived, looks for a symbol of any
kind. -/
theorem qualified_narrows (scope : Scope) (rest : List Text) :
    Outcome.Narrows context (resolver.qualified scope name rest .any)
      (resolver.qualified scope name rest context) := by
  unfold qualified
  split
  · exact .refl _
  · generalize descend scope name rest = reached
    obtain ⟨inner, last, members⟩ := reached
    dsimp only
    cases members with
    | cons next others =>
        simp only [List.isEmpty_cons, Bool.false_eq_true, if_false]
        cases inner.search? resolver.options.reexport last .any with
        | none => exact .refl _
        | some symbol => exact .followed symbol (next :: others) none .symbolNotFound
    | nil =>
        simp only [Scope.search?_eq_find?, List.isEmpty_nil, if_true]
        cases hwide : (inner.exposed resolver.options.reexport).find? (·.answers last .any) with
        | none =>
            rw [Located.find?_narrowed_none hwide]
            exact .refl _
        | some symbol =>
            apply Outcome.Narrows.of_found
            intro hfits
            rw [Located.find?_narrowed hwide hfits]
            rfl

theorem throughUnit_narrows (rest : List Text) :
    Outcome.Narrows context (resolver.throughUnit name rest .any)
      (resolver.throughUnit name rest context) := by
  unfold throughUnit
  cases rest with
  | cons next others =>
      simp only [List.isEmpty_cons, Bool.false_eq_true, if_false]
      rcases resolver.locals.named name .any with _ | ⟨symbol, _ | _⟩
      · exact .refl _
      · exact .followed symbol (next :: others) (some .localDeclaration) .symbolNotFound
      · exact .refl _
  | nil =>
      have hnamed : resolver.locals.named name context =
          (resolver.locals.named name .any).filter (·.symbol.kind.fits context) :=
        Located.filter_answers _ name context
      simp only [List.isEmpty_nil, if_true, hnamed]
      rcases resolver.locals.named name .any with _ | ⟨symbol, _ | _⟩
      · exact .refl _
      · apply Outcome.Narrows.of_found
        intro hfits
        rw [List.filter_cons, if_pos hfits]
        rfl
      · exact .of_ambiguous _ _ _

theorem unregistered_narrows (head : Text) (rest : List Text) :
    Outcome.Narrows context (resolver.unregistered head name rest .any)
      (resolver.unregistered head name rest context) := by
  unfold unregistered
  split
  · exact throughUnit_narrows resolver name context rest
  · cases resolver.search? head .any allTiers with
    | none => exact .refl _
    | some found => exact .outcome found (name :: rest)

theorem preferredMember?_narrowed {head : Text} {rest : List Text} {target : Located}
    {tier : Tier} (h : resolver.preferredMember? head name rest .any = some (target, tier))
    (hfits : target.symbol.kind.fits context = true) :
    resolver.preferredMember? head name rest context = some (target, tier) := by
  obtain ⟨found, hsearch, hmember⟩ := Option.bind_eq_some_iff.mp h
  obtain ⟨target', hfollow, hpair⟩ := Option.map_eq_some_iff.mp hmember
  obtain ⟨rfl, rfl⟩ := Prod.mk.inj hpair
  refine Option.bind_eq_some_iff.mpr ⟨found, hsearch, ?_⟩
  obtain ⟨tier, first, others⟩ := found
  cases others with
  | nil => exact Option.map_eq_some_iff.mpr ⟨_, Located.follow?_narrowed hfollow hfits, rfl⟩
  | cons second more => cases hfollow

theorem preferredMember?_narrowed_none {head : Text} {rest : List Text}
    (h : resolver.preferredMember? head name rest .any = none) :
    resolver.preferredMember? head name rest context = none := by
  rw [preferredMember?, Option.bind_eq_none_iff] at h ⊢
  intro found hsearch
  have hfollow := Option.map_eq_none_iff.mp (h found hsearch)
  rw [Option.map_eq_none_iff]
  obtain ⟨tier, first, others⟩ := found
  cases others with
  | nil => exact Located.follow?_narrowed_none hfollow
  | cons second more => rfl

theorem dotted_narrows (head : Text) (rest : List Text) :
    Outcome.Narrows context (resolver.dotted head name rest .any)
      (resolver.dotted head name rest context) := by
  rw [dotted_eq, dotted_eq]
  cases hwide : resolver.preferredMember? head name rest .any with
  | some member =>
      obtain ⟨target, tier⟩ := member
      apply Outcome.Narrows.of_found
      intro hfits
      rw [preferredMember?_narrowed resolver name context hwide hfits]
  | none =>
      rw [preferredMember?_narrowed_none resolver name context hwide]
      unfold throughModule?
      cases resolver.registry.lookup? head with
      | some scope => exact qualified_narrows resolver name context scope rest
      | none =>
          cases resolver.search? head .any declarationTiers with
          | some found => exact .refl _
          | none => exact unregistered_narrows resolver name context head rest

theorem resolve_narrows (path : List Text) (span : Span) :
    Outcome.Narrows context (resolver.resolve ⟨path, .any, span⟩)
      (resolver.resolve ⟨path, context, span⟩) := by
  match path with
  | [] | [] :: _ => exact .refl _
  | [byte :: bytes] =>
      have hname : byte :: bytes ≠ [] := List.cons_ne_nil byte bytes
      rw [resolve_singleton hname, resolve_singleton hname]
      exact unqualified_narrows resolver _ context
  | (byte :: bytes) :: name :: rest =>
      have hhead : byte :: bytes ≠ [] := List.cons_ne_nil byte bytes
      rw [resolve_dotted hhead, resolve_dotted hhead]
      exact dotted_narrows resolver name context _ rest

theorem search?_of_ambiguous {tier : Option Tier} {candidates : List Located}
    (h : resolver.unqualified name context = .failed (.ambiguous tier candidates)) :
    ∃ found : Match, resolver.search? name context allTiers = some found ∧
      tier = some found.tier ∧ candidates = found.candidates := by
  rw [unqualified_eq] at h
  cases hsearch : resolver.search? name context allTiers with
  | none =>
      rw [hsearch] at h
      cases h
  | some found =>
      rw [hsearch] at h
      obtain ⟨found, first, others⟩ := found
      cases others with
      | nil => cases h
      | cons second more =>
          obtain ⟨rfl, rfl⟩ := Failure.ambiguous.inj (Outcome.failed.inj h)
          exact ⟨_, rfl, rfl, rfl⟩

theorem resolve_narrowed_of_ambiguous {span : Span} {tier : Option Tier}
    {candidates : List Located}
    (h : resolver.resolve ⟨[name], .any, span⟩ = .failed (.ambiguous tier candidates))
    (hfits : ∃ candidate ∈ candidates, candidate.symbol.kind.fits context = true) :
    resolver.resolve ⟨[name], context, span⟩ =
      .ofCandidates tier (candidates.filter (·.symbol.kind.fits context)) := by
  cases name with
  | nil => cases h
  | cons byte bytes =>
      have hname : byte :: bytes ≠ [] := List.cons_ne_nil byte bytes
      rw [resolve_singleton hname] at h ⊢
      obtain ⟨found, hsearch, rfl, rfl⟩ := search?_of_ambiguous resolver _ .any h
      exact unqualified_narrowed resolver _ context hsearch hfits

/-- In a narrower context a path means what it meant in any, if that fits; it fails as it
failed, unless it was ambiguous; and an ambiguous name means those of its candidates that
fit, at the same tier and in the same order. -/
theorem resolve_narrowed (resolver : Resolver) (path : List Text) (span : Span)
    (context : Context) :
    let wide := resolver.resolve ⟨path, .any, span⟩
    let narrow := resolver.resolve ⟨path, context, span⟩
    (∀ symbol tier, wide = .found symbol tier → symbol.symbol.kind.fits context = true →
      narrow = wide) ∧
    (∀ failure, wide = .failed failure → failure.status ≠ .ambiguous → narrow = wide) ∧
    (∀ tier candidates, path.length = 1 → wide = .failed (.ambiguous tier candidates) →
      (∃ candidate ∈ candidates, candidate.symbol.kind.fits context = true) →
        narrow = .ofCandidates tier (candidates.filter (·.symbol.kind.fits context))) := by
  intro wide narrow
  have hnarrows := resolve_narrows resolver context path span
  refine ⟨hnarrows.found, hnarrows.failed, ?_⟩
  intro tier candidates hlength hwide hfits
  obtain ⟨name, rfl⟩ := List.length_eq_one_iff.mp hlength
  exact resolve_narrowed_of_ambiguous resolver name context hwide hfits

/-- Three symbols are bound to one name by bindings of one order. As a value the name
stays ambiguous between the functions, and as a type it means the baton. -/
theorem resolve_swim_narrowed :
    let first : Located :=
      ⟨.exported (.root "Triathlon") 0, { name := "swim", owner := "Triathlon" }⟩
    let baton : Located :=
      ⟨.exported (.inside (.root "Triathlon") 0) 0,
        { name := "Baton", kind := .enumType, owner := "Triathlon.Relay" }⟩
    let second : Located :=
      ⟨.exported (.root "Pentathlon") 0, { name := "swim", owner := "Pentathlon" }⟩
    let table := ({} : ImportTable).addBindings
      [⟨"swim", first, .importedDeclaration, 3⟩, ⟨"swim", baton, .importedDeclaration, 3⟩,
        ⟨"swim", second, .importedDeclaration, 3⟩]
    let resolver : Resolver := ⟨.sports, table, {}, {}⟩
    let swim (context : Context) := resolver.resolve ⟨["swim"], context, {}⟩
    let pass (context : Context) :=
      resolver.resolve ⟨["Triathlon", "Relay", "Baton", "pass"], context, {}⟩
    let row (context : Context) := resolver.resolve ⟨["Triathlon", "row"], context, {}⟩
    swim .any = .failed (.ambiguous (some .importedDeclaration) [first, baton, second]) ∧
      swim .value = .failed (.ambiguous (some .importedDeclaration) [first, second]) ∧
      swim .type = .found baton (some .importedDeclaration) ∧
      (pass .any).map (·.symbol.describe) = .found "func Triathlon.Relay.pass" none ∧
      pass .value = pass .any ∧
      row .any = .failed .symbolNotFound ∧ row .type = row .any := by
  intro first baton second table resolver swim pass row
  have hnarrowed (path : List Text) (context : Context) :=
    resolve_narrowed resolver path {} context
  let target : Located :=
    ⟨.member (.exported (.inside (.root "Triathlon") 0) 0) 0,
      { name := "pass", owner := "Triathlon.Relay" }⟩
  have hswim : swim .any =
      .failed (.ambiguous (some .importedDeclaration) [first, baton, second]) := by decide
  have hpass : pass .any = .found target none := by decide
  have hrow : row .any = .failed .symbolNotFound := by decide
  refine ⟨hswim, ?_, ?_, by decide, (hnarrowed _ .value).1 target none hpass rfl, hrow,
    (hnarrowed _ .type).2.1 .symbolNotFound hrow (by decide)⟩
  · exact (hnarrowed ["swim"] .value).2.2 _ _ rfl hswim ⟨first, by decide, rfl⟩
  · exact (hnarrowed ["swim"] .type).2.2 _ _ rfl hswim ⟨baton, by decide, rfl⟩

end Resolver

end NameBinding
