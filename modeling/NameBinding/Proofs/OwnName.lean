import NameBinding.Proofs.Restriction

/-!
The unit's own name at the head of a path. Where no module is registered under the name, a
path goes on among the declarations of the unit. A declaration of the name hides them, and
so does a single import of it, even if the rest of the path is not to be found there.
-/

namespace NameBinding

/-- How a name is asked for that these names come after. -/
def Context.before (context : Context) (rest : List Text) : Context :=
  if rest.isEmpty then context else .any

/-- The names pick the target among the members; no names stay where they are. -/
def Located.Reaches (located : Located) (context : Context) (rest : List Text)
    (target : Located) : Prop :=
  rest = [] ∧ target = located ∨ Picks context located.members rest target

theorem Located.reaches_iff {located target : Located} {context : Context}
    {rest : List Text} :
    located.Reaches context rest target ↔ located.follow? context rest = some target := by
  cases rest with
  | nil =>
      constructor
      · rintro (⟨-, rfl⟩ | hpicks)
        · rfl
        · cases hpicks
      · intro h
        exact .inl ⟨rfl, (Option.some.inj h).symm⟩
  | cons name more => simp [Reaches, follow?_eq_some_iff]

namespace Locals

/-- What a path comes to among the declarations of a unit: nothing if none of them has the
first name, a choice if several have it, and else what the other names reach from it. -/
inductive Reads (locals : Locals) (name : Text) (rest : List Text) (context : Context) :
    Outcome Located → Prop where
  | missing :
      locals.named name (context.before rest) = [] →
        Reads locals name rest context (.failed .symbolNotFound)
  | several {first second : Located} {others : List Located} :
      locals.named name (context.before rest) = first :: second :: others →
        Reads locals name rest context
          (.failed (.ambiguous (some .localDeclaration) (first :: second :: others)))
  | reached {symbol target : Located} :
      locals.named name (context.before rest) = [symbol] →
        symbol.Reaches context rest target →
          Reads locals name rest context (.found target (some .localDeclaration))
  | unreached {symbol : Located} :
      locals.named name (context.before rest) = [symbol] →
        (∀ target, ¬ symbol.Reaches context rest target) →
          Reads locals name rest context (.failed .symbolNotFound)

variable {locals : Locals} {name : Text} {rest : List Text} {context : Context}

theorem reads_ambiguous_iff {tier : Tier} {candidates : List Located}
    (h : 2 ≤ candidates.length) :
    locals.Reads name rest context (.failed (.ambiguous (some tier) candidates)) ↔
      tier = .localDeclaration ∧ locals.named name (context.before rest) = candidates := by
  constructor
  · intro hreads
    cases hreads with
    | several hnamed => exact ⟨rfl, hnamed⟩
  · rintro ⟨rfl, hnamed⟩
    match candidates with
    | [] => cases h
    | [_] => simp at h
    | first :: second :: others => exact .several hnamed

/-- Two names mean the same locals, of which there are some, only if they are one. -/
theorem named_eq_iff {other : Text} (h : locals.named other .any ≠ []) :
    locals.named name context = locals.named other .any ↔
      name = other ∧
        ∀ located ∈ locals.named other .any, located.symbol.kind.fits context = true := by
  constructor
  · intro hsame
    have hanswers : ∀ located ∈ locals.named other .any,
        located.answers name context = true ∧ located.answers other .any = true := by
      intro located hlocated
      refine ⟨?_, (List.mem_filter.mp hlocated).2⟩
      rw [← hsame] at hlocated
      exact (List.mem_filter.mp hlocated).2
    simp only [Located.answers, Symbol.answers, Bool.and_eq_true, beq_iff_eq] at hanswers
    obtain ⟨first, hfirst⟩ := List.exists_mem_of_ne_nil _ h
    obtain ⟨⟨hname, -⟩, hother, -⟩ := hanswers first hfirst
    exact ⟨hname.symm.trans hother, fun located hlocated => (hanswers located hlocated).1.2⟩
  · rintro ⟨rfl, hfits⟩
    apply List.filter_congr
    intro located hlocated
    rw [Bool.eq_iff_iff]
    constructor
    · intro hanswers
      have hname : (located.symbol.name == name) = true := (Bool.and_eq_true_iff.mp hanswers).1
      simp [Located.answers, Symbol.answers, hname, Kind.fits]
    · intro hanswers
      have hname : (located.symbol.name == name) = true := (Bool.and_eq_true_iff.mp hanswers).1
      have hkind := hfits located (List.mem_filter.mpr ⟨hlocated, hanswers⟩)
      simp [Located.answers, Symbol.answers, hname, hkind]

end Locals

namespace Resolver

variable {resolver : Resolver}

theorem reads_iff_throughUnit {name : Text} {rest : List Text} {context : Context}
    {outcome : Outcome Located} :
    resolver.locals.Reads name rest context outcome ↔
      resolver.throughUnit name rest context = outcome := by
  have hnamed : resolver.locals.named name (if rest.isEmpty then context else .any) =
      resolver.locals.named name (context.before rest) := rfl
  unfold throughUnit
  rw [hnamed]
  constructor
  · intro h
    cases h with
    | missing h => rw [h]
    | several h => rw [h]
    | reached h htarget => simp only [h, Located.reaches_iff.mp htarget]
    | @unreached symbol h hnone =>
        have hfollow : symbol.follow? context rest = none :=
          Option.eq_none_iff_forall_ne_some.mpr fun target htarget =>
            hnone target (Located.reaches_iff.mpr htarget)
        simp only [h, hfollow]
  · rintro rfl
    match h : resolver.locals.named name (context.before rest) with
    | [] => exact .missing h
    | [symbol] =>
        dsimp only
        cases hfollow : symbol.follow? context rest with
        | some target => exact .reached h (Located.reaches_iff.mpr hfollow)
        | none =>
            refine .unreached h fun target htarget => ?_
            rw [Located.reaches_iff.mp htarget] at hfollow
            cases hfollow
    | first :: second :: others => exact .several h

theorem search?_of_named {name : Text} {context : Context} {first : Located}
    {others : List Located} (h : resolver.locals.named name context = first :: others)
    (tiers : List Tier) :
    resolver.search? name context (.localDeclaration :: tiers) =
      some ⟨.localDeclaration, first, others⟩ := by
  have hcandidates : resolver.candidates name context .localDeclaration = first :: others := h
  rw [search?_cons, hcandidates]

theorem resolve_of_hidden {head name : Text} {rest : List Text} {context : Context}
    {span : Span} (hhead : head ≠ []) (hmodule : resolver.registry.lookup? head = none)
    (hsupplied : resolver.preferredMember? head name rest context = none) {found : Match}
    (hsearch : resolver.search? head .any declarationTiers = some found) :
    resolver.resolve ⟨head :: name :: rest, context, span⟩ = .failed found.undecided := by
  have hfollow : found.follow? context (name :: rest) = none := by
    simpa [preferredMember?, hsearch] using hsupplied
  rw [resolve_dotted hhead, dotted_of_declared name rest context hmodule hsearch, Match.outcome,
    hfollow]

/-- The candidates of a name that leaves a choice are those of the tier where it is found. -/
theorem undecided_cases (hindexed : resolver.imports.Indexed) {head : Text} {found : Match}
    (hsearch : resolver.search? head .any declarationTiers = some found) :
    resolver.Prefers head found.tier found.first ∧ found.undecided = .unresolved ∨
      (¬ ∃ tier symbol, resolver.Prefers head tier symbol) ∧
        found.undecided = .ambiguous (some found.tier) found.candidates ∧
          2 ≤ found.candidates.length ∧
          ∀ candidate, candidate ∈ found.candidates ↔
            resolver.Yields head .any candidate found.tier := by
  obtain ⟨tier, first, others⟩ := found
  cases others with
  | nil => exact .inl ⟨(search?_eq_prefers_iff hindexed).mp hsearch, rfl⟩
  | cons second others =>
      refine .inr ⟨?_, rfl, by simp [Match.candidates], ?_⟩
      · rintro ⟨tier', symbol, hprefers⟩
        have hsole := (search?_eq_prefers_iff hindexed).mpr hprefers
        rw [hsearch] at hsole
        cases hsole
      · intro candidate
        rw [← (search?_eq_some hsearch).2, mem_candidates_iff hindexed]

/-- Among the unit's declarations a hidden path would end alike in one case only. -/
theorem reads_undecided_iff {name : Text} {rest : List Text} {context : Context}
    {found : Match}
    (hsearch : resolver.search? resolver.locals.unit .any declarationTiers = some found) :
    resolver.locals.Reads name rest context (.failed found.undecided) ↔
      2 ≤ (resolver.locals.named resolver.locals.unit .any).length ∧
        name = resolver.locals.unit ∧
          ∀ located ∈ resolver.locals.named resolver.locals.unit .any,
            located.symbol.kind.fits (context.before rest) = true := by
  have hcandidates := (search?_eq_some hsearch).2
  obtain ⟨tier, first, others⟩ := found
  constructor
  · intro hreads
    cases others with
    | nil => cases hreads
    | cons second others =>
        have hlength : 2 ≤ (first :: second :: others).length := by simp
        obtain ⟨rfl, hnamed⟩ := (Locals.reads_ambiguous_iff hlength).mp hreads
        have hunit : resolver.locals.named resolver.locals.unit .any =
            first :: second :: others := hcandidates
        have hsome : resolver.locals.named resolver.locals.unit .any ≠ [] := by
          rw [hunit]
          exact List.cons_ne_nil _ _
        refine ⟨by rw [hunit]; exact hlength, ?_⟩
        rw [← Locals.named_eq_iff hsome]
        exact hnamed.trans hunit.symm
  · rintro ⟨hlength, hsame⟩
    match hunit : resolver.locals.named resolver.locals.unit .any with
    | [] => simp [hunit] at hlength
    | [_] => simp [hunit] at hlength
    | first' :: second' :: others' =>
        have hlocal := search?_of_named hunit [.importedDeclaration]
        obtain ⟨rfl, rfl, rfl⟩ := Match.mk.inj (Option.some.inj (hsearch.symm.trans hlocal))
        have hsome : resolver.locals.named resolver.locals.unit .any ≠ [] := by
          rw [hunit]
          exact List.cons_ne_nil _ _
        exact .several (((Locals.named_eq_iff hsome).mpr hsame).trans hunit)

/-- Below the unit's own name, which no module has, a path that no declaration of the name
supplies is read among the unit's declarations if there is no declaration of the name. A
sole one leaves the path unresolved and several leave it ambiguous. This differs from
reading it among the declarations, unless the choice is between locals of the unit's name
that the path asks for a second time. -/
theorem resolve_own_name (registry : Registry) (hreach : registry.Reachable)
    (table : ImportTable) (htable : table.Reachable) (locals : Locals) (options : Options)
    (hunit : locals.unit ≠ []) (hmodule : locals.unit ∉ registry.names) (name : Text)
    (rest : List Text) (context : Context) (span : Span) :
    let resolver : Resolver := ⟨registry, table, locals, options⟩
    let outcome := resolver.resolve ⟨locals.unit :: name :: rest, context, span⟩
    (¬ ∃ tier symbol target, resolver.Prefers locals.unit tier symbol ∧
        Picks context symbol.members (name :: rest) target) →
      (¬ resolver.Declares locals.unit → locals.Reads name rest context outcome) ∧
      (∀ tier symbol, resolver.Prefers locals.unit tier symbol →
        outcome = .failed .unresolved) ∧
      (resolver.Declares locals.unit →
        (¬ ∃ tier symbol, resolver.Prefers locals.unit tier symbol) →
          ∃ tier candidates, outcome = .failed (.ambiguous (some tier) candidates) ∧
            2 ≤ candidates.length ∧
              ∀ candidate, candidate ∈ candidates ↔
                resolver.Yields locals.unit .any candidate tier) ∧
      (locals.Reads name rest context outcome ↔
        ¬ resolver.Declares locals.unit ∨
          2 ≤ (locals.named locals.unit .any).length ∧ name = locals.unit ∧
            ∀ located ∈ locals.named locals.unit .any,
              located.symbol.kind.fits (context.before rest) = true) := by
  intro resolver outcome hunsupplied
  have hindexed : resolver.imports.Indexed := htable.indexed
  have hunknown : resolver.registry.lookup? locals.unit = none :=
    hreach.sound.lookup?_eq_none_iff.mpr hmodule
  have hnothing : resolver.supplied? ⟨locals.unit :: name :: rest, context, span⟩ = none :=
    (supplied?_eq_none_iff hindexed rfl).mpr hunsupplied
  have hsupplied : resolver.preferredMember? locals.unit name rest context = none := hnothing
  cases hsearch : resolver.search? locals.unit .any declarationTiers with
  | none =>
      have hundeclared := (search?_declarationTiers_eq_none_iff hindexed).mp hsearch
      have houtcome : outcome = resolver.throughUnit name rest context :=
        (resolve_dotted hunit name rest context span).trans
          (dotted_own name rest context hunknown hunit rfl hsearch)
      have hreads : resolver.locals.Reads name rest context outcome :=
        reads_iff_throughUnit.mpr houtcome.symm
      refine ⟨fun _ => hreads, ?_, fun hdeclares => absurd hdeclares hundeclared,
        iff_of_true hreads (.inl hundeclared)⟩
      intro tier symbol hprefers
      rw [(search?_eq_prefers_iff hindexed).mpr hprefers] at hsearch
      cases hsearch
  | some found =>
      have hdeclares : resolver.Declares locals.unit := by
        by_contra hundeclared
        rw [(search?_declarationTiers_eq_none_iff hindexed).mpr hundeclared] at hsearch
        cases hsearch
      have houtcome : outcome = .failed found.undecided :=
        resolve_of_hidden hunit hunknown hsupplied hsearch
      refine ⟨fun hundeclared => absurd hdeclares hundeclared, ?_, ?_, ?_⟩
      · intro tier symbol hprefers
        rw [(search?_eq_prefers_iff hindexed).mpr hprefers] at hsearch
        cases hsearch
        exact houtcome
      · intro _ hseveral
        rcases undecided_cases hindexed hsearch with ⟨hsole, -⟩ | ⟨-, hambiguous, hcandidates⟩
        · exact absurd ⟨_, _, hsole⟩ hseveral
        · exact ⟨found.tier, found.candidates, by rw [houtcome, hambiguous], hcandidates⟩
      · rw [houtcome, or_iff_right (not_not_intro hdeclares)]
        exact reads_undecided_iff hsearch

/-- The lap is found below the name of the meet, and so it is not any more once an enum has
this name too. Two declarations that are both asked for by `Meet.Meet` are a choice in
either reading. -/
theorem resolve_own_name_meet :
    let lap : Symbol := { name := "lap" }
    let rounds : Symbol := { name := "Meet", kind := .enumType, members := [{ name := "heat" }] }
    let start : Symbol := { name := "Meet" }
    let resolver (symbols : List Symbol) : Resolver := ⟨.sports, {}, ⟨"Meet", symbols⟩, {}⟩
    let outcome (symbols : List Symbol) (name : Text) : Outcome Located :=
      (resolver symbols).resolve ⟨["Meet", name], .any, {}⟩
    let Unsupplied (symbols : List Symbol) (name : Text) : Prop :=
      ¬ ∃ tier symbol target, (resolver symbols).Prefers "Meet" tier symbol ∧
        Picks .any symbol.members [name] target
    Registry.sports.Reachable ∧ ImportTable.Reachable {} ∧ ("Meet" : Text) ≠ [] ∧
      ("Meet" : Text) ∉ Registry.sports.names ∧
      Unsupplied [lap] "lap" ∧ Unsupplied [rounds, lap] "lap" ∧
      Unsupplied [rounds, start] "Meet" ∧
      (Locals.mk "Meet" [lap]).Reads "lap" [] .any (outcome [lap] "lap") ∧
      outcome [rounds, lap] "lap" = .failed .unresolved ∧
      ¬ (Locals.mk "Meet" [rounds, lap]).Reads "lap" [] .any (outcome [rounds, lap] "lap") ∧
      (Locals.mk "Meet" [rounds, start]).Reads "Meet" [] .any
        (outcome [rounds, start] "Meet") := by
  intro lap rounds start resolver outcome Unsupplied
  have hmeet : ("Meet" : Text) ≠ [] := by decide
  have hunknown : ("Meet" : Text) ∉ Registry.sports.names := by decide
  have hindexed (symbols : List Symbol) : (resolver symbols).imports.Indexed :=
    ImportTable.Reachable.empty.indexed
  have hunsupplied (symbols : List Symbol) (name : Text)
      (h : (resolver symbols).supplied? ⟨["Meet", name], .any, {}⟩ = none) :
      Unsupplied symbols name :=
    (supplied?_eq_none_iff (hindexed symbols) rfl).mp h
  have hread (symbols : List Symbol) (name : Text) (h : Unsupplied symbols name) :=
    resolve_own_name .sports Registry.sports_reachable {} .empty ⟨"Meet", symbols⟩ {}
      hmeet hunknown name [] .any {} h
  have hlap : Unsupplied [lap] "lap" := hunsupplied _ _ (by decide)
  have hhidden : Unsupplied [rounds, lap] "lap" := hunsupplied _ _ (by decide)
  have hchoice : Unsupplied [rounds, start] "Meet" := hunsupplied _ _ (by decide)
  obtain ⟨hvisible, -⟩ := hread [lap] "lap" hlap
  obtain ⟨-, hsole, -, hdiffers⟩ := hread [rounds, lap] "lap" hhidden
  obtain ⟨-, -, -, halike⟩ := hread [rounds, start] "Meet" hchoice
  have hprefers : (resolver [rounds, lap]).Prefers "Meet" .localDeclaration
      ⟨.declared 0, rounds⟩ :=
    (search?_eq_prefers_iff (hindexed _)).mp (by decide)
  refine ⟨Registry.sports_reachable, .empty, hmeet, hunknown, hlap, hhidden, hchoice,
    hvisible (by decide), hsole _ _ hprefers, ?_, halike.mpr (.inr (by decide))⟩
  intro hreads
  rcases hdiffers.mp hreads with hundeclared | ⟨hseveral, -⟩
  · exact hundeclared (by decide)
  · exact absurd hseveral (by decide)

/-- An enum that has no lap hides the one that the unit declares. -/
theorem own_lap_hidden :
    let locals := Locals.ofList "Meet" [{ name := "Meet", kind := .enumType }, { name := "lap" }]
    let resolver : Resolver := ⟨.sports, {}, locals, {}⟩
    let outcome := resolver.resolve ⟨["Meet", "lap"], .any, {}⟩
    let lap : Located := ⟨.declared 1, { name := "lap", owner := "Meet" }⟩
    Registry.sports.Reachable ∧ ImportTable.Reachable {} ∧ locals.unit ≠ [] ∧
      locals.unit ∉ Registry.sports.names ∧
      (¬ ∃ tier symbol target, resolver.Prefers locals.unit tier symbol ∧
        Picks .any symbol.members ["lap"] target) ∧
      locals.Reads "lap" [] .any (.found lap (some .localDeclaration)) ∧
      outcome = .failed .unresolved ∧ ¬ locals.Reads "lap" [] .any outcome := by
  intro locals resolver outcome lap
  have hindexed : resolver.imports.Indexed := ImportTable.Reachable.empty.indexed
  have houtcome : outcome = .failed .unresolved := by decide
  have hnothing : resolver.supplied? ⟨["Meet", "lap"], .any, {}⟩ = none := by decide
  refine ⟨Registry.sports_reachable, .empty, by decide, by decide,
    (supplied?_eq_none_iff hindexed rfl).mp hnothing, .reached (by decide) (.inl ⟨rfl, rfl⟩),
    houtcome, ?_⟩
  rw [houtcome]
  intro hreads
  cases hreads

end Resolver

end NameBinding
