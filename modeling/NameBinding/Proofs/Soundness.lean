import NameBinding.Proofs.Precedence
import Mathlib.Data.List.Nodup

/-!
Every outcome of resolving a reference is well founded. A symbol that is found
answers to the last part of the path and stands where its tier says; an
ambiguity has a tier and several candidates at different places; no other
failure carries a symbol, a tier or a candidate.
-/

namespace NameBinding

namespace Located

/-- What a path leads to through members answers to its last part. -/
theorem answers_of_follow? {located target : Located} {context : Context} {name : Text}
    {rest : List Text} (h : located.follow? context (name :: rest) = some target) :
    ∃ last, (name :: rest).getLast? = some last ∧ target.answers last context = true := by
  induction rest generalizing located name with
  | nil =>
      have hfound : located.members.find? (·.answers name context) = some target := h
      exact ⟨name, rfl, by simpa using List.find?_some hfound⟩
  | cons next others ih =>
      obtain ⟨member, -, hrest⟩ := Option.bind_eq_some_iff.mp h
      obtain ⟨last, hlast, hanswers⟩ := ih hrest
      exact ⟨last, by rw [List.getLast?_cons_cons, hlast], hanswers⟩

/-- The same where the start is all there is of the path but its name. -/
theorem answers_of_reached {located target : Located} {context : Context} {name : Text}
    {rest : List Text}
    (hstart : located.answers name (if rest.isEmpty then context else .any) = true)
    (h : located.follow? context rest = some target) :
    ∃ last, (name :: rest).getLast? = some last ∧ target.answers last context = true := by
  cases rest with
  | nil =>
      obtain rfl : located = target := Option.some.inj h
      exact ⟨name, rfl, hstart⟩
  | cons next others =>
      obtain ⟨last, hlast, hanswers⟩ := answers_of_follow? h
      exact ⟨last, by rw [List.getLast?_cons_cons, hlast], hanswers⟩

end Located

namespace Resolver

/-- Where the symbols of a tier are declared: among the locals, in a module that
a resolved import names, or in a scope inside such a module. -/
def DeclaredAt (resolver : Resolver) (root : Located) : Tier → Prop
  | .localDeclaration => root ∈ resolver.locals.located
  | .importedDeclaration =>
    ∃ entry ∈ resolver.imports.entries, entry.status = .resolved ∧
      ∃ scope, resolver.registry.lookup? entry.module = some scope ∧ root ∈ scope.symbols
  | .importedModule =>
    ∃ entry ∈ resolver.imports.entries, entry.status = .resolved ∧
      ∃ scope, resolver.registry.lookup? entry.module = some scope ∧
        ∃ path inner, scope.Leads path inner ∧ root ∈ inner.symbols

/-- Where a found symbol stands: below a declaration of its tier or, if it has
none, in the registered module that the head of a dotted path names. Its owner
is then that module or one of the submodules inside it. -/
def StandsAt (resolver : Resolver) (reference : Reference) (target : Located) :
    Option Tier → Prop
  | some tier => ∃ root, resolver.DeclaredAt root tier ∧ root.Leads target
  | none =>
    reference.isDotted = true ∧
      ∃ scope path, resolver.registry.lookup? reference.head = some scope ∧
        scope.Holds path target ∧
        target.symbol.owner = Text.dotted (reference.head :: path)

/-- Which part of a path a candidate answers to: the head or, if that is the
unit's own name, the part after it. The context counts for the last part only. -/
def AnswersTo (resolver : Resolver) (reference : Reference) (tier : Tier)
    (candidate : Located) : Prop :=
  candidate.answers reference.head
      (if reference.isDotted then .any else reference.context) = true ∨
    ∃ name rest, reference.path = resolver.locals.unit :: name :: rest ∧
      tier = .localDeclaration ∧ resolver.locals.unit ≠ [] ∧
      candidate.answers name (if rest.isEmpty then reference.context else .any) = true

/-- What holds of every outcome of a reference. -/
structure SoundOutcome (resolver : Resolver) (reference : Reference)
    (outcome : Outcome Located) : Prop where
  found : outcome.status = .resolved →
    ∃ target, outcome.symbol? = some target ∧ outcome.candidates = [] ∧
      reference.path.getLast? = some target.symbol.name ∧
      target.symbol.kind.fits reference.context = true ∧
      resolver.StandsAt reference target outcome.tier?
  ambiguous : outcome.status = .ambiguous →
    outcome.symbol? = none ∧
      ∃ tier, outcome.tier? = some tier ∧ 2 ≤ outcome.candidates.length ∧
        (outcome.candidates.map (·.place)).Nodup ∧
        ∀ candidate ∈ outcome.candidates,
          resolver.DeclaredAt candidate tier ∧
            resolver.AnswersTo reference tier candidate
  failed : outcome.status ≠ .resolved → outcome.status ≠ .ambiguous →
    outcome.symbol? = none ∧ outcome.tier? = none ∧ outcome.candidates = []

variable {resolver : Resolver} {reference : Reference}

theorem sound_found {target : Located} {tier : Option Tier} {last : Text}
    (hlast : reference.path.getLast? = some last)
    (hanswers : target.answers last reference.context = true)
    (hstands : resolver.StandsAt reference target tier) :
    resolver.SoundOutcome reference (.found target tier) := by
  have hparts : target.symbol.name = last ∧
      target.symbol.kind.fits reference.context = true := by
    simpa [Located.answers, Symbol.answers] using hanswers
  constructor
  · intro _
    refine ⟨target, rfl, rfl, ?_, hparts.2, hstands⟩
    rw [hlast, hparts.1]
  · intro hstatus
    cases hstatus
  · intro hstatus
    exact absurd rfl hstatus

theorem sound_ambiguous {tier : Tier} {first second : Located} {others : List Located}
    (hplaces : ((first :: second :: others).map (·.place)).Nodup)
    (hcandidates : ∀ candidate ∈ first :: second :: others,
      resolver.DeclaredAt candidate tier ∧ resolver.AnswersTo reference tier candidate) :
    resolver.SoundOutcome reference
      (.failed (.ambiguous (some tier) (first :: second :: others))) := by
  constructor
  · intro hstatus
    cases hstatus
  · intro _
    exact ⟨rfl, tier, rfl, by simp [Outcome.candidates], hplaces, hcandidates⟩
  · intro _ hstatus
    exact absurd rfl hstatus

/-- Every failure but an ambiguity has nothing to be sound about. -/
theorem sound_failed {failure : Failure Located} (h : failure.status ≠ .ambiguous) :
    resolver.SoundOutcome reference (.failed failure) := by
  cases failure with
  | ambiguous tier candidates => exact absurd rfl h
  | _ =>
      constructor
      · intro hstatus
        cases hstatus
      · intro hstatus
        cases hstatus
      · intro _ _
        exact ⟨rfl, rfl, rfl⟩

theorem nodup_located (locals : Locals) : (locals.located.map (·.place)).Nodup := by
  have hplaces : locals.located.map (·.place) =
      (List.range locals.symbols.length).map Place.declared := by
    apply List.ext_getElem <;> simp [Locals.located]
  rw [hplaces]
  apply List.Nodup.map _ List.nodup_range
  intro left right h
  cases h
  rfl

theorem search?_eq_some {name : Text} {context : Context} {tiers : List Tier}
    {found : Match} (h : resolver.search? name context tiers = some found) :
    found.tier ∈ tiers ∧
      resolver.candidates name context found.tier = found.candidates := by
  obtain ⟨tier, htier, hfound⟩ := List.exists_of_findSome?_eq_some h
  cases hcandidates : resolver.candidates name context tier with
  | nil => simp [hcandidates] at hfound
  | cons first others =>
      obtain rfl : (⟨tier, first, others⟩ : Match) = found := by
        simpa [hcandidates] using hfound
      exact ⟨htier, hcandidates⟩

/-- Going down leads to a scope, and what is left is an end of the path. -/
theorem descend_leads (scope : Scope) (name : Text) (rest : List Text) :
    (∃ path, scope.Leads path (descend scope name rest).1) ∧
      (descend scope name rest).2.1 :: (descend scope name rest).2.2 <:+ name :: rest := by
  induction rest generalizing scope name with
  | nil => exact ⟨⟨[], .here scope⟩, List.suffix_rfl⟩
  | cons next rest ih =>
      unfold descend
      cases hinner : scope.findSubmodule? name with
      | none => exact ⟨⟨[], .here scope⟩, List.suffix_rfl⟩
      | some inner =>
          obtain ⟨⟨path, hpath⟩, hsuffix⟩ := ih inner next
          have hstep := Scope.leads_of_findSubmodule? hinner
          exact ⟨⟨name.parts ++ path, hstep.trans hpath⟩,
            hsuffix.trans (List.suffix_cons name (next :: rest))⟩

section Built

variable {unit : Text} {options : Options} {imports : List Import}
  (hsound : resolver.registry.Sound)
  (htable : resolver.imports =
    (ImportTable.build resolver.registry unit options imports).1)

include htable

theorem entry_of_contribution {declaration : Import} {symbols : List Located}
    (hmember : declaration ∈ imports)
    (h : declaration.contribution resolver.registry unit options = .ok symbols) :
    ∃ entry ∈ resolver.imports.entries,
      entry.status = .resolved ∧ entry.module = declaration.module := by
  refine ⟨declaration.entry (.ok symbols) symbols.length, ?_, rfl, rfl⟩
  rw [htable, ImportTable.build_eq_after, ← Array.mem_toList_iff, ImportTable.after_entries]
  exact List.mem_map.mpr ⟨declaration, hmember, by rw [h]; rfl⟩

theorem declaredAt_of_candidate {name : Text} {context : Context} {tier : Tier}
    {candidate : Located} (h : candidate ∈ resolver.candidates name context tier) :
    resolver.DeclaredAt candidate tier ∧ candidate.answers name context = true := by
  cases tier with
  | localDeclaration => exact List.mem_filter.mp h
  | importedDeclaration =>
      have hlast : candidate ∈ resolver.importedDeclarations name context := h
      rw [importedDeclarations_build htable, Option.mem_toList] at hlast
      obtain ⟨hsingle, hanswers⟩ := List.mem_filter.mp (List.mem_of_getLast? hlast)
      obtain ⟨declaration, hmember, hnamed⟩ := List.mem_filterMap.mp hsingle
      obtain ⟨hcontribution, root, hroot, hsymbol⟩ :=
        Import.singleSymbol?_eq_some options hnamed
      obtain ⟨entry, hentry, hstatus, hmodule⟩ :=
        entry_of_contribution htable hmember hcontribution
      rw [← hmodule] at hroot
      exact ⟨⟨entry, hentry, hstatus, root, hroot, hsymbol⟩, hanswers⟩
  | importedModule =>
      have hshown : candidate ∈ resolver.importedModuleSymbols name context := h
      rw [importedModuleSymbols_build htable, shownUnder, List.mem_eraseDups] at hshown
      obtain ⟨hopened, hanswers⟩ := List.mem_filter.mp hshown
      obtain ⟨declaration, hmember, hexposed⟩ := List.mem_flatMap.mp hopened
      obtain ⟨scope, hscope, hsymbol⟩ := List.mem_flatMap.mp hexposed
      obtain ⟨hcontribution, root, path, hroot, hpath⟩ :=
        Import.openedScope?_eq_some options (Option.mem_toList.mp hscope)
      obtain ⟨below, inner, hinner, hlocated⟩ := Scope.leads_of_exposed hsymbol
      obtain ⟨entry, hentry, hstatus, hmodule⟩ :=
        entry_of_contribution htable hmember hcontribution
      rw [← hmodule] at hroot
      exact ⟨⟨entry, hentry, hstatus, root, hroot, path ++ below, inner,
        hpath.trans hinner, hlocated⟩, hanswers⟩

include hsound

/-- The candidates of a tier are different declarations. -/
theorem nodup_candidates (name : Text) (context : Context) (tier : Tier) :
    ((resolver.candidates name context tier).map (·.place)).Nodup := by
  cases tier with
  | localDeclaration =>
      exact (List.filter_sublist.map _).nodup (nodup_located resolver.locals)
  | importedDeclaration =>
      have hlast := importedDeclarations_build htable name context
      unfold candidates
      rw [hlast]
      cases lastSingle? resolver.registry unit imports name context <;> simp
  | importedModule =>
      have hshown := importedModuleSymbols_build htable name context
      unfold candidates
      rw [hshown, shownUnder]
      apply (nodup_eraseDups _).map_on
      intro left hleft right hright hplace
      have hplaced : ∀ located ∈ opened resolver.registry unit options imports,
          located.Placed resolver.registry resolver.locals :=
        placed_of_opened hsound resolver.locals
      rw [List.mem_eraseDups] at hleft hright
      exact (hplaced left (List.mem_of_mem_filter hleft)).eq_of_place
        (hplaced right (List.mem_of_mem_filter hright)) hplace

/-- What a search finds: declarations of the tier it stops at, all different and
all answering. -/
theorem search?_declaredAt {name : Text} {context : Context} {tiers : List Tier}
    {found : Match} (h : resolver.search? name context tiers = some found) :
    (found.candidates.map (·.place)).Nodup ∧
      ∀ candidate ∈ found.candidates,
        resolver.DeclaredAt candidate found.tier ∧ candidate.answers name context = true := by
  obtain ⟨-, hcandidates⟩ := search?_eq_some h
  rw [← hcandidates]
  refine ⟨nodup_candidates hsound htable name context found.tier, ?_⟩
  intro candidate hcandidate
  exact declaredAt_of_candidate htable hcandidate

theorem unqualified_sound (name : Text) (context : Context) (span : Span) :
    resolver.SoundOutcome ⟨[name], context, span⟩ (resolver.unqualified name context) := by
  unfold unqualified
  cases hsearch : resolver.search? name context allTiers with
  | none => exact sound_failed (by decide)
  | some found =>
      obtain ⟨hplaces, hcandidates⟩ := search?_declaredAt hsound htable hsearch
      obtain ⟨tier, first, others⟩ := found
      cases others with
      | nil =>
          obtain ⟨hdeclared, hanswers⟩ := hcandidates first (by simp [Match.candidates])
          exact sound_found rfl hanswers ⟨first, hdeclared, .here first⟩
      | cons second rest =>
          apply sound_ambiguous hplaces
          intro candidate hcandidate
          obtain ⟨hdeclared, hanswers⟩ := hcandidates candidate hcandidate
          exact ⟨hdeclared, .inl hanswers⟩

theorem sound_followed {head name : Text} {rest : List Text} {context : Context}
    {span : Span} {tiers : List Tier} {found : Match} {target : Located}
    (hsearch : resolver.search? head .any tiers = some found)
    (h : found.follow? context (name :: rest) = some target) :
    resolver.SoundOutcome ⟨head :: name :: rest, context, span⟩
      (.found target (some found.tier)) := by
  obtain ⟨-, hcandidates⟩ := search?_declaredAt hsound htable hsearch
  obtain ⟨tier, first, others⟩ := found
  cases others with
  | cons second more => cases h
  | nil =>
      obtain ⟨last, hlast, hanswers⟩ := Located.answers_of_follow? h
      obtain ⟨hdeclared, -⟩ := hcandidates first (by simp [Match.candidates])
      refine sound_found ?_ hanswers ⟨first, hdeclared, Located.leads_of_follow? h⟩
      rw [List.getLast?_cons_cons, hlast]

theorem sound_undecided {head name : Text} {rest : List Text} {context : Context}
    {span : Span} {tiers : List Tier} {found : Match}
    (hsearch : resolver.search? head .any tiers = some found) :
    resolver.SoundOutcome ⟨head :: name :: rest, context, span⟩
      (.failed found.undecided) := by
  obtain ⟨hplaces, hcandidates⟩ := search?_declaredAt hsound htable hsearch
  obtain ⟨tier, first, others⟩ := found
  cases others with
  | nil => exact sound_failed (by simp [Match.undecided, Failure.status])
  | cons second more =>
      apply sound_ambiguous hplaces
      intro candidate hcandidate
      obtain ⟨hdeclared, hanswers⟩ := hcandidates candidate hcandidate
      exact ⟨hdeclared, .inl hanswers⟩

theorem throughUnit_sound (hunit : resolver.locals.unit ≠ []) (name : Text)
    (rest : List Text) (context : Context) (span : Span) :
    resolver.SoundOutcome ⟨resolver.locals.unit :: name :: rest, context, span⟩
      (resolver.throughUnit name rest context) := by
  have hnamed := nodup_candidates hsound htable name
    (if rest.isEmpty then context else .any) .localDeclaration
  have hdeclared : ∀ candidate ∈ resolver.locals.named name
      (if rest.isEmpty then context else .any),
      resolver.DeclaredAt candidate .localDeclaration ∧
        candidate.answers name (if rest.isEmpty then context else .any) = true := by
    intro candidate hcandidate
    exact List.mem_filter.mp hcandidate
  unfold candidates at hnamed
  unfold throughUnit
  generalize resolver.locals.named name _ = named at hnamed hdeclared ⊢
  match named with
  | [] => exact sound_failed (by decide)
  | [first] =>
      obtain ⟨hlocal, hanswers⟩ := hdeclared first (by simp)
      dsimp only
      cases hfollow : first.follow? context rest with
      | none => exact sound_failed (by decide)
      | some target =>
          obtain ⟨last, hlast, htarget⟩ := Located.answers_of_reached hanswers hfollow
          refine sound_found ?_ htarget ⟨first, hlocal, Located.leads_of_follow? hfollow⟩
          rw [List.getLast?_cons_cons, hlast]
  | first :: second :: others =>
      apply sound_ambiguous hnamed
      intro candidate hcandidate
      obtain ⟨hlocal, hanswers⟩ := hdeclared candidate hcandidate
      exact ⟨hlocal, .inr ⟨name, rest, rfl, rfl, hunit, hanswers⟩⟩

theorem unregistered_sound (head name : Text) (rest : List Text) (context : Context)
    (span : Span) :
    resolver.SoundOutcome ⟨head :: name :: rest, context, span⟩
      (resolver.unregistered head name rest context) := by
  unfold unregistered
  split
  · rename_i hown
    have hparts : resolver.locals.unit ≠ [] ∧ head = resolver.locals.unit := by
      simpa using hown
    rw [hparts.2]
    exact throughUnit_sound hsound htable hparts.1 name rest context span
  · cases hsearch : resolver.search? head .any allTiers with
    | none => exact sound_failed (by decide)
    | some found =>
        dsimp only
        cases hfollow : found.follow? context (name :: rest) with
        | none => exact sound_undecided hsound htable hsearch
        | some target => exact sound_followed hsound htable hsearch hfollow

omit htable in
/-- Qualifying never answers with an ambiguity, and what it finds is owned by
the module or by a submodule on the way. -/
theorem qualified_sound {head : Text} {scope : Scope}
    (hscope : resolver.registry.lookup? head = some scope) (name : Text)
    (rest : List Text) (context : Context) (span : Span) :
    resolver.SoundOutcome ⟨head :: name :: rest, context, span⟩
      (resolver.qualified scope name rest context) := by
  obtain ⟨⟨path, hpath⟩, hsuffix⟩ := descend_leads scope name rest
  unfold qualified
  split
  · exact sound_failed (by decide)
  · generalize descend scope name rest = reached at hpath hsuffix ⊢
    obtain ⟨inner, symbolName, members⟩ := reached
    dsimp only at hpath hsuffix ⊢
    cases hsearch : inner.search? resolver.options.reexport symbolName
        (if members.isEmpty then context else .any) with
    | none =>
        apply sound_failed
        split <;> decide
    | some symbol =>
        dsimp only
        cases hfollow : symbol.follow? context members with
        | none => exact sound_failed (by decide)
        | some target =>
            rw [Scope.search?_eq_find?] at hsearch
            have hanswers : symbol.answers symbolName
                (if members.isEmpty then context else .any) = true := by
              simpa using List.find?_some hsearch
            obtain ⟨below, home, hhome, hmember⟩ :=
              Scope.leads_of_exposed (List.mem_of_find?_eq_some hsearch)
            obtain ⟨last, hlast, htarget⟩ := Located.answers_of_reached hanswers hfollow
            have hholds : scope.Holds (path ++ below) target :=
              ⟨home, hpath.trans hhome, symbol, hmember, Located.leads_of_follow? hfollow⟩
            refine sound_found ?_ htarget ⟨rfl, scope, path ++ below, hscope, hholds, ?_⟩
            · obtain ⟨used, hused⟩ := hsuffix
              rw [List.getLast?_cons_cons, ← hused, List.getLast?_append, hlast]
              rfl
            · exact hholds.owner (hsound.lookup? hscope).2.2.2

theorem dotted_sound (head name : Text) (rest : List Text) (context : Context)
    (span : Span) :
    resolver.SoundOutcome ⟨head :: name :: rest, context, span⟩
      (resolver.dotted head name rest context) := by
  unfold dotted
  cases hsearch : resolver.search? head .any declarationTiers with
  | none =>
      cases hscope : resolver.registry.lookup? head with
      | none => exact unregistered_sound hsound htable head name rest context span
      | some scope => exact qualified_sound hsound hscope name rest context span
  | some found =>
      dsimp only [Option.bind_some]
      cases hfollow : found.follow? context (name :: rest) with
      | some target => exact sound_followed hsound htable hsearch hfollow
      | none =>
          cases hscope : resolver.registry.lookup? head with
          | none => exact sound_undecided hsound htable hsearch
          | some scope => exact qualified_sound hsound hscope name rest context span

end Built

/-- Whatever the reference, the unit and the options, resolving over a registry
that registering and freezing lead to and a table that imports build has a well
founded outcome. -/
theorem resolve_sound (registry : Registry) (hreach : registry.Reachable) (unit : Text)
    (options atUse : Options) (imports : List Import) (locals : Locals)
    (reference : Reference) :
    let resolver : Resolver :=
      ⟨registry, (ImportTable.build registry unit options imports).1, locals, atUse⟩
    resolver.SoundOutcome reference (resolver.resolve reference) := by
  intro resolver
  obtain ⟨path, context, span⟩ := reference
  unfold resolve
  match path with
  | [] => exact sound_failed (by decide)
  | head :: rest =>
      dsimp only
      split
      · exact sound_failed (by decide)
      · cases rest with
        | nil => exact unqualified_sound hreach.sound rfl head context span
        | cons name rest => exact dotted_sound hreach.sound rfl head name rest context span

/-- A path that goes down into a submodule and on to a member of a type there. -/
theorem resolve_pass_sound :
    let reference : Reference := ⟨["Triathlon", "Relay", "Baton", "pass"], .value, {}⟩
    let resolver : Resolver := ⟨.sports, (ImportTable.build .sports "Meet" {} []).1, {}, {}⟩
    Registry.sports.Reachable ∧
      resolver.SoundOutcome reference (resolver.resolve reference) ∧
      (resolver.resolve reference).map (·.symbol.describe) =
        .found "func Triathlon.Relay.pass" none := by
  intro reference resolver
  exact ⟨Registry.sports_reachable,
    resolve_sound .sports Registry.sports_reachable "Meet" {} {} [] {} reference, by decide⟩

end Resolver

end NameBinding
