import NameBinding.Proofs.Dependence
import NameBinding.Proofs.Redundancy
import NameBinding.Proofs.ImportLog
import NameBinding.Proofs.Requirement

/-!
What becomes of a reference once the hint of its diagnostic is followed. A name that is
qualified as suggested means the candidate that was suggested, unless a declaration of
the unit is spelled like the module and supplies the path. The import that is suggested
lets the reference through, unless it names the module of the unit itself.
-/

namespace NameBinding

namespace Located

theorem place_of_follow? {located target : Located} {context : Context} {name : Text}
    {rest : List Text} (h : located.follow? context (name :: rest) = some target) :
    ∃ owner index, target.place = .member owner index := by
  induction rest generalizing located name with
  | nil =>
      obtain ⟨index, -, hplace⟩ := mem_members (List.mem_of_find?_eq_some h)
      exact ⟨located.place, index, hplace⟩
  | cons next others ih =>
      obtain ⟨member, -, hrest⟩ := Option.bind_eq_some_iff.mp h
      exact ih hrest

end Located

namespace Resolver

/-- The hint that comes with the diagnostic of a reference, if there is one. -/
def hint? (resolver : Resolver) (reference : Reference) : Option Text :=
  (((resolver.resolve reference).map (·.symbol)).diagnostic? reference).bind (·.fixIt)

variable {resolver : Resolver}

/-- What a declaration supplies for a path is a member of something. -/
theorem place_of_supplied? {reference : Reference} {member : Located} {tier : Tier}
    (h : resolver.supplied? reference = some (member, tier)) :
    ∃ owner index, member.place = .member owner index := by
  obtain ⟨path, context, span⟩ := reference
  match path with
  | [] => cases h
  | [_] => cases h
  | head :: name :: rest =>
      obtain ⟨⟨tier', first, others⟩, -, hfound⟩ := Option.bind_eq_some_iff.mp h
      obtain ⟨target, hfollow, hsame⟩ := Option.map_eq_some_iff.mp hfound
      obtain ⟨rfl, -⟩ := Prod.mk.inj hsame
      cases others with
      | nil => exact Located.place_of_follow? hfollow
      | cons second more => cases hfollow

theorem supplied?_ne_shown {reference : Reference} {member shown : Located} {tier : Tier}
    (h : resolver.supplied? reference = some (member, tier)) {registry : Registry}
    {unit name : Text} {options : Options} {imports : List Import} {context : Context}
    (hshown : shown ∈ shownUnder registry unit options imports name context) :
    member ≠ shown := by
  rintro rfl
  -- What is shown stands in a scope, not below a symbol.
  obtain ⟨-, scope, -, hscope⟩ := mem_shownUnder hshown
  obtain ⟨index, -, hplace⟩ := Scope.mem_symbols hscope
  obtain ⟨owner, index', hmember⟩ := place_of_supplied? h
  rw [hplace] at hmember
  cases hmember

/-- A single name gets a hint only if it is ambiguous among what imports of modules
show; the hint is then to qualify it by the owner of the first candidate. -/
theorem hint?_singleton {name : Text} {context : Context} {span : Span} {hint : Text}
    (h : resolver.hint? ⟨[name], context, span⟩ = some hint) :
    ∃ tier first others,
      resolver.resolve ⟨[name], context, span⟩ =
          .failed (.ambiguous tier (first :: others)) ∧
        tier ≠ some .localDeclaration ∧
        hint = "qualify the reference, e.g. " ++
          (first.symbol.owner ++ "." ++ name : Text).quoted := by
  unfold hint? at h
  by_cases hname : name = []
  · subst hname
    cases h
  · rw [resolve_singleton hname] at h ⊢
    cases houtcome : resolver.unqualified name context with
    | found symbol tier =>
        rw [houtcome] at h
        cases h
    | failed failure =>
        rw [houtcome] at h
        rcases unqualified_eq_failed houtcome with rfl | ⟨tier, candidates, rfl⟩
        · cases h
        · cases candidates with
          | nil =>
              simp [Outcome.map, Outcome.diagnostic?, Failure.map, Failure.diagnostic,
                Failure.fixIt?, Failure.spelling?, Symbol.distinctlyOwned?] at h
          | cons first others =>
              simp only [Outcome.map, Outcome.diagnostic?, Failure.map, Failure.diagnostic,
                Failure.fixIt?, Failure.spelling?, Symbol.distinctlyOwned?, List.map_cons,
                Option.bind_some, Option.map_eq_some_iff, Option.ite_none_left_eq_some] at h
              obtain ⟨_, ⟨htier, candidate, ⟨-, hcandidate⟩, rfl⟩, rfl⟩ := h
              obtain rfl := Option.some.inj hcandidate
              refine ⟨tier, first, others, rfl, ?_, rfl⟩
              intro hlocal
              simp [hlocal] at htier

end Resolver

namespace SourceUnit

/-- The errors of a unit's imports, without the warnings. -/
def importErrors (unit : SourceUnit) (registry : Registry) (options : Options) :
    List Diagnostic :=
  (ImportTable.build registry unit.module options unit.imports).2.filter (·.isError)

/-- The unit with one more import at the end of its imports. -/
def importing (unit : SourceUnit) (declaration : Import) : SourceUnit :=
  { unit with imports := unit.imports ++ [declaration] }

variable {registry : Registry} {unit : SourceUnit} {options : Options}

theorem importErrors_importing (declaration : Import) :
    (unit.importing declaration).importErrors registry options =
      unit.importErrors registry options ++
        (declaration.contribution registry unit.module options).diagnostics declaration := by
  unfold importErrors importing
  rw [ImportTable.errors_build, ImportTable.errors_build, List.flatMap_append]
  simp

theorem importsModule_importing (declaration : Import) (module : Text) :
    ((unit.importing declaration).resolver registry options).imports.importsModule module =
      ((unit.resolver registry options).imports.importsModule module ||
        (declaration.contribution registry unit.module options).status == .resolved &&
          declaration.module == module) := by
  simp [resolver, importing, ImportTable.importsModule_build]

/-- An import of a registered module that is not the unit's own is no error. -/
theorem importing_registered (options : Options) {declaration : Import}
    (htarget : declaration.target = .everything) {scope : Scope}
    (hscope : registry.lookup? declaration.module = some scope)
    (hother : declaration.isSelf unit.module = false) :
    (unit.importing declaration).importErrors registry options =
        unit.importErrors registry options ∧
      ((unit.importing declaration).resolver registry options).imports.importsModule
        declaration.module = true := by
  have hcontribution : declaration.contribution registry unit.module options =
      .ok (scope.exposed options.reexport) := by
    simp [Import.contribution, hother, hscope, htarget]
  constructor
  · rw [importErrors_importing, hcontribution]
    exact List.append_nil _
  · rw [importsModule_importing, hcontribution]
    simp [Contribution.status]

/-- An import of the unit's own module is an error and imports nothing. -/
theorem importing_own (registry : Registry) (options : Options) {declaration : Import}
    (hself : declaration.isSelf unit.module = true) :
    (unit.importing declaration).importErrors registry options =
        unit.importErrors registry options ++ [ImportFault.selfImport.diagnostic declaration] ∧
      ∀ module, ((unit.importing declaration).resolver registry options).imports.importsModule
        module = (unit.resolver registry options).imports.importsModule module := by
  have hcontribution : declaration.contribution registry unit.module options =
      .error .selfImport := by
    simp [Import.contribution, hself]
  constructor
  · rw [importErrors_importing, hcontribution]
    rfl
  · intro module
    rw [importsModule_importing, hcontribution]
    exact Bool.or_false _

/-- An import of a whole module has no say in what declarations supply. -/
theorem supplied?_importing {declaration : Import} (htarget : declaration.target = .everything)
    (reference : Reference) :
    ((unit.importing declaration).resolver registry options).supplied? reference =
      (unit.resolver registry options).supplied? reference := by
  have hsingle : declaration.singleSymbol? registry unit.module = none := by
    simp [Import.singleSymbol?, htarget]
  apply Resolver.supplied?_congr (by rfl)
  rw [Resolver.importedDeclarations_build rfl, Resolver.importedDeclarations_build rfl]
  simp [Resolver.lastSingle?, Resolver.singles, importing, hsingle]

/-- A hint to qualify a single name comes with the candidates that imports of modules
show. Following it finds the first of them exactly if no declaration supplies the
qualified path; otherwise the path means the member that is supplied. -/
theorem qualify_suggestion (registry : Registry) (hreach : registry.Reachable)
    (hplain : registry.PlainNames) (unit : SourceUnit) (options : Options)
    (reference : Reference) (hsingle : reference.isDotted = false)
    (hparts : ∀ part ∈ reference.path, Text.dot ∉ part) (spelling : Text)
    (hhint : (unit.resolver registry options).hint? reference =
      some ("qualify the reference, e.g. " ++ spelling.quoted)) :
    let resolver := unit.resolver registry options
    let qualified := Reference.ofText spelling reference.context
    ∃ first others,
      resolver.resolve reference =
          .failed (.ambiguous (some .importedModule) (first :: others)) ∧
        (resolver.resolve qualified = .found first none ↔
          resolver.supplied? qualified = none) ∧
        ∀ member tier, resolver.supplied? qualified = some (member, tier) →
          resolver.resolve qualified = .found member (some tier) ∧ member ≠ first := by
  intro resolver qualified
  obtain ⟨path, context, span⟩ := reference
  match path with
  | [] => cases hhint
  | _ :: _ :: _ => simp [Reference.isDotted] at hsingle
  | [name] =>
      obtain ⟨tier, first, others, hambiguous, htier, hspelling⟩ :=
        Resolver.hint?_singleton hhint
      obtain rfl : spelling = first.symbol.owner ++ "." ++ name := by
        have hquoted := List.append_cancel_left hspelling
        exact List.append_cancel_left (List.append_cancel_right hquoted)
      obtain ⟨rfl, hshown⟩ := Resolver.candidates_of_ambiguous hambiguous htier
      have hfirst : first ∈ Resolver.shownUnder registry unit.module options unit.imports
          name context := hshown ▸ List.mem_cons_self
      obtain ⟨-, found, hfound, hnothing, hmember⟩ := Resolver.resolve_qualified hreach hplain
        resolver.locals options (hparts name List.mem_cons_self) hfirst {}
      -- The first candidate is the first of its owner, too.
      rw [← hshown, List.find?_cons_of_pos (by simp)] at hfound
      obtain rfl : first = found := Option.some.inj hfound
      have hother : ∀ member tier, resolver.supplied? qualified = some (member, tier) →
          resolver.resolve qualified = .found member (some tier) := hmember
      refine ⟨first, others, hambiguous, ⟨?_, hnothing⟩, ?_⟩
      · intro hmeant
        by_contra hsome
        obtain ⟨⟨member, tier⟩, hsupplied⟩ := Option.ne_none_iff_exists'.mp hsome
        rw [hother member tier hsupplied] at hmeant
        cases hmeant
      · intro member tier hsupplied
        exact ⟨hother member tier hsupplied, Resolver.supplied?_ne_shown hsupplied hfirst⟩

/-- `swim` comes with both sports. For `Meet` the hint finds the first of them; `Rules`
declares a type that is spelled like the module and has the member. -/
theorem qualify_suggestion_swim :
    let reference : Reference := ⟨["swim"], .value, {}⟩
    let imports : List Import := [⟨"Triathlon", .everything, {}⟩, ⟨"Pentathlon", .everything, {}⟩]
    let meet : SourceUnit := { module := "Meet", imports }
    let rules : SourceUnit :=
      { module := "Rules", imports
        symbols := [{ name := "Triathlon", kind := .enumType, members := [{ name := "swim" }] }] }
    let hint : Text := "qualify the reference, e.g. " ++ Text.quoted "Triathlon.swim"
    Registry.sports.Reachable ∧ Registry.sports.PlainNames ∧ reference.isDotted = false ∧
      (∀ part ∈ reference.path, Text.dot ∉ part) ∧
      (meet.resolver .sports {}).hint? reference = some hint ∧
      (rules.resolver .sports {}).hint? reference = some hint ∧
      (∃ first others,
        (meet.resolver .sports {}).resolve reference =
            .failed (.ambiguous (some .importedModule) (first :: others)) ∧
          (meet.resolver .sports {}).resolve (.ofText "Triathlon.swim" .value) =
            .found first none) ∧
      ∃ first others,
        (rules.resolver .sports {}).resolve reference =
            .failed (.ambiguous (some .importedModule) (first :: others)) ∧
          (rules.resolver .sports {}).resolve (.ofText "Triathlon.swim" .value) ≠
            .found first none := by
  intro reference imports meet rules hint
  have hplain : Registry.sports.PlainNames := by decide
  have hparts : ∀ part ∈ reference.path, Text.dot ∉ part := by decide
  have hmeet : (meet.resolver .sports {}).hint? reference = some hint := by decide
  have hrules : (rules.resolver .sports {}).hint? reference = some hint := by decide
  obtain ⟨first, others, hambiguous, hiff, -⟩ := qualify_suggestion .sports
    Registry.sports_reachable hplain meet {} reference rfl hparts "Triathlon.swim" hmeet
  obtain ⟨first', others', hambiguous', hiff', -⟩ := qualify_suggestion .sports
    Registry.sports_reachable hplain rules {} reference rfl hparts "Triathlon.swim" hrules
  have hnothing : (meet.resolver .sports {}).supplied? (.ofText "Triathlon.swim" .value) =
      none := by decide
  have hsomething : (rules.resolver .sports {}).supplied? (.ofText "Triathlon.swim" .value) ≠
      none := by decide
  exact ⟨Registry.sports_reachable, hplain, rfl, hparts, hmeet, hrules,
    ⟨first, others, hambiguous, hiff.mpr hnothing⟩,
    ⟨first', others', hambiguous', fun hfound => hsomething (hiff'.mp hfound)⟩⟩

/-- The hint is given although an enumeration of the unit is spelled like the module and
has a member of the name; what is spelled as suggested is this member. -/
theorem qualify_suggestion_misleads :
    let unit : SourceUnit :=
      { module := "Meet"
        imports := [⟨"Triathlon", .everything, {}⟩, ⟨"Pentathlon", .everything, {}⟩]
        symbols := [{ name := "Triathlon", kind := .enumType, members := [{ name := "swim" }] }]
        references := [.ofText "swim", .ofText "Triathlon.swim"] }
    Registry.sports.Reachable ∧ Registry.sports.PlainNames ∧
      (unit.resolver .sports {}).hint? (.ofText "swim") =
        some ("qualify the reference, e.g. " ++ Text.quoted "Triathlon.swim") ∧
      (unit.resolve .sports {}).references.map (·.outcome.map (·.symbol.describe)) =
        [.failed (.ambiguous (some .importedModule)
            ["func Triathlon.swim", "func Pentathlon.swim"]),
          .found "func Meet.swim" (some .localDeclaration)] := by
  intro unit
  exact ⟨Registry.sports_reachable, by decide, by decide, by decide⟩

/-- Importing the module that a reference misses, as its diagnostic suggests, is no
error, and the reference then means what it means where no import is required. The one
exception is the unit's own module: the import that is suggested is an error, and the
reference misses it as before. -/
theorem import_suggestion (registry : Registry) (hreach : registry.Reachable)
    (unit : SourceUnit) (options : Options) (reference : Reference) (span : Span)
    (hmissed : (unit.resolver registry options).resolve reference =
      .failed .moduleNotImported) :
    let suggested : Import := ⟨reference.head, .everything, span⟩
    let mended := unit.importing suggested
    let free : Options := { options with requireImport := false }
    (unit.resolver registry options).hint? reference =
      some ("add " ++ suggested.describe.quoted) ∧
    (reference.head ≠ unit.module →
      mended.importErrors registry options = unit.importErrors registry options ∧
        (mended.resolver registry options).resolve reference =
          (unit.resolver registry free).resolve reference ∧
        (mended.resolver registry options).resolve reference ≠ .failed .moduleNotImported) ∧
    (reference.head = unit.module →
      mended.importErrors registry options =
          unit.importErrors registry options ++
            [ImportFault.selfImport.diagnostic suggested] ∧
        (mended.resolver registry options).resolve reference = .failed .moduleNotImported) := by
  intro suggested mended free
  obtain ⟨hhead, hdotted, hsupplied, hrequire, scope, hscope, hunimported⟩ :=
    Resolver.resolve_eq_moduleNotImported_iff.mp hmissed
  have hmodule : scope.module.name = reference.head :=
    (hreach.sound.lookup? hscope).2.2.1
  have hmended : (mended.resolver registry options).supplied? reference = none := by
    rw [supplied?_importing rfl, hsupplied]
  refine ⟨by rw [Resolver.hint?, hmissed]; rfl, ?_, ?_⟩
  · intro hother
    have hself : suggested.isSelf unit.module = false := by
      simp [Import.isSelf, suggested, hother]
    obtain ⟨herrors, himported⟩ := importing_registered options rfl hscope hself
    have hsame : (mended.resolver registry options).resolve reference =
        (unit.resolver registry free).resolve reference :=
      Resolver.resolve_congr_of_allowed hhead hdotted hscope rfl rfl hmended hsupplied
        (fun _ => hmodule ▸ himported) (fun hfalse => nomatch hfalse)
    refine ⟨herrors, hsame, ?_⟩
    rw [hsame]
    intro hstill
    obtain ⟨-, -, -, hfalse, -⟩ := Resolver.resolve_eq_moduleNotImported_iff.mp hstill
    cases hfalse
  · intro hown
    have hself : suggested.isSelf unit.module = true := by
      simp [Import.isSelf, suggested, ← hown, hhead]
    obtain ⟨herrors, hunchanged⟩ := importing_own registry options hself
    refine ⟨herrors, Resolver.resolve_eq_moduleNotImported_iff.mpr ?_⟩
    exact ⟨hhead, hdotted, hmended, hrequire, scope, hscope,
      (hunchanged scope.module.name).trans hunimported⟩

/-- The unit `Meet` misses the import of `Triathlon`, and can add it; a unit of the module
`Triathlon` itself misses it too. -/
theorem import_suggestion_triathlon :
    let reference : Reference := ⟨["Triathlon", "swim"], .value, {}⟩
    let options : Options := { requireImport := true }
    let meet : SourceUnit := { module := "Meet", references := [reference] }
    let own : SourceUnit := { module := "Triathlon", references := [reference] }
    let suggested : Import := ⟨"Triathlon", .everything, {}⟩
    Registry.sports.Reachable ∧
      (meet.resolver .sports options).resolve reference = .failed .moduleNotImported ∧
      (own.resolver .sports options).resolve reference = .failed .moduleNotImported ∧
      (meet.importing suggested).importErrors .sports options =
        meet.importErrors .sports options ∧
      ((meet.importing suggested).resolver .sports options).resolve reference =
        (meet.resolver .sports {}).resolve reference ∧
      ((own.importing suggested).resolver .sports options).resolve reference =
        .failed .moduleNotImported := by
  intro reference options meet own suggested
  have hmeet : (meet.resolver .sports options).resolve reference =
      .failed .moduleNotImported := by decide +kernel
  have hown : (own.resolver .sports options).resolve reference =
      .failed .moduleNotImported := by decide +kernel
  obtain ⟨-, hmended, -⟩ := import_suggestion .sports Registry.sports_reachable meet options
    reference {} hmeet
  obtain ⟨-, -, hself⟩ := import_suggestion .sports Registry.sports_reachable own options
    reference {} hown
  have hother : reference.head ≠ meet.module := by decide
  obtain ⟨herrors, hresolve, -⟩ := hmended hother
  exact ⟨Registry.sports_reachable, hmeet, hown, herrors, hresolve, (hself rfl).2⟩

/-- A unit of a registered module is told to import this module, and cannot. -/
theorem own_import_suggested :
    let reference : Reference := ⟨["Triathlon", "swim"], .value, {}⟩
    let options : Options := { requireImport := true }
    let unit : SourceUnit := { module := "Triathlon", references := [reference] }
    let mended := unit.importing ⟨"Triathlon", .everything, {}⟩
    Registry.sports.Reachable ∧
      (unit.resolve .sports options).references.map (·.outcome.status) =
        [.moduleNotImported] ∧
      (unit.resolve .sports options).log.entries.map (·.fixIt) =
        [some ("add 'import Triathlon'" : Text)] ∧
      unit.importErrors .sports options = [] ∧
      (mended.importErrors .sports options).map (·.code) = ["SIGIL-E2104"] ∧
      (mended.resolve .sports options).references.map (·.outcome.status) =
        [.moduleNotImported] := by
  intro reference options unit mended
  exact ⟨Registry.sports_reachable, by decide +kernel, by decide +kernel, by decide +kernel,
    by decide +kernel, by decide +kernel⟩

end SourceUnit

end NameBinding
