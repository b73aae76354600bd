import NameBinding.Proofs.Equivalence
import NameBinding.Proofs.ScopePath
import NameBinding.Proofs.Tiers

/-!
Qualifying a name by its owner. Where no name has a dot, a name qualified by the path of
a scope is found in that scope; so qualifying tells the candidates of an ambiguity
apart, unless something is declared under the name that the path starts with.
-/

namespace NameBinding

namespace Resolver

/-- The member that a declaration of the head supplies for a path, with the tier of the
declaration. -/
def supplied? (resolver : Resolver) (reference : Reference) : Option (Located × Tier) :=
  match reference.path with
  | head :: name :: rest => resolver.preferredMember? head name rest reference.context
  | _ => none

theorem supplied?_congr {left right : Resolver} {reference : Reference}
    (hlocals : left.locals = right.locals)
    (hsingle : left.importedDeclarations reference.head .any =
      right.importedDeclarations reference.head .any) :
    left.supplied? reference = right.supplied? reference := by
  obtain ⟨path, context, span⟩ := reference
  match path with
  | [] => rfl
  | [_] => rfl
  | head :: name :: rest =>
      have hsame : left.importedDeclarations head .any =
          right.importedDeclarations head .any := hsingle
      simp only [supplied?, preferredMember?, search?_declarationTiers_congr hlocals hsame]

theorem resolve_of_supplied? {resolver : Resolver} {reference : Reference}
    (hhead : reference.head ≠ []) {member : Located} {tier : Tier}
    (h : resolver.supplied? reference = some (member, tier)) :
    resolver.resolve reference = .found member (some tier) := by
  obtain ⟨path, context, span⟩ := reference
  match path with
  | [] => cases h
  | [_] => cases h
  | head :: name :: rest =>
      have hnonempty : head ≠ [] := hhead
      have hpreferred : resolver.preferredMember? head name rest context =
          some (member, tier) := h
      rw [resolve_dotted hnonempty, dotted_eq, hpreferred]

/-- A local declaration or a single-declaration import has this name. -/
def Declares (resolver : Resolver) (name : Text) : Prop :=
  (∃ symbol ∈ resolver.locals.symbols, symbol.name = name) ∨
    ∃ binding ∈ resolver.imports.bindings,
      binding.tier = .importedDeclaration ∧ binding.name = name

instance (resolver : Resolver) (name : Text) : Decidable (resolver.Declares name) :=
  inferInstanceAs (Decidable (_ ∨ _))

theorem declares_iff {resolver : Resolver} {name : Text} :
    resolver.Declares name ↔ ∃ tier ∈ declarationTiers, resolver.BoundAt name .any tier := by
  simp only [declarationTiers, List.exists_mem_cons_iff, List.not_mem_nil, false_and,
    exists_false, or_false]
  apply or_congr
  · apply exists_congr
    intro symbol
    simp [Kind.fits]
  · apply exists_congr
    intro binding
    constructor
    · rintro ⟨hmem, htier, hname⟩
      exact ⟨hmem, htier, hname, rfl⟩
    · intro h
      exact ⟨h.mem, h.tier, h.name⟩

theorem preferredMember?_of_not_declares {resolver : Resolver}
    (hindexed : resolver.imports.Indexed) {head : Text} (h : ¬ resolver.Declares head)
    (name : Text) (rest : List Text) (context : Context) :
    resolver.preferredMember? head name rest context = none := by
  have hsearch : resolver.search? head .any declarationTiers = none :=
    (search?_eq_none_iff hindexed).mpr fun tier htier hbound =>
      h (declares_iff.mpr ⟨tier, htier, hbound⟩)
  rw [preferredMember?, hsearch]
  rfl

theorem supplied?_of_not_declares {resolver : Resolver} (hindexed : resolver.imports.Indexed)
    {reference : Reference} (h : ¬ resolver.Declares reference.head) :
    resolver.supplied? reference = none := by
  obtain ⟨path, context, span⟩ := reference
  match path with
  | [] => rfl
  | [_] => rfl
  | head :: name :: rest =>
      exact preferredMember?_of_not_declares hindexed h name rest context

/-- The names that lead to a scope are gone down. The walk ends with the name after them
if it is the last or no submodule has it. -/
theorem descend_of_leads {outer inner : Scope} {path : List Text} {name : Text}
    {rest : List Text} (hnames : outer.WellNamed) (hplain : ∀ part ∈ path, Text.dot ∉ part)
    (h : outer.Leads path inner) (hstop : rest ≠ [] → inner.findSubmodule? name = none)
    {next : Text} {others : List Text} (hpath : path ++ name :: rest = next :: others) :
    descend outer next others = (inner, name, rest) := by
  induction h generalizing next others with
  | here =>
      obtain ⟨rfl, rfl⟩ := List.cons.inj hpath
      cases rest with
      | nil => rfl
      | cons member more => rw [descend, hstop (List.cons_ne_nil member more)]
  | @down outer inner target path hstep _ ih =>
      rw [List.cons_append] at hpath
      obtain ⟨rfl, rfl⟩ := List.cons.inj hpath
      obtain ⟨second, after, hrest⟩ : ∃ second after, path ++ name :: rest = second :: after :=
        List.exists_cons_of_ne_nil (by simp)
      obtain ⟨hfirst, hothers⟩ := List.forall_mem_cons.mp hplain
      rw [hrest, descend, Scope.findSubmodule?_of_mem (hnames _ _ (.here outer)) hstep hfirst]
      exact ih (hnames.inner (Scope.leads_of_mem hstep)) hothers hstop hrest

/-- No import is missed of a module that is imported if it has to be. -/
theorem not_refused {resolver : Resolver} {module : Text}
    (h : resolver.options.requireImport = true →
      resolver.imports.importsModule module = true) :
    (resolver.options.requireImport && !resolver.imports.importsModule module) = false := by
  cases hrequire : resolver.options.requireImport with
  | false => rfl
  | true => simp [h hrequire]

/-- Qualifying looks for the next name in the scope that is gone down to, and among members
for the names after it. -/
theorem qualified_of_descend {resolver : Resolver} {root scope : Scope} {next name : Text}
    {others rest : List Text}
    (hallowed : resolver.options.requireImport = true →
      resolver.imports.importsModule root.module.name = true)
    (hdescend : descend root next others = (scope, name, rest)) (context : Context) :
    resolver.qualified root next others context =
      match scope.search? resolver.options.reexport name
          (if rest.isEmpty then context else .any) with
      | none => .failed (if rest.isEmpty then .symbolNotFound else .submoduleNotFound)
      | some symbol =>
        match symbol.follow? context rest with
        | some target => .found target none
        | none => .failed .symbolNotFound := by
  rw [qualified, not_refused hallowed, hdescend]
  rfl

section Built

variable {registry : Registry} {unit : Text} {options : Options} {imports : List Import}

theorem leads_of_importedScopes {scope : Scope}
    (h : scope ∈ importedScopes registry unit options imports) :
    ∃ head path, registry.Leads (head :: path) scope ∧
      (ImportTable.build registry unit options imports).1.importsModule head = true := by
  obtain ⟨top, htop, hvisible⟩ := List.mem_flatMap.mp h
  obtain ⟨declaration, hmember, hopened⟩ := List.mem_filterMap.mp htop
  obtain ⟨hcontribution, root, path, hroot, hpath⟩ :=
    Import.openedScope?_eq_some options hopened
  obtain ⟨below, hbelow⟩ := Scope.leads_of_visible hvisible
  refine ⟨declaration.module, path ++ below, ⟨root, hroot, hpath.trans hbelow⟩, ?_⟩
  exact ImportTable.importsModule_build_iff.mpr
    ⟨declaration, hmember, by rw [hcontribution]; rfl, rfl⟩

theorem mem_shownUnder {name : Text} {context : Context} {located : Located}
    (h : located ∈ shownUnder registry unit options imports name context) :
    located.answers name context = true ∧
      ∃ scope ∈ importedScopes registry unit options imports, located ∈ scope.symbols := by
  rw [shownUnder, List.mem_eraseDups, ← symbols_importedScopes] at h
  obtain ⟨hshown, hanswers⟩ := List.mem_filter.mp h
  exact ⟨hanswers, List.mem_flatMap.mp hshown⟩

variable (hreach : registry.Reachable) (hplain : registry.PlainNames)

include hreach hplain

/-- Among what is shown under a name, the first symbol of an owner is the first of the
owner's scope that answers. -/
theorem find?_shownUnder {scope : Scope}
    (hscope : scope ∈ importedScopes registry unit options imports) {located : Located}
    (hlocated : located ∈ scope.symbols) (name : Text) (context : Context) :
    (shownUnder registry unit options imports name context).find?
        (·.symbol.owner == located.symbol.owner) =
      scope.find? name context := by
  obtain ⟨head, path, hleads, -⟩ := leads_of_importedScopes hscope
  have howners : ∀ symbol ∈ scope.symbols.filter (·.answers name context),
      (symbol.symbol.owner == located.symbol.owner) = true := by
    intro symbol hsymbol
    rw [hleads.owner hreach (List.mem_of_mem_filter hsymbol), hleads.owner hreach hlocated]
    exact beq_self_eq_true _
  have hown : (scope.symbols.filter (·.answers name context)).find?
      (·.symbol.owner == located.symbol.owner) = scope.find? name context := by
    rw [← List.head?_filter, List.filter_eq_self.mpr howners, List.head?_filter]
    rfl
  rw [shownUnder, find?_eraseDups, ← symbols_importedScopes, List.filter_flatMap,
    List.find?_flatMap, ← hown]
  -- A scope may be shown many times; any other scope has another owner and no match.
  apply findSome?_eq_of_mem hscope
  intro other hother
  obtain ⟨head', path', hleads', -⟩ := leads_of_importedScopes hother
  by_cases hsame : other = scope
  · exact .inr (by rw [hsame])
  · refine .inl (List.find?_eq_none.mpr ?_)
    intro symbol hsymbol howner
    exact hsame (hleads'.eq_of_owner hreach hplain hleads (List.mem_of_mem_filter hsymbol)
      hlocated (beq_iff_eq.mp howner))

/-- A name that is qualified by the path of a scope means the first symbol of the scope
that answers. If names come after it, they are those of members. -/
theorem throughModule?_of_leads {resolver : Resolver}
    (hregistry : resolver.registry = registry) {head : Text} {path : List Text}
    {scope : Scope} (h : registry.Leads (head :: path) scope)
    (hallowed : resolver.options.requireImport = true →
      resolver.imports.importsModule head = true)
    {name : Text} {rest : List Text} {context : Context}
    (hstop : rest ≠ [] → scope.findSubmodule? name = none) {symbol target : Located}
    (hfound : scope.find? name (if rest.isEmpty then context else .any) = some symbol)
    (htarget : symbol.follow? context rest = some target) {next : Text} {others : List Text}
    (hpath : path ++ name :: rest = next :: others) :
    resolver.throughModule? head next others context = some (.found target none) := by
  obtain ⟨root, hroot, hscope⟩ := h
  obtain ⟨module, hmodule, rfl⟩ := Registry.mem_of_lookup? hroot
  have hname : (Scope.ofModule module).module.name = head :=
    (hreach.sound.lookup? hroot).2.2.1
  have hdescend := descend_of_leads (Registry.Reachable.wellNamed hreach hroot)
    ((hplain module hmodule).path hscope) hscope hstop hpath
  have hqualified := qualified_of_descend (by rwa [hname]) hdescend context
  rw [throughModule?, hregistry, hroot, Option.map_some, hqualified,
    Scope.search?_of_find? hfound]
  simp only [htarget]

/-- A name that is qualified by the owner of a symbol shown under it means the first of
that owner's symbols, unless a declaration supplies the path. -/
theorem resolve_qualified (locals : Locals) (atUse : Options) {name : Text}
    (hname : Text.dot ∉ name) {context : Context} {located : Located}
    (h : located ∈ shownUnder registry unit options imports name context) (span : Span) :
    let resolver : Resolver :=
      ⟨registry, (ImportTable.build registry unit options imports).1, locals, atUse⟩
    let qualified := Reference.ofText (located.symbol.owner ++ "." ++ name) context span
    qualified.head = (Reference.ofText located.symbol.owner).head ∧
    ∃ first, (shownUnder registry unit options imports name context).find?
        (·.symbol.owner == located.symbol.owner) = some first ∧
      (resolver.supplied? qualified = none → resolver.resolve qualified = .found first none) ∧
      ∀ member tier, resolver.supplied? qualified = some (member, tier) →
        resolver.resolve qualified = .found member (some tier) := by
  intro resolver qualified
  obtain ⟨hanswers, scope, hscope, hlocated⟩ := mem_shownUnder h
  obtain ⟨head, path, hleads, hallowed⟩ := leads_of_importedScopes hscope
  obtain ⟨-, hnames⟩ := hleads.plain hreach hplain
  have howner := hleads.owner hreach hlocated
  obtain ⟨next, rest, hrest⟩ : ∃ next rest, path ++ [name] = next :: rest :=
    List.exists_cons_of_ne_nil (by simp)
  have hqualified : qualified = ⟨head :: next :: rest, context, span⟩ := by
    show Reference.ofText _ _ _ = _
    rw [Reference.ofText, howner, Text.parts_dotted_append (by simp) hnames hname,
      List.cons_append, hrest]
  have hhead : (Reference.ofText located.symbol.owner).head = head := by
    rw [Reference.ofText, howner, Text.parts_dotted (by simp) hnames]
    rfl
  obtain ⟨first, hfirst⟩ : ∃ first, scope.find? name context = some first := by
    cases hfound : scope.find? name context with
    | none => exact absurd hanswers (List.find?_eq_none.mp hfound located hlocated)
    | some first => exact ⟨first, rfl⟩
  have hnonempty : head ≠ [] := by
    obtain ⟨root, hroot, -⟩ := hleads
    exact (hreach.sound.lookup? hroot).1
  refine ⟨by rw [hqualified, hhead]; rfl, first, ?_, ?_, ?_⟩
  · rw [find?_shownUnder hreach hplain hscope hlocated, hfirst]
  · intro hsupplied
    rw [hqualified] at hsupplied ⊢
    have hpreferred : resolver.preferredMember? head next rest context = none := hsupplied
    rw [resolve_dotted hnonempty, dotted_eq, hpreferred,
      throughModule?_of_leads hreach hplain rfl hleads (fun _ => hallowed)
        (fun hmore => absurd rfl hmore) hfirst rfl hrest]
  · intro member tier hsupplied
    exact resolve_of_supplied? (by rw [hqualified]; exact hnonempty) hsupplied

/-- What is shown under one name differs in kind or owner, and so in its description. -/
theorem nodup_describe_shownUnder (name : Text) (context : Context) :
    ((shownUnder registry unit options imports name context).map
      (·.symbol.describe)).Nodup := by
  apply (nodup_eraseDups _).map_on
  intro left hleft right hright hdescribe
  rw [← shownUnder] at hleft hright
  obtain ⟨hanswers, scope, hscope, hlocated⟩ := mem_shownUnder hleft
  obtain ⟨hanswers', scope', hscope', hlocated'⟩ := mem_shownUnder hright
  obtain ⟨head, path, hleads, -⟩ := leads_of_importedScopes hscope
  obtain ⟨head', path', hleads', -⟩ := leads_of_importedScopes hscope'
  have hname : left.symbol.name = right.symbol.name := by
    simp only [Located.answers, Symbol.answers, Bool.and_eq_true, beq_iff_eq] at hanswers hanswers'
    rw [hanswers.1, hanswers'.1]
  obtain ⟨hkind, howner⟩ := Symbol.eq_of_describe (hleads.owner_ne_nil hreach hlocated)
    (hleads'.owner_ne_nil hreach hlocated') hname hdescribe
  obtain rfl := hleads.eq_of_owner hreach hplain hleads' hlocated hlocated' howner
  exact Scope.eq_of_key ((hleads.wellNamed hreach) _ _ (.here scope)) hlocated hlocated'
    hkind hname

end Built

end Resolver

namespace Outcome

/-- Single imports never leave a name ambiguous. -/
theorem ofTiers_eq_ambiguous {declared shown candidates : List Located}
    {single : Option Located} {tier : Option Tier}
    (h : ofTiers declared single shown = .failed (.ambiguous tier candidates)) :
    tier = some .localDeclaration ∧ candidates = declared ∨
      tier = some .importedModule ∧ candidates = shown := by
  match declared, single, shown with
  | [_], _, _ => cases h
  | _ :: _ :: _, _, _ =>
      cases h
      exact .inl ⟨rfl, rfl⟩
  | [], some _, _ => cases h
  | [], none, [] => cases h
  | [], none, [_] => cases h
  | [], none, _ :: _ :: _ =>
      cases h
      exact .inr ⟨rfl, rfl⟩

end Outcome

namespace Resolver

theorem candidates_of_ambiguous {registry : Registry} {unit : Text}
    {options atUse : Options} {imports : List Import} {locals : Locals} {name : Text}
    {context : Context} {span : Span} {tier : Option Tier} {candidates : List Located}
    (h : (Resolver.mk registry (ImportTable.build registry unit options imports).1 locals
      atUse).resolve ⟨[name], context, span⟩ = .failed (.ambiguous tier candidates))
    (htier : tier ≠ some .localDeclaration) :
    tier = some .importedModule ∧
      candidates = shownUnder registry unit options imports name context := by
  by_cases hname : name = []
  · subst hname
    cases h
  · rw [resolve_singleton hname, unqualified_build rfl] at h
    exact (Outcome.ofTiers_eq_ambiguous h).resolve_left fun hlocal => htier hlocal.1

/-- The candidates that imports of modules leave a name with have different descriptions.
Qualifying the name by the owner of any candidate finds the first candidate of this
owner, unless the unit declares or singly imports something under the name that the
owner starts with. -/
theorem resolve_owner_of_ambiguous (registry : Registry) (hreach : registry.Reachable)
    (hplain : registry.PlainNames) (unit : Text) (options atUse : Options)
    (imports : List Import) (locals : Locals) (name : Text) (hname : Text.dot ∉ name)
    (context : Context) (span : Span) :
    let resolver : Resolver :=
      ⟨registry, (ImportTable.build registry unit options imports).1, locals, atUse⟩
    ∀ candidates : List Located,
      resolver.resolve ⟨[name], context, span⟩ =
          .failed (.ambiguous (some .importedModule) candidates) →
        (candidates.map (·.symbol.describe)).Nodup ∧
          ∀ candidate ∈ candidates,
            ¬ resolver.Declares (Reference.ofText candidate.symbol.owner).head →
              ∃ first,
                candidates.find? (·.symbol.owner == candidate.symbol.owner) = some first ∧
                  resolver.resolve
                      (.ofText (candidate.symbol.owner ++ "." ++ name) context span) =
                    .found first none := by
  intro resolver candidates hambiguous
  obtain ⟨-, rfl⟩ := candidates_of_ambiguous hambiguous (by decide)
  refine ⟨nodup_describe_shownUnder hreach hplain name context, ?_⟩
  intro candidate hcandidate hundeclared
  obtain ⟨hhead, first, hfirst, hresolve, -⟩ :=
    resolve_qualified hreach hplain locals atUse hname hcandidate span
  refine ⟨first, hfirst, hresolve ?_⟩
  apply supplied?_of_not_declares (ImportTable.after_indexed registry unit options imports)
  rwa [hhead]

/-- Four candidates, two of them in one scope inside a module. By their owner the first
of these two is meant. -/
theorem resolve_owner_of_swim :
    let relay : Module :=
      { name := "Relay", symbols := [{ name := "swim" }, { name := "swim", kind := .variable }] }
    let registry : Registry :=
      (({} : Registry).register
        { name := "Triathlon", symbols := [{ name := "swim" }], submodules := [relay] }).register
          Registry.pentathlon
    let options : Options := { reexport := true, requireImport := true }
    let imports : List Import :=
      [⟨"Triathlon", .everything, {}⟩, ⟨"Pentathlon", .everything, {}⟩]
    let resolver : Resolver :=
      ⟨registry, (ImportTable.build registry "Meet" options imports).1, {}, options⟩
    let candidates := (resolver.resolve ⟨["swim"], .value, {}⟩).candidates
    let inRelay (index : Nat) (kind : Kind) : Located :=
      ⟨.exported (.inside (.root "Triathlon") 0) index,
        { name := "swim", kind, owner := "Triathlon.Relay" }⟩
    registry.Reachable ∧ registry.PlainNames ∧ Text.dot ∉ ("swim" : Text) ∧
      resolver.resolve ⟨["swim"], .value, {}⟩ =
        .failed (.ambiguous (some .importedModule) candidates) ∧
      candidates.length = 4 ∧ (candidates.map (·.symbol.describe)).Nodup ∧
      inRelay 1 .variable ∈ candidates ∧ ¬ resolver.Declares "Triathlon" ∧
      resolver.resolve (.ofText "Triathlon.Relay.swim" .value) =
        .found (inRelay 0 .function) none := by
  intro relay registry options imports resolver candidates inRelay
  have hreach : registry.Reachable := .register _ (.register _ .empty)
  have hplain : registry.PlainNames := by decide
  have hswim : Text.dot ∉ ("swim" : Text) := by decide
  have hambiguous : resolver.resolve ⟨["swim"], .value, {}⟩ =
      .failed (.ambiguous (some .importedModule) candidates) := by decide
  have hvariable : inRelay 1 .variable ∈ candidates := by decide
  have hundeclared : ¬ resolver.Declares "Triathlon" := by decide
  obtain ⟨hnodup, hqualified⟩ := resolve_owner_of_ambiguous registry hreach hplain "Meet"
    options options imports {} "swim" hswim .value {} candidates hambiguous
  obtain ⟨first, hfirst, hresolve⟩ := hqualified (inRelay 1 .variable) hvariable hundeclared
  have hfunction : candidates.find?
      (·.symbol.owner == (inRelay 1 .variable).symbol.owner) = some (inRelay 0 .function) := by
    decide
  obtain rfl : first = inRelay 0 .function := Option.some.inj (hfirst.symm.trans hfunction)
  exact ⟨hreach, hplain, hswim, hambiguous, by decide, hnodup, hvariable, hundeclared, hresolve⟩

end Resolver

end NameBinding
