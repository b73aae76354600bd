import NameBinding.Proofs.Qualification

/-!
The address of a declaration is the path of names that leads to its scope and then on to
it through members. Where no name of a scope has a dot, every scope is found under its
path and every declaration that is the first of its name under its address.
-/

namespace NameBinding

/-- The declaration that a use of `name` in `context` picks: it may be meant, and none of
those before it may. -/
def IsFirst (declarations : List Located) (name : Text) (context : Context)
    (target : Located) : Prop :=
  ∃ before after, declarations = before ++ target :: after ∧
    target.symbol.name = name ∧ target.symbol.kind.fits context = true ∧
    ∀ other ∈ before, other.symbol.name = name → other.symbol.kind.fits context = false

/-- Names pick a declaration one after the other: the first one the first that has it,
and every other the first that has it among the members of what was picked before. Only
the last pick has to fit the context. -/
inductive Picks (context : Context) : List Located → List Text → Located → Prop where
  | last {declarations : List Located} {name : Text} {target : Located} :
      IsFirst declarations name context target → Picks context declarations [name] target
  | member {declarations : List Located} {name next : Text} {rest : List Text}
      {first target : Located} :
      IsFirst declarations name .any first →
        Picks context first.members (next :: rest) target →
          Picks context declarations (name :: next :: rest) target

theorem find?_eq_some_iff_isFirst {declarations : List Located} {name : Text}
    {context : Context} {target : Located} :
    declarations.find? (·.answers name context) = some target ↔
      IsFirst declarations name context target := by
  rw [List.find?_eq_some_iff_append]
  simp only [IsFirst, Located.answers, Symbol.answers, Bool.and_eq_true, beq_iff_eq,
    Bool.not_eq_true', Bool.and_eq_false_imp]
  constructor
  · rintro ⟨⟨hname, hfits⟩, before, after, hsplit, hbefore⟩
    exact ⟨before, after, hsplit, hname, hfits, hbefore⟩
  · rintro ⟨before, after, hsplit, hname, hfits, hbefore⟩
    exact ⟨⟨hname, hfits⟩, before, after, hsplit, hbefore⟩

/-- Going down through members is picking among the members. -/
theorem Located.follow?_eq_some_iff {located target : Located} {context : Context}
    {name : Text} {rest : List Text} :
    located.follow? context (name :: rest) = some target ↔
      Picks context located.members (name :: rest) target := by
  induction rest generalizing located name with
  | nil =>
      constructor
      · intro h
        exact .last (find?_eq_some_iff_isFirst.mp h)
      · rintro (hfirst | _)
        exact find?_eq_some_iff_isFirst.mpr hfirst
  | cons next rest ih =>
      unfold follow?
      rw [Option.bind_eq_some_iff]
      constructor
      · rintro ⟨first, hfirst, htarget⟩
        exact .member (find?_eq_some_iff_isFirst.mp hfirst) (ih.mp htarget)
      · rintro (_ | ⟨hfirst, htarget⟩)
        exact ⟨_, find?_eq_some_iff_isFirst.mpr hfirst, ih.mpr htarget⟩

/-- The first pick is made in a scope and the others below it. -/
theorem Scope.exists_find?_of_picks {scope : Scope} {context : Context} {name : Text}
    {rest : List Text} {target : Located}
    (h : Picks context scope.symbols (name :: rest) target) :
    ∃ symbol, scope.find? name (if rest.isEmpty then context else .any) = some symbol ∧
      symbol.follow? context rest = some target := by
  cases h with
  | last hfirst => exact ⟨target, find?_eq_some_iff_isFirst.mpr hfirst, rfl⟩
  | member hfirst htarget =>
      exact ⟨_, find?_eq_some_iff_isFirst.mpr hfirst, Located.follow?_eq_some_iff.mpr htarget⟩

namespace Scope

/-- A path of names without dots is gone down child by child. -/
theorem findSubmodule?_of_leads {outer inner : Scope} {path : List Text} (hpath : path ≠ [])
    (hnames : outer.WellNamed) (hplain : outer.Plain) (h : outer.Leads path inner) :
    outer.findSubmodule? (Text.dotted path) = some inner := by
  rw [findSubmodule?, Text.parts_dotted hpath (hplain.path h)]
  clear hpath hplain
  induction h with
  | here => rfl
  | down hstep _ ih =>
      rw [List.foldlM_cons, child?_of_mem (hnames _ _ (.here _)) hstep]
      exact ih (hnames.inner (leads_of_mem hstep))

/-- Kind and name tell which symbol of a scope is meant. -/
theorem findDeclared?_of_mem {scope : Scope} (h : scope.module.WellNamed)
    {located : Located} (hlocated : located ∈ scope.symbols) :
    scope.findDeclared? located.symbol.kind located.symbol.name = some located := by
  cases hfound : scope.findDeclared? located.symbol.kind located.symbol.name with
  | none => simpa using List.find?_eq_none.mp hfound located hlocated
  | some other =>
      have hkey : other.symbol.kind = located.symbol.kind ∧
          other.symbol.name = located.symbol.name := by
        simpa using List.find?_some hfound
      rw [eq_of_key h (List.mem_of_find?_eq_some hfound) hlocated hkey.1 hkey.2]

end Scope

namespace Registry

/-- Every scope of a registry is found under its path, and in it every symbol under its
kind and name. A reference that spells the path of the scope and goes on with names that
pick a declaration there means this declaration, if nothing that the unit declares or
imports singly is spelled like the module and an import is not missed. -/
theorem resolve_address (registry : Registry) (hreach : registry.Reachable)
    (hplain : registry.PlainNames) (module : Module) (hmodule : module ∈ registry.modules)
    (path : List Text) (scope : Scope) (hscope : (Scope.ofModule module).Leads path scope) :
    (path = [] → registry.lookup module.name = .ok scope) ∧
    (path ≠ [] → registry.lookupSubmodule module.name (Text.dotted path) = .ok scope) ∧
    (∀ located ∈ scope.symbols,
      scope.findDeclared? located.symbol.kind located.symbol.name = some located) ∧
    ∀ (unit : Text) (options atUse : Options) (imports : List Import) (locals : Locals),
      let resolver : Resolver :=
        ⟨registry, (ImportTable.build registry unit options imports).1, locals, atUse⟩
      ¬ resolver.Declares module.name →
        (atUse.requireImport = true → resolver.imports.importsModule module.name = true) →
          ∀ (name : Text) (rest : List Text) (context : Context) (span : Span)
            (target : Located),
            Picks context scope.symbols (name :: rest) target →
              (rest ≠ [] → scope.findSubmodule? name = none) →
                resolver.resolve ⟨module.name :: path ++ name :: rest, context, span⟩ =
                  .found target none := by
  have hlookup := hreach.sound.lookup?_of_mem hmodule
  have hnames := Registry.Reachable.wellNamed hreach hlookup
  refine ⟨?_, ?_, ?_, ?_⟩
  · rintro rfl
    cases hscope
    exact lookup_eq_ok_iff.mpr hlookup
  · intro hpath
    rw [lookupSubmodule, hlookup]
    simp [Scope.findSubmodule?_of_leads hpath hnames (hplain module hmodule) hscope]
  · intro located hlocated
    exact Scope.findDeclared?_of_mem (hnames _ _ hscope) hlocated
  · intro unit options atUse imports locals resolver hundeclared hallowed name rest context
      span target hpicks hstop
    obtain ⟨symbol, hsymbol, htarget⟩ := Scope.exists_find?_of_picks hpicks
    obtain ⟨next, others, hpath⟩ : ∃ next others, path ++ name :: rest = next :: others :=
      List.exists_cons_of_ne_nil (by simp)
    have hhead := hreach.sound.named module hmodule
    have hpreferred : resolver.preferredMember? module.name next others context = none :=
      Resolver.preferredMember?_of_not_declares
        (ImportTable.after_indexed registry unit options imports) hundeclared next others context
    have hregistry : resolver.registry = registry := rfl
    have hthrough : resolver.throughModule? module.name next others context =
        some (.found target none) :=
      Resolver.throughModule?_of_leads hreach hplain hregistry ⟨_, hlookup, hscope⟩ hallowed
        hstop hsymbol htarget hpath
    rw [List.cons_append, hpath, Resolver.resolve_dotted hhead, Resolver.dotted_eq, hpreferred,
      hthrough]

/-- The pass of a baton is a member of a type in a submodule. -/
theorem resolve_pass_address :
    let relay : Module :=
      { name := "Relay"
        symbols :=
          [{ name := "Baton", kind := .enumType, owner := "Triathlon.Relay"
             members := [{ name := "pass", owner := "Triathlon.Relay" }] }] }
    let scope : Scope := ⟨.inside (.root "Triathlon") 0, relay⟩
    let options : Options := { reexport := true, requireImport := true }
    let resolver : Resolver :=
      ⟨sports, (ImportTable.build sports "Meet" options [⟨"Triathlon", .everything, {}⟩]).1, {},
        options⟩
    let pass : Located :=
      ⟨.member (.exported scope.place 0) 0, { name := "pass", owner := "Triathlon.Relay" }⟩
    sports.Reachable ∧ sports.PlainNames ∧ triathlon.owned "Triathlon" ∈ sports.modules ∧
      (Scope.ofModule (triathlon.owned "Triathlon")).Leads ["Relay"] scope ∧
      sports.lookupSubmodule "Triathlon" "Relay" = .ok scope ∧
      ¬ resolver.Declares "Triathlon" ∧ resolver.imports.importsModule "Triathlon" = true ∧
      Picks .value scope.symbols ["Baton", "pass"] pass ∧
      scope.findSubmodule? "Baton" = none ∧
      resolver.resolve ⟨["Triathlon", "Relay", "Baton", "pass"], .value, {}⟩ =
        .found pass none := by
  intro relay scope options resolver pass
  have hplain : sports.PlainNames := by decide
  have hmodule : triathlon.owned "Triathlon" ∈ sports.modules :=
    Array.mem_of_getElem? (i := 0) rfl
  have hchild : scope ∈ (Scope.ofModule (triathlon.owned "Triathlon")).submodules :=
    List.mem_mapIdx.mpr ⟨0, by decide, rfl⟩
  have hscope := Scope.leads_of_mem hchild
  have hundeclared : ¬ resolver.Declares "Triathlon" := by decide
  have himported : resolver.imports.importsModule "Triathlon" = true := by
    decide +kernel
  have hpicks : Picks .value scope.symbols ["Baton", "pass"] pass :=
    .member ⟨[], [], rfl, rfl, rfl, by simp⟩ (.last ⟨[], [], rfl, rfl, rfl, by simp⟩)
  obtain ⟨-, hlookup, -, hresolve⟩ :=
    resolve_address sports sports_reachable hplain _ hmodule ["Relay"] scope hscope
  have hnone : scope.findSubmodule? "Baton" = none := rfl
  exact ⟨sports_reachable, hplain, hmodule, hscope, hlookup (by decide), hundeclared, himported,
    hpicks, hnone, hresolve "Meet" options options [⟨"Triathlon", .everything, {}⟩] {}
      hundeclared (fun _ => himported) "Baton" ["pass"] .value {} pass hpicks (fun _ => hnone)⟩

end Registry

end NameBinding
