import NameBinding.Proofs.Equivalence

/-!
Deleting an import declaration. A warning that a declaration is redundant says that
its text stands above it already. Whether it can be deleted is another question: a
single import that is repeated decides its name once more, over all single imports
in between, and two different declarations may have one text.
-/

namespace NameBinding

theorem getLast?_append_middle {α : Type} {before middle after : List α} :
    (before ++ middle ++ after).getLast? = (before ++ after).getLast? ↔
      middle = [] ∨ after ≠ [] ∨ before.getLast? = middle.getLast? := by
  cases after using List.reverseRecOn with
  | append_singleton earlier last => simp [← List.append_assoc]
  | nil =>
      cases middle using List.reverseRecOn with
      | nil => simp
      | append_singleton earlier last =>
          rw [List.append_nil, List.append_nil, ← List.append_assoc, List.getLast?_concat,
            List.getLast?_concat]
          constructor
          · intro h
            exact .inr (.inr h.symm)
          · rintro (h | h | h)
            · exact absurd h (by simp)
            · exact absurd rfl h
            · exact h.symm

namespace ImportTable

variable (registry : Registry) (unit : Text) (options : Options)

/-- The diagnostics that a declaration adds to those of the declarations before. -/
def added (before : List Import) (declaration : Import) : List Diagnostic :=
  (build registry unit options (before ++ [declaration])).2.drop
    (build registry unit options before).2.length

theorem added_eq (before : List Import) (declaration : Import) :
    added registry unit options before declaration =
      (after registry unit options before).warnings unit options declaration ++
        (declaration.contribution registry unit options).diagnostics declaration := by
  unfold added
  rw [build_eq_after, build_eq_after, after_append_singleton]
  simp [Build.add, List.append_assoc]

theorem diagnostics_append_singleton (before : List Import) (declaration : Import) :
    (build registry unit options (before ++ [declaration])).2 =
      (build registry unit options before).2 ++
        added registry unit options before declaration := by
  rw [added_eq, build_eq_after, build_eq_after, after_append_singleton]
  simp [Build.add, List.append_assoc]

/-- The warning says that something of the same text stands above. -/
theorem redundant_mem_added_iff (before : List Import) (declaration : Import) :
    declaration.redundant ∈ added registry unit options before declaration ↔
      declaration.isSelf unit = false ∧ options.reportRedundant = true ∧
        ∃ earlier ∈ before,
          earlier.isSelf unit = false ∧ earlier.describe = declaration.describe := by
  have herror : declaration.redundant ∉
      (declaration.contribution registry unit options).diagnostics declaration := by
    cases declaration.contribution registry unit options with
    | ok symbols => simp [Contribution.diagnostics]
    | error fault => simp [Contribution.diagnostics, Import.redundant, ImportFault.diagnostic]
  rw [added_eq, List.mem_append, or_iff_left herror, Build.warnings,
    ← after_seen registry unit options]
  cases declaration.isSelf unit <;> cases options.reportRedundant <;> simp

end ImportTable

namespace Resolver

/-- What imports show under a name beyond what the imports before them show. -/
def newlyShown (registry : Registry) (unit : Text) (options : Options)
    (before imports : List Import) (name : Text) (context : Context) : List Located :=
  (((opened registry unit options imports).filter (·.answers name context)).removeAll
    ((opened registry unit options before).filter (·.answers name context))).eraseDups

end Resolver

namespace Import

section Spared

variable (registry : Registry) (unit : Text) (options : Options) (before : List Import)
  (declaration : Import) (later : List Import)

/-- Without the declaration every name has the single import it had: wherever the
declaration names a symbol, a later single import hides it, or the last one before
names that very symbol. -/
def SingleSpared : Prop :=
  ∀ symbol, declaration.singleSymbol? registry unit = some symbol →
    ∀ name context, name ≠ [] → symbol.answers name context = true →
      (∃ other ∈ Resolver.singles registry unit later, other.answers name context = true) ∨
        Resolver.lastSingle? registry unit before name context = some symbol

/-- Without the declaration the other imports show the same symbols in the same order
under every name that no single import decides. -/
def ShownSpared : Prop :=
  ∀ name context, name ≠ [] →
    Resolver.lastSingle? registry unit (before ++ later) name context = none →
      Resolver.newlyShown registry unit options before [declaration] name context <+:
        Resolver.newlyShown registry unit options before later name context

/-- The module of the declaration is imported without it. -/
def AccessSpared : Prop :=
  (declaration.contribution registry unit options).status = .resolved →
    ∃ other ∈ before ++ later,
      (other.contribution registry unit options).status = .resolved ∧
        other.module = declaration.module

end Spared

end Import

section Deletion

variable {registry : Registry} {unit : Text} {options atUse : Options}
  {before later : List Import} {declaration : Import}

theorem lastSingle?_delete_iff (name : Text) (context : Context) :
    Resolver.lastSingle? registry unit (before ++ declaration :: later) name context =
        Resolver.lastSingle? registry unit (before ++ later) name context ↔
      ∀ symbol, declaration.singleSymbol? registry unit = some symbol →
        symbol.answers name context = true →
          (∃ other ∈ Resolver.singles registry unit later,
            other.answers name context = true) ∨
            Resolver.lastSingle? registry unit before name context = some symbol := by
  have hsingles : Resolver.singles registry unit (before ++ declaration :: later) =
      Resolver.singles registry unit before ++
        (declaration.singleSymbol? registry unit).toList ++
          Resolver.singles registry unit later := by
    cases hsingle : declaration.singleSymbol? registry unit <;>
      simp [Resolver.singles, hsingle]
  have hrest : Resolver.singles registry unit (before ++ later) =
      Resolver.singles registry unit before ++ Resolver.singles registry unit later := by
    simp [Resolver.singles]
  unfold Resolver.lastSingle?
  rw [hsingles, hrest, List.filter_append, List.filter_append, List.filter_append,
    getLast?_append_middle]
  cases declaration.singleSymbol? registry unit with
  | none => simp
  | some symbol =>
      cases hanswers : symbol.answers name context with
      | false => simp [hanswers]
      | true => simp [hanswers]

theorem shownUnder_delete_iff (name : Text) (context : Context) :
    Resolver.shownUnder registry unit options (before ++ declaration :: later) name context =
        Resolver.shownUnder registry unit options (before ++ later) name context ↔
      Resolver.newlyShown registry unit options before [declaration] name context <+:
        Resolver.newlyShown registry unit options before later name context := by
  have hopened (imports others : List Import) :
      Resolver.opened registry unit options (imports ++ others) =
        Resolver.opened registry unit options imports ++
          Resolver.opened registry unit options others := by
    simp [Resolver.opened]
  have hsplit : before ++ declaration :: later = before ++ [declaration] ++ later := by simp
  unfold Resolver.shownUnder Resolver.newlyShown
  rw [hsplit, hopened, hopened, hopened, List.filter_append, List.filter_append,
    List.filter_append, eraseDups_append_middle]

theorem importsModule_delete_iff :
    (∀ module,
      (ImportTable.build registry unit options (before ++ declaration :: later)).1.importsModule
          module =
        (ImportTable.build registry unit options (before ++ later)).1.importsModule module) ↔
      declaration.AccessSpared registry unit options before later := by
  constructor
  · intro h hresolved
    apply ImportTable.importsModule_build_iff.mp
    rw [← h declaration.module]
    exact ImportTable.importsModule_build_iff.mpr ⟨declaration, by simp, hresolved, rfl⟩
  · intro h module
    rw [Bool.eq_iff_iff, ImportTable.importsModule_build_iff,
      ImportTable.importsModule_build_iff]
    constructor
    · rintro ⟨other, hmember, hresolved, rfl⟩
      rcases List.mem_append.mp hmember with hbefore | hrest
      · exact ⟨other, List.mem_append_left later hbefore, hresolved, rfl⟩
      · rcases List.mem_cons.mp hrest with rfl | hlater
        · exact h hresolved
        · exact ⟨other, List.mem_append_right before hlater, hresolved, rfl⟩
    · rintro ⟨other, hmember, hother⟩
      refine ⟨other, ?_, hother⟩
      rcases List.mem_append.mp hmember with hbefore | hlater
      · exact List.mem_append_left _ hbefore
      · exact List.mem_append_right _ (List.mem_cons_of_mem declaration hlater)

/-- A declaration can be deleted exactly if it decides no name that would mean
something else, shows nothing first and is not the only one to import its module. -/
theorem sameMeaning_delete_iff (hreach : registry.Reachable) :
    SameMeaning registry unit options atUse (before ++ declaration :: later)
        (before ++ later) ↔
      declaration.SingleSpared registry unit before later ∧
        declaration.ShownSpared registry unit options before later ∧
          (atUse.requireImport = true →
            declaration.AccessSpared registry unit options before later) := by
  rw [sameMeaning_iff hreach]
  constructor
  · intro h
    refine ⟨?_, ?_, ?_⟩
    · intro symbol hsymbol name context hname
      exact (lastSingle?_delete_iff name context).mp (h.decided name context hname) symbol
        hsymbol
    · intro name context hname hnone
      rw [← h.decided name context hname] at hnone
      exact (shownUnder_delete_iff name context).mp (h.shown name context hname hnone)
    · intro hrequire
      exact importsModule_delete_iff.mp fun module => h.imported module hrequire
  · rintro ⟨hsingle, hshown, haccess⟩
    have hdecided (name : Text) (context : Context) (hname : name ≠ []) :=
      (lastSingle?_delete_iff name context).mpr fun symbol hsymbol =>
        hsingle symbol hsymbol name context hname
    refine ⟨hdecided, ?_, ?_⟩
    · intro name context hname hnone
      rw [hdecided name context hname] at hnone
      exact (shownUnder_delete_iff name context).mpr (hshown name context hname hnone)
    · intro module hrequire
      exact importsModule_delete_iff.mpr (haccess hrequire) module

/-- What a declaration of the same module and target shows and lets qualify is there
already; only the single import counts, since its position does. -/
theorem spared_of_repeated {earlier : Import} (hearlier : earlier ∈ before)
    (hmodule : earlier.module = declaration.module)
    (htarget : earlier.target = declaration.target) :
    declaration.ShownSpared registry unit options before later ∧
      declaration.AccessSpared registry unit options before later := by
  obtain ⟨module, target, other⟩ := earlier
  obtain ⟨_, _, span⟩ := declaration
  dsimp only at hmodule htarget
  subst hmodule
  subst htarget
  constructor
  · intro name context _ _
    have hnothing : Resolver.newlyShown registry unit options before
        [⟨module, target, span⟩] name context = [] := by
      have hremoved : ((Resolver.opened registry unit options [⟨module, target, span⟩]).filter
          (·.answers name context)).removeAll
            ((Resolver.opened registry unit options before).filter
              (·.answers name context)) = [] := by
        rw [List.removeAll, List.filter_eq_nil_iff]
        intro located hlocated
        obtain ⟨hopened, hanswers⟩ := List.mem_filter.mp hlocated
        obtain ⟨repeated, hrepeated, hexposed⟩ := List.mem_flatMap.mp hopened
        obtain rfl := List.mem_singleton.mp hrepeated
        have hbefore : located ∈ Resolver.opened registry unit options before :=
          List.mem_flatMap.mpr ⟨⟨module, target, other⟩, hearlier, hexposed⟩
        simp [hbefore, hanswers]
      rw [Resolver.newlyShown, hremoved, List.eraseDups_nil]
    rw [hnothing]
    exact List.nil_prefix
  · intro hresolved
    exact ⟨⟨module, target, other⟩, List.mem_append_left later hearlier, hresolved, rfl⟩

end Deletion

/-- A warning is right in that an import above has the same text. The declaration can
then be deleted exactly if its single import, what it shows and its module are spared.
If the import above names the same module and target, its single import alone counts. -/
theorem delete_redundant_iff (registry : Registry) (hreach : registry.Reachable)
    (unit : Text) (options atUse : Options) (before later : List Import)
    (declaration : Import)
    (hwarned : declaration.redundant ∈
      ImportTable.added registry unit options before declaration) :
    (∃ earlier ∈ before,
      earlier.isSelf unit = false ∧ earlier.describe = declaration.describe) ∧
    (SameMeaning registry unit options atUse (before ++ declaration :: later)
        (before ++ later) ↔
      declaration.SingleSpared registry unit before later ∧
        declaration.ShownSpared registry unit options before later ∧
          (atUse.requireImport = true →
            declaration.AccessSpared registry unit options before later)) ∧
    ((∃ earlier ∈ before,
        earlier.module = declaration.module ∧ earlier.target = declaration.target) →
      (SameMeaning registry unit options atUse (before ++ declaration :: later)
          (before ++ later) ↔
        declaration.SingleSpared registry unit before later)) := by
  refine ⟨?_, sameMeaning_delete_iff hreach, ?_⟩
  · exact ((ImportTable.redundant_mem_added_iff registry unit options before
      declaration).mp hwarned).2.2
  · rintro ⟨earlier, hearlier, hmodule, htarget⟩
    obtain ⟨hshown, haccess⟩ := spared_of_repeated hearlier hmodule htarget
    rw [sameMeaning_delete_iff hreach]
    exact ⟨fun h => h.1, fun h => ⟨h, hshown, fun _ => haccess⟩⟩

/-- The third import says again what the first says and takes `swim` back from the
second. -/
theorem delete_repeated_swim_iff :
    let swim (sport : Text) : Import := ⟨sport, .symbol .function "swim", {}⟩
    let before : List Import := [swim "Triathlon", swim "Pentathlon"]
    Registry.sports.Reachable ∧
      (swim "Triathlon").redundant ∈
        ImportTable.added .sports "Meet" {} before (swim "Triathlon") ∧
      (∃ earlier ∈ before, earlier.module = (swim "Triathlon").module ∧
        earlier.target = (swim "Triathlon").target) ∧
      (SameMeaning .sports "Meet" {} {} (before ++ [swim "Triathlon"]) (before ++ []) ↔
        (swim "Triathlon").SingleSpared .sports "Meet" before []) := by
  intro swim before
  have hwarned : (swim "Triathlon").redundant ∈
      ImportTable.added .sports "Meet" {} before (swim "Triathlon") := by decide
  have hrepeated : ∃ earlier ∈ before, earlier.module = (swim "Triathlon").module ∧
      earlier.target = (swim "Triathlon").target := by decide
  obtain ⟨-, -, hiff⟩ := delete_redundant_iff .sports Registry.sports_reachable "Meet" {} {}
    before [] (swim "Triathlon") hwarned
  exact ⟨Registry.sports_reachable, hwarned, hrepeated, hiff hrepeated⟩

/-- Two ways in which a warned declaration is missed: it is the last single import of
a name, or it only has the text of another. -/
theorem redundant_import_missed :
    (let swim (sport : Text) : Import := ⟨sport, .symbol .function "swim", {}⟩
      let before : List Import := [swim "Triathlon", swim "Pentathlon"]
      Registry.sports.Reachable ∧
        (swim "Triathlon").redundant ∈
          ImportTable.added .sports "Meet" {} before (swim "Triathlon") ∧
        ¬ SameMeaning .sports "Meet" {} {} (before ++ [swim "Triathlon"]) before) ∧
      let relays : Registry := (({} : Registry).register Registry.triathlon).register
        { name := "Triathlon.Relay", symbols := [{ name := "handoff" }] }
      let before : List Import := [⟨"Triathlon", .submodule "Relay", {}⟩]
      let declaration : Import := ⟨"Triathlon.Relay", .everything, {}⟩
      relays.Reachable ∧
        declaration.redundant ∈ ImportTable.added relays "Meet" {} before declaration ∧
        ¬ SameMeaning relays "Meet" {} {} (before ++ [declaration]) before := by
  refine ⟨⟨Registry.sports_reachable, by decide, ?_⟩, ?_⟩
  · intro h
    have hswim := h {} ⟨["swim"], .any, {}⟩
    revert hswim
    decide
  · refine ⟨.register _ (.register _ .empty), by decide, ?_⟩
    intro h
    have hhandoff := h {} ⟨["handoff"], .any, {}⟩
    revert hhandoff
    decide

end NameBinding
