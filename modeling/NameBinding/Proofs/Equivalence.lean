import NameBinding.Proofs.Precedence

/-!
When two lists of imports mean the same. References tell them apart by the last of the
single imports of a name, by what the other imports show under a name that is not
singly imported and, where qualifying asks for an import, by the modules imported. They
tell them apart by nothing else.
-/

namespace NameBinding

/-- With either list of imports a reference has one meaning, whatever the locals. -/
def SameMeaning (registry : Registry) (unit : Text) (options atUse : Options)
    (left right : List Import) : Prop :=
  ∀ locals reference,
    (Resolver.mk registry (ImportTable.build registry unit options left).1 locals
        atUse).resolve reference =
      (Resolver.mk registry (ImportTable.build registry unit options right).1 locals
        atUse).resolve reference

/-- Both lists of imports offer references the same. -/
structure OfferAlike (registry : Registry) (unit : Text) (options atUse : Options)
    (left right : List Import) : Prop where
  decided (name : Text) (context : Context) : name ≠ [] →
    Resolver.lastSingle? registry unit left name context =
      Resolver.lastSingle? registry unit right name context
  shown (name : Text) (context : Context) : name ≠ [] →
    Resolver.lastSingle? registry unit left name context = none →
      Resolver.shownUnder registry unit options left name context =
        Resolver.shownUnder registry unit options right name context
  imported (module : Text) : atUse.requireImport = true →
    (ImportTable.build registry unit options left).1.importsModule module =
      (ImportTable.build registry unit options right).1.importsModule module

theorem Outcome.tier?_ofTiers_none (shown : List Located) :
    (ofTiers [] none shown).tier? ≠ some .importedDeclaration := by
  match shown with
  | [] => simp [ofTiers, tier?]
  | [_] => simp [ofTiers, tier?]
  | _ :: _ :: _ => simp [ofTiers, tier?]

theorem Outcome.shown_ofTiers_none (shown : List Located) :
    (ofTiers [] none shown).symbol?.toList ++ (ofTiers [] none shown).candidates = shown := by
  match shown with
  | [] => rfl
  | [_] => rfl
  | _ :: _ :: _ => rfl

/-- Without locals an outcome gives away the single import that decides and, where
there is none, everything that is shown. -/
theorem Outcome.ofTiers_nil_inj {left right : Option Located} {shown other : List Located}
    (h : Outcome.ofTiers [] left shown = Outcome.ofTiers [] right other) :
    left = right ∧ (left = none → shown = other) := by
  cases left with
  | some symbol =>
      cases right with
      | some symbol' =>
          obtain rfl : symbol = symbol' := (Outcome.found.inj h).1
          exact ⟨rfl, fun hnone => nomatch hnone⟩
      | none => exact absurd (congrArg Outcome.tier? h).symm (tier?_ofTiers_none other)
  | none =>
      cases right with
      | some symbol' => exact absurd (congrArg Outcome.tier? h) (tier?_ofTiers_none shown)
      | none =>
          refine ⟨rfl, fun _ => ?_⟩
          rw [← shown_ofTiers_none shown, h, shown_ofTiers_none other]

theorem Import.lookup?_of_resolved {declaration : Import} {registry : Registry}
    {unit : Text} {options : Options}
    (h : (declaration.contribution registry unit options).status = .resolved) :
    ∃ scope, registry.lookup? declaration.module = some scope := by
  unfold contribution at h
  split at h
  · cases h
  · cases hscope : registry.lookup? declaration.module with
    | none =>
        rw [hscope] at h
        cases h
    | some scope => exact ⟨scope, rfl⟩

theorem ImportTable.importsModule_build_iff {registry : Registry} {unit : Text}
    {options : Options} {imports : List Import} {module : Text} :
    (build registry unit options imports).1.importsModule module = true ↔
      ∃ declaration ∈ imports,
        (declaration.contribution registry unit options).status = .resolved ∧
          declaration.module = module := by
  rw [importsModule_build, List.any_eq_true]
  simp only [Bool.and_eq_true, beq_iff_eq]

namespace Resolver

/-- Qualifying is refused for want of an import and for no other reason. -/
theorem qualified_eq_moduleNotImported_iff (resolver : Resolver) (scope : Scope)
    (name : Text) (rest : List Text) (context : Context) :
    resolver.qualified scope name rest context = .failed .moduleNotImported ↔
      resolver.options.requireImport = true ∧
        resolver.imports.importsModule scope.module.name = false := by
  unfold qualified
  cases resolver.options.requireImport <;>
    cases resolver.imports.importsModule scope.module.name
  case true.false => simp
  all_goals
    simp only [Bool.false_and, Bool.true_and, Bool.not_true, Bool.not_false,
      Bool.false_eq_true, if_false]
    generalize descend scope name rest = reached
    obtain ⟨inner, symbolName, members⟩ := reached
    dsimp only
    cases inner.search? resolver.options.reexport symbolName
        (if members.isEmpty then context else .any) with
    | none => cases members <;> simp
    | some symbol =>
        dsimp only
        cases symbol.follow? context members <;> simp

/-- A declaration has the members it has, so any other name is left to the module
spelled like it. -/
theorem exists_not_preferred (resolver : Resolver) (head : Text) :
    ∃ names : List Text, ∀ name ∉ names, ∀ context,
      resolver.preferredMember? head name [] context = none := by
  unfold preferredMember?
  cases resolver.search? head .any declarationTiers with
  | none => exact ⟨[], fun _ _ _ => rfl⟩
  | some found =>
      refine ⟨found.first.members.map (·.symbol.name), ?_⟩
      intro name hname context
      obtain ⟨tier, first, others⟩ := found
      cases others with
      | cons second rest => rfl
      | nil =>
          have hmissing : first.findMember? name context = none := by
            apply List.find?_eq_none.mpr
            intro member hmember hanswers
            apply hname
            simp only [Located.answers, Symbol.answers, Bool.and_eq_true, beq_iff_eq] at hanswers
            exact List.mem_map.mpr ⟨member, hmember, hanswers.1⟩
          simp [Match.follow?, Located.follow?, hmissing]

end Resolver

theorem exists_fresh (names : List Text) : ∃ name : Text, name ∉ names := by
  refine ⟨0 :: names.flatten, ?_⟩
  intro hmember
  have hlength := (List.sublist_flatten_of_mem hmember).length_le
  simp only [List.length_cons] at hlength
  omega

variable {registry : Registry} {unit : Text} {options atUse : Options}
  {left right : List Import}

theorem OfferAlike.sameMeaning (h : OfferAlike registry unit options atUse left right) :
    SameMeaning registry unit options atUse left right := by
  intro locals reference
  refine Resolver.resolve_congr (by rfl) ?_ ?_
  · intro hhead
    refine Resolver.searchAlike_of_candidates (by rfl) ?_ ?_
    · intro context
      rw [Resolver.importedDeclarations_build rfl, Resolver.importedDeclarations_build rfl,
        h.decided reference.head context hhead]
    · intro context hnone
      rw [Resolver.importedDeclarations_build rfl, Option.toList_eq_nil_iff] at hnone
      rw [Resolver.importedModuleSymbols_build rfl, Resolver.importedModuleSymbols_build rfl,
        h.shown reference.head context hhead hnone]
  · intro name rest _ _
    refine Resolver.throughModule?_congr (by rfl) (by rfl) ?_ name rest reference.context
    intro hrequire module
    exact h.imported module hrequire

/-- A module that only the left list imports is told by a path that only the module
could supply. -/
theorem SameMeaning.importsModule (hreach : registry.Reachable)
    (h : SameMeaning registry unit options atUse left right)
    (hrequire : atUse.requireImport = true) {module : Text}
    (hleft : (ImportTable.build registry unit options left).1.importsModule module = true) :
    (ImportTable.build registry unit options right).1.importsModule module = true := by
  obtain ⟨declaration, -, hresolved, rfl⟩ := ImportTable.importsModule_build_iff.mp hleft
  obtain ⟨scope, hscope⟩ := Import.lookup?_of_resolved hresolved
  obtain ⟨hname, -, hmodule, -⟩ := hreach.sound.lookup? hscope
  let before : Resolver :=
    ⟨registry, (ImportTable.build registry unit options left).1, {}, atUse⟩
  let after : Resolver :=
    ⟨registry, (ImportTable.build registry unit options right).1, {}, atUse⟩
  obtain ⟨leftNames, hleftNames⟩ := before.exists_not_preferred declaration.module
  obtain ⟨rightNames, hrightNames⟩ := after.exists_not_preferred declaration.module
  obtain ⟨name, hfresh⟩ := exists_fresh (leftNames ++ rightNames)
  rw [List.mem_append, not_or] at hfresh
  have hsame : before.resolve ⟨[declaration.module, name], .any, {}⟩ =
      after.resolve ⟨[declaration.module, name], .any, {}⟩ := h {} _
  rw [Resolver.resolve_dotted hname, Resolver.resolve_dotted hname,
    Resolver.dotted_of_lookup (hleftNames name hfresh.1 .any) hscope,
    Resolver.dotted_of_lookup (hrightNames name hfresh.2 .any) hscope] at hsame
  by_contra hright
  have hrefused := (after.qualified_eq_moduleNotImported_iff scope name [] .any).mpr
    ⟨hrequire, by rw [hmodule]; exact Bool.not_eq_true _ ▸ hright⟩
  rw [← hsame] at hrefused
  have hmissing := ((before.qualified_eq_moduleNotImported_iff scope name [] .any).mp
    hrefused).2
  rw [hmodule] at hmissing
  exact Bool.false_ne_true (hmissing.symm.trans hleft)

/-- Nothing but what a list of imports offers can be told by references, and all of
it can. -/
theorem sameMeaning_iff (hreach : registry.Reachable) :
    SameMeaning registry unit options atUse left right ↔
      OfferAlike registry unit options atUse left right := by
  refine ⟨fun h => ?_, OfferAlike.sameMeaning⟩
  have hoffer (name : Text) (context : Context) (hname : name ≠ []) := by
    have hsame := h {} ⟨[name], context, {}⟩
    rw [Resolver.resolve_singleton hname, Resolver.resolve_singleton hname,
      Resolver.unqualified_build rfl, Resolver.unqualified_build rfl] at hsame
    exact Outcome.ofTiers_nil_inj hsame
  refine ⟨fun name context hname => (hoffer name context hname).1,
    fun name context hname => (hoffer name context hname).2, ?_⟩
  intro module hrequire
  have hback : SameMeaning registry unit options atUse right left :=
    fun locals reference => (h locals reference).symm
  exact Bool.eq_iff_iff.mpr
    ⟨h.importsModule hreach hrequire, hback.importsModule hreach hrequire⟩

end NameBinding
