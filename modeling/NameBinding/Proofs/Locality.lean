import NameBinding.Proofs.Dependence
import NameBinding.Proofs.Registration

/-!
How much of a registry a unit reads. Only the modules that its imports name and that
its dotted references start with are looked up; in which order modules came, which others
there are and whether the registry is frozen makes no difference to a unit.
-/

namespace NameBinding

namespace Registry

/-- Both registries hold the same module of the name, or neither of them holds one. -/
def AgreeOn (left right : Registry) (name : Text) : Prop :=
  (name ∉ left.names ∧ name ∉ right.names) ∨
    ∃ module ∈ left.modules, module ∈ right.modules ∧ module.name = name

variable {left right : Registry}

theorem AgreeOn.lookup? (hleft : left.Sound) (hright : right.Sound) {name : Text}
    (h : left.AgreeOn right name) : left.lookup? name = right.lookup? name := by
  rcases h with ⟨habsent, habsent'⟩ | ⟨module, hmodule, hmodule', rfl⟩
  · rw [hleft.lookup?_eq_none_iff.mpr habsent, hright.lookup?_eq_none_iff.mpr habsent']
  · rw [hleft.lookup?_of_mem hmodule, hright.lookup?_of_mem hmodule']

/-- The order in which modules came is not part of what is held under a name. -/
theorem agreeOn_of_perm (h : left.modules.toList.Perm right.modules.toList) (name : Text) :
    left.AgreeOn right name := by
  have hnames : name ∈ left.names ↔ name ∈ right.names := (h.map (·.name)).mem_iff
  by_cases hknown : name ∈ left.names
  · obtain ⟨module, hmodule, hname⟩ := List.mem_map.mp hknown
    exact .inr ⟨module, Array.mem_toList_iff.mp hmodule,
      Array.mem_toList_iff.mp (h.mem_iff.mp hmodule), hname⟩
  · exact .inl ⟨hknown, fun hother => hknown (hnames.mpr hother)⟩

/-- One more module, taken or refused, is found under no name but its own. -/
theorem lookup?_register_of_ne (h : left.Sound) {module : Module} {name : Text}
    (hother : module.name ≠ name) :
    (left.register module).lookup? name = left.lookup? name := by
  cases hrefusal : left.refusal? module with
  | some refusal =>
      rw [register_of_refused hrefusal]
      rfl
  | none => rw [lookup?_register h hrefusal, if_neg hother]

end Registry

namespace SourceUnit

/-- The names under which resolving a unit looks for modules. -/
def asked (unit : SourceUnit) : List Text :=
  unit.imports.map (·.module) ++ (unit.references.filter (·.isDotted)).map (·.head)

theorem resolve_of_lookup? {unit : SourceUnit} {left right : Registry}
    (h : ∀ name ∈ unit.asked, left.lookup? name = right.lookup? name) (options : Options) :
    unit.resolve left options = unit.resolve right options := by
  have htable : ImportTable.build left unit.module options unit.imports =
      ImportTable.build right unit.module options unit.imports := by
    apply ImportTable.build_congr
    intro declaration hmember
    exact h declaration.module (List.mem_append_left _ (List.mem_map_of_mem hmember))
  apply resolve_congr htable
  intro reference hmember
  refine Resolver.resolve_of_lookup? rfl (congrArg Prod.fst htable) rfl ?_
  intro hdotted
  have hfiltered : reference ∈ unit.references.filter (·.isDotted) :=
    List.mem_filter.mpr ⟨hmember, hdotted⟩
  exact h reference.head (List.mem_append_right _ (List.mem_map_of_mem hfiltered))

/-- A unit is resolved alike, with its table, every outcome and every diagnostic, over any
two registries that agree on the names it asks for. So neither the order of the modules,
nor a module that it does not ask for, nor freezing is noticed. -/
theorem resolve_local (unit : SourceUnit) (options : Options) (registry : Registry)
    (hreach : registry.Reachable) :
    (∀ other : Registry, other.Reachable → (∀ name ∈ unit.asked, registry.AgreeOn other name) →
      unit.resolve other options = unit.resolve registry options) ∧
    (∀ other : Registry, other.Reachable →
      registry.modules.toList.Perm other.modules.toList →
        unit.resolve other options = unit.resolve registry options) ∧
    (∀ module : Module, module.name ∉ unit.asked →
      unit.resolve (registry.register module) options = unit.resolve registry options) ∧
    unit.resolve registry.freeze options = unit.resolve registry options := by
  have hagree (other : Registry) (hother : other.Reachable)
      (h : ∀ name ∈ unit.asked, registry.AgreeOn other name) :
      unit.resolve other options = unit.resolve registry options := by
    apply resolve_of_lookup?
    intro name hname
    exact ((h name hname).lookup? hreach.sound hother.sound).symm
  refine ⟨hagree, ?_, ?_, ?_⟩
  · intro other hother hperm
    exact hagree other hother fun name _ => Registry.agreeOn_of_perm hperm name
  · intro module hunasked
    apply resolve_of_lookup?
    intro name hname
    apply Registry.lookup?_register_of_ne hreach.sound
    rintro rfl
    exact hunasked hname
  · exact resolve_of_lookup? (fun _ _ => rfl) options

/-- A meet that takes both sports does not notice that they came the other way round, that
a third one came with them and that the registry is still open. -/
theorem resolve_meet_local :
    let meet : SourceUnit :=
      { module := "Meet"
        imports := [⟨"Triathlon", .everything, {}⟩, ⟨"Pentathlon", .everything, {}⟩]
        references := [⟨["swim"], .value, {}⟩, ⟨["Triathlon", "Relay", "Baton"], .type, {}⟩] }
    let biathlon : Module := { name := "Biathlon", symbols := [{ name := "swim" }] }
    let turned : Registry :=
      (({} : Registry).register Registry.pentathlon).register Registry.triathlon
    let more : Registry := turned.register biathlon
    Registry.sports.Reachable ∧ turned.Reachable ∧ more.Reachable ∧
      (∀ name ∈ meet.asked, Registry.sports.AgreeOn more name) ∧
      Registry.sports.modules.toList.Perm turned.modules.toList ∧
      biathlon.name ∉ meet.asked ∧
      meet.resolve more {} = meet.resolve .sports {} ∧
      meet.resolve turned {} = meet.resolve .sports {} ∧
      meet.resolve (turned.register biathlon) {} = meet.resolve turned {} ∧
      meet.resolve turned.freeze {} = meet.resolve turned {} ∧
      (meet.resolve .sports {}).references.map (·.outcome.status) = [.ambiguous, .resolved] := by
  intro meet biathlon turned more
  have hturned : turned.Reachable := .register _ (.register _ .empty)
  have hmore : more.Reachable := .register _ hturned
  have hperm : Registry.sports.modules.toList.Perm turned.modules.toList := .swap _ _ []
  have hunasked : biathlon.name ∉ meet.asked := by decide
  have htriathlon : Registry.sports.AgreeOn more "Triathlon" :=
    .inr ⟨Registry.triathlon.owned "Triathlon", Array.mem_of_getElem? (i := 0) rfl,
      Array.mem_of_getElem? (i := 1) rfl, rfl⟩
  have hpentathlon : Registry.sports.AgreeOn more "Pentathlon" :=
    .inr ⟨Registry.pentathlon.owned "Pentathlon", Array.mem_of_getElem? (i := 1) rfl,
      Array.mem_of_getElem? (i := 0) rfl, rfl⟩
  have hagree : ∀ name ∈ meet.asked, Registry.sports.AgreeOn more name := by
    simpa [meet, asked, Reference.isDotted, Reference.head] using
      ⟨htriathlon, hpentathlon, htriathlon⟩
  have hsports := resolve_local meet {} .sports Registry.sports_reachable
  have hopen := resolve_local meet {} turned hturned
  exact ⟨Registry.sports_reachable, hturned, hmore, hagree, hperm, hunasked,
    hsports.1 more hmore hagree, hsports.2.1 turned hturned hperm,
    hopen.2.2.1 biathlon hunasked, hopen.2.2.2, by decide⟩

end SourceUnit

end NameBinding
