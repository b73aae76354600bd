import NameBinding.Proofs.Registry

/-!
Registries that differ in the contents of one module. A registered module might have
held anything else without a fault: there is a registry that came about in the same
way but for what that module holds.
-/

namespace NameBinding

namespace Registry

/-- Both registries have modules of the same names, and look-ups tell them apart under
`name` only. -/
structure AgreeExcept (left right : Registry) (name : Text) : Prop where
  contains (other : Text) : left.contains other = right.contains other
  lookup? (other : Text) : other ≠ name → left.lookup? other = right.lookup? other

theorem agreeExcept_register {registry : Registry} (h : registry.Sound)
    {module content : Module} (hmodule : registry.refusal? module = none)
    (hcontent : registry.refusal? content = none) (hname : content.name = module.name) :
    (registry.register module).AgreeExcept (registry.register content) module.name := by
  constructor
  · intro other
    rw [contains_register h hmodule, contains_register h hcontent, hname]
  · intro other hother
    rw [lookup?_register h hmodule, lookup?_register h hcontent, hname,
      if_neg (Ne.symm hother), if_neg (Ne.symm hother)]

theorem AgreeExcept.register {left right : Registry} {name : Text}
    (h : left.AgreeExcept right name) (hleft : left.Sound) (hright : right.Sound)
    {module : Module} (hacceptedLeft : left.refusal? module = none)
    (hacceptedRight : right.refusal? module = none) :
    (left.register module).AgreeExcept (right.register module) name := by
  constructor
  · intro other
    rw [contains_register hleft hacceptedLeft, contains_register hright hacceptedRight,
      h.contains other]
  · intro other hother
    rw [lookup?_register hleft hacceptedLeft, lookup?_register hright hacceptedRight,
      h.lookup? other hother]

/-- Any faultless contents may stand under a registered name, with all other modules
as they are. -/
theorem Reachable.exists_variant {registry : Registry} (h : registry.Reachable)
    {content : Module} (hfaultless : content.fault? content.name = none)
    (hknown : registry.contains content.name = true) :
    ∃ other : Registry, other.Reachable ∧ other.frozen = registry.frozen ∧
      registry.AgreeExcept other content.name ∧
      other.lookup? content.name = some (.ofModule (content.owned content.name)) := by
  induction h with
  | empty => simp [contains] at hknown
  | @register registry module hreach ih =>
      cases hrefusal : registry.refusal? module with
      | some refusal =>
          rw [register_of_refused hrefusal] at hknown ⊢
          obtain ⟨other, hother, hfrozen, hagree, hlookup⟩ := ih hknown
          exact ⟨other, hother, hfrozen, ⟨hagree.contains, hagree.lookup?⟩, hlookup⟩
      | none =>
          obtain ⟨hopen, hnonempty, hnew, -⟩ :=
            (refusal?_eq_none_iff registry module).mp hrefusal
          by_cases hname : content.name = module.name
          · have hcontent : registry.refusal? content = none := by
              rw [refusal?_eq_none_iff, hname]
              exact ⟨hopen, hnonempty, hnew, by rw [← hname]; exact hfaultless⟩
            refine ⟨registry.register content, .register content hreach, ?_, ?_, ?_⟩
            · rw [frozen_register, frozen_register]
            · rw [hname]
              exact agreeExcept_register hreach.sound hrefusal hcontent hname
            · rw [lookup?_register hreach.sound hcontent, if_pos rfl]
          · have hbefore : registry.contains content.name = true := by
              rw [contains_register hreach.sound hrefusal] at hknown
              simpa [Ne.symm hname] using hknown
            obtain ⟨other, hother, hfrozen, hagree, hlookup⟩ := ih hbefore
            have haccepted : other.refusal? module = none := by
              rw [← refusal?_congr hfrozen.symm (hagree.contains module.name)]
              exact hrefusal
            refine ⟨other.register module, .register module hother, ?_, ?_, ?_⟩
            · rw [frozen_register, frozen_register, hfrozen]
            · exact hagree.register hreach.sound hother.sound hrefusal haccepted
            · rw [lookup?_register hother.sound haccepted, if_neg (Ne.symm hname), hlookup]
  | @freeze registry _ ih =>
      obtain ⟨other, hother, -, hagree, hlookup⟩ := ih hknown
      exact ⟨other.freeze, .freeze hother, rfl, ⟨hagree.contains, hagree.lookup?⟩, hlookup⟩

end Registry

end NameBinding
