import NameBinding.Proofs.Place
import Mathlib.Data.List.Basic
import Mathlib.Data.List.Induction

/-!
Lists in which each element stands once, where it comes first. For symbols of one
registry it makes no difference whether they are told apart by all there is to them
or by their places.
-/

namespace NameBinding

section Lists

variable {α : Type}

theorem eraseDupsBy_congr {left right : α → α → Bool} :
    (list : List α) → (∀ a ∈ list, ∀ b ∈ list, left a b = right a b) →
      list.eraseDupsBy left = list.eraseDupsBy right
  | [], _ => rfl
  | first :: rest, h => by
    have hfilter : (rest.filter fun b => left b first = false) =
        rest.filter fun b => right b first = false := by
      apply List.filter_congr
      intro b hb
      rw [h b (by simp [hb]) first (by simp)]
    rw [List.eraseDupsBy_cons, List.eraseDupsBy_cons, hfilter]
    congr 1
    apply eraseDupsBy_congr
    intro a ha b hb
    exact h a (by simp [List.mem_of_mem_filter ha]) b (by simp [List.mem_of_mem_filter hb])
termination_by list => list.length
decreasing_by exact Nat.lt_succ_of_le (List.length_filter_le _ _)

variable [BEq α] [LawfulBEq α]

theorem nodup_eraseDups :
    (list : List α) → list.eraseDups.Nodup
  | [] => List.nodup_nil
  | first :: rest => by
    rw [List.eraseDups_cons, List.nodup_cons, List.mem_eraseDups]
    refine ⟨?_, nodup_eraseDups (rest.filter fun b => !b == first)⟩
    intro hfirst
    simpa using (List.mem_filter.mp hfirst).2
termination_by list => list.length
decreasing_by exact Nat.lt_succ_of_le (List.length_filter_le _ _)

theorem eraseDups_filter (p : α → Bool) :
    (list : List α) → (list.filter p).eraseDups = list.eraseDups.filter p
  | [] => rfl
  | first :: rest => by
    have hrest := eraseDups_filter p (rest.filter fun b => !b == first)
    rw [List.eraseDups_cons, List.filter_cons, List.filter_cons, ← hrest]
    cases hfirst : p first with
    | true =>
        rw [if_pos rfl, if_pos rfl, List.eraseDups_cons, List.filter_filter,
          List.filter_filter]
        simp only [Bool.and_comm]
    | false =>
        rw [if_neg Bool.false_ne_true, if_neg Bool.false_ne_true, List.filter_filter]
        congr 1
        apply List.filter_congr
        intro b _
        by_cases hb : b = first
        · simp [hb, hfirst]
        · simp [hb]
termination_by list => list.length
decreasing_by exact Nat.lt_succ_of_le (List.length_filter_le _ _)

/-- In whichever order elements come, the same of them stand once. -/
theorem perm_eraseDups {left right : List α} (h : left.Perm right) :
    left.eraseDups.Perm right.eraseDups := by
  rw [List.perm_ext_iff_of_nodup (nodup_eraseDups left) (nodup_eraseDups right)]
  intro a
  rw [List.mem_eraseDups, List.mem_eraseDups, h.mem_iff]

theorem eraseDups_append_singleton (before : List α) (last : α) :
    (before ++ [last]).eraseDups =
      before.eraseDups ++ if before.contains last then [] else [last] := by
  rw [List.eraseDups_append, List.removeAll, List.filter_singleton, List.elem_eq_contains]
  cases before.contains last <;> simp [List.eraseDups_cons]

theorem eraseDups_of_nodup {list : List α} (h : list.Nodup) : list.eraseDups = list := by
  induction list with
  | nil => rfl
  | cons first rest ih =>
      obtain ⟨hfirst, hrest⟩ := List.nodup_cons.mp h
      have hfilter : (rest.filter fun b => !b == first) = rest := by
        rw [List.filter_eq_self]
        intro b hb
        simpa using fun hsame : b = first => hfirst (hsame ▸ hb)
      rw [List.eraseDups_cons, hfilter, ih hrest]

/-- Elements keep the order in which they first come. -/
theorem pairwise_idxOf_eraseDups (list : List α) :
    list.eraseDups.Pairwise fun earlier later => list.idxOf earlier < list.idxOf later := by
  induction list using List.reverseRecOn with
  | nil => exact .nil
  | append_singleton before last ih =>
      have hbefore : before.eraseDups.Pairwise fun earlier later =>
          (before ++ [last]).idxOf earlier < (before ++ [last]).idxOf later := by
        refine ih.imp_of_mem fun hearlier hlater hlt => ?_
        rwa [List.idxOf_append_of_mem (List.mem_eraseDups.mp hearlier),
          List.idxOf_append_of_mem (List.mem_eraseDups.mp hlater)]
      rw [eraseDups_append_singleton]
      by_cases hlast : last ∈ before
      · simpa [hlast] using hbefore
      · rw [if_neg (by simpa using hlast)]
        refine List.pairwise_append.mpr ⟨hbefore, List.pairwise_singleton _ _, ?_⟩
        intro earlier hearlier later hlater
        have hmem := List.mem_eraseDups.mp hearlier
        rw [List.mem_singleton.mp hlater, List.idxOf_append_of_mem hmem,
          List.idxOf_append_of_notMem hlast]
        exact Nat.lt_of_lt_of_le (List.idxOf_lt_length_of_mem hmem) (Nat.le_add_right _ _)

/-- Elements put in front are noticed unless they come first anyway. -/
theorem eraseDups_append_eq_iff {middle after : List α} :
    (middle ++ after).eraseDups = after.eraseDups ↔
      middle.eraseDups <+: after.eraseDups := by
  rw [List.eraseDups_append]
  constructor
  · intro h
    rw [← h]
    exact List.prefix_append _ _
  · rintro ⟨rest, hrest⟩
    rw [← hrest, List.append_cancel_left_eq, List.removeAll, eraseDups_filter, ← hrest,
      List.filter_append]
    have hnodup : (middle.eraseDups ++ rest).Nodup := hrest ▸ nodup_eraseDups after
    have hfront : (middle.eraseDups.filter fun a => !middle.elem a) = [] := by
      rw [List.filter_eq_nil_iff]
      intro a ha
      simpa using List.mem_eraseDups.mp ha
    have hback : (rest.filter fun a => !middle.elem a) = rest := by
      rw [List.filter_eq_self]
      intro a ha
      have hother := (List.nodup_append.mp hnodup).2.2
      have habsent : a ∉ middle := by
        intro hmiddle
        exact hother a (List.mem_eraseDups.mpr hmiddle) a ha rfl
      simpa using habsent
    rw [hfront, hback, List.nil_append]

theorem eraseDups_append_middle {before middle after : List α} :
    (before ++ middle ++ after).eraseDups = (before ++ after).eraseDups ↔
      (middle.removeAll before).eraseDups <+: (after.removeAll before).eraseDups := by
  rw [List.append_assoc, List.eraseDups_append, List.eraseDups_append,
    List.append_cancel_left_eq, ← eraseDups_append_eq_iff]
  simp only [List.removeAll, List.filter_append]

end Lists

/-- Each symbol once, where it comes first. Two symbols are the same if they
stand at the same place. -/
def distinct (symbols : List Located) : List Located :=
  symbols.eraseDupsBy fun later earlier => later.place == earlier.place

/-- Where places tell symbols apart, equal symbols are those of one place. -/
theorem eraseDups_eq_distinct {registry : Registry} {locals : Locals}
    {symbols : List Located} (h : ∀ located ∈ symbols, located.Placed registry locals) :
    symbols.eraseDups = distinct symbols := by
  apply eraseDupsBy_congr
  intro later hlater earlier hearlier
  by_cases hplace : later.place = earlier.place
  · have hsame := (h later hlater).eq_of_place (h earlier hearlier) hplace
    simp [hsame]
  · have hother : later ≠ earlier := fun hsame => hplace (by rw [hsame])
    simp [hplace, hother]

end NameBinding
