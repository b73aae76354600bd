import NameBinding.Path
import Mathlib.Data.List.Basic
import Mathlib.Data.List.Induction
import Mathlib.Logic.Relation

/-!
Normal forms of paths. Dots and names that are gone back on can be taken out one by one, in
whatever order; in the end the same names are left, and these are the names of the normal form.
A normal form is its own normal form, and it is read back from how it is written.
-/

namespace NameBinding

namespace Path

/-- One name or two taken out of a path: a dot, a name together with the two dots behind it, or
two dots below the root. -/
inductive Shortens (absolute : Bool) : List Text → List Text → Prop where
  | dot (before after : List Text) : Shortens absolute (before ++ here :: after) (before ++ after)
  | back (before : List Text) {name : Text} (after : List Text) :
      isDots name = false → Shortens absolute (before ++ name :: up :: after) (before ++ after)
  | root (after : List Text) : absolute = true → Shortens absolute (up :: after) after

/-- Names that nothing can be taken out of: there is no dot, and two dots come behind nothing but
two dots, and not at all below the root. -/
structure Reduced (absolute : Bool) (names : List Text) : Prop where
  undotted : here ∉ names
  rooted : absolute = true → up ∉ names
  rising : names.Pairwise fun earlier later => later = up → earlier = up

/-- The names of a path after one name more. -/
def push (absolute : Bool) (names : List Text) (name : Text) : List Text :=
  (advance { absolute, names } name).names

/-- The names that are left of a path in the end. -/
def reduct (path : Path) : List Text := path.names.foldl (push path.absolute) []

variable {absolute : Bool} {names : List Text} {name : Text} {path : Path}

theorem isDots_eq_false_iff : isDots name = false ↔ name ≠ here ∧ name ≠ up := by
  simp [isDots]

section Push

theorem absolute_advance (path : Path) (name : Text) :
    (path.advance name).absolute = path.absolute := by
  unfold advance
  split
  · rfl
  split
  · split
    · split <;> rfl
    · split <;> rfl
  · rfl

/-- Whether there is a slash at the end makes no difference to the names. -/
theorem names_advance (path : Path) (name : Text) :
    (path.advance name).names = push path.absolute path.names name := by
  obtain ⟨absolute, names, trailing⟩ := path
  unfold push advance
  dsimp only
  split
  · rfl
  split
  · cases names.getLast? with
    | none => cases absolute <;> rfl
    | some last => rfl
  · rfl

theorem foldl_advance (path : Path) (names : List Text) :
    (names.foldl advance path).absolute = path.absolute ∧
      (names.foldl advance path).names = names.foldl (push path.absolute) path.names := by
  induction names generalizing path with
  | nil => exact ⟨rfl, rfl⟩
  | cons name rest ih =>
      obtain ⟨habsolute, hnames⟩ := ih (path.advance name)
      rw [absolute_advance] at habsolute
      rw [absolute_advance, names_advance] at hnames
      exact ⟨habsolute, hnames⟩

theorem push_here (absolute : Bool) (names : List Text) : push absolute names here = names := rfl

theorem foldl_push_dots (absolute : Bool) (names : List Text) {dots : List Text}
    (h : ∀ name ∈ dots, name = here) : dots.foldl (push absolute) names = names := by
  induction dots with
  | nil => rfl
  | cons name rest ih =>
      obtain ⟨rfl, hrest⟩ := List.forall_mem_cons.mp h
      rw [List.foldl_cons, push_here, ih hrest]

theorem push_plain (absolute : Bool) (names : List Text) (h : isDots name = false) :
    push absolute names name = names ++ [name] := by
  obtain ⟨hhere, hup⟩ := isDots_eq_false_iff.mp h
  simp [push, advance, hhere, hup]

theorem push_up_nil (absolute : Bool) :
    push absolute [] up = if absolute then [] else [up] := by
  cases absolute <;> rfl

theorem push_up_concat (absolute : Bool) (names : List Text) (last : Text) :
    push absolute (names ++ [last]) up =
      if last = up then names ++ [last] ++ [up] else names := by
  have hother : (up == here) = false := by decide
  simp only [push, advance, hother, Bool.false_eq_true, if_false, beq_self_eq_true, if_true,
    List.getLast?_concat, beq_iff_eq]
  split <;> simp

end Push

namespace Reduced

theorem nil (absolute : Bool) : Reduced absolute [] := ⟨by simp, by simp, .nil⟩

theorem sublist {fewer : List Text} (h : Reduced absolute names) (hfewer : fewer.Sublist names) :
    Reduced absolute fewer where
  undotted hhere := h.undotted (hfewer.subset hhere)
  rooted habsolute hup := h.rooted habsolute (hfewer.subset hup)
  rising := h.rising.sublist hfewer

theorem concat_iff :
    Reduced absolute (names ++ [name]) ↔
      Reduced absolute names ∧ name ≠ here ∧ (absolute = true → name ≠ up) ∧
        (name = up → ∀ earlier ∈ names, earlier = up) := by
  constructor
  · intro h
    have hname : name ∈ names ++ [name] := by simp
    refine ⟨h.sublist (List.sublist_append_left names [name]), ?_, ?_, ?_⟩
    · exact fun hdot => h.undotted (hdot ▸ hname)
    · exact fun habsolute hup => h.rooted habsolute (hup ▸ hname)
    · intro hup earlier hearlier
      exact (List.pairwise_append.mp h.rising).2.2 earlier hearlier name List.mem_cons_self hup
  · rintro ⟨h, hhere, hrooted, hrising⟩
    refine ⟨?_, fun habsolute => ?_, ?_⟩
    · simpa [hhere.symm] using h.undotted
    · simpa [(hrooted habsolute).symm] using h.rooted habsolute
    · refine List.pairwise_append.mpr ⟨h.rising, List.pairwise_singleton _ _, ?_⟩
      intro earlier hearlier later hlater hup
      rw [List.mem_singleton.mp hlater] at hup
      exact hrising hup earlier hearlier

/-- All that one name more can do to reduced names: a dot is left out, two dots take away the
name before them or have nothing to take away below the root, and otherwise the name stays. -/
theorem push_cases (h : Reduced absolute names) (name : Text) :
    (name = here ∧ push absolute names name = names) ∨
      (name = up ∧ absolute = true ∧ names = [] ∧ push absolute names name = []) ∨
      (∃ before last, name = up ∧ names = before ++ [last] ∧ isDots last = false ∧
        push absolute names name = before) ∨
      (push absolute names name = names ++ [name] ∧ Reduced absolute (names ++ [name])) := by
  by_cases hhere : name = here
  · subst hhere
    exact .inl ⟨rfl, rfl⟩
  by_cases hup : name = up
  · subst hup
    rcases List.eq_nil_or_concat' names with rfl | ⟨before, last, rfl⟩
    · cases absolute with
      | true => exact .inr (.inl ⟨rfl, rfl, rfl, rfl⟩)
      | false => exact .inr (.inr (.inr ⟨rfl, concat_iff.mpr ⟨h, hhere, nofun, by simp⟩⟩))
    · obtain ⟨-, hdot, hrooted, hrising⟩ := concat_iff.mp h
      rw [push_up_concat]
      by_cases hlast : last = up
      · refine .inr (.inr (.inr ⟨if_pos hlast, concat_iff.mpr ⟨h, hhere, ?_, fun _ => ?_⟩⟩))
        · exact fun habsolute => absurd hlast (hrooted habsolute)
        · intro earlier hearlier
          rcases List.mem_append.mp hearlier with hbefore | hsame
          · exact hrising hlast earlier hbefore
          · rw [List.mem_singleton.mp hsame, hlast]
      · have hplain := isDots_eq_false_iff.mpr ⟨hdot, hlast⟩
        exact .inr (.inr (.inl ⟨before, last, rfl, rfl, hplain, if_neg hlast⟩))
  · have hplain := isDots_eq_false_iff.mpr ⟨hhere, hup⟩
    have hlonger := concat_iff.mpr ⟨h, hhere, fun _ => hup, fun hsame => absurd hsame hup⟩
    exact .inr (.inr (.inr ⟨push_plain absolute names hplain, hlonger⟩))

theorem push (h : Reduced absolute names) (name : Text) :
    Reduced absolute (push absolute names name) := by
  rcases h.push_cases name with ⟨-, hpush⟩ | ⟨-, -, -, hpush⟩ | ⟨before, last, -, rfl, -, hpush⟩ |
    ⟨hpush, hlonger⟩
  · rwa [hpush]
  · rw [hpush]
    exact .nil absolute
  · rw [hpush]
    exact h.sublist (List.sublist_append_left before [last])
  · rwa [hpush]

theorem foldl_push (h : Reduced absolute names) (rest : List Text) :
    Reduced absolute (rest.foldl (Path.push absolute) names) := by
  induction rest generalizing names with
  | nil => exact h
  | cons name rest ih => exact ih (h.push name)

/-- Each of the names stays when it is gone over. -/
theorem advance_eq (h : Reduced absolute (names ++ [name])) :
    advance { absolute, names } name = { absolute, names := names ++ [name] } := by
  obtain ⟨-, hhere, hrooted, hrising⟩ := concat_iff.mp h
  by_cases hup : name = up
  · subst hup
    have habsolute : absolute = false :=
      Bool.eq_false_iff.mpr fun habsolute => hrooted habsolute rfl
    subst habsolute
    rcases List.eq_nil_or_concat' names with rfl | ⟨before, last, rfl⟩
    · rfl
    · have hlast : last = up := hrising rfl last (by simp)
      simp [advance, hhere, hlast]
  · simp [advance, hhere, hup]

theorem foldl_advance_eq (h : Reduced absolute names) :
    names.foldl advance { absolute } = { absolute, names } := by
  induction names using List.reverseRecOn with
  | nil => rfl
  | append_singleton before name ih =>
      rw [List.foldl_concat, ih (h.sublist (List.sublist_append_left before [name])), h.advance_eq]

theorem not_shortens (h : Reduced absolute names) (fewer : List Text) :
    ¬ Shortens absolute names fewer := by
  intro hstep
  cases hstep with
  | dot before after => exact h.undotted (by simp)
  | @back before name after hname =>
      have hpair := (List.pairwise_append.mp h.rising).2.1
      have hrising := (List.pairwise_cons.mp hpair).1 Path.up List.mem_cons_self rfl
      exact (isDots_eq_false_iff.mp hname).2 hrising
  | root after habsolute => exact h.rooted habsolute List.mem_cons_self

end Reduced

theorem reduced_reduct (path : Path) : Reduced path.absolute path.reduct :=
  (Reduced.nil path.absolute).foldl_push path.names

/-- What is left can be come to by taking out names, whatever has been gone over before. -/
theorem shortens_foldl_push (h : Reduced absolute names) (rest : List Text) :
    Relation.ReflTransGen (Shortens absolute) (names ++ rest)
      (rest.foldl (push absolute) names) := by
  induction rest generalizing names with
  | nil => rw [List.append_nil]; exact .refl
  | cons name rest ih =>
      have hrest := ih (h.push name)
      rw [List.foldl_cons]
      rcases h.push_cases name with ⟨rfl, hpush⟩ | ⟨rfl, habsolute, rfl, hpush⟩ |
        ⟨before, last, rfl, rfl, hlast, hpush⟩ | ⟨hpush, -⟩ <;> rw [hpush] at hrest ⊢
      · exact .head (.dot names rest) hrest
      · exact .head (.root rest habsolute) hrest
      · rw [List.append_assoc]
        exact .head (.back before rest hlast) hrest
      · rw [List.append_assoc] at hrest
        exact hrest

/-- Taking out a name does not change what is left in the end. -/
theorem foldl_push_of_shortens {fewer : List Text} (h : Shortens absolute names fewer) :
    names.foldl (push absolute) [] = fewer.foldl (push absolute) [] := by
  cases h with
  | dot before after => rw [List.foldl_append, List.foldl_append, List.foldl_cons, push_here]
  | back before after hname =>
      rw [List.foldl_append, List.foldl_append, List.foldl_cons, List.foldl_cons,
        push_plain absolute _ hname, push_up_concat, if_neg (isDots_eq_false_iff.mp hname).2]
  | root after habsolute => rw [List.foldl_cons, push_up_nil, if_pos habsolute]

/-- What is left when nothing more can be taken out does not depend on the order in which names
are taken out. -/
theorem reduct_eq_iff {left : List Text} :
    path.reduct = left ↔
      Relation.ReflTransGen (Shortens path.absolute) path.names left ∧
        ∀ fewer, ¬ Shortens path.absolute left fewer := by
  constructor
  · rintro rfl
    exact ⟨shortens_foldl_push (Reduced.nil path.absolute) path.names,
      (reduced_reduct path).not_shortens⟩
  · rintro ⟨hleft, hend⟩
    have hsame : path.reduct = left.foldl (push path.absolute) [] := by
      clear hend
      unfold reduct
      induction hleft with
      | refl => rfl
      | tail _ hstep ih => rw [ih, foldl_push_of_shortens hstep]
    have hagain := shortens_foldl_push (Reduced.nil path.absolute) left
    rcases Relation.ReflTransGen.cases_head hagain with hstays | ⟨fewer, hstep, -⟩
    · rw [hsame, ← hstays]
      rfl
    · exact absurd hstep (hend fewer)

theorem Shortens.sublist {fewer : List Text} (h : Shortens absolute names fewer) :
    fewer.Sublist names := by
  cases h with
  | dot before after => exact (List.sublist_cons_self here after).append_left before
  | @back before name after _ =>
      exact ((List.sublist_cons_self up after).cons _).append_left before
  | root => exact List.sublist_cons_self up fewer

/-- No name is made up. -/
theorem sublist_reduct (path : Path) : path.reduct.Sublist path.names := by
  have hleft := (reduct_eq_iff.mp (rfl : path.reduct = path.reduct)).1
  generalize path.reduct = left at hleft
  induction hleft with
  | refl => exact List.Sublist.refl _
  | tail _ hstep ih => exact hstep.sublist.trans ih

/-- The normal form of a path, without a slash at the end. -/
def bare (path : Path) : Path := { path.normalize with trailing := false }

/-- Tidying puts a dot where there are no names, and may take away the slash at the end. -/
theorem names_tidy (path : Path) :
    path.tidy.absolute = path.absolute ∧
      path.tidy.names = if path.absolute = false ∧ path.names = [] then [here] else path.names := by
  obtain ⟨absolute, names, trailing⟩ := path
  by_cases hempty : absolute = false ∧ names = []
  · obtain ⟨rfl, rfl⟩ := hempty
    exact ⟨rfl, rfl⟩
  · have hsomewhere : ¬ isEmpty { absolute, names, trailing } = true := by
      simpa [isEmpty] using hempty
    rw [tidy, if_neg hsomewhere, if_neg hempty]
    split <;> exact ⟨rfl, rfl⟩

/-- The names of a normal form: what is left of a path, and a dot if that is nothing. -/
theorem bare_eq (h : path.isEmpty = false) :
    path.bare =
      { absolute := path.absolute
        names := if path.absolute = false ∧ path.reduct = [] then [here] else path.reduct } := by
  obtain ⟨habsolute, hnames⟩ := foldl_advance { absolute := path.absolute } path.names
  -- A slash at the end is gone over as a dot would be, which leaves the names as they are.
  have hclosed : ∃ closed : Path, path.normalize = closed.tidy ∧
      closed.absolute = path.absolute ∧ closed.names = path.reduct := by
    unfold normalize
    rw [if_neg (by simp [h])]
    dsimp only
    split
    · exact ⟨_, rfl, (absolute_advance _ _).trans habsolute,
        (names_advance _ _).trans ((push_here _ _).trans hnames)⟩
    · exact ⟨_, rfl, habsolute, hnames⟩
  obtain ⟨closed, hnormal, hsame, hleft⟩ := hclosed
  obtain ⟨htidy, hkept⟩ := closed.names_tidy
  rw [bare, hnormal, htidy, hkept, hsame, hleft]

/-- A path in the form in which it is kept as a root: a single dot, or names that nothing can be
taken out of. There is no slash at the end. -/
inductive IsBare : Path → Prop where
  | here : IsBare { names := [Path.here] }
  | reduced {absolute : Bool} {names : List Text} : (absolute = false → names ≠ []) →
      Reduced absolute names → IsBare { absolute, names }

theorem isBare_bare (h : path.isEmpty = false) : path.bare.IsBare := by
  rw [bare_eq h]
  by_cases hnothing : path.absolute = false ∧ path.reduct = []
  · rw [if_pos hnothing, hnothing.1]
    exact .here
  · rw [if_neg hnothing]
    exact .reduced (fun habsolute hnames => hnothing ⟨habsolute, hnames⟩) (reduced_reduct path)

namespace IsBare

theorem isEmpty (h : path.IsBare) : path.isEmpty = false := by
  cases h with
  | here => rfl
  | @reduced absolute names hnames _ =>
      cases absolute with
      | true => rfl
      | false => simpa [Path.isEmpty] using hnames rfl

theorem normalize (h : path.IsBare) : path.normalize = path := by
  have hempty := h.isEmpty
  cases h with
  | here => rfl
  | @reduced absolute names hnames hreduced =>
      unfold Path.normalize
      rw [if_neg (by simp [hempty])]
      dsimp only
      rw [hreduced.foldl_advance_eq, if_neg Bool.false_ne_true, tidy, if_neg (by simp [hempty])]
      split <;> rfl

theorem bare (h : path.IsBare) : path.bare = path := by
  have hclosed : path.trailing = false := by cases h <;> rfl
  rw [Path.bare, h.normalize, ← hclosed]

end IsBare

/-- What a path comes to when nothing more can be taken out of it: the names that are left, or a
dot if none are, and no slash at the end. -/
structure IsRootOf (root path : Path) : Prop where
  absolute : root.absolute = path.absolute
  trailing : root.trailing = false
  names : ∃ left, Relation.ReflTransGen (Shortens path.absolute) path.names left ∧
    (∀ fewer, ¬ Shortens path.absolute left fewer) ∧
    root.names = if path.absolute = false ∧ left = [] then [here] else left

/-- A path comes to its normal form, and to nothing else. -/
theorem bare_eq_iff {root : Path} (h : path.isEmpty = false) :
    path.bare = root ↔ root.IsRootOf path := by
  rw [bare_eq h]
  constructor
  · rintro rfl
    obtain ⟨hleft, hend⟩ := reduct_eq_iff.mp (rfl : path.reduct = path.reduct)
    exact ⟨rfl, rfl, path.reduct, hleft, hend, rfl⟩
  · obtain ⟨absolute, names, trailing⟩ := root
    rintro ⟨rfl, rfl, left, hleft, hend, rfl⟩
    rw [reduct_eq_iff.mpr ⟨hleft, hend⟩]

section Written

/-- Only the empty text is a path to nowhere, since one that has only slashes is the root. -/
theorem isEmpty_ofText (text : Text) : (ofText text).isEmpty = text.isEmpty := by
  cases text with
  | nil => decide
  | cons first rest =>
      by_cases hslash : first = Text.slash
      · simp [Path.isEmpty, ofText, hslash]
      · obtain ⟨piece, more, hpieces⟩ :=
          List.exists_cons_of_ne_nil (List.splitOn_ne_nil Text.slash rest)
        have hsplit : (first :: rest).splitOn Text.slash = (first :: piece) :: more := by
          rw [List.splitOn, List.splitOnP_cons_eq_if_modifyHead, if_neg (by simpa using hslash)]
          exact congrArg (List.modifyHead (first :: ·)) hpieces
        simp [Path.isEmpty, ofText, hsplit]

/-- What can be written between slashes. -/
def IsName (name : Text) : Prop := name ≠ [] ∧ Text.slash ∉ name

theorem isName_of_mem_ofText {text : Text} (h : name ∈ (ofText text).names) : IsName name := by
  obtain ⟨hpiece, hnonempty⟩ := List.mem_filter.mp h
  exact ⟨by simpa using hnonempty, Text.separator_not_mem hpiece⟩

theorem names_ofText_append (text rest : Text) :
    (ofText (text ++ Text.slash :: rest)).names = (ofText text).names ++ (ofText rest).names := by
  have hsplit := List.splitOn_append_cons_self (a := Text.slash) text rest
  simp only [ofText, hsplit, List.filter_append]

theorem absolute_ofText_append {text : Text} (h : text ≠ []) (rest : Text) :
    (ofText (text ++ rest)).absolute = (ofText text).absolute := by
  simp only [ofText, List.head?_append_of_ne_nil text h]

/-- The pieces between the slashes of a path without a slash at the end. -/
theorem splitOn_toText (absolute : Bool) (hnames : ∀ name ∈ names, IsName name) :
    (toText { absolute, names }).splitOn Text.slash =
      (if absolute then [[]] else []) ++ if names = [] then [[]] else names := by
  have hbody : ([Text.slash].intercalate names).splitOn Text.slash =
      if names = [] then [[]] else names := by
    by_cases hnil : names = []
    · subst hnil
      rfl
    · rw [if_neg hnil]
      exact List.splitOn_intercalate Text.slash (fun name hname => (hnames name hname).2) hnil
  cases absolute with
  | false => simpa [toText] using hbody
  | true =>
      have htext : toText { absolute := true, names } =
          [] ++ Text.slash :: [Text.slash].intercalate names := List.append_nil _
      rw [htext, List.splitOn_append_cons_self, hbody]
      rfl

theorem head?_toText (absolute : Bool) (hnames : ∀ name ∈ names, IsName name) :
    ((toText { absolute, names }).head? == some Text.slash) = absolute := by
  cases absolute with
  | true => rfl
  | false =>
      cases names with
      | nil => rfl
      | cons first rest =>
          obtain ⟨hfirst, hslash⟩ := hnames first List.mem_cons_self
          obtain ⟨byte, bytes, rfl⟩ := List.exists_cons_of_ne_nil hfirst
          have hbyte : byte ≠ Text.slash := fun hsame => hslash (hsame ▸ List.mem_cons_self)
          cases rest <;> simp [toText, List.intercalate, hbyte]

/-- A slash at the end would leave an empty piece behind the last name. -/
theorem getLast?_toText (absolute : Bool) (hnames : ∀ name ∈ names, IsName name)
    (hnonempty : names ≠ []) : (toText { absolute, names }).getLast? ≠ some Text.slash := by
  intro hslash
  obtain ⟨front, hfront⟩ := List.getLast?_eq_some_iff.mp hslash
  have hpieces := splitOn_toText absolute hnames
  rw [hfront, List.splitOn_append_cons_self, if_neg hnonempty] at hpieces
  obtain ⟨before, last, rfl⟩ := (List.eq_nil_or_concat' names).resolve_left hnonempty
  rw [← List.append_assoc] at hpieces
  have hempty : [[]] = [last] := (List.append_inj' hpieces rfl).2
  exact (hnames last (by simp)).1 (List.singleton_inj.mp hempty).symm

/-- A path without a slash at the end is read back from how it is written. -/
theorem ofText_toText (absolute : Bool) (hnames : ∀ name ∈ names, IsName name) :
    ofText (toText { absolute, names }) = { absolute, names } := by
  have hkept : ((toText { absolute, names }).splitOn Text.slash).filter (!·.isEmpty) = names := by
    have hall : names.filter (!·.isEmpty) = names := by
      rw [List.filter_eq_self]
      intro name hname
      simpa using (hnames name hname).1
    rw [splitOn_toText absolute hnames]
    by_cases hnil : names = []
    · subst hnil
      cases absolute <;> rfl
    · cases absolute <;> simpa [hnil] using hall
  have htrailing : (!names.isEmpty && (toText { absolute, names }).getLast? == some Text.slash) =
      false := by
    by_cases hnil : names = []
    · simp [hnil]
    · simpa [hnil] using getLast?_toText absolute hnames hnil
  simp only [ofText, hkept, head?_toText absolute hnames, htrailing]

end Written

theorem isName_bare (h : path.isEmpty = false) (hnames : ∀ name ∈ path.names, IsName name) :
    ∀ name ∈ path.bare.names, IsName name := by
  intro name hname
  rw [bare_eq h] at hname
  dsimp only at hname
  split at hname
  · rw [List.mem_singleton.mp hname]
    exact ⟨by decide, by decide⟩
  · exact hnames name (path.sublist_reduct.subset hname)

end Path

end NameBinding
