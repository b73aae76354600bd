import NameBinding.Reference
import NameBinding.Proofs.Place
import Mathlib.Data.List.TakeWhile
import Mathlib.Logic.Function.Iterate

/-!
Dotted paths, as references are written with them and as submodules are named from above. A text
and the parts between its dots settle each other, where dots stand side by side or at an end too;
a scan from dot to dot finds them, one in each turn. So a way down to a submodule can be cut at any
dot, and it takes one turn for each part at most.
-/

namespace NameBinding

namespace Text

/-- A text is cut into names without dots in one way only. -/
theorem parts_eq_iff {text : Text} {names : List Text} :
    text.parts = names ↔
      names ≠ [] ∧ (∀ name ∈ names, dot ∉ name) ∧ dotted names = text := by
  constructor
  · rintro rfl
    exact ⟨List.splitOn_ne_nil dot text, fun _ hname => separator_not_mem hname,
      dotted_parts text⟩
  · rintro ⟨hnonempty, hplain, rfl⟩
    exact parts_dotted hnonempty hplain

theorem parts_joined (left right : Text) :
    (left ++ "." ++ right).parts = left.parts ++ right.parts := by
  rw [List.append_assoc]
  exact List.splitOn_append_cons_self left right

theorem parts_of_plain {name : Text} (h : dot ∉ name) : name.parts = [name] :=
  parts_eq_iff.mpr ⟨by simp, by simpa using h, dotted_singleton name⟩

theorem dotted_inj {left right : List Text} (hleft : left ≠ []) (hright : right ≠ [])
    (hplain : ∀ name ∈ left, dot ∉ name) (hplain' : ∀ name ∈ right, dot ∉ name)
    (h : dotted left = dotted right) : left = right := by
  rw [← parts_dotted hleft hplain, h, parts_dotted hright hplain']

theorem dotted_cons_cons (name next : Text) (later : List Text) :
    dotted (name :: next :: later) = name ++ dot :: dotted (next :: later) := by
  rw [dotted, List.intercalate_cons_cons, List.append_assoc]
  rfl

/-- A name below a path of plain names is one part more. -/
theorem parts_dotted_append {names : List Text} {name : Text} (hnames : names ≠ [])
    (hplain : ∀ part ∈ names, dot ∉ part) (hname : dot ∉ name) :
    (dotted names ++ "." ++ name).parts = names ++ [name] := by
  rw [parts_joined, parts_dotted hnames hplain, parts_of_plain hname]

/-- The place of the first dot from `start` on. -/
def dotFrom? (text : Text) (start : Nat) : Option Nat :=
  ((text.drop start).findIdx? (· == dot)).map (start + ·)

section DotFrom

variable {name : Text} (before : Text)

theorem findIdx?_of_plain (hname : dot ∉ name) : name.findIdx? (· == dot) = none := by
  rw [List.findIdx?_eq_none_iff]
  intro byte hbyte
  exact beq_eq_false_iff_ne.mpr fun hdot => hname (hdot ▸ hbyte)

theorem dotFrom?_plain (hname : dot ∉ name) : (before ++ name).dotFrom? before.length = none := by
  rw [dotFrom?, List.drop_left, findIdx?_of_plain hname, Option.map_none]

theorem dotFrom?_dot (hname : dot ∉ name) (rest : Text) :
    (before ++ (name ++ dot :: rest)).dotFrom? before.length =
      some (before.length + name.length) := by
  rw [dotFrom?, List.drop_left, List.findIdx?_append, findIdx?_of_plain hname, List.findIdx?_cons]
  simp

end DotFrom

end Text

/-- A text that is cut at its dots: how far the scan has come with the parts so far, or its end. -/
inductive Cutting where
  | going (start : Nat) (parts : List Text)
  | ended (parts : List Text)

namespace Cutting

/-- One turn takes the part up to the next dot and goes on after it. It ends the scan with the
rest of the text where there is no dot. -/
def turn (text : Text) : Cutting → Cutting
  | .ended parts => .ended parts
  | .going start parts =>
    match text.dotFrom? start with
    | none => .ended (parts ++ [text.drop start])
    | some found => .going (found + 1) (parts ++ [(text.drop start).take (found - start)])

variable {name : Text} (before : Text) (parts : List Text)

theorem turn_last (hname : Text.dot ∉ name) :
    turn (before ++ name) (.going before.length parts) = .ended (parts ++ [name]) := by
  rw [turn, Text.dotFrom?_plain before hname, List.drop_left]

theorem turn_next (hname : Text.dot ∉ name) (rest : Text) :
    turn (before ++ (name ++ Text.dot :: rest)) (.going before.length parts) =
      .going (before ++ (name ++ [Text.dot])).length (parts ++ [name]) := by
  have htaken : (name ++ Text.dot :: rest).take
      (before.length + name.length - before.length) = name := by
    rw [Nat.add_sub_cancel_left, List.take_left]
  have hnext : (before ++ (name ++ [Text.dot])).length = before.length + name.length + 1 := by
    simp [Nat.add_assoc]
  rw [turn, Text.dotFrom?_dot before hname, List.drop_left, hnext]
  exact congrArg (fun part => going _ (parts ++ [part])) htaken

/-- What is scanned of names joined by dots is the names, one in each turn. -/
theorem turns_dotted {names : List Text} (hnonempty : names ≠ [])
    (hplain : ∀ name ∈ names, Text.dot ∉ name) :
    (turn (before ++ Text.dotted names))^[names.length] (.going before.length parts) =
      .ended (parts ++ names) := by
  induction names generalizing before parts with
  | nil => exact absurd rfl hnonempty
  | cons name rest ih =>
      obtain ⟨hname, hrest⟩ := List.forall_mem_cons.mp hplain
      cases rest with
      | nil => exact (Text.dotted_singleton name).symm ▸ turn_last before parts hname
      | cons next later =>
          have htext : before ++ (name ++ Text.dot :: Text.dotted (next :: later)) =
              (before ++ (name ++ [Text.dot])) ++ Text.dotted (next :: later) := by
            simp
          rw [Text.dotted_cons_cons, List.length_cons, Function.iterate_succ_apply,
            turn_next before parts hname, htext, ih _ _ (by simp) hrest, List.append_assoc]
          rfl

/-- The scan of a text ends with its parts, one turn for each dot and one more. -/
theorem turns_parts (text : Text) :
    (turn text)^[text.count Text.dot + 1] (.going 0 []) = .ended text.parts := by
  obtain ⟨hnonempty, hplain, hjoined⟩ := Text.parts_eq_iff.mp (rfl : text.parts = text.parts)
  have hturns := turns_dotted [] [] hnonempty hplain
  rw [List.nil_append, hjoined] at hturns
  rwa [Text.parts, Text.length_splitOn] at hturns

end Cutting

/-- A reference is its text and no more: a scan cuts the text at every dot and at nothing else, in
one turn for each dot and one more, and joining what comes of it gives it back. -/
theorem Reference.ofText_faithful (context : Context) (span : Span) :
    (∀ text : Text,
      (ofText text context span).path ≠ [] ∧
        (∀ part ∈ (ofText text context span).path, Text.dot ∉ part) ∧
        (ofText text context span).path.length = text.count Text.dot + 1 ∧
        (ofText text context span).text = text ∧
        (Cutting.turn text)^[text.count Text.dot + 1] (.going 0 []) =
          .ended (ofText text context span).path) ∧
    ∀ parts : List Text, parts ≠ [] → (∀ part ∈ parts, Text.dot ∉ part) →
      ofText (Text.dotted parts) context span = ⟨parts, context, span⟩ := by
  constructor
  · intro text
    have hpath : text.parts = (ofText text context span).path := rfl
    obtain ⟨hnonempty, hplain, hjoined⟩ := Text.parts_eq_iff.mp hpath
    exact ⟨hnonempty, hplain, Text.length_splitOn Text.dot text, hjoined,
      Cutting.turns_parts text⟩
  · intro parts hnonempty hplain
    have hparts := Text.parts_eq_iff.mpr ⟨hnonempty, hplain, rfl⟩
    rw [ofText, hparts]

theorem Reference.ofText_faithful_empty_parts :
    let parts : List Text := [[], "Darwin", [], "puts", []]
    Text.dotted parts = ".Darwin..puts." ∧ (∀ part ∈ parts, Text.dot ∉ part) ∧
      ofText ".Darwin..puts." .value = ⟨parts, .value, {}⟩ := by
  intro parts
  have hplain : ∀ part ∈ parts, Text.dot ∉ part := by decide
  exact ⟨by decide, hplain, (ofText_faithful .value {}).2 parts (by decide) hplain⟩

namespace Scope

/-- The child of a name is the first submodule that has it, told by its position. -/
theorem child?_eq_some_iff {scope inner : Scope} {name : Text} :
    scope.child? name = some inner ↔
      ∃ index module, scope.module.submodules[index]? = some module ∧ module.name = name ∧
        (∀ earlier < index, ∀ other, scope.module.submodules[earlier]? = some other →
          other.name ≠ name) ∧
        inner = ⟨.inside scope.place index, module⟩ := by
  rw [child?, List.find?_eq_some_iff_getElem]
  constructor
  · rintro ⟨hname, index, hindex, rfl, hfirst⟩
    rw [submodules, List.length_mapIdx] at hindex
    simp only [submodules, List.getElem_mapIdx, beq_iff_eq, Bool.not_eq_true',
      beq_eq_false_iff_ne] at hname hfirst
    refine ⟨index, scope.module.submodules[index], List.getElem?_eq_getElem hindex, hname,
      fun earlier hearlier other hother => ?_, List.getElem_mapIdx⟩
    obtain ⟨_, rfl⟩ := List.getElem?_eq_some_iff.mp hother
    exact hfirst earlier hearlier
  · rintro ⟨index, module, hmodule, rfl, hfirst, rfl⟩
    obtain ⟨hindex, rfl⟩ := List.getElem?_eq_some_iff.mp hmodule
    refine ⟨beq_self_eq_true _, index, by rwa [submodules, List.length_mapIdx],
      List.getElem_mapIdx, fun earlier hearlier => ?_⟩
    simp only [submodules, List.getElem_mapIdx, Bool.not_eq_true', beq_eq_false_iff_ne]
    exact hfirst earlier hearlier _ (List.getElem?_eq_getElem (Nat.lt_trans hearlier hindex))

theorem findSubmodule?_of_plain {name : Text} (h : Text.dot ∉ name) (scope : Scope) :
    scope.findSubmodule? name = scope.child? name := by
  rw [findSubmodule?, Text.parts_of_plain h, List.foldlM_cons]
  exact bind_pure _

theorem findSubmodule?_joined (scope : Scope) (left right : Text) :
    scope.findSubmodule? (left ++ "." ++ right) =
      (scope.findSubmodule? left).bind (·.findSubmodule? right) := by
  rw [findSubmodule?, Text.parts_joined, List.foldlM_append]
  rfl

end Scope

/-- A walk down a dotted path: below a scope with a path to go, or at its end. -/
inductive Walk where
  | below (scope : Scope) (path : Text)
  | ended (found : Option Scope)

namespace Walk

/-- One turn takes the path up to its first dot, and goes to the child of that name. It ends the
walk where there is no such child or no dot. -/
def turn : Walk → Walk
  | .ended found => .ended found
  | .below scope path =>
    match scope.child? (path.takeWhile (· != Text.dot)) with
    | none => .ended none
    | some inner =>
      match path.dropWhile (· != Text.dot) with
      | [] => .ended (some inner)
      | _ :: rest => .below inner rest

variable {scope : Scope} {name : Text}

theorem turn_last (hname : Text.dot ∉ name) :
    turn (.below scope name) = .ended (scope.child? name) := by
  have hplain := Text.bne_of_not_mem hname
  rw [turn, List.takeWhile_eq_self_iff.mpr hplain, List.dropWhile_eq_nil_iff.mpr hplain]
  cases scope.child? name <;> rfl

theorem turn_next (hname : Text.dot ∉ name) (rest : Text) :
    turn (.below scope (name ++ Text.dot :: rest)) =
      match scope.child? name with
      | none => .ended none
      | some inner => .below inner rest := by
  have hplain := Text.bne_of_not_mem hname
  have htake : (name ++ Text.dot :: rest).takeWhile (· != Text.dot) = name := by
    simp [List.takeWhile_append_of_pos hplain]
  have hdrop : (name ++ Text.dot :: rest).dropWhile (· != Text.dot) = Text.dot :: rest := by
    simp [List.dropWhile_append_of_pos hplain]
  rw [turn, htake, hdrop]

/-- A walk takes a turn for each name, and fewer if one of them leads nowhere. -/
theorem turns_dotted {names : List Text} (hnonempty : names ≠ [])
    (hplain : ∀ name ∈ names, Text.dot ∉ name) (scope : Scope) :
    ∃ turns ≤ names.length,
      turn^[turns] (.below scope (Text.dotted names)) =
        .ended (names.foldlM Scope.child? scope) := by
  induction names generalizing scope with
  | nil => exact absurd rfl hnonempty
  | cons name rest ih =>
      obtain ⟨hname, hrest⟩ := List.forall_mem_cons.mp hplain
      cases rest with
      | nil =>
          refine ⟨1, Nat.le_refl 1, ?_⟩
          rw [Function.iterate_one, Text.dotted_singleton, turn_last hname, List.foldlM_cons]
          exact congrArg ended (bind_pure _).symm
      | cons next later =>
          have hturn := @turn_next scope _ hname (Text.dotted (next :: later))
          rw [Text.dotted_cons_cons, List.foldlM_cons]
          cases hchild : scope.child? name with
          | none =>
              rw [hchild] at hturn
              exact ⟨1, by simp, hturn⟩
          | some inner =>
              rw [hchild] at hturn
              obtain ⟨turns, hturns, hended⟩ := ih (by simp) hrest inner
              refine ⟨turns + 1, Nat.succ_le_succ hturns, ?_⟩
              rw [Function.iterate_succ_apply, hturn, hended]
              rfl

end Walk

/-- Paths of submodules compose. A path cut at any of its dots leads where its second half leads
from the end of its first half; a name without dots leads to the first submodule that has it; and
a walk comes to its end within one turn for each dot and one more. -/
theorem Scope.submodule_path (scope : Scope) :
    (∀ (left right : Text) (target : Scope),
      scope.findSubmodule? (left ++ "." ++ right) = some target ↔
        ∃ inner, scope.findSubmodule? left = some inner ∧
          inner.findSubmodule? right = some target) ∧
    (∀ name : Text, Text.dot ∉ name → ∀ inner : Scope,
      scope.findSubmodule? name = some inner ↔
        ∃ index module, scope.module.submodules[index]? = some module ∧ module.name = name ∧
          (∀ earlier < index, ∀ other, scope.module.submodules[earlier]? = some other →
            other.name ≠ name) ∧
          inner = ⟨.inside scope.place index, module⟩) ∧
    ∀ path : Text, ∃ turns ≤ path.count Text.dot + 1,
      Walk.turn^[turns] (.below scope path) = .ended (scope.findSubmodule? path) := by
  refine ⟨fun left right target => ?_, fun name hname inner => ?_, fun path => ?_⟩
  · rw [findSubmodule?_joined, Option.bind_eq_some_iff]
  · rw [findSubmodule?_of_plain hname, child?_eq_some_iff]
  · obtain ⟨hnonempty, hplain, hpath⟩ := Text.parts_eq_iff.mp (rfl : path.parts = path.parts)
    obtain ⟨turns, hturns, hended⟩ := Walk.turns_dotted hnonempty hplain scope
    rw [hpath] at hended
    rw [Text.parts, Text.length_splitOn] at hturns
    exact ⟨turns, hturns, hended⟩

/-- Of two submodules of one name the first is found, and an empty part leads to a submodule
without a name. -/
theorem Scope.submodule_path_darwin :
    let c : Module := { name := "C", symbols := [{ name := "puts" }] }
    let nameless : Module := { submodules := [c] }
    let darwin := ofModule { name := "Darwin", submodules := [nameless, c, { name := "C" }] }
    let found : Scope := ⟨.inside (.inside (.root "Darwin") 0) 0, c⟩
    Text.dot ∉ ("C" : Text) ∧
      darwin.findSubmodule? "C" = some ⟨.inside (.root "Darwin") 1, c⟩ ∧
      darwin.findSubmodule? ".C" = some found ∧ darwin.findSubmodule? ".C.C" = none ∧
      ∃ turns ≤ 3, Walk.turn^[turns] (.below darwin ".C.C") = .ended none := by
  intro c nameless darwin found
  obtain ⟨hcut, hfirst, hturns⟩ := submodule_path darwin
  have hc : darwin.findSubmodule? "C" = some ⟨.inside (.root "Darwin") 1, c⟩ := by
    refine (hfirst "C" (by decide) _).mpr ⟨1, c, rfl, rfl, ?_, rfl⟩
    intro earlier hearlier other hother
    obtain rfl := Nat.lt_one_iff.mp hearlier
    obtain rfl := Option.some.inj hother
    decide
  have hbelow : darwin.findSubmodule? ".C" = some found :=
    (hcut [] "C" found).mpr ⟨⟨.inside (.root "Darwin") 0, nameless⟩, rfl, rfl⟩
  exact ⟨by decide, hc, hbelow, rfl, hturns ".C.C"⟩

end NameBinding
