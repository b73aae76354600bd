import NameBinding.Proofs.Agreement

/-!
Resolving with checked reads. A path is gone along by the positions of its parts, and the
first of the candidates is taken without asking whether there is one. Here every such read
is checked, and the answer is the same as without the checks.
-/

namespace NameBinding

/-- A read that finds nothing where it looks. -/
inductive Lapse where
  | part (index : Nat)
  | lastPart
  | firstCandidate
deriving DecidableEq, Repr

/-- A read that succeeds hands on what it reads. -/
theorem Lapse.ok_bind {α β : Type} (a : α) (next : α → Except Lapse β) :
    (Except.ok a >>= next) = next a := rfl

theorem Lapse.error_bind {α β : Type} (lapse : Lapse) (next : α → Except Lapse β) :
    (Except.error lapse >>= next) = .error lapse := rfl

theorem Lapse.map_eq_error_iff {α β : Type} {read : Except Lapse α} {f : α → β}
    {lapse : Lapse} : f <$> read = .error lapse ↔ read = .error lapse := by
  cases read <;> simp [Functor.map, Except.map]

/-- The candidate that stands first. -/
def readFirst {σ : Type} : (candidates : List σ) → Except Lapse σ
  | [] => .error .firstCandidate
  | first :: _ => .ok first

namespace Reference

def readPart (reference : Reference) (index : Nat) : Except Lapse Text :=
  match reference.path[index]? with
  | some part => .ok part
  | none => .error (.part index)

def readLast (reference : Reference) : Except Lapse Text :=
  match reference.path.getLast? with
  | some part => .ok part
  | none => .error .lastPart

/-- In which position a part of the path is used: only the last one is in that of the
reference. -/
def contextAt (reference : Reference) (index : Nat) : Context :=
  if index + 1 == reference.path.length then reference.context else .any

/-- Goes down through members from a part of the path on. -/
def follow (reference : Reference) (located : Located) (index : Nat) :
    Except Lapse (Option Located) :=
  if index < reference.path.length then do
    let name ← reference.readPart index
    match located.findMember? name (reference.contextAt index) with
    | none => return none
    | some member => reference.follow member (index + 1)
  else
    return some located
termination_by reference.path.length - index

/-- Goes down through submodules from a part of the path on, and stops before the last. -/
def descend (reference : Reference) (scope : Scope) (index : Nat) :
    Except Lapse (Scope × Nat) :=
  if index + 1 < reference.path.length then do
    let name ← reference.readPart index
    match scope.findSubmodule? name with
    | none => return (scope, index)
    | some inner => reference.descend inner (index + 1)
  else
    return (scope, index)
termination_by reference.path.length - index

end Reference

/-- An answer as those who ask get it. What goes with the status is not tied to it. -/
structure Answer (σ : Type) where
  status : Status := .unresolved
  symbol : Option σ := none
  tier : Option Tier := none
  candidates : List σ := []
deriving DecidableEq, Repr

namespace Answer

variable {σ : Type}

def found (symbol : σ) (tier : Option Tier) : Answer σ :=
  { status := .resolved, symbol := some symbol, tier }

def failed (status : Status) : Answer σ := { status }

def ambiguous (tier : Tier) (candidates : List σ) : Answer σ :=
  { status := .ambiguous, tier := some tier, candidates }

end Answer

def Outcome.answer {σ : Type} (outcome : Outcome σ) : Answer σ :=
  ⟨outcome.status, outcome.symbol?, outcome.tier?, outcome.candidates⟩

namespace Resolver

/-- The first tier that has candidates, with all of them. -/
def tierOf? (resolver : Resolver) (name : Text) (context : Context) (tiers : List Tier) :
    Option (Tier × List Located) :=
  tiers.findSome? fun tier =>
    let candidates := resolver.candidates name context tier
    if candidates.isEmpty then none else some (tier, candidates)

def readUnqualified (resolver : Resolver) (reference : Reference) :
    Except Lapse (Answer Located) := do
  let name ← reference.readPart 0
  match resolver.tierOf? name reference.context allTiers with
  | none => return .failed .unresolved
  | some (tier, candidates) =>
    if candidates.length == 1 then
      let symbol ← readFirst candidates
      return .found symbol (some tier)
    else
      return .ambiguous tier candidates

def readQualified (resolver : Resolver) (scope : Scope) (reference : Reference) :
    Except Lapse (Answer Located) := do
  if resolver.options.requireImport && !resolver.imports.importsModule scope.module.name then
    return .failed .moduleNotImported
  else
    let (inner, index) ← reference.descend scope 1
    let name ← reference.readPart index
    match inner.search? resolver.options.reexport name (reference.contextAt index) with
    | none =>
      if index + 1 == reference.path.length then
        return .failed .symbolNotFound
      else
        return .failed .submoduleNotFound
    | some symbol =>
      match ← reference.follow symbol (index + 1) with
      | none => return .failed .symbolNotFound
      | some target => return .found target none

def readThroughUnit (resolver : Resolver) (reference : Reference) :
    Except Lapse (Answer Located) := do
  let name ← reference.readPart 1
  let candidates := resolver.locals.named name (reference.contextAt 1)
  if candidates.isEmpty then
    return .failed .symbolNotFound
  else if candidates.length > 1 then
    return .ambiguous .localDeclaration candidates
  else
    let symbol ← readFirst candidates
    match ← reference.follow symbol 2 with
    | none => return .failed .symbolNotFound
    | some target => return .found target (some .localDeclaration)

/-- What the declarations of the head answer. Where a module has the name too, they answer
only if they supply the rest. -/
def readPreferred? (reference : Reference) (registered : Bool) :
    Option (Tier × List Located) → Except Lapse (Option (Answer Located))
  | none => return none
  | some (tier, candidates) => do
    let member ←
      if candidates.length == 1 then
        let symbol ← readFirst candidates
        reference.follow symbol 1
      else
        pure none
    match member with
    | some target => return some (.found target (some tier))
    | none =>
      if registered then
        return none
      else if candidates.length > 1 then
        return some (.ambiguous tier candidates)
      else
        return some (.failed .unresolved)

def readShown (reference : Reference) :
    Option (Tier × List Located) → Except Lapse (Answer Located)
  | none => return .failed .moduleNotFound
  | some (tier, candidates) => do
    if candidates.length > 1 then
      return .ambiguous tier candidates
    else
      let symbol ← readFirst candidates
      match ← reference.follow symbol 1 with
      | none => return .failed .unresolved
      | some target => return .found target (some tier)

def readDotted (resolver : Resolver) (reference : Reference) :
    Except Lapse (Answer Located) := do
  let head ← reference.readPart 0
  let module? := resolver.registry.lookup? head
  let preferred := resolver.tierOf? head .any declarationTiers
  match ← readPreferred? reference module?.isSome preferred with
  | some answer => return answer
  | none =>
    match module? with
    | some scope => resolver.readQualified scope reference
    | none =>
      if !resolver.locals.unit.isEmpty && head == resolver.locals.unit then
        resolver.readThroughUnit reference
      else
        readShown reference (resolver.tierOf? head .any allTiers)

/-- Resolving with every read checked. -/
def read (resolver : Resolver) (reference : Reference) : Except Lapse (Answer Located) := do
  if reference.path.isEmpty then
    return .failed .unresolved
  else
    let head ← reference.readPart 0
    if head.isEmpty then
      return .failed .unresolved
    else if reference.isDotted then
      resolver.readDotted reference
    else
      resolver.readUnqualified reference

end Resolver

theorem Located.follow?_cons (located : Located) (context : Context) (name : Text)
    (rest : List Text) :
    located.follow? context (name :: rest) =
      (located.findMember? name (if rest.isEmpty then context else .any)).bind
        (·.follow? context rest) := by
  cases rest with
  | nil =>
      rw [follow?, List.isEmpty_nil, if_pos rfl]
      cases located.findMember? name context <;> rfl
  | cons next others => rfl

namespace Reference

variable {reference : Reference} (before : List Text) {rest : List Text} {name : Text}

theorem readPart_of_split (h : reference.path = before ++ name :: rest) :
    reference.readPart before.length = .ok name := by
  rw [readPart, h, List.getElem?_append_right (Nat.le_refl _), Nat.sub_self]
  rfl

theorem contextAt_of_split (h : reference.path = before ++ name :: rest) :
    reference.contextAt before.length = if rest.isEmpty then reference.context else .any := by
  rw [contextAt, h]
  cases rest <;> simp

/-- The part at a position and those after it are gone down one by one. -/
theorem follow_of_split (h : reference.path = before ++ rest) (located : Located) :
    reference.follow located before.length = .ok (located.follow? reference.context rest) := by
  induction rest generalizing before located with
  | nil =>
      rw [follow, h, List.append_nil, if_neg (Nat.lt_irrefl _)]
      rfl
  | cons name rest ih =>
      have hbound : before.length < reference.path.length := by
        rw [h]
        simp
      have hnext : reference.path = (before ++ [name]) ++ rest := by simpa using h
      rw [follow, if_pos hbound, readPart_of_split before h, Lapse.ok_bind,
        contextAt_of_split before h, Located.follow?_cons]
      cases hmember : located.findMember? name
          (if rest.isEmpty then reference.context else .any) with
      | none => rfl
      | some member =>
          have hrest := ih (before ++ [name]) hnext member
          rw [List.length_append, List.length_singleton] at hrest
          exact hrest

/-- Going down through submodules by positions stops where going down by names does. -/
theorem descend_of_split (h : reference.path = before ++ name :: rest) (scope : Scope) :
    ∃ gone : List Text,
      reference.descend scope before.length =
          .ok ((Resolver.descend scope name rest).1, gone.length) ∧
        reference.path = gone ++
          (Resolver.descend scope name rest).2.1 :: (Resolver.descend scope name rest).2.2 := by
  induction rest generalizing before name scope with
  | nil =>
      refine ⟨before, ?_, h⟩
      have hlast : ¬ before.length + 1 < reference.path.length := by
        rw [h]
        simp
      rw [descend, if_neg hlast]
      rfl
  | cons next rest ih =>
      have hmore : before.length + 1 < reference.path.length := by
        rw [h]
        simp
      have hnext : reference.path = (before ++ [name]) ++ next :: rest := by simpa using h
      rw [descend, if_pos hmore, readPart_of_split before h, Lapse.ok_bind,
        Resolver.descend]
      cases scope.findSubmodule? name with
      | none => exact ⟨before, rfl, h⟩
      | some inner =>
          obtain ⟨gone, hgone, hpath⟩ := ih (before ++ [name]) hnext inner
          rw [List.length_append, List.length_singleton] at hgone
          exact ⟨gone, hgone, hpath⟩

end Reference

namespace Resolver

variable {resolver : Resolver}

theorem tierOf?_eq (resolver : Resolver) (name : Text) (context : Context)
    (tiers : List Tier) :
    resolver.tierOf? name context tiers =
      (resolver.search? name context tiers).map fun found => (found.tier, found.candidates) := by
  unfold tierOf? search?
  induction tiers with
  | nil => rfl
  | cons tier tiers ih =>
      rw [List.findSome?_cons, List.findSome?_cons]
      cases hcandidates : resolver.candidates name context tier with
      | nil => simpa using ih
      | cons first others => rfl

/-- The checked resolution of a name. -/
theorem readUnqualified_eq {reference : Reference} {name : Text}
    (h : reference.path = [name]) :
    resolver.readUnqualified reference =
      .ok (resolver.unqualified name reference.context).answer := by
  have hname : reference.readPart 0 = .ok name := Reference.readPart_of_split [] h
  rw [readUnqualified, hname, Lapse.ok_bind, tierOf?_eq, unqualified]
  cases resolver.search? name reference.context allTiers with
  | none => rfl
  | some found =>
      obtain ⟨tier, first, others⟩ := found
      cases others <;> rfl

section Dotted

variable {reference : Reference} {head name : Text} {rest : List Text}
  (h : reference.path = head :: name :: rest)

include h

theorem follow_head (located : Located) :
    reference.follow located 1 =
      .ok (located.follow? reference.context (name :: rest)) :=
  Reference.follow_of_split [head] h located

theorem readQualified_eq (scope : Scope) :
    resolver.readQualified scope reference =
      .ok (resolver.qualified scope name rest reference.context).answer := by
  unfold readQualified qualified
  split
  · rfl
  · obtain ⟨gone, hdescend, hpath⟩ := Reference.descend_of_split [head] h scope
    have hstart : reference.descend scope 1 =
        .ok ((descend scope name rest).1, gone.length) := hdescend
    generalize descend scope name rest = reached at hstart hpath
    obtain ⟨inner, last, members⟩ := reached
    have hlast : (gone.length + 1 == reference.path.length) = members.isEmpty := by
      rw [hpath]
      cases members <;> simp
    have hfollow (symbol : Located) : reference.follow symbol (gone.length + 1) =
        .ok (symbol.follow? reference.context members) := by
      have hrest : reference.path = (gone ++ [last]) ++ members := by simpa using hpath
      simpa using Reference.follow_of_split (gone ++ [last]) hrest symbol
    simp only [hstart, Lapse.ok_bind, Reference.readPart_of_split gone hpath,
      Reference.contextAt_of_split gone hpath, hlast, hfollow]
    cases inner.search? resolver.options.reexport last
        (if members.isEmpty then reference.context else .any) with
    | none => cases members <;> rfl
    | some symbol =>
        dsimp only
        cases symbol.follow? reference.context members <;> rfl

theorem readThroughUnit_eq :
    resolver.readThroughUnit reference =
      .ok (resolver.throughUnit name rest reference.context).answer := by
  have hname : reference.readPart 1 = .ok name := Reference.readPart_of_split [head] h
  have hcontext : reference.contextAt 1 =
      if rest.isEmpty then reference.context else .any :=
    Reference.contextAt_of_split [head] h
  have hfollow (symbol : Located) : reference.follow symbol 2 =
      .ok (symbol.follow? reference.context rest) :=
    Reference.follow_of_split [head, name] h symbol
  rw [readThroughUnit, hname, Lapse.ok_bind, hcontext, throughUnit]
  match resolver.locals.named name (if rest.isEmpty then reference.context else .any) with
  | [] => rfl
  | [symbol] =>
      simp only [List.isEmpty_cons, Bool.false_eq_true, if_false, List.length_singleton,
        gt_iff_lt, Nat.lt_irrefl, readFirst, Lapse.ok_bind, hfollow]
      cases symbol.follow? reference.context rest <;> rfl
  | first :: second :: others => rfl

theorem readPreferred?_eq (registered : Bool) :
    readPreferred? reference registered (resolver.tierOf? head .any declarationTiers) =
      .ok (match resolver.preferredMember? head name rest reference.context with
        | some (target, tier) => some (Outcome.found target (some tier)).answer
        | none =>
          if registered then none
          else
            (resolver.search? head .any declarationTiers).map fun found =>
              (Outcome.failed found.undecided).answer) := by
  rw [tierOf?_eq, preferredMember?]
  cases resolver.search? head .any declarationTiers with
  | none => cases registered <;> rfl
  | some found =>
      obtain ⟨tier, first, others⟩ := found
      cases others with
      | cons second others => cases registered <;> rfl
      | nil =>
          have hmember : Match.follow? ⟨tier, first, []⟩ reference.context (name :: rest) =
              first.follow? reference.context (name :: rest) := rfl
          simp only [readPreferred?, Option.map_some, Match.candidates, List.length_singleton,
            beq_self_eq_true, if_true, readFirst, Lapse.ok_bind, follow_head h,
            Option.bind_some, hmember]
          cases first.follow? reference.context (name :: rest) with
          | some target => rfl
          | none => cases registered <;> rfl

theorem readShown_eq :
    readShown reference (resolver.tierOf? head .any allTiers) =
      .ok (match resolver.search? head .any allTiers with
        | none => Outcome.failed .moduleNotFound
        | some found =>
          match found.follow? reference.context (name :: rest) with
          | some target => .found target (some found.tier)
          | none => .failed found.undecided).answer := by
  rw [tierOf?_eq]
  cases resolver.search? head .any allTiers with
  | none => rfl
  | some found =>
      obtain ⟨tier, first, others⟩ := found
      cases others with
      | cons second others => rfl
      | nil =>
          have hmember : Match.follow? ⟨tier, first, []⟩ reference.context (name :: rest) =
              first.follow? reference.context (name :: rest) := rfl
          simp only [readShown, Option.map_some, Match.candidates, List.length_singleton,
            gt_iff_lt, Nat.lt_irrefl, if_false, readFirst, Lapse.ok_bind, follow_head h, hmember]
          cases first.follow? reference.context (name :: rest) <;> rfl

theorem readDotted_eq :
    resolver.readDotted reference =
      .ok (resolver.dotted head name rest reference.context).answer := by
  have hhead : reference.readPart 0 = .ok head := Reference.readPart_of_split [] h
  simp only [readDotted, hhead, Lapse.ok_bind, readPreferred?_eq h, dotted_eq, throughModule?]
  cases resolver.preferredMember? head name rest reference.context with
  | some member => rfl
  | none =>
      cases resolver.registry.lookup? head with
      | some scope => exact readQualified_eq h scope
      | none =>
          cases resolver.search? head .any declarationTiers with
          | some found => rfl
          | none =>
              simp only [Option.isSome_none, Bool.false_eq_true, if_false, Option.map_none,
                unregistered]
              split
              · exact readThroughUnit_eq h
              · exact readShown_eq h

end Dotted

/-- Every part of a path and every first candidate that resolving reads is there. -/
theorem read_eq (resolver : Resolver) (reference : Reference) :
    resolver.read reference = .ok (resolver.resolve reference).answer := by
  match h : reference.path with
  | [] =>
      rw [read, resolve, h]
      rfl
  | head :: rest =>
      have hhead : reference.readPart 0 = .ok head := Reference.readPart_of_split [] h
      rw [read, resolve, hhead, h, Lapse.ok_bind]
      simp only [List.isEmpty_cons, Bool.false_eq_true, if_false]
      split
      · rfl
      · cases rest with
        | nil =>
            have hsingle : reference.isDotted = false := by simp [Reference.isDotted, h]
            rw [hsingle]
            exact readUnqualified_eq h
        | cons name rest =>
            have hdotted : reference.isDotted = true := by simp [Reference.isDotted, h]
            rw [hdotted]
            exact readDotted_eq h

end Resolver

end NameBinding
