import NameBinding.Text
import NameBinding.Span

/-!
Declared symbols. A symbol knows the module that owns it, and may hold members,
which are symbols again.
-/

namespace NameBinding

inductive Kind where
  | structType
  | classType
  | enumType
  | protocolType
  | typeAlias
  | function
  | constant
  | variable
deriving DecidableEq, Repr, Inhabited

/-- The position a name is used in. Value positions see functions, constants
and variables; type positions see everything else. -/
inductive Context where
  | any
  | value
  | type
deriving DecidableEq, Repr, Inhabited

namespace Kind

def all : List Kind :=
  [.structType, .classType, .enumType, .protocolType, .typeAlias, .function,
    .constant, .variable]

def keyword : Kind → Text
  | .structType => "struct"
  | .classType => "class"
  | .enumType => "enum"
  | .protocolType => "protocol"
  | .typeAlias => "typealias"
  | .function => "func"
  | .constant => "let"
  | .variable => "var"

def ofKeyword? (word : Text) : Option Kind :=
  all.find? fun kind => kind.keyword == word

def isType : Kind → Bool
  | .structType | .classType | .enumType | .protocolType | .typeAlias => true
  | .function | .constant | .variable => false

def fits (kind : Kind) : Context → Bool
  | .any => true
  | .value => !kind.isType
  | .type => kind.isType

@[simp] theorem ofKeyword?_keyword (kind : Kind) :
    ofKeyword? kind.keyword = some kind := by
  cases kind <;> decide

end Kind

def Context.word : Context → Text
  | .any => "any"
  | .value => "value"
  | .type => "type"

structure Symbol where
  name : Text := []
  kind : Kind := .function
  owner : Text := []
  signature : Text := []
  members : List Symbol := []
  span : Span := {}
deriving Repr, Inhabited

namespace Symbol

mutual

def decEq : (left right : Symbol) → Decidable (left = right)
  | ⟨name, kind, owner, signature, members, span⟩,
    ⟨name', kind', owner', signature', members', span'⟩ =>
    let _ := decEqList members members'
    decidable_of_iff
      (name = name' ∧ kind = kind' ∧ owner = owner' ∧ signature = signature' ∧
        members = members' ∧ span = span')
      (by rw [Symbol.mk.injEq])

def decEqList : (left right : List Symbol) → Decidable (left = right)
  | [], [] => isTrue rfl
  | [], _ :: _ => isFalse (by simp)
  | _ :: _, [] => isFalse (by simp)
  | first :: rest, first' :: rest' =>
    let _ := decEq first first'
    let _ := decEqList rest rest'
    decidable_of_iff (first = first' ∧ rest = rest') (by rw [List.cons.injEq])

end

instance : DecidableEq Symbol := decEq

/-- Whether a use of `name` in `context` may mean this symbol. -/
def answers (symbol : Symbol) (name : Text) (context : Context) : Bool :=
  symbol.name == name && symbol.kind.fits context

def findMember? (symbol : Symbol) (name : Text) (context : Context) : Option Symbol :=
  symbol.members.find? (·.answers name context)

/-- The kind and the name, qualified by the owner where there is one:
`func Triathlon.swim`. -/
def describe (symbol : Symbol) : Text :=
  let qualifier : Text := if symbol.owner.isEmpty then [] else symbol.owner ++ "."
  symbol.kind.keyword ++ " " ++ qualifier ++ symbol.name

mutual

/-- The symbol and everything below it, handed to `owner`. -/
def ownedBy (owner : Text) : Symbol → Symbol
  | ⟨name, kind, _, signature, members, span⟩ =>
    ⟨name, kind, owner, signature, allOwnedBy owner members, span⟩

def allOwnedBy (owner : Text) : List Symbol → List Symbol
  | [] => []
  | first :: rest => first.ownedBy owner :: allOwnedBy owner rest

end

end Symbol

end NameBinding
