import NameBinding.Import
import NameBinding.Manifest.Fault
import NameBinding.Reference

/-!
The lines that stand inside a block, and the name that opens one. Each is read
from the words after its keyword, whole or not at all: the first fault found is
the complaint about the line.
-/

namespace NameBinding

namespace Word

/-- The one name after the keyword of a block. -/
def readName (keyword : Word) (block : Text) : (rest : List Word) → Except Complaint Text
  | [] => .error (keyword.complain (.nameExpected block))
  | name :: rest =>
    if !name.text.isIdentifier then .error (keyword.complain (.nameExpected block))
    else
      match rest with
      | [] => .ok name.text
      | extra :: _ => .error (extra.complain (.wordAfterName extra.text block))

def readKind (word : Word) : Except Complaint Kind :=
  match Kind.ofKeyword? word.text with
  | some kind => .ok kind
  | none => .error (word.complain (.unknownKind word.text))

/-- A member is a name, a constant unless a kind and a colon come before it. -/
def readMember (word : Word) : Except Complaint Symbol := do
  let (front, rest) : Text × Text := word.text.span (· != Text.colon)
  let (kind, name) : Kind × Text ← match rest with
    | [] => pure (Kind.constant, front)
    | _ :: name => do pure (← readKind { word with text := front }, name)
  if name.isIdentifier then return { name, kind, span := word.span }
  else .error (word.complain (.invalidMember name))

/-- Members come after a colon, which stands alone if the name did not bring it. -/
def readMembers (opened : Bool) (words : List Word) : Except Complaint (List Symbol) :=
  match words with
  | [] => .ok []
  | first :: rest =>
    if opened then words.mapM readMember
    else if first.text == [Text.colon] then rest.mapM readMember
    else .error (first.complain (.membersUnopened first.text))

/-- The name of a declaration, and whether a colon at its end opens the members. -/
def splitName (text : Text) : Text × Bool :=
  if text.length > 1 && text.getLast? == some Text.colon then (text.dropLast, true)
  else (text, false)

/-- A declaration: its kind, its name and its members. -/
def readSymbol (kindWord : Word) (rest : List Word) : Except Complaint Symbol := do
  let kind ← kindWord.readKind
  match rest with
  | [] => .error (kindWord.complain (.nameExpected kindWord.text))
  | nameWord :: words =>
    let (name, opened) := splitName nameWord.text
    if !name.isIdentifier then .error (nameWord.complain (.invalidName name))
    else
      let members ← readMembers opened words
      return { name, kind, members, span := kindWord.span }

def readDeclaration (keyword : Word) : (rest : List Word) → Except Complaint Symbol
  | [] => .error (keyword.complain .kindExpected)
  | kindWord :: rest => readSymbol kindWord rest

def readImport (keyword : Word) : (rest : List Word) → Except Complaint Import
  | [path] =>
    if !path.text.isDottedPath then
      .error (path.complain (.malformedImportPath path.text))
    else
      match path.text.parts with
      | module :: part :: more =>
        .ok ⟨module, .submodule (Text.dotted (part :: more)), keyword.span⟩
      | _ => .ok ⟨path.text, .everything, keyword.span⟩
  | [kindWord, path] => do
    let kind ← kindWord.readKind
    match path.text.isDottedPath, path.text.parts with
    | true, [module, name] => .ok ⟨module, .symbol kind name, keyword.span⟩
    | _, _ => .error (path.complain (.malformedSymbolImport kindWord.text path.text))
  | _ => .error (keyword.complain .malformedImport)

def readContext (word : Word) : Except Complaint Context :=
  if word.text == Context.value.word then .ok .value
  else if word.text == Context.type.word then .ok .type
  else if word.text == Context.any.word then .ok .any
  else .error (word.complain (.unknownContext word.text))

def readTarget (context : Context) (word : Word) : Except Complaint Reference :=
  if word.text.isDottedPath then .ok (Reference.ofText word.text context word.span)
  else .error (word.complain (.malformedReference word.text))

def readReference (keyword : Word) : (rest : List Word) → Except Complaint Reference
  | [target] => target.readTarget .any
  | [contextWord, target] => do target.readTarget (← contextWord.readContext)
  | _ => .error (keyword.complain .referenceForm)

end Word

end NameBinding
