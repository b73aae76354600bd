import NameBinding.Text

/-!
The part of JSON that reports are made of, and its layout: two columns of indent
a level, an object's fields and an array's objects on lines of their own, and an
array without objects on one line.
-/

namespace NameBinding

inductive Json where
  | text (value : Text)
  | number (value : Nat)
  | array (items : List Json)
  | object (fields : List (Text × Json))
deriving Repr, Inhabited

namespace Json

def hexDigit (value : UInt8) : UInt8 :=
  if value < 10 then value + '0'.toUInt8 else value - 10 + 'a'.toUInt8

/-- Quotes, backslashes and control bytes are escaped; all other bytes, those of
0x80 and above among them, stand for themselves. -/
def escapeByte (byte : UInt8) : Text :=
  if byte == 0x5c then "\\\\"
  else if byte == 0x22 then "\\\""
  else if byte == 0x08 then "\\b"
  else if byte == 0x0c then "\\f"
  else if byte == 0x0a then "\\n"
  else if byte == 0x0d then "\\r"
  else if byte == 0x09 then "\\t"
  else if byte < 0x20 then "\\u00" ++ [hexDigit (byte >>> 4), hexDigit (byte &&& 0xf)]
  else [byte]

def escape (value : Text) : Text := value.flatMap escapeByte

def string (value : Text) : Text := "\"" ++ escape value ++ "\""

def indent (depth : Nat) : Text := List.replicate (2 * depth) 0x20

def isObject : Json → Bool
  | .object _ => true
  | _ => false

/-- A bracketed list, one item a line at `depth + 1`. -/
def block (opening closing : Text) (depth : Nat) (items : List Text) : Text :=
  opening ++ "\n" ++
    (",\n" : Text).intercalate (items.map (indent (depth + 1) ++ ·)) ++
    "\n" ++ indent depth ++ closing

mutual

/-- The layout of a value that starts on a line indented by `depth` levels. -/
def render (depth : Nat) : Json → Text
  | .text value => string value
  | .number value => Text.decimal value
  | .array items =>
    if items.any (·.isObject) then block "[" "]" depth (renderItems (depth + 1) items)
    else "[" ++ (", " : Text).intercalate (renderItems depth items) ++ "]"
  | .object fields => block "\x7b" "\x7d" depth (renderFields (depth + 1) fields)

def renderItems (depth : Nat) : List Json → List Text
  | [] => []
  | first :: rest => render depth first :: renderItems depth rest

def renderFields (depth : Nat) : List (Text × Json) → List Text
  | [] => []
  | (key, value) :: rest =>
    (string key ++ ": " ++ render depth value) :: renderFields depth rest

end

end Json

end NameBinding
