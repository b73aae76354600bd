import NameBinding.Text
import Mathlib.Algebra.Order.Ring.Rat

/-!
Any reader's view of JSON: what a text in this format means, with nothing left out that reports
have no use for. A text is cut into tokens byte by byte, each token being as long as it can be,
and a stack of open containers makes a value of the tokens. Nothing is skipped but blanks, and a
text with anything amiss means nothing.
-/

namespace NameBinding

/-- The fields of an object stay in order, and a key may come twice. -/
inductive JsonValue where
  | null
  | boolean (value : Bool)
  | number (value : ℚ)
  | text (value : Text)
  | array (items : List JsonValue)
  | object (fields : List (Text × JsonValue))
deriving Inhabited

/-- A literal is a number or one of the three names. -/
inductive JsonToken where
  | openArray
  | closeArray
  | openObject
  | closeObject
  | comma
  | colon
  | text (value : Text)
  | literal (value : JsonValue)

namespace JsonToken

def ofDigits (digits : Text) : Nat :=
  digits.foldl (fun value digit => 10 * value + (digit.toNat - 48)) 0

def isMinus (byte : UInt8) : Bool := byte == '-'.toUInt8

/-- The digits after a dot, where there is one. There must be some then. -/
def fraction? (text : Text) : Option (Text × Text) :=
  match text with
  | [] => some ([], [])
  | first :: rest =>
    if first != Text.dot then some ([], text)
    else
      let digits := rest.takeWhile Text.isDigit
      if digits.isEmpty then none else some (digits, rest.dropWhile Text.isDigit)

/-- The power of ten at the end of a numeral, with or without a sign. -/
def exponent? (text : Text) : Option Int :=
  match text with
  | [] => some 0
  | first :: rest =>
    let digits := if rest.head?.any fun byte => isMinus byte || byte == '+'.toUInt8 then rest.tail
      else rest
    if (first != 'e'.toUInt8 && first != 'E'.toUInt8) || digits.isEmpty ||
        !digits.all Text.isDigit then none
    else if rest.head?.any isMinus then some (-(ofDigits digits : Int))
    else some (ofDigits digits)

/-- A numeral: a minus sign perhaps, digits without idle zeros in front, then a fraction and an
exponent where they are given. -/
def numeral? (word : Text) : Option ℚ := do
  let unsigned := if word.head?.any isMinus then word.tail else word
  let whole := unsigned.takeWhile Text.isDigit
  guard (!whole.isEmpty && (whole.head? != some '0'.toUInt8 || whole.length == 1))
  let (fraction, rest) ← fraction? (unsigned.dropWhile Text.isDigit)
  let power := (← exponent? rest) - fraction.length
  let digits : ℚ := ofDigits (whole ++ fraction)
  let size := digits * 10 ^ power.toNat / 10 ^ (-power).toNat
  return if word.head?.any isMinus then -size else size

def ofWord? (word : Text) : Option JsonToken :=
  if word == "null" then some (.literal .null)
  else if word == "true" then some (.literal (.boolean true))
  else if word == "false" then some (.literal (.boolean false))
  else (numeral? word).map fun value => .literal (.number value)

def ofMark? (byte : UInt8) : Option JsonToken :=
  if byte == '['.toUInt8 then some .openArray
  else if byte == ']'.toUInt8 then some .closeArray
  else if byte == 0x7b then some .openObject
  else if byte == 0x7d then some .closeObject
  else if byte == ','.toUInt8 then some .comma
  else if byte == ':'.toUInt8 then some .colon
  else none

end JsonToken

/-- How far a text has come in its present token. A code is written in four digits; one that is
the first half of a pair waits for the second, which is written in the same way. -/
inductive JsonPlace where
  | between
  | word (bytes : Text)
  | string (value : Text)
  | escape (value : Text)
  | code (value : Text) (lead : Option Nat) (digits : Nat) (code : Nat)
  | half (value : Text) (lead : Nat)
  | halfEscape (value : Text) (lead : Nat)

/-- Tokens that are complete, and where the text stands after them. -/
structure JsonLexer where
  tokens : List JsonToken := []
  place : JsonPlace := .between

namespace JsonLexer

def isBlank (byte : UInt8) : Bool :=
  byte == 0x20 || byte == 0x0a || byte == 0x0d || byte == 0x09

/-- The bytes of names and numerals. -/
def isWordByte (byte : UInt8) : Bool :=
  Text.isLetter byte || Text.isDigit byte || JsonToken.isMinus byte || byte == '+'.toUInt8 ||
    byte == Text.dot

def isQuote (byte : UInt8) : Bool := byte == '"'.toUInt8

def isBackslash (byte : UInt8) : Bool := byte == 0x5c

def hexValue? (byte : UInt8) : Option Nat :=
  if Text.isDigit byte then some (byte.toNat - 48)
  else if 97 ≤ byte && byte ≤ 102 then some (byte.toNat - 87)
  else if 65 ≤ byte && byte ≤ 70 then some (byte.toNat - 55)
  else none

/-- What a byte after a backslash stands for. -/
def escaped? (byte : UInt8) : Option UInt8 :=
  if isQuote byte || isBackslash byte || byte == Text.slash then some byte
  else if byte == 'b'.toUInt8 then some 0x08
  else if byte == 'f'.toUInt8 then some 0x0c
  else if byte == 'n'.toUInt8 then some 0x0a
  else if byte == 'r'.toUInt8 then some 0x0d
  else if byte == 't'.toUInt8 then some 0x09
  else none

def utf8 (code : Nat) : Text := String.utf8EncodeChar (Char.ofNat code)

/-- Halves of pairs stand in pairs only. -/
def closeCode? (value : Text) (lead : Option Nat) (code : Nat) : Option JsonPlace :=
  let isLead := 0xd800 ≤ code && code < 0xdc00
  let isTrail := 0xdc00 ≤ code && code < 0xe000
  match lead with
  | none =>
    if isLead then some (.half value code)
    else if isTrail then none
    else some (.string (value ++ utf8 code))
  | some lead =>
    if isTrail then
      some (.string (value ++ utf8 (0x10000 + 0x400 * (lead - 0xd800) + (code - 0xdc00))))
    else none

def push (lexer : JsonLexer) (token : JsonToken) : JsonLexer := ⟨lexer.tokens ++ [token], .between⟩

/-- A byte between tokens. -/
def start? (lexer : JsonLexer) (byte : UInt8) : Option JsonLexer :=
  if isWordByte byte then some { lexer with place := .word [byte] }
  else if isQuote byte then some { lexer with place := .string [] }
  else if isBlank byte then some { lexer with place := .between }
  else (JsonToken.ofMark? byte).map lexer.push

def step (lexer : JsonLexer) (byte : UInt8) : Option JsonLexer :=
  match lexer.place with
  | .between => lexer.start? byte
  | .word bytes =>
    if isWordByte byte then some { lexer with place := .word (bytes ++ [byte]) }
    else (JsonToken.ofWord? bytes).bind fun token => (lexer.push token).start? byte
  | .string value =>
    if isQuote byte then some (lexer.push (.text value))
    else if isBackslash byte then some { lexer with place := .escape value }
    else if byte < 0x20 then none
    else some { lexer with place := .string (value ++ [byte]) }
  | .escape value =>
    if byte == 'u'.toUInt8 then some { lexer with place := .code value none 0 0 }
    else (escaped? byte).map fun meant => { lexer with place := .string (value ++ [meant]) }
  | .code value lead digits code => do
    let code := 16 * code + (← hexValue? byte)
    if digits < 3 then return { lexer with place := .code value lead (digits + 1) code }
    else return { lexer with place := ← closeCode? value lead code }
  | .half value lead =>
    if isBackslash byte then some { lexer with place := .halfEscape value lead } else none
  | .halfEscape value lead =>
    if byte == 'u'.toUInt8 then some { lexer with place := .code value (some lead) 0 0 } else none

def run (lexer : JsonLexer) (text : Text) : Option JsonLexer := text.foldlM step lexer

/-- The tokens of a text that ends here. No string may be open. -/
def finish? (lexer : JsonLexer) : Option (List JsonToken) :=
  match lexer.place with
  | .between => some lexer.tokens
  | .word bytes => (JsonToken.ofWord? bytes).map fun token => lexer.tokens ++ [token]
  | _ => none

end JsonLexer

/-- An open container with its items or fields so far. The value to come is an item, or that of
the last key. -/
inductive JsonFrame where
  | array (items : List JsonValue)
  | object (fields : List (Text × JsonValue)) (key : Text)

/-- What the tokens so far lead up to: a value is to come, or the next key of an object, or the
colon after a key; or a value has just been completed. -/
inductive JsonPhase where
  | value
  | key (fields : List (Text × JsonValue))
  | colon (fields : List (Text × JsonValue)) (key : Text)
  | complete (value : JsonValue)

structure JsonParser where
  outer : List JsonFrame := []
  phase : JsonPhase := .value

namespace JsonParser

/-- A value is followed by a comma or by the end of the container that it is in. -/
def goOn? (value : JsonValue) : List JsonFrame → JsonToken → Option JsonParser
  | .array items :: outer, .comma => some ⟨.array (items ++ [value]) :: outer, .value⟩
  | .array items :: outer, .closeArray => some ⟨outer, .complete (.array (items ++ [value]))⟩
  | .object fields key :: outer, .comma => some ⟨outer, .key (fields ++ [(key, value)])⟩
  | .object fields key :: outer, .closeObject =>
    some ⟨outer, .complete (.object (fields ++ [(key, value)]))⟩
  | _, _ => none

/-- An array in which a value is to come can be closed instead if it has none yet. -/
def closeEmpty? : List JsonFrame → Option JsonParser
  | .array [] :: outer => some ⟨outer, .complete (.array [])⟩
  | _ => none

def step (parser : JsonParser) (token : JsonToken) : Option JsonParser :=
  match parser.phase, token with
  | .value, .literal value => some { parser with phase := .complete value }
  | .value, .text value => some { parser with phase := .complete (.text value) }
  | .value, .openArray => some ⟨.array [] :: parser.outer, .value⟩
  | .value, .openObject => some { parser with phase := .key [] }
  | .value, .closeArray => closeEmpty? parser.outer
  | .key fields, .text key => some { parser with phase := .colon fields key }
  | .key [], .closeObject => some { parser with phase := .complete (.object []) }
  | .colon fields key, .colon => some ⟨.object fields key :: parser.outer, .value⟩
  | .complete value, token => goOn? value parser.outer token
  | _, _ => none

def run (parser : JsonParser) (tokens : List JsonToken) : Option JsonParser :=
  tokens.foldlM step parser

/-- The value of a text that ends here. -/
def finish? : JsonParser → Option JsonValue
  | ⟨[], .complete value⟩ => some value
  | _ => none

end JsonParser

/-- The value that a text means, if it is a JSON text at all. -/
def JsonValue.parse? (text : Text) : Option JsonValue := do
  let lexer ← JsonLexer.run {} text
  let tokens ← lexer.finish?
  let parser ← JsonParser.run {} tokens
  parser.finish?

example : JsonValue.parse?
    (" \x7b\"a\\u00e9\\ud83d\\ude00\" : [-1.50e1, true,{}, [ ] ], \"\":null\x7d\n" : String) =
    some (.object [("aé😀", .array [.number (-15), .boolean true, .object [], .array []]),
      ("", .null)]) := by
  cbv

end NameBinding
