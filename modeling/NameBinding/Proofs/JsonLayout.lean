import NameBinding.Json
import NameBinding.Proofs.JsonSyntax
import Mathlib.Data.List.Forall2
import Mathlib.Data.List.TakeWhile
import Mathlib.Tactic.IntervalCases

/-!
The layout of a tree read back. Between tokens a layout has blanks only, and a string or a
numeral always comes to its end before the next token; so the tokens of a layout are those of
the tree, and from them the tree is built again.
-/

namespace NameBinding

namespace Text

theorem decimal_of_lt {n : Nat} (h : n < 10) : decimal n = [48 + UInt8.ofNat n] := by
  rw [decimal, Nat.toDigits_of_lt_base h]
  interval_cases n <;> rfl

theorem decimal_of_le {n : Nat} (h : 10 ≤ n) :
    decimal n = decimal (n / 10) ++ decimal (n % 10) := by
  rw [decimal, Nat.toDigits_of_base_le (by decide) h, List.map_append, decimal, decimal,
    Nat.toDigits_of_lt_base (Nat.mod_lt n (by decide))]

theorem digit_of_lt {n : Nat} (h : n < 10) :
    isDigit (48 + UInt8.ofNat n) = true ∧ (48 + UInt8.ofNat n).toNat - 48 = n ∧
      (48 + UInt8.ofNat n = 48 → n = 0) := by
  interval_cases n <;> decide

/-- Digits, with no zero in front but where it is the only one, and together the number. -/
theorem decimal_spec (n : Nat) :
    (∀ byte ∈ decimal n, isDigit byte = true) ∧
      (∃ first rest, decimal n = first :: rest ∧ (first = 48 → n = 0 ∧ rest = [])) ∧
      JsonToken.ofDigits (decimal n) = n := by
  induction n using Nat.strongRecOn with
  | ind n ih =>
      rcases Nat.lt_or_ge n 10 with hn | hn
      · obtain ⟨hdigit, hvalue, hzero⟩ := digit_of_lt hn
        rw [decimal_of_lt hn]
        refine ⟨List.forall_mem_singleton.mpr hdigit, ⟨_, [], rfl, fun h => ⟨hzero h, rfl⟩⟩, ?_⟩
        rw [JsonToken.ofDigits, List.foldl_cons, List.foldl_nil, hvalue]
        omega
      · have hlast : n % 10 < 10 := Nat.mod_lt n (by decide)
        obtain ⟨hdigit, hvalue, -⟩ := digit_of_lt hlast
        obtain ⟨hdigits, ⟨first, rest, hfirst, hzero⟩, hfront⟩ := ih (n / 10) (by omega)
        rw [decimal_of_le hn, decimal_of_lt hlast]
        refine ⟨List.forall_mem_append.mpr ⟨hdigits, List.forall_mem_singleton.mpr hdigit⟩, ?_, ?_⟩
        · refine ⟨first, rest ++ [48 + UInt8.ofNat (n % 10)], by rw [hfirst]; rfl, ?_⟩
          intro h
          have hfrontZero := (hzero h).1
          omega
        · rw [JsonToken.ofDigits] at hfront ⊢
          rw [List.foldl_append, hfront, List.foldl_cons, List.foldl_nil, hvalue]
          omega

end Text

namespace JsonToken

theorem isMinus_of_isDigit {byte : UInt8} (h : Text.isDigit byte = true) :
    isMinus byte = false := by
  rw [isMinus, beq_eq_false_iff_ne]
  rintro rfl
  exact absurd h (by decide)

theorem numeral?_decimal (n : Nat) : numeral? (Text.decimal n) = some (n : ℚ) := by
  obtain ⟨hdigits, ⟨first, rest, hfirst, hzero⟩, hvalue⟩ := Text.decimal_spec n
  have hsign : (Text.decimal n).head?.any isMinus = false := by
    rw [hfirst]
    exact isMinus_of_isDigit (hdigits first (by rw [hfirst]; exact List.mem_cons_self))
  have hall : (Text.decimal n).takeWhile Text.isDigit = Text.decimal n :=
    List.takeWhile_eq_self_iff.mpr hdigits
  have hnone : (Text.decimal n).dropWhile Text.isDigit = [] :=
    List.dropWhile_eq_nil_iff.mpr hdigits
  have hwhole : (!(Text.decimal n).isEmpty && ((Text.decimal n).head? != some '0'.toUInt8 ||
      (Text.decimal n).length == 1)) = true := by
    rw [hfirst]
    by_cases h : first = '0'.toUInt8
    · simp [hzero h]
    · simp [h]
  unfold numeral?
  simp [hsign, hall, hnone, hwhole, fraction?, exponent?, hvalue]

/-- A numeral is one token, being no name. -/
theorem ofWord?_decimal (n : Nat) : ofWord? (Text.decimal n) = some (.literal (.number n)) := by
  obtain ⟨hdigits, ⟨first, rest, hfirst, -⟩, -⟩ := Text.decimal_spec n
  have hdigit := hdigits first (by rw [hfirst]; exact List.mem_cons_self)
  have hother : ∀ {name : Text}, name.head?.any Text.isDigit = false →
      (Text.decimal n == name) = false := by
    intro name hname
    rw [beq_eq_false_iff_ne]
    rintro rfl
    rw [hfirst] at hname
    exact absurd (hdigit.symm.trans hname) (by decide)
  rw [ofWord?, hother (by decide), hother (by decide), hother (by decide), numeral?_decimal]
  rfl

/-- The tokens of a list, with commas between the items. -/
def separated (items : List (List JsonToken)) : List JsonToken := [comma].intercalate items

end JsonToken

namespace JsonLexer

theorem run_cons (lexer : JsonLexer) (byte : UInt8) (rest : Text) :
    lexer.run (byte :: rest) = (lexer.step byte).bind (·.run rest) := rfl

/-- Between two tokens the text makes these tokens, whatever comes after it. -/
def Lexes (text : Text) (tokens : List JsonToken) : Prop :=
  ∀ (earlier : List JsonToken) (rest : Text),
    run ⟨earlier, .between⟩ (text ++ rest) = run ⟨earlier ++ tokens, .between⟩ rest

/-- The same where no word goes on after the text. -/
def LexesBefore (text : Text) (tokens : List JsonToken) : Prop :=
  ∀ (earlier : List JsonToken) (last : UInt8) (rest : Text), isWordByte last = false →
    run ⟨earlier, .between⟩ (text ++ last :: rest) =
      run ⟨earlier ++ tokens, .between⟩ (last :: rest)

section Lexes

variable {text rest : Text} {tokens more : List JsonToken}

theorem lexes_nil : Lexes [] [] := by
  intro earlier rest
  rw [List.append_nil]
  rfl

theorem Lexes.before (h : Lexes text tokens) : LexesBefore text tokens := by
  intro earlier last rest _
  exact h earlier _

theorem Lexes.append (h : Lexes text tokens) (hrest : Lexes rest more) :
    Lexes (text ++ rest) (tokens ++ more) := by
  intro earlier after
  rw [List.append_assoc, h, hrest, List.append_assoc]

theorem Lexes.append_before (h : Lexes text tokens) (hrest : LexesBefore rest more) :
    LexesBefore (text ++ rest) (tokens ++ more) := by
  intro earlier last after hlast
  rw [List.append_assoc, h, hrest _ _ _ hlast, List.append_assoc]

theorem LexesBefore.append {last : UInt8} (h : LexesBefore text tokens)
    (hlast : isWordByte last = false) (hrest : Lexes (last :: rest) more) :
    Lexes (text ++ last :: rest) (tokens ++ more) := by
  intro earlier after
  rw [List.append_assoc, List.cons_append, h _ _ _ hlast, ← List.cons_append, hrest,
    List.append_assoc]

theorem lexes_byte {byte : UInt8}
    (h : ∀ earlier, start? ⟨earlier, .between⟩ byte = some ⟨earlier ++ tokens, .between⟩) :
    Lexes [byte] tokens := by
  intro earlier rest
  rw [List.singleton_append, run_cons, step, h]
  rfl

end Lexes

theorem lexes_blank {byte : UInt8} (h : byte = 0x20 ∨ byte = Text.newline) : Lexes [byte] [] := by
  apply lexes_byte
  intro earlier
  rw [List.append_nil]
  rcases h with rfl | rfl <;> rfl

theorem lexes_indent (depth : Nat) : Lexes (Json.indent depth) [] := by
  rw [Json.indent]
  induction 2 * depth with
  | zero => exact lexes_nil
  | succ count ih => exact (lexes_blank (.inl rfl)).append ih

theorem lexes_comma : Lexes [','.toUInt8] [.comma] := lexes_byte fun _ => rfl

theorem lexes_colon : Lexes [Text.colon] [.colon] := lexes_byte fun _ => rfl

/-- A word goes on to its end. -/
theorem run_word (earlier : List JsonToken) (read : Text) {word : Text}
    (h : ∀ byte ∈ word, isWordByte byte = true) (rest : Text) :
    run ⟨earlier, .word read⟩ (word ++ rest) = run ⟨earlier, .word (read ++ word)⟩ rest := by
  induction word generalizing read with
  | nil => rw [List.append_nil]; rfl
  | cons byte word ih =>
      obtain ⟨hbyte, hword⟩ := List.forall_mem_cons.mp h
      have hstep : step ⟨earlier, .word read⟩ byte = some ⟨earlier, .word (read ++ [byte])⟩ :=
        if_pos hbyte
      rw [List.cons_append, run_cons, hstep, Option.bind_some, ih _ hword, List.append_assoc,
        List.singleton_append]

theorem lexes_word {first : UInt8} {word : Text} {token : JsonToken}
    (hbytes : ∀ byte ∈ first :: word, isWordByte byte = true)
    (hword : JsonToken.ofWord? (first :: word) = some token) :
    LexesBefore (first :: word) [token] := by
  intro earlier last rest hlast
  obtain ⟨hfirst, hmore⟩ := List.forall_mem_cons.mp hbytes
  have hopen : step ⟨earlier, .between⟩ first = some ⟨earlier, .word [first]⟩ := if_pos hfirst
  have hclose : step ⟨earlier, .word (first :: word)⟩ last =
      start? ⟨earlier ++ [token], .between⟩ last := by
    rw [step]
    simp only [hlast, hword, Option.bind_some]
    rfl
  rw [List.cons_append, run_cons, hopen, Option.bind_some, run_word earlier _ hmore,
    List.singleton_append, run_cons, hclose]
  rfl

theorem lexes_decimal (n : Nat) : LexesBefore (Text.decimal n) [.literal (.number n)] := by
  obtain ⟨hdigits, ⟨first, rest, hfirst, -⟩, -⟩ := Text.decimal_spec n
  have htoken := JsonToken.ofWord?_decimal n
  rw [hfirst] at htoken hdigits ⊢
  refine lexes_word (fun byte hbyte => ?_) htoken
  simp [isWordByte, hdigits byte hbyte]

/-- A control byte is written as its code. -/
theorem run_control {byte : UInt8} (h : byte < 0x20) (earlier : List JsonToken)
    (value rest : Text) :
    run ⟨earlier, .string value⟩
        ("\\u00" ++ [Json.hexDigit (byte >>> 4), Json.hexDigit (byte &&& 0xf)] ++ rest) =
      run ⟨earlier, .string (value ++ [byte])⟩ rest := by
  have hcode : byte.toNat < 32 := UInt8.lt_iff_toNat_lt.mp h
  rw [← UInt8.ofNat_toNat (x := byte)]
  generalize byte.toNat = code at hcode
  interval_cases code <;> rfl

theorem run_escapeByte (earlier : List JsonToken) (value : Text) (byte : UInt8) (rest : Text) :
    run ⟨earlier, .string value⟩ (Json.escapeByte byte ++ rest) =
      run ⟨earlier, .string (value ++ [byte])⟩ rest := by
  unfold Json.escapeByte
  split_ifs with hbackslash hquote hb hf hn hr ht hcontrol
  · obtain rfl := beq_iff_eq.mp hbackslash
    rfl
  · obtain rfl := beq_iff_eq.mp hquote
    rfl
  · obtain rfl := beq_iff_eq.mp hb
    rfl
  · obtain rfl := beq_iff_eq.mp hf
    rfl
  · obtain rfl := beq_iff_eq.mp hn
    rfl
  · obtain rfl := beq_iff_eq.mp hr
    rfl
  · obtain rfl := beq_iff_eq.mp ht
    rfl
  · exact run_control hcontrol earlier value rest
  · have hplain : step ⟨earlier, .string value⟩ byte =
        some ⟨earlier, .string (value ++ [byte])⟩ := by
      simp only [step]
      have hnoquote : ¬isQuote byte = true := hquote
      have hnobackslash : ¬isBackslash byte = true := hbackslash
      rw [if_neg hnoquote, if_neg hnobackslash, if_neg hcontrol]
    rw [List.singleton_append, run_cons, hplain]
    rfl

theorem run_escape (earlier : List JsonToken) (read value rest : Text) :
    run ⟨earlier, .string read⟩ (Json.escape value ++ rest) =
      run ⟨earlier, .string (read ++ value)⟩ rest := by
  induction value generalizing read with
  | nil => rw [List.append_nil]; rfl
  | cons byte value ih =>
      have hescape : Json.escape (byte :: value) = Json.escapeByte byte ++ Json.escape value := rfl
      rw [hescape, List.append_assoc, run_escapeByte, ih, List.append_assoc, List.singleton_append]

theorem lexes_string (value : Text) : Lexes (Json.string value) [.text value] := by
  intro earlier rest
  calc run ⟨earlier, .between⟩ (Json.string value ++ rest)
      = run ⟨earlier, .string []⟩ (Json.escape value ++ 0x22 :: rest) := by
        have hopen : Json.string value ++ rest = 0x22 :: (Json.escape value ++ 0x22 :: rest) := by
          rw [Json.string, List.append_assoc, List.append_assoc]
          rfl
        rw [hopen]
        rfl
    _ = run ⟨earlier, .string value⟩ (0x22 :: rest) := run_escape earlier [] value _
    _ = run ⟨earlier ++ [.text value], .between⟩ rest := rfl

/-- Items that end before a separator, with separators between them. -/
theorem lexes_intercalate {first : UInt8} {separator : Text} (hfirst : isWordByte first = false)
    (hseparator : Lexes (first :: separator) [.comma]) {items : List Text}
    {tokens : List (List JsonToken)} (h : List.Forall₂ LexesBefore items tokens) :
    LexesBefore ((first :: separator).intercalate items) (JsonToken.separated tokens) := by
  unfold JsonToken.separated
  induction h with
  | nil => exact lexes_nil.before
  | cons hitem hitems ih =>
      cases hitems with
      | nil =>
          rw [List.intercalate_singleton, List.intercalate_singleton]
          exact hitem
      | cons =>
          rw [List.intercalate_cons_cons, List.intercalate_cons_cons]
          exact (hitem.append hfirst hseparator).append_before ih

/-- A bracketed list, with each item on a line of its own. -/
theorem lexes_block {opening closing : UInt8} {openToken closeToken : JsonToken}
    (hopening : Lexes [opening] [openToken]) (hclosing : Lexes [closing] [closeToken])
    (depth : Nat) {items : List Text} {tokens : List (List JsonToken)}
    (h : List.Forall₂ LexesBefore items tokens) :
    Lexes (Json.block [opening] [closing] depth items)
      (openToken :: JsonToken.separated tokens ++ [closeToken]) := by
  have hindented : List.Forall₂ LexesBefore (items.map (Json.indent (depth + 1) ++ ·)) tokens := by
    rw [List.forall₂_map_left_iff]
    exact h.imp fun _ _ hitem => (lexes_indent (depth + 1)).append_before hitem
  have hnewline : Lexes [Text.newline] [] := lexes_blank (.inr rfl)
  have hbody := lexes_intercalate (by decide) (lexes_comma.append hnewline) hindented
  have hend := hnewline.append ((lexes_indent depth).append hclosing)
  have hall := (hopening.append hnewline).append (hbody.append (by decide) hend)
  have htext : Json.block [opening] [closing] depth items =
      [opening] ++ [Text.newline] ++
        ((','.toUInt8 :: [Text.newline]).intercalate (items.map (Json.indent (depth + 1) ++ ·)) ++
          Text.newline :: (Json.indent depth ++ [closing])) := by
    simp only [Json.block, List.append_assoc]
    rfl
  rw [htext]
  exact hall

end JsonLexer

mutual

/-- What a tree is meant to say. -/
def Json.value : Json → JsonValue
  | .text value => .text value
  | .number value => .number value
  | .array items => .array (values items)
  | .object fields => .object (fieldValues fields)

def Json.values : List Json → List JsonValue
  | [] => []
  | first :: rest => first.value :: values rest

def Json.fieldValues : List (Text × Json) → List (Text × JsonValue)
  | [] => []
  | (key, value) :: rest => (key, value.value) :: fieldValues rest

end

mutual

def Json.tokens : Json → List JsonToken
  | .text value => [.text value]
  | .number value => [.literal (.number value)]
  | .array items => .openArray :: JsonToken.separated (itemTokens items) ++ [.closeArray]
  | .object fields => .openObject :: JsonToken.separated (fieldTokens fields) ++ [.closeObject]

def Json.itemTokens : List Json → List (List JsonToken)
  | [] => []
  | first :: rest => first.tokens :: itemTokens rest

def Json.fieldTokens : List (Text × Json) → List (List JsonToken)
  | [] => []
  | (key, value) :: rest => (.text key :: .colon :: value.tokens) :: fieldTokens rest

end

namespace JsonLexer

mutual

theorem lexes_render (depth : Nat) : (tree : Json) → LexesBefore (tree.render depth) tree.tokens
  | .text value => (lexes_string value).before
  | .number value => lexes_decimal value
  | .array items => by
    rw [Json.render, Json.tokens]
    split
    · exact (lexes_block (lexes_byte fun _ => rfl) (lexes_byte fun _ => rfl) depth
        (lexes_renderItems (depth + 1) items)).before
    · have hblank : Lexes [0x20] [] := lexes_blank (.inl rfl)
      have hitems := lexes_intercalate (by decide) (lexes_comma.append hblank)
        (lexes_renderItems depth items)
      have hopening : Lexes ['['.toUInt8] [.openArray] := lexes_byte fun _ => rfl
      have hclosing : Lexes [']'.toUInt8] [.closeArray] := lexes_byte fun _ => rfl
      rw [List.append_assoc]
      exact (hopening.append (hitems.append (by decide) hclosing)).before
  | .object fields => by
    rw [Json.render, Json.tokens]
    exact (lexes_block (lexes_byte fun _ => rfl) (lexes_byte fun _ => rfl) depth
      (lexes_renderFields (depth + 1) fields)).before

theorem lexes_renderItems (depth : Nat) : (items : List Json) →
    List.Forall₂ LexesBefore (Json.renderItems depth items) (Json.itemTokens items)
  | [] => .nil
  | first :: rest => .cons (lexes_render depth first) (lexes_renderItems depth rest)

theorem lexes_renderFields (depth : Nat) : (fields : List (Text × Json)) →
    List.Forall₂ LexesBefore (Json.renderFields depth fields) (Json.fieldTokens fields)
  | [] => .nil
  | (key, value) :: rest => by
    refine .cons ?_ (lexes_renderFields depth rest)
    have hkey := (lexes_string key).append (lexes_colon.append (lexes_blank (.inl rfl)))
    exact hkey.append_before (lexes_render depth value)

end

end JsonLexer

namespace JsonParser

theorem run_cons (parser : JsonParser) (token : JsonToken) (rest : List JsonToken) :
    parser.run (token :: rest) = (parser.step token).bind (·.run rest) := rfl

theorem separated_singleton (tokens : List JsonToken) : JsonToken.separated [tokens] = tokens :=
  List.intercalate_singleton

theorem separated_cons_cons (first second : List JsonToken) (rest : List (List JsonToken)) :
    JsonToken.separated (first :: second :: rest) =
      first ++ .comma :: JsonToken.separated (second :: rest) := by
  simp [JsonToken.separated, List.intercalate_cons_cons]

mutual

/-- Where a value is to come, the tokens of a tree complete its value. -/
theorem run_tokens (outer : List JsonFrame) (rest : List JsonToken) : (tree : Json) →
    run ⟨outer, .value⟩ (tree.tokens ++ rest) = run ⟨outer, .complete tree.value⟩ rest
  | .text value => rfl
  | .number value => rfl
  | .array items => by
    rw [Json.tokens, List.cons_append, List.cons_append, List.append_assoc]
    by_cases hitems : items = []
    · rw [hitems]
      rfl
    · exact run_itemTokens outer [] rest items hitems
  | .object fields => by
    rw [Json.tokens, List.cons_append, List.cons_append, List.append_assoc]
    by_cases hfields : fields = []
    · rw [hfields]
      rfl
    · exact run_fieldTokens outer [] rest fields hfields

theorem run_itemTokens (outer : List JsonFrame) (earlier : List JsonValue)
    (rest : List JsonToken) : (items : List Json) → items ≠ [] →
    run ⟨.array earlier :: outer, .value⟩
        (JsonToken.separated (Json.itemTokens items) ++ .closeArray :: rest) =
      run ⟨outer, .complete (.array (earlier ++ Json.values items))⟩ rest
  | [], hitems => absurd rfl hitems
  | [item], _ => by
    rw [Json.itemTokens, Json.itemTokens, separated_singleton]
    exact run_tokens (.array earlier :: outer) (.closeArray :: rest) item
  | first :: second :: items, _ => by
    have hitems := run_itemTokens outer (earlier ++ [first.value]) rest (second :: items) (by simp)
    rw [List.append_assoc, List.singleton_append] at hitems
    rw [Json.itemTokens, Json.itemTokens, separated_cons_cons, List.append_assoc,
      run_tokens _ _ first]
    exact hitems

theorem run_fieldTokens (outer : List JsonFrame) (earlier : List (Text × JsonValue))
    (rest : List JsonToken) : (fields : List (Text × Json)) → fields ≠ [] →
    run ⟨outer, .key earlier⟩
        (JsonToken.separated (Json.fieldTokens fields) ++ .closeObject :: rest) =
      run ⟨outer, .complete (.object (earlier ++ Json.fieldValues fields))⟩ rest
  | [], hfields => absurd rfl hfields
  | [(key, value)], _ => by
    rw [Json.fieldTokens, Json.fieldTokens, separated_singleton, List.cons_append,
      List.cons_append]
    exact run_tokens (.object earlier key :: outer) (.closeObject :: rest) value
  | (key, value) :: second :: fields, _ => by
    have hfields := run_fieldTokens outer (earlier ++ [(key, value.value)]) rest
      (second :: fields) (by simp)
    rw [List.append_assoc, List.singleton_append] at hfields
    rw [Json.fieldTokens, Json.fieldTokens, separated_cons_cons, List.append_assoc,
      List.cons_append, List.cons_append]
    exact (run_tokens (.object earlier key :: outer) _ value).trans hfields

end

end JsonParser

/-- The layout of a tree, on a line that ends, means what the tree is meant to say. -/
theorem JsonValue.parse?_render (depth : Nat) (tree : Json) :
    parse? (tree.render depth ++ [Text.newline]) = some tree.value := by
  have hlexer : JsonLexer.run {} (tree.render depth ++ [Text.newline]) =
      some { tokens := tree.tokens } :=
    JsonLexer.lexes_render depth tree [] Text.newline [] (by decide)
  have hparser : JsonParser.run {} (tree.tokens ++ []) = some { phase := .complete tree.value } :=
    JsonParser.run_tokens [] [] tree
  rw [List.append_nil] at hparser
  simp only [parse?, Option.bind_eq_bind, hlexer, Option.bind_some, JsonLexer.finish?, hparser,
    JsonParser.finish?]

end NameBinding
