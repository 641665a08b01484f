/-!
# JSON lexemes

The tokens of a JSON text, cut by one pass over its characters, and what the characters of a number
or of a string mean. A number is kept as it was written. A string can be well formed and still have
no text: an escape may name half of a surrogate pair without the other half.
-/

namespace Diskette.Json

/-- A token of a JSON text. -/
inductive Token where
  | openBrace
  | closeBrace
  | openBracket
  | closeBracket
  | colon
  | comma
  /-- A run of letters. -/
  | word (letters : List Char)
  /-- A run of digits, signs, points and exponent marks. -/
  | number (lexeme : List Char)
  /-- What stands between two quotes. -/
  | string (body : List Char)
  deriving DecidableEq, Repr

/-! ## Tokens -/

/-- Where in a token the pass is; the characters of the token so far are in reverse order. -/
inductive Mode where
  | between
  | inWord (letters : List Char)
  | inNumber (lexeme : List Char)
  | inString (body : List Char)
  /-- After a backslash in a string. -/
  | escaped (body : List Char)

/-- Whether a character separates tokens. -/
def isBlank (c : Char) : Bool := c = ' ' ∨ c = '\n' ∨ c = '\t' ∨ c = '\r'

/-- Whether a number goes on with a character. -/
def isNumeric (c : Char) : Bool :=
  c.isDigit ∨ c = '-' ∨ c = '+' ∨ c = '.' ∨ c = 'e' ∨ c = 'E'

/-- Starts a token between tokens; `tokens` are those before it, the last one first. -/
def startToken (c : Char) (tokens : List Token) : Option (Mode × List Token) :=
  if isBlank c then some (.between, tokens)
  else if c = '{' then some (.between, .openBrace :: tokens)
  else if c = '}' then some (.between, .closeBrace :: tokens)
  else if c = '[' then some (.between, .openBracket :: tokens)
  else if c = ']' then some (.between, .closeBracket :: tokens)
  else if c = ':' then some (.between, .colon :: tokens)
  else if c = ',' then some (.between, .comma :: tokens)
  else if c = '"' then some (.inString [], tokens)
  else if c.isAlpha then some (.inWord [c], tokens)
  else if isNumeric c then some (.inNumber [c], tokens)
  else none

/-- One character of the pass. -/
def lexChar (c : Char) (mode : Mode) (tokens : List Token) : Option (Mode × List Token) :=
  match mode with
  | .between => startToken c tokens
  | .inWord letters =>
    if c.isAlpha then some (.inWord (c :: letters), tokens)
    else startToken c (.word letters.reverse :: tokens)
  | .inNumber lexeme =>
    if isNumeric c then some (.inNumber (c :: lexeme), tokens)
    else startToken c (.number lexeme.reverse :: tokens)
  | .inString body =>
    if c = '"' then some (.between, .string body.reverse :: tokens)
    else if c = '\\' then some (.escaped (c :: body), tokens)
    else some (.inString (c :: body), tokens)
  | .escaped body => some (.inString (c :: body), tokens)

/-- The tokens of a text, the last one first, after those in `tokens`. -/
def lexFrom : List Char → Mode → List Token → Option (List Token)
  | [], .between, tokens => some tokens
  | [], .inWord letters, tokens => some (.word letters.reverse :: tokens)
  | [], .inNumber lexeme, tokens => some (.number lexeme.reverse :: tokens)
  | [], .inString _, _ => none
  | [], .escaped _, _ => none
  | c :: rest, mode, tokens =>
    match lexChar c mode tokens with
    | some (mode, tokens) => lexFrom rest mode tokens
    | none => none

/-- The tokens of a text. -/
def lex? (text : List Char) : Option (List Token) := (lexFrom text .between []).map List.reverse

/-! ## Numbers -/

/-- Whether characters are digits, and at least one. -/
def isDigits (cs : List Char) : Bool := cs ≠ [] ∧ cs.all Char.isDigit

/-- Whether digits write a whole number without a superfluous zero. -/
def isWhole : List Char → Bool
  | [] => false
  | ['0'] => true
  | '0' :: _ => false
  | digits => isDigits digits

/-- Whether characters are an exponent: a mark, perhaps a sign, and digits. Nothing is one too. -/
def isExponent : List Char → Bool
  | [] => true
  | mark :: '+' :: digits => (mark = 'e' ∨ mark = 'E') ∧ isDigits digits
  | mark :: '-' :: digits => (mark = 'e' ∨ mark = 'E') ∧ isDigits digits
  | mark :: digits => (mark = 'e' ∨ mark = 'E') ∧ isDigits digits

/-- Whether characters are a fraction and an exponent, either of which may be missing. -/
def isTail : List Char → Bool
  | '.' :: rest => isDigits (rest.takeWhile Char.isDigit) ∧ isExponent (rest.dropWhile Char.isDigit)
  | rest => isExponent rest

/-- Whether characters are a number without a sign. -/
def isUnsigned (cs : List Char) : Bool :=
  isWhole (cs.takeWhile Char.isDigit) ∧ isTail (cs.dropWhile Char.isDigit)

/-- Whether characters are a number. -/
def isNumber : List Char → Bool
  | '-' :: rest => isUnsigned rest
  | rest => isUnsigned rest

/-- The natural number that digits write. -/
def natOfDigits (digits : List Char) : Nat :=
  digits.foldl (fun n c => 10 * n + (c.toNat - '0'.toNat)) 0

/-- The natural number that a lexeme writes without a sign, a fraction or an exponent. -/
def natOfLexeme? (lexeme : List Char) : Option Nat :=
  if isWhole lexeme then some (natOfDigits lexeme) else none

/-! ## Strings -/

/-- A part of a string: a character, or a UTF-16 unit that an escape names. -/
inductive StringUnit where
  | plain (c : Char)
  | escape (unit : Nat)
  deriving DecidableEq, Repr

/-- The value of a hexadecimal digit. -/
def hexValue? (c : Char) : Option Nat :=
  if c.isDigit then some (c.toNat - '0'.toNat)
  else if 'a' ≤ c ∧ c ≤ 'f' then some (c.toNat - 'a'.toNat + 10)
  else if 'A' ≤ c ∧ c ≤ 'F' then some (c.toNat - 'A'.toNat + 10)
  else none

/-- The number that four hexadecimal digits write. -/
def hexUnit? (a b c d : Char) : Option Nat :=
  match hexValue? a, hexValue? b, hexValue? c, hexValue? d with
  | some a, some b, some c, some d => some (a * 4096 + b * 256 + c * 16 + d)
  | _, _, _, _ => none

/-- The character that a backslash and a letter stand for. -/
def shortEscape? : Char → Option Char
  | '"' => some '"'
  | '\\' => some '\\'
  | '/' => some '/'
  | 'b' => some '\x08'
  | 'f' => some '\x0c'
  | 'n' => some '\n'
  | 'r' => some '\r'
  | 't' => some '\t'
  | _ => none

/-- The units of the body of a string after those in `units`, the last one first; `none` if an
escape is malformed or a control character occurs. -/
def unitsFrom : List Char → List StringUnit → Option (List StringUnit)
  | [], units => some units
  | '\\' :: 'u' :: a :: b :: c :: d :: rest, units =>
    match hexUnit? a b c d with
    | some unit => unitsFrom rest (.escape unit :: units)
    | none => none
  | '\\' :: c :: rest, units =>
    match shortEscape? c with
    | some c => unitsFrom rest (.plain c :: units)
    | none => none
  | ['\\'], _ => none
  | c :: rest, units => if c.toNat < 0x20 then none else unitsFrom rest (.plain c :: units)

/-- The units of the body of a string. -/
def units? (body : List Char) : Option (List StringUnit) := (unitsFrom body []).map List.reverse

/-- The text of units after the characters in `text`, the last one first; `none` if a surrogate
lacks its other half. -/
def joinUnits : List StringUnit → List Char → Option (List Char)
  | [], text => some text
  | .plain c :: rest, text => joinUnits rest (c :: text)
  | .escape high :: .escape low :: rest, text =>
    if 0xD800 ≤ high ∧ high ≤ 0xDBFF then
      if 0xDC00 ≤ low ∧ low ≤ 0xDFFF then
        joinUnits rest (Char.ofNat (0x10000 + (high - 0xD800) * 0x400 + (low - 0xDC00)) :: text)
      else none
    else if 0xDC00 ≤ high ∧ high ≤ 0xDFFF then none
    else joinUnits (.escape low :: rest) (Char.ofNat high :: text)
  | .escape unit :: rest, text =>
    if 0xD800 ≤ unit ∧ unit ≤ 0xDFFF then none else joinUnits rest (Char.ofNat unit :: text)

/-- The text of the units of a string. -/
def textOfUnits? (units : List StringUnit) : Option String :=
  (joinUnits units []).map fun text => String.ofList text.reverse

end Diskette.Json
