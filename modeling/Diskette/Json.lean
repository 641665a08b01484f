import Diskette.Json.Lexeme

/-!
# JSON

JSON values as they are written: fields keep their order and their repetitions, numbers their
spelling, and a string has no text when its escapes name no characters. Reading is strict and has no
limit on depth: tokens go one by one into a machine that keeps what is open on a stack.
-/

namespace Diskette

/-- A JSON value. -/
inductive Json where
  | null
  | bool (value : Bool)
  | number (lexeme : List Char)
  | string (text : Option String)
  | array (items : List Json)
  | object (fields : List (Option String × Json))

namespace Json

/-- An array or object that has not ended; its parts so far, the last one first. -/
inductive Frame where
  | array (items : List Json)
  /-- `key` belongs to the value that is being read. -/
  | object (fields : List (Option String × Json)) (key : Option String)

/-- What the machine waits for. -/
inductive Reader where
  | value (stack : List Frame)
  /-- A value or the end of the array on top. -/
  | firstItem (stack : List Frame)
  | key (stack : List Frame)
  /-- A key or the end of the object on top. -/
  | firstKey (stack : List Frame)
  | colon (key : Option String) (stack : List Frame)
  /-- A comma or the end of what is on top. -/
  | separator (stack : List Frame)
  /-- Nothing more: the text is complete. -/
  | done (value : Json)

/-- Puts a complete value where it belongs. -/
def complete (value : Json) : List Frame → Reader
  | [] => .done value
  | .array items :: stack => .separator (.array (value :: items) :: stack)
  | .object fields key :: stack => .separator (.object ((key, value) :: fields) none :: stack)

/-- The value that is a single token. -/
def scalar? : Token → Option Json
  | .word ['n', 'u', 'l', 'l'] => some null
  | .word ['t', 'r', 'u', 'e'] => some (bool true)
  | .word ['f', 'a', 'l', 's', 'e'] => some (bool false)
  | .number lexeme => if isNumber lexeme then some (number lexeme) else none
  | .string body => (units? body).map fun units => string (textOfUnits? units)
  | _ => none

/-- The start of a value. -/
def openValue (token : Token) (stack : List Frame) : Option Reader :=
  match token with
  | .openBracket => some (.firstItem (.array [] :: stack))
  | .openBrace => some (.firstKey (.object [] none :: stack))
  | token => (scalar? token).map (complete · stack)

/-- A key. -/
def openKey (token : Token) (stack : List Frame) : Option Reader :=
  match token with
  | .string body => (units? body).map fun units => .colon (textOfUnits? units) stack
  | _ => none

/-- One token. -/
def step (token : Token) : Reader → Option Reader
  | .value stack => openValue token stack
  | .firstItem stack =>
    match token, stack with
    | .closeBracket, .array items :: rest => some (complete (array items.reverse) rest)
    | token, stack => openValue token stack
  | .key stack => openKey token stack
  | .firstKey stack =>
    match token, stack with
    | .closeBrace, .object fields _ :: rest => some (complete (object fields.reverse) rest)
    | token, stack => openKey token stack
  | .colon key stack =>
    match token, stack with
    | .colon, .object fields _ :: rest => some (.value (.object fields key :: rest))
    | _, _ => none
  | .separator stack =>
    match token, stack with
    | .comma, .array items :: rest => some (.value (.array items :: rest))
    | .closeBracket, .array items :: rest => some (complete (array items.reverse) rest)
    | .comma, .object fields key :: rest => some (.key (.object fields key :: rest))
    | .closeBrace, .object fields _ :: rest => some (complete (object fields.reverse) rest)
    | _, _ => none
  | .done _ => none

/-- Tokens one after the other. -/
def run : List Token → Reader → Option Reader
  | [], reader => some reader
  | token :: rest, reader =>
    match step token reader with
    | some reader => run rest reader
    | none => none

/-- The value that tokens write. -/
def ofTokens? (tokens : List Token) : Option Json :=
  match run tokens (.value []) with
  | some (.done value) => some value
  | _ => none

/-- The value that a text writes. -/
def parse? (text : String) : Option Json := (lex? text.toList).bind ofTokens?

/-! ## Values of known shapes -/

/-- The natural number of at most `limit` that a value is. -/
def natural? (limit : Nat) : Json → Option Nat
  | number lexeme => (natOfLexeme? lexeme).filter (· ≤ limit)
  | _ => none

/-- The truth value that a value is. -/
def bool? : Json → Option Bool
  | bool value => some value
  | _ => none

/-- The name of a choice without parts: a string, or an object with that name for its only field and
null for its value. -/
def choice? : Json → Option String
  | string text => text
  | object [(key, null)] => key
  | _ => none

/-- The value of the first field of that name. -/
def field? (name : String) : Json → Option Json
  | object fields => (fields.find? fun field => field.1 = some name).map (·.2)
  | _ => none

/-- How often a field of that name occurs among fields. -/
def countField (name : String) (fields : List (Option String × Json)) : Nat :=
  fields.countP fun field => field.1 = some name

/-- The parts of a record with these fields: an object, in which other fields are passed over and
none of these is repeated, or an array of the parts in order, in which the last ones may be
missing. -/
def record? (names : List String) : Json → Option (List (Option Json))
  | object fields =>
    if fields.all (·.1.isSome) ∧ names.all (countField · fields ≤ 1) then
      some (names.map fun name => field? name (object fields))
    else none
  | array items =>
    if items.length ≤ names.length then
      some (items.map some ++ List.replicate (names.length - items.length) none)
    else none
  | _ => none

end Json

end Diskette
