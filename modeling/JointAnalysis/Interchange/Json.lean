import JointAnalysis.Literal.Binary64

/-!
# JSON

Values are exchanged as JSON. A number keeps the way in which it was written apart from its sign:
a run of digits alone is a whole number, anything with a point or an exponent is a decimal.
-/

namespace JointAnalysis

/-- A number as it is written. -/
inductive Numeral where
  /-- Digits alone, with the sign that stands before them. -/
  | whole (negative : Bool) (magnitude : Nat)
  /-- Digits before and after the point, and the exponent of ten. -/
  | decimal (negative : Bool) (integer fraction : List Char) (exponent : Int)
  deriving DecidableEq, Repr

/-- A JSON value. -/
inductive Json where
  | null
  | bool (value : Bool)
  | number (value : Numeral)
  | text (value : String)
  | list (items : List Json)
  | record (fields : List (String × Json))
  deriving Repr

namespace Json

/-- A natural number. -/
def nat (n : Nat) : Json := .number (.whole false n)

/-- An integer. -/
def int (n : Int) : Json := .number (.whole (n < 0) n.natAbs)

/-- A value, or null if there is none. -/
def ofOption {β : Type} (f : β → Json) : Option β → Json
  | some x => f x
  | none => .null

/-- A record. Of several fields of one name the last one counts. -/
def ofFields (fields : List (String × Json)) : Json :=
  .record <| fields.foldr (fun field later =>
    if later.any (·.1 = field.1) then later else field :: later) []

/-- The value of a field of a record. -/
def field? (name : String) : Json → Option Json
  | .record fields => (fields.find? (·.1 = name)).map (·.2)
  | _ => none

/-- The hexadecimal digits of a number, at least four. -/
def hex4 (n : Nat) : List Char :=
  let digits := Nat.toDigits 16 n
  List.replicate (4 - digits.length) '0' ++ digits

/-- The letter by which a common control is written after a backslash. -/
def controlLetter? (c : Char) : Option Char :=
  [('\x08', 'b'), ('\t', 't'), ('\n', 'n'), ('\x0c', 'f'), ('\r', 'r')].lookup c

/-- How a character is written inside a JSON string. Controls without a letter of their own are
named by their code points. -/
def escape (c : Char) : List Char :=
  if c = '"' ∨ c = '\\' then ['\\', c]
  else
    match controlLetter? c with
    | some letter => ['\\', letter]
    | none => if c.toNat < 32 then ['\\', 'u'] ++ hex4 c.toNat else [c]

/-- A string between quotation marks. -/
def quote (s : String) : String :=
  "\"" ++ String.ofList (s.toList.flatMap escape) ++ "\""

/-- A number in the form in which it was read. -/
def Numeral.render : Numeral → String
  | .whole negative n => (if negative then "-" else "") ++ toString n
  | .decimal negative integer fraction exponent =>
    (if negative then "-" else "") ++ String.ofList integer ++
      (if fraction.isEmpty then "" else "." ++ String.ofList fraction) ++
      "e" ++ toString exponent

mutual

/-- The text of a value on one line without blanks. -/
def render : Json → String
  | .null => "null"
  | .bool b => if b then "true" else "false"
  | .number n => Numeral.render n
  | .text s => quote s
  | .list items => "[" ++ ",".intercalate (renderItems items) ++ "]"
  | .record fields => "\x7b" ++ ",".intercalate (renderFields fields) ++ "\x7d"

/-- The texts of the items of a list. -/
def renderItems : List Json → List String
  | [] => []
  | item :: rest => render item :: renderItems rest

/-- The texts of the fields of a record. -/
def renderFields : List (String × Json) → List String
  | [] => []
  | (name, value) :: rest => (quote name ++ ":" ++ render value) :: renderFields rest

end

end Json

end JointAnalysis
