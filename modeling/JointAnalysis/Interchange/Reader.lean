import JointAnalysis.Interchange.Json

/-!
# Reading JSON

`Json.read?` reads one value from a text. Each step works on the characters that are left and
returns those that follow what it has read. Every step reads something, so the length of the text
bounds their number.
-/

namespace JointAnalysis.Json

/-- The characters after any blanks. -/
def skipBlanks (cs : List Char) : List Char :=
  cs.dropWhile fun c => c = ' ' || c = '\t' || c = '\n' || c = '\r'

/-- The value of a hexadecimal digit. -/
def hexDigit? (c : Char) : Option Nat :=
  if c.isDigit then some (c.toNat - '0'.toNat)
  else if 'a' ≤ c ∧ c ≤ 'f' then some (c.toNat - 'a'.toNat + 10)
  else if 'A' ≤ c ∧ c ≤ 'F' then some (c.toNat - 'A'.toNat + 10)
  else none

/-- The value of four hexadecimal digits, and what follows them. -/
def readUnit? : List Char → Option (Nat × List Char)
  | a :: b :: c :: d :: rest => do
    let unit := ((← hexDigit? a) * 16 + (← hexDigit? b)) * 256 +
      ((← hexDigit? c) * 16 + (← hexDigit? d))
    return (unit, rest)
  | _ => none

/-- The character that follows a backslash and `u`: four digits, or two groups of four that form a
pair. -/
def readCodePoint? (cs : List Char) : Option (Char × List Char) := do
  let (high, rest) ← readUnit? cs
  if 0xd800 ≤ high ∧ high < 0xdc00 then
    match rest with
    | '\\' :: 'u' :: tail =>
      let (low, rest) ← readUnit? tail
      if 0xdc00 ≤ low ∧ low < 0xe000 then
        return (Char.ofNat (0x10000 + (high - 0xd800) * 0x400 + (low - 0xdc00)), rest)
      else
        none
    | _ => none
  else
    return (Char.ofNat high, rest)

/-- The characters of a string up to its closing mark, and what follows the mark. -/
def readString? : Nat → List Char → Option (List Char × List Char)
  | 0, _ => none
  | _ + 1, [] => none
  | _ + 1, '"' :: rest => some ([], rest)
  | steps + 1, '\\' :: c :: rest => do
    let (char, rest) ←
      match c with
      | '"' => some ('"', rest)
      | '\\' => some ('\\', rest)
      | '/' => some ('/', rest)
      | 'b' => some ('\x08', rest)
      | 'f' => some ('\x0c', rest)
      | 'n' => some ('\n', rest)
      | 'r' => some ('\r', rest)
      | 't' => some ('\t', rest)
      | 'u' => readCodePoint? rest
      | _ => none
    let (chars, rest) ← readString? steps rest
    return (char :: chars, rest)
  | steps + 1, c :: rest => do
    let (chars, rest) ← readString? steps rest
    return (c :: chars, rest)

/-- The number that a run of digits denotes. -/
def digitsValue (digits : List Char) : Nat :=
  digits.foldl (fun n c => n * 10 + (c.toNat - '0'.toNat)) 0

/-- The digits at the front, and what follows them. -/
def readDigits (cs : List Char) : List Char × List Char :=
  (cs.takeWhile Char.isDigit, cs.dropWhile Char.isDigit)

/-- The exponent, if one is written, and what follows it. -/
def readExponent? (cs : List Char) : Option (Option Int × List Char) :=
  match cs with
  | c :: rest =>
    if c = 'e' ∨ c = 'E' then
      let (negative, rest) :=
        match rest with
        | '-' :: rest => (true, rest)
        | '+' :: rest => (false, rest)
        | rest => (false, rest)
      match readDigits rest with
      | ([], _) => none
      | (digits, rest) =>
        let size : Int := digitsValue digits
        some (some (if negative then -size else size), rest)
    else
      some (none, cs)
  | [] => some (none, cs)

/-- A number, and what follows it. -/
def readNumber? (cs : List Char) : Option (Numeral × List Char) := do
  let (negative, cs) :=
    match cs with
    | '-' :: rest => (true, rest)
    | cs => (false, cs)
  let (integer, cs) := readDigits cs
  if integer.isEmpty then
    none
  let (fraction, cs) ←
    match cs with
    | '.' :: rest =>
      match readDigits rest with
      | ([], _) => none
      | (digits, rest) => some (digits, rest)
    | cs => some ([], cs)
  let (exponent, cs) ← readExponent? cs
  match fraction, exponent with
  | [], none => return (.whole negative (digitsValue integer), cs)
  | _, _ => return (.decimal negative integer fraction (exponent.getD 0), cs)

mutual

/-- A value, and what follows it. -/
def readValue? : Nat → List Char → Option (Json × List Char)
  | 0, _ => none
  | steps + 1, cs =>
    match skipBlanks cs with
    | 'n' :: 'u' :: 'l' :: 'l' :: rest => some (.null, rest)
    | 't' :: 'r' :: 'u' :: 'e' :: rest => some (.bool true, rest)
    | 'f' :: 'a' :: 'l' :: 's' :: 'e' :: rest => some (.bool false, rest)
    | '"' :: rest => do
      let (chars, rest) ← readString? (rest.length + 1) rest
      return (.text (String.ofList chars), rest)
    | '[' :: rest =>
      match skipBlanks rest with
      | ']' :: rest => some (.list [], rest)
      | rest => do
        let (items, rest) ← readItems? steps rest
        return (.list items, rest)
    | '{' :: rest =>
      match skipBlanks rest with
      | '}' :: rest => some (.record [], rest)
      | rest => do
        let (fields, rest) ← readFields? steps rest
        return (Json.ofFields fields, rest)
    | cs => do
      let (numeral, rest) ← readNumber? cs
      return (.number numeral, rest)

/-- The items of a list up to its closing bracket, and what follows it. -/
def readItems? : Nat → List Char → Option (List Json × List Char)
  | 0, _ => none
  | steps + 1, cs => do
    let (item, rest) ← readValue? steps cs
    match skipBlanks rest with
    | ']' :: rest => return ([item], rest)
    | ',' :: rest =>
      let (items, rest) ← readItems? steps rest
      return (item :: items, rest)
    | _ => none

/-- The fields of a record up to its closing brace, and what follows it. -/
def readFields? : Nat → List Char → Option (List (String × Json) × List Char)
  | 0, _ => none
  | steps + 1, cs =>
    match skipBlanks cs with
    | '"' :: rest => do
      let (name, rest) ← readString? (rest.length + 1) rest
      match skipBlanks rest with
      | ':' :: rest =>
        let (value, rest) ← readValue? steps rest
        let field := (String.ofList name, value)
        match skipBlanks rest with
        | '}' :: rest => return ([field], rest)
        | ',' :: rest =>
          let (fields, rest) ← readFields? steps rest
          return (field :: fields, rest)
        | _ => none
      | _ => none
    | _ => none

end

/-- The value that a text holds, if it holds one and nothing else. -/
def read? (text : String) : Option Json := do
  let cs := text.toList
  let (value, rest) ← readValue? (2 * cs.length + 2) cs
  if (skipBlanks rest).isEmpty then some value else none

end JointAnalysis.Json
