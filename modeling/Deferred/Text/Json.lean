/-! Documents of nested arrays and objects, and their compact text: no blanks, fields in the order in
which they are listed, and escapes for quotes, backslashes and controls only. -/

namespace Deferred

inductive Json where
  | null
  | bool (value : Bool)
  | number (value : Int)
  | text (value : String)
  | array (items : List Json)
  | object (fields : List (String × Json))

namespace Json

def fourDigits (n : Nat) : List Char :=
  let digits := Nat.toDigits 16 n
  List.replicate (4 - digits.length) '0' ++ digits

def escaped (c : Char) : List Char :=
  if c = '"' then ['\\', '"']
  else if c = '\\' then ['\\', '\\']
  else if c = '\x08' then ['\\', 'b']
  else if c = '\x0c' then ['\\', 'f']
  else if c = '\n' then ['\\', 'n']
  else if c = '\r' then ['\\', 'r']
  else if c = '\t' then ['\\', 't']
  else if c.toNat < 0x20 then ['\\', 'u'] ++ fourDigits c.toNat
  else [c]

def quoted (text : String) : String :=
  String.ofList ('"' :: text.toList.flatMap escaped ++ ['"'])

mutual

def compact : Json → String
  | .null => "null"
  | .bool value => if value then "true" else "false"
  | .number value => toString value
  | .text value => quoted value
  | .array items => "[" ++ ",".intercalate (compactItems items) ++ "]"
  | .object fields => "\x7b" ++ ",".intercalate (compactFields fields) ++ "\x7d"

def compactItems : List Json → List String
  | [] => []
  | item :: rest => item.compact :: compactItems rest

def compactFields : List (String × Json) → List String
  | [] => []
  | (name, value) :: rest => (quoted name ++ ":" ++ value.compact) :: compactFields rest

end

def asciiEscaped (c : Char) : List Char :=
  let unit (n : Nat) : List Char := ['\\', 'u'] ++ fourDigits n
  if c.toNat < 0x80 then [c]
  else if c.toNat < 0x10000 then unit c.toNat
  else
    let rest := c.toNat - 0x10000
    unit (0xD800 + rest / 0x400) ++ unit (0xDC00 + rest % 0x400)

/-- The compact text of a document in ASCII. Characters outside ASCII stand only within strings. -/
def ascii (document : Json) : String :=
  document.compact.foldl (fun text c =>
    if c.toNat < 0x80 then text.push c else text ++ String.ofList (asciiEscaped c)) ""

end Json

end Deferred
