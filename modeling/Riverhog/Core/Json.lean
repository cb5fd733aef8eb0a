import Riverhog.Core.Python

/-!
# JSON texts

The values of JSON, the compact writer that `json.dumps` is with the separators
`,` and `:`, and the reader `json.loads`. A writer either keeps non-ASCII text as it
is or escapes it; `loads_render` says that the reader inverts both, so a written
text determines its value.

A floating-point literal is kept as its text. An escape that spells a lone
surrogate denotes no Unicode scalar value and is refused.
-/

namespace Riverhog.Core

/-- A JSON value; an object is the sequence of its members. -/
inductive Json where
  /-- `None`. -/
  | null
  /-- `True` and `False`. -/
  | bool (value : Bool)
  /-- An `int`. -/
  | int (value : Int)
  /-- A `float`, as written. -/
  | float (literal : Text)
  /-- A `str`. -/
  | str (value : Text)
  /-- A `list`. -/
  | arr (items : List Json)
  /-- A `dict` in insertion order. -/
  | obj (members : List (Text × Json))

namespace Json

mutual

/-- Equality of values, members in their order. -/
def decEq : (a b : Json) → Decidable (a = b)
  | .null, .null => isTrue rfl
  | .bool a, .bool b => decidable_of_iff (a = b) (by simp)
  | .int a, .int b => decidable_of_iff (a = b) (by simp)
  | .float a, .float b => decidable_of_iff (a = b) (by simp)
  | .str a, .str b => decidable_of_iff (a = b) (by simp)
  | .arr a, .arr b =>
    match decEqItems a b with
    | isTrue h => isTrue (h ▸ rfl)
    | isFalse h => isFalse fun he => h (Json.arr.inj he)
  | .obj a, .obj b =>
    match decEqMembers a b with
    | isTrue h => isTrue (h ▸ rfl)
    | isFalse h => isFalse fun he => h (Json.obj.inj he)
  | .null, .bool _ | .null, .int _ | .null, .float _ | .null, .str _ | .null, .arr _
  | .null, .obj _ | .bool _, .null | .bool _, .int _ | .bool _, .float _ | .bool _, .str _
  | .bool _, .arr _ | .bool _, .obj _ | .int _, .null | .int _, .bool _ | .int _, .float _
  | .int _, .str _ | .int _, .arr _ | .int _, .obj _ | .float _, .null | .float _, .bool _
  | .float _, .int _ | .float _, .str _ | .float _, .arr _ | .float _, .obj _ | .str _, .null
  | .str _, .bool _ | .str _, .int _ | .str _, .float _ | .str _, .arr _ | .str _, .obj _
  | .arr _, .null | .arr _, .bool _ | .arr _, .int _ | .arr _, .float _ | .arr _, .str _
  | .arr _, .obj _ | .obj _, .null | .obj _, .bool _ | .obj _, .int _ | .obj _, .float _
  | .obj _, .str _ | .obj _, .arr _ => isFalse nofun

/-- Equality of the items of two arrays. -/
def decEqItems : (a b : List Json) → Decidable (a = b)
  | [], [] => isTrue rfl
  | x :: a, y :: b =>
    match decEq x y, decEqItems a b with
    | isTrue h, isTrue h' => isTrue (h ▸ h' ▸ rfl)
    | isFalse h, _ => isFalse fun he => h (List.cons.inj he).1
    | _, isFalse h => isFalse fun he => h (List.cons.inj he).2
  | [], _ :: _ | _ :: _, [] => isFalse nofun

/-- Equality of the members of two objects. -/
def decEqMembers : (a b : List (Text × Json)) → Decidable (a = b)
  | [], [] => isTrue rfl
  | (k, x) :: a, (l, y) :: b =>
    if hk : k = l then
      match decEq x y, decEqMembers a b with
      | isTrue h, isTrue h' => isTrue (hk ▸ h ▸ h' ▸ rfl)
      | isFalse h, _ => isFalse fun he => h (Prod.mk.inj (List.cons.inj he).1).2
      | _, isFalse h => isFalse fun he => h (List.cons.inj he).2
    else isFalse fun he => hk (Prod.mk.inj (List.cons.inj he).1).1
  | [], _ :: _ | _ :: _, [] => isFalse nofun

end

instance : DecidableEq Json := decEq

/-- A non-negative integer. -/
def nat (n : Nat) : Json := .int n

/-! ## Writing -/

/-- `\\u` and the four hexadecimal digits of a code unit. -/
def unicodeEscape (n : Nat) : Text :=
  '\\' :: 'u' :: [n / 4096 % 16, n / 256 % 16, n / 16 % 16, n % 16].map Nat.digitChar

/-- One character of a string literal; `ascii` is the argument `ensure_ascii`. -/
def escapeChar (ascii : Bool) (c : Char) : Text :=
  if c = '"' then ['\\', '"']
  else if c = '\\' then ['\\', '\\']
  else if c = '\n' then ['\\', 'n']
  else if c = '\r' then ['\\', 'r']
  else if c = '\t' then ['\\', 't']
  else if c = '\x08' then ['\\', 'b']
  else if c = '\x0c' then ['\\', 'f']
  else if c.toNat < 0x20 then unicodeEscape c.toNat
  else if !ascii || c.toNat < 0x7F then [c]
  else if c.toNat < 0x10000 then unicodeEscape c.toNat
  else unicodeEscape (0xD800 + (c.toNat - 0x10000) / 1024) ++
    unicodeEscape (0xDC00 + (c.toNat - 0x10000) % 1024)

/-- A string literal. -/
def renderString (ascii : Bool) (t : Text) : Text := '"' :: t.flatMap (escapeChar ascii) ++ ['"']

/-- An integer literal. -/
def renderInt (n : Int) : Text := if n < 0 then '-' :: decimal n.natAbs else decimal n.natAbs

mutual

/-- The compact text of a value, members in their order. -/
def render (ascii : Bool) : Json → Text
  | .null => "null"
  | .bool true => "true"
  | .bool false => "false"
  | .int n => renderInt n
  | .float literal => literal
  | .str t => renderString ascii t
  | .arr [] => "[]"
  | .arr (item :: items) => '[' :: render ascii item ++ renderItems ascii items
  | .obj [] => "{}"
  | .obj ((key, value) :: members) =>
    '{' :: renderString ascii key ++ ':' :: render ascii value ++ renderMembers ascii members

/-- What follows the first item of an array. -/
def renderItems (ascii : Bool) : List Json → Text
  | [] => [']']
  | item :: items => ',' :: render ascii item ++ renderItems ascii items

/-- What follows the first member of an object. -/
def renderMembers (ascii : Bool) : List (Text × Json) → Text
  | [] => ['}']
  | (key, value) :: members =>
    ',' :: renderString ascii key ++ ':' :: render ascii value ++ renderMembers ascii members

end

mutual

/-- The argument `sort_keys`: order the members of every object by key. -/
def sortKeys : Json → Json
  | .arr items => .arr (sortKeysItems items)
  | .obj members => .obj (sortedBy Prod.fst (sortKeysMembers members))
  | .null => .null
  | .bool b => .bool b
  | .int n => .int n
  | .float literal => .float literal
  | .str t => .str t

/-- `sortKeys` for every item. -/
def sortKeysItems : List Json → List Json
  | [] => []
  | item :: items => sortKeys item :: sortKeysItems items

/-- `sortKeys` for the value of every member. -/
def sortKeysMembers : List (Text × Json) → List (Text × Json)
  | [] => []
  | (key, value) :: members => (key, sortKeys value) :: sortKeysMembers members

end

/-- `json.dumps(value, ensure_ascii=ascii, sort_keys=True, separators=(",", ":"))`. -/
def dumps (ascii : Bool) (value : Json) : Text := render ascii (sortKeys value)

/-! ## Reading -/

/-- The white space that may stand between tokens. -/
def skipSpace : Text → Text := List.dropWhile fun c => c == ' ' || c == '\t' || c == '\n' || c == '\r'

/-- The value of a hexadecimal digit of either case. -/
def hexValue (c : Char) : Option Nat :=
  if '0' ≤ c ∧ c ≤ '9' then some (c.toNat - '0'.toNat)
  else if 'a' ≤ c ∧ c ≤ 'f' then some (c.toNat - 'a'.toNat + 10)
  else if 'A' ≤ c ∧ c ≤ 'F' then some (c.toNat - 'A'.toNat + 10)
  else none

/-- Four hexadecimal digits. -/
def parseHex4 : Text → Option (Nat × Text)
  | a :: b :: c :: d :: rest => do
    let a ← hexValue a
    let b ← hexValue b
    let c ← hexValue c
    let d ← hexValue d
    return (((a * 16 + b) * 16 + c) * 16 + d, rest)
  | _ => none

/-- The character of a code unit that is no surrogate. -/
def scalar (n : Nat) : Option Char := if h : n.isValidChar then some (Char.ofNatAux n h) else none

/-- The escape after `\\u`: one code unit, or a surrogate pair. -/
def parseUnicode (t : Text) : Option (Char × Text) := do
  let (high, rest) ← parseHex4 t
  if 0xD800 ≤ high ∧ high ≤ 0xDBFF then
    match rest with
    | '\\' :: 'u' :: rest =>
      let (low, rest) ← parseHex4 rest
      if 0xDC00 ≤ low ∧ low ≤ 0xDFFF then
        let c ← scalar (0x10000 + (high - 0xD800) * 1024 + (low - 0xDC00))
        return (c, rest)
      else none
    | _ => none
  else
    let c ← scalar high
    return (c, rest)

/-- The characters of the short escapes. -/
def shortEscape : Char → Option Char
  | '"' => some '"'
  | '\\' => some '\\'
  | '/' => some '/'
  | 'b' => some '\x08'
  | 'f' => some '\x0c'
  | 'n' => some '\n'
  | 'r' => some '\r'
  | 't' => some '\t'
  | _ => none

/-- What follows a backslash. -/
def parseEscape : Text → Option (Char × Text)
  | [] => none
  | e :: rest => if e = 'u' then parseUnicode rest else (shortEscape e).map fun c => (c, rest)

/-- One character of a string literal. -/
def parseChar : Text → Option (Char × Text)
  | [] => none
  | c :: rest =>
    if c = '\\' then parseEscape rest else if c.toNat < 0x20 then none else some (c, rest)

/-- The rest of a string literal after its opening quote. -/
def parseString : Nat → Text → Option (Text × Text)
  | 0, _ => none
  | fuel + 1, t =>
    if t.head? = some '"' then some ([], t.tail)
    else do
      let (c, rest) ← parseChar t
      let (value, rest) ← parseString fuel rest
      return (c :: value, rest)

/-- The optional fraction or exponent of a number literal, given its first characters. -/
def parseSuffix (lead : Text → Option (Text × Text)) (t : Text) : Text × Text :=
  match lead t with
  | some (head, rest) =>
    if (rest.takeWhile Char.isDigit).isEmpty then ([], t)
    else (head ++ rest.takeWhile Char.isDigit, rest.dropWhile Char.isDigit)
  | none => ([], t)

/-- The point that opens a fraction. -/
def fractionLead : Text → Option (Text × Text)
  | '.' :: rest => some (['.'], rest)
  | _ => none

/-- The letter and sign that open an exponent. -/
def exponentLead : Text → Option (Text × Text)
  | e :: s :: rest =>
    if e = 'e' ∨ e = 'E' then
      if s = '+' ∨ s = '-' then some ([e, s], rest) else some ([e], s :: rest)
    else none
  | _ => none

/-- The integer part of a number literal: no digit may follow a leading zero. -/
def parseIntegerPart (t : Text) : Option (Text × Text) :=
  if t.head? = some '0' then some (['0'], t.tail)
  else if (t.takeWhile Char.isDigit).isEmpty then none
  else some (t.takeWhile Char.isDigit, t.dropWhile Char.isDigit)

/-- A number literal without its sign. -/
def parseUnsigned (sign : Text) (t : Text) : Option (Json × Text) := do
  let (digits, rest) ← parseIntegerPart t
  let (fraction, rest) := parseSuffix fractionLead rest
  let (exponent, rest) := parseSuffix exponentLead rest
  if fraction.isEmpty && exponent.isEmpty then
    let magnitude : Int := Nat.ofDigitChars 10 digits 0
    return (.int (if sign.isEmpty then magnitude else -magnitude), rest)
  else
    return (.float (sign ++ digits ++ fraction ++ exponent), rest)

/-- A number literal. -/
def parseNumber (t : Text) : Option (Json × Text) :=
  if t.head? = some '-' then parseUnsigned ['-'] t.tail else parseUnsigned [] t

/-- A literal name. -/
def parseName (name : String) (value : Json) (t : Text) : Option (Json × Text) :=
  if name.toList.isPrefixOf t then some (value, t.drop name.toList.length) else none

/-- A literal name or a number. -/
def parseScalar (t : Text) : Option (Json × Text) :=
  (parseName "null" .null t).or <| (parseName "true" (.bool true) t).or <|
    (parseName "false" (.bool false) t).or <| (parseName "NaN" (.float "NaN") t).or <|
    (parseName "Infinity" (.float "Infinity") t).or <|
    (parseName "-Infinity" (.float "-Infinity") t).or <| parseNumber t

/-- `dict[key] = value`: a repeated key keeps its place and takes the new value. -/
def insertMember (members : List (Text × Json)) (key : Text) (value : Json) :
    List (Text × Json) :=
  if members.any (·.1 == key) then
    members.map fun m => if m.1 == key then (key, value) else m
  else members ++ [(key, value)]

mutual

/-- A value, without white space around it. -/
def parseValue : Nat → Text → Option (Json × Text)
  | 0, _ => none
  | _ + 1, [] => none
  | fuel + 1, c :: rest =>
    if c = '"' then (parseString fuel rest).map fun p => (.str p.1, p.2)
    else if c = '[' then
      if (skipSpace rest).head? = some ']' then some (.arr [], (skipSpace rest).tail)
      else (parseItems fuel (skipSpace rest)).map fun p => (.arr p.1, p.2)
    else if c = '{' then
      if (skipSpace rest).head? = some '}' then some (.obj [], (skipSpace rest).tail)
      else (parseMembers fuel [] (skipSpace rest)).map fun p => (.obj p.1, p.2)
    else parseScalar (c :: rest)

/-- A value and the items after it. -/
def parseItems : Nat → Text → Option (List Json × Text)
  | 0, _ => none
  | fuel + 1, t => do
    let (item, rest) ← parseValue fuel t
    match skipSpace rest with
    | ',' :: rest =>
      let (items, rest) ← parseItems fuel (skipSpace rest)
      return (item :: items, rest)
    | ']' :: rest => return ([item], rest)
    | _ => none

/-- A member and those after it, added to the members read so far. -/
def parseMembers : Nat → List (Text × Json) → Text → Option (List (Text × Json) × Text)
  | 0, _, _ => none
  | fuel + 1, members, t =>
    match t with
    | '"' :: rest => do
      let (key, rest) ← parseString fuel rest
      match skipSpace rest with
      | ':' :: rest =>
        let (value, rest) ← parseValue fuel (skipSpace rest)
        match skipSpace rest with
        | ',' :: rest => parseMembers fuel (insertMember members key value) (skipSpace rest)
        | '}' :: rest => return (insertMember members key value, rest)
        | _ => none
      | _ => none
    | _ => none

end

/-- `json.loads(text)`, `none` where it raises. -/
def loads (t : Text) : Option Json :=
  match parseValue (t.length + 1) (skipSpace t) with
  | some (value, rest) => if (skipSpace rest).isEmpty then some value else none
  | none => none

/-! ## Members of an object -/

/-- `mapping.get(key)`. -/
def lookup (members : List (Text × Json)) (key : Text) : Option Json :=
  (members.find? (·.1 == key)).map Prod.snd

/-- `set(mapping) == {keys…}`. -/
def keysAre (members : List (Text × Json)) (keys : List Text) : Bool :=
  members.all (fun m => keys.contains m.1) && keys.all fun key => members.any (·.1 == key)

end Json

end Riverhog.Core
