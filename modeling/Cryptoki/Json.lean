import Cryptoki.Bytes

/-!
# `Cryptoki.Json` — JSON text

Settings and identifiers are kept as JSON. The grammar is the strict one: no leading zeros, no
trailing commas, no control characters in strings.

## Contents
- `Json` — a value. Numbers other than natural numbers are all alike, as nothing here reads them.
- `Json.number?`, `Json.stringTail`, `Json.value?` — reading the parts off the front of a text.
- `Json.parse?` — a text that is one value and nothing else.
- `Json.objectText`, `Json.stringText` — writing.
-/

namespace Cryptoki

/-- A JSON value. -/
inductive Json
  | null
  | bool (b : Bool)
  /-- A number; its value is kept if it is written as a natural number. -/
  | number (value : Option Nat)
  /-- A string; its text is missing if it escapes a surrogate without its partner. -/
  | string (text : Option String)
  | array (elements : List Json)
  | object (members : List (Option String × Json))

namespace Json

/-- The characters allowed between the parts of a value. -/
def isBlank (c : Char) : Bool := c = ' ' ∨ c = '\n' ∨ c = '\t' ∨ c = '\r'

/-- The text without the blanks at its front. -/
def skipBlanks (cs : List Char) : List Char := cs.dropWhile isBlank

/-! ## Numbers -/

/-- The digits at the front, at least one, and what follows them. -/
def digits? (cs : List Char) : Option (List Char × List Char) :=
  let ds := cs.takeWhile Char.isDigit
  if ds.isEmpty then none else some (ds, cs.drop ds.length)

/-- The number that digits write. -/
def ofDigits (ds : List Char) : Nat := ds.foldl (fun n c => 10 * n + (c.toNat - '0'.toNat)) 0

/-- What follows a fraction, if there is one; `true` if there is. -/
def fraction? : List Char → Option (Bool × List Char)
  | '.' :: cs => (digits? cs).map fun (_, rest) => (true, rest)
  | cs => some (false, cs)

/-- What follows an exponent, if there is one; `true` if there is. -/
def exponent? : List Char → Option (Bool × List Char)
  | c :: cs =>
    if c = 'e' ∨ c = 'E' then
      let cs := match cs with
        | '+' :: cs => cs
        | '-' :: cs => cs
        | cs => cs
      (digits? cs).map fun (_, rest) => (true, rest)
    else some (false, c :: cs)
  | [] => some (false, [])

/-- A number off the front of a text. -/
def number? (cs : List Char) : Option (Json × List Char) := do
  let (negative, cs) := match cs with
    | '-' :: cs => (true, cs)
    | cs => (false, cs)
  let (ds, cs) ← digits? cs
  guard (ds.length = 1 ∨ ds.head? ≠ some '0')
  let (fractional, cs) ← fraction? cs
  let (scaled, cs) ← exponent? cs
  return (number (if negative || fractional || scaled then none else some (ofDigits ds)), cs)

/-! ## Strings -/

/-- A part of a string: a character, or a unit of sixteen bits escaped by number. -/
inductive Part
  | char (c : Char)
  | unit (n : Nat)

/-- The character that a backslash and a letter stand for. -/
def escaped? : Char → Option Char
  | '"' => some '"'
  | '\\' => some '\\'
  | '/' => some '/'
  | 'b' => some '\x08'
  | 'f' => some '\x0c'
  | 'n' => some '\n'
  | 'r' => some '\r'
  | 't' => some '\t'
  | _ => none

/-- The parts of a string, after its opening quote, and what follows its closing one. -/
def stringTail : List Char → Option (List Part × List Char)
  | [] => none
  | '"' :: cs => some ([], cs)
  | '\\' :: 'u' :: a :: b :: c :: d :: cs =>
    match Bytes.hexValue? a, Bytes.hexValue? b, Bytes.hexValue? c, Bytes.hexValue? d with
    | some a, some b, some c, some d =>
      (stringTail cs).map fun (parts, rest) =>
        (.unit (((a * 16 + b) * 16 + c) * 16 + d) :: parts, rest)
    | _, _, _, _ => none
  | '\\' :: c :: cs =>
    match escaped? c with
    | some c => (stringTail cs).map fun (parts, rest) => (.char c :: parts, rest)
    | none => none
  | c :: cs =>
    if c = '\\' ∨ c.toNat < 0x20 then none
    else (stringTail cs).map fun (parts, rest) => (.char c :: parts, rest)

/-- The characters of a string's parts. Two escaped units may make one character; a surrogate
without its partner makes none. -/
def joinParts : List Part → Option (List Char)
  | [] => some []
  | .char c :: parts => (joinParts parts).map (c :: ·)
  | .unit n :: parts =>
    if 0xd800 ≤ n ∧ n < 0xdc00 then
      match parts with
      | .unit m :: parts =>
        if 0xdc00 ≤ m ∧ m < 0xe000 then
          (joinParts parts).map
            (Char.ofNat (0x10000 + (n - 0xd800) * 0x400 + (m - 0xdc00)) :: ·)
        else none
      | _ => none
    else if 0xdc00 ≤ n ∧ n < 0xe000 then none
    else (joinParts parts).map (Char.ofNat n :: ·)

/-- A string off the front of a text, after its opening quote. -/
def string? (cs : List Char) : Option (Option String × List Char) :=
  (stringTail cs).map fun (parts, rest) => ((joinParts parts).map String.ofList, rest)

/-! ## Values -/

mutual

/-- A value off the front of a text; `fuel` bounds the depth of the search. -/
def value? (fuel : Nat) (cs : List Char) : Option (Json × List Char) :=
  match fuel with
  | 0 => none
  | fuel + 1 =>
    match skipBlanks cs with
    | 'n' :: 'u' :: 'l' :: 'l' :: cs => some (null, cs)
    | 't' :: 'r' :: 'u' :: 'e' :: cs => some (bool true, cs)
    | 'f' :: 'a' :: 'l' :: 's' :: 'e' :: cs => some (bool false, cs)
    | '"' :: cs => (string? cs).map fun (text, rest) => (string text, rest)
    | '[' :: cs =>
      match skipBlanks cs with
      | ']' :: cs => some (array [], cs)
      | cs => (elements? fuel cs).map fun (es, rest) => (array es, rest)
    | '\x7b' :: cs =>
      match skipBlanks cs with
      | '\x7d' :: cs => some (object [], cs)
      | cs => (members? fuel cs).map fun (ms, rest) => (object ms, rest)
    | cs => number? cs

/-- The elements of an array, at least one, up to its closing bracket. -/
def elements? (fuel : Nat) (cs : List Char) : Option (List Json × List Char) :=
  match fuel with
  | 0 => none
  | fuel + 1 =>
    match value? fuel cs with
    | none => none
    | some (v, cs) =>
      match skipBlanks cs with
      | ']' :: cs => some ([v], cs)
      | ',' :: cs => (elements? fuel cs).map fun (vs, rest) => (v :: vs, rest)
      | _ => none

/-- The members of an object, at least one, up to its closing brace. -/
def members? (fuel : Nat) (cs : List Char) : Option (List (Option String × Json) × List Char) :=
  match fuel with
  | 0 => none
  | fuel + 1 =>
    match skipBlanks cs with
    | '"' :: cs =>
      match string? cs with
      | none => none
      | some (name, cs) =>
        match skipBlanks cs with
        | ':' :: cs =>
          match value? fuel cs with
          | none => none
          | some (v, cs) =>
            match skipBlanks cs with
            | '\x7d' :: cs => some ([(name, v)], cs)
            | ',' :: cs => (members? fuel cs).map fun (ms, rest) => ((name, v) :: ms, rest)
            | _ => none
        | _ => none
    | _ => none

end

/-- A text that is one value, with blanks before and after it at most. Every second step of the
search takes a character, so twice the length bounds its depth. -/
def parse? (text : String) : Option Json :=
  let cs := text.toList
  match value? (2 * cs.length + 2) cs with
  | some (v, rest) => if (skipBlanks rest).isEmpty then some v else none
  | none => none

/-! ## Writing -/

/-- A string whose characters need no escape. -/
def stringText (s : String) : String := "\"" ++ s ++ "\""

/-- An object of members whose values are written already. -/
def objectText (members : List (String × String)) : String :=
  "\x7b" ++ ",".intercalate (members.map fun (name, v) => stringText name ++ ":" ++ v) ++ "\x7d"

end Json

end Cryptoki
