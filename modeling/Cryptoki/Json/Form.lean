import Cryptoki.Json
import Cryptoki.Key
import Cryptoki.Mechanism
import Cryptoki.PoolConfig

/-!
# `Cryptoki.Json.Form` — settings and identifiers as JSON

An identifier is a bare number below `2 ^ 64`, a choice is the name of one of its cases, and a
record is an object of its fields. A record may also be given as the array of its fields in order,
and a choice as an object with the name for its only member.

## Contents
- `JsonForm` — a type with a JSON form.
- `Json.natural?`, `Json.optional?`, `Json.choice?`, `Json.fields?` — the readers forms are made of.
- The forms of `Mechanism`, `SessionId`, `ObjectHandle`, `KeyFamily`, `KeyHalf`,
  `KeySizeRange` and `PoolConfig`.
-/

namespace Cryptoki

/-- A type with a JSON form. -/
class JsonForm (α : Type) where
  /-- The value of a form. -/
  ofJson? : Json → Option α
  /-- The form of a value, as text. -/
  toText : α → String

/-- The value whose form a text is. -/
def JsonForm.ofText? {α : Type} [JsonForm α] (text : String) : Option α :=
  (Json.parse? text).bind ofJson?

namespace Json

/-! ## Readers -/

/-- A natural number below `2 ^ 64`. -/
def natural? : Json → Option Nat
  | number (some n) => if n < UInt64.size then some n else none
  | _ => none

/-- A truth value. -/
def bool? : Json → Option Bool
  | bool b => some b
  | _ => none

/-- A natural number or null. -/
def optional? : Json → Option (Option Nat)
  | null => some none
  | v => (natural? v).map some

/-- The name of a case, alone or as the only member of an object with nothing in it. -/
def choice? : Json → Option String
  | string text => text
  | object [(name, null)] => name
  | _ => none

/-- The value of the member with the given name, if there is one; it may not be there twice. -/
def member? (members : List (Option String × Json)) (name : String) : Option (Option Json) :=
  match members.filter (·.1 == some name) with
  | [] => some none
  | [(_, v)] => some (some v)
  | _ => none

/-- The fields of a record in order, each if it is there: members of an object, whose names all are
texts, or elements of an array, of which there are at least `least`. -/
def fields? (names : List String) (least : Nat) : Json → Option (List (Option Json))
  | object members =>
    if members.all (·.1.isSome) then names.mapM (member? members) else none
  | array elements =>
    if least ≤ elements.length ∧ elements.length ≤ names.length then
      some (elements.map some ++ List.replicate (names.length - elements.length) none)
    else none
  | _ => none

/-- A field that is read if it is there. -/
def field? {α : Type} (absent : α) (read : Json → Option α) : Option Json → Option α
  | none => some absent
  | some v => read v

end Json

/-! ## Forms -/

instance : JsonForm Mechanism where
  ofJson? v := v.natural?.map Mechanism.mk
  toText m := toString m.code

instance : JsonForm SessionId where
  ofJson? v := v.natural?.map SessionId.mk
  toText s := toString s.value

instance : JsonForm ObjectHandle where
  ofJson? v := v.natural?.map ObjectHandle.mk
  toText h := toString h.value

/-- The name of a family among its cases. -/
def KeyFamily.caseName : KeyFamily → String
  | rsa => "Rsa"
  | dsa => "Dsa"
  | ec => "Ec"

instance : JsonForm KeyFamily where
  ofJson? v := v.choice?.bind fun name => KeyFamily.all.find? (·.caseName == name)
  toText a := Json.stringText a.caseName

/-- The name of a half among its cases. -/
def KeyHalf.caseName : KeyHalf → String
  | publicKey => "Public"
  | privateKey => "Private"

instance : JsonForm KeyHalf where
  ofJson? v := v.choice?.bind fun name => KeyHalf.all.find? (·.caseName == name)
  toText c := Json.stringText c.caseName

/-- An open end is null. -/
def optionalText : Option Nat → String
  | none => "null"
  | some n => toString n

instance : JsonForm KeySizeRange where
  ofJson? v := do
    match ← v.fields? ["min_key_bits", "max_key_bits"] 2 with
    | [min, max] =>
      return ⟨← Json.field? none Json.optional? min, ← Json.field? none Json.optional? max⟩
    | _ => none
  toText info :=
    Json.objectText
      [("min_key_bits", optionalText info.minKeyBits),
        ("max_key_bits", optionalText info.maxKeyBits)]

instance : JsonForm PoolConfig where
  ofJson? v := do
    match ← v.fields? ["max_sessions", "acquire_timeout_ms", "explicit_cancel"] 0 with
    | [sessions, timeout, cancel] =>
      let absent : PoolConfig := {}
      return {
        maxSessions := ← Json.field? absent.maxSessions Json.natural? sessions
        acquireTimeoutMs := ← Json.field? absent.acquireTimeoutMs Json.natural? timeout
        explicitCancel := ← Json.field? absent.explicitCancel Json.bool? cancel }
    | _ => none
  toText c :=
    Json.objectText
      [("max_sessions", toString c.maxSessions),
        ("acquire_timeout_ms", toString c.acquireTimeoutMs),
        ("explicit_cancel", toString c.explicitCancel)]

end Cryptoki
