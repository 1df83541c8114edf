import OpaqueStellar.Lib.Codec
import OpaqueStellar.Lib.Dict
import OpaqueStellar.Schemas.Core

/-! # Encoding attestation data

The encoder of `contracts/opaque-schema-core/src/lib.rs`, and the parser and the encoder of
`sdk/src/crypto/schema-codec.ts`, which says that it mirrors the crate byte for byte.

A map of values is a list of entries; of two with one key the first counts. -/

namespace OpaqueStellar.Schemas

open OpaqueStellar.Lib OpaqueStellar.Soroban

/-! ## The crate -/

def parseBool (s : Str) : Except AttestationDataError Bool :=
  let v := trim s
  if v = "true".toList ∨ v = "1".toList then .ok true
  else if v = "false".toList ∨ v = "0".toList ∨ v = [] then .ok false
  else .error .InvalidBool

/-- One turn of the loop of `parse_u64`; `checked_mul` and `checked_add` fail from `2 ^ 64` on. -/
def parseDigit (n : ℕ) (c : UInt8) : Except AttestationDataError ℕ :=
  if !isAsciiDigit c then .error .InvalidInteger
  else if 2 ^ 64 ≤ n * 10 then .error .InvalidInteger
  else if 2 ^ 64 ≤ n * 10 + (c.toNat - 0x30) then .error .InvalidInteger
  else .ok (n * 10 + (c.toNat - 0x30))

def parseU64 (s : Str) (min max : ℕ) : Except AttestationDataError ℕ := do
  let trimmed := trim s
  if trimmed = [] then return 0
  let n ← (asBytes trimmed).foldlM parseDigit 0
  if n < min ∨ n > max then throw .InvalidInteger
  pure n

def hexChar (c : UInt8) : Except AttestationDataError UInt8 :=
  if 0x30 ≤ c ∧ c ≤ 0x39 then .ok (c - 0x30)
  else if 0x61 ≤ c ∧ c ≤ 0x66 then .ok (c - 0x61 + 10)
  else if 0x41 ≤ c ∧ c ≤ 0x46 then .ok (c - 0x41 + 10)
  else .error .InvalidPubkey

/-- The loop of `parse_pubkey_hex`. -/
def hexPairs : List UInt8 → Except AttestationDataError (List UInt8)
  | a :: b :: rest => do
      let hi ← hexChar a
      let lo ← hexChar b
      let bytes ← hexPairs rest
      pure ((hi * 16 + lo) :: bytes)
  | _ => pure []

/-- `strip_prefix("0x").unwrap_or` -/
def strip0x (s : Str) : Str :=
  match s with
  | '0' :: 'x' :: rest => rest
  | _ => s

def parsePubkeyHex (s : Str) : Except AttestationDataError (List UInt8) :=
  let hexStr := strip0x (trim s)
  if (asBytes hexStr).length ≠ 64 then .error .InvalidPubkey
  else hexPairs (asBytes hexStr)

def encodeFieldValue (out : List UInt8) (ty : FieldType) (value : Str) :
    Except AttestationDataError (List UInt8) := do
  match ty with
  | .Bool =>
      let b ← parseBool value
      pure (out ++ [if b then 1 else 0])
  | .U8 =>
      let v ← parseU64 value 0 (2 ^ 8 - 1)
      pure (out ++ beBytes 1 v)
  | .U16 =>
      let v ← parseU64 value 0 (2 ^ 16 - 1)
      pure (out ++ beBytes 2 v)
  | .U32 =>
      let v ← parseU64 value 0 (2 ^ 32 - 1)
      pure (out ++ beBytes 4 v)
  | .U64 =>
      let v ← parseU64 value 0 (2 ^ 64 - 1)
      pure (out ++ beBytes 8 v)
  | .String =>
      let bytes := asBytes value
      if MAX_STRING_VALUE_LEN < bytes.length then throw .StringTooLong
      pure (out ++ beBytes 2 bytes.length ++ bytes)
  | .Pubkey =>
      let pk ← parsePubkeyHex value
      pure (out ++ pk)

def encodeAttestationDataFromStrings (fields : List FieldDef) (values : Dict Str Str) :
    Except AttestationDataError (List UInt8) := do
  let out ← fields.foldlM (fun out field =>
    encodeFieldValue out field.ty ((values.find field.name).getD [])) []
  if MAX_ATTESTATION_DATA_LEN < out.length then throw .TooLarge
  pure out

/-! ## The SDK

Lengths are in UTF-16 units. -/

namespace Sdk

structure FieldDef where
  id : Str
  name : Str
  type : FieldType
  deriving DecidableEq

/-- A `SchemaParseError`, by its message. -/
structure SchemaParseError where
  message : Str
  deriving DecidableEq

/-- `[a-zA-Z_]` -/
def isNameStart (c : Char) : Bool := ('a' ≤ c && c ≤ 'z') || ('A' ≤ c && c ≤ 'Z') || c == '_'

/-- `[a-zA-Z0-9_]` -/
def isNamePart (c : Char) : Bool := isNameStart c || ('0' ≤ c && c ≤ '9')

def isValidFieldName (name : Str) : Bool :=
  match name with
  | [] => false
  | first :: rest =>
      if MAX_FIELD_NAME_LEN < utf16Length (first :: rest) then false
      else isNameStart first && rest.all isNamePart

/-- One turn of the loop over the segments. `FieldType.fromStr` is the table `FIELD_TYPE_IDS`. -/
def parseSegment (fields : List FieldDef) (segment : Str) : Except SchemaParseError (List FieldDef) :=
  let seg := trimSpaces segment
  if seg = [] then .error ⟨"Malformed field segment".toList⟩
  else
    match splitSpace seg with
    | none => .error ⟨"Expected \"type name\" format (legacy \"name:type\" is not supported)".toList⟩
    | some (before, after) =>
        let name := trimSpaces after
        if ' ' ∈ name then .error ⟨"Invalid field type: ".toList ++ trimSpaces before⟩
        else
          match FieldType.fromStr (trimSpaces before) with
          | none => .error ⟨"Invalid field type: ".toList ++ trimSpaces before⟩
          | some type =>
              if !isValidFieldName name then .error ⟨"Invalid field name: ".toList ++ name⟩
              else if fields.any (·.name = name) then .error ⟨"Duplicate field name: ".toList ++ name⟩
              else
                let fields := fields ++ [⟨(toString fields.length).toList, name, type⟩]
                if MAX_FIELDS < fields.length then .error ⟨"Too many fields".toList⟩ else .ok fields

def fieldDefsToCanonicalString (fields : List FieldDef) : Str :=
  List.intercalate [','] ((fields.filter fun f => trimSpaces f.name ≠ []).map fun f =>
    f.type.asStr ++ [' '] ++ trimSpaces f.name)

def parseFieldDefinitions (fieldDefs : Str) : Except SchemaParseError (List FieldDef) := do
  let trimmed := trimSpaces fieldDefs
  if trimmed = [] then throw ⟨"Field definitions cannot be empty".toList⟩
  let fields ← (trimmed.splitOn ',').foldlM parseSegment []
  if 256 < utf16Length (fieldDefsToCanonicalString fields) then
    throw ⟨"Field definitions too long".toList⟩
  pure fields

inductive Thrown where
  -- an `AttestationDataError`, by its message
  | attestation (message : Str)
  -- "value.trim is not a function"
  | type
  deriving DecidableEq

def parseBool (value : Str) : Except Thrown Bool :=
  let v := trimSpaces value
  if v = "true".toList ∨ v = "1".toList then .ok true
  else if v = "false".toList ∨ v = "0".toList ∨ v = [] then .ok false
  else .error (.attestation ("Invalid bool: ".toList ++ value))

/-- `BigInt` of a text of digits is its number. -/
def parseUint (value : Str) (max : ℕ) : Except Thrown ℕ :=
  let v := trimSpaces value
  if v = [] then .ok 0
  else
    match Decimal.decode v with
    | none => .error (.attestation ("Invalid integer: ".toList ++ value))
    | some n =>
        if n > max then .error (.attestation ("Integer out of range: ".toList ++ value)) else .ok n

/-- The UTF-16 units of a text; the pairs that stand for one character are not hexadecimal digits. -/
def units (s : Str) : List ℕ :=
  s.flatMap fun c =>
    if c.toNat < 0x10000 then [c.toNat]
    else [0xD800 + (c.toNat - 0x10000) / 0x400, 0xDC00 + (c.toNat - 0x10000) % 0x400]

/-- The value of a unit that is a hexadecimal digit. -/
def hexDigit (u : ℕ) : Option ℕ :=
  if 0x30 ≤ u ∧ u ≤ 0x39 then some (u - 0x30)
  else if 0x61 ≤ u ∧ u ≤ 0x66 then some (u - 0x61 + 10)
  else if 0x41 ≤ u ∧ u ≤ 0x46 then some (u - 0x41 + 10)
  else none

/-- `parseInt(text, 16)`: white space, a sign and a prefix are skipped, and the digits end at the first unit
that is none. Without digits it is `NaN`. -/
def parseInt (text : List ℕ) : Option ℤ :=
  let text := text.dropWhile fun u => isSpace (Char.ofNat u)
  let (negative, text) :=
    match text with
    | 0x2D :: rest => (true, rest)
    | 0x2B :: rest => (false, rest)
    | _ => (false, text)
  let text :=
    match text with
    | 0x30 :: 0x78 :: rest => rest
    | 0x30 :: 0x58 :: rest => rest
    | _ => text
  let digits := (text.takeWhile fun u => (hexDigit u).isSome).filterMap hexDigit
  if digits = [] then none
  else
    let n : ℕ := digits.foldl (fun n d => 16 * n + d) 0
    some (if negative then -n else n)

/-- An element of a `Uint8Array`: `NaN` becomes zero. -/
def toUint8 (n : Option ℤ) : UInt8 := UInt8.ofNat ((n.getD 0) % 256).toNat

/-- The loop of `parsePubkeyHex`. -/
def parsePairs : List ℕ → List UInt8
  | a :: b :: rest => toUint8 (parseInt [a, b]) :: parsePairs rest
  | _ => []

/-- `replace(/^0x/i, "")` -/
def replace0x (s : Str) : Str :=
  match s with
  | '0' :: 'x' :: rest => rest
  | '0' :: 'X' :: rest => rest
  | _ => s

def parsePubkeyHex (value : Str) : Except Thrown (List UInt8) :=
  let hex := replace0x (trimSpaces value)
  if (units hex).length ≠ 64 then .error (.attestation "Invalid pubkey hex".toList)
  else .ok (parsePairs (units hex))

/-! ### Values

The values are an object, and reading a property that is not its own finds the members of
`Object.prototype`. -/

/-- The members of `Object.prototype`. -/
def prototypeMembers : List Str :=
  ["constructor".toList, "toString".toList, "valueOf".toList, "toLocaleString".toList,
    "hasOwnProperty".toList, "isPrototypeOf".toList, "propertyIsEnumerable".toList, "__proto__".toList,
    "__defineGetter__".toList, "__defineSetter__".toList, "__lookupGetter__".toList,
    "__lookupSetter__".toList]

/-- What the JavaScript engine shows a member of `Object.prototype` as. -/
structure Engine where
  toString : Str → Str
  toString_ne_nil : ∀ member, toString member ≠ []

inductive Value where
  | text (s : Str)
  | member (name : Str)
  deriving DecidableEq

/-- `fieldValues[name] ?? ""` -/
def valueOf (fieldValues : Dict Str Str) (name : Str) : Value :=
  match fieldValues.find name with
  | some s => .text s
  | none => if name ∈ prototypeMembers then .member name else .text []

/-- `value` where it is used as a string. -/
def Value.asString : Value → Except Thrown Str
  | .text s => .ok s
  | .member _ => .error .type

/-- What `TextEncoder` encodes. -/
def Value.shown (engine : Engine) : Value → Str
  | .text s => s
  | .member name => engine.toString name

/-- The parts that one field adds. -/
def encodeField (engine : Engine) (type : FieldType) (value : Value) : Except Thrown (List UInt8) := do
  match type with
  | .Bool =>
      let b ← parseBool (← value.asString)
      pure [if b then 1 else 0]
  | .U8 =>
      let v ← parseUint (← value.asString) 255
      pure (beBytes 1 v)
  | .U16 =>
      let v ← parseUint (← value.asString) 65535
      pure (beBytes 2 v)
  | .U32 =>
      let v ← parseUint (← value.asString) 4294967295
      pure (beBytes 4 v)
  | .U64 =>
      let v ← parseUint (← value.asString) 18446744073709551615
      pure (beBytes 8 v)
  | .String =>
      let bytes := asBytes (value.shown engine)
      if MAX_STRING_VALUE_LEN < bytes.length then throw (.attestation "String value too long".toList)
      pure (beBytes 2 bytes.length ++ bytes)
  | .Pubkey => parsePubkeyHex (← value.asString)

def encodeAttestationData (engine : Engine) (fieldValues : Dict Str Str) (fieldDefs : List FieldDef) :
    Except Thrown (List UInt8) := do
  let parts ← fieldDefs.foldlM (fun parts field => do
    let part ← encodeField engine field.type (valueOf fieldValues field.name)
    pure (parts ++ part)) []
  if MAX_ATTESTATION_DATA_LEN < parts.length then
    throw (.attestation "Attestation data too large".toList)
  pure parts

end Sdk

end OpaqueStellar.Schemas
