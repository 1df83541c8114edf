import OpaqueStellar.Lib.Text
import OpaqueStellar.Soroban.Basic

/-! # Field definitions and attestation data

`contracts/opaque-schema-core/src/lib.rs`: the definitions of a schema's fields are parsed from a
string, written back in a canonical form, hashed into the schema's identifier, and used to check the
data of an attestation.

A `&str` is the list of its characters. A contract's `String` is a byte string, read as a `&str` by
`fromUtf8`. -/

namespace OpaqueStellar.Schemas

open OpaqueStellar.Lib OpaqueStellar.Soroban

/-! ## Strings -/

abbrev Str := List Char

instance : LawfulBEq Str := inferInstance

/-- A continuation byte of UTF-8. -/
def isContinuation (b : UInt8) : Bool := 0x80 ≤ b && b ≤ 0xBF

/-- The six low bits of a continuation byte. -/
def lowBits (b : UInt8) : ℕ := b.toNat % 64

/-- `core::str::from_utf8`: shortest encodings of scalar values only. -/
def fromUtf8 : List UInt8 → Option Str
  | [] => some []
  | b₀ :: rest =>
      if b₀ < 0x80 then (fromUtf8 rest).map (Char.ofNat b₀.toNat :: ·)
      else
        match rest with
        | [] => none
        | b₁ :: rest =>
            if 0xC2 ≤ b₀ ∧ b₀ ≤ 0xDF ∧ isContinuation b₁ then
              (fromUtf8 rest).map (Char.ofNat (b₀.toNat % 32 * 64 + lowBits b₁) :: ·)
            else
              match rest with
              | [] => none
              | b₂ :: rest =>
                  if 0xE0 ≤ b₀ ∧ b₀ ≤ 0xEF ∧ isContinuation b₁ ∧ isContinuation b₂ ∧
                      (b₀ = 0xE0 → 0xA0 ≤ b₁) ∧ (b₀ = 0xED → b₁ ≤ 0x9F) then
                    (fromUtf8 rest).map
                      (Char.ofNat ((b₀.toNat % 16 * 64 + lowBits b₁) * 64 + lowBits b₂) :: ·)
                  else
                    match rest with
                    | [] => none
                    | b₃ :: rest =>
                        if 0xF0 ≤ b₀ ∧ b₀ ≤ 0xF4 ∧ isContinuation b₁ ∧ isContinuation b₂ ∧
                            isContinuation b₃ ∧ (b₀ = 0xF0 → 0x90 ≤ b₁) ∧ (b₀ = 0xF4 → b₁ ≤ 0x8F) then
                          (fromUtf8 rest).map (Char.ofNat (((b₀.toNat % 8 * 64 + lowBits b₁) * 64 +
                            lowBits b₂) * 64 + lowBits b₃) :: ·)
                        else none

/-- `as_bytes` -/
def asBytes (s : Str) : List UInt8 := s.flatMap String.utf8EncodeChar

/-- `char::is_whitespace`: the characters with property `White_Space`. -/
def isWhitespace (c : Char) : Bool :=
  let n := c.toNat
  (0x09 ≤ n && n ≤ 0x0D) || n == 0x20 || n == 0x85 || n == 0xA0 || n == 0x1680 ||
    (0x2000 ≤ n && n ≤ 0x200A) || n == 0x2028 || n == 0x2029 || n == 0x202F || n == 0x205F ||
    n == 0x3000

def trim (s : Str) : Str := trimBy isWhitespace s

/-! ## Fields -/

def MAX_FIELDS : ℕ := 16

def MAX_FIELD_NAME_LEN : ℕ := 32

def MAX_FIELD_DEFS_STR_LEN : ℕ := 256

def MAX_STRING_VALUE_LEN : ℕ := 128

def MAX_ATTESTATION_DATA_LEN : ℕ := 512

inductive FieldType where
  | Bool
  | U8
  | U16
  | U32
  | U64
  | String
  | Pubkey
  deriving DecidableEq

/-- The `repr(u8)` value. -/
def FieldType.toByte : FieldType → UInt8
  | .Bool => 0
  | .U8 => 1
  | .U16 => 2
  | .U32 => 3
  | .U64 => 4
  | .String => 5
  | .Pubkey => 6

def FieldType.asStr : FieldType → Str
  | .Bool => "bool".toList
  | .U8 => "u8".toList
  | .U16 => "u16".toList
  | .U32 => "u32".toList
  | .U64 => "u64".toList
  | .String => "string".toList
  | .Pubkey => "pubkey".toList

def FieldType.fromStr (s : Str) : Option FieldType :=
  if s = "bool".toList then some .Bool
  else if s = "u8".toList then some .U8
  else if s = "u16".toList then some .U16
  else if s = "u32".toList then some .U32
  else if s = "u64".toList then some .U64
  else if s = "string".toList then some .String
  else if s = "pubkey".toList then some .Pubkey
  else none

structure FieldDef where
  name : Str
  ty : FieldType
  deriving DecidableEq

inductive SchemaParseError where
  | Empty
  | TooManyFields
  | FieldNameEmpty
  | FieldNameTooLong
  | InvalidFieldName
  | DuplicateFieldName
  | InvalidFieldType
  | DefsTooLong
  | MalformedSegment
  deriving DecidableEq

inductive AttestationDataError where
  | TooShort
  | TooLarge
  | TrailingBytes
  | StringTooLong
  | InvalidBool
  | InvalidInteger
  | InvalidPubkey
  deriving DecidableEq

/-! ## Parsing -/

def isAsciiAlphabetic (b : UInt8) : Bool := (0x41 ≤ b && b ≤ 0x5A) || (0x61 ≤ b && b ≤ 0x7A)

def isAsciiDigit (b : UInt8) : Bool := 0x30 ≤ b && b ≤ 0x39

/-- An underscore is `0x5F`. -/
def isNameChar (b : UInt8) : Bool := isAsciiAlphabetic b || isAsciiDigit b || b == 0x5F

def validateFieldName (name : Str) : Except SchemaParseError Unit :=
  match asBytes name with
  | [] => .error .FieldNameEmpty
  | first :: rest =>
      if MAX_FIELD_NAME_LEN < (first :: rest).length then .error .FieldNameTooLong
      else if !(isAsciiAlphabetic first || first == 0x5F) then .error .InvalidFieldName
      else if !((first :: rest).all isNameChar) then .error .InvalidFieldName
      else .ok ()

/-- The parts of a segment before and after its first space. -/
def splitSpace (seg : Str) : Option (Str × Str) :=
  if ' ' ∈ seg then some (seg.takeWhile (· ≠ ' '), (seg.dropWhile (· ≠ ' ')).drop 1) else none

/-- One turn of the loop over the segments. -/
def parseSegment (fields : List FieldDef) (segment : Str) :
    Except SchemaParseError (List FieldDef) := do
  let seg := trim segment
  if seg = [] then throw .MalformedSegment
  match splitSpace seg with
  | none => throw .MalformedSegment
  | some (before, after) =>
      let typeStr := trim before
      let name := trim after
      if ' ' ∈ name then throw .MalformedSegment
      match FieldType.fromStr typeStr with
      | none => throw .InvalidFieldType
      | some ty =>
          validateFieldName name
          if fields.any (·.name = name) then throw .DuplicateFieldName
          let fields := fields ++ [⟨name, ty⟩]
          if MAX_FIELDS < fields.length then throw .TooManyFields
          pure fields

def fieldDefsToCanonicalString (fields : List FieldDef) : Str :=
  List.intercalate [','] (fields.map fun f => f.ty.asStr ++ [' '] ++ f.name)

def parseFieldDefinitions (input : Str) : Except SchemaParseError (List FieldDef) := do
  let trimmed := trim input
  if trimmed = [] then throw .Empty
  let fields ← (trimmed.splitOn ',').foldlM parseSegment []
  if MAX_FIELD_DEFS_STR_LEN < (asBytes (fieldDefsToCanonicalString fields)).length then
    throw .DefsTooLong
  pure fields

/-! ## Canonical bytes and the identifier -/

def encodeCanonicalFieldDefs (fields : List FieldDef) : List UInt8 :=
  UInt8.ofNat fields.length :: fields.flatMap fun f =>
    f.ty.toByte :: UInt8.ofNat (asBytes f.name).length :: asBytes f.name

/-- What `derive_schema_id` hashes. -/
def schemaIdPreimage (authorityBytes : BytesN 32) (name : Str) (version : ℕ)
    (canonicalFieldDefs : List UInt8) : List UInt8 :=
  authorityBytes.1 ++ asBytes name ++ beBytes 4 version ++ canonicalFieldDefs

/-! ## Checking attestation data -/

def readFixed (data : List UInt8) (offset len : ℕ) : Except AttestationDataError ℕ :=
  if data.length < offset + len then .error .TooShort else .ok (offset + len)

def readFieldValue (ty : FieldType) (data : List UInt8) (offset : ℕ) :
    Except AttestationDataError ℕ :=
  match ty with
  | .Bool =>
      if data.length ≤ offset then .error .TooShort
      else if 1 < data.getD offset 0 then .error .InvalidBool
      else .ok (offset + 1)
  | .U8 => if data.length ≤ offset then .error .TooShort else .ok (offset + 1)
  | .U16 => readFixed data offset 2
  | .U32 => readFixed data offset 4
  | .U64 => readFixed data offset 8
  | .String =>
      if data.length < offset + 2 then .error .TooShort
      else
        let len := beNat [data.getD offset 0, data.getD (offset + 1) 0]
        if data.length < offset + 2 + len then .error .TooShort
        else if MAX_STRING_VALUE_LEN < len then .error .StringTooLong
        else .ok (offset + 2 + len)
  | .Pubkey => readFixed data offset 32

def validateAttestationData (fields : List FieldDef) (data : List UInt8) :
    Except AttestationDataError Unit := do
  if MAX_ATTESTATION_DATA_LEN < data.length then throw .TooLarge
  let offset ← fields.foldlM (fun offset field => readFieldValue field.ty data offset) 0
  if offset ≠ data.length then throw .TrailingBytes

example : parseFieldDefinitions " string  name , u32 score".toList =
    .ok [⟨"name".toList, .String⟩, ⟨"score".toList, .U32⟩] := by decide

example : parseFieldDefinitions "u8 a,u8 a".toList = .error .DuplicateFieldName := by decide

end OpaqueStellar.Schemas
