import OpaqueStellar.Lib.Machine
import OpaqueStellar.Lib.Store
import OpaqueStellar.Schemas.Core

/-! # The schema registry

`contracts/schema-registry/src/lib.rs`: schemas are registered once under an identifier derived from
their contents, and each has an authority that appoints delegates and may deprecate it. Other
contracts ask the registry who may issue under a schema.

A contract's `String` is its bytes. -/

namespace OpaqueStellar.Schemas

open OpaqueStellar.Lib OpaqueStellar.Soroban

/-! ## Storage -/

structure Schema where
  schemaId : BytesN 32
  authority : Address
  resolver : Address
  revocable : Bool
  name : List UInt8
  fieldDefinitions : List UInt8
  version : ℕ
  createdAt : ℕ
  schemaExpiryLedger : ℕ
  deprecated : Bool
  deriving DecidableEq

inductive SchemaError where
  | NameTooLong
  | FieldDefsTooLong
  | InvalidSchemaId
  | Unauthorized
  | DelegateLimitReached
  | DelegateAlreadyExists
  | DelegateNotFound
  | SchemaAlreadyExists
  | InvalidExpiryLedger
  | InvalidFieldDefs
  | EmptyFieldDefs
  | TooManyFields
  | InvalidFieldName
  | InvalidFieldType
  | DuplicateFieldName
  | MalformedFieldSegment
  deriving DecidableEq

structure RegistryState where
  schemas : Store (BytesN 32) Schema := ∅
  delegates : Store (BytesN 32) (List Address) := ∅
  schemaIds : List (BytesN 32) := []

inductive SchemaEvent where
  | SchemaRegistered (id : BytesN 32) (authority : Address) (name : List UInt8)
  | DelegateAdded (id : BytesN 32) (authority delegate : Address)
  | DelegateRemoved (id : BytesN 32) (authority delegate : Address)
  deriving DecidableEq

structure World where
  registry : RegistryState := {}
  events : List SchemaEvent := []

def World.publish (w : World) (e : SchemaEvent) : World := { w with events := w.events ++ [e] }

/-- The contract's own address and the hash function it uses. -/
structure Host where
  self : Address
  sha256 : List UInt8 → BytesN 32

/-! ## Helpers -/

def sorobanStringToStr (s : List UInt8) : Result SchemaError Str := do
  ensure (s.length ≤ MAX_FIELD_DEFS_STR_LEN) (.err .FieldDefsTooLong)
  okOr (fromUtf8 s) .InvalidFieldDefs

def parseError : SchemaParseError → SchemaError
  | .Empty => .EmptyFieldDefs
  | .TooManyFields => .TooManyFields
  | .FieldNameEmpty => .InvalidFieldName
  | .FieldNameTooLong => .InvalidFieldName
  | .InvalidFieldName => .InvalidFieldName
  | .DuplicateFieldName => .DuplicateFieldName
  | .InvalidFieldType => .InvalidFieldType
  | .DefsTooLong => .FieldDefsTooLong
  | .MalformedSegment => .MalformedFieldSegment

/-- The fields a definition string stands for. -/
def readFieldDefs (fieldDefinitions : List UInt8) : Result SchemaError (List FieldDef) := do
  let defsStr ← sorobanStringToStr fieldDefinitions
  (parseFieldDefinitions defsStr).mapError (.err ∘ parseError)

section EntryPoints

variable (host : Host) (env : Env)

/-- `core_derive_schema_id` -/
def coreDeriveSchemaId (authorityBytes : BytesN 32) (name : Str) (version : ℕ)
    (canonicalFieldDefs : List UInt8) : BytesN 32 :=
  host.sha256 (schemaIdPreimage authorityBytes name version canonicalFieldDefs)

/-- A name that is not UTF-8 counts as empty; one longer than the buffer is out of its range. -/
def deriveSchemaId (authorityKey : BytesN 32) (name : List UInt8) (version : ℕ)
    (canonicalFieldDefs : List UInt8) : Result SchemaError (BytesN 32) := do
  ensure (name.length ≤ MAX_FIELD_DEFS_STR_LEN) (.trap (.panic "range end index out of range"))
  let nameStr := (fromUtf8 name).getD []
  pure (coreDeriveSchemaId host authorityKey nameStr version canonicalFieldDefs)

def isSchemaActive (schema : Schema) : Bool :=
  !schema.deprecated &&
    (schema.schemaExpiryLedger == 0 || env.sequence < schema.schemaExpiryLedger)

def delegatesOf (w : World) (schemaId : BytesN 32) : List Address :=
  (w.registry.delegates.lookup schemaId).getD []

def issuerInAuthorizedSet (w : World) (schemaId : BytesN 32) (schema : Schema) (issuer : Address) :
    Bool :=
  schema.authority == issuer || (delegatesOf w schemaId).contains issuer

def readSchema (w : World) (schemaId : BytesN 32) : Result SchemaError Schema :=
  expect (w.registry.schemas.lookup schemaId) "schema"

def writeDelegates (w : World) (schemaId : BytesN 32) (delegates : List Address) : World :=
  { w with registry.delegates := w.registry.delegates.insert schemaId delegates }

def writeSchema (w : World) (schema : Schema) : World :=
  { w with registry.schemas := w.registry.schemas.insert schema.schemaId schema }

/-! ## Entry points -/

def computeSchemaId (authorityKey : BytesN 32) (name fieldDefinitions : List UInt8) (version : ℕ) :
    Result SchemaError (BytesN 32) := do
  let fields ← readFieldDefs fieldDefinitions
  deriveSchemaId host authorityKey name version (encodeCanonicalFieldDefs fields)

/-- The resolver of a schema registered without one: the account whose key is zero. -/
def defaultResolver : Address := .account (BytesN.ofNat 32 0)

/-- The arguments of `register_schema`. -/
structure SchemaArgs where
  authority : Address
  authorityKey : BytesN 32
  schemaId : BytesN 32
  name : List UInt8
  fieldDefinitions : List UInt8
  revocable : Bool
  version : ℕ
  resolver : Option Address
  schemaExpiryLedger : ℕ

/-- The record that registering with these arguments stores. -/
def SchemaArgs.schema (args : SchemaArgs) (fields : List FieldDef) (createdAt : ℕ) : Schema where
  schemaId := args.schemaId
  authority := args.authority
  resolver := args.resolver.getD defaultResolver
  revocable := args.revocable
  name := args.name
  fieldDefinitions := asBytes (fieldDefsToCanonicalString fields)
  version := args.version
  createdAt := createdAt
  schemaExpiryLedger := args.schemaExpiryLedger
  deprecated := false

def registerSchema (w : World) (args : SchemaArgs) : Result SchemaError World := do
  env.requireAuth host.self args.authority
  ensure (args.name.length ≤ 64) (.err .NameTooLong)
  let fields ← readFieldDefs args.fieldDefinitions
  let expectedId ← deriveSchemaId host args.authorityKey args.name args.version
    (encodeCanonicalFieldDefs fields)
  ensure (args.schemaId = expectedId) (.err .InvalidSchemaId)
  ensure ((w.registry.schemas.lookup args.schemaId).isSome = false) (.err .SchemaAlreadyExists)
  ensure (args.schemaExpiryLedger = 0 ∨ env.sequence < args.schemaExpiryLedger)
    (.err .InvalidExpiryLedger)
  let w := writeSchema w (args.schema fields env.sequence)
  let w := writeDelegates w args.schemaId []
  let w := { w with registry.schemaIds := w.registry.schemaIds ++ [args.schemaId] }
  pure (w.publish (.SchemaRegistered args.schemaId args.authority args.name))

def addDelegate (w : World) (authority : Address) (schemaId : BytesN 32) (delegate : Address) :
    Result SchemaError World := do
  env.requireAuth host.self authority
  let schema ← readSchema w schemaId
  ensure (schema.authority = authority) (.err .Unauthorized)
  let delegates := delegatesOf w schemaId
  ensure (delegates.length < 10) (.err .DelegateLimitReached)
  ensure (delegate ∉ delegates) (.err .DelegateAlreadyExists)
  let w := writeDelegates w schemaId (delegates ++ [delegate])
  pure (w.publish (.DelegateAdded schemaId authority delegate))

def removeDelegate (w : World) (authority : Address) (schemaId : BytesN 32) (delegate : Address) :
    Result SchemaError World := do
  env.requireAuth host.self authority
  let schema ← readSchema w schemaId
  ensure (schema.authority = authority) (.err .Unauthorized)
  let delegates := delegatesOf w schemaId
  let idx ← okOr (delegates.idxOf? delegate) .DelegateNotFound
  -- the loop copies every entry but the one at `idx`
  let w := writeDelegates w schemaId (delegates.eraseIdx idx)
  pure (w.publish (.DelegateRemoved schemaId authority delegate))

def deprecateSchema (w : World) (authority : Address) (schemaId : BytesN 32) :
    Result SchemaError World := do
  env.requireAuth host.self authority
  let schema ← readSchema w schemaId
  ensure (schema.authority = authority) (.err .Unauthorized)
  let schema := { schema with deprecated := true }
  pure { w with registry.schemas := w.registry.schemas.insert schemaId schema }

def isAuthorizedIssuer (w : World) (schemaId : BytesN 32) (issuer : Address) :
    Result SchemaError Bool := do
  let schema ← readSchema w schemaId
  pure (issuerInAuthorizedSet w schemaId schema issuer)

def canIssue (w : World) (schemaId : BytesN 32) (issuer : Address) : Result SchemaError Bool := do
  let schema ← readSchema w schemaId
  pure (isSchemaActive env schema && issuerInAuthorizedSet w schemaId schema issuer)

def isRevocable (w : World) (schemaId : BytesN 32) : Result SchemaError Bool := do
  let schema ← readSchema w schemaId
  pure schema.revocable

def getSchema (w : World) (schemaId : BytesN 32) : Result SchemaError Schema :=
  readSchema w schemaId

/-! ## The contract as a machine -/

inductive Call where
  | registerSchema (args : SchemaArgs)
  | addDelegate (authority : Address) (schemaId : BytesN 32) (delegate : Address)
  | removeDelegate (authority : Address) (schemaId : BytesN 32) (delegate : Address)
  | deprecateSchema (authority : Address) (schemaId : BytesN 32)

structure Invocation where
  env : Env
  call : Call

def exec (w : World) : Call → Result SchemaError World
  | .registerSchema args => registerSchema host env w args
  | .addDelegate authority schemaId delegate => addDelegate host env w authority schemaId delegate
  | .removeDelegate authority schemaId delegate =>
      removeDelegate host env w authority schemaId delegate
  | .deprecateSchema authority schemaId => deprecateSchema host env w authority schemaId

/-- A failed invocation is rolled back. -/
def machine : Machine World Invocation (Result SchemaError Unit) :=
  .transactional fun w inv => do
    let w ← exec host inv.env w inv.call
    pure (w, ())

abbrev SchemaStep := Machine.Step World Invocation (Result SchemaError Unit)

end EntryPoints

/-! ## A small setting -/

namespace Demo

def account (n : ℕ) : Address := .account (BytesN.ofNat 32 n)

def host : Host where
  self := .contract (BytesN.ofNat 32 0)
  sha256 := fun bs => BytesN.ofNat 32 (beNat bs)

def name : List UInt8 := asBytes "kyc".toList

def defs : List UInt8 := asBytes "bool passed, u8 level".toList

def fields : List FieldDef := [⟨"passed".toList, .Bool⟩, ⟨"level".toList, .U8⟩]

/-- The identifier of the schema that the first account intends to register. -/
def schemaId : BytesN 32 :=
  coreDeriveSchemaId host (BytesN.ofNat 32 1) "kyc".toList 1 (encodeCanonicalFieldDefs fields)

def args (authority : Address) : SchemaArgs :=
  ⟨authority, BytesN.ofNat 32 1, schemaId, name, defs, true, 1, none, 0⟩

/-- An account registers the schema under the first account's key. -/
def registers (authority : Address) : Invocation where
  env := ⟨1, 1, [authority], fun _ _ _ => false⟩
  call := .registerSchema (args authority)

end Demo

end OpaqueStellar.Schemas
