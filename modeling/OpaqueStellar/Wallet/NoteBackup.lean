import OpaqueStellar.Lib.Json
import OpaqueStellar.Wallet.Backup

/-! # Backups of pool notes

`frontend/src/lib/poolNoteBackup.ts` writes the notes as JSON, encrypts them under the PIN and puts what is
needed to read them into an envelope. The reader takes the envelope as a text or in a ZIP archive, and it
rebuilds the notes field by field, since the notes of older files lack some of the fields.

Whatever is read from a file is a JSON value of any kind. -/

namespace OpaqueStellar.Wallet.NoteBackup

open OpaqueStellar.Lib OpaqueStellar.Lib.JsonValue OpaqueStellar.Soroban

structure PoolNote where
  cluster : Units
  -- older notes may not have these two
  poolId : Option Units := none
  account : Option Units := none
  value : Units
  scope : Double
  leafIndex : Double
  nullifier : Units
  secret : Units
  commitment : Units
  spent : Bool
  createdAt : Double

/-- A note as the reader builds it. The cluster of the envelope, which may be no string, stands in for one
that is missing. -/
structure MigratedNote where
  cluster : JsonValue
  poolId : Units
  account : Option Units
  value : Units
  scope : Double
  leafIndex : Double
  nullifier : Units
  secret : Units
  commitment : Units
  spent : Bool
  createdAt : Double

structure DecryptedNoteBackupPayload where
  version : ℕ
  createdAt : Units
  cluster : JsonValue
  poolId : Option Units
  notes : List MigratedNote

inductive BackupError where
  -- `CorruptedBackupError`
  | corrupted (message : Units)
  -- `InvalidPasswordError`
  | invalidPassword (message : Units)
  -- `atob` was given no base64
  | invalidCharacter
  -- a key of no iterations
  | operation
  | typeError

structure Key where
  pin : Units
  salt : List UInt8
  iterations : ℕ

/-- What the browser provides. A value is encrypted as its JSON text; what is decrypted may be none, and then
it has no value. -/
structure Env where
  encrypt : Key → List UInt8 → JsonValue → List UInt8
  decrypt : Key → List UInt8 → List UInt8 → Option (Option JsonValue)
  sha256 : List UInt8 → List UInt8
  -- `String(number)`
  numberText : Double → Units

def BACKUP_FORMAT_VERSION : ℕ := 2

def BACKUP_SCHEMA_URI : String := "https://opaque.cash/schemas/pool-notes-backup-v2.json"

def KDF_ITERATIONS : ℕ := 600000

/-! ## The writer -/

def optionalMember (name : String) (v : Option JsonValue) : List (Units × JsonValue) :=
  (v.map fun v => (units name, v)).toList

/-- The note as an object; a field that is `undefined` is none. -/
def PoolNote.toValue (note : PoolNote) : JsonValue := .object (
  [(units "cluster", .string note.cluster)] ++
  optionalMember "poolId" (note.poolId.map .string) ++
  optionalMember "account" (note.account.map .string) ++
  [(units "value", .string note.value),
    (units "scope", .number note.scope),
    (units "leafIndex", .number note.leafIndex),
    (units "nullifier", .string note.nullifier),
    (units "secret", .string note.secret),
    (units "commitment", .string note.commitment),
    (units "spent", .bool note.spent),
    (units "createdAt", .number note.createdAt)])

structure BackupOptions where
  notes : List PoolNote
  pin : Units
  cluster : Units
  poolId : Option Units := none
  appVersion : Option Units := none

/-- `poolId ?? null` -/
def BackupOptions.poolIdValue (opts : BackupOptions) : JsonValue := (opts.poolId.map .string).getD .null

/-- What is encrypted. -/
def BackupOptions.payload (opts : BackupOptions) (createdAt : Units) : JsonValue := .object
  [(units "version", count BACKUP_FORMAT_VERSION),
    (units "createdAt", .string createdAt),
    (units "cluster", .string opts.cluster),
    (units "poolId", opts.poolIdValue),
    (units "notes", .array (opts.notes.map PoolNote.toValue))]

structure VersionedNoteBackupEnvelope where
  schema : Units
  formatVersion : ℕ
  appVersion : Units
  createdAt : Units
  cluster : Units
  poolId : JsonValue
  noteCount : ℕ
  integrityChecksum : Units
  cipher : Units
  kdf : Units
  iterations : ℕ
  salt : Units
  iv : Units
  encryptedPayload : Units

def VersionedNoteBackupEnvelope.toValue (envelope : VersionedNoteBackupEnvelope) : JsonValue := .object
  [(units "$schema", .string envelope.schema),
    (units "formatVersion", count envelope.formatVersion),
    (units "appVersion", .string envelope.appVersion),
    (units "createdAt", .string envelope.createdAt),
    (units "cluster", .string envelope.cluster),
    (units "poolId", envelope.poolId),
    (units "noteCount", count envelope.noteCount),
    (units "integrityChecksum", .string envelope.integrityChecksum),
    (units "cipher", .string envelope.cipher),
    (units "kdf", .string envelope.kdf),
    (units "iterations", count envelope.iterations),
    (units "salt", .string envelope.salt),
    (units "iv", .string envelope.iv),
    (units "encryptedPayload", .string envelope.encryptedPayload)]

def bytesToBase64 (bytes : List UInt8) : Units := Utf16.encode (Base64.encode bytes)

def computeSha256Hex (env : Env) (data : List UInt8) : Units := Utf16.encode (Hex.encode (env.sha256 data))

/-- The envelope and the ciphertext. -/
def createVersionedNoteBackupEnvelope (env : Env) (opts : BackupOptions) (salt : BytesN 16)
    (iv : BytesN 12) (createdAt : Units) : VersionedNoteBackupEnvelope × List UInt8 :=
  let ciphertext := env.encrypt ⟨opts.pin, salt.1, KDF_ITERATIONS⟩ iv.1 (opts.payload createdAt)
  ({ schema := units BACKUP_SCHEMA_URI
     formatVersion := BACKUP_FORMAT_VERSION
     appVersion := opts.appVersion.getD (units "1.0.0")
     createdAt := createdAt
     cluster := opts.cluster
     poolId := opts.poolIdValue
     noteCount := opts.notes.length
     integrityChecksum := computeSha256Hex env ciphertext
     cipher := units "AES-256-GCM"
     kdf := units "PBKDF2-SHA256"
     iterations := KDF_ITERATIONS
     salt := bytesToBase64 salt.1
     iv := bytesToBase64 iv.1
     encryptedPayload := bytesToBase64 ciphertext }, ciphertext)

/-! ## The reader -/

/-- An archive's two files: `none` where there is no such file. The content of one may not be readable, and
the manifest may be no JSON. -/
structure Archive where
  manifest : Option (Option JsonValue)
  encryptedNotes : Option (Option (List UInt8))

inductive BackupInput where
  -- `none` is a text that is not JSON
  | text (parsed : Option JsonValue)
  -- `none` is no archive
  | zip (archive : Option Archive)

def buildEncryptedPoolNoteBackup (env : Env) (opts : BackupOptions) (salt : BytesN 16) (iv : BytesN 12)
    (createdAt : Units) : Archive :=
  let (envelope, ciphertext) := createVersionedNoteBackupEnvelope env opts salt iv createdAt
  ⟨some (some envelope.toValue.reread), some (some ciphertext)⟩

def corrupted {α : Type} (message : String) : Except BackupError α := .error (.corrupted (units message))

/-- `String(value)` -/
def stringOf (env : Env) (v : Option JsonValue) : Except BackupError Units :=
  match v with
  | none => .ok (units "undefined")
  | some v =>
    match v.toText env.numberText with
    | some text => .ok text
    | none => .error .typeError

def base64ToBytes (env : Env) (v : Option JsonValue) : Except BackupError (List UInt8) := do
  let text ← stringOf env v
  match Base64.decode (Utf16.decode text) with
  | some bytes => .ok bytes
  | none => .error .invalidCharacter

/-- The envelope and the ciphertext of a file. -/
def readEnvelope (env : Env) : BackupInput → Except BackupError (JsonValue × List UInt8)
  | .text none => corrupted "Invalid backup JSON format."
  | .text (some parsed) =>
    if truthy parsed && truthy (parsed.get "encryptedPayload") && truthy (parsed.get "salt") &&
        truthy (parsed.get "iv") then
      match base64ToBytes env (parsed.get "encryptedPayload") with
      | .ok ciphertext => .ok (parsed, ciphertext)
      | .error _ => corrupted "Invalid backup JSON format."
    else corrupted "Unrecognized backup file contents."
  | .zip none => corrupted "Failed to parse backup ZIP archive. File may be corrupted."
  | .zip (some archive) =>
    match archive.manifest, archive.encryptedNotes with
    | some manifest, some encryptedNotes =>
      match manifest, encryptedNotes with
      | some envelope, some ciphertext =>
        if truthy envelope then .ok (envelope, ciphertext)
        else corrupted "Unable to locate encrypted payload in backup."
      | _, _ => corrupted "Failed to parse backup ZIP archive. File may be corrupted."
    | _, _ => corrupted "Backup ZIP is missing manifest or encrypted notes payload."

/-- `a ?? b` -/
def orElse (a : Option JsonValue) (b : JsonValue) : JsonValue :=
  match a with
  | none | some .null => b
  | some v => v

def formatVersionOf (envelope : JsonValue) : JsonValue :=
  orElse (envelope.get "formatVersion") (orElse (envelope.get "version") (count 1))

/-- `number < 1` -/
def ltOne : Double → Bool
  | .nan => false
  | .infinity negative => negative
  | .finite n => n < 1

def checkFormatVersion (env : Env) (formatVersion : JsonValue) : Except BackupError Unit :=
  let unsupported := do
    let text ← stringOf env formatVersion
    .error (.corrupted (units "Unsupported backup format version: " ++ text))
  match formatVersion with
  | .number n => if ltOne n then unsupported else .ok ()
  | _ => unsupported

/-- Capitals of ASCII. No other letter has one of the digits of a checksum for its small letter. -/
def toLowerCase (text : Units) : Units := text.map fun u => if 65 ≤ u ∧ u ≤ 90 then u + 32 else u

def checkIntegrity (env : Env) (envelope : JsonValue) (ciphertext : List UInt8) : Except BackupError Unit :=
  if truthy (envelope.get "integrityChecksum") then
    match envelope.get "integrityChecksum" with
    | some (.string checksum) =>
      if toLowerCase (computeSha256Hex env ciphertext) ≠ toLowerCase checksum then
        corrupted "Backup integrity check failed: payload checksum mismatch."
      else .ok ()
    | _ => .error .typeError
  else .ok ()

/-- `number > 0` -/
def positive : Double → Bool
  | .nan => false
  | .infinity negative => !negative
  | .finite n => 0 < n

def iterationsOf (envelope : JsonValue) : Double :=
  match envelope.get "iterations" with
  | some (.number n) => if positive n then n else .finite KDF_ITERATIONS
  | _ => .finite KDF_ITERATIONS

/-- PBKDF2. The number, which is positive, loses its fraction and has to be a positive `unsigned long`. -/
def deriveBackupKey (pin : Units) (salt : List UInt8) (iterations : Double) : Except BackupError Key :=
  match iterations with
  | .finite n =>
    if 2 ^ 32 ≤ n then .error .typeError
    else if n < 1 then .error .operation
    else .ok ⟨pin, salt, ⌊n⌋.toNat⟩
  | _ => .error .typeError

/-- What an accepted file holds: the format version, the payload, and the cluster of the envelope. -/
structure OpenedBackup where
  formatVersion : JsonValue
  rawPayload : JsonValue
  fallbackCluster : JsonValue

/-- The reader up to the migration. -/
def openBackup (env : Env) (input : BackupInput) (pin : Units) : Except BackupError OpenedBackup := do
  let (envelope, ciphertext) ← readEnvelope env input
  let formatVersion := formatVersionOf envelope
  checkFormatVersion env formatVersion
  checkIntegrity env envelope ciphertext
  if !truthy (envelope.get "salt") || !truthy (envelope.get "iv") then
    corrupted "Backup manifest is missing cryptographic salt or IV parameters."
  else
    let salt ← base64ToBytes env (envelope.get "salt")
    let iv ← base64ToBytes env (envelope.get "iv")
    let key ← deriveBackupKey pin salt (iterationsOf envelope)
    match env.decrypt key iv ciphertext with
    | none => .error (.invalidPassword (units "Invalid PIN or corrupted backup payload."))
    | some none => corrupted "Decrypted note payload is not valid JSON."
    | some (some rawPayload) =>
      .ok ⟨formatVersion, rawPayload, orElse (envelope.get "cluster") (.string (units "testnet"))⟩

/-! ## The migration -/

/-- `typeof value === "object"`, where it is not `null`. -/
def isObject : JsonValue → Bool
  | .array _ | .object _ => true
  | _ => false

def stringOr (v : Option JsonValue) (default : Units) : Units :=
  match v with
  | some (.string s) => s
  | _ => default

def numberOr (v : Option JsonValue) (default : Double) : Double :=
  match v with
  | some (.number n) => n
  | _ => default

/-- The string of a cluster, or what stands in for it, which may be no string. -/
def clusterOr (v : Option JsonValue) (fallbackCluster : JsonValue) : JsonValue :=
  match v with
  | some (.string s) => .string s
  | _ => fallbackCluster

section Migration

-- `Date.now()` when the note at an index is read, and what stands in for a missing cluster
variable (env : Env) (now : ℕ → Double) (fallbackCluster : JsonValue)

def indexText (index : ℕ) : Units := Utf16.encode (Decimal.encode index)

def migrateNote (index : ℕ) (item : JsonValue) : Except BackupError MigratedNote :=
  if !isObject item then
    .error (.corrupted (units "Corrupted note item at index " ++ indexText index ++ units "."))
  else if !truthy (item.get "nullifier") || !truthy (item.get "secret") || !truthy (item.get "value") then
    .error (.corrupted (units "Note at index " ++ indexText index ++
      units " is missing essential cryptographic parameters."))
  else do
    let value ← stringOf env (item.get "value")
    let nullifier ← stringOf env (item.get "nullifier")
    let secret ← stringOf env (item.get "secret")
    .ok
      { cluster := clusterOr (item.get "cluster") fallbackCluster
        poolId := stringOr (item.get "poolId") (units "default")
        -- not among the fields that are rebuilt
        account := none
        value := value
        scope := numberOr (item.get "scope") (.finite 0)
        leafIndex := numberOr (item.get "leafIndex") (.finite 0)
        nullifier := nullifier
        secret := secret
        commitment := stringOr (item.get "commitment") []
        spent := truthy (item.get "spent")
        createdAt := numberOr (item.get "createdAt") (now index) }

/-- The items one after the other, from an index on. -/
def migrateNotes (index : ℕ) : List JsonValue → Except BackupError (List MigratedNote)
  | [] => .ok []
  | item :: items => do
    let note ← migrateNote env now fallbackCluster index item
    let notes ← migrateNotes (index + 1) items
    .ok (note :: notes)

/-- The notes are a field of the payload, or the payload itself. -/
def rawNotes (payload : JsonValue) : List JsonValue :=
  match payload.get "notes" with
  | some (.array items) => items
  | _ =>
    match payload with
    | .array items => items
    | _ => []

def migrateDecryptedNotes (nowText : Units) (payload : JsonValue) :
    Except BackupError DecryptedNoteBackupPayload :=
  if !isObject payload then corrupted "Decrypted note payload is malformed."
  else do
    let notes ← migrateNotes env now fallbackCluster 0 (rawNotes payload)
    .ok
      { version := BACKUP_FORMAT_VERSION
        createdAt := stringOr (payload.get "createdAt") nowText
        cluster := clusterOr (payload.get "cluster") fallbackCluster
        poolId :=
          match payload.get "poolId" with
          | some (.string s) => some s
          | _ => none
        notes := notes }

end Migration

def importEncryptedPoolNoteBackup (env : Env) (now : ℕ → Double) (nowText : Units) (input : BackupInput)
    (pin : Units) : Except BackupError DecryptedNoteBackupPayload := do
  let opened ← openBackup env input pin
  migrateDecryptedNotes env now opened.fallbackCluster nowText opened.rawPayload

/-! ## What the writer leaves is opened -/

section Written

variable {env : Env} {opts : BackupOptions} {salt : BytesN 16} {iv : BytesN 12} {createdAt : Units}

theorem bytesToBase64_ne_nil {bytes : List UInt8} (h : bytes ≠ []) : bytesToBase64 bytes ≠ [] := by
  intro hnil
  have hdecode := Utf16.decode_encode (Base64.encode bytes)
  rw [bytesToBase64] at hnil
  rw [hnil] at hdecode
  exact encode_ne_nil h hdecode.symm

theorem base64ToBytes_bytesToBase64 (bytes : List UInt8) :
    base64ToBytes env (some (.string (bytesToBase64 bytes))) = .ok bytes := by
  have htext : stringOf env (some (.string (bytesToBase64 bytes))) = .ok (bytesToBase64 bytes) := by
    simp [stringOf, toText]
  simp only [base64ToBytes, bind_eq_ok, htext]
  refine ⟨_, rfl, ?_⟩
  rw [bytesToBase64, Utf16.decode_encode, Base64.decode_encode]

/-- What the cipher gives back under the key and the nonce that it was given. -/
def Env.Inverts (env : Env) (key : Key) (iv : List UInt8) (v : JsonValue) : Prop :=
  env.encrypt key iv v ≠ [] ∧ env.decrypt key iv (env.encrypt key iv v) = some (some v.reread)

/-- What the reader looks for in an envelope, as the writer leaves it. -/
structure Manifest (env : Env) (v : JsonValue) (cluster : Units) (salt iv ciphertext : List UInt8) :
    Prop where
  truthy : truthy v = true
  formatVersion : v.get "formatVersion" = some (count BACKUP_FORMAT_VERSION)
  cluster : v.get "cluster" = some (.string cluster)
  integrityChecksum : v.get "integrityChecksum" = some (.string (computeSha256Hex env ciphertext))
  iterations : v.get "iterations" = some (count KDF_ITERATIONS)
  salt : v.get "salt" = some (.string (bytesToBase64 salt))
  iv : v.get "iv" = some (.string (bytesToBase64 iv))
  encryptedPayload : v.get "encryptedPayload" = some (.string (bytesToBase64 ciphertext))

variable (env opts salt iv createdAt) in
theorem manifest_create :
    let (envelope, ciphertext) := createVersionedNoteBackupEnvelope env opts salt iv createdAt
    Manifest env envelope.toValue.reread opts.cluster salt.1 iv.1 ciphertext := by
  constructor <;>
    simp [VersionedNoteBackupEnvelope.toValue, get_reread_object]
  rw [reread]
  rfl

section Manifest

variable {v : JsonValue} {cluster pin : Units} {salt iv ciphertext : List UInt8}

theorem Manifest.truthy_bytes (hv : Manifest env v cluster salt iv ciphertext) (hsalt : salt ≠ [])
    (hiv : iv ≠ []) (hciphertext : ciphertext ≠ []) : JsonValue.truthy (v.get "encryptedPayload") = true ∧
      JsonValue.truthy (v.get "salt") = true ∧ JsonValue.truthy (v.get "iv") = true := by
  simp only [hv.encryptedPayload, hv.salt, hv.iv, truthy_string]
  exact ⟨bytesToBase64_ne_nil hciphertext, bytesToBase64_ne_nil hsalt, bytesToBase64_ne_nil hiv⟩

theorem Manifest.readEnvelope_text (hv : Manifest env v cluster salt iv ciphertext) (hsalt : salt ≠ [])
    (hiv : iv ≠ []) (hciphertext : ciphertext ≠ []) :
    readEnvelope env (.text (some v)) = .ok (v, ciphertext) := by
  obtain ⟨hpayload, hs, hi⟩ := hv.truthy_bytes hsalt hiv hciphertext
  simp only [readEnvelope, hv.truthy, hpayload, hs, hi, Bool.and_self, if_true]
  rw [hv.encryptedPayload, base64ToBytes_bytesToBase64]

theorem Manifest.readEnvelope_zip (hv : Manifest env v cluster salt iv ciphertext) :
    readEnvelope env (.zip (some ⟨some (some v), some (some ciphertext)⟩)) = .ok (v, ciphertext) := by
  simp [readEnvelope, hv.truthy]

theorem Manifest.checkFormatVersion_eq (hv : Manifest env v cluster salt iv ciphertext) :
    checkFormatVersion env (formatVersionOf v) = .ok () := by
  have hversion : formatVersionOf v = count BACKUP_FORMAT_VERSION := by
    rw [formatVersionOf, hv.formatVersion]
    rfl
  rw [hversion]
  simp [checkFormatVersion, count, ltOne, BACKUP_FORMAT_VERSION]

theorem Manifest.checkIntegrity_eq (hv : Manifest env v cluster salt iv ciphertext) :
    checkIntegrity env v ciphertext = .ok () := by
  simp [checkIntegrity, hv.integrityChecksum]

theorem Manifest.deriveBackupKey_eq (hv : Manifest env v cluster salt iv ciphertext) :
    deriveBackupKey pin salt (iterationsOf v) = .ok ⟨pin, salt, KDF_ITERATIONS⟩ := by
  have hiterations : iterationsOf v = .finite KDF_ITERATIONS := by
    rw [iterationsOf, hv.iterations]
    exact if_pos (by simp [positive, KDF_ITERATIONS])
  have hsmall : ¬ (2 : ℚ) ^ 32 ≤ (KDF_ITERATIONS : ℕ) := by norm_num [KDF_ITERATIONS]
  have hlarge : ¬ ((KDF_ITERATIONS : ℕ) : ℚ) < 1 := by norm_num [KDF_ITERATIONS]
  rw [hiterations, deriveBackupKey, if_neg hsmall, if_neg hlarge]
  simp

theorem Manifest.openBackup_eq (hv : Manifest env v cluster salt iv ciphertext) {input : BackupInput}
    {rawPayload : JsonValue} (hinput : readEnvelope env input = .ok (v, ciphertext)) (hsalt : salt ≠ [])
    (hiv : iv ≠ []) (hciphertext : ciphertext ≠ [])
    (hdecrypt : env.decrypt ⟨pin, salt, KDF_ITERATIONS⟩ iv ciphertext = some (some rawPayload)) :
    openBackup env input pin = .ok ⟨count BACKUP_FORMAT_VERSION, rawPayload, .string cluster⟩ := by
  obtain ⟨-, hs, hi⟩ := hv.truthy_bytes hsalt hiv hciphertext
  simp only [openBackup, bind_eq_ok, hinput]
  refine ⟨_, rfl, (), hv.checkFormatVersion_eq, (), hv.checkIntegrity_eq, ?_⟩
  simp only [hs, hi, Bool.not_true, Bool.or_self, Bool.false_eq_true, if_false, bind_eq_ok]
  refine ⟨salt, ?_, iv, ?_, _, hv.deriveBackupKey_eq, ?_⟩
  · rw [hv.salt, base64ToBytes_bytesToBase64]
  · rw [hv.iv, base64ToBytes_bytesToBase64]
  · rw [hdecrypt, formatVersionOf, hv.formatVersion, hv.cluster]
    rfl

end Manifest

theorem ne_nil_of_bytesN {n : ℕ} (bytes : BytesN (n + 1)) : bytes.1 ≠ [] := by
  apply List.ne_nil_of_length_pos
  rw [bytes.2]
  exact n.succ_pos

variable (env opts salt iv createdAt) in
/-- The file as a text and as an archive. -/
def written : List BackupInput :=
  [.text (some (createVersionedNoteBackupEnvelope env opts salt iv createdAt).1.toValue.reread),
    .zip (some (buildEncryptedPoolNoteBackup env opts salt iv createdAt))]

/-- **What the writer leaves is opened**, as a text and as an archive. -/
theorem openBackup_written {input : BackupInput} (h : input ∈ written env opts salt iv createdAt)
    (hcipher : env.Inverts ⟨opts.pin, salt.1, KDF_ITERATIONS⟩ iv.1 (opts.payload createdAt)) :
    openBackup env input opts.pin =
      .ok ⟨count BACKUP_FORMAT_VERSION, (opts.payload createdAt).reread, .string opts.cluster⟩ := by
  obtain ⟨hciphertext, hdecrypt⟩ := hcipher
  have hmanifest : Manifest env _ opts.cluster salt.1 iv.1 _ :=
    manifest_create env opts salt iv createdAt
  have hsalt := ne_nil_of_bytesN salt
  have hiv := ne_nil_of_bytesN iv
  apply hmanifest.openBackup_eq _ hsalt hiv hciphertext hdecrypt
  rcases List.mem_pair.mp h with rfl | rfl
  · exact hmanifest.readEnvelope_text hsalt hiv hciphertext
  · exact hmanifest.readEnvelope_zip

end Written

/-! ## What is migrated

A note that has been written is read with every field that JSON can hold. -/

/-- What the reader insists on. -/
def PoolNote.Complete (note : PoolNote) : Prop := note.value ≠ [] ∧ note.nullifier ≠ [] ∧ note.secret ≠ []

instance (note : PoolNote) : Decidable note.Complete := inferInstanceAs (Decidable (_ ∧ _))

/-- JSON holds finite numbers only. -/
def finiteOr (n default : Double) : Double :=
  match n with
  | .finite q => .finite q
  | _ => default

/-- The note as it is restored, in every field but the account. -/
structure Restores (now : ℕ → Double) (note : PoolNote) (migrated : MigratedNote) : Prop where
  cluster : migrated.cluster = .string note.cluster
  poolId : migrated.poolId = note.poolId.getD (units "default")
  value : migrated.value = note.value
  scope : migrated.scope = finiteOr note.scope (.finite 0)
  leafIndex : migrated.leafIndex = finiteOr note.leafIndex (.finite 0)
  nullifier : migrated.nullifier = note.nullifier
  secret : migrated.secret = note.secret
  commitment : migrated.commitment = note.commitment
  spent : migrated.spent = note.spent
  createdAt : ∃ index, migrated.createdAt = finiteOr note.createdAt (now index)

/-- Which fields of a note are its item's, and which are defaults. -/
structure FromItem (env : Env) (item : JsonValue) (note : MigratedNote) : Prop where
  value : truthy (item.get "value") = true ∧ stringOf env (item.get "value") = .ok note.value
  nullifier : truthy (item.get "nullifier") = true ∧ stringOf env (item.get "nullifier") = .ok note.nullifier
  secret : truthy (item.get "secret") = true ∧ stringOf env (item.get "secret") = .ok note.secret
  poolId : item.get "poolId" = some (.string note.poolId) ∨
    note.poolId = units "default" ∧ ∀ s, item.get "poolId" ≠ some (.string s)
  scope : item.get "scope" = some (.number note.scope) ∨
    note.scope = .finite 0 ∧ ∀ n, item.get "scope" ≠ some (.number n)
  leafIndex : item.get "leafIndex" = some (.number note.leafIndex) ∨
    note.leafIndex = .finite 0 ∧ ∀ n, item.get "leafIndex" ≠ some (.number n)
  commitment : item.get "commitment" = some (.string note.commitment) ∨
    note.commitment = [] ∧ ∀ s, item.get "commitment" ≠ some (.string s)

section Migrated

variable {env : Env} {now : ℕ → Double} {fallbackCluster : JsonValue} {index : ℕ}

theorem numberOr_reread (n default : Double) :
    numberOr (some (JsonValue.number n).reread) default = finiteOr n default := by
  cases n <;> simp [reread, numberOr, finiteOr]

theorem stringOf_string (s : Units) : stringOf env (some (.string s)) = .ok s := by
  simp [stringOf, toText]

theorem stringOr_cases (v : Option JsonValue) (default : Units) :
    v = some (.string (stringOr v default)) ∨
      stringOr v default = default ∧ ∀ s, v ≠ some (.string s) := by
  unfold stringOr
  split
  · exact .inl rfl
  · next h => exact .inr ⟨rfl, h⟩

theorem numberOr_cases (v : Option JsonValue) (default : Double) :
    v = some (.number (numberOr v default)) ∨
      numberOr v default = default ∧ ∀ n, v ≠ some (.number n) := by
  unfold numberOr
  split
  · exact .inl rfl
  · next h => exact .inr ⟨rfl, h⟩

/-- A field of a note that has been written. -/
theorem get_note (note : PoolNote) :
    let item := note.toValue.reread
    item.get "cluster" = some (.string note.cluster) ∧
      item.get "poolId" = note.poolId.map .string ∧
      item.get "value" = some (.string note.value) ∧
      item.get "scope" = some (JsonValue.number note.scope).reread ∧
      item.get "leafIndex" = some (JsonValue.number note.leafIndex).reread ∧
      item.get "nullifier" = some (.string note.nullifier) ∧
      item.get "secret" = some (.string note.secret) ∧
      item.get "commitment" = some (.string note.commitment) ∧
      item.get "spent" = some (.bool note.spent) ∧
      item.get "createdAt" = some (JsonValue.number note.createdAt).reread := by
  cases hpool : note.poolId <;> cases haccount : note.account <;>
    simp [PoolNote.toValue, get_reread_object, optionalMember, hpool, haccount]

variable (env now fallbackCluster index) in
/-- A note that has been written is restored, unless the reader insists on what it lacks. -/
theorem migrateNote_written (note : PoolNote) :
    (note.Complete → ∃ migrated,
      migrateNote env now fallbackCluster index note.toValue.reread = .ok migrated ∧
        Restores now note migrated) ∧
    (¬ note.Complete → ∃ message,
      migrateNote env now fallbackCluster index note.toValue.reread = .error (.corrupted message)) := by
  obtain ⟨hcluster, hpool, hvalue, hscope, hleaf, hnullifier, hsecret, hcommitment, hspent, hcreated⟩ :=
    get_note note
  have hobject : isObject note.toValue.reread = true := by
    rw [PoolNote.toValue, reread]
    rfl
  have hmissing : (!truthy (some (.string note.nullifier)) || !truthy (some (.string note.secret)) ||
      !truthy (some (.string note.value))) = true ↔ ¬ note.Complete := by
    simp only [Bool.or_eq_true, Bool.not_eq_true', ← Bool.not_eq_true, truthy_string, PoolNote.Complete]
    tauto
  unfold migrateNote
  simp only [hobject, hvalue, hnullifier, hsecret, Bool.not_true, Bool.false_eq_true, if_false]
  constructor
  · intro hcomplete
    simp only [stringOf_string, hcluster, hpool, hscope, hleaf, hcommitment, hspent, hcreated,
      numberOr_reread]
    rw [if_neg (fun h => hmissing.mp h hcomplete)]
    refine ⟨_, rfl, rfl, ?_, rfl, rfl, rfl, rfl, rfl, rfl, rfl, index, rfl⟩
    cases note.poolId <;> rfl
  · intro hincomplete
    rw [if_pos (hmissing.mpr hincomplete)]
    exact ⟨_, rfl⟩

variable (env now fallbackCluster index) in
theorem migrateNotes_written (notes : List PoolNote) :
    ((∀ note ∈ notes, note.Complete) → ∃ migrated,
      migrateNotes env now fallbackCluster index (notes.map fun note => note.toValue.reread) = .ok migrated ∧
        List.Forall₂ (Restores now) notes migrated) ∧
    ((∃ note ∈ notes, ¬ note.Complete) → ∃ message,
      migrateNotes env now fallbackCluster index (notes.map fun note => note.toValue.reread) =
        .error (.corrupted message)) := by
  induction notes generalizing index with
  | nil => exact ⟨fun _ => ⟨[], rfl, .nil⟩, by simp⟩
  | cons note notes ih =>
    obtain ⟨hwritten, hlacking⟩ := migrateNote_written env now fallbackCluster index note
    obtain ⟨hrest, hfails⟩ := ih (index + 1)
    rw [List.map_cons, migrateNotes]
    constructor
    · intro hcomplete
      obtain ⟨hhead, htail⟩ := List.forall_mem_cons.mp hcomplete
      obtain ⟨migrated, hmigrated, hrestores⟩ := hwritten hhead
      obtain ⟨rest, hrest, hall⟩ := hrest htail
      rw [hmigrated, hrest]
      exact ⟨migrated :: rest, rfl, .cons hrestores hall⟩
    · intro hincomplete
      by_cases hhead : note.Complete
      · obtain ⟨migrated, hmigrated, -⟩ := hwritten hhead
        have htail : ∃ n ∈ notes, ¬ n.Complete := by
          obtain ⟨n, hn, hnot⟩ := hincomplete
          rcases List.mem_cons.mp hn with rfl | hn
          · exact absurd hhead hnot
          · exact ⟨n, hn, hnot⟩
        obtain ⟨message, hfails⟩ := hfails htail
        rw [hmigrated, hfails]
        exact ⟨message, rfl⟩
      · obtain ⟨message, hfails⟩ := hlacking hhead
        rw [hfails]
        exact ⟨message, rfl⟩

theorem migrateNote_eq_ok {item : JsonValue} {note : MigratedNote}
    (h : migrateNote env now fallbackCluster index item = .ok note) : FromItem env item note := by
  unfold migrateNote at h
  split at h
  · cases h
  · split at h
    · cases h
    · next hthere =>
      simp only [bind_eq_ok] at h
      obtain ⟨value, hvalue, nullifier, hnullifier, secret, hsecret, hnote⟩ := h
      cases hnote
      simp only [Bool.or_eq_true, Bool.not_eq_true', not_or, Bool.not_eq_false] at hthere
      obtain ⟨⟨hn, hs⟩, hv⟩ := hthere
      exact ⟨⟨hv, hvalue⟩, ⟨hn, hnullifier⟩, ⟨hs, hsecret⟩, stringOr_cases _ _, numberOr_cases _ _,
        numberOr_cases _ _, stringOr_cases _ _⟩

theorem migrateNotes_eq_ok {items : List JsonValue} {notes : List MigratedNote}
    (h : migrateNotes env now fallbackCluster index items = .ok notes) :
    List.Forall₂ (FromItem env) items notes := by
  induction items generalizing index notes with
  | nil =>
    cases h
    exact .nil
  | cons item items ih =>
    simp only [migrateNotes, bind_eq_ok] at h
    obtain ⟨note, hnote, rest, hrest, hnotes⟩ := h
    cases hnotes
    exact .cons (migrateNote_eq_ok hnote) (ih hrest)

end Migrated

section Import

variable {env : Env} {now : ℕ → Double} {nowText pin : Units} {input : BackupInput}

/-- What the migration makes of a payload that the writer left. -/
theorem migrateDecryptedNotes_written (opts : BackupOptions) (createdAt : Units) (fallbackCluster : JsonValue) :
    ((∀ note ∈ opts.notes, note.Complete) → ∃ payload,
      migrateDecryptedNotes env now fallbackCluster nowText (opts.payload createdAt).reread = .ok payload ∧
        List.Forall₂ (Restores now) opts.notes payload.notes) ∧
    ((∃ note ∈ opts.notes, ¬ note.Complete) → ∃ message,
      migrateDecryptedNotes env now fallbackCluster nowText (opts.payload createdAt).reread =
        .error (.corrupted message)) := by
  have hobject : isObject (opts.payload createdAt).reread = true := by
    rw [BackupOptions.payload, reread]
    rfl
  have hraw : rawNotes (opts.payload createdAt).reread = opts.notes.map fun note => note.toValue.reread := by
    have hget : (opts.payload createdAt).reread.get "notes" =
        some (.array (opts.notes.map fun note => note.toValue.reread)) := by
      simp [BackupOptions.payload, get_reread_object]
      rw [reread, rereadItems_eq_map, List.map_map]
      rfl
    unfold rawNotes
    rw [hget]
  obtain ⟨hrestored, hfails⟩ := migrateNotes_written env now fallbackCluster 0 opts.notes
  simp only [migrateDecryptedNotes, hobject, hraw, Bool.not_true, Bool.false_eq_true, if_false]
  constructor
  · intro hcomplete
    obtain ⟨migrated, hmigrated, hall⟩ := hrestored hcomplete
    rw [hmigrated]
    exact ⟨_, rfl, hall⟩
  · intro hincomplete
    obtain ⟨message, hfails⟩ := hfails hincomplete
    rw [hfails]
    exact ⟨message, rfl⟩

theorem migrateDecryptedNotes_eq_ok {fallbackCluster rawPayload : JsonValue}
    {payload : DecryptedNoteBackupPayload}
    (h : migrateDecryptedNotes env now fallbackCluster nowText rawPayload = .ok payload) :
    List.Forall₂ (FromItem env) (rawNotes rawPayload) payload.notes := by
  unfold migrateDecryptedNotes at h
  split at h
  · cases h
  · simp only [bind_eq_ok] at h
    obtain ⟨notes, hnotes, hpayload⟩ := h
    cases hpayload
    exact migrateNotes_eq_ok hnotes

theorem checkFormatVersion_eq_ok {formatVersion : JsonValue}
    (h : checkFormatVersion env formatVersion = .ok ()) :
    ∃ n, formatVersion = .number n ∧ ltOne n = false := by
  have herror : ∀ v, (do
      let text ← stringOf env v
      .error (.corrupted (units "Unsupported backup format version: " ++ text))) ≠
        (Except.ok () : Except BackupError Unit) := by
    intro v hv
    obtain ⟨text, -, htext⟩ := bind_eq_ok.mp hv
    cases htext
  unfold checkFormatVersion at h
  dsimp only at h
  split at h
  · next n =>
    split at h
    · exact absurd h (herror _)
    · next hlt => exact ⟨n, rfl, by simpa using hlt⟩
  · exact absurd h (herror _)

theorem openBackup_eq_ok {opened : OpenedBackup} (h : openBackup env input pin = .ok opened) :
    ∃ n, opened.formatVersion = .number n ∧ ltOne n = false := by
  simp only [openBackup, bind_eq_ok] at h
  obtain ⟨read, -, u, hversion, -, -, h⟩ := h
  split at h
  · cases h
  · simp only [bind_eq_ok] at h
    obtain ⟨salt, -, iv, -, key, -, h⟩ := h
    split at h
    · cases h
    · cases h
    · cases h
      exact checkFormatVersion_eq_ok hversion

end Import

/-- **What a backup restores.** The notes that were written are restored, in their order and but for their
accounts, whether the file comes as a text or as an archive, if each has a value, a nullifier and a secret;
otherwise the file is rejected. A pool that is missing is the default pool, and a number that JSON cannot hold
is a default too. Of any file that is accepted the format version is a number from one on; the notes are one for each item,
with the fields of the item and defaults for those that it does not have. -/
theorem backup_restores (env : Env) :
    (∀ opts salt iv createdAt now nowText, ∀ input ∈ written env opts salt iv createdAt,
      env.Inverts ⟨opts.pin, salt.1, KDF_ITERATIONS⟩ iv.1 (opts.payload createdAt) →
      ((∀ note ∈ opts.notes, note.Complete) → ∃ payload,
        importEncryptedPoolNoteBackup env now nowText input opts.pin = .ok payload ∧
          List.Forall₂ (Restores now) opts.notes payload.notes) ∧
      ((∃ note ∈ opts.notes, ¬ note.Complete) → ∃ message,
        importEncryptedPoolNoteBackup env now nowText input opts.pin = .error (.corrupted message))) ∧
    ∀ now nowText input pin payload, importEncryptedPoolNoteBackup env now nowText input pin = .ok payload →
      ∃ opened, openBackup env input pin = .ok opened ∧
        (∃ n, opened.formatVersion = .number n ∧ ltOne n = false) ∧
        List.Forall₂ (FromItem env) (rawNotes opened.rawPayload) payload.notes := by
  constructor
  · intro opts salt iv createdAt now nowText input hinput hcipher
    rw [importEncryptedPoolNoteBackup, openBackup_written hinput hcipher]
    exact migrateDecryptedNotes_written opts createdAt _
  · intro now nowText input pin payload h
    obtain ⟨opened, hopened, hmigrated⟩ := bind_eq_ok.mp h
    exact ⟨opened, hopened, openBackup_eq_ok hopened, migrateDecryptedNotes_eq_ok hmigrated⟩

/-! ## An old note -/

/-- A note of before there were pools. -/
def legacyNote : PoolNote where
  cluster := units "testnet"
  value := units "50000000"
  scope := .finite 1
  leafIndex := .finite 3
  nullifier := units "11"
  secret := units "12"
  commitment := units "0x13"
  spent := false
  createdAt := .finite 1700000000000

def optionsOf (note : PoolNote) : BackupOptions where
  notes := [note]
  pin := units "123456"
  cluster := units "testnet"

/-- The cipher of one value. -/
def envOf (rawPayload : JsonValue) : Env where
  encrypt _ _ _ := [1]
  decrypt _ _ _ := some (some rawPayload)
  sha256 _ := [2]
  numberText _ := units "0"

def zeroSalt : BytesN 16 := ⟨List.replicate 16 0, rfl⟩

def zeroIv : BytesN 12 := ⟨List.replicate 12 0, rfl⟩

/-- The payload of a backup of a note, as it is decrypted. -/
def payloadOf (note : PoolNote) : JsonValue := ((optionsOf note).payload []).reread

def zipOf (note : PoolNote) (rawPayload : JsonValue) : BackupInput :=
  .zip (some (buildEncryptedPoolNoteBackup (envOf rawPayload) (optionsOf note) zeroSalt zeroIv []))

theorem import_zipOf (note : PoolNote) (rawPayload : JsonValue) :
    importEncryptedPoolNoteBackup (envOf rawPayload) (fun _ => .finite 0) [] (zipOf note rawPayload)
        (units "123456") =
      migrateDecryptedNotes (envOf rawPayload) (fun _ => .finite 0) (.string (units "testnet")) [] rawPayload := by
  have hmanifest := manifest_create (envOf rawPayload) (optionsOf note) zeroSalt zeroIv []
  have hopened : openBackup (envOf rawPayload) (zipOf note rawPayload) (units "123456") = _ :=
    hmanifest.openBackup_eq hmanifest.readEnvelope_zip (ne_nil_of_bytesN _) (ne_nil_of_bytesN _)
      (List.cons_ne_nil _ _) rfl
  rw [importEncryptedPoolNoteBackup, hopened]
  rfl

theorem backup_restores_legacy :
    ∃ payload, importEncryptedPoolNoteBackup (envOf (payloadOf legacyNote)) (fun _ => .finite 0) []
        (zipOf legacyNote (payloadOf legacyNote)) (units "123456") = .ok payload ∧
      List.Forall₂ (Restores fun _ => .finite 0) [legacyNote] payload.notes := by
  obtain ⟨hwritten, -⟩ := backup_restores (envOf (payloadOf legacyNote))
  obtain ⟨hrestored, -⟩ := hwritten (optionsOf legacyNote) zeroSalt zeroIv [] (fun _ => .finite 0) []
    (zipOf legacyNote (payloadOf legacyNote)) (by simp [written, zipOf]) ⟨List.cons_ne_nil _ _, rfl⟩
  apply hrestored
  simp only [optionsOf, List.forall_mem_singleton]
  decide

/-- The old note comes back in the default pool, one of an account without it, one without a number for its
scope in the default scope, and one without a secret not at all. Of an item that holds the three strings only,
the other fields are defaults. -/
theorem backup_restores_fails :
    (legacyNote.poolId = none ∧
      ∃ payload, importEncryptedPoolNoteBackup (envOf (payloadOf legacyNote)) (fun _ => .finite 0) []
          (zipOf legacyNote (payloadOf legacyNote)) (units "123456") = .ok payload ∧
        payload.notes.map MigratedNote.poolId = [units "default"]) ∧
    (let note := { legacyNote with account := some (units "GA") }
      ∃ payload, importEncryptedPoolNoteBackup (envOf (payloadOf note)) (fun _ => .finite 0) []
          (zipOf note (payloadOf note)) (units "123456") = .ok payload ∧
        payload.notes.map MigratedNote.account = [none]) ∧
    (let note := { legacyNote with scope := .nan }
      ∃ payload, importEncryptedPoolNoteBackup (envOf (payloadOf note)) (fun _ => .finite 0) []
          (zipOf note (payloadOf note)) (units "123456") = .ok payload ∧
        payload.notes.map MigratedNote.scope = [.finite 0]) ∧
    (let note := { legacyNote with secret := [] }
      ∀ payload, importEncryptedPoolNoteBackup (envOf (payloadOf note)) (fun _ => .finite 0) []
        (zipOf note (payloadOf note)) (units "123456") ≠ .ok payload) ∧
    let item := JsonValue.object [(units "nullifier", .string (units "11")),
      (units "secret", .string (units "12")), (units "value", .string (units "50000000"))]
    ∃ payload, importEncryptedPoolNoteBackup (envOf (.array [item])) (fun _ => .finite 0) []
        (zipOf legacyNote (.array [item])) (units "123456") = .ok payload ∧
      payload.notes.map (fun note => (note.poolId, note.scope, note.leafIndex, note.commitment)) =
        [(units "default", .finite 0, .finite 0, [])] := by
  simp only [import_zipOf]
  refine ⟨⟨rfl, _, rfl, rfl⟩, ⟨_, rfl, rfl⟩, ⟨_, rfl, rfl⟩, ?_, _, rfl, rfl⟩
  intro payload h
  cases h

end OpaqueStellar.Wallet.NoteBackup
