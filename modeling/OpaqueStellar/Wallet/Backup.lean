import Mathlib.Algebra.Order.Floor.Defs
import Mathlib.Data.Rat.Floor
import OpaqueStellar.Lib.Codec
import OpaqueStellar.Lib.Dict
import OpaqueStellar.Schemas.Core

/-! # Vault backups

The SDK (`sdk/src/crypto/backup.ts`) and the web client (`frontend/src/services/recoveryManager.ts`)
each write and read a backup file. The key is derived from the password with a number of iterations
that the file does not always tell: the web client takes it from `iterations` and falls back to the old
number, the SDK goes by `formatVersion`.

A ciphertext is known by what it was made of. It opens under the key and nonce that it was made with,
and under no others. -/

namespace OpaqueStellar.Wallet

open OpaqueStellar.Lib OpaqueStellar.Schemas OpaqueStellar.Soroban

/-! ## JSON -/

inductive Json where
  | null
  | bool (b : Bool)
  | number (n : ℚ)
  | string (s : Str)
  | array (items : List Json)
  | object (members : List (Str × Json))

inductive BackupError where
  -- "Corrupted backup file: missing required fields."
  | missingFields
  -- "Integrity check failed: corrupted backup payload."
  | integrity
  -- "Invalid password or corrupted backup file."
  | invalidPassword
  -- `atob` was given no base64
  | base64
  -- the number of iterations is out of range
  | iterations
  -- a property of `null`
  | typeError
  deriving DecidableEq

/-- Reading a property. -/
def Json.property (name : Str) : Json → Except BackupError (Option Json)
  | .null => .error .typeError
  | .object members => .ok (Dict.find members name)
  | _ => .ok none

/-- `Array.isArray(value) ? value : []` -/
def arrayOf : Option Json → List Json
  | some (.array items) => items
  | _ => []

/-- `value ?? {}` -/
def objectOf : Option Json → Json
  | none => .object []
  | some .null => .object []
  | some value => value

/-! ## Keys and ciphertexts -/

structure Key where
  password : Str
  salt : List UInt8
  iterations : ℕ
  deriving DecidableEq

/-- PBKDF2. The number of iterations loses its fraction and has to be a positive `unsigned long`. -/
def deriveKey (password : Str) (salt : List UInt8) (iterations : ℚ) : Except BackupError Key :=
  if 0 < ⌊iterations⌋ ∧ ⌊iterations⌋ < 2 ^ 32 then .ok ⟨password, salt, ⌊iterations⌋.toNat⟩
  else .error .iterations

inductive Ciphertext where
  -- `none` is a text that is not JSON
  | sealed (key : Key) (nonce : List UInt8) (plain : Option Json)
  -- bytes that were not encrypted by anyone
  | noise (bytes : List UInt8)

/-- `JSON.parse` of what AES-GCM decrypts; `none` where one of them throws. -/
def Ciphertext.decrypt (key : Key) (nonce : List UInt8) : Ciphertext → Option Json
  | sealed key' nonce' plain => if key' = key ∧ nonce' = nonce then plain else none
  | noise _ => none

/-- `encrypted_payload`: a text that stands for bytes, another text, or none. -/
inductive PayloadText where
  | missing
  | invalid
  | base64 (ciphertext : Ciphertext)

/-! ## Files -/

structure BackupFile where
  schema : Option Str := none
  version : ℕ
  formatVersion : Option ℚ := none
  timestamp : Str
  checksum : Option Str := none
  encryptedPayload : PayloadText
  salt : Option Str
  nonce : Option Str
  -- the SDK's files have none
  iterations : Option ℚ := none

structure VaultBackupPayload where
  stealthMasterKeys : List Json
  metaAddresses : List Json
  scanKeys : List Json
  ghostEntries : List Json
  notes : Option (List Json) := none
  recoveryMetadata : Option Json := none

structure BackupPayload where
  stealthMasterKeys : List Json
  metaAddresses : List Json
  scanKeys : List Json
  ghostEntries : List Json
  recoveryMetadata : Json

/-- What a backup restores. -/
def VaultBackupPayload.lists (p : VaultBackupPayload) : List (List Json) :=
  [p.stealthMasterKeys, p.metaAddresses, p.scanKeys, p.ghostEntries]

@[inherit_doc VaultBackupPayload.lists]
def BackupPayload.lists (p : BackupPayload) : List (List Json) :=
  [p.stealthMasterKeys, p.metaAddresses, p.scanKeys, p.ghostEntries]

/-- What `JSON.stringify` writes; a property that is `undefined` is left out. -/
def VaultBackupPayload.toJson (p : VaultBackupPayload) : Json := .object ([
  ("stealthMasterKeys".toList, .array p.stealthMasterKeys),
  ("metaAddresses".toList, .array p.metaAddresses),
  ("scanKeys".toList, .array p.scanKeys),
  ("ghostEntries".toList, .array p.ghostEntries)] ++
  (p.notes.map fun notes => ("notes".toList, Json.array notes)).toList ++
  (p.recoveryMetadata.map fun metadata => ("recoveryMetadata".toList, metadata)).toList)

def BackupPayload.toJson (p : BackupPayload) : Json := .object [
  ("stealthMasterKeys".toList, .array p.stealthMasterKeys),
  ("metaAddresses".toList, .array p.metaAddresses),
  ("scanKeys".toList, .array p.scanKeys),
  ("ghostEntries".toList, .array p.ghostEntries),
  ("recoveryMetadata".toList, p.recoveryMetadata)]

def VAULT_BACKUP_ITERATIONS : ℕ := 600000

def VAULT_BACKUP_LEGACY_ITERATIONS : ℕ := 100000

def VAULT_BACKUP_SCHEMA : Str := "https://opaque.cash/schemas/recovery-backup-v2.json".toList

def KDF_ITERATIONS : ℕ := 600000

def LEGACY_ITERATIONS : ℕ := 100000

/-- `backup.field` where it is checked for truth: a text that is not empty. -/
def required (field : Option Str) : Except BackupError Str :=
  match field with
  | some (c :: cs) => .ok (c :: cs)
  | _ => .error .missingFields

def PayloadText.required : PayloadText → Except BackupError PayloadText
  | missing => .error .missingFields
  | text => .ok text

def PayloadText.toBytes : PayloadText → Except BackupError Ciphertext
  | base64 ciphertext => .ok ciphertext
  | _ => .error .base64

/-- `atob` -/
def base64ToBytes (text : Str) : Except BackupError (List UInt8) :=
  match Base64.decode text with
  | some bytes => .ok bytes
  | none => .error .base64

section Files

-- the hexadecimal SHA-256 digest of a ciphertext
variable (sha256Hex : Ciphertext → Str)

/-! ## What both readers do first -/

/-- A checksum that is there has to be the one of the payload, in capitals or not. -/
def checksumHolds (checksum : Option Str) (ciphertext : Ciphertext) : Bool :=
  match checksum with
  | some (c :: cs) =>
      (sha256Hex ciphertext).map Char.toLower = (c :: cs).map Char.toLower
  | _ => true

/-- The fields that have to be there, decoded and checked: salt, nonce and ciphertext. -/
def openFile (backup : BackupFile) :
    Except BackupError (List UInt8 × List UInt8 × Ciphertext) := do
  let payload ← backup.encryptedPayload.required
  let salt ← required backup.salt
  let nonce ← required backup.nonce
  let salt ← base64ToBytes salt
  let nonce ← base64ToBytes nonce
  let ciphertext ← payload.toBytes
  if checksumHolds sha256Hex backup.checksum ciphertext then .ok (salt, nonce, ciphertext)
  else .error .integrity

/-! ## The SDK -/

def exportVaultBackup (payload : VaultBackupPayload) (password : Str) (salt : BytesN 16)
    (nonce : BytesN 12) (timestamp : Str) : BackupFile :=
  let ciphertext :=
    Ciphertext.sealed ⟨password, salt.1, VAULT_BACKUP_ITERATIONS⟩ nonce.1 (some payload.toJson)
  { schema := some VAULT_BACKUP_SCHEMA
    version := 1
    formatVersion := some 2
    timestamp := timestamp
    checksum := some (sha256Hex ciphertext)
    encryptedPayload := .base64 ciphertext
    salt := some (Base64.encode salt.1)
    nonce := some (Base64.encode nonce.1) }

/-- `formatVersion` below two, or none. -/
def isLegacy (backup : BackupFile) : Bool := backup.formatVersion.getD 1 < 2

/-- The key with the new number of iterations first; the old one for old files. -/
def decryptVaultBackup (backup : BackupFile) (password : Str) (salt nonce : List UInt8)
    (ciphertext : Ciphertext) : Except BackupError Json := do
  let key ← deriveKey password salt VAULT_BACKUP_ITERATIONS
  match ciphertext.decrypt key nonce with
  | some parsed => .ok parsed
  | none =>
      if isLegacy backup then
        let legacyKey ← deriveKey password salt VAULT_BACKUP_LEGACY_ITERATIONS
        match ciphertext.decrypt legacyKey nonce with
        | some parsed => .ok parsed
        | none => .error .invalidPassword
      else .error .invalidPassword

def readVaultPayload (parsed : Json) : Except BackupError VaultBackupPayload := do
  let stealthMasterKeys ← parsed.property "stealthMasterKeys".toList
  let metaAddresses ← parsed.property "metaAddresses".toList
  let scanKeys ← parsed.property "scanKeys".toList
  let ghostEntries ← parsed.property "ghostEntries".toList
  let notes ← parsed.property "notes".toList
  let recoveryMetadata ← parsed.property "recoveryMetadata".toList
  .ok
    { stealthMasterKeys := arrayOf stealthMasterKeys
      metaAddresses := arrayOf metaAddresses
      scanKeys := arrayOf scanKeys
      ghostEntries := arrayOf ghostEntries
      notes := some (arrayOf notes)
      recoveryMetadata := some (objectOf recoveryMetadata) }

def importVaultBackup (backup : BackupFile) (password : Str) :
    Except BackupError VaultBackupPayload := do
  let (salt, nonce, ciphertext) ← openFile sha256Hex backup
  let parsed ← decryptVaultBackup backup password salt nonce ciphertext
  readVaultPayload parsed

/-! ## The web client -/

def exportBackup (password : Str) (payload : BackupPayload) (salt : BytesN 16) (nonce : BytesN 12)
    (timestamp : Str) : BackupFile :=
  let ciphertext :=
    Ciphertext.sealed ⟨password, salt.1, KDF_ITERATIONS⟩ nonce.1 (some payload.toJson)
  { schema := some VAULT_BACKUP_SCHEMA
    version := 1
    formatVersion := some 2
    timestamp := timestamp
    checksum := some (sha256Hex ciphertext)
    encryptedPayload := .base64 ciphertext
    salt := some (Base64.encode salt.1)
    nonce := some (Base64.encode nonce.1)
    iterations := some KDF_ITERATIONS }

/-- The number that the file tells, if it is positive, and the old one otherwise. -/
def iterationsOf (backup : BackupFile) : ℚ :=
  match backup.iterations with
  | some n => if 0 < n then n else LEGACY_ITERATIONS
  | none => LEGACY_ITERATIONS

def readPayload (parsed : Json) : Except BackupError BackupPayload := do
  let stealthMasterKeys ← parsed.property "stealthMasterKeys".toList
  let metaAddresses ← parsed.property "metaAddresses".toList
  let scanKeys ← parsed.property "scanKeys".toList
  let ghostEntries ← parsed.property "ghostEntries".toList
  let recoveryMetadata ← parsed.property "recoveryMetadata".toList
  .ok
    { stealthMasterKeys := arrayOf stealthMasterKeys
      metaAddresses := arrayOf metaAddresses
      scanKeys := arrayOf scanKeys
      ghostEntries := arrayOf ghostEntries
      recoveryMetadata := objectOf recoveryMetadata }

/-- Whatever goes wrong once there is a key is the password's fault. -/
def importBackup (password : Str) (backup : BackupFile) : Except BackupError BackupPayload := do
  let (salt, nonce, ciphertext) ← openFile sha256Hex backup
  let key ← deriveKey password salt (iterationsOf backup)
  match ciphertext.decrypt key nonce with
  | none => .error .invalidPassword
  | some parsed =>
      match readPayload parsed with
      | .ok payload => .ok payload
      | .error _ => .error .invalidPassword

end Files

/-! ## What the readers accept -/

section Readers

variable {sha256Hex : Ciphertext → Str} {backup : BackupFile} {password : Str}
  {salt nonce : List UInt8} {ciphertext : Ciphertext}

theorem encode_ne_nil {bytes : List UInt8} (h : bytes ≠ []) : Base64.encode bytes ≠ [] := by
  match bytes with
  | [] => exact absurd rfl h
  | [a] => simp [Base64.encode, Base64.sextets]
  | [a, b] => simp [Base64.encode, Base64.sextets]
  | a :: b :: c :: rest => simp [Base64.encode, Base64.sextets]

theorem required_of_ne_nil {text : Str} (h : text ≠ []) : required (some text) = .ok text := by
  cases text with
  | nil => exact absurd rfl h
  | cons c cs => rfl

/-- A file as both writers leave it is opened. -/
theorem openFile_written (hsalt : backup.salt = some (Base64.encode salt)) (hs : salt ≠ [])
    (hnonce : backup.nonce = some (Base64.encode nonce)) (hn : nonce ≠ [])
    (hpayload : backup.encryptedPayload = .base64 ciphertext)
    (hchecksum : backup.checksum = some (sha256Hex ciphertext)) :
    openFile sha256Hex backup = .ok (salt, nonce, ciphertext) := by
  have hholds : checksumHolds sha256Hex (some (sha256Hex ciphertext)) ciphertext = true := by
    unfold checksumHolds
    cases h : sha256Hex ciphertext with
    | nil => rfl
    | cons c cs => simp
  simp only [openFile, bind_eq_ok, hsalt, hnonce, hpayload, hchecksum]
  refine ⟨_, rfl, _, required_of_ne_nil (encode_ne_nil hs), _,
    required_of_ne_nil (encode_ne_nil hn), salt, ?_, nonce, ?_, ciphertext, rfl, if_pos hholds⟩
  · rw [base64ToBytes, Base64.decode_encode]
  · rw [base64ToBytes, Base64.decode_encode]

theorem deriveKey_natCast {n : ℕ} (hpos : 0 < n) (hlt : n < 2 ^ 32) :
    deriveKey password salt n = .ok ⟨password, salt, n⟩ := by
  unfold deriveKey
  rw [if_pos]
  · simp
  · rw [Int.floor_natCast]
    omega

theorem deriveKey_eq_ok {iterations : ℚ} {key : Key} :
    deriveKey password salt iterations = .ok key ↔
      (0 < ⌊iterations⌋ ∧ ⌊iterations⌋ < 2 ^ 32) ∧ key = ⟨password, salt, ⌊iterations⌋.toNat⟩ := by
  unfold deriveKey
  split
  next h => rw [and_iff_right h, Except.ok.injEq, eq_comm]
  next h =>
    rw [iff_false_right (fun hkey => h hkey.1)]
    simp

theorem required_eq_ok {field : Option Str} {text : Str} (h : required field = .ok text) :
    field = some text := by
  unfold required at h
  split at h
  next => rw [Except.ok.inj h]
  next => cases h

theorem base64ToBytes_eq_ok {text : Str} {bytes : List UInt8} :
    base64ToBytes text = .ok bytes ↔ Base64.decode text = some bytes := by
  unfold base64ToBytes
  cases Base64.decode text with
  | none => simp
  | some bytes => simp

/-- What was opened is what the fields hold. -/
theorem openFile_eq_ok (h : openFile sha256Hex backup = .ok (salt, nonce, ciphertext)) :
    backup.salt.bind Base64.decode = some salt ∧ backup.nonce.bind Base64.decode = some nonce ∧
      backup.encryptedPayload = .base64 ciphertext := by
  simp only [openFile, bind_eq_ok] at h
  obtain ⟨payload, hrequired, saltText, hsaltText, nonceText, hnonceText, salt', hsalt, nonce', hnonce,
    ciphertext', hbytes, hopened⟩ := h
  split at hopened
  next =>
    cases hopened
    refine ⟨?_, ?_, ?_⟩
    · rw [required_eq_ok hsaltText, Option.bind_some, base64ToBytes_eq_ok.mp hsalt]
    · rw [required_eq_ok hnonceText, Option.bind_some, base64ToBytes_eq_ok.mp hnonce]
    · cases hpayload : backup.encryptedPayload with
      | missing => simp [hpayload, PayloadText.required] at hrequired
      | invalid =>
        rw [hpayload] at hrequired
        cases hrequired
        cases hbytes
      | base64 ct =>
        rw [hpayload] at hrequired
        cases hrequired
        cases hbytes
        rfl
  next => cases hopened

theorem property_of_ne_null {parsed : Json} (h : parsed ≠ .null) (name : Str) :
    ∃ value, parsed.property name = .ok value := by
  cases parsed with
  | null => exact absurd rfl h
  | _ => exact ⟨_, rfl⟩

theorem readPayload_isOk {parsed : Json} : (∃ payload, readPayload parsed = .ok payload) ↔ parsed ≠ .null := by
  constructor
  · rintro ⟨payload, h⟩ rfl
    cases h
  · intro hnull
    have hread := property_of_ne_null hnull
    obtain ⟨keys, hkeys⟩ := hread "stealthMasterKeys".toList
    obtain ⟨metas, hmetas⟩ := hread "metaAddresses".toList
    obtain ⟨scans, hscans⟩ := hread "scanKeys".toList
    obtain ⟨ghosts, hghosts⟩ := hread "ghostEntries".toList
    obtain ⟨metadata, hmetadata⟩ := hread "recoveryMetadata".toList
    simp only [readPayload, bind_eq_ok]
    exact ⟨_, keys, hkeys, metas, hmetas, scans, hscans, ghosts, hghosts, metadata, hmetadata, rfl⟩

theorem readVaultPayload_isOk {parsed : Json} :
    (∃ payload, readVaultPayload parsed = .ok payload) ↔ parsed ≠ .null := by
  constructor
  · rintro ⟨payload, h⟩ rfl
    cases h
  · intro hnull
    have hread := property_of_ne_null hnull
    obtain ⟨keys, hkeys⟩ := hread "stealthMasterKeys".toList
    obtain ⟨metas, hmetas⟩ := hread "metaAddresses".toList
    obtain ⟨scans, hscans⟩ := hread "scanKeys".toList
    obtain ⟨ghosts, hghosts⟩ := hread "ghostEntries".toList
    obtain ⟨notes, hnotes⟩ := hread "notes".toList
    obtain ⟨metadata, hmetadata⟩ := hread "recoveryMetadata".toList
    simp only [readVaultPayload, bind_eq_ok]
    exact ⟨_, keys, hkeys, metas, hmetas, scans, hscans, ghosts, hghosts, notes, hnotes, metadata,
      hmetadata, rfl⟩

/-- The web client reads a file if the key it derives opens it. -/
theorem importBackup_isOk (hopen : openFile sha256Hex backup = .ok (salt, nonce, ciphertext)) :
    (∃ payload, importBackup sha256Hex password backup = .ok payload) ↔
      ∃ key parsed, deriveKey password salt (iterationsOf backup) = .ok key ∧
        ciphertext.decrypt key nonce = some parsed ∧ parsed ≠ .null := by
  simp only [importBackup, hopen, bind_eq_ok, Except.ok.injEq, exists_eq_left']
  constructor
  · rintro ⟨payload, key, hkey, h⟩
    cases hplain : ciphertext.decrypt key nonce with
    | none =>
      rw [hplain] at h
      cases h
    | some parsed =>
      refine ⟨key, parsed, hkey, hplain, readPayload_isOk.mp ?_⟩
      rw [hplain] at h
      cases hread : readPayload parsed with
      | ok payload => exact ⟨payload, rfl⟩
      | error e =>
        simp only [hread] at h
        cases h
  · rintro ⟨key, parsed, hkey, hplain, hnull⟩
    obtain ⟨payload, hread⟩ := readPayload_isOk.mpr hnull
    refine ⟨payload, key, hkey, ?_⟩
    simp only [hplain, hread]

/-- A file with the old number of iterations, under a salt and a nonce that it tells. -/
def Legacy (backup : BackupFile) (writer : Str) (plain : Option Json) : Prop :=
  ∃ salt nonce, backup.salt.bind Base64.decode = some salt ∧
    backup.nonce.bind Base64.decode = some nonce ∧
    backup.encryptedPayload = .base64 (.sealed ⟨writer, salt, LEGACY_ITERATIONS⟩ nonce plain)

/-- Nothing else is wrong with the file: its fields and checksum are right, the password is its
writer's, and there is something to read. -/
def Readable (sha256Hex : Ciphertext → Str) (backup : BackupFile) (password writer : Str)
    (plain : Option Json) : Prop :=
  (∃ opened, openFile sha256Hex backup = .ok opened) ∧ password = writer ∧
    ∃ parsed, plain = some parsed ∧ parsed ≠ .null

theorem decrypt_sealed {key key' : Key} {plain : Option Json} {parsed : Json} :
    (Ciphertext.sealed key' nonce plain).decrypt key nonce = some parsed ↔
      key' = key ∧ plain = some parsed := by
  simp only [Ciphertext.decrypt, and_true]
  by_cases h : key' = key
  · simp [h]
  · simp [h]

theorem importBackup_legacy {writer : Str} {plain : Option Json}
    (hopen : openFile sha256Hex backup =
      .ok (salt, nonce, .sealed ⟨writer, salt, LEGACY_ITERATIONS⟩ nonce plain)) :
    (∃ payload, importBackup sha256Hex password backup = .ok payload) ↔
      Readable sha256Hex backup password writer plain ∧
        ⌊iterationsOf backup⌋ = LEGACY_ITERATIONS := by
  rw [importBackup_isOk hopen]
  simp only [deriveKey_eq_ok, decrypt_sealed]
  constructor
  · rintro ⟨key, parsed, ⟨hrange, rfl⟩, ⟨hkey, rfl⟩, hnull⟩
    obtain ⟨rfl, -, hcount⟩ := Key.mk.inj hkey
    refine ⟨⟨⟨_, hopen⟩, rfl, parsed, rfl, hnull⟩, ?_⟩
    rw [hcount]
    omega
  · rintro ⟨⟨-, rfl, parsed, rfl, hnull⟩, hcount⟩
    rw [hcount]
    exact ⟨_, parsed, ⟨⟨by decide, by decide⟩, rfl⟩, ⟨rfl, rfl⟩, hnull⟩

theorem importVaultBackup_legacy {writer : Str} {plain : Option Json}
    (hopen : openFile sha256Hex backup =
      .ok (salt, nonce, .sealed ⟨writer, salt, LEGACY_ITERATIONS⟩ nonce plain)) :
    (∃ payload, importVaultBackup sha256Hex backup password = .ok payload) ↔
      Readable sha256Hex backup password writer plain ∧ isLegacy backup = true := by
  -- the new key does not open it
  have hnew : (Ciphertext.sealed ⟨writer, salt, LEGACY_ITERATIONS⟩ nonce plain).decrypt
      ⟨password, salt, VAULT_BACKUP_ITERATIONS⟩ nonce = none := by
    simp [Ciphertext.decrypt, LEGACY_ITERATIONS, VAULT_BACKUP_ITERATIONS]
  simp only [importVaultBackup, hopen, bind_eq_ok, Except.ok.injEq, exists_eq_left',
    decryptVaultBackup, deriveKey_natCast (show 0 < VAULT_BACKUP_ITERATIONS by decide) (by decide),
    deriveKey_natCast (show 0 < VAULT_BACKUP_LEGACY_ITERATIONS by decide) (by decide), hnew]
  constructor
  · rintro ⟨payload, parsed, hparsed, hread⟩
    split at hparsed
    next hlegacy =>
      refine ⟨⟨⟨_, hopen⟩, ?_⟩, hlegacy⟩
      obtain ⟨key, hkey, hparsed⟩ := bind_eq_ok.mp hparsed
      cases hkey
      split at hparsed
      next plaintext hplain =>
        cases hparsed
        obtain ⟨hkey, hplain⟩ := decrypt_sealed.mp hplain
        obtain ⟨hpassword, -, -⟩ := Key.mk.inj hkey
        exact ⟨hpassword.symm, parsed, hplain, readVaultPayload_isOk.mp ⟨payload, hread⟩⟩
      next => cases hparsed
    next => cases hparsed
  · rintro ⟨⟨-, hpassword, parsed, rfl, hnull⟩, hlegacy⟩
    subst hpassword
    obtain ⟨payload, hread⟩ := readVaultPayload_isOk.mpr hnull
    have hplain : (Ciphertext.sealed ⟨password, salt, LEGACY_ITERATIONS⟩ nonce (some parsed)).decrypt
        ⟨password, salt, VAULT_BACKUP_LEGACY_ITERATIONS⟩ nonce = some parsed :=
      decrypt_sealed.mpr ⟨rfl, rfl⟩
    refine ⟨payload, parsed, ?_, hread⟩
    rw [if_pos hlegacy]
    refine bind_eq_ok.mpr ⟨_, rfl, ?_⟩
    simp only [hplain]

/-! ## Across the two -/

theorem bytesN_ne_nil {n : ℕ} (bytes : BytesN (n + 1)) : bytes.1 ≠ [] := by
  intro h
  have hlength := bytes.2
  simp [h] at hlength

/-- The SDK derives its key with the new number and does not tell it; the web client takes the old one. -/
theorem importBackup_exportVaultBackup (payload : VaultBackupPayload) (password : Str) (salt : BytesN 16)
    (nonce : BytesN 12) (timestamp : Str) :
    importBackup sha256Hex password (exportVaultBackup sha256Hex payload password salt nonce timestamp) =
      .error .invalidPassword := by
  have hopen : openFile sha256Hex (exportVaultBackup sha256Hex payload password salt nonce timestamp) =
      .ok (salt.1, nonce.1, .sealed ⟨password, salt.1, VAULT_BACKUP_ITERATIONS⟩ nonce.1
        (some payload.toJson)) :=
    openFile_written rfl (bytesN_ne_nil salt) rfl (bytesN_ne_nil nonce) rfl rfl
  have hkey : deriveKey password salt.1
      (iterationsOf (exportVaultBackup sha256Hex payload password salt nonce timestamp)) =
        .ok ⟨password, salt.1, LEGACY_ITERATIONS⟩ :=
    deriveKey_natCast (by decide) (by decide)
  have hplain : (Ciphertext.sealed ⟨password, salt.1, VAULT_BACKUP_ITERATIONS⟩ nonce.1
      (some payload.toJson)).decrypt ⟨password, salt.1, LEGACY_ITERATIONS⟩ nonce.1 = none := by
    simp [Ciphertext.decrypt, LEGACY_ITERATIONS, VAULT_BACKUP_ITERATIONS]
  simp only [importBackup, hopen, Bind.bind, Except.bind, hkey, hplain]

theorem importVaultBackup_exportBackup (payload : BackupPayload) (password : Str) (salt : BytesN 16)
    (nonce : BytesN 12) (timestamp : Str) :
    ∃ restored, importVaultBackup sha256Hex
        (exportBackup sha256Hex password payload salt nonce timestamp) password = .ok restored ∧
      restored.lists = payload.lists := by
  have hopen : openFile sha256Hex (exportBackup sha256Hex password payload salt nonce timestamp) =
      .ok (salt.1, nonce.1, .sealed ⟨password, salt.1, KDF_ITERATIONS⟩ nonce.1
        (some payload.toJson)) :=
    openFile_written rfl (bytesN_ne_nil salt) rfl (bytesN_ne_nil nonce) rfl rfl
  have hplain : (Ciphertext.sealed ⟨password, salt.1, KDF_ITERATIONS⟩ nonce.1
      (some payload.toJson)).decrypt ⟨password, salt.1, VAULT_BACKUP_ITERATIONS⟩ nonce.1 =
        some payload.toJson :=
    decrypt_sealed.mpr ⟨rfl, rfl⟩
  have hdecrypt : decryptVaultBackup (exportBackup sha256Hex password payload salt nonce timestamp)
      password salt.1 nonce.1 (.sealed ⟨password, salt.1, KDF_ITERATIONS⟩ nonce.1
        (some payload.toJson)) = .ok payload.toJson := by
    rw [decryptVaultBackup, deriveKey_natCast (by decide) (by decide)]
    refine bind_eq_ok.mpr ⟨_, rfl, ?_⟩
    simp only [hplain]
  simp only [importVaultBackup, hopen, bind_eq_ok, Except.ok.injEq, exists_eq_left', hdecrypt]
  exact ⟨_, rfl, rfl⟩

/-- Old files are read by both or by none, unless their fields tell the two different numbers. -/
theorem legacy_agree {writer : Str} {plain : Option Json} (h : Legacy backup writer plain) :
    ((∃ payload, importBackup sha256Hex password backup = .ok payload) ↔
        ∃ payload, importVaultBackup sha256Hex backup password = .ok payload) ↔
      (Readable sha256Hex backup password writer plain →
        (⌊iterationsOf backup⌋ = LEGACY_ITERATIONS ↔ isLegacy backup = true)) := by
  obtain ⟨salt, nonce, hsalt, hnonce, hpayload⟩ := h
  cases hopened : openFile sha256Hex backup with
  | error e =>
    -- both stop here
    have hunreadable : ¬ Readable sha256Hex backup password writer plain := by
      intro hreadable
      obtain ⟨opened, hopen⟩ := hreadable.1
      rw [hopened] at hopen
      cases hopen
    simp [hunreadable, importBackup, importVaultBackup, hopened, Bind.bind, Except.bind]
  | ok opened =>
    obtain ⟨salt', nonce', ciphertext⟩ := opened
    obtain ⟨hsalt', hnonce', hpayload'⟩ := openFile_eq_ok hopened
    obtain rfl := Option.some.inj (hsalt.symm.trans hsalt')
    obtain rfl := Option.some.inj (hnonce.symm.trans hnonce')
    obtain rfl := PayloadText.base64.inj (hpayload.symm.trans hpayload')
    rw [importBackup_legacy hopened, importVaultBackup_legacy hopened]
    exact and_congr_right_iff

end Readers

/-- The web client never restores what the SDK exports, while the SDK restores what the web client
exports; an old file is read by both or by none as long as `iterations` and `formatVersion` say the same
of it, or nobody can read it anyway. -/
theorem backups_interoperate_iff (sha256Hex : Ciphertext → Str) :
    (∀ payload password salt nonce timestamp, ¬ ∃ restored,
      importBackup sha256Hex password
          (exportVaultBackup sha256Hex payload password salt nonce timestamp) = .ok restored ∧
        restored.lists = payload.lists) ∧
    (∀ payload password salt nonce timestamp, ∃ restored,
      importVaultBackup sha256Hex
          (exportBackup sha256Hex password payload salt nonce timestamp) password = .ok restored ∧
        restored.lists = payload.lists) ∧
    ∀ backup password writer plain, Legacy backup writer plain →
      (((∃ payload, importBackup sha256Hex password backup = .ok payload) ↔
          ∃ payload, importVaultBackup sha256Hex backup password = .ok payload) ↔
        (Readable sha256Hex backup password writer plain →
          (⌊iterationsOf backup⌋ = LEGACY_ITERATIONS ↔ isLegacy backup = true))) := by
  refine ⟨?_, ?_, ?_⟩
  · intro payload password salt nonce timestamp hrestored
    obtain ⟨restored, himport, -⟩ := hrestored
    rw [importBackup_exportVaultBackup] at himport
    cases himport
  · intro payload password salt nonce timestamp
    exact importVaultBackup_exportBackup payload password salt nonce timestamp
  · intro backup password writer plain hlegacy
    exact legacy_agree hlegacy

/-- An old file, one byte of salt and one of nonce, under the password `pw`. -/
def oldFile (formatVersion : Option ℚ) : BackupFile where
  version := 1
  formatVersion := formatVersion
  timestamp := []
  encryptedPayload := .base64 (.sealed ⟨"pw".toList, [0], LEGACY_ITERATIONS⟩ [0] (some (.object [])))
  salt := some "AA==".toList
  nonce := some "AA==".toList

theorem openFile_oldFile (formatVersion : Option ℚ) : openFile (fun _ => []) (oldFile formatVersion) =
    .ok ([0], [0], .sealed ⟨"pw".toList, [0], LEGACY_ITERATIONS⟩ [0] (some (.object []))) := by
  rfl

theorem legacy_oldFile (formatVersion : Option ℚ) :
    Legacy (oldFile formatVersion) "pw".toList (some (.object [])) :=
  ⟨[0], [0], by rfl, by rfl, rfl⟩

theorem backups_interoperate_oldFile :
    Legacy (oldFile none) "pw".toList (some (.object [])) ∧
      ((∃ payload, importBackup (fun _ => []) "pw".toList (oldFile none) = .ok payload) ↔
        ∃ payload, importVaultBackup (fun _ => []) (oldFile none) "pw".toList = .ok payload) := by
  refine ⟨legacy_oldFile none, ?_⟩
  obtain ⟨-, -, hlegacy⟩ := backups_interoperate_iff (fun _ => [])
  apply (hlegacy (oldFile none) _ _ _ (legacy_oldFile none)).mpr
  intro _
  simp [iterationsOf, oldFile, isLegacy]

/-- The web client refuses what the SDK exports, and an old file that says `formatVersion` two is refused
by the SDK and read by the web client. -/
theorem backups_do_not_interoperate :
    importBackup (fun _ => []) "pw".toList
        (exportVaultBackup (fun _ => []) ⟨[], [], [], [], none, none⟩ "pw".toList
          ⟨List.replicate 16 0, rfl⟩ ⟨List.replicate 12 0, rfl⟩ []) = .error .invalidPassword ∧
      (∃ payload, importBackup (fun _ => []) "pw".toList (oldFile (some 2)) = .ok payload) ∧
      ¬ ∃ payload, importVaultBackup (fun _ => []) (oldFile (some 2)) "pw".toList = .ok payload := by
  refine ⟨importBackup_exportVaultBackup _ _ _ _ _, ?_, ?_⟩
  · rw [importBackup_legacy (openFile_oldFile (some 2))]
    refine ⟨⟨⟨_, openFile_oldFile (some 2)⟩, rfl, _, rfl, by simp⟩, ?_⟩
    simp [iterationsOf, oldFile]
  · rw [importVaultBackup_legacy (openFile_oldFile (some 2))]
    simp [isLegacy, oldFile]

end OpaqueStellar.Wallet
