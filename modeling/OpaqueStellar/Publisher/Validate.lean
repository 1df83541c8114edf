import OpaqueStellar.Publisher.Dedup
import OpaqueStellar.Relayer.Messages
import OpaqueStellar.Schemas.Decoding

/-! # Validating submissions

`publisher/src/validate.ts`. The text of a leaf is read twice: `normalizeHex32` takes it for hexadecimal
digits, with or without `0x`, and the range check takes it for what `BigInt` makes of it, which without the
`0x` are decimal digits.

`toLowerCase` acts on the digits of a text only, as no other character has a digit for its lower case; what it
makes of an identifier is a parameter. -/

namespace OpaqueStellar.Publisher

open OpaqueStellar.Lib OpaqueStellar.Schemas OpaqueStellar.Soroban
open OpaqueStellar.Relayer (bigIntOfString digitsOf toLowerCase assertLength)

/-! ## Submissions -/

/-- A value of the submitted JSON, as far as the validator tells them apart; `shown` is what `String` makes of
it. -/
inductive Value where
  | null
  | string (s : Str)
  | number (n : ℚ) (shown : Str)
  | other (shown : Str)
  deriving DecidableEq

/-- The properties that are read. -/
structure Submission where
  leaf : Option Value := none
  id : Option Value := none
  schemaId : Option Value := none
  attestationUid : Option Value := none
  holderSignature : Option Value := none
  ledger : Option Value := none
  txHash : Option Value := none
  deriving DecidableEq

structure ValidCommitment where
  commitment : LeafCommitment
  txHash : Option Str
  ledger : Option ℕ
  submittedAt : Str
  deriving DecidableEq

/-- Hexadecimal digits for this many bytes, with or without `0x`. -/
def hexBytes (n : ℕ) (s : Str) : Option (BytesN n) := (Hex.decode (Relayer.strip0x s)).bind (assertLength n)

def normalizeHex32 (value : Str) : Option (BytesN 32) := hexBytes 32 (toLowerCase (trimSpaces value))

/-- `/^(0x)?[0-9a-fA-F]{130}$/` -/
def signatureBytes (value : Str) : Option (BytesN 65) := hexBytes 65 value

/-! ## The checks -/

def leafErrors (leaf : Option Value) : List Str :=
  match leaf with
  | some (.string text) =>
      match normalizeHex32 text, bigIntOfString text with
      | some _, some leafValue =>
          if leafValue < 0 ∨ BN254_MODULUS ≤ leafValue then
            ["leaf value must be a valid BN254 field element (0 <= value < modulus)".toList]
          else []
      | _, _ => ["leaf must be a 0x-prefixed 32-byte hex string".toList]
  | _ => ["leaf is required and must be a string".toList]

def idErrors (id : Option Value) : List Str :=
  match id with
  | some (.string text) => if trimSpaces text = [] then ["id must not be empty".toList] else []
  | _ => []

/-- The checks of `schemaId` and `attestationUid`. -/
def hex32Errors (field : Str) (value : Option Value) : List Str :=
  match value with
  | some (.string text) =>
      if (normalizeHex32 text).isNone then [field ++ " must be a 0x-prefixed 32-byte hex string".toList] else []
  | _ => [field ++ " is required".toList]

def signatureErrors (signature : Option Value) : List Str :=
  let message := "holderSignature must be a 65-byte recoverable secp256k1 signature".toList
  match signature with
  | some (.string text) => if (signatureBytes text).isNone then [message] else []
  | _ => [message]

def ledgerErrors (ledger : Option Value) : List Str :=
  let message := "ledger must be a non-negative integer if provided".toList
  match ledger with
  | none => []
  | some (.number n _) => if n.den ≠ 1 ∨ n < 0 then [message] else []
  | some _ => [message]

def txHashErrors (txHash : Option Value) : List Str :=
  match txHash with
  | none => []
  | some (.string _) => []
  | some _ => ["txHash must be a string if provided".toList]

/-- What is wrong besides the leaf. -/
def otherErrors (obj : Submission) : List Str :=
  idErrors obj.id ++ hex32Errors "schemaId".toList obj.schemaId ++
    hex32Errors "attestationUid".toList obj.attestationUid ++ signatureErrors obj.holderSignature ++
    ledgerErrors obj.ledger ++ txHashErrors obj.txHash

/-! ## The validator -/

def Value.text? : Value → Option Str
  | .string s => some s
  | _ => none

/-- `String(value ?? fallback)` -/
def shownOr (value : Option Value) (fallback : Str) : Str :=
  match value with
  | none => fallback
  | some .null => fallback
  | some (.string s) => s
  | some (.number _ shown) => shown
  | some (.other shown) => shown

/-- The commitment, once nothing is wrong. -/
def normalized (lower : Str → Str) (now : Str) (obj : Submission) : Option ValidCommitment := do
  let leaf ← (obj.leaf.bind Value.text?).bind normalizeHex32
  let attestationUid ← (obj.attestationUid.bind Value.text?).bind normalizeHex32
  let schemaId ← (obj.schemaId.bind Value.text?).bind normalizeHex32
  let holderSignature ← (obj.holderSignature.bind Value.text?).bind signatureBytes
  let id := lower (trimSpaces (shownOr obj.id (hex32 attestationUid)))
  return {
    commitment := ⟨id, leaf, schemaId, attestationUid, holderSignature⟩
    txHash := obj.txHash.bind Value.text?
    ledger := obj.ledger.bind fun v => match v with
      | .number n _ => some n.num.toNat
      | _ => none
    submittedAt := now }

def validateLeafCommitment (lower : Str → Str) (now : Str) (raw : Option Submission) :
    Except (List Str) ValidCommitment :=
  match raw with
  | none => .error ["payload must be a JSON object".toList]
  | some obj =>
      let errors := leafErrors obj.leaf ++ otherErrors obj
      if errors ≠ [] then .error errors
      else
        match normalized lower now obj with
        | some commitment => .ok commitment
        | none => .error []

/-! ## Two readings of digits -/

section Digits

variable {s text : Str} {bytes : List UInt8} {leaf : BytesN 32} {v : ℤ} {n m : ℕ} {c : Char}

/-- A digit below the base. -/
def digitBelow (base : ℕ) (c : Char) : Option ℕ := (Hex.digitValue c).filter fun d => decide (d < base)

theorem digitsOf_eq (base : ℕ) (hs : s ≠ []) :
    digitsOf base s = (s.reverse.mapM (digitBelow base)).map fun ds => ((Nat.ofDigits base ds : ℕ) : ℤ) := by
  rw [digitsOf, if_neg hs]
  show (s.reverse.mapM (digitBelow base)).bind _ = _
  cases s.reverse.mapM (digitBelow base) with
  | none => rfl
  | some ds => exact congrArg some (Nat.coe_ofDigits ℤ base ds).symm

theorem digitBelow_of_hexValue {d : ℕ} (h : Hex.digitValue c = some d) : digitBelow 16 c = some d := by
  rw [digitBelow, h, Option.filter_some, if_pos (decide_eq_true (hexValue_lt h).2)]

/-- The digits of bytes, from the last one on. -/
theorem mapM_digits (h : Hex.decode s = some bytes) : ∃ ds, s.reverse.mapM (digitBelow 16) = some ds ∧
    ds.length = 2 * bytes.length ∧ Nat.ofDigits 16 ds = beNat bytes := by
  induction s using Hex.decode.induct generalizing bytes with
  | case1 =>
    obtain rfl := Option.some.inj h
    exact ⟨[], rfl, rfl, rfl⟩
  | case2 a => cases h
  | case3 a b rest ih =>
    obtain ⟨high, low, more, hhigh, hlow, hmore, rfl⟩ := Hex.decode_cons_eq_some.mp h
    obtain ⟨ds, hds, hlength, hvalue⟩ := ih hmore
    have hbyte : (UInt8.ofNat (16 * high + low)).toNat = 16 * high + low := by
      have hh := (hexValue_lt hhigh).2
      have hl := (hexValue_lt hlow).2
      rw [UInt8.toNat_ofNat', Nat.mod_eq_of_lt (by omega)]
    refine ⟨ds ++ [low, high], ?_, ?_, ?_⟩
    · have hpair : [b, a].mapM (digitBelow 16) = some [low, high] := by
        rw [List.mapM_cons, List.mapM_cons, List.mapM_nil, digitBelow_of_hexValue hlow,
          digitBelow_of_hexValue hhigh]
        rfl
      rw [List.reverse_cons, List.reverse_cons, List.append_assoc, List.mapM_append, hds]
      show (some ds >>= fun xs => [b, a].mapM (digitBelow 16) >>= fun ys => pure (xs ++ ys)) = _
      rw [hpair]
      rfl
    · rw [List.length_append, hlength, List.length_cons, List.length_cons, List.length_nil, List.length_cons]
      omega
    · rw [Nat.ofDigits_append, hvalue, hlength, beNat, hbyte, pow_mul]
      simp only [Nat.ofDigits_cons, Nat.ofDigits_nil]
      ring

/-- Hexadecimal digits are the number of their bytes. -/
theorem digitsOf_hexDecode (hs : s ≠ []) (h : Hex.decode s = some bytes) : digitsOf 16 s = some (beNat bytes : ℤ) := by
  obtain ⟨ds, hds, -, hvalue⟩ := mapM_digits h
  rw [digitsOf_eq 16 hs, hds, Option.map_some, hvalue]

/-- Decimal digits, and how large the number can get that they make up. -/
theorem valueFrom_lt (h : valueFrom n s = some m) : m < (n + 1) * 10 ^ s.length := by
  induction s generalizing n with
  | nil =>
    obtain rfl := Option.some.inj h
    simp
  | cons c s ih =>
    obtain ⟨d, hd, h⟩ := Option.bind_eq_some_iff.mp h
    have hten : d < 10 := by
      have hall : ∀ k < 128, ∀ d ∈ Decimal.digitValue (Char.ofNat k), d < 10 := by decide
      have hc := hall c.toNat (digitValue_lt hd)
      rw [Char.ofNat_toNat] at hc
      exact hc d hd
    calc m < (n * 10 + d + 1) * 10 ^ s.length := ih h
      _ ≤ (n + 1) * 10 * 10 ^ s.length := Nat.mul_le_mul_right _ (by omega)
      _ = (n + 1) * 10 ^ (c :: s).length := by rw [List.length_cons, pow_succ]; ring

theorem exists_valueFrom (h : ∀ c ∈ s, (Decimal.digitValue c).isSome = true) (n : ℕ) :
    ∃ m, valueFrom n s = some m := by
  induction s generalizing n with
  | nil => exact ⟨n, rfl⟩
  | cons c s ih =>
    rw [List.forall_mem_cons] at h
    obtain ⟨d, hd⟩ := Option.isSome_iff_exists.mp h.1
    rw [valueFrom, hd]
    exact ih h.2 _

/-! ### The normaliser -/

theorem toLower_eq_of_ascii {d : Char} (hd : d.toNat < 128) (h : c.toLower = d) : c.toNat < 128 := by
  unfold Char.toLower at h
  split at h
  next hupper =>
    have hz : c.toNat ≤ 90 := hupper.2
    omega
  next => rwa [h]

theorem toLower_eq_zero (h : c.toLower = '0') : c = '0' := by
  apply of_ascii (P := fun c => c.toLower = '0' → c = '0')
  · decide
  · exact toLower_eq_of_ascii (by decide) h
  · exact h

theorem toLower_eq_x (h : c.toLower = 'x') : c = 'x' ∨ c = 'X' := by
  apply of_ascii (P := fun c => c.toLower = 'x' → c = 'x' ∨ c = 'X')
  · decide
  · exact toLower_eq_of_ascii (by decide) h
  · exact h

theorem hexBytes_eq_some {k : ℕ} {b : BytesN k} :
    hexBytes k s = some b ↔ Hex.decode (Relayer.strip0x s) = some b.1 := by
  rw [hexBytes, Option.bind_eq_some_iff]
  constructor
  · rintro ⟨bytes, hbytes, h⟩
    unfold assertLength at h
    split at h
    next => rw [hbytes, ← Option.some.inj h]
    next => cases h
  · intro h
    exact ⟨b.1, h, dif_pos b.2⟩

/-- What is normalised are the digits behind the marker, or the digits. -/
theorem normalizeHex32_cases (h : normalizeHex32 text = some leaf) :
    (∃ x digits, trimSpaces text = '0' :: x :: digits ∧ (x = 'x' ∨ x = 'X') ∧
      Hex.decode digits = some leaf.1) ∨ Hex.decode (trimSpaces text) = some leaf.1 := by
  have hdecode := hexBytes_eq_some.mp h
  generalize trimSpaces text = u at hdecode
  unfold Relayer.strip0x at hdecode
  split at hdecode
  next rest heq =>
    -- the marker comes from one in either case
    obtain ⟨zero, more, rfl, hzero, hmore⟩ := List.map_eq_cons_iff.mp heq
    obtain ⟨x, digits, rfl, hx, rfl⟩ := List.map_eq_cons_iff.mp hmore
    obtain rfl := toLower_eq_zero hzero
    rw [Hex.decode_toLower] at hdecode
    exact .inl ⟨x, digits, rfl, toLower_eq_x hx, hdecode⟩
  next =>
    right
    rwa [toLowerCase, Hex.decode_toLower] at hdecode

theorem length_leaf (leaf : BytesN 32) : leaf.1.length = 32 := leaf.2

theorem ne_nil_of_hexDecode (h : Hex.decode s = some leaf.1) : s ≠ [] := by
  rintro rfl
  have hlength := Hex.length_of_decode h
  rw [length_leaf] at hlength
  cases hlength

/-- A leaf that begins with this byte is below the modulus. -/
theorem lt_modulus_of_binary {x : Char} (hx : x = 'b' ∨ x = 'B') (h : Hex.decode ('0' :: x :: s) = some leaf.1) :
    leaf.toNat < BN254_MODULUS := by
  obtain ⟨high, low, more, hhigh, hlow, -, hleaf⟩ := Hex.decode_cons_eq_some.mp h
  have hzero : Hex.digitValue '0' = some 0 := by decide
  have heleven : Hex.digitValue x = some 11 := by rcases hx with rfl | rfl <;> decide
  obtain rfl := Option.some.inj (hhigh.symm.trans hzero)
  obtain rfl := Option.some.inj (hlow.symm.trans heleven)
  have hlength : more.length = 31 := by
    have hall := length_leaf leaf
    rw [hleaf, List.length_cons] at hall
    omega
  have hlt := beNat_lt more
  have hvalue : leaf.toNat = 11 * 256 ^ 31 + beNat more := by
    rw [BytesN.toNat, hleaf, beNat, hlength]
    rfl
  have hmodulus : 12 * 256 ^ 31 ≤ BN254_MODULUS := by decide
  rw [hlength] at hlt
  omega

end Digits

/-! ## Leaves that are out of range -/

/-- Decimal digits, one for each hexadecimal digit of a leaf, that as hexadecimal digits are no field element. -/
def Misread (text : Str) : Prop :=
  (trimSpaces text).length = 64 ∧ (∀ c ∈ trimSpaces text, (Decimal.digitValue c).isSome = true) ∧
    ∃ n : ℤ, digitsOf 16 (trimSpaces text) = some n ∧ BN254_MODULUS ≤ n

section Range

variable {text : Str} {leaf : BytesN 32} {v : ℤ}

/-- Both readings agree, but for decimal digits. -/
theorem readings (h : normalizeHex32 text = some leaf) (hv : bigIntOfString text = some v) :
    v = leaf.toNat ∨ leaf.toNat < BN254_MODULUS ∨
      Hex.decode (trimSpaces text) = some leaf.1 ∧ Decimal.decode (trimSpaces text) = some v.toNat := by
  rcases normalizeHex32_cases h with ⟨x, digits, htrim, hx, hdecode⟩ | hdecode
  · left
    have hdigits := digitsOf_hexDecode (ne_nil_of_hexDecode hdecode) hdecode
    rw [bigIntOfString, htrim] at hv
    rcases hx with rfl | rfl
    · exact Option.some.inj (hv.symm.trans hdigits)
    · exact Option.some.inj (hv.symm.trans hdigits)
  · right
    have hhex := Hex.isSome_of_decode hdecode
    have hnil := ne_nil_of_hexDecode hdecode
    have hno : ∀ c : Char, (Hex.digitValue c).isSome = false → c ∉ trimSpaces text := by
      intro c hc hmem
      have hsome := hhex c hmem
      rw [hc] at hsome
      cases hsome
    have hx := hno 'x' (by decide)
    have hX := hno 'X' (by decide)
    have ho := hno 'o' (by decide)
    have hO := hno 'O' (by decide)
    have hminus := hno '-' (by decide)
    have hplus := hno '+' (by decide)
    unfold bigIntOfString at hv
    generalize trimSpaces text = u at *
    split at hv
    case h_6 digits => exact .inl (lt_modulus_of_binary (.inl rfl) hdecode)
    case h_7 digits => exact .inl (lt_modulus_of_binary (.inr rfl) hdecode)
    case h_10 =>
      right
      obtain ⟨n, hn, rfl⟩ := Option.map_eq_some_iff.mp hv
      exact ⟨hdecode, hn⟩
    -- the other forms hold a character that is no digit
    all_goals simp at hnil hx hX ho hO hminus hplus

/-- **A leaf is in range** if its text was not misread. -/
theorem lt_modulus_of_not_misread (h : normalizeHex32 text = some leaf) (hv : bigIntOfString text = some v)
    (hlt : v < BN254_MODULUS) (htext : ¬ Misread text) : leaf.toNat < BN254_MODULUS := by
  rcases readings h hv with rfl | hleaf | ⟨hdecode, hdecimal⟩
  · exact_mod_cast hlt
  · exact hleaf
  · by_contra hout
    have hne := ne_nil_of_hexDecode hdecode
    rw [decode_eq_valueFrom hne] at hdecimal
    refine htext ⟨?_, isDigit_of_valueFrom hdecimal, beNat leaf.1, digitsOf_hexDecode hne hdecode, ?_⟩
    · rw [Hex.length_of_decode hdecode, length_leaf]
    · exact_mod_cast Nat.le_of_not_lt hout

theorem isHex_of_isDigit {c : Char} (h : (Decimal.digitValue c).isSome = true) : (Hex.digitValue c).isSome = true := by
  obtain ⟨d, hd⟩ := Option.isSome_iff_exists.mp h
  apply of_ascii (P := fun c => (Decimal.digitValue c).isSome = true → (Hex.digitValue c).isSome = true)
  · decide
  · exact digitValue_lt hd
  · exact h

/-- A text that is misread passes both checks, and its leaf is out of range. -/
theorem misread_accepted (h : Misread text) : ∃ leaf v, normalizeHex32 text = some leaf ∧
    bigIntOfString text = some v ∧ 0 ≤ v ∧ v < BN254_MODULUS ∧ BN254_MODULUS ≤ leaf.toNat := by
  obtain ⟨hlength, hdigits, n, hn, hle⟩ := h
  obtain ⟨bytes, hbytes⟩ := Hex.exists_decode (n := 32) hlength fun c hc => isHex_of_isDigit (hdigits c hc)
  have h32 : bytes.length = 32 := by
    have heven := Hex.length_of_decode hbytes
    omega
  have hne : trimSpaces text ≠ [] := by
    intro hnil
    rw [hnil] at hlength
    cases hlength
  have hstrip : Relayer.strip0x (toLowerCase (trimSpaces text)) = toLowerCase (trimSpaces text) := by
    have hlower : Hex.decode (toLowerCase (trimSpaces text)) = some bytes := by
      rwa [toLowerCase, Hex.decode_toLower]
    exact Relayer.strip0x_eq_self hlower
  have hleaf : normalizeHex32 text = some ⟨bytes, h32⟩ := by
    apply hexBytes_eq_some.mpr
    rw [hstrip, toLowerCase, Hex.decode_toLower, hbytes]
  obtain ⟨m, hm⟩ := exists_valueFrom hdigits 0
  have hsmall : m < 10 ^ 64 := by
    have hlt := valueFrom_lt hm
    rwa [hlength, Nat.zero_add, one_mul] at hlt
  have hvalue : bigIntOfString text = some (m : ℤ) := by
    have hother : ∀ c ∈ trimSpaces text, c ∉ ['x', 'X', 'o', 'O', 'b', 'B', '-', '+'] := by
      intro c hc hmem
      have hnone : ['x', 'X', 'o', 'O', 'b', 'B', '-', '+'].all fun c => (Decimal.digitValue c).isNone := by decide
      have hc' := hdigits c hc
      rw [Option.isNone_iff_eq_none.mp (List.all_eq_true.mp hnone c hmem)] at hc'
      cases hc'
    rw [← decode_eq_valueFrom hne] at hm
    unfold bigIntOfString
    generalize trimSpaces text = u at *
    split
    case h_1 => exact absurd rfl hne
    case h_10 => rw [hm, Option.map_some]
    -- the texts of the other forms hold a character that is no decimal digit
    all_goals simp at hother
  refine ⟨_, m, hleaf, hvalue, Int.natCast_nonneg m, ?_, ?_⟩
  · have hmodulus : 10 ^ 64 ≤ BN254_MODULUS := by decide
    omega
  · have hsame := (digitsOf_hexDecode hne hbytes).symm.trans hn
    rw [← Option.some.inj hsame] at hle
    exact_mod_cast hle

end Range

/-! ## What the validator accepts -/

section Validator

variable {lower : Str → Str} {now text : Str} {raw : Option Submission} {obj : Submission} {c : ValidCommitment}
  {value : Option Value} {leaf : BytesN 32}

theorem leafErrors_eq_nil : leafErrors value = [] ↔ ∃ text leaf v, value = some (.string text) ∧
    normalizeHex32 text = some leaf ∧ bigIntOfString text = some v ∧ 0 ≤ v ∧ v < BN254_MODULUS := by
  constructor
  · intro h
    unfold leafErrors at h
    split at h
    next text =>
      split at h
      next leaf v hleaf hv =>
        split at h
        next => cases h
        next hrange =>
          rw [not_or, not_lt, not_le] at hrange
          exact ⟨text, leaf, v, rfl, hleaf, hv, hrange⟩
      next => cases h
    next => cases h
  · rintro ⟨text, leaf, v, rfl, hleaf, hv, hnonneg, hlt⟩
    have hrange : ¬ (v < 0 ∨ (BN254_MODULUS : ℤ) ≤ v) := by omega
    simp only [leafErrors, hleaf, hv, if_neg hrange]

theorem hex32Errors_eq_nil {field : Str} (h : hex32Errors field value = []) :
    ∃ b, (value.bind Value.text?).bind normalizeHex32 = some b := by
  unfold hex32Errors at h
  split at h
  next text =>
    split at h
    next => cases h
    next hsome =>
      rw [Option.isNone_iff_eq_none] at hsome
      exact Option.ne_none_iff_exists'.mp hsome
  next => cases h

theorem signatureErrors_eq_nil (h : signatureErrors value = []) :
    ∃ b, (value.bind Value.text?).bind signatureBytes = some b := by
  unfold signatureErrors at h
  split at h
  next text =>
    split at h
    next => cases h
    next hsome =>
      rw [Option.isNone_iff_eq_none] at hsome
      exact Option.ne_none_iff_exists'.mp hsome
  next => cases h

/-- Once nothing is wrong there is a commitment. -/
theorem exists_normalized (hleaf : (obj.leaf.bind Value.text?).bind normalizeHex32 = some leaf)
    (hother : otherErrors obj = []) : ∃ c, normalized lower now obj = some c ∧ c.commitment.leaf = leaf := by
  simp only [otherErrors, List.append_eq_nil_iff] at hother
  obtain ⟨⟨⟨⟨⟨-, hschema⟩, huid⟩, hsignature⟩, -⟩, -⟩ := hother
  obtain ⟨schemaId, hschema⟩ := hex32Errors_eq_nil hschema
  obtain ⟨uid, huid⟩ := hex32Errors_eq_nil huid
  obtain ⟨signature, hsignature⟩ := signatureErrors_eq_nil hsignature
  rw [normalized, hleaf, huid, hschema, hsignature]
  exact ⟨_, rfl, rfl⟩

theorem leaf_of_normalized (h : normalized lower now obj = some c) :
    (obj.leaf.bind Value.text?).bind normalizeHex32 = some c.commitment.leaf := by
  obtain ⟨leaf, hleaf, h⟩ := Option.bind_eq_some_iff.mp h
  obtain ⟨uid, -, h⟩ := Option.bind_eq_some_iff.mp h
  obtain ⟨schemaId, -, h⟩ := Option.bind_eq_some_iff.mp h
  obtain ⟨signature, -, h⟩ := Option.bind_eq_some_iff.mp h
  rw [hleaf, ← Option.some.inj h]

theorem validate_eq_ok : validateLeafCommitment lower now (some obj) = .ok c ↔
    leafErrors obj.leaf = [] ∧ otherErrors obj = [] ∧ normalized lower now obj = some c := by
  simp only [validateLeafCommitment]
  by_cases herrors : leafErrors obj.leaf ++ otherErrors obj = []
  · rw [if_neg (not_not.mpr herrors)]
    obtain ⟨hleaf, hother⟩ := List.append_eq_nil_iff.mp herrors
    simp only [hleaf, hother, true_and]
    cases normalized lower now obj with
    | none => simp
    | some c' => simp
  · rw [if_pos herrors]
    constructor
    · intro h
      cases h
    · rintro ⟨hleaf, hother, -⟩
      rw [hleaf, hother] at herrors
      exact absurd rfl herrors

/-- Something else is wrong, or the leaf is not misread. -/
def LeafRead (raw : Option Submission) : Prop :=
  ∀ obj, raw = some obj → otherErrors obj ≠ [] ∨ ∀ text, obj.leaf = some (.string text) → ¬ Misread text

theorem leaf_lt_iff : (∀ c, validateLeafCommitment lower now raw = .ok c → c.commitment.leaf.toNat < BN254_MODULUS) ↔
    LeafRead raw := by
  cases raw with
  | none => simp [LeafRead, validateLeafCommitment]
  | some obj =>
    simp only [LeafRead, Option.some.injEq, forall_eq']
    constructor
    · intro hall
      by_contra hnot
      rw [not_or, not_not] at hnot
      obtain ⟨hother, hmisread⟩ := hnot
      obtain ⟨text, hmisread⟩ := not_forall.mp hmisread
      obtain ⟨htext, hmisread⟩ := Classical.not_imp.mp hmisread
      obtain ⟨leaf, v, hleaf, hv, hnonneg, hlt, hout⟩ := misread_accepted (not_not.mp hmisread)
      have hread : (obj.leaf.bind Value.text?).bind normalizeHex32 = some leaf := by
        rw [htext]
        exact hleaf
      obtain ⟨c, hc, hsame⟩ := @exists_normalized lower now _ _ hread hother
      have hchecked := leafErrors_eq_nil.mpr ⟨text, leaf, v, htext, hleaf, hv, hnonneg, hlt⟩
      have hin := hall c (validate_eq_ok.mpr ⟨hchecked, hother, hc⟩)
      rw [hsame] at hin
      omega
    · rintro hread c hc
      obtain ⟨hchecked, hother, hnormalized⟩ := validate_eq_ok.mp hc
      obtain ⟨text, leaf, v, htext, hleaf, hv, -, hlt⟩ := leafErrors_eq_nil.mp hchecked
      have hsame := leaf_of_normalized hnormalized
      rw [htext] at hsame
      rw [← Option.some.inj (hleaf.symm.trans hsame)]
      exact lt_modulus_of_not_misread hleaf hv hlt ((hread.resolve_left (not_not.mpr hother)) text htext)

end Validator

/-! ## Leaves of the tree -/

theorem toScalar_inj {b b' : BytesN 32} (hb : b.toNat < BN254_MODULUS) (hb' : b'.toNat < BN254_MODULUS)
    (h : toScalar b = toScalar b') : b = b' := by
  have hval := congrArg ZMod.val h
  rw [toScalar, toScalar, ZMod.val_natCast_of_lt hb, ZMod.val_natCast_of_lt hb'] at hval
  exact BytesN.toNat_inj hval

/-- A tick, with the files of the inbox that it reads. -/
structure Round where
  now : Str
  files : List (Option Submission)
  adapter : Adapter

/-- `readInbox`: files that do not validate are put aside. -/
def readFiles (lower : Str → Str) (now : Str) (files : List (Option Submission)) : List LeafCommitment :=
  files.filterMap fun raw => (validateLeafCommitment lower now raw).toOption.map (·.commitment)

/-- The state that is saved by a tick, or kept if the tick fails. -/
def afterRound (crypto : Crypto) (hash2 : Scalar → Scalar → Scalar) (lower : Str → Str)
    (state : Option PublisherState) (r : Round) : Option PublisherState :=
  (tick crypto hash2 r.adapter { state := state, inbox := readFiles lower r.now r.files }).store.state

def leavesAfter (crypto : Crypto) (hash2 : Scalar → Scalar → Scalar) (lower : Str → Str) (rounds : List Round) :
    List LeafCommitment :=
  ((rounds.foldl (afterRound crypto hash2 lower) none).getD {}).leaves

section Rounds

variable {crypto : Crypto} {hash2 : Scalar → Scalar → Scalar} {lower : Str → Str} {rounds : List Round}
  {state : Option PublisherState} {r : Round} {c : LeafCommitment}

/-- A leaf that is saved was saved before, or is one of a file. -/
theorem mem_afterRound (h : c ∈ ((afterRound crypto hash2 lower state r).getD {}).leaves) :
    c ∈ (state.getD {}).leaves ∨ c ∈ readFiles lower r.now r.files := by
  have hstore : c ∈ (tick crypto hash2 r.adapter
      { state := state, inbox := readFiles lower r.now r.files }).store.commitments := List.mem_append_left _ h
  exact List.mem_append.mp (tick_commitments hstore)

theorem leavesAfter_lt (hfiles : ∀ r ∈ rounds, ∀ raw ∈ r.files, LeafRead raw)
    (hstate : ∀ c ∈ (state.getD {}).leaves, c.leaf.toNat < BN254_MODULUS) :
    ∀ c ∈ ((rounds.foldl (afterRound crypto hash2 lower) state).getD {}).leaves,
      c.leaf.toNat < BN254_MODULUS := by
  induction rounds generalizing state with
  | nil => exact hstate
  | cons r rounds ih =>
    rw [List.forall_mem_cons] at hfiles
    apply ih hfiles.2
    intro c hc
    rcases mem_afterRound hc with hc | hc
    · exact hstate c hc
    · obtain ⟨raw, hraw, hvalid⟩ := List.mem_filterMap.mp hc
      obtain ⟨valid, hok, rfl⟩ := Option.map_eq_some_iff.mp hvalid
      exact leaf_lt_iff.mpr (hfiles.1 raw hraw) valid (toOption_eq_some_iff.mp hok)

end Rounds

/-- **Leaves are field elements** unless decimal digits were taken for one; and however many ticks read files
without such digits, leaves that are different in the tree are different field elements. -/
theorem leaf_in_range_iff (lower : Str → Str) (now : Str) (raw : Option Submission) :
    ((∀ c, validateLeafCommitment lower now raw = .ok c → c.commitment.leaf.toNat < BN254_MODULUS) ↔
      LeafRead raw) ∧
    ∀ crypto hash2 rounds, (∀ r ∈ rounds, ∀ raw ∈ r.files, LeafRead raw) →
      ∀ x ∈ leavesAfter crypto hash2 lower rounds, ∀ y ∈ leavesAfter crypto hash2 lower rounds,
        toScalar x.leaf = toScalar y.leaf → x.leaf = y.leaf := by
  refine ⟨leaf_lt_iff, ?_⟩
  intro crypto hash2 rounds hfiles x hx y hy hsame
  have hnone : ∀ c ∈ ((none : Option PublisherState).getD {}).leaves, c.leaf.toNat < BN254_MODULUS := by
    intro c hc
    cases hc
  have hrange := @leavesAfter_lt crypto hash2 lower rounds none hfiles hnone
  exact toScalar_inj (hrange x hx) (hrange y hy) hsame

namespace Demo

/-- A submission for the attestation with this identifier. -/
def submission (uid : ℕ) (leaf : Str) : Submission where
  leaf := some (.string leaf)
  schemaId := some (.string (hex32 (BytesN.ofNat 32 3)))
  attestationUid := some (.string (hex32 (BytesN.ofNat 32 uid)))
  holderSignature := some (.string (List.replicate 130 '0'))

/-- As a decimal number it is below the modulus. -/
def nines : Str := List.replicate 64 '9'

/-- The field element that the digits stand for in the tree. -/
def reduced : Str := hex32 (bigintToHex32 ((16 ^ 64 - 1) / 15 * 9 : ℕ))

def filesRound : Round := ⟨[], [some (submission 1 nines), some (submission 2 reduced)], adapter⟩

/-- What is made of a submission. -/
def normal (uid leaf : ℕ) : LeafCommitment := { commitment "" uid leaf with id := hex32 (BytesN.ofNat 32 uid) }

end Demo

set_option maxRecDepth 100000 in
/-- Digits that are above the modulus are accepted, and the tree has a field element twice. -/
theorem leaf_out_of_range :
    (∃ c, validateLeafCommitment id [] (some (Demo.submission 1 Demo.nines)) = .ok c ∧
      ¬ c.commitment.leaf.toNat < BN254_MODULUS) ∧
    ∃ x ∈ leavesAfter Demo.crypto Demo.add id [Demo.filesRound],
      ∃ y ∈ leavesAfter Demo.crypto Demo.add id [Demo.filesRound],
        toScalar x.leaf = toScalar y.leaf ∧ x.leaf ≠ y.leaf := by
  have hvalid : validateLeafCommitment id [] (some (Demo.submission 1 Demo.nines)) =
      .ok ⟨Demo.normal 1 ((16 ^ 64 - 1) / 15 * 9), none, none, []⟩ := by decide
  have hleaves : leavesAfter Demo.crypto Demo.add id [Demo.filesRound] =
      [Demo.normal 1 ((16 ^ 64 - 1) / 15 * 9), Demo.normal 2 ((16 ^ 64 - 1) / 15 * 9 % BN254_MODULUS)] := by
    decide
  rw [hleaves]
  refine ⟨⟨_, hvalid, by decide⟩, _, List.mem_cons_self, _, List.mem_cons_of_mem _ List.mem_cons_self, ?_, ?_⟩
  · decide
  · decide

end OpaqueStellar.Publisher
