import OpaqueStellar.Payments.Amount

/-! # Memos of transfers

`sdk/src/crypto/memo.ts` checks the memo of a transfer, and asks for one where the destination is an address
that a custodian shares between its users. `toStellarSdkMemo` of `sdk/src/rpc/client.ts` makes the memo of the
transaction. The check is about the trimmed value; what is sent is the value itself. -/

namespace OpaqueStellar.Payments

open OpaqueStellar.Lib OpaqueStellar.Schemas
open OpaqueStellar.Relayer (bigIntOfString)

/-! ## Custodians -/

inductive MemoType where
  | none | text | id | hash | «return»
  deriving DecidableEq

def MemoType.asStr : MemoType → Str
  | .none => "none".toList
  | .text => "text".toList
  | .id => "id".toList
  | .hash => "hash".toList
  | .«return» => "return".toList

structure Custodian where
  name : Option Str
  recommendedMemoType : Option MemoType

def CUSTODIAL_ADDRESSES : List (Str × Custodian) :=
  [("GA5XIGA5C7QTPTWXQHY6MCJRMTRZDOSHR6EFIBNDQTCQHG262N4GGKTM".toList, ⟨"Kraken".toList, some .id⟩),
   ("GCGNWKCJ3KHRLPM3TMQN7IPVUMRPMYIPGKDPELDPRBMVUPLNZAJDK4VG".toList, ⟨"Binance".toList, some .text⟩),
   ("GBJ65CCWNPGFNXIVRZMNQSGNXHJYM3O3HFK2CIHWXVKAFEWZNUQOH53I".toList, ⟨"Coinbase".toList, some .text⟩),
   ("GDXBP3R6N62YR4MTEGEHDIJWQ6BIRYNG6UCV4XQEFKQGGYS7QUDXMJSX".toList, ⟨"KuCoin".toList, some .text⟩)]

/-- What every object inherits is found as well. -/
def OBJECT_PROTOTYPE : List (Str × Custodian) :=
  ("constructor".toList, ⟨"Object".toList, none⟩) :: ("__proto__".toList, ⟨none, none⟩) ::
    ["__defineGetter__", "__defineSetter__", "hasOwnProperty", "__lookupGetter__", "__lookupSetter__",
      "isPrototypeOf", "propertyIsEnumerable", "toString", "valueOf", "toLocaleString"].map
        fun name => (name.toList, ⟨name.toList, none⟩)

structure MemoRisk where
  isKnownCustodian : Bool
  custodianName : Option Str
  recommendedMemoType : Option MemoType

def memoRiskFor (destination : Option Str) : MemoRisk :=
  match destination with
  | none => ⟨false, none, none⟩
  | some destination =>
    if destination = [] then ⟨false, none, none⟩
    else match (CUSTODIAL_ADDRESSES ++ OBJECT_PROTOTYPE).lookup (trimSpaces destination) with
      | none => ⟨false, none, none⟩
      | some entry => ⟨true, entry.name, entry.recommendedMemoType⟩

/-! ## The check -/

structure MemoValidationResult where
  ok : Bool
  error : Option Str

def MemoValidationResult.fail (error : String) : MemoValidationResult := ⟨false, some error.toList⟩

def MAX_ID : ℤ := 0xffffffffffffffff

def validateMemo (memoType : MemoType) (memo : Option Str) : MemoValidationResult :=
  let value := trimSpaces (memo.getD [])
  if memoType = .none then
    if value.length > 0 then .fail "Memo must be empty when memo type is 'none'." else ⟨true, none⟩
  else if value.length = 0 then .fail "Memo is required for this memo type."
  else match memoType with
    | .none => ⟨true, none⟩
    | .text =>
      if (asBytes value).length > 28 then .fail "Text memo must be 28 UTF-8 bytes or fewer."
      else ⟨true, none⟩
    | .id =>
      if ¬ value.all isDigit then .fail "ID memo must be a non-negative integer."
      else match bigIntOfString value with
        | none => .fail "ID memo must be a non-negative integer."
        | some n =>
          if n < 0 ∨ n > MAX_ID then .fail "ID memo must fit in an unsigned 64-bit integer."
          else ⟨true, none⟩
    | .hash | .«return» =>
      -- `/^[0-9a-fA-F]{64}$/`
      if value.length = 64 ∧ value.all fun c => (Hex.digitValue c).isSome then ⟨true, none⟩
      else .fail "Hash/return memo must be 64 hexadecimal characters."

structure TransferMemo where
  type : MemoType
  value : Str
  deriving DecidableEq

/-- Errors are texts. -/
def resolveTransferMemo (destination : Str) (memo : Option TransferMemo) : Except Str (Option TransferMemo) :=
  let risk := memoRiskFor (some destination)
  match memo with
  | some memo =>
    let result := validateMemo memo.type (some memo.value)
    if result.ok = false then .error ("Invalid memo: ".toList ++ result.error.getD "undefined".toList)
    else .ok (some memo)
  | none =>
    if risk.isKnownCustodian then
      .error ("Destination is ".toList ++ risk.custodianName.getD "a known custodian".toList ++ "; a ".toList ++
        (risk.recommendedMemoType.getD .text).asStr ++ " memo is required.".toList)
    else .ok none

/-! ## The memo of the transaction -/

/-- A memo of the Stellar library. -/
inductive Memo where
  | none
  | text (value : Str)
  | id (value : Str)
  | hash (value : Str)
  | «return» (value : Str)
  deriving DecidableEq

def toStellarSdkMemo (memo : Option TransferMemo) : Option Memo :=
  match memo with
  | none => none
  | some memo =>
    match memo.type with
    | .none => none
    | .text => some (.text memo.value)
    | .id => some (.id memo.value)
    | .hash => some (.hash memo.value)
    | .«return» => some (.«return» memo.value)

/-- `toStellarSdkMemo(opts.memo) ?? Memo.none()` -/
def transferMemo (memo : Option TransferMemo) : Memo := (toStellarSdkMemo memo).getD .none

/-- What a transaction tells the recipient. -/
def Memo.content : Memo → Str
  | .none => []
  | .text value | .id value | .hash value | .«return» value => value

/-! ## The format -/

/-- Values that the memo format has, as they are. -/
def Fits (memoType : MemoType) (value : Str) : Prop :=
  match memoType with
  | .none => value = []
  | .text => (asBytes value).length ≤ 28
  | .id => ∃ n < 2 ^ 64, Decimal.decode value = some n
  | .hash | .«return» => ∃ bytes : BytesN 32, Hex.decode value = some bytes.1

section Format

variable {value s : Str} {memoType : MemoType}

/-- Digits have no white space around them. -/
theorem trimSpaces_of_decode {n : ℕ} (h : Decimal.decode s = some n) : trimSpaces s = s :=
  trimSpaces_digits (isDigit_of_decode h).2

theorem trimSpaces_of_hexDecode {bytes : List UInt8} (h : Hex.decode s = some bytes) : trimSpaces s = s := by
  refine trimSpaces_eq_self fun c hc => ?_
  obtain ⟨n, hn⟩ := Option.isSome_iff_exists.mp (Hex.isSome_of_decode h c hc)
  obtain ⟨hlt, hlower⟩ := Hex.toLower_of_digitValue hn
  rcases Hex.toLower_cases c with hsame | ⟨k, hk, rfl⟩
  · rw [hsame] at hlower
    subst hlower
    interval_cases n <;> decide
  · interval_cases k <;> decide

theorem hexDecode_iff : (∃ bytes : BytesN 32, Hex.decode s = some bytes.1) ↔
    s.length = 64 ∧ s.all (fun c => (Hex.digitValue c).isSome) = true := by
  rw [List.all_eq_true]
  constructor
  · rintro ⟨bytes, h⟩
    exact ⟨by rw [Hex.length_of_decode h, bytes.2], Hex.isSome_of_decode h⟩
  · rintro ⟨hlength, hdigits⟩
    obtain ⟨bytes, h⟩ := Hex.exists_decode (n := 32) hlength hdigits
    have h32 : bytes.length = 32 := by
      have heven := Hex.length_of_decode h
      omega
    exact ⟨⟨bytes, h32⟩, h⟩

/-- **The check is that the trimmed value fits.** -/
theorem validateMemo_ok : (validateMemo memoType (some value)).ok = true ↔
    Fits memoType (trimSpaces value) ∧ (memoType ≠ .none → trimSpaces value ≠ []) := by
  unfold validateMemo
  rw [Option.getD_some]
  generalize trimSpaces value = t
  cases t with
  | nil => cases memoType <;> simp [MemoValidationResult.fail, Fits]
  | cons c t =>
    generalize hs : c :: t = s
    have hne : s ≠ [] := by simp [← hs]
    have hlength : ¬ s.length = 0 := by simpa using hne
    cases memoType with
    | none => simp [MemoValidationResult.fail, Fits, List.length_pos_iff, hne]
    | text =>
      simp only [reduceCtorEq, if_false, hlength, Fits]
      split
      · next h => simp [MemoValidationResult.fail, h]
      · next h => simp [hne, Nat.le_of_not_lt h]
    | id =>
      simp only [reduceCtorEq, if_false, hlength, Fits, ne_eq, not_false_iff, forall_const, hne, and_true]
      by_cases hdigits : s.all isDigit = true
      · have hall : ∀ c ∈ s, isDigit c = true := List.all_eq_true.mp hdigits
        have hneg : ¬ (digitsValue s : ℤ) < 0 := by omega
        simp only [hdigits, not_true, if_false, bigIntOfString_digits hall hne, decode_digits hall hne, hneg,
          false_or, Option.some.injEq, exists_eq_right']
        split
        · next h =>
          rw [MAX_ID] at h
          simp only [MemoValidationResult.fail, Bool.false_eq_true, false_iff]
          omega
        · next h =>
          rw [MAX_ID] at h
          simp only [true_iff]
          omega
      · simp only [hdigits, if_true, MemoValidationResult.fail, Bool.false_eq_true, false_iff, not_false_iff]
        rintro ⟨n, -, h⟩
        exact hdigits (List.all_eq_true.mpr (isDigit_of_decode h).2)
    | hash | «return» =>
      simp only [reduceCtorEq, if_false, hlength, Fits, ne_eq, not_false_iff, forall_const, hne, and_true,
        hexDecode_iff]
      split
      · next h => simpa using h
      · next h => simpa [MemoValidationResult.fail] using h

end Format

/-! ## Transfers -/

/-- What a transfer may rely on when its memo has been resolved. -/
def MemoSafe (destination : Str) (memo : Option TransferMemo) : Prop :=
  ∀ resolved, resolveTransferMemo destination memo = .ok resolved →
    ((memoRiskFor (some destination)).isKnownCustodian = true → (transferMemo resolved).content ≠ []) ∧
      ∀ m, resolved = some m → Fits m.type m.value

/-- A memo that fits up to white space is not an empty one for a custodian, and the white space does not
change whether it fits. -/
def MemoPlain (destination : Str) (memo : Option TransferMemo) : Prop :=
  ∀ m, memo = some m → Fits m.type (trimSpaces m.value) → (m.type = .none ∨ trimSpaces m.value ≠ []) →
    (m.type = .none → (memoRiskFor (some destination)).isKnownCustodian = false) ∧
      (trimSpaces m.value = m.value ∨ m.type = .text ∧ (asBytes m.value).length ≤ 28)

section Transfers

variable {destination value : Str} {m : TransferMemo} {memoType : MemoType}

/-- Only a text can have white space around it. -/
theorem fits_iff (h : Fits memoType (trimSpaces value)) : Fits memoType value ↔
    trimSpaces value = value ∨ memoType = .text ∧ (asBytes value).length ≤ 28 := by
  constructor
  · intro hfits
    cases memoType with
    | none =>
      have hempty : value = [] := hfits
      exact .inl (by rw [hempty]; rfl)
    | text => exact .inr ⟨rfl, hfits⟩
    | id =>
      obtain ⟨n, -, hn⟩ := hfits
      exact .inl (trimSpaces_of_decode hn)
    | hash | «return» =>
      obtain ⟨bytes, hbytes⟩ := hfits
      exact .inl (trimSpaces_of_hexDecode hbytes)
  · rintro (hsame | ⟨rfl, hlength⟩)
    · rwa [hsame] at h
    · exact hlength

theorem content_transferMemo (h : m.type ≠ .none) : (transferMemo (some m)).content = m.value := by
  obtain ⟨memoType, value⟩ := m
  cases memoType with
  | none => exact absurd rfl h
  | _ => rfl

theorem resolveTransferMemo_some {resolved : Option TransferMemo} :
    resolveTransferMemo destination (some m) = .ok resolved ↔
      resolved = some m ∧ (validateMemo m.type (some m.value)).ok = true := by
  simp only [resolveTransferMemo]
  split
  · next h => simp [h]
  · next h => simp [h, eq_comm]

/-- **Which memos are safe.** -/
theorem memoSafe_iff (destination : Str) (memo : Option TransferMemo) :
    MemoSafe destination memo ↔ MemoPlain destination memo := by
  cases memo with
  | none =>
    constructor
    · intro _ m h
      cases h
    · intro _ resolved h
      simp only [resolveTransferMemo] at h
      split at h
      · cases h
      · next hrisk =>
        obtain rfl := Except.ok.inj h
        exact ⟨fun hknown => absurd hknown hrisk, by simp⟩
  | some m =>
    constructor
    · intro hsafe m' hm hfits hnonempty
      obtain rfl := Option.some.inj hm
      have hok : (validateMemo m.type (some m.value)).ok = true :=
        validateMemo_ok.mpr ⟨hfits, fun htype => hnonempty.resolve_left htype⟩
      obtain ⟨hcontent, haccepted⟩ := hsafe (some m) (resolveTransferMemo_some.mpr ⟨rfl, hok⟩)
      refine ⟨fun htype => ?_, (fits_iff hfits).mp (haccepted m rfl)⟩
      by_contra hknown
      have hempty : (transferMemo (some m)).content = [] := by
        simp [transferMemo, toStellarSdkMemo, htype, Memo.content]
      exact hcontent (by simpa using hknown) hempty
    · intro hplain resolved h
      obtain ⟨rfl, hok⟩ := resolveTransferMemo_some.mp h
      obtain ⟨hfits, hnonempty⟩ := validateMemo_ok.mp hok
      obtain ⟨hcustodian, hspace⟩ := hplain m rfl hfits (or_iff_not_imp_left.mpr hnonempty)
      refine ⟨fun hknown hempty => ?_, ?_⟩
      · have htype : m.type ≠ .none := fun htype => by simp [hcustodian htype] at hknown
        rw [content_transferMemo htype] at hempty
        exact hnonempty htype (by rw [hempty]; rfl)
      · rintro _ ⟨rfl⟩
        exact (fits_iff hfits).mpr hspace

/-- A memo of type none is let through to a custodian, and a text that is too long with the white space
around it is returned. -/
theorem memo_unsafe :
    ¬ MemoSafe "GA5XIGA5C7QTPTWXQHY6MCJRMTRZDOSHR6EFIBNDQTCQHG262N4GGKTM".toList (some ⟨.none, []⟩) ∧
      ¬ MemoSafe "destination".toList (some ⟨.text, 'a' :: List.replicate 28 ' '⟩) := by
  constructor
  · intro h
    have hcontent := (h (some ⟨.none, []⟩) (by decide)).1 (by decide)
    exact hcontent rfl
  · intro h
    have hlength : (asBytes ('a' :: List.replicate 28 ' ')).length ≤ 28 :=
      (h (some ⟨.text, 'a' :: List.replicate 28 ' '⟩) (by decide)).2 _ rfl
    exact absurd hlength (by decide)

end Transfers

end OpaqueStellar.Payments
