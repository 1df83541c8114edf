import OpaqueStellar.Lib.Binary64
import OpaqueStellar.Lib.FormUrlencoded
import OpaqueStellar.Payments.Amount

/-! # Payment links

`sdk/src/crypto/payment-link.ts`: `opaque://v1/{network}/{metaAddress}?{params}`. Each parameter is checked where
a link is written and again where it is read. What the platform makes of a URL and of a date is a parameter; the
texts of forms and decimal numbers are read as the platform reads them. -/

namespace OpaqueStellar.Payments

open OpaqueStellar.Lib OpaqueStellar.Schemas
open OpaqueStellar.Soroban (bind_eq_ok)

/-! ## What the platform reads -/

/-- The parts of a URL that are used. The query comes without its question mark. -/
structure Url where
  protocol : Str
  hostname : Str
  pathname : Str
  query : Str

/-- `new URL` of a text, or the message that it throws, and the time of `new Date`, if the text is a date. -/
structure Platform where
  url : Str → Except Str Url
  date : Str → Option ℤ

/-- `e` and a number, at the front of a text. -/
def exponentPart : Str → ℤ
  | c :: rest =>
    if c = 'e' ∨ c = 'E' then match rest with
      | '-' :: rest => -digitsValue (rest.takeWhile isDigit)
      | '+' :: rest => digitsValue (rest.takeWhile isDigit)
      | rest => digitsValue (rest.takeWhile isDigit)
    else 0
  | [] => 0

def parseUnsigned (s : Str) : Double :=
  if "Infinity".toList.isPrefixOf s then .infinity false
  else
    let integer := s.takeWhile isDigit
    let (fraction, rest) := match s.dropWhile isDigit with
      | '.' :: rest => (rest.takeWhile isDigit, rest.dropWhile isDigit)
      | rest => ([], rest)
    if integer = [] ∧ fraction = [] then .nan
    else .round (digitsValue (integer ++ fraction) * 10 ^ (exponentPart rest - fraction.length))

/-- The longest number at the front of the text. -/
def parseFloat (s : Str) : Double :=
  match s.dropWhile isSpace with
  | '-' :: rest => (parseUnsigned rest).neg
  | '+' :: rest => parseUnsigned rest
  | rest => parseUnsigned rest

/-! ## The checks -/

def isHexChar (c : Char) : Bool := (Hex.digitValue c).isSome

def isValidMetaAddress (metaAddress : Str) : Bool :=
  if metaAddress.length ≠ 134 then false
  else if ¬ "0x".toList.isPrefixOf metaAddress then false
  else (metaAddress.drop 2).length = 132 && (metaAddress.drop 2).all isHexChar

def NETWORKS : List Str := ["testnet".toList, "mainnet".toList, "futurenet".toList, "local".toList]

def isValidNetwork (network : Str) : Bool := network ∈ NETWORKS

/-- `[A-Z2-7]` -/
def isBase32Char (c : Char) : Bool := c.isUpper || ('2' ≤ c && c ≤ '7')

def isValidStellarPublicKey (publicKey : Str) : Bool :=
  if publicKey.length ≠ 56 then false
  else if ¬ "G".toList.isPrefixOf publicKey then false
  -- `/^[A-Z2-7]{55}$/` is about the whole key
  else publicKey.length = 55 && publicKey.all isBase32Char

def isValidAssetCode (assetCode : Str) : Bool :=
  if assetCode.length < 1 ∨ assetCode.length > 12 then false else assetCode.all Char.isAlphanum

/-- `/^[0-9]+(\.[0-9]+)?$/` -/
def isDecimalText (s : Str) : Bool :=
  s.takeWhile isDigit ≠ [] && match s.dropWhile isDigit with
    | [] => true
    | '.' :: decimals => decimals ≠ [] && decimals.all isDigit
    | _ => false

def isValidAmount (amount : Str) : Bool :=
  if amount = [] then false
  else if parseFloat amount = .nan ∨ (parseFloat amount).leZero then false
  else isDecimalText amount

variable (P : Platform)

def isValidIso8601 (timestamp : Str) : Bool := (P.date timestamp).isSome

def isValidUrl (url : Str) : Bool :=
  match P.url url with
  | .ok url => url.protocol = "https:".toList
  | .error _ => false

/-! ## Links -/

structure PaymentLinkParams where
  amount : Option Str
  asset : Option Str
  issuer : Option Str
  memo : Option Str
  sep : Option Str
  callback : Option Str
  label : Option Str
  expires : Option Str
  deriving DecidableEq

structure PaymentLink where
  version : ℕ
  network : Str
  metaAddress : Str
  params : PaymentLinkParams
  deriving DecidableEq

inductive PaymentLinkErrorType where
  | INVALID_FORMAT | UNSUPPORTED_VERSION | NETWORK_MISMATCH | INVALID_META_ADDRESS | INVALID_PARAMETER
  deriving DecidableEq

inductive Details where
  | networks (linkNetwork configuredNetwork : Str)
  | parameter (parameter value : Str)
  | thrown (message : Str)
  deriving DecidableEq

structure PaymentLinkError where
  type : PaymentLinkErrorType
  message : Str
  details : Option Details
  deriving DecidableEq

/-- A parameter that is missing or empty is left out, and one that fails its check is an error. -/
def setParam (params : List Form.Entry) (name : String) (value : Option Str) (valid : Str → Bool)
    (error : String) : Except Str (List Form.Entry) :=
  match value with
  | none => .ok params
  | some value =>
    if value = [] then .ok params
    else if ¬ valid value then .error error.toList
    else .ok (Form.set name.toList value params)

/-- The parameters without a check of their own are set whatever they are. -/
def anyText (_ : Str) : Bool := true

def encodeParams (params : PaymentLinkParams) : Except Str (List Form.Entry) := do
  let entries ← setParam [] "amount" params.amount isValidAmount "Invalid amount format"
  let entries ← setParam entries "asset" params.asset isValidAssetCode "Invalid asset code"
  let entries ← setParam entries "issuer" params.issuer isValidStellarPublicKey "Invalid issuer address"
  let entries ← setParam entries "memo" params.memo anyText ""
  let entries ← setParam entries "sep" params.sep anyText ""
  let entries ← setParam entries "callback" params.callback (isValidUrl P) "Invalid callback URL"
  let entries ← setParam entries "label" params.label anyText ""
  setParam entries "expires" params.expires (isValidIso8601 P) "Invalid expiration timestamp"

/-- Errors are texts. -/
def encodePaymentLink (link : PaymentLink) : Except Str Str :=
  if ¬ isValidMetaAddress link.metaAddress then .error "Invalid meta-address format".toList
  else if ¬ isValidNetwork link.network then .error "Invalid network identifier".toList
  else
    let uri := "opaque://v".toList ++ Decimal.encode link.version ++ '/' :: link.network ++ '/' :: link.metaAddress
    (encodeParams P link.params).map fun params =>
      let queryString := Form.serialize params
      if queryString = [] then uri else uri ++ '?' :: queryString

def PaymentLinkError.parameter (message name : String) (value : Str) : PaymentLinkError :=
  ⟨.INVALID_PARAMETER, message.toList ++ value, some (.parameter name.toList value)⟩

def readParam (searchParams : List Form.Entry) (name : String) (valid : Str → Bool) (message : String) :
    Except PaymentLinkError (Option Str) :=
  match searchParams.lookup name.toList with
  | none => .ok none
  | some value => if valid value then .ok (some value) else .error (.parameter message name value)

def decodeParams (searchParams : List Form.Entry) : Except PaymentLinkError PaymentLinkParams := do
  let amount ← readParam searchParams "amount" isValidAmount "Invalid amount parameter: "
  let asset ← readParam searchParams "asset" isValidAssetCode "Invalid asset code: "
  let issuer ← readParam searchParams "issuer" isValidStellarPublicKey "Invalid issuer address: "
  let memo ← readParam searchParams "memo" anyText ""
  let sep ← readParam searchParams "sep" anyText ""
  let callback ← readParam searchParams "callback" (isValidUrl P) "Invalid callback URL: "
  let label ← readParam searchParams "label" anyText ""
  let expires ← readParam searchParams "expires" (isValidIso8601 P) "Invalid expiration timestamp: "
  return ⟨amount, asset, issuer, memo, sep, callback, label, expires⟩

/-- `/^v(\d+)$/`, and the number. -/
def versionNumber (part : Str) : Option ℕ :=
  match part with
  | 'v' :: digits => if digits ≠ [] ∧ digits.all isDigit then some (digitsValue digits) else none
  | _ => none

/-- The link has expired at this time. -/
def isExpired (now : ℤ) (expires : Option Str) : Option Str :=
  expires.filter fun expires => expires ≠ [] && match P.date expires with
    | none => false
    | some time => time < now

def decodePaymentLink (now : ℤ) (linkString : Str) (configuredNetwork : Option Str) :
    Except PaymentLinkError PaymentLink :=
  match P.url linkString with
  | .error message =>
    .error ⟨.INVALID_FORMAT, "Failed to parse payment link: ".toList ++ message, some (.thrown message)⟩
  | .ok url =>
    if url.protocol ≠ "opaque:".toList then
      .error ⟨.INVALID_FORMAT, "Invalid protocol: must be opaque://".toList, none⟩
    else match (url.hostname :: (url.pathname.splitOn '/').filter (· ≠ [])).filter (· ≠ []) with
      | versionPart :: network :: metaAddress :: _ =>
        match versionNumber versionPart with
        | none => .error ⟨.INVALID_FORMAT, "Invalid version format: expected v\x7bnumber\x7d".toList, none⟩
        | some version =>
          if version ≠ 1 then
            .error ⟨.UNSUPPORTED_VERSION, "Unsupported version: v".toList ++ Decimal.encode version ++
              ". Only v1 is currently supported.".toList, none⟩
          else if ¬ isValidNetwork network then
            .error ⟨.INVALID_FORMAT, "Invalid network: ".toList ++ network ++
              ". Must be one of: testnet, mainnet, futurenet, local".toList, none⟩
          else match configuredNetwork.filter fun configured => configured ≠ [] && network ≠ configured with
            | some configured =>
              .error ⟨.NETWORK_MISMATCH, "Network mismatch: link is for ".toList ++ network ++
                ", but app is configured for ".toList ++ configured, some (.networks network configured)⟩
            | none =>
              if ¬ isValidMetaAddress metaAddress then
                .error ⟨.INVALID_META_ADDRESS, "Invalid meta-address format: ".toList ++ metaAddress ++
                  ". Expected 0x + 132 hex chars.".toList, none⟩
              else match decodeParams P (Form.parse url.query) with
                | .error error => .error error
                | .ok params =>
                  match isExpired P now params.expires with
                  | some expires => .error (.parameter "Payment link has expired: " "expires" expires)
                  | none => .ok ⟨version, network, metaAddress, params⟩
      | _ =>
        .error ⟨.INVALID_FORMAT,
          "Invalid path format: expected opaque://v\x7bversion\x7d/\x7bnetwork\x7d/\x7bmeta-address\x7d".toList, none⟩

/-! ## Amounts -/

namespace Spelling

variable (sp : Spelling)

theorem value_mul : (digitsValue (sp.integer ++ sp.decimals) : ℚ) * 10 ^ (0 - sp.decimals.length : ℤ) =
    digitsValue sp.integer + fractionValue sp.decimals := by
  have hsum : (digitsValue (sp.integer ++ sp.decimals) : ℚ) =
      (digitsValue sp.integer + fractionValue sp.decimals) * 10 ^ sp.decimals.length := by
    rw [add_mul, fractionValue_mul, digitsValue_append]
    push_cast
    ring
  rw [hsum, zero_sub, zpow_neg, zpow_natCast, mul_inv_cancel_right₀ (by positivity)]

theorem parseUnsigned_absolute :
    parseUnsigned sp.absolute = .round (digitsValue sp.integer + fractionValue sp.decimals) := by
  obtain ⟨c, rest, habsolute, hc⟩ := sp.absolute_head
  have hinfinity : "Infinity".toList.isPrefixOf sp.absolute = false := by
    have hne : c ≠ 'I' := fun h => by rw [h] at hc; cases hc
    rw [habsolute]
    simp [List.isPrefixOf, Ne.symm hne]
  have hpoint : isDigit '.' = false := by decide
  have htake : sp.absolute.takeWhile isDigit = sp.integer := by
    rw [absolute, List.takeWhile_append_of_pos sp.integer_digits]
    cases sp.fraction with
    | none => simp
    | some decimals => simp [hpoint]
  have hdrop : sp.absolute.dropWhile isDigit = match sp.fraction with
      | none => []
      | some decimals => '.' :: decimals := by
    rw [absolute, List.dropWhile_append_of_pos sp.integer_digits]
    cases sp.fraction with
    | none => rfl
    | some decimals => simp [hpoint]
  rw [← sp.value_mul, parseUnsigned, hinfinity, htake, hdrop]
  unfold decimals
  cases hfraction : sp.fraction with
  | none => simp [sp.integer_ne, exponentPart]
  | some decimals =>
    have hdigits := sp.fraction_digits decimals hfraction
    simp [sp.integer_ne, exponentPart, List.takeWhile_eq_self_iff.mpr hdigits, List.dropWhile_eq_nil_iff.mpr hdigits]

theorem parseFloat_text (hsign : sp.negative = false) : parseFloat sp.text = .round sp.value := by
  obtain ⟨c, rest, habsolute, hc⟩ := sp.absolute_head
  obtain ⟨hspace, hplain⟩ := digit_plain hc
  have htext : sp.text = sp.absolute := by simp [text, hsign]
  have hvalue : sp.value = digitsValue sp.integer + fractionValue sp.decimals := by simp [value, hsign]
  rw [htext, hvalue, ← sp.parseUnsigned_absolute, parseFloat, habsolute, List.dropWhile_cons_of_neg (by simp [hspace])]
  split
  · next heq => simp [(List.cons.inj heq).1] at hplain
  · next heq => simp [(List.cons.inj heq).1] at hplain
  · rfl

theorem isDecimalText_text (hsign : sp.negative = false) (hfraction : sp.fraction ≠ some []) :
    isDecimalText sp.text = true := by
  have hpoint : isDigit '.' = false := by decide
  have htext : sp.text = sp.absolute := by simp [text, hsign]
  rw [isDecimalText, htext, absolute, List.takeWhile_append_of_pos sp.integer_digits,
    List.dropWhile_append_of_pos sp.integer_digits]
  cases h : sp.fraction with
  | none => simp [sp.integer_ne]
  | some decimals =>
    have hne : decimals ≠ [] := fun hnil => hfraction (by rw [h, hnil])
    simpa [sp.integer_ne, hpoint, hne] using sp.fraction_digits decimals h

end Spelling

/-- Digits, and perhaps a point with digits after it, that are worth more than zero. -/
def PositiveDecimal (amount : Str) : Prop :=
  ∃ sp : Spelling, sp.negative = false ∧ sp.fraction ≠ some [] ∧ sp.text = amount ∧ 0 < sp.value

theorem PositiveDecimal.ne_nil {amount : Str} (h : PositiveDecimal amount) : amount ≠ [] := by
  obtain ⟨sp, hsign, -, rfl, -⟩ := h
  obtain ⟨c, rest, habsolute, -⟩ := sp.absolute_head
  simp [Spelling.text, hsign, habsolute]

/-- What a double cannot tell from zero is no amount. -/
theorem isValidAmount_iff {amount : Str} (h : PositiveDecimal amount) :
    isValidAmount amount = true ↔ (2 : ℚ) ^ (-1075 : ℤ) < decimalValue amount := by
  have hne := h.ne_nil
  obtain ⟨sp, hsign, hfraction, rfl, hpos⟩ := h
  rw [isValidAmount, if_neg hne, sp.parseFloat_text hsign, sp.isDecimalText_text hsign hfraction,
    sp.decimalValue_text (trimSpaces_text sp), ← Double.leZero_round hpos]
  simp [Double.round_ne_nan]

/-! ## Parameters -/

section Params

variable {P} {form form' : List Form.Entry} {name error : String} {value : Option Str} {valid : Str → Bool}
  {params : PaymentLinkParams}

def put (form : List Form.Entry) (name : String) (value : Option Str) : List Form.Entry :=
  match value with
  | none => form
  | some value => Form.set name.toList value form

theorem lookup_put (other : Str) : (put form name value).lookup other =
    if other = name.toList then value.or (form.lookup other) else form.lookup other := by
  cases value with
  | none => simp [put]
  | some value => simp [put, Form.lookup_set]

/-- A parameter that is there is a text that its check accepts. -/
def Accepted (valid : Str → Bool) (value : Option Str) : Prop := ∀ text ∈ value, text ≠ [] ∧ valid text = true

theorem setParam_of_accepted (h : Accepted valid value) :
    setParam form name value valid error = .ok (put form name value) := by
  cases value with
  | none => rfl
  | some text =>
    obtain ⟨hne, hvalid⟩ := h text rfl
    simp [setParam, put, hne, hvalid]

theorem valid_of_setParam (h : setParam form name value valid error = .ok form') :
    ∀ text ∈ value, text ≠ [] → valid text = true := by
  rintro text rfl hne
  by_contra hvalid
  simp [setParam, hne, hvalid] at h

theorem readParam_of_accepted (h : Accepted valid value) (hlookup : form.lookup name.toList = value) :
    readParam form name valid error = .ok value := by
  cases value with
  | none => simp [readParam, hlookup]
  | some text => simp [readParam, hlookup, (h text rfl).2]

/-- Each parameter passes its check. -/
structure PaymentLinkParams.Valid (P : Platform) (params : PaymentLinkParams) : Prop where
  amount : Accepted isValidAmount params.amount
  asset : Accepted isValidAssetCode params.asset
  issuer : Accepted isValidStellarPublicKey params.issuer
  memo : Accepted anyText params.memo
  sep : Accepted anyText params.sep
  callback : Accepted (isValidUrl P) params.callback
  label : Accepted anyText params.label
  expires : Accepted (isValidIso8601 P) params.expires

def PaymentLinkParams.entries (params : PaymentLinkParams) : List Form.Entry :=
  let form := put (put (put [] "amount" params.amount) "asset" params.asset) "issuer" params.issuer
  let form := put (put (put form "memo" params.memo) "sep" params.sep) "callback" params.callback
  put (put form "label" params.label) "expires" params.expires

theorem encodeParams_of_valid (h : params.Valid P) : encodeParams P params = .ok params.entries := by
  simp only [encodeParams, setParam_of_accepted h.amount, setParam_of_accepted h.asset,
    setParam_of_accepted h.issuer, setParam_of_accepted h.memo, setParam_of_accepted h.sep,
    setParam_of_accepted h.callback, setParam_of_accepted h.label, setParam_of_accepted h.expires]
  rfl

theorem decodeParams_of_valid (h : params.Valid P) : decodeParams P params.entries = .ok params := by
  have hamount : params.entries.lookup "amount".toList = params.amount := by
    simp [PaymentLinkParams.entries, lookup_put]
  have hasset : params.entries.lookup "asset".toList = params.asset := by
    simp [PaymentLinkParams.entries, lookup_put]
  have hissuer : params.entries.lookup "issuer".toList = params.issuer := by
    simp [PaymentLinkParams.entries, lookup_put]
  have hmemo : params.entries.lookup "memo".toList = params.memo := by
    simp [PaymentLinkParams.entries, lookup_put]
  have hsep : params.entries.lookup "sep".toList = params.sep := by
    simp [PaymentLinkParams.entries, lookup_put]
  have hcallback : params.entries.lookup "callback".toList = params.callback := by
    simp [PaymentLinkParams.entries, lookup_put]
  have hlabel : params.entries.lookup "label".toList = params.label := by
    simp [PaymentLinkParams.entries, lookup_put]
  have hexpires : params.entries.lookup "expires".toList = params.expires := by
    simp [PaymentLinkParams.entries, lookup_put]
  simp only [decodeParams, readParam_of_accepted h.amount hamount, readParam_of_accepted h.asset hasset,
    readParam_of_accepted h.issuer hissuer, readParam_of_accepted h.memo hmemo, readParam_of_accepted h.sep hsep,
    readParam_of_accepted h.callback hcallback, readParam_of_accepted h.label hlabel,
    readParam_of_accepted h.expires hexpires]
  rfl

/-- A link that is written has passed the checks of its amount and its issuer. -/
theorem valid_of_encodeParams (h : encodeParams P params = .ok form) :
    (∀ amount ∈ params.amount, amount ≠ [] → isValidAmount amount = true) ∧
      ∀ issuer ∈ params.issuer, issuer ≠ [] → isValidStellarPublicKey issuer = true := by
  unfold encodeParams at h
  obtain ⟨e₁, hamount, h⟩ := bind_eq_ok.mp h
  obtain ⟨e₂, -, h⟩ := bind_eq_ok.mp h
  obtain ⟨e₃, hissuer, -⟩ := bind_eq_ok.mp h
  exact ⟨valid_of_setParam hamount, valid_of_setParam hissuer⟩

/-- **No key is an issuer.** -/
theorem isValidStellarPublicKey_eq_false (publicKey : Str) : isValidStellarPublicKey publicKey = false := by
  unfold isValidStellarPublicKey
  split
  · rfl
  · next hlength =>
    split
    · rfl
    · simp [not_not.mp hlength]

end Params

/-! ## Links that are well formed -/

/-- Letters and digits. -/
def IsSegment (s : Str) : Prop := s ≠ [] ∧ ∀ c ∈ s, c.isAlphanum = true

/-- What the platform documents of links: the host, the path and the query are what stands in the text. -/
def Platform.ReadsLinks (P : Platform) : Prop :=
  ∀ host first second query : Str, IsSegment host → IsSegment first → IsSegment second →
    (∀ c ∈ query, Form.isFormChar c = true) →
    P.url ("opaque://".toList ++ host ++ '/' :: first ++ '/' :: second ++
      if query = [] then [] else '?' :: query) =
        .ok ⟨"opaque:".toList, host, '/' :: first ++ '/' :: second, query⟩

theorem isAlphanum_of_isHexChar {c : Char} (h : isHexChar c = true) : c.isAlphanum = true := by
  have hlt : c.toNat < 128 := by
    unfold isHexChar Hex.digitValue at h
    split_ifs at h with hdigit hlower hupper
    · exact (show c.toNat ≤ 57 from hdigit.2).trans_lt (by omega)
    · exact (show c.toNat ≤ 102 from hlower.2).trans_lt (by omega)
    · exact (show c.toNat ≤ 70 from hupper.2).trans_lt (by omega)
    · cases h
  exact of_ascii (P := fun c => isHexChar c = true → c.isAlphanum = true) (by decide) hlt h

/-- `0x` and 132 hexadecimal digits. -/
def IsMetaAddress (s : Str) : Prop :=
  ∃ hex : Str, s = "0x".toList ++ hex ∧ hex.length = 132 ∧ ∀ c ∈ hex, isHexChar c = true

/-- `G` and the rest of 56 characters of base 32. -/
def IsPublicKey (s : Str) : Prop := s.length = 56 ∧ s.head? = some 'G' ∧ ∀ c ∈ s, isBase32Char c = true

structure PaymentLink.WellFormed (P : Platform) (now : ℤ) (link : PaymentLink) : Prop where
  version : link.version = 1
  network : link.network ∈ NETWORKS
  metaAddress : IsMetaAddress link.metaAddress
  amount : ∀ amount ∈ link.params.amount, PositiveDecimal amount
  asset : ∀ asset ∈ link.params.asset, 1 ≤ asset.length ∧ asset.length ≤ 12 ∧ ∀ c ∈ asset, c.isAlphanum = true
  issuer : ∀ issuer ∈ link.params.issuer, IsPublicKey issuer
  memo : ∀ memo ∈ link.params.memo, memo ≠ []
  sep : ∀ sep ∈ link.params.sep, sep ≠ []
  callback : ∀ callback ∈ link.params.callback,
    callback ≠ [] ∧ ∃ url, P.url callback = .ok url ∧ url.protocol = "https:".toList
  label : ∀ label ∈ link.params.label, label ≠ []
  expires : ∀ expires ∈ link.params.expires, expires ≠ [] ∧ ∃ time, P.date expires = some time ∧ now ≤ time

/-! ## The round trip -/

section RoundTrip

variable {P} {now : ℤ} {link : PaymentLink}

theorem isValidMetaAddress_of_isMetaAddress {s : Str} (h : IsMetaAddress s) : isValidMetaAddress s = true := by
  obtain ⟨hex, rfl, hlength, hhex⟩ := h
  have hprefix : "0x".toList.isPrefixOf ("0x".toList ++ hex) = true := by simp [List.isPrefixOf]
  have hdrop : ("0x".toList ++ hex).drop 2 = hex := rfl
  have htotal : ("0x".toList ++ hex).length = 134 := by
    rw [List.length_append, hlength]
    rfl
  rw [isValidMetaAddress, if_neg (not_not.mpr htotal), if_neg (not_not.mpr hprefix), hdrop, hlength]
  simpa using hhex

theorem isSegment_of_isMetaAddress {s : Str} (h : IsMetaAddress s) : IsSegment s := by
  obtain ⟨hex, rfl, -, hhex⟩ := h
  refine ⟨by simp, fun c hc => ?_⟩
  rcases List.mem_append.mp hc with hc | hc
  · have hprefix : ("0x".toList.all Char.isAlphanum) = true := by decide
    exact List.all_eq_true.mp hprefix c hc
  · exact isAlphanum_of_isHexChar (hhex c hc)

theorem isSegment_of_network {network : Str} (h : network ∈ NETWORKS) : IsSegment network := by
  have hall : NETWORKS.all (fun network => network ≠ [] && network.all Char.isAlphanum) = true := by decide
  have hnetwork := List.all_eq_true.mp hall network h
  rw [Bool.and_eq_true, decide_eq_true_eq, List.all_eq_true] at hnetwork
  exact hnetwork

/-- The parameters of a well-formed link pass their checks but for an issuer and for an amount too small. -/
theorem PaymentLink.WellFormed.valid (h : link.WellFormed P now) (hissuer : link.params.issuer = none)
    (hamount : ∀ amount ∈ link.params.amount, (2 : ℚ) ^ (-1075 : ℤ) < decimalValue amount) :
    link.params.Valid P := by
  refine ⟨?_, ?_, ?_, ?_, ?_, ?_, ?_, ?_⟩
  · intro amount hmem
    exact ⟨(h.amount amount hmem).ne_nil, (isValidAmount_iff (h.amount amount hmem)).mpr (hamount amount hmem)⟩
  · intro asset hmem
    obtain ⟨hpos, hle, halphanum⟩ := h.asset asset hmem
    refine ⟨List.ne_nil_of_length_pos hpos, ?_⟩
    rw [isValidAssetCode, if_neg (by omega), List.all_eq_true]
    exact halphanum
  · intro issuer hmem
    rw [hissuer] at hmem
    cases hmem
  · exact fun memo hmem => ⟨h.memo memo hmem, rfl⟩
  · exact fun sep hmem => ⟨h.sep sep hmem, rfl⟩
  · intro callback hmem
    obtain ⟨hne, url, hurl, hprotocol⟩ := h.callback callback hmem
    refine ⟨hne, ?_⟩
    rw [isValidUrl, hurl]
    exact decide_eq_true hprotocol
  · exact fun label hmem => ⟨h.label label hmem, rfl⟩
  · intro expires hmem
    obtain ⟨hne, time, hdate, -⟩ := h.expires expires hmem
    refine ⟨hne, ?_⟩
    rw [isValidIso8601, hdate]
    rfl

theorem PaymentLink.WellFormed.isExpired (h : link.WellFormed P now) : isExpired P now link.params.expires = none := by
  unfold Payments.isExpired
  cases hexpires : link.params.expires with
  | none => rfl
  | some expires =>
    obtain ⟨-, time, hdate, hle⟩ := h.expires expires hexpires
    have hlt : ¬ time < now := by omega
    simp [Option.filter, hdate, hlt]

/-- What a link of version 1 is written as. -/
def PaymentLink.text (link : PaymentLink) : Str :=
  "opaque://".toList ++ "v1".toList ++ '/' :: link.network ++ '/' :: link.metaAddress ++
    if Form.serialize link.params.entries = [] then [] else '?' :: Form.serialize link.params.entries

theorem encode_eq (h : link.WellFormed P now) (hvalid : link.params.Valid P) :
    encodePaymentLink P link = .ok link.text := by
  have hmeta := isValidMetaAddress_of_isMetaAddress h.metaAddress
  have hnetwork : isValidNetwork link.network = true := decide_eq_true h.network
  have hversion : Decimal.encode 1 = ['1'] := Decimal.encode_of_lt (by omega)
  rw [encodePaymentLink, if_neg (not_not.mpr hmeta), if_neg (not_not.mpr hnetwork), encodeParams_of_valid hvalid,
    h.version, hversion]
  unfold PaymentLink.text
  show Except.ok (if Form.serialize link.params.entries = [] then _ else _) = _
  generalize Form.serialize link.params.entries = query
  cases query with
  | nil => simp
  | cons c query => simp

theorem decode_text (hreads : P.ReadsLinks) (h : link.WellFormed P now) (hvalid : link.params.Valid P) :
    decodePaymentLink P now link.text none = .ok link := by
  have hmeta := isValidMetaAddress_of_isMetaAddress h.metaAddress
  have hnetwork : isValidNetwork link.network = true := decide_eq_true h.network
  have hsegment := isSegment_of_network h.network
  have haddress := isSegment_of_isMetaAddress h.metaAddress
  have hv1 : "v1".toList.all Char.isAlphanum = true := by decide
  have hurl := hreads "v1".toList link.network link.metaAddress (Form.serialize link.params.entries)
    ⟨by simp, List.all_eq_true.mp hv1⟩ hsegment haddress Form.isFormChar_serialize
  have hslash : ∀ s : Str, IsSegment s → '/' ∉ s := fun s hs hmem => by cases hs.2 _ hmem
  have hsplit : ('/' :: link.network ++ '/' :: link.metaAddress).splitOn '/' =
      [[], link.network, link.metaAddress] := by
    have hfree : ∀ part ∈ [[], link.network, link.metaAddress], '/' ∉ part := by
      simp [hslash _ hsegment, hslash _ haddress]
    simpa [List.intercalate] using List.splitOn_intercalate '/' hfree (by simp)
  have hparts : ("v1".toList :: [[], link.network, link.metaAddress].filter (· ≠ [])).filter (· ≠ []) =
      ["v1".toList, link.network, link.metaAddress] := by
    simp [hsegment.1, haddress.1]
  have hnumber : versionNumber "v1".toList = some 1 := by decide
  have hprotocol : ¬ "opaque:".toList ≠ "opaque:".toList := not_not.mpr rfl
  unfold PaymentLink.text
  rw [decodePaymentLink, hurl]
  dsimp only
  refine (if_neg hprotocol).trans ?_
  rw [hsplit, hparts]
  dsimp only
  rw [hnumber]
  dsimp only
  rw [if_neg (not_not.mpr rfl), if_neg (not_not.mpr hnetwork), Option.filter_none]
  dsimp only
  rw [if_neg (not_not.mpr hmeta), Form.parse_serialize, decodeParams_of_valid hvalid]
  dsimp only
  rw [h.isExpired, ← h.version]

/-- A link that is written has an amount that passes its check, and no issuer. -/
theorem checked_of_encode {text : Str} (h : encodePaymentLink P link = .ok text) :
    (∀ amount ∈ link.params.amount, amount ≠ [] → isValidAmount amount = true) ∧
      ∀ issuer ∈ link.params.issuer, issuer = [] := by
  unfold encodePaymentLink at h
  split_ifs at h
  obtain ⟨form, hparams⟩ : ∃ form, encodeParams P link.params = .ok form := by
    cases hparams : encodeParams P link.params with
    | error error => simp [hparams, Except.map] at h
    | ok form => exact ⟨form, rfl⟩
  obtain ⟨hamount, hissuer⟩ := valid_of_encodeParams hparams
  refine ⟨hamount, fun issuer hmem => ?_⟩
  by_contra hne
  have hvalid := hissuer issuer hmem hne
  rw [isValidStellarPublicKey_eq_false] at hvalid
  cases hvalid

/-- **A well-formed link is read back as it was if and only if it names no issuer and its amount can be told from
zero.** -/
theorem payment_link_roundTrip (hreads : P.ReadsLinks) (h : link.WellFormed P now) :
    (∃ text, encodePaymentLink P link = .ok text ∧ decodePaymentLink P now text none = .ok link) ↔
      link.params.issuer = none ∧
        ∀ amount ∈ link.params.amount, (2 : ℚ) ^ (-1075 : ℤ) < decimalValue amount := by
  constructor
  · rintro ⟨text, hencode, -⟩
    obtain ⟨hamount, hissuer⟩ := checked_of_encode hencode
    constructor
    · rw [Option.eq_none_iff_forall_not_mem]
      intro issuer hmem
      have hlength := (h.issuer issuer hmem).1
      rw [hissuer issuer hmem] at hlength
      cases hlength
    · intro amount hmem
      have hpositive := h.amount amount hmem
      exact (isValidAmount_iff hpositive).mp (hamount amount hmem hpositive.ne_nil)
  · rintro ⟨hissuer, hamount⟩
    have hvalid := h.valid hissuer hamount
    exact ⟨link.text, encode_eq h hvalid, decode_text hreads h hvalid⟩

end RoundTrip

namespace Demo

/-- A scheme, `://`, a host, a path and a query. -/
def url (s : Str) : Except Str Url :=
  match s.dropWhile (· ≠ ':') with
  | ':' :: '/' :: '/' :: rest =>
    let pathAndQuery := rest.dropWhile (· ≠ '/')
    .ok ⟨s.takeWhile (· ≠ ':') ++ [':'], rest.takeWhile (· ≠ '/'), pathAndQuery.takeWhile (· ≠ '?'),
      (pathAndQuery.dropWhile (· ≠ '?')).tail⟩
  | _ => .error "Invalid URL".toList

def platform : Platform where
  url := url
  date s := if s = "2030-01-01T00:00:00Z".toList then some 1893456000000 else none

theorem readsLinks : platform.ReadsLinks := by
  intro host first second query hhost hfirst hsecond hquery
  have hfree : ∀ s : Str, IsSegment s → ∀ c ∈ s, decide (c ≠ '/') = true ∧ decide (c ≠ '?') = true := by
    intro s hs c hc
    rw [decide_eq_true_eq, decide_eq_true_eq]
    constructor <;> rintro rfl <;> cases hs.2 _ hc
  have hpath : ∀ c ∈ '/' :: first ++ '/' :: second, decide (c ≠ '?') = true := by
    intro c hc
    rw [List.mem_append, List.mem_cons, List.mem_cons] at hc
    rcases hc with (rfl | hc) | rfl | hc
    · rfl
    · exact (hfree first hfirst c hc).2
    · rfl
    · exact (hfree second hsecond c hc).2
  have htake : (host ++ ('/' :: first ++ '/' :: second ++ if query = [] then [] else '?' :: query)).takeWhile
      (· ≠ '/') = host := by
    rw [List.takeWhile_append_of_pos fun c hc => (hfree host hhost c hc).1]
    simp
  have hdrop : (host ++ ('/' :: first ++ '/' :: second ++ if query = [] then [] else '?' :: query)).dropWhile
      (· ≠ '/') = '/' :: first ++ '/' :: second ++ if query = [] then [] else '?' :: query := by
    rw [List.dropWhile_append_of_pos fun c hc => (hfree host hhost c hc).1]
    simp
  have htext : "opaque://".toList ++ host ++ '/' :: first ++ '/' :: second ++
      (if query = [] then [] else '?' :: query) = 'o' :: 'p' :: 'a' :: 'q' :: 'u' :: 'e' :: ':' :: '/' :: '/' ::
        (host ++ ('/' :: first ++ '/' :: second ++ if query = [] then [] else '?' :: query)) := by
    simp
  rw [htext]
  show Except.ok (Url.mk "opaque:".toList (List.takeWhile _ _) (List.takeWhile _ (List.dropWhile _ _))
    (List.dropWhile _ (List.dropWhile _ _)).tail) = _
  rw [htake, hdrop, List.takeWhile_append_of_pos hpath, List.dropWhile_append_of_pos hpath]
  split
  · next hnil => simp [hnil]
  · simp

def metaAddress : Str := "0x".toList ++ (List.replicate 66 ['a', 'b']).flatten

theorem isMetaAddress : IsMetaAddress metaAddress := by
  have hall : (List.replicate 66 ['a', 'b']).flatten.all isHexChar = true := by decide
  exact ⟨_, rfl, rfl, List.all_eq_true.mp hall⟩

/-- Every parameter but an issuer. -/
def invoice : PaymentLink where
  version := 1
  network := "testnet".toList
  metaAddress := metaAddress
  params := ⟨"10.5".toList, "XLM".toList, none, "Käse & Brot = 50%".toList, "sep7".toList,
    "https://shop.example/paid?id=1".toList, "+1 😀".toList, "2030-01-01T00:00:00Z".toList⟩

def now : ℤ := 1790000000000

def tenAndAHalf : Spelling where
  negative := false
  integer := "10".toList
  fraction := some "5".toList
  integer_ne := by decide
  integer_digits := List.all_eq_true.mp (show "10".toList.all isDigit = true by decide)
  fraction_digits := by
    rintro decimals ⟨⟩
    exact List.all_eq_true.mp (show "5".toList.all isDigit = true by decide)

theorem value_tenAndAHalf : tenAndAHalf.value = 21 / 2 := by
  have hinteger : digitsValue "10".toList = 10 := by decide
  have hdigit : digitOf '5' = 5 := by decide
  show (digitsValue "10".toList : ℚ) + (digitOf '5' + 0) / 10 = 21 / 2
  rw [hinteger, hdigit]
  norm_num

theorem wellFormed_invoice : invoice.WellFormed platform now where
  version := rfl
  network := List.mem_cons_self
  metaAddress := isMetaAddress
  amount := by
    rintro amount ⟨⟩
    refine ⟨tenAndAHalf, rfl, by simp [tenAndAHalf], rfl, ?_⟩
    rw [value_tenAndAHalf]
    norm_num
  asset := by
    rintro asset ⟨⟩
    exact ⟨by decide, by decide, List.all_eq_true.mp (show "XLM".toList.all Char.isAlphanum = true by decide)⟩
  issuer := by
    rintro issuer ⟨⟩
  memo := by
    rintro memo ⟨⟩
    decide
  sep := by
    rintro sep ⟨⟩
    decide
  callback := by
    rintro callback ⟨⟩
    exact ⟨by decide, _, rfl, by decide⟩
  label := by
    rintro label ⟨⟩
    decide
  expires := by
    rintro expires ⟨⟩
    exact ⟨by decide, 1893456000000, by decide, by decide⟩

/-- The link of an invoice that asks for an asset of this issuer. -/
def issued : PaymentLink where
  version := 1
  network := "testnet".toList
  metaAddress := metaAddress
  params := ⟨none, "USDC".toList, "GAAAAAAAAAAAAAAAAAAAAAAAAAAAAAAAAAAAAAAAAAAAAAAAAAAAAWHF".toList, none, none, none,
    none, none⟩

theorem wellFormed_issued : issued.WellFormed platform now where
  version := rfl
  network := List.mem_cons_self
  metaAddress := isMetaAddress
  amount := by
    rintro amount ⟨⟩
  asset := by
    rintro asset ⟨⟩
    exact ⟨by decide, by decide, List.all_eq_true.mp (show "USDC".toList.all Char.isAlphanum = true by decide)⟩
  issuer := by
    have hall : "GAAAAAAAAAAAAAAAAAAAAAAAAAAAAAAAAAAAAAAAAAAAAAAAAAAAAWHF".toList.all isBase32Char = true := by
      decide
    rintro issuer ⟨⟩
    exact ⟨by decide, rfl, List.all_eq_true.mp hall⟩
  memo := by
    rintro memo ⟨⟩
  sep := by
    rintro sep ⟨⟩
  callback := by
    rintro callback ⟨⟩
  label := by
    rintro label ⟨⟩
  expires := by
    rintro expires ⟨⟩

end Demo

theorem payment_link_roundTrip_invoice :
    ∃ text, encodePaymentLink Demo.platform Demo.invoice = .ok text ∧
      decodePaymentLink Demo.platform Demo.now text none = .ok Demo.invoice := by
  refine (payment_link_roundTrip Demo.readsLinks Demo.wellFormed_invoice).mpr ⟨rfl, ?_⟩
  rintro amount ⟨⟩
  have hvalue : decimalValue "10.5".toList = 21 / 2 :=
    (Demo.tenAndAHalf.decimalValue_text (trimSpaces_text Demo.tenAndAHalf)).trans Demo.value_tenAndAHalf
  rw [hvalue]
  exact (zpow_lt_zpow_right₀ one_lt_two (show (-1075 : ℤ) < 0 by omega)).trans (by norm_num)

/-- **The public key of an account is no issuer.** -/
theorem payment_link_issuer : Demo.platform.ReadsLinks ∧ Demo.issued.WellFormed Demo.platform Demo.now ∧
    ¬ ∃ text, encodePaymentLink Demo.platform Demo.issued = .ok text ∧
      decodePaymentLink Demo.platform Demo.now text none = .ok Demo.issued := by
  refine ⟨Demo.readsLinks, Demo.wellFormed_issued, ?_⟩
  rintro ⟨text, hencode, -⟩
  cases (checked_of_encode hencode).2 _ rfl

end OpaqueStellar.Payments
