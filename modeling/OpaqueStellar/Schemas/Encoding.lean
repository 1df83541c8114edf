import OpaqueStellar.Schemas.Definitions

/-! # One encoding of values

The encoder of the crate and that of the SDK, field by field. They take the same texts for booleans,
numbers and strings, but for the white space that they trim. The SDK takes more texts for a key: it does not
check the digits. And where a value is missing, it finds the members of `Object.prototype`. -/

namespace OpaqueStellar.Schemas

open OpaqueStellar.Lib OpaqueStellar.Soroban

/-! ## Texts of the types -/

def boolText (t : Str) : Option Bool :=
  if t = "true".toList ∨ t = "1".toList then some true
  else if t = "false".toList ∨ t = "0".toList ∨ t = [] then some false
  else none

def uintText (max : ℕ) (t : Str) : Option ℕ :=
  if t = [] then some 0 else (Decimal.decode t).filter (· ≤ max)

def keyText (t : Str) : Option (List UInt8) := if (strip0x t).length = 64 then Hex.decode (strip0x t) else none

/-- The bytes of a text without white space around it. -/
def textBytes (ty : FieldType) (t : Str) : Option (List UInt8) :=
  match ty with
  | .Bool => (boolText t).map fun b => [if b then 1 else 0]
  | .U8 => (uintText (2 ^ 8 - 1) t).map (beBytes 1)
  | .U16 => (uintText (2 ^ 16 - 1) t).map (beBytes 2)
  | .U32 => (uintText (2 ^ 32 - 1) t).map (beBytes 4)
  | .U64 => (uintText (2 ^ 64 - 1) t).map (beBytes 8)
  | .String =>
      if MAX_STRING_VALUE_LEN < (asBytes t).length then none
      else some (beBytes 2 (asBytes t).length ++ asBytes t)
  | .Pubkey => keyText t

section Texts

variable {c : Char} {t v : Str}

/-! ### Numbers -/

/-- The number that digits continue. -/
def valueFrom : ℕ → Str → Option ℕ
  | n, [] => some n
  | n, c :: t => (Decimal.digitValue c).bind fun d => valueFrom (n * 10 + d) t

theorem valueFrom_concat (n : ℕ) (t : Str) (c : Char) : valueFrom n (t ++ [c]) =
    (valueFrom n t).bind fun m => (Decimal.digitValue c).map fun d => m * 10 + d := by
  induction t generalizing n with
  | nil =>
    simp only [List.nil_append, valueFrom, Option.bind_some]
    cases Decimal.digitValue c with
    | none => rfl
    | some d => rfl
  | cons a t ih =>
    simp only [List.cons_append, valueFrom]
    cases Decimal.digitValue a with
    | none => rfl
    | some d => exact ih _

theorem valueFrom_zero (t : Str) :
    (t.reverse.mapM Decimal.digitValue).map (Nat.ofDigits 10) = valueFrom 0 t := by
  induction t using List.reverseRecOn with
  | nil => rfl
  | append_singleton t c ih =>
    rw [List.reverse_append, List.reverse_singleton, List.singleton_append, List.mapM_cons,
      valueFrom_concat, ← ih]
    cases Decimal.digitValue c with
    | none => cases t.reverse.mapM Decimal.digitValue <;> rfl
    | some d =>
      cases t.reverse.mapM Decimal.digitValue with
      | none => rfl
      | some ds =>
        show some (d + 10 * Nat.ofDigits 10 ds) = some (Nat.ofDigits 10 ds * 10 + d)
        congr 1
        omega

theorem decode_eq_valueFrom (h : t ≠ []) : Decimal.decode t = valueFrom 0 t := by
  rw [Decimal.decode, if_neg h, valueFrom_zero]

theorem le_of_valueFrom {n m : ℕ} (h : valueFrom n t = some m) : n ≤ m := by
  induction t generalizing n with
  | nil => exact (Option.some.inj h).le
  | cons c t ih =>
    obtain ⟨d, -, h⟩ := Option.bind_eq_some_iff.mp h
    have hle := ih h
    omega

theorem digitValue_lt {d : ℕ} (h : Decimal.digitValue c = some d) : c.toNat < 128 := by
  have hle : ∀ d : Char, c ≤ d → c.toNat ≤ d.toNat := fun d hd => hd
  unfold Decimal.digitValue at h
  split at h
  next hdigit => exact lt_of_le_of_lt (hle _ hdigit.2) (by decide)
  next => cases h

theorem lt_of_valueFrom {n m : ℕ} (h : valueFrom n t = some m) : ∀ c ∈ t, c.toNat < 128 := by
  induction t generalizing n with
  | nil => simp
  | cons c t ih =>
    obtain ⟨d, hd, h⟩ := Option.bind_eq_some_iff.mp h
    rw [List.forall_mem_cons]
    exact ⟨digitValue_lt hd, ih h⟩

theorem parseDigit_ofNat (hc : c.toNat < 128) (n : ℕ) : (parseDigit n (UInt8.ofNat c.toNat)).toOption =
    (Decimal.digitValue c).bind fun d => if n * 10 + d < 2 ^ 64 then some (n * 10 + d) else none := by
  have hdigits : isAsciiDigit (UInt8.ofNat c.toNat) = (Decimal.digitValue c).isSome ∧
      ∀ d ∈ Decimal.digitValue c, (UInt8.ofNat c.toNat).toNat - 0x30 = d := by
    apply of_ascii (P := fun c => isAsciiDigit (UInt8.ofNat c.toNat) = (Decimal.digitValue c).isSome ∧
      ∀ d ∈ Decimal.digitValue c, (UInt8.ofNat c.toNat).toNat - 0x30 = d)
    · decide
    · exact hc
  obtain ⟨hdigit, hvalue⟩ := hdigits
  cases hd : Decimal.digitValue c with
  | none =>
    rw [hd] at hdigit
    simp [parseDigit, hdigit, Except.toOption]
  | some d =>
    rw [hd] at hdigit
    simp only [parseDigit, hdigit, Option.isSome_some, Bool.not_true, Bool.false_eq_true, if_false,
      hvalue d hd, Option.bind_some]
    by_cases hten : 2 ^ 64 ≤ n * 10
    · have hlarge : ¬ n * 10 + d < 2 ^ 64 := by omega
      rw [if_pos hten, if_neg hlarge]
      rfl
    · rw [if_neg hten]
      by_cases hsum : 2 ^ 64 ≤ n * 10 + d
      · rw [if_pos hsum, if_neg (Nat.not_lt_of_le hsum)]
        rfl
      · rw [if_neg hsum, if_pos (Nat.lt_of_not_le hsum)]
        rfl

theorem parseDigit_of_le {b : UInt8} (h : 128 ≤ b.toNat) (n : ℕ) : parseDigit n b = .error .InvalidInteger := by
  have hdigit : isAsciiDigit b = false := by
    have hall : ∀ n < 128, isAsciiDigit (UInt8.ofNat (128 + n)) = false := by decide
    have hlt := b.toNat_lt
    have hb := hall (b.toNat - 128) (by omega)
    rwa [Nat.add_sub_cancel' h, UInt8.ofNat_toNat] at hb
  rw [parseDigit, hdigit]
  rfl

/-- The loop of the crate stops at an overflow; the number would only grow. -/
theorem foldlM_parseDigit {n : ℕ} (hn : n < 2 ^ 64) : ((asBytes t).foldlM parseDigit n).toOption =
    (valueFrom n t).filter (· < 2 ^ 64) := by
  induction t generalizing n with
  | nil =>
    show some n = (some n).filter _
    rw [Option.filter_some, if_pos (decide_eq_true hn)]
  | cons c t ih =>
    by_cases hc : c.toNat < 128
    · rw [asBytes, List.flatMap_cons, utf8EncodeChar_of_lt hc, List.singleton_append, List.foldlM_cons,
        toOption_bind, parseDigit_ofNat hc, valueFrom]
      cases Decimal.digitValue c with
      | none => rfl
      | some d =>
        simp only [Option.bind_some]
        split
        next hlt => exact ih hlt
        next hlarge =>
          cases hv : valueFrom (n * 10 + d) t with
          | none => rfl
          | some m =>
            have hle := le_of_valueFrom hv
            have hm : ¬ m < 2 ^ 64 := by omega
            rw [Option.filter_some, decide_eq_false hm]
            rfl
    · obtain ⟨first, rest, hbytes, hfirst⟩ := utf8EncodeChar_of_le (Nat.le_of_not_lt hc)
      have hdigit : Decimal.digitValue c = none := by
        cases hd : Decimal.digitValue c with
        | none => rfl
        | some d => exact absurd (digitValue_lt hd) hc
      rw [asBytes, List.flatMap_cons, hbytes, List.cons_append, List.foldlM_cons, parseDigit_of_le hfirst,
        valueFrom, hdigit]
      rfl

theorem parseBool_toOption : (parseBool v).toOption = boolText (trim v) := by
  rw [parseBool, boolText]
  split
  · rfl
  · split
    · rfl
    · rfl

theorem parseU64_toOption {max : ℕ} (hmax : max < 2 ^ 64) :
    (parseU64 v 0 max).toOption = uintText max (trim v) := by
  rw [parseU64, uintText]
  by_cases hblank : trim v = []
  · rw [if_pos hblank, if_pos hblank]
    rfl
  · simp only [hblank, if_false, toOption_bind, foldlM_parseDigit (show 0 < 2 ^ 64 by decide),
      decode_eq_valueFrom hblank, Nat.not_lt_zero, false_or]
    cases valueFrom 0 (trim v) with
    | none => rfl
    | some n =>
      by_cases hn : n ≤ max
      · have hlt : n < 2 ^ 64 := by omega
        have hnot : ¬ n > max := by omega
        rw [Option.filter_some, if_pos (decide_eq_true hlt), Option.filter_some, if_pos (decide_eq_true hn)]
        show Except.toOption _ = _
        rw [if_neg hnot]
        rfl
      · rw [Option.filter_some, Option.filter_some, decide_eq_false hn]
        split
        · show Except.toOption _ = _
          rw [if_pos (Nat.lt_of_not_le hn)]
          rfl
        · rfl

/-! ### Keys -/

theorem hexChar_ofNat (hc : c.toNat < 128) :
    (hexChar (UInt8.ofNat c.toNat)).toOption = (Hex.digitValue c).map UInt8.ofNat := by
  apply of_ascii (P := fun c =>
    (hexChar (UInt8.ofNat c.toNat)).toOption = (Hex.digitValue c).map UInt8.ofNat)
  · decide
  · exact hc

theorem hexChar_of_le {b : UInt8} (h : 128 ≤ b.toNat) : hexChar b = .error .InvalidPubkey := by
  have hall : ∀ n < 128, hexChar (UInt8.ofNat (128 + n)) = .error .InvalidPubkey := by decide
  have hlt := b.toNat_lt
  have hb := hall (b.toNat - 128) (by omega)
  rwa [Nat.add_sub_cancel' h, UInt8.ofNat_toNat] at hb

theorem hexValue_lt {d : ℕ} (h : Hex.digitValue c = some d) : c.toNat < 128 ∧ d < 16 := by
  have hle : ∀ d : Char, c ≤ d → c.toNat ≤ d.toNat := fun d hd => hd
  have hge : ∀ d : Char, d ≤ c → d.toNat ≤ c.toNat := fun d hd => hd
  unfold Hex.digitValue at h
  split at h
  next hdigit =>
    have hc : c.toNat ≤ 57 := hle _ hdigit.2
    obtain rfl := Option.some.inj h
    omega
  next =>
    split at h
    next hdigit =>
      have hc : c.toNat ≤ 102 := hle _ hdigit.2
      obtain rfl := Option.some.inj h
      omega
    next =>
      split at h
      next hdigit =>
        have hc : c.toNat ≤ 70 := hle _ hdigit.2
        obtain rfl := Option.some.inj h
        omega
      next => cases h

theorem lt_of_hexDecode {bytes : List UInt8} (h : Hex.decode t = some bytes) : ∀ c ∈ t, c.toNat < 128 := by
  induction t using Hex.decode.induct generalizing bytes with
  | case1 => simp
  | case2 a => cases h
  | case3 a b rest ih =>
    obtain ⟨high, hhigh, h⟩ := Option.bind_eq_some_iff.mp h
    obtain ⟨low, hlow, h⟩ := Option.bind_eq_some_iff.mp h
    obtain ⟨more, hmore, -⟩ := Option.bind_eq_some_iff.mp h
    rw [List.forall_mem_cons, List.forall_mem_cons]
    exact ⟨(hexValue_lt hhigh).1, (hexValue_lt hlow).1, ih hmore⟩

theorem hexPairs_toOption (h : ∀ c ∈ t, c.toNat < 128) (heven : t.length % 2 = 0) :
    (hexPairs (asBytes t)).toOption = Hex.decode t := by
  induction t using Hex.decode.induct with
  | case1 => rfl
  | case2 a => cases heven
  | case3 a b rest ih =>
    rw [List.forall_mem_cons, List.forall_mem_cons] at h
    obtain ⟨ha, hb, hrest⟩ := h
    have hlength : rest.length % 2 = 0 := by
      simp only [List.length_cons] at heven
      omega
    have ih := ih hrest hlength
    rw [asBytes, List.flatMap_cons, List.flatMap_cons, utf8EncodeChar_of_lt ha, utf8EncodeChar_of_lt hb]
    show (hexPairs (UInt8.ofNat a.toNat :: UInt8.ofNat b.toNat :: asBytes rest)).toOption = _
    simp only [hexPairs, toOption_bind, hexChar_ofNat ha, hexChar_ofNat hb, ih, Hex.decode]
    cases hhigh : Hex.digitValue a with
    | none => rfl
    | some high =>
      cases hlow : Hex.digitValue b with
      | none => rfl
      | some low =>
        have hall : ∀ high < 16, ∀ low < 16, UInt8.ofNat high * 16 + UInt8.ofNat low =
            UInt8.ofNat (16 * high + low) := by decide
        cases Hex.decode rest with
        | none => rfl
        | some bytes =>
          show some ((UInt8.ofNat high * 16 + UInt8.ofNat low) :: bytes) =
            some (UInt8.ofNat (16 * high + low) :: bytes)
          rw [hall high (hexValue_lt hhigh).2 low (hexValue_lt hlow).2]

theorem hexPairs_of_large (h : ∃ c ∈ t, 128 ≤ c.toNat) (heven : (asBytes t).length % 2 = 0) :
    (hexPairs (asBytes t)).toOption = none := by
  have hlarge : ∃ b ∈ asBytes t, 128 ≤ b.toNat := by
    obtain ⟨c, hmem, hc⟩ := h
    obtain ⟨first, rest, hbytes, hfirst⟩ := utf8EncodeChar_of_le hc
    exact ⟨first, List.mem_flatMap.mpr ⟨c, hmem, by rw [hbytes]; exact List.mem_cons_self⟩, hfirst⟩
  generalize asBytes t = bytes at hlarge heven
  induction bytes using hexPairs.induct with
  | case1 a b rest ih =>
    obtain ⟨large, hmem, hlarge⟩ := hlarge
    simp only [hexPairs, toOption_bind]
    rcases List.mem_cons.mp hmem with rfl | hmem
    · rw [hexChar_of_le hlarge]
      rfl
    · rcases List.mem_cons.mp hmem with rfl | hmem
      · rw [hexChar_of_le hlarge]
        cases (hexChar a).toOption with
        | none => rfl
        | some high => rfl
      · have hlength : rest.length % 2 = 0 := by
          simp only [List.length_cons] at heven
          omega
        rw [ih ⟨large, hmem, hlarge⟩ hlength]
        cases (hexChar a).toOption with
        | none => rfl
        | some high =>
          cases (hexChar b).toOption with
          | none => rfl
          | some low => rfl
  | case2 bytes hshort =>
    obtain ⟨large, hmem, -⟩ := hlarge
    cases bytes with
    | nil => cases hmem
    | cons a bytes =>
      cases bytes with
      | nil => cases heven
      | cons b rest => exact absurd rfl (hshort a b rest)

theorem parsePubkeyHex_toOption : (parsePubkeyHex v).toOption = keyText (trim v) := by
  simp only [parsePubkeyHex, keyText]
  generalize strip0x (trim v) = t
  by_cases hascii : ∀ c ∈ t, c.toNat < 128
  · have hlength : (asBytes t).length = t.length := utf8Length_of_lt hascii
    rw [hlength]
    by_cases h64 : t.length = 64
    · rw [if_neg (not_not.mpr h64), if_pos h64]
      exact hexPairs_toOption hascii (by rw [h64])
    · rw [if_pos h64, if_neg h64]
      rfl
  · have hnone : Hex.decode t = none := by
      cases hdecode : Hex.decode t with
      | none => rfl
      | some bytes => exact absurd (lt_of_hexDecode hdecode) hascii
    have hlarge : ∃ c ∈ t, 128 ≤ c.toNat := by
      simpa only [not_forall, not_lt, exists_prop] using hascii
    rw [hnone, ite_self]
    by_cases h64 : (asBytes t).length = 64
    · rw [if_neg (not_not.mpr h64)]
      exact hexPairs_of_large hlarge (by rw [h64])
    · rw [if_pos h64]
      rfl

end Texts

/-! ## What the fields add -/

/-- The bytes of a value, with the white space that the reader trims. A string is not trimmed. -/
def fieldBytes (isSpace : Char → Bool) (ty : FieldType) (v : Str) : Option (List UInt8) :=
  if ty = .String then textBytes ty v else textBytes ty (trimBy isSpace v)

/-- The SDK does not look at the digits of a key. -/
def sdkKeyBytes (v : Str) : Option (List UInt8) :=
  if (Sdk.units (Sdk.replace0x (trimSpaces v))).length = 64 then
    some (Sdk.parsePairs (Sdk.units (Sdk.replace0x (trimSpaces v))))
  else none

def sdkFieldBytes (engine : Sdk.Engine) (ty : FieldType) : Sdk.Value → Option (List UInt8)
  | .text v => if ty = .Pubkey then sdkKeyBytes v else fieldBytes Lib.isSpace ty v
  | .member name => if ty = .String then textBytes .String (engine.toString name) else none

section Fields

variable {engine : Sdk.Engine} {out : List UInt8} {ty : FieldType} {v : Str}

theorem parseU64_append {max len : ℕ} (hmax : max < 2 ^ 64) :
    (parseU64 v 0 max >>= fun n => pure (out ++ beBytes len n)).toOption =
      ((uintText max (trim v)).map (beBytes len)).map (out ++ ·) := by
  rw [toOption_bind, parseU64_toOption hmax]
  cases uintText max (trim v) with
  | none => rfl
  | some n => rfl

theorem encodeFieldValue_toOption :
    (encodeFieldValue out ty v).toOption = (fieldBytes isWhitespace ty v).map (out ++ ·) := by
  cases ty with
  | Bool =>
    show (parseBool v >>= _).toOption = ((boolText (trim v)).map _).map _
    rw [toOption_bind, parseBool_toOption]
    cases boolText (trim v) with
    | none => rfl
    | some b => rfl
  | U8 => exact parseU64_append (by decide)
  | U16 => exact parseU64_append (by decide)
  | U32 => exact parseU64_append (by decide)
  | U64 => exact parseU64_append (by decide)
  | String =>
    by_cases hlong : MAX_STRING_VALUE_LEN < (asBytes v).length
    · simp [encodeFieldValue, fieldBytes, textBytes, hlong, Except.toOption, bind, Except.bind, throw,
        throwThe, MonadExceptOf.throw]
    · simp [encodeFieldValue, fieldBytes, textBytes, hlong, Except.toOption, pure, Except.pure]
  | Pubkey =>
    show (parsePubkeyHex v >>= _).toOption = (keyText (trim v)).map _
    rw [toOption_bind, parsePubkeyHex_toOption]
    cases keyText (trim v) with
    | none => rfl
    | some key => rfl

theorem sdkParseBool_toOption : (Sdk.parseBool v).toOption = boolText (trimSpaces v) := by
  rw [Sdk.parseBool, boolText]
  split
  · rfl
  · split
    · rfl
    · rfl

theorem sdkParseUint_toOption {max : ℕ} : (Sdk.parseUint v max).toOption = uintText max (trimSpaces v) := by
  rw [Sdk.parseUint, uintText]
  split
  · rfl
  · cases Decimal.decode (trimSpaces v) with
    | none => rfl
    | some n =>
      rw [Option.filter_some]
      by_cases hn : n ≤ max
      · have hnot : ¬ n > max := by omega
        simp only [hnot, if_false, hn, decide_true, if_true]
        rfl
      · have hgt : n > max := by omega
        simp only [hgt, if_true, hn, decide_false, Bool.false_eq_true, if_false]
        rfl

theorem sdkParseUint_map {max len : ℕ} :
    (Sdk.parseUint v max >>= fun n => pure (beBytes len n)).toOption =
      (uintText max (trimSpaces v)).map (beBytes len) := by
  rw [toOption_bind, sdkParseUint_toOption]
  cases uintText max (trimSpaces v) with
  | none => rfl
  | some n => rfl

theorem encodeField_toOption {value : Sdk.Value} :
    (Sdk.encodeField engine ty value).toOption = sdkFieldBytes engine ty value := by
  cases value with
  | text v =>
    cases ty with
    | Bool =>
      show (Sdk.parseBool v >>= _).toOption = (boolText (trimSpaces v)).map _
      rw [toOption_bind, sdkParseBool_toOption]
      cases boolText (trimSpaces v) with
      | none => rfl
      | some b => rfl
    | U8 => exact sdkParseUint_map
    | U16 => exact sdkParseUint_map
    | U32 => exact sdkParseUint_map
    | U64 => exact sdkParseUint_map
    | String =>
      by_cases hlong : MAX_STRING_VALUE_LEN < (asBytes v).length
      · simp [Sdk.encodeField, Sdk.Value.shown, sdkFieldBytes, fieldBytes, textBytes, hlong, Except.toOption,
          bind, Except.bind, throw, throwThe, MonadExceptOf.throw]
      · simp [Sdk.encodeField, Sdk.Value.shown, sdkFieldBytes, fieldBytes, textBytes, hlong, Except.toOption,
          pure, Except.pure]
    | Pubkey =>
      show (Sdk.parsePubkeyHex v).toOption = sdkKeyBytes v
      rw [Sdk.parsePubkeyHex, sdkKeyBytes]
      by_cases h64 : (Sdk.units (Sdk.replace0x (trimSpaces v))).length = 64
      · simp only [h64, not_true, if_false, if_true, ne_eq]
        rfl
      · simp only [h64, not_false_eq_true, if_false, if_true, ne_eq]
        rfl
  | member name =>
    cases ty with
    | String =>
      by_cases hlong : MAX_STRING_VALUE_LEN < (asBytes (engine.toString name)).length
      · simp [Sdk.encodeField, Sdk.Value.shown, sdkFieldBytes, textBytes, hlong, Except.toOption,
          bind, Except.bind, throw, throwThe, MonadExceptOf.throw]
      · simp [Sdk.encodeField, Sdk.Value.shown, sdkFieldBytes, textBytes, hlong, Except.toOption,
          pure, Except.pure]
    | _ => rfl

end Fields

end OpaqueStellar.Schemas
