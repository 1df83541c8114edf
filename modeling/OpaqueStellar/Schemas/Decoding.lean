import OpaqueStellar.Lib.Utf8
import OpaqueStellar.Schemas.Canonical
import OpaqueStellar.Schemas.Mirror

/-! # Decoding attestation data

`decodeAttestationData` of `sdk/src/crypto/schema-codec.ts`. It walks through the data as the crate's validator
does, and both stop where a field is cut off. Of the rest of the validator's checks it makes none. -/

namespace OpaqueStellar.Schemas

open OpaqueStellar.Lib OpaqueStellar.Soroban

/-! ## The decoder -/

namespace Sdk

/-- `result[name] = text`; the setter of `__proto__` ignores a text. -/
def assign (result : Dict Str Str) (name text : Str) : Dict Str Str :=
  if name = "__proto__".toList then result else result.set name text

/-- `data.slice(offset, offset + len)` -/
def slice (data : List UInt8) (offset len : ℕ) : List UInt8 := (data.drop offset).take len

/-- The cases of the integers longer than a byte. -/
def decodeUint (data : List UInt8) (result : Dict Str Str) (offset : ℕ) (name : Str) (len : ℕ) (message : Str) :
    Except Thrown (Dict Str Str × ℕ) :=
  if data.length < offset + len then .error (.attestation message)
  else .ok (assign result name (Decimal.encode (beNat (slice data offset len))), offset + len)

/-- One turn of the loop of `decodeAttestationData`. -/
def decodeField (data : List UInt8) (state : Dict Str Str × ℕ) (field : FieldDef) :
    Except Thrown (Dict Str Str × ℕ) :=
  let (result, offset) := state
  match field.type with
  | .Bool =>
      if data.length ≤ offset then .error (.attestation "Truncated bool".toList)
      else
        let text := if data.getD offset 0 = 1 then "true".toList else "false".toList
        .ok (assign result field.name text, offset + 1)
  | .U8 =>
      if data.length ≤ offset then .error (.attestation "Truncated u8".toList)
      else .ok (assign result field.name (Decimal.encode (data.getD offset 0).toNat), offset + 1)
  | .U16 => decodeUint data result offset field.name 2 "Truncated u16".toList
  | .U32 => decodeUint data result offset field.name 4 "Truncated u32".toList
  | .U64 => decodeUint data result offset field.name 8 "Truncated u64".toList
  | .String =>
      if data.length < offset + 2 then .error (.attestation "Truncated string length".toList)
      else
        let len := beNat (slice data offset 2)
        let offset := offset + 2
        if data.length < offset + len then .error (.attestation "Truncated string".toList)
        else .ok (assign result field.name (utf8Decode (slice data offset len)), offset + len)
  | .Pubkey =>
      if data.length < offset + 32 then .error (.attestation "Truncated pubkey".toList)
      else
        .ok (assign result field.name ("0x".toList ++ Hex.encode (slice data offset 32)), offset + 32)

def decodeAttestationData (data : List UInt8) (fieldDefs : List FieldDef) : Except Thrown (Dict Str Str) := do
  let (result, offset) ← fieldDefs.foldlM (decodeField data) ([], 0)
  if offset ≠ data.length then throw (.attestation "Trailing bytes in attestation data".toList)
  pure result

end Sdk

/-! ## Cutting off a field -/

def cutFixed (len : ℕ) (bytes : List UInt8) : Option (List UInt8) :=
  if bytes.length < len then none else some (bytes.take len)

/-- The bytes of a field at the front. -/
def cut (ty : FieldType) (bytes : List UInt8) : Option (List UInt8) :=
  match ty with
  | .Bool => cutFixed 1 bytes
  | .U8 => cutFixed 1 bytes
  | .U16 => cutFixed 2 bytes
  | .U32 => cutFixed 4 bytes
  | .U64 => cutFixed 8 bytes
  | .String => (cutFixed 2 bytes).bind fun header => cutFixed (2 + beNat header) bytes
  | .Pubkey => cutFixed 32 bytes

/-- What the decoder shows for the bytes of a field. -/
def shown (ty : FieldType) (part : List UInt8) : Str :=
  match ty with
  | .Bool => if part = [1] then "true".toList else "false".toList
  | .String => utf8Decode (part.drop 2)
  | .Pubkey => "0x".toList ++ Hex.encode part
  | _ => Decimal.encode (beNat part)

/-- What the validator checks besides. -/
def accepted (ty : FieldType) (part : List UInt8) : Bool :=
  match ty with
  | .Bool => part.headD 0 ≤ 1
  | .String => part.length ≤ 2 + MAX_STRING_VALUE_LEN
  | _ => true

section Cut

variable {ty : FieldType} {bytes part data : List UInt8} {len offset : ℕ} {result : Dict Str Str}

theorem cutFixed_eq_some :
    cutFixed len bytes = some part ↔ part.length = len ∧ ∃ rest, bytes = part ++ rest := by
  unfold cutFixed
  split
  next hshort =>
    constructor
    · intro h
      cases h
    · rintro ⟨rfl, rest, rfl⟩
      rw [List.length_append] at hshort
      omega
  next hlong =>
    constructor
    · intro h
      obtain rfl := Option.some.inj h
      exact ⟨List.length_take_of_le (Nat.le_of_not_lt hlong), bytes.drop len, (List.take_append_drop len bytes).symm⟩
    · rintro ⟨rfl, rest, rfl⟩
      rw [List.take_left]

theorem cut_eq_some : cut ty bytes = some part ↔ HasWidth ty part ∧ ∃ rest, bytes = part ++ rest := by
  cases ty with
  | String =>
    constructor
    · intro h
      obtain ⟨header, hheader, h⟩ := Option.bind_eq_some_iff.mp h
      obtain ⟨htwo, more, rfl⟩ := cutFixed_eq_some.mp hheader
      obtain ⟨hlength, rest, hbytes⟩ := cutFixed_eq_some.mp h
      refine ⟨⟨header, part.drop 2, htwo, ?_, ?_⟩, rest, hbytes⟩
      · rw [List.length_drop]
        omega
      · have htake := congrArg (List.take 2) hbytes
        rw [List.take_left' htwo, List.take_append_of_le_length (by omega)] at htake
        rw [htake, List.take_append_drop]
    · rintro ⟨⟨header, body, htwo, hbody, rfl⟩, rest, rfl⟩
      have hheader : cutFixed 2 (header ++ body ++ rest) = some header :=
        cutFixed_eq_some.mpr ⟨htwo, body ++ rest, List.append_assoc _ _ _⟩
      rw [cut, hheader]
      exact cutFixed_eq_some.mpr ⟨by rw [List.length_append, htwo, hbody], rest, rfl⟩
  | _ => exact cutFixed_eq_some

/-! ### Both walks cut alike -/

theorem lt_add_iff (h : 0 < len) : data.length < offset + len ↔ (data.drop offset).length < len := by
  rw [List.length_drop]
  omega

/-- A field that is one byte: there is none, or it is the byte at the offset. -/
theorem cutFixed_one_cases (data : List UInt8) (offset : ℕ) :
    (data.length ≤ offset ∧ cutFixed 1 (data.drop offset) = none) ∨
      ¬ data.length ≤ offset ∧ cutFixed 1 (data.drop offset) = some [data.getD offset 0] := by
  cases hdrop : data.drop offset with
  | nil => exact .inl ⟨List.drop_eq_nil_iff.mp hdrop, rfl⟩
  | cons b rest =>
    have hlong : ¬ data.length ≤ offset := by
      rw [← List.drop_eq_nil_iff, hdrop]
      exact List.cons_ne_nil b rest
    rw [List.getD_eq_getElem?_getD, ← List.head?_drop, hdrop]
    exact .inr ⟨hlong, cutFixed_eq_some.mpr ⟨rfl, rest, rfl⟩⟩

theorem cutFixed_of_lt (h : bytes.length < len) : cutFixed len bytes = none := if_pos h

theorem cutFixed_of_le (h : ¬ bytes.length < len) : cutFixed len bytes = some (bytes.take len) := if_neg h

theorem decodeUint_toOption {name message : Str} (hlen : 0 < len) :
    (Sdk.decodeUint data result offset name len message).toOption =
      (cutFixed len (data.drop offset)).map fun part =>
        (Sdk.assign result name (Decimal.encode (beNat part)), offset + part.length) := by
  unfold Sdk.decodeUint Sdk.slice
  by_cases hshort : (data.drop offset).length < len
  · rw [if_pos ((lt_add_iff hlen).mpr hshort), cutFixed_of_lt hshort]
    rfl
  · rw [if_neg (mt (lt_add_iff hlen).mp hshort), cutFixed_of_le hshort, Option.map_some,
      List.length_take_of_le (Nat.le_of_not_lt hshort)]
    rfl

theorem decodeField_toOption {field : Sdk.FieldDef} :
    (Sdk.decodeField data (result, offset) field).toOption = (cut field.type (data.drop offset)).map fun part =>
      (Sdk.assign result field.name (shown field.type part), offset + part.length) := by
  obtain ⟨id, name, ty⟩ := field
  cases ty with
  | Bool =>
    show Except.toOption (if data.length ≤ offset then _ else _) = (cutFixed 1 (data.drop offset)).map _
    rcases cutFixed_one_cases data offset with ⟨hshort, hcut⟩ | ⟨hlong, hcut⟩
    · rw [if_pos hshort, hcut]
      rfl
    · rw [if_neg hlong, hcut]
      simp [shown, Except.toOption]
  | U8 =>
    show Except.toOption (if data.length ≤ offset then _ else _) = (cutFixed 1 (data.drop offset)).map _
    rcases cutFixed_one_cases data offset with ⟨hshort, hcut⟩ | ⟨hlong, hcut⟩
    · rw [if_pos hshort, hcut]
      rfl
    · rw [if_neg hlong, hcut]
      simp [shown, Except.toOption, beNat]
  | U16 => exact decodeUint_toOption (by decide)
  | U32 => exact decodeUint_toOption (by decide)
  | U64 => exact decodeUint_toOption (by decide)
  | String =>
    show Except.toOption (if data.length < offset + 2 then _ else _) =
      ((cutFixed 2 (data.drop offset)).bind _).map _
    by_cases hshort : (data.drop offset).length < 2
    · rw [if_pos ((lt_add_iff Nat.two_pos).mpr hshort), cutFixed_of_lt hshort]
      rfl
    · rw [if_neg (mt (lt_add_iff Nat.two_pos).mp hshort), cutFixed_of_le hshort, Option.bind_some]
      show Except.toOption (if data.length < offset + 2 + beNat ((data.drop offset).take 2) then _ else _) = _
      have hbody : data.length < offset + 2 + beNat ((data.drop offset).take 2) ↔
          (data.drop offset).length < 2 + beNat ((data.drop offset).take 2) := by
        rw [Nat.add_assoc]
        exact lt_add_iff (by omega)
      by_cases hcut : (data.drop offset).length < 2 + beNat ((data.drop offset).take 2)
      · rw [if_pos (hbody.mpr hcut), cutFixed_of_lt hcut]
        rfl
      · rw [if_neg (mt hbody.mp hcut), cutFixed_of_le hcut, Option.map_some,
          List.length_take_of_le (Nat.le_of_not_lt hcut), shown, List.drop_take, Nat.add_sub_cancel_left,
          List.drop_drop, Nat.add_assoc]
        rfl
  | Pubkey =>
    show Except.toOption (if data.length < offset + 32 then _ else _) = (cutFixed 32 (data.drop offset)).map _
    by_cases hshort : (data.drop offset).length < 32
    · rw [if_pos ((lt_add_iff (by decide)).mpr hshort), cutFixed_of_lt hshort]
      rfl
    · rw [if_neg (mt (lt_add_iff (by decide)).mp hshort), cutFixed_of_le hshort, Option.map_some,
        List.length_take_of_le (Nat.le_of_not_lt hshort)]
      rfl

theorem readFixed_toOption (hlen : 0 < len) : (readFixed data offset len).toOption =
    (cutFixed len (data.drop offset)).map fun part => offset + part.length := by
  unfold readFixed
  by_cases hshort : (data.drop offset).length < len
  · rw [if_pos ((lt_add_iff hlen).mpr hshort), cutFixed_of_lt hshort]
    rfl
  · rw [if_neg (mt (lt_add_iff hlen).mp hshort), cutFixed_of_le hshort, Option.map_some,
      List.length_take_of_le (Nat.le_of_not_lt hshort)]
    rfl

theorem readFixed_filter (hlen : 0 < len) (hty : accepted ty = fun _ => true) :
    (readFixed data offset len).toOption =
      ((cutFixed len (data.drop offset)).filter (accepted ty)).map fun part => offset + part.length := by
  rw [readFixed_toOption hlen, hty]
  cases cutFixed len (data.drop offset) with
  | none => rfl
  | some part => rfl

theorem readFieldValue_toOption : (readFieldValue ty data offset).toOption =
    ((cut ty (data.drop offset)).filter (accepted ty)).map fun part => offset + part.length := by
  cases ty with
  | Bool =>
    show Except.toOption (if data.length ≤ offset then _ else _) = ((cutFixed 1 (data.drop offset)).filter _).map _
    rcases cutFixed_one_cases data offset with ⟨hshort, hcut⟩ | ⟨hlong, hcut⟩
    · rw [if_pos hshort, hcut]
      rfl
    · generalize data.getD offset 0 = b at hcut ⊢
      rw [if_neg hlong, hcut, Option.filter_some]
      by_cases hb : b ≤ 1
      · have hnot : ¬ 1 < b := UInt8.not_lt.mpr hb
        simp [accepted, hb, hnot, Except.toOption]
      · have hgt : 1 < b := UInt8.not_le.mp hb
        simp [accepted, hb, hgt, Except.toOption]
  | U8 =>
    show Except.toOption (if data.length ≤ offset then _ else _) = ((cutFixed 1 (data.drop offset)).filter _).map _
    rcases cutFixed_one_cases data offset with ⟨hshort, hcut⟩ | ⟨hlong, hcut⟩
    · rw [if_pos hshort, hcut]
      rfl
    · rw [if_neg hlong, hcut]
      rfl
  | String =>
    show Except.toOption (if data.length < offset + 2 then _ else _) =
      (((cutFixed 2 (data.drop offset)).bind _).filter _).map _
    by_cases hshort : (data.drop offset).length < 2
    · rw [if_pos ((lt_add_iff Nat.two_pos).mpr hshort), cutFixed_of_lt hshort]
      rfl
    · rw [if_neg (mt (lt_add_iff Nat.two_pos).mp hshort), cutFixed_of_le hshort, Option.bind_some]
      have hheader : [data.getD offset 0, data.getD (offset + 1) 0] = (data.drop offset).take 2 := by
        have hlength : (data.drop offset).length = data.length - offset := List.length_drop
        have hdrop : data.drop offset = data.getD offset 0 :: data.getD (offset + 1) 0 :: data.drop (offset + 2) := by
          rw [List.drop_eq_getElem_cons (by omega), List.drop_eq_getElem_cons (by omega),
            List.getD_eq_getElem?_getD, List.getD_eq_getElem?_getD, List.getElem?_eq_getElem (by omega),
            List.getElem?_eq_getElem (by omega)]
          rfl
        rw [hdrop]
        rfl
      simp only [hheader]
      have hbody : data.length < offset + 2 + beNat ((data.drop offset).take 2) ↔
          (data.drop offset).length < 2 + beNat ((data.drop offset).take 2) := by
        rw [Nat.add_assoc]
        exact lt_add_iff (by omega)
      generalize beNat ((data.drop offset).take 2) = len at hbody
      by_cases hcut : (data.drop offset).length < 2 + len
      · rw [if_pos (hbody.mpr hcut), cutFixed_of_lt hcut]
        rfl
      · have htake := List.length_take_of_le (Nat.le_of_not_lt hcut)
        rw [if_neg (mt hbody.mp hcut), cutFixed_of_le hcut, Option.filter_some]
        simp only [accepted, htake, Nat.add_le_add_iff_left, decide_eq_true_eq]
        by_cases hlong : MAX_STRING_VALUE_LEN < len
        · rw [if_pos hlong, if_neg (Nat.not_le_of_gt hlong)]
          rfl
        · rw [if_neg hlong, if_pos (Nat.le_of_not_lt hlong), Option.map_some, htake, Nat.add_assoc]
          rfl
  | U16 => exact readFixed_filter (by decide) rfl
  | U32 => exact readFixed_filter (by decide) rfl
  | U64 => exact readFixed_filter (by decide) rfl
  | Pubkey => exact readFixed_filter (by decide) rfl

end Cut

/-! ## Walking through the fields -/

/-- A part for each field, and what is left. -/
def cutFields : List Sdk.FieldDef → List UInt8 → Option (List (Sdk.FieldDef × List UInt8) × List UInt8)
  | [], bytes => some ([], bytes)
  | field :: fields, bytes =>
      (cut field.type bytes).bind fun part =>
        (cutFields fields (bytes.drop part.length)).map fun c => ((field, part) :: c.1, c.2)

/-- What the decoder makes of the parts. -/
def resultOf (result : Dict Str Str) (parts : List (Sdk.FieldDef × List UInt8)) : Dict Str Str :=
  parts.foldl (fun result fp => Sdk.assign result fp.1.name (shown fp.1.type fp.2)) result

/-- The data are these parts, one for each field. -/
structure Laid (fields : List Sdk.FieldDef) (data : List UInt8) (parts : List (Sdk.FieldDef × List UInt8)) :
    Prop where
  fields_eq : parts.map Prod.fst = fields
  widths : ∀ fp ∈ parts, HasWidth fp.1.type fp.2
  data_eq : parts.flatMap Prod.snd = data

section Walk

variable {fields : List Sdk.FieldDef} {data bytes rest : List UInt8}
  {parts parts' : List (Sdk.FieldDef × List UInt8)} {offset : ℕ} {result : Dict Str Str}

theorem cutFields_cons_eq_some {field : Sdk.FieldDef} : cutFields (field :: fields) bytes = some (parts, rest) ↔
    ∃ part later, cut field.type bytes = some part ∧
      cutFields fields (bytes.drop part.length) = some (later, rest) ∧ parts = (field, part) :: later := by
  simp only [cutFields, Option.bind_eq_some_iff, Option.map_eq_some_iff, Prod.mk.injEq, Prod.exists]
  constructor
  · rintro ⟨part, hpart, later, rest', hlater, rfl, rfl⟩
    exact ⟨part, later, hpart, hlater, rfl⟩
  · rintro ⟨part, later, hpart, hlater, rfl⟩
    exact ⟨part, hpart, later, rest, hlater, rfl, rfl⟩

theorem cutFields_eq_some : cutFields fields bytes = some (parts, rest) ↔ parts.map Prod.fst = fields ∧
    (∀ fp ∈ parts, HasWidth fp.1.type fp.2) ∧ bytes = parts.flatMap Prod.snd ++ rest := by
  induction fields generalizing bytes parts with
  | nil =>
    constructor
    · intro h
      obtain ⟨rfl, rfl⟩ := Prod.mk.inj (Option.some.inj h)
      simp
    · rintro ⟨hparts, -, hbytes⟩
      obtain rfl := List.map_eq_nil_iff.mp hparts
      rw [hbytes]
      rfl
  | cons field fields ih =>
    rw [cutFields_cons_eq_some]
    constructor
    · rintro ⟨part, later, hpart, hlater, rfl⟩
      obtain ⟨hwidth, more, rfl⟩ := cut_eq_some.mp hpart
      rw [List.drop_left] at hlater
      obtain ⟨rfl, hwidths, rfl⟩ := ih.mp hlater
      refine ⟨rfl, ?_, by rw [List.flatMap_cons, List.append_assoc]⟩
      rw [List.forall_mem_cons]
      exact ⟨hwidth, hwidths⟩
    · rintro ⟨hparts, hwidths, hbytes⟩
      obtain ⟨fp, later, rfl, rfl, rfl⟩ := List.map_eq_cons_iff.mp hparts
      rw [List.forall_mem_cons] at hwidths
      rw [List.flatMap_cons, List.append_assoc] at hbytes
      refine ⟨fp.2, later, cut_eq_some.mpr ⟨hwidths.1, _, hbytes⟩, ?_, rfl⟩
      rw [hbytes, List.drop_left]
      exact ih.mpr ⟨rfl, hwidths.2, rfl⟩

theorem cutFields_iff_laid : cutFields fields data = some (parts, []) ↔ Laid fields data parts := by
  rw [cutFields_eq_some, List.append_nil]
  constructor
  · rintro ⟨hfields, hwidths, hdata⟩
    exact ⟨hfields, hwidths, hdata.symm⟩
  · intro h
    exact ⟨h.fields_eq, h.widths, h.data_eq.symm⟩

/-- Data can be laid out in one way only. -/
theorem Laid.unique (h : Laid fields data parts) (h' : Laid fields data parts') : parts = parts' := by
  have heq := (cutFields_iff_laid.mpr h).symm.trans (cutFields_iff_laid.mpr h')
  exact (Prod.mk.inj (Option.some.inj heq)).1

/-! ### The decoder -/

theorem foldlM_decodeField : (fields.foldlM (Sdk.decodeField data) (result, offset)).toOption =
    (cutFields fields (data.drop offset)).map fun c =>
      (resultOf result c.1, offset + (c.1.flatMap Prod.snd).length) := by
  induction fields generalizing result offset with
  | nil => rfl
  | cons field fields ih =>
    rw [List.foldlM_cons, toOption_bind, decodeField_toOption, cutFields]
    cases cut field.type (data.drop offset) with
    | none => rfl
    | some part =>
      show Except.toOption (fields.foldlM (Sdk.decodeField data) _) = _
      rw [ih, Option.bind_some, Option.map_map, List.drop_drop]
      congr 1
      funext c
      simp only [Function.comp_apply, List.flatMap_cons, List.length_append, Nat.add_assoc]
      rfl

theorem decode_eq_ok : Sdk.decodeAttestationData data fields = .ok result ↔
    ∃ parts, Laid fields data parts ∧ result = resultOf [] parts := by
  rw [← toOption_eq_some_iff, Sdk.decodeAttestationData, toOption_bind, foldlM_decodeField, List.drop_zero]
  simp only [Nat.zero_add]
  constructor
  · intro h
    obtain ⟨c, hc, h⟩ := Option.bind_eq_some_iff.mp h
    obtain ⟨⟨parts, rest⟩, hcut, rfl⟩ := Option.map_eq_some_iff.mp hc
    simp only at h
    have hdata := (cutFields_eq_some.mp hcut).2.2
    by_cases hlength : (parts.flatMap Prod.snd).length = data.length
    · rw [if_neg (not_not.mpr hlength)] at h
      have hrest : rest = [] := by
        rw [hdata, List.length_append] at hlength
        exact List.eq_nil_of_length_eq_zero (by omega)
      rw [hrest] at hcut
      exact ⟨parts, cutFields_iff_laid.mp hcut, (Option.some.inj h).symm⟩
    · rw [if_pos hlength] at h
      cases h
  · rintro ⟨parts, hlaid, rfl⟩
    rw [cutFields_iff_laid.mpr hlaid]
    show Except.toOption (if (parts.flatMap Prod.snd).length ≠ data.length then _ else _) = _
    rw [if_neg (not_not.mpr (congrArg List.length hlaid.data_eq))]
    rfl

/-! ### The validator -/

theorem foldlM_readFieldValue :
    ((fields.map fieldOf).foldlM (fun offset field => readFieldValue field.ty data offset) offset).toOption =
      ((cutFields fields (data.drop offset)).filter fun c => c.1.all fun fp => accepted fp.1.type fp.2).map
        fun c => offset + (c.1.flatMap Prod.snd).length := by
  induction fields generalizing offset with
  | nil => rfl
  | cons field fields ih =>
    rw [List.map_cons, List.foldlM_cons, toOption_bind, readFieldValue_toOption, cutFields]
    show (((cut field.type (data.drop offset)).filter (accepted field.type)).map _).bind _ = _
    cases cut field.type (data.drop offset) with
    | none => rfl
    | some part =>
      rw [Option.filter_some, Option.bind_some]
      cases haccepted : accepted field.type part with
      | false =>
        cases cutFields fields ((data.drop offset).drop part.length) with
        | none => rfl
        | some c => simp [Option.filter_some, haccepted]
      | true =>
        show Except.toOption ((fields.map fieldOf).foldlM (fun offset field => readFieldValue field.ty data offset)
          (offset + part.length)) = _
        rw [ih, List.drop_drop]
        cases cutFields fields (data.drop (offset + part.length)) with
        | none => rfl
        | some c =>
          simp only [Option.map_some, Option.filter_some, List.all_cons, haccepted, Bool.true_and]
          split
          · simp [Nat.add_assoc]
          · rfl

theorem validate_eq_ok : validateAttestationData (fields.map fieldOf) data = .ok () ↔
    data.length ≤ MAX_ATTESTATION_DATA_LEN ∧
      ∃ parts, Laid fields data parts ∧ ∀ fp ∈ parts, accepted fp.1.type fp.2 = true := by
  rw [← toOption_eq_some_iff, validateAttestationData]
  by_cases hlong : MAX_ATTESTATION_DATA_LEN < data.length
  · have hnot : ¬ data.length ≤ MAX_ATTESTATION_DATA_LEN := Nat.not_le_of_gt hlong
    simp only [hlong, if_true, throw_bind, hnot, false_and, iff_false]
    intro h
    cases h
  · have hle : data.length ≤ MAX_ATTESTATION_DATA_LEN := Nat.le_of_not_lt hlong
    simp only [hlong, if_false, toOption_bind, foldlM_readFieldValue, List.drop_zero, hle, true_and,
      Nat.zero_add]
    constructor
    · intro h
      obtain ⟨offset, hc, h⟩ := Option.bind_eq_some_iff.mp h
      obtain ⟨⟨parts, rest⟩, hfilter, rfl⟩ := Option.map_eq_some_iff.mp hc
      obtain ⟨hcut, hall⟩ := Option.filter_eq_some_iff.mp hfilter
      have hdata := (cutFields_eq_some.mp hcut).2.2
      by_cases hlength : (parts.flatMap Prod.snd).length = data.length
      · have hrest : rest = [] := by
          rw [hdata, List.length_append] at hlength
          exact List.eq_nil_of_length_eq_zero (by omega)
        rw [hrest] at hcut
        exact ⟨parts, cutFields_iff_laid.mp hcut, fun fp hfp => List.all_eq_true.mp hall fp hfp⟩
      · simp only at h
        rw [if_pos hlength] at h
        cases h
    · rintro ⟨parts, hlaid, hall⟩
      have hcheck : (parts.all fun fp => accepted fp.1.type fp.2) = true := List.all_eq_true.mpr hall
      rw [cutFields_iff_laid.mpr hlaid, Option.filter_some, if_pos hcheck]
      show Except.toOption (if (parts.flatMap Prod.snd).length ≠ data.length then _ else _) = _
      rw [if_neg (not_not.mpr (congrArg List.length hlaid.data_eq))]
      rfl

end Walk

/-! ## Encoding again -/

/-- The data of the field are read as texts that encode to them. -/
def Faithful (engine : Sdk.Engine) (field : Sdk.FieldDef) (part : List UInt8) : Prop :=
  if field.name = "__proto__".toList then
    field.type = .String ∧ textBytes .String (engine.toString "__proto__".toList) = some part
  else
    match field.type with
    | .Bool => part = [0] ∨ part = [1]
    | .String => part.length ≤ 2 + MAX_STRING_VALUE_LEN ∧
        ∃ s : Str, asBytes s = part.drop 2 ∧ s.head? ≠ some byteOrderMark
    | _ => True

section Texts

variable {engine : Sdk.Engine} {ty : FieldType} {part : List UInt8} {t : Str} {n m max : ℕ}

theorem isDigit_of_valueFrom (h : valueFrom n t = some m) : ∀ c ∈ t, (Decimal.digitValue c).isSome := by
  induction t generalizing n with
  | nil => simp
  | cons c t ih =>
    obtain ⟨d, hd, h⟩ := Option.bind_eq_some_iff.mp h
    rw [List.forall_mem_cons, hd]
    exact ⟨rfl, ih h⟩

theorem encode_ne_nil (n : ℕ) : Decimal.encode n ≠ [] := by
  intro h
  obtain ⟨d, -, hhead⟩ := Decimal.encode_head n
  rw [h] at hhead
  cases hhead

theorem isSpace_of_isDigit {c : Char} (h : (Decimal.digitValue c).isSome = true) :
    isWhitespace c = false ∧ Lib.isSpace c = false := by
  obtain ⟨d, hd⟩ := Option.isSome_iff_exists.mp h
  apply of_ascii (P := fun c => (Decimal.digitValue c).isSome = true → isWhitespace c = false ∧ Lib.isSpace c = false)
  · decide
  · exact digitValue_lt hd
  · exact h

theorem trimBy_encode {p : Char → Bool} (hp : ∀ c, (Decimal.digitValue c).isSome = true → p c = false) (n : ℕ) :
    trimBy p (Decimal.encode n) = Decimal.encode n := by
  have hvalue := Decimal.decode_encode n
  rw [decode_eq_valueFrom (encode_ne_nil n)] at hvalue
  apply trimBy_eq_self
  intro c hc
  exact hp c (isDigit_of_valueFrom hvalue c hc)

theorem beBytes_beNat (bytes : List UInt8) : beBytes bytes.length (beNat bytes) = bytes := by
  apply beNat_inj (length_beBytes _ _)
  rw [beNat_beBytes, Nat.mod_eq_of_lt (beNat_lt bytes)]

/-- Numbers are encoded again. -/
theorem uint_encode {p : Char → Bool} {len : ℕ} (hp : ∀ c, (Decimal.digitValue c).isSome = true → p c = false)
    (hlen : part.length = len) (hmax : 256 ^ len - 1 = max) :
    (uintText max (trimBy p (Decimal.encode (beNat part)))).map (beBytes len) = some part := by
  have hle : beNat part ≤ max := by
    have hlt := beNat_lt part
    rw [hlen] at hlt
    omega
  rw [trimBy_encode hp, uintText, if_neg (encode_ne_nil _), Decimal.decode_encode, Option.filter_some,
    if_pos (decide_eq_true hle), Option.map_some, ← hlen, beBytes_beNat]

theorem sdkKeyBytes_encode (hlen : part.length = 32) : sdkKeyBytes ("0x".toList ++ Hex.encode part) = some part := by
  have hdecode := Hex.decode_encode part
  have htrim : trimSpaces ("0x".toList ++ Hex.encode part) = "0x".toList ++ Hex.encode part := by
    apply trimBy_eq_self
    intro c hc
    rcases List.mem_append.mp hc with hc | hc
    · have hnone : "0x".toList.any Lib.isSpace = false := by decide
      exact Bool.eq_false_iff.mpr (List.any_eq_false.mp hnone c hc)
    · exact (isSpace_of_isHex (Hex.isSome_of_decode hdecode c hc)).2
  have hunits : Sdk.units (Sdk.replace0x ("0x".toList ++ Hex.encode part)) = (Hex.encode part).map Char.toNat :=
    units_of_lt (lt_of_hexDecode hdecode)
  have h64 : ((Hex.encode part).map Char.toNat).length = 64 := by
    rw [List.length_map, Hex.length_of_decode hdecode, hlen]
  rw [sdkKeyBytes, htrim, hunits, if_pos h64, parsePairs_of_hexDecode hdecode]

theorem bool_encode :
    fieldBytes Lib.isSpace .Bool (shown .Bool part) = some part ↔ part = [0] ∨ part = [1] := by
  have htrue : fieldBytes Lib.isSpace .Bool "true".toList = some [1] := by decide
  have hfalse : fieldBytes Lib.isSpace .Bool "false".toList = some [0] := by decide
  simp only [shown]
  by_cases hone : part = [1]
  · rw [if_pos hone, htrue, hone]
    simp
  · rw [if_neg hone, hfalse]
    simp [hone, eq_comm]

theorem string_encode (hwidth : HasWidth .String part) :
    textBytes .String (utf8Decode (part.drop 2)) = some part ↔ part.length ≤ 2 + MAX_STRING_VALUE_LEN ∧
      ∃ s : Str, asBytes s = part.drop 2 ∧ s.head? ≠ some byteOrderMark := by
  obtain ⟨header, body, hheader, hbody, rfl⟩ := hwidth
  have hdrop : (header ++ body).drop 2 = body := List.drop_left' hheader
  have hlength : beBytes 2 body.length = header := by
    rw [hbody, ← hheader, beBytes_beNat]
  have hagain : asBytes (utf8Decode body) = body ↔ ∃ s : Str, asBytes s = body ∧ s.head? ≠ some byteOrderMark :=
    utf8_utf8Decode_iff
  rw [hdrop, ← hagain, List.length_append, hheader, Nat.add_le_add_iff_left, textBytes]
  constructor
  · intro h
    split at h
    next => cases h
    next hshort =>
      obtain ⟨-, hsame⟩ := List.append_inj (Option.some.inj h) (by rw [length_beBytes, hheader])
      rw [hsame] at hshort
      exact ⟨Nat.le_of_not_lt hshort, hsame⟩
  · rintro ⟨hshort, hsame⟩
    rw [hsame, if_neg (Nat.not_lt_of_le hshort), hlength]

end Texts

section Encode

variable {engine : Sdk.Engine} {fields : List Sdk.FieldDef} {data : List UInt8}
  {parts : List (Sdk.FieldDef × List UInt8)} {fp : Sdk.FieldDef × List UInt8} {result : Dict Str Str}

theorem find_assign_of_ne {name name' text : Str} (h : name' ≠ name) :
    (Sdk.assign result name text).find name' = result.find name' := by
  unfold Sdk.assign
  split
  · rfl
  · exact Dict.find_set_of_ne result text h

theorem find_resultOf_of_not_mem {name : Str} (h : name ∉ parts.map fun fp => fp.1.name) :
    (resultOf result parts).find name = result.find name := by
  induction parts generalizing result with
  | nil => rfl
  | cons fp later ih =>
    rw [List.map_cons, List.mem_cons, not_or] at h
    exact (ih h.2).trans (find_assign_of_ne h.1)

/-- Each field's text is found under its name, but for the one name that cannot be assigned. -/
theorem find_resultOf (hdistinct : (parts.map fun fp => fp.1.name).Nodup) (hfp : fp ∈ parts) :
    (resultOf result parts).find fp.1.name =
      if fp.1.name = "__proto__".toList then result.find fp.1.name else some (shown fp.1.type fp.2) := by
  induction parts generalizing result with
  | nil => cases hfp
  | cons first later ih =>
    rw [List.map_cons, List.nodup_cons] at hdistinct
    rcases List.mem_cons.mp hfp with rfl | hfp
    · refine (find_resultOf_of_not_mem hdistinct.1).trans ?_
      show (Sdk.assign result fp.1.name (shown fp.1.type fp.2)).find fp.1.name = _
      unfold Sdk.assign
      split
      · rfl
      · exact Dict.find_set_self result _ _
    · have hne : fp.1.name ≠ first.1.name := by
        intro hsame
        rw [← hsame] at hdistinct
        exact hdistinct.1 (List.mem_map_of_mem hfp)
      refine (ih hdistinct.2 hfp).trans ?_
      rw [find_assign_of_ne hne]

/-- A field is accepted and encoded again exactly where its data are faithful. -/
theorem faithful_iff (hdistinct : (parts.map fun fp => fp.1.name).Nodup) (hfp : fp ∈ parts)
    (hwidth : HasWidth fp.1.type fp.2) :
    (accepted fp.1.type fp.2 = true ∧ sdkPart engine (resultOf [] parts) fp.1 = some fp.2) ↔
      Faithful engine fp.1 fp.2 := by
  have hfind := @find_resultOf parts fp [] hdistinct hfp
  obtain ⟨⟨id, name, ty⟩, part⟩ := fp
  simp only [sdkPart, Sdk.valueOf, Faithful] at hfind hwidth ⊢
  rw [hfind]
  by_cases hproto : name = "__proto__".toList
  · subst hproto
    have hmember : "__proto__".toList ∈ Sdk.prototypeMembers := by decide
    have hnone : Dict.find ([] : Dict Str Str) "__proto__".toList = none := rfl
    simp only [if_true, hnone, hmember, sdkFieldBytes]
    by_cases hty : ty = .String
    · subst hty
      simp only [if_true, true_and]
      constructor
      · exact fun h => h.2
      · intro h
        refine ⟨?_, h⟩
        simp only [textBytes] at h
        split at h
        next => cases h
        next hshort =>
          rw [← Option.some.inj h]
          simp only [accepted, List.length_append, length_beBytes, Nat.add_le_add_iff_left, decide_eq_true_eq]
          exact Nat.le_of_not_lt hshort
    · simp [hty]
  · simp only [if_neg hproto]
    cases ty with
    | Bool =>
      show accepted .Bool part = true ∧ fieldBytes Lib.isSpace .Bool (shown .Bool part) = some part ↔ _
      rw [bool_encode]
      constructor
      · exact fun h => h.2
      · rintro (rfl | rfl)
        · exact ⟨by decide, .inl rfl⟩
        · exact ⟨by decide, .inr rfl⟩
    | String =>
      show accepted .String part = true ∧ textBytes .String (utf8Decode (part.drop 2)) = some part ↔ _
      rw [string_encode hwidth]
      simp [accepted]
    | Pubkey => exact iff_of_true ⟨rfl, sdkKeyBytes_encode hwidth⟩ trivial
    | U8 => exact iff_of_true ⟨rfl, uint_encode (fun _ h => (isSpace_of_isDigit h).2) hwidth (by decide)⟩ trivial
    | U16 => exact iff_of_true ⟨rfl, uint_encode (fun _ h => (isSpace_of_isDigit h).2) hwidth (by decide)⟩ trivial
    | U32 => exact iff_of_true ⟨rfl, uint_encode (fun _ h => (isSpace_of_isDigit h).2) hwidth (by decide)⟩ trivial
    | U64 => exact iff_of_true ⟨rfl, uint_encode (fun _ h => (isSpace_of_isDigit h).2) hwidth (by decide)⟩ trivial

/-- The data are encoded again where each part is. -/
theorem encode_parts (hlaid : Laid fields data parts) (hshort : data.length ≤ MAX_ATTESTATION_DATA_LEN) :
    Sdk.encodeAttestationData engine result fields = .ok data ↔
      ∀ fp ∈ parts, sdkPart engine result fp.1 = some fp.2 := by
  rw [← toOption_eq_some_iff, sdkEncode_toOption, Option.filter_eq_some_iff, ← hlaid.fields_eq, gather_map]
  have hdata : gather (fun fp : Sdk.FieldDef × List UInt8 => some fp.2) parts = some data := by
    rw [gather_some, hlaid.data_eq]
  simp only [hshort, decide_true, and_true]
  constructor
  · intro h
    -- both are of the width of the field's type, so the data fall into the same parts
    exact eq_of_gather_eq (S := fun fp : Sdk.FieldDef × List UInt8 => HasWidth fp.1.type)
      (fun fp => prefixFree_hasWidth fp.1.type) (fun fp _ part => hasWidth_of_sdkFieldBytes)
      (fun fp hfp part hpart => Option.some.inj hpart ▸ hlaid.widths fp hfp) h hdata
  · intro h
    rw [← hdata]
    exact gather_congr h

/-- The validator and the decoder accept the same data, which are encoded again from what was decoded. -/
def DecodesAlike (engine : Sdk.Engine) (fields : List Sdk.FieldDef) (data : List UInt8) : Prop :=
  (validateAttestationData (fields.map fieldOf) data = .ok () ↔
      ∃ result, Sdk.decodeAttestationData data fields = .ok result) ∧
    ∀ result, validateAttestationData (fields.map fieldOf) data = .ok () →
      Sdk.decodeAttestationData data fields = .ok result →
        Sdk.encodeAttestationData engine result fields = .ok data

end Encode

/-- **The decoder agrees with the validator** on data that are cut off or left over, and on data of at most 512
bytes that are faithful in each field. -/
theorem decodesAlike_iff {engine : Sdk.Engine} {s : Str} {fields : List Sdk.FieldDef} {data : List UInt8}
    (hparse : parseFieldDefinitions s = .ok (fields.map fieldOf)) :
    DecodesAlike engine fields data ↔ ∀ parts, Laid fields data parts →
      data.length ≤ MAX_ATTESTATION_DATA_LEN ∧ ∀ fp ∈ parts, Faithful engine fp.1 fp.2 := by
  have hnames := (wellFormed_of_parse hparse).distinct
  by_cases hlaid : ∃ parts, Laid fields data parts
  · obtain ⟨parts, hlaid⟩ := hlaid
    have hdistinct : (parts.map fun fp => fp.1.name).Nodup := by
      have hmap : (fields.map fieldOf).map FieldDef.name = parts.map fun fp => fp.1.name := by
        rw [← hlaid.fields_eq, List.map_map, List.map_map]
        rfl
      rwa [← hmap]
    have hdecode : ∀ result, Sdk.decodeAttestationData data fields = .ok result ↔ result = resultOf [] parts := by
      intro result
      rw [decode_eq_ok]
      constructor
      · rintro ⟨parts', hlaid', rfl⟩
        rw [hlaid.unique hlaid']
      · rintro rfl
        exact ⟨parts, hlaid, rfl⟩
    have hvalidate : validateAttestationData (fields.map fieldOf) data = .ok () ↔
        data.length ≤ MAX_ATTESTATION_DATA_LEN ∧ ∀ fp ∈ parts, accepted fp.1.type fp.2 = true := by
      rw [validate_eq_ok]
      constructor
      · rintro ⟨hshort, parts', hlaid', hall⟩
        rw [hlaid.unique hlaid']
        exact ⟨hshort, hall⟩
      · rintro ⟨hshort, hall⟩
        exact ⟨hshort, parts, hlaid, hall⟩
    have hall : (∀ parts', Laid fields data parts' → data.length ≤ MAX_ATTESTATION_DATA_LEN ∧
        ∀ fp ∈ parts', Faithful engine fp.1 fp.2) ↔
          data.length ≤ MAX_ATTESTATION_DATA_LEN ∧ ∀ fp ∈ parts, Faithful engine fp.1 fp.2 := by
      constructor
      · exact fun h => h parts hlaid
      · intro h parts' hlaid'
        rwa [← hlaid.unique hlaid']
    rw [hall]
    constructor
    · rintro ⟨haccept, hagain⟩
      have hok := haccept.mpr ⟨_, (hdecode _).mpr rfl⟩
      obtain ⟨hshort, haccepted⟩ := hvalidate.mp hok
      have hparts := (encode_parts hlaid hshort).mp (hagain _ hok ((hdecode _).mpr rfl))
      exact ⟨hshort, fun fp hfp => (faithful_iff hdistinct hfp (hlaid.widths fp hfp)).mp
        ⟨haccepted fp hfp, hparts fp hfp⟩⟩
    · rintro ⟨hshort, hfaithful⟩
      have hboth := fun fp hfp => (faithful_iff hdistinct hfp (hlaid.widths fp hfp)).mpr (hfaithful fp hfp)
      have hok := hvalidate.mpr ⟨hshort, fun fp hfp => (hboth fp hfp).1⟩
      refine ⟨iff_of_true hok ⟨_, (hdecode _).mpr rfl⟩, ?_⟩
      intro result _ hresult
      rw [(hdecode result).mp hresult]
      exact (encode_parts hlaid hshort).mpr fun fp hfp => (hboth fp hfp).2
  · -- both refuse
    have hnone : ¬ validateAttestationData (fields.map fieldOf) data = .ok () := by
      rw [validate_eq_ok]
      rintro ⟨-, parts, hparts, -⟩
      exact hlaid ⟨parts, hparts⟩
    have hrefused : ¬ ∃ result, Sdk.decodeAttestationData data fields = .ok result := by
      rintro ⟨result, hresult⟩
      obtain ⟨parts, hparts, -⟩ := decode_eq_ok.mp hresult
      exact hlaid ⟨parts, hparts⟩
    refine iff_of_true ⟨iff_of_false hnone hrefused, fun result hok => absurd hok hnone⟩ ?_
    exact fun parts hparts => absurd ⟨parts, hparts⟩ hlaid

/-- As the language shows its objects. -/
def Demo.engine : Sdk.Engine where
  toString _ := "[object Object]".toList
  toString_ne_nil _ := by decide

theorem decodesAlike_flag : DecodesAlike Demo.engine [⟨"0".toList, "a".toList, .Bool⟩] [1] ↔
    ∀ parts, Laid [⟨"0".toList, "a".toList, .Bool⟩] [1] parts →
      [(1 : UInt8)].length ≤ MAX_ATTESTATION_DATA_LEN ∧ ∀ fp ∈ parts, Faithful Demo.engine fp.1 fp.2 :=
  decodesAlike_iff (s := "bool a".toList) (by decide)

/-- The SDK decodes a boolean 2, and a string that is not UTF-8 it decodes but does not encode again. -/
theorem decodes_otherwise :
    (parseFieldDefinitions "bool a".toList = .ok [⟨"a".toList, .Bool⟩] ∧
      ¬ DecodesAlike Demo.engine [⟨"0".toList, "a".toList, .Bool⟩] [2]) ∧
    parseFieldDefinitions "string s".toList = .ok [⟨"s".toList, .String⟩] ∧
      ¬ DecodesAlike Demo.engine [⟨"0".toList, "s".toList, .String⟩] [0, 1, 0xFF] := by
  refine ⟨⟨by decide, ?_⟩, by decide, ?_⟩
  · rintro ⟨haccept, -⟩
    have hdecode : Sdk.decodeAttestationData [2] [⟨"0".toList, "a".toList, .Bool⟩] =
        .ok [("a".toList, "false".toList)] := by decide
    have hvalidate : validateAttestationData [⟨"a".toList, .Bool⟩] [2] = .error .InvalidBool := by decide
    have hok := haccept.mpr ⟨_, hdecode⟩
    cases hvalidate.symm.trans hok
  · rintro ⟨-, hagain⟩
    have hvalidate : validateAttestationData [⟨"s".toList, .String⟩] [0, 1, 0xFF] = .ok () := by decide
    have hdecode : Sdk.decodeAttestationData [0, 1, 0xFF] [⟨"0".toList, "s".toList, .String⟩] =
        .ok [("s".toList, [Char.ofNat 0xFFFD])] := by decide +kernel
    have hencode : Sdk.encodeAttestationData Demo.engine [("s".toList, [Char.ofNat 0xFFFD])]
        [⟨"0".toList, "s".toList, .String⟩] = .ok [0, 3, 0xEF, 0xBF, 0xBD] := by decide
    have hsame := (hagain _ hvalidate hdecode).symm.trans hencode
    exact absurd (Except.ok.inj hsame) (by decide)

end OpaqueStellar.Schemas
