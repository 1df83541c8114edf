import OpaqueStellar.Schemas.Decoding

/-! # The grammar of attestation data

What `validate_attestation_data` accepts is a well-formed part for each field, in order, and nothing else. What
`encode_attestation_data_from_strings` writes are such data, and they fall into parts in one way only. -/

namespace OpaqueStellar.Schemas

open OpaqueStellar.Lib OpaqueStellar.Soroban

/-- The bytes of a value: a flag, a number or a key of its width, or a text behind its length. The validator does
not look at the bytes of a text. -/
def WellFormedPart : FieldType → List UInt8 → Prop
  | .Bool, part => part = [0] ∨ part = [1]
  | .U8, part => part.length = 1
  | .U16, part => part.length = 2
  | .U32, part => part.length = 4
  | .U64, part => part.length = 8
  | .String, part => ∃ text : List UInt8, text.length ≤ MAX_STRING_VALUE_LEN ∧ part = beBytes 2 text.length ++ text
  | .Pubkey, part => part.length = 32

/-- The data are a well-formed part for each field, in order, with nothing left over. -/
structure Splits (fields : List FieldDef) (data : List UInt8) (parts : List (List UInt8)) : Prop where
  wellFormed : List.Forall₂ (fun field part => WellFormedPart field.ty part) fields parts
  flatten_eq : parts.flatten = data

/-! ## One part -/

section Part

variable {ty : FieldType} {part : List UInt8} {v : Str}

theorem eq_singleton_of_le_one (hlength : part.length = 1) (hle : part.headD 0 ≤ 1) : part = [0] ∨ part = [1] := by
  obtain ⟨b, rfl⟩ := List.length_eq_one_iff.mp hlength
  have hb : b.toNat ≤ 1 := hle
  rcases Nat.le_one_iff_eq_zero_or_eq_one.mp hb with h | h
  · exact .inl (congrArg (fun b => [b]) (UInt8.toNat_inj.mp h))
  · exact .inr (congrArg (fun b => [b]) (UInt8.toNat_inj.mp h))

theorem wellFormedPart_iff : WellFormedPart ty part ↔ HasWidth ty part ∧ accepted ty part = true := by
  cases ty with
  | Bool =>
    constructor
    · rintro (rfl | rfl)
      · exact ⟨rfl, by decide⟩
      · exact ⟨rfl, by decide⟩
    · rintro ⟨hlength, haccepted⟩
      exact eq_singleton_of_le_one hlength (of_decide_eq_true haccepted)
  | String =>
    simp only [WellFormedPart, HasWidth, accepted, decide_eq_true_eq]
    constructor
    · rintro ⟨text, hshort, rfl⟩
      have hmax : MAX_STRING_VALUE_LEN = 128 := rfl
      refine ⟨⟨_, text, length_beBytes 2 _, ?_, rfl⟩, ?_⟩
      · rw [beNat_beBytes, Nat.mod_eq_of_lt (by omega)]
      · rw [List.length_append, length_beBytes]
        omega
    · rintro ⟨⟨header, text, hheader, htext, rfl⟩, hshort⟩
      rw [List.length_append, hheader] at hshort
      refine ⟨text, by omega, ?_⟩
      rw [htext, ← hheader, beBytes_beNat]
  | _ => exact ⟨fun h => ⟨h, rfl⟩, fun h => h.1⟩

theorem wellFormedPart_of_textBytes (h : textBytes ty v = some part) : WellFormedPart ty part := by
  rw [wellFormedPart_iff]
  refine ⟨hasWidth_of_textBytes h, ?_⟩
  cases ty with
  | Bool =>
    obtain ⟨b, -, rfl⟩ := Option.map_eq_some_iff.mp h
    cases b with
    | false => decide
    | true => decide
  | String =>
    simp only [textBytes] at h
    split at h
    next => cases h
    next hshort =>
      obtain rfl := Option.some.inj h
      simp only [accepted, List.length_append, length_beBytes, decide_eq_true_eq]
      omega
  | _ => rfl

theorem wellFormedPart_of_fieldBytes {p : Char → Bool} (h : fieldBytes p ty v = some part) :
    WellFormedPart ty part := by
  unfold fieldBytes at h
  split at h
  · exact wellFormedPart_of_textBytes h
  · exact wellFormedPart_of_textBytes h

/-! ### The parts that the encoder writes -/

theorem keyText_encode (hlength : part.length = 32) : keyText (trim ("0x".toList ++ Hex.encode part)) = some part := by
  have hdecode := Hex.decode_encode part
  have htrim : trim ("0x".toList ++ Hex.encode part) = "0x".toList ++ Hex.encode part := by
    apply trimBy_eq_self
    intro c hc
    rcases List.mem_append.mp hc with hc | hc
    · have hnone : "0x".toList.any isWhitespace = false := by decide
      exact Bool.eq_false_iff.mpr (List.any_eq_false.mp hnone c hc)
    · exact (isSpace_of_isHex (Hex.isSome_of_decode hdecode c hc)).1
  have hstrip : strip0x ("0x".toList ++ Hex.encode part) = Hex.encode part := rfl
  have h64 : (Hex.encode part).length = 64 := by
    rw [Hex.length_of_decode hdecode, hlength]
  rw [htrim, keyText, hstrip, if_pos h64, hdecode]

/-- A text that has the value. -/
def writtenAs (ty : FieldType) (part : List UInt8) : Str :=
  match ty with
  | .Bool => if part = [1] then "true".toList else "false".toList
  | .Pubkey => "0x".toList ++ Hex.encode part
  | _ => Decimal.encode (beNat part)

theorem fieldBytes_writtenAs (hty : ty ≠ .String) (h : WellFormedPart ty part) :
    fieldBytes isWhitespace ty (writtenAs ty part) = some part := by
  have hdigit : ∀ c, (Decimal.digitValue c).isSome = true → isWhitespace c = false :=
    fun c hc => (isSpace_of_isDigit hc).1
  cases ty with
  | Bool => rcases h with rfl | rfl <;> decide
  | String => exact absurd rfl hty
  | Pubkey => exact keyText_encode h
  | U8 => exact uint_encode hdigit h (by decide)
  | U16 => exact uint_encode hdigit h (by decide)
  | U32 => exact uint_encode hdigit h (by decide)
  | U64 => exact uint_encode hdigit h (by decide)

/-- **The encoder writes every well-formed part**, but for the strings that are no text. -/
theorem encodeFieldValue_iff : (∃ value, encodeFieldValue [] ty value = .ok part) ↔
    WellFormedPart ty part ∧ (ty = .String → ∃ s : Str, asBytes s = part.drop 2) := by
  have hbytes : ∀ value, encodeFieldValue [] ty value = .ok part ↔ fieldBytes isWhitespace ty value = some part := by
    intro value
    rw [← toOption_eq_some_iff, encodeFieldValue_toOption]
    simp only [List.nil_append, Option.map_id']
  simp only [hbytes]
  constructor
  · rintro ⟨value, h⟩
    refine ⟨wellFormedPart_of_fieldBytes h, ?_⟩
    rintro rfl
    simp only [fieldBytes, if_true, textBytes] at h
    split at h
    next => cases h
    next =>
      obtain rfl := Option.some.inj h
      exact ⟨value, (List.drop_left' (length_beBytes 2 _)).symm⟩
  · rintro ⟨hpart, htext⟩
    by_cases hty : ty = .String
    · obtain ⟨s, hs⟩ := htext hty
      subst hty
      obtain ⟨text, hshort, rfl⟩ := hpart
      rw [List.drop_left' (length_beBytes 2 _)] at hs
      refine ⟨s, ?_⟩
      simp only [fieldBytes, if_true, textBytes, hs]
      rw [if_neg (Nat.not_lt_of_le hshort)]
    · exact ⟨writtenAs ty part, fieldBytes_writtenAs hty hpart⟩

end Part

/-! ## The whole data -/

section Data

variable {fields : List FieldDef} {data out : List UInt8} {parts parts' : List (List UInt8)} {values : Dict Str Str}

/-- The crate's field as the SDK has it. -/
def sdkField (field : FieldDef) : Sdk.FieldDef := ⟨[], field.name, field.ty⟩

theorem map_fieldOf_sdkField (fields : List FieldDef) : (fields.map sdkField).map fieldOf = fields := by
  rw [List.map_map]
  exact List.map_id _

/-- The parts of the walk, with the checks of the validator. -/
theorem splits_iff : Splits fields data parts ↔ ∃ laid, Laid (fields.map sdkField) data laid ∧
    (∀ fp ∈ laid, accepted fp.1.type fp.2 = true) ∧ laid.map Prod.snd = parts := by
  have hparts : List.Forall₂ (fun field part => WellFormedPart (FieldDef.ty field) part) fields parts ↔
      List.Forall₂ (fun field part => WellFormedPart (Sdk.FieldDef.type field) part) (fields.map sdkField) parts := by
    rw [List.forall₂_map_left_iff]
    rfl
  constructor
  · rintro ⟨hwell, rfl⟩
    obtain ⟨laid, hfields, rfl, hall⟩ := forall₂_iff_pairs.mp (hparts.mp hwell)
    have hboth := fun fp hfp => wellFormedPart_iff.mp (hall fp hfp)
    exact ⟨laid, ⟨hfields, fun fp hfp => (hboth fp hfp).1, List.flatMap_def⟩, fun fp hfp => (hboth fp hfp).2, rfl⟩
  · rintro ⟨laid, hlaid, haccepted, rfl⟩
    refine ⟨hparts.mpr (forall₂_iff_pairs.mpr ⟨laid, hlaid.fields_eq, rfl, ?_⟩), ?_⟩
    · exact fun fp hfp => wellFormedPart_iff.mpr ⟨hlaid.widths fp hfp, haccepted fp hfp⟩
    · rw [← List.flatMap_def, hlaid.data_eq]

theorem Splits.unique (h : Splits fields data parts) (h' : Splits fields data parts') : parts = parts' := by
  obtain ⟨laid, hlaid, -, rfl⟩ := splits_iff.mp h
  obtain ⟨laid', hlaid', -, rfl⟩ := splits_iff.mp h'
  rw [hlaid.unique hlaid']

theorem validate_iff_splits : validateAttestationData fields data = .ok () ↔
    data.length ≤ MAX_ATTESTATION_DATA_LEN ∧ ∃ parts, Splits fields data parts := by
  have hvalidate := @validate_eq_ok (fields.map sdkField) data
  rw [map_fieldOf_sdkField] at hvalidate
  rw [hvalidate]
  constructor
  · rintro ⟨hshort, laid, hlaid, haccepted⟩
    exact ⟨hshort, _, splits_iff.mpr ⟨laid, hlaid, haccepted, rfl⟩⟩
  · rintro ⟨hshort, parts, hparts⟩
    obtain ⟨laid, hlaid, haccepted, -⟩ := splits_iff.mp hparts
    exact ⟨hshort, laid, hlaid, haccepted⟩

theorem splits_of_encode (h : encodeAttestationDataFromStrings fields values = .ok out) :
    out.length ≤ MAX_ATTESTATION_DATA_LEN ∧ ∃ parts, Splits fields out parts := by
  have hencode := @encode_toOption values (fields.map sdkField)
  rw [map_fieldOf_sdkField, toOption_eq_some_iff.mpr h] at hencode
  obtain ⟨hgather, hshort⟩ := Option.filter_eq_some_iff.mp hencode.symm
  obtain ⟨parts, hparts, hflatten⟩ := gather_eq_some.mp hgather
  rw [List.forall₂_map_left_iff] at hparts
  refine ⟨of_decide_eq_true hshort, parts, ?_, hflatten⟩
  exact hparts.imp fun field part hpart => wellFormedPart_of_fieldBytes hpart

end Data

/-- **The grammar of attestation data**: what the encoder writes is accepted, and accepted are the data that fall
into well-formed parts, one for each field, which they do in one way only. -/
theorem attestation_grammar (fields : List FieldDef) :
    (∀ values out, encodeAttestationDataFromStrings fields values = .ok out →
      validateAttestationData fields out = .ok ()) ∧
    ∀ data, (validateAttestationData fields data = .ok () ↔
        data.length ≤ MAX_ATTESTATION_DATA_LEN ∧ ∃ parts, Splits fields data parts) ∧
      ∀ parts parts', Splits fields data parts → Splits fields data parts' → parts = parts' := by
  refine ⟨?_, ?_⟩
  · intro values out h
    exact validate_iff_splits.mpr (splits_of_encode h)
  · intro data
    exact ⟨validate_iff_splits, fun _ _ => Splits.unique⟩

end OpaqueStellar.Schemas
