import OpaqueStellar.Lib.Fields
import OpaqueStellar.Schemas.Encoding

/-! # Where the SDK mirrors the crate

Both encoders go through the fields alike, so they agree where they agree on each field. -/

namespace OpaqueStellar.Schemas

open OpaqueStellar.Lib OpaqueStellar.Soroban

/-! ## One value -/

section Values

variable {c : Char} {ty : FieldType} {t v : Str} {bytes : List UInt8}

theorem strip0x_cases (t : Str) : (∃ rest, t = '0' :: 'x' :: rest ∧ strip0x t = rest) ∨ strip0x t = t := by
  unfold strip0x
  split
  next rest => exact .inl ⟨rest, rfl, rfl⟩
  next => exact .inr rfl

theorem mem_strip0x (hc : c ∈ t) : c = '0' ∨ c = 'x' ∨ c ∈ strip0x t := by
  rcases strip0x_cases t with ⟨rest, rfl, hstrip⟩ | hstrip
  · rwa [hstrip, ← List.mem_cons, ← List.mem_cons]
  · rw [hstrip]
    exact .inr (.inr hc)

theorem lt_of_keyText (h : keyText t = some bytes) : ∀ c ∈ t, c.toNat < 128 := by
  unfold keyText at h
  split at h
  · intro c hc
    rcases mem_strip0x hc with rfl | rfl | hc
    · decide
    · decide
    · exact lt_of_hexDecode h c hc
  · cases h

theorem lt_of_uintText {max n : ℕ} (h : uintText max t = some n) : ∀ c ∈ t, c.toNat < 128 := by
  unfold uintText at h
  split at h
  next hblank => simp [hblank]
  next hblank =>
    rw [decode_eq_valueFrom hblank, Option.filter_eq_some_iff] at h
    exact lt_of_valueFrom h.1

theorem lt_of_boolText {b : Bool} (h : boolText t = some b) : ∀ c ∈ t, c.toNat < 128 := by
  have hall : ∀ s ∈ ["true".toList, "1".toList, "false".toList, "0".toList, []],
      s.all (fun c => decide (c.toNat < 128)) = true := by
    decide
  simp only [List.all_eq_true, decide_eq_true_eq] at hall
  apply hall
  unfold boolText at h
  split at h
  next htrue => rcases htrue with rfl | rfl <;> simp
  next =>
    split at h
    next hfalse => rcases hfalse with rfl | rfl | rfl <;> simp
    next => cases h

/-- Other values than strings are ASCII. -/
theorem lt_of_textBytes (hty : ty ≠ .String) (h : textBytes ty t = some bytes) : ∀ c ∈ t, c.toNat < 128 := by
  cases ty with
  | Bool =>
    obtain ⟨b, hb, -⟩ := Option.map_eq_some_iff.mp h
    exact lt_of_boolText hb
  | String => exact absurd rfl hty
  | Pubkey => exact lt_of_keyText h
  | _ =>
    obtain ⟨n, hn, -⟩ := Option.map_eq_some_iff.mp h
    exact lt_of_uintText hn

theorem reader_textBytes (hty : ty ≠ .String) : Reader fun p v => textBytes ty (trimBy p v) where
  lt p v bytes h c hc := by
    rcases mem_trimBy_or (p := p) hc with hc | hc
    · exact .inr (lt_of_textBytes hty h c hc)
    · exact .inl hc
  congr p q v h := by
    show textBytes ty (trimBy p v) = textBytes ty (trimBy q v)
    rw [trimBy_congr h]

/-! ### Keys -/

def isHex (c : Char) : Bool := (Hex.digitValue c).isSome

/-- Digits of a key, and the character that only Rust trims. -/
def isKeyPart (c : Char) : Bool := isHex c || c == nextLine

theorem countP_lt_countP {p q : Char → Bool} (h : ∀ c, p c = true → q c = true) (hc : c ∈ t) (hp : p c = false)
    (hq : q c = true) : t.countP p < t.countP q := by
  obtain ⟨before, after, rfl⟩ := List.append_of_mem hc
  have hbefore : before.countP p ≤ before.countP q := List.countP_mono_left fun c _ => h c
  have hafter : after.countP p ≤ after.countP q := List.countP_mono_left fun c _ => h c
  rw [List.countP_append, List.countP_append, List.countP_cons_of_pos hq,
    List.countP_cons_of_neg (by rw [hp]; decide)]
  omega

theorem countP_trimBy {p q : Char → Bool} (h : ∀ c, q c = true → p c = false) (s : Str) :
    (trimBy p s).countP q = s.countP q := by
  have hdrop : ∀ s : Str, (s.dropWhile p).countP q = s.countP q := by
    intro s
    induction s with
    | nil => rfl
    | cons c s ih =>
      rw [List.dropWhile_cons]
      split
      next hp =>
        have hq : ¬ q c = true := by
          intro hq
          rw [h c hq] at hp
          cases hp
        rw [ih, List.countP_cons_of_neg hq]
      next => rfl
  rw [trimBy, List.countP_reverse, hdrop, List.countP_reverse, hdrop]

theorem length_le_units (s : Str) : s.length ≤ (Sdk.units s).length := by
  induction s with
  | nil => exact Nat.le_refl 0
  | cons c s ih =>
    simp only [Sdk.units, List.flatMap_cons, List.length_append, List.length_cons] at ih ⊢
    split
    · simp only [List.length_singleton]
      omega
    · simp only [List.length_cons, List.length_nil]
      omega

theorem units_of_lt (h : ∀ c ∈ t, c.toNat < 128) : Sdk.units t = t.map Char.toNat := by
  induction t with
  | nil => rfl
  | cons c t ih =>
    rw [List.forall_mem_cons] at h
    have hc : c.toNat < 0x10000 := by omega
    rw [Sdk.units, List.flatMap_cons, if_pos hc, List.map_cons, ← ih h.2]
    rfl

theorem isSpace_of_isHex (h : isHex c = true) : isWhitespace c = false ∧ Lib.isSpace c = false := by
  obtain ⟨d, hd⟩ := Option.isSome_iff_exists.mp h
  apply of_ascii (P := fun c => isHex c = true → isWhitespace c = false ∧ Lib.isSpace c = false)
  · decide
  · exact (hexValue_lt hd).1
  · exact h

theorem isSpace_of_isKeyPart (h : isKeyPart c = true) : Lib.isSpace c = false := by
  rw [isKeyPart, Bool.or_eq_true, beq_iff_eq] at h
  rcases h with h | rfl
  · exact (isSpace_of_isHex h).2
  · decide

theorem countP_replace0x (s : Str) : s.countP isKeyPart ≤ (Sdk.replace0x s).countP isKeyPart + 1 := by
  have hzero : isKeyPart '0' = true := by decide
  have hlower : ¬ isKeyPart 'x' = true := by decide
  have hupper : ¬ isKeyPart 'X' = true := by decide
  unfold Sdk.replace0x
  split
  · rw [List.countP_cons_of_pos hzero, List.countP_cons_of_neg hlower]
  · rw [List.countP_cons_of_pos hzero, List.countP_cons_of_neg hupper]
  · exact Nat.le_succ _

theorem replace0x_eq_self (hlower : 'x' ∉ t) (hupper : 'X' ∉ t) : Sdk.replace0x t = t := by
  unfold Sdk.replace0x
  split
  · simp at hlower
  · simp at hupper
  · rfl

/-- The SDK takes the character that it does not trim for part of the key. -/
theorem lt_units_of_nextLine (hkey : keyText (trim v) = some bytes) (hline : nextLine ∈ v) :
    64 < (Sdk.units (Sdk.replace0x (trimSpaces v))).length := by
  have hv : v.countP isHex < v.countP isKeyPart := by
    apply countP_lt_countP _ hline (by decide) (by decide)
    intro c hc
    rw [isKeyPart, hc, Bool.true_or]
  have hrust : (trim v).countP isHex = v.countP isHex :=
    countP_trimBy (fun c hc => (isSpace_of_isHex hc).1) v
  have hsdk : (trimSpaces v).countP isKeyPart = v.countP isKeyPart :=
    countP_trimBy (fun c hc => isSpace_of_isKeyPart hc) v
  have hdigits : ∀ {t : Str}, Hex.decode t = some bytes → t.countP isHex = t.length := fun h =>
    List.countP_eq_length.mpr (Hex.isSome_of_decode h)
  have hlength : 64 < (Sdk.replace0x (trimSpaces v)).countP isKeyPart := by
    have hdropped := countP_replace0x (trimSpaces v)
    unfold keyText at hkey
    split at hkey
    next h64 =>
      rcases strip0x_cases (trim v) with ⟨rest, heq, hstrip⟩ | hstrip
      · -- the digit of the marker makes up for what the SDK strips
        rw [hstrip] at hkey h64
        rw [heq, List.countP_cons_of_pos (by decide), List.countP_cons_of_neg (by decide), hdigits hkey] at hrust
        omega
      · rw [hstrip] at hkey h64
        have hno : ∀ c, isHex c = false → isWhitespace c = false → c ∉ trimSpaces v := by
          intro c hhex hspace hc
          rcases mem_trimBy_or (p := isWhitespace) (mem_of_mem_trimBy hc) with hc | hc
          · have hall := Hex.isSome_of_decode hkey c hc
            rw [← isHex, hhex] at hall
            cases hall
          · rw [hspace] at hc
            cases hc
        rw [replace0x_eq_self (hno 'x' (by decide) (by decide)) (hno 'X' (by decide) (by decide)), hsdk]
        have hcount := hdigits hkey
        omega
    next => cases hkey
  have hle := List.countP_le_length (p := isKeyPart) (l := Sdk.replace0x (trimSpaces v))
  have hunits := length_le_units (Sdk.replace0x (trimSpaces v))
  omega

theorem parsePairs_of_hexDecode (h : Hex.decode t = some bytes) : Sdk.parsePairs (t.map Char.toNat) = bytes := by
  let hexUnits := List.range' 48 10 ++ List.range' 97 6 ++ List.range' 65 6
  have hunit : ∀ n < 128, isHex (Char.ofNat n) = true → n ∈ hexUnits := by decide
  have hpair : ∀ m ∈ hexUnits, ∀ n ∈ hexUnits, Sdk.toUint8 (Sdk.parseInt [m, n]) =
      UInt8.ofNat (16 * (Hex.digitValue (Char.ofNat m)).getD 0 + (Hex.digitValue (Char.ofNat n)).getD 0) := by
    decide
  have hmem : ∀ (c : Char) (d : ℕ), Hex.digitValue c = some d → c.toNat ∈ hexUnits := by
    intro c d hd
    apply hunit c.toNat (hexValue_lt hd).1
    rw [Char.ofNat_toNat, isHex, hd]
    rfl
  induction t using Hex.decode.induct generalizing bytes with
  | case1 =>
    obtain rfl := Option.some.inj h
    rfl
  | case2 a => cases h
  | case3 a b rest ih =>
    obtain ⟨high, low, more, hhigh, hlow, hmore, rfl⟩ := Hex.decode_cons_eq_some.mp h
    rw [List.map_cons, List.map_cons, Sdk.parsePairs, ih hmore,
      hpair a.toNat (hmem a high hhigh) b.toNat (hmem b low hlow), Char.ofNat_toNat, Char.ofNat_toNat, hhigh,
      hlow]
    rfl

/-- No key that the crate takes is padded with U+0085, and what it refuses has not 64 units for the SDK. -/
def KeyAlike (v : Str) : Prop :=
  (nextLine ∈ v → keyText (trim v) = none) ∧
    (keyText (trim v) = none → (Sdk.units (Sdk.replace0x (trimSpaces v))).length ≠ 64)

theorem sdkKeyBytes_of_keyText (hkey : keyText (trim v) = some bytes) (hline : nextLine ∉ v) :
    sdkKeyBytes v = some bytes := by
  have hmark : byteOrderMark ∉ v := by
    intro hmem
    rcases mem_trimBy_or (p := isWhitespace) hmem with hmem | hspace
    · exact absurd (lt_of_keyText hkey _ hmem) (by decide)
    · exact absurd hspace (by decide)
  have htrim : trim v = trimSpaces v := trimBy_congr fun c hc =>
    isWhitespace_eq (fun h => hline (h ▸ hc)) fun h => hmark (h ▸ hc)
  rw [htrim] at hkey
  unfold keyText at hkey
  split at hkey
  next h64 =>
    have hstrip : Sdk.replace0x (trimSpaces v) = strip0x (trimSpaces v) := by
      rcases strip0x_cases (trimSpaces v) with ⟨rest, heq, hstrip⟩ | hstrip
      · rw [heq]
        rfl
      · rw [hstrip] at hkey ⊢
        apply replace0x_eq_self
        · exact fun hx => absurd (Hex.isSome_of_decode hkey 'x' hx) (by decide)
        · exact fun hX => absurd (Hex.isSome_of_decode hkey 'X' hX) (by decide)
    have hunits := units_of_lt (lt_of_hexDecode hkey)
    rw [sdkKeyBytes, hstrip, hunits, List.length_map, if_pos h64, parsePairs_of_hexDecode hkey]
  next => cases hkey

theorem keyAlike_iff : keyText (trim v) = sdkKeyBytes v ↔ KeyAlike v := by
  cases hkey : keyText (trim v) with
  | none => simp [KeyAlike, hkey, sdkKeyBytes, eq_comm]
  | some bytes =>
    by_cases hline : nextLine ∈ v
    · have hlong := lt_units_of_nextLine hkey hline
      have hne : (Sdk.units (Sdk.replace0x (trimSpaces v))).length ≠ 64 := by omega
      simp [KeyAlike, hkey, hline, sdkKeyBytes, hne]
    · simp [KeyAlike, hkey, hline, sdkKeyBytes_of_keyText hkey hline]

end Values

/-! ## Bytes of a type -/

/-- The bytes that a field of the type can have. -/
def HasWidth : FieldType → List UInt8 → Prop
  | .Bool, bytes => bytes.length = 1
  | .U8, bytes => bytes.length = 1
  | .U16, bytes => bytes.length = 2
  | .U32, bytes => bytes.length = 4
  | .U64, bytes => bytes.length = 8
  | .String, bytes => ∃ header body, header.length = 2 ∧ body.length = beNat header ∧ bytes = header ++ body
  | .Pubkey, bytes => bytes.length = 32

theorem prefixFree_hasWidth (ty : FieldType) : PrefixFree (HasWidth ty) := by
  cases ty with
  | String => exact prefixFree_header 2 beNat
  | _ => exact prefixFree_length _

section Widths

variable {engine : Sdk.Engine} {ty : FieldType} {t v : Str} {bytes : List UInt8}

theorem hasWidth_uint {max len : ℕ} (h : (uintText max t).map (beBytes len) = some bytes) :
    bytes.length = len := by
  obtain ⟨n, -, rfl⟩ := Option.map_eq_some_iff.mp h
  exact length_beBytes len n

theorem hasWidth_of_textBytes (h : textBytes ty t = some bytes) : HasWidth ty bytes := by
  cases ty with
  | Bool =>
    obtain ⟨b, -, rfl⟩ := Option.map_eq_some_iff.mp h
    rfl
  | String =>
    simp only [textBytes] at h
    split at h
    next => cases h
    next hlen =>
      obtain rfl := Option.some.inj h
      refine ⟨_, _, length_beBytes 2 _, ?_, rfl⟩
      rw [beNat_beBytes, Nat.mod_eq_of_lt]
      have hmax : MAX_STRING_VALUE_LEN = 128 := rfl
      omega
  | Pubkey =>
    simp only [textBytes, keyText] at h
    split at h
    next h64 =>
      have hlength := Hex.length_of_decode h
      show bytes.length = 32
      omega
    next => cases h
  | _ => exact hasWidth_uint h

theorem hasWidth_of_fieldBytes {p : Char → Bool} (h : fieldBytes p ty v = some bytes) : HasWidth ty bytes := by
  unfold fieldBytes at h
  split at h
  · exact hasWidth_of_textBytes h
  · exact hasWidth_of_textBytes h

theorem length_parsePairs (units : List ℕ) : (Sdk.parsePairs units).length = units.length / 2 := by
  induction units using Sdk.parsePairs.induct with
  | case1 a b rest ih =>
    rw [Sdk.parsePairs, List.length_cons, List.length_cons, List.length_cons, ih]
    omega
  | case2 units hshort =>
    rw [Sdk.parsePairs]
    · cases units with
      | nil => rfl
      | cons a units =>
        cases units with
        | nil => simp
        | cons b rest => exact absurd rfl (hshort a b rest)
    · exact hshort

theorem hasWidth_of_sdkFieldBytes {value : Sdk.Value} (h : sdkFieldBytes engine ty value = some bytes) :
    HasWidth ty bytes := by
  cases value with
  | text v =>
    simp only [sdkFieldBytes] at h
    split at h
    next hty =>
      rw [hty]
      unfold sdkKeyBytes at h
      split at h
      next h64 =>
        obtain rfl := Option.some.inj h
        show (Sdk.parsePairs _).length = 32
        rw [length_parsePairs, h64]
      next => cases h
    next => exact hasWidth_of_fieldBytes h
  | member name =>
    simp only [sdkFieldBytes] at h
    split at h
    next hty =>
      rw [hty]
      exact hasWidth_of_textBytes h
    next => cases h

end Widths

/-! ## Where the encoders agree -/

/-- Whether both encoders treat the text of a value alike. -/
def TextAlike (ty : FieldType) (v : Str) : Prop :=
  match ty with
  | .String => True
  | .Pubkey => KeyAlike v
  | ty => (nextLine ∈ v → textBytes ty (trim v) = none) ∧
      (byteOrderMark ∈ v → textBytes ty (trimSpaces v) = none)

/-- Where there is no value, the SDK must not find a member of `Object.prototype` in its place; a key is
refused then by both. -/
def Alike (values : Dict Str Str) (field : Sdk.FieldDef) : Prop :=
  match values.find field.name with
  | some v => TextAlike field.type v
  | none => field.name ∈ Sdk.prototypeMembers → field.type = .Pubkey

/-- What the crate writes for a field. -/
def rustPart (values : Dict Str Str) (field : Sdk.FieldDef) : Option (List UInt8) :=
  fieldBytes isWhitespace field.type ((values.find field.name).getD [])

/-- What the SDK writes for a field. -/
def sdkPart (engine : Sdk.Engine) (values : Dict Str Str) (field : Sdk.FieldDef) : Option (List UInt8) :=
  sdkFieldBytes engine field.type (Sdk.valueOf values field.name)

/-- A value that is none of its type, or too many bytes altogether. -/
def Refused (part : Sdk.FieldDef → Option (List UInt8)) (fields : List Sdk.FieldDef) : Prop :=
  (∃ field ∈ fields, part field = none) ∨
    MAX_ATTESTATION_DATA_LEN < ((fields.filterMap part).map List.length).sum

section Agreement

variable {engine : Sdk.Engine} {values : Dict Str Str} {fields : List Sdk.FieldDef} {field : Sdk.FieldDef}
  {ty : FieldType} {v : Str}

theorem textAlike_iff : fieldBytes isWhitespace ty v = sdkFieldBytes engine ty (.text v) ↔ TextAlike ty v := by
  cases ty with
  | String => simp [sdkFieldBytes, fieldBytes, TextAlike]
  | Pubkey => exact keyAlike_iff
  | Bool => exact (reader_textBytes (by decide : FieldType.Bool ≠ .String)).agree_iff
  | U8 => exact (reader_textBytes (by decide : FieldType.U8 ≠ .String)).agree_iff
  | U16 => exact (reader_textBytes (by decide : FieldType.U16 ≠ .String)).agree_iff
  | U32 => exact (reader_textBytes (by decide : FieldType.U32 ≠ .String)).agree_iff
  | U64 => exact (reader_textBytes (by decide : FieldType.U64 ≠ .String)).agree_iff

/-- An empty text is a value of every type but a key. -/
theorem fieldBytes_nil_ne (member : Str) :
    fieldBytes isWhitespace ty [] = sdkFieldBytes engine ty (.member member) ↔ ty = .Pubkey := by
  cases ty with
  | Pubkey => simp [fieldBytes, textBytes, keyText, strip0x, trimBy, sdkFieldBytes]
  | String =>
    have hshown : ∀ s : Str, s ≠ [] → asBytes s ≠ [] := by
      intro s hs
      cases s with
      | nil => exact absurd rfl hs
      | cons c s =>
        rw [asBytes, List.flatMap_cons]
        exact List.append_ne_nil_of_left_ne_nil String.utf8EncodeChar_ne_nil _
    have hne := hshown _ (engine.toString_ne_nil member)
    have hempty : fieldBytes isWhitespace .String [] = some [0, 0] := by decide
    rw [hempty]
    constructor
    · intro h
      simp only [sdkFieldBytes, textBytes, if_true] at h
      split at h
      next => cases h
      next =>
        have hlength := congrArg List.length (Option.some.inj h)
        rw [List.length_append, length_beBytes, List.length_cons, List.length_cons, List.length_nil] at hlength
        exact absurd (List.eq_nil_of_length_eq_zero (by omega)) hne
    · intro h
      cases h
  | Bool => simp [sdkFieldBytes, fieldBytes, textBytes, boolText, trimBy]
  | _ => simp [sdkFieldBytes, fieldBytes, textBytes, uintText, trimBy]

theorem alike_iff : rustPart values field = sdkPart engine values field ↔ Alike values field := by
  unfold rustPart sdkPart Alike Sdk.valueOf
  cases values.find field.name with
  | some v => exact textAlike_iff
  | none =>
    by_cases hmember : field.name ∈ Sdk.prototypeMembers
    · simp only [hmember, if_true, forall_const]
      exact fieldBytes_nil_ne field.name
    · simp only [hmember, if_false, false_imp_iff, iff_true]
      cases field.type with
      | Pubkey => rfl
      | _ => rfl

theorem encode_toOption : (encodeAttestationDataFromStrings (fields.map fieldOf) values).toOption =
    (gather (rustPart values) fields).filter fun out => out.length ≤ MAX_ATTESTATION_DATA_LEN := by
  have hfold : ((fields.map fieldOf).foldlM (fun out field =>
      encodeFieldValue out field.ty ((values.find field.name).getD [])) []).toOption =
        gather (rustPart values) fields := by
    rw [List.foldlM_map]
    apply toOption_foldlM_gather
    intro out field
    exact encodeFieldValue_toOption
  rw [encodeAttestationDataFromStrings, toOption_bind, hfold]
  cases gather (rustPart values) fields with
  | none => rfl
  | some out =>
    show Except.toOption _ = (some out).filter _
    generalize MAX_ATTESTATION_DATA_LEN = max
    rw [Option.filter_some]
    by_cases hlong : max < out.length
    · have hnot : ¬ out.length ≤ max := Nat.not_le_of_gt hlong
      simp only [hlong, if_true, hnot, decide_false, Bool.false_eq_true, if_false]
      rfl
    · have hle : out.length ≤ max := Nat.le_of_not_lt hlong
      simp only [hlong, if_false, hle, decide_true, if_true]
      rfl

theorem sdkEncode_toOption : (Sdk.encodeAttestationData engine values fields).toOption =
    (gather (sdkPart engine values) fields).filter fun out => out.length ≤ MAX_ATTESTATION_DATA_LEN := by
  have hfold : (fields.foldlM (fun parts (field : Sdk.FieldDef) => do
      let part ← Sdk.encodeField engine field.type (Sdk.valueOf values field.name)
      pure (parts ++ part)) ([] : List UInt8)).toOption = gather (sdkPart engine values) fields := by
    apply toOption_foldlM_gather
    intro parts field
    rw [toOption_bind, encodeField_toOption]
    unfold sdkPart
    cases sdkFieldBytes engine field.type (Sdk.valueOf values field.name) with
    | none => rfl
    | some part => rfl
  rw [Sdk.encodeAttestationData, toOption_bind, hfold]
  cases gather (sdkPart engine values) fields with
  | none => rfl
  | some out =>
    show Except.toOption _ = (some out).filter _
    generalize MAX_ATTESTATION_DATA_LEN = max
    rw [Option.filter_some]
    by_cases hlong : max < out.length
    · have hnot : ¬ out.length ≤ max := Nat.not_le_of_gt hlong
      simp only [hlong, if_true, hnot, decide_false, Bool.false_eq_true, if_false]
      rfl
    · have hle : out.length ≤ max := Nat.le_of_not_lt hlong
      simp only [hlong, if_false, hle, decide_true, if_true]
      rfl

theorem refused_iff {part : Sdk.FieldDef → Option (List UInt8)} : Refused part fields ↔
    (gather part fields).filter (fun out => out.length ≤ MAX_ATTESTATION_DATA_LEN) = none := by
  rw [Refused, ← gather_eq_none]
  cases hgather : gather part fields with
  | none => simp
  | some out => simp [Option.filter_some, length_gather hgather]

/-- Both encoders fail, or both give the same bytes. -/
def EncodesAlike (engine : Sdk.Engine) (values : Dict Str Str) (fields : List Sdk.FieldDef) : Prop :=
  (encodeAttestationDataFromStrings (fields.map fieldOf) values).toOption =
    (Sdk.encodeAttestationData engine values fields).toOption

theorem encodesAlike_iff : EncodesAlike engine values fields ↔ (∀ field ∈ fields, Alike values field) ∨
    (Refused (rustPart values) fields ∧ Refused (sdkPart engine values) fields) := by
  rw [EncodesAlike, encode_toOption, sdkEncode_toOption, refused_iff, refused_iff]
  constructor
  · intro h
    cases hrust : (gather (rustPart values) fields).filter
        (fun out => out.length ≤ MAX_ATTESTATION_DATA_LEN) with
    | none => exact .inr ⟨rfl, h.symm.trans hrust⟩
    | some out =>
      left
      rw [hrust] at h
      have hsdk := (Option.filter_eq_some_iff.mp h.symm).1
      have hparts := eq_of_gather_eq (S := fun field => HasWidth (Sdk.FieldDef.type field))
        (fun field => prefixFree_hasWidth field.type) (fun _ _ _ => hasWidth_of_fieldBytes)
        (fun _ _ _ => hasWidth_of_sdkFieldBytes) (Option.filter_eq_some_iff.mp hrust).1 hsdk
      exact fun field hfield => alike_iff.mp (hparts field hfield)
  · rintro (h | ⟨hrust, hsdk⟩)
    · have hsame : ∀ field ∈ fields, rustPart values field = sdkPart engine values field :=
        fun field hfield => alike_iff.mpr (h field hfield)
      rw [gather_congr hsame]
    · rw [hrust, hsdk]

end Agreement

/-- **The codecs agree** on definitions that are not padded with a character that one of them trims, and on
values that both treat alike. -/
theorem codecs_agree_iff (s : Str) (engine : Sdk.Engine) (values : Dict Str Str) (fields : List Sdk.FieldDef) :
    (ParsesAlike s ↔ (nextLine ∈ s → readFieldDefinitions isWhitespace s = none) ∧
      (byteOrderMark ∈ s → readFieldDefinitions Lib.isSpace s = none)) ∧
    (EncodesAlike engine values fields ↔ (∀ field ∈ fields, Alike values field) ∨
      (Refused (rustPart values) fields ∧ Refused (sdkPart engine values) fields)) :=
  ⟨parsesAlike_iff, encodesAlike_iff⟩

/-- Only the crate takes definitions that begin with U+0085, and only the SDK takes a key without digits. -/
theorem codecs_disagree : ¬ ((∀ s, ParsesAlike s) ∧ ∀ engine s fields,
    Sdk.parseFieldDefinitions s = .ok fields → ∀ values, EncodesAlike engine values fields) ∧
    ¬ ParsesAlike (nextLine :: "u8 a".toList) ∧
    Sdk.parseFieldDefinitions "pubkey key".toList = .ok [⟨"0".toList, "key".toList, .Pubkey⟩] ∧
    ∀ engine, ¬ EncodesAlike engine [("key".toList, List.replicate 64 'g')]
      [⟨"0".toList, "key".toList, .Pubkey⟩] := by
  have hparse : ¬ ParsesAlike (nextLine :: "u8 a".toList) := by
    intro h
    have hrust : (parseFieldDefinitions (nextLine :: "u8 a".toList)).toOption =
        some [⟨"a".toList, .U8⟩] := by
      decide
    have hsdk : (Sdk.parseFieldDefinitions (nextLine :: "u8 a".toList)).toOption = none := by decide
    rw [ParsesAlike, hrust, hsdk] at h
    cases h
  have hencode : ∀ engine, ¬ EncodesAlike engine [("key".toList, List.replicate 64 'g')]
      [⟨"0".toList, "key".toList, .Pubkey⟩] := by
    intro engine h
    have hrust : (encodeAttestationDataFromStrings [⟨"key".toList, .Pubkey⟩]
        [("key".toList, List.replicate 64 'g')]).toOption = none := by
      decide
    have hsdk : (Sdk.encodeAttestationData engine [("key".toList, List.replicate 64 'g')]
        [⟨"0".toList, "key".toList, .Pubkey⟩]).toOption = some (List.replicate 32 0) := rfl
    have hnone : (none : Option (List UInt8)) = some (List.replicate 32 0) := hrust.symm.trans (h.trans hsdk)
    cases hnone
  exact ⟨fun h => hparse (h.1 _), hparse, by decide, hencode⟩

end OpaqueStellar.Schemas
