import OpaqueStellar.Schemas.Canonical

/-! # What a schema's identifier commits to

The name stands unmarked between the key and the version. The definitions behind it can still be told apart:
no proper end of a canonical encoding looks like the beginning of one. -/

namespace OpaqueStellar.Schemas

open OpaqueStellar.Lib OpaqueStellar.Soroban

/-! ## Ends of an encoding -/

/-- As an encoding begins: a small number of fields, a type, the length of a name. -/
def LooksCanonical (bytes : List UInt8) : Prop :=
  ∃ count ty length rest, bytes = count :: ty :: length :: rest ∧ count.toNat ≤ 16 ∧ ty.toNat ≤ 6 ∧
    length.toNat ≤ 32

section Ends

variable {fields fields' : List FieldDef} {f : FieldDef} {rest : List UInt8}

theorem toByte_le (ty : FieldType) : ty.toByte.toNat ≤ 6 := by cases ty <;> decide

theorem looksCanonical_encode (h : WellFormed fields) : LooksCanonical (encodeCanonicalFieldDefs fields) := by
  obtain ⟨f, later, rfl⟩ := List.exists_cons_of_ne_nil h.nonempty
  have hcount : (f :: later).length ≤ 16 := h.count
  have hlength := (length_asBytes_name (h.named f List.mem_cons_self)).2
  have hmax : MAX_FIELD_NAME_LEN = 32 := rfl
  refine ⟨_, f.ty.toByte, UInt8.ofNat (asBytes f.name).length, _, rfl, ?_, toByte_le f.ty, ?_⟩
  · rw [toNat_ofNat_of_lt (by omega)]
    exact hcount
  · rw [toNat_ofNat_of_lt (by omega)]
    omega

/-- The bytes of names are larger than any number of an encoding. -/
theorem le_of_mem_name (h : isName f.name = true) {b : UInt8} (hb : b ∈ asBytes f.name) : 0x30 ≤ b.toNat := by
  have hall : ∀ n < 0x30, isNameChar (UInt8.ofNat n) = false := by decide
  have hname := all_isNameChar_asBytes f.name
  rw [all_isNamePart_of_isName h] at hname
  have hb := List.all_eq_true.mp hname b hb
  by_contra hsmall
  have hnot := hall b.toNat (Nat.lt_of_not_le hsmall)
  rw [UInt8.ofNat_toNat, hb] at hnot
  cases hnot

theorem not_looksCanonical_of_large {b : UInt8} (hb : 0x30 ≤ b.toNat) : ¬ LooksCanonical (b :: rest) := by
  rintro ⟨count, ty, length, more, heq, hcount, -, -⟩
  obtain ⟨rfl, -⟩ := List.cons.inj heq
  omega

/-- From no place behind the count do the fields look like an encoding. -/
theorem not_looksCanonical_drop (hnamed : Named fields) (k : ℕ) :
    ¬ LooksCanonical ((fields.flatMap fieldCode).drop k) := by
  induction fields generalizing k with
  | nil =>
    rintro ⟨count, ty, length, more, heq, -⟩
    simp at heq
  | cons f later ih =>
    have hf : isName f.name = true := hnamed f List.mem_cons_self
    have hlater := ih fun g hg => hnamed g (List.mem_cons_of_mem f hg)
    obtain ⟨first, name, hname⟩ := List.exists_cons_of_length_pos (length_asBytes_name hf).1
    have hlarge : ∀ b ∈ asBytes f.name, 0x30 ≤ b.toNat := fun b => le_of_mem_name hf
    have hfirst : 0x30 ≤ first.toNat := hlarge first (by rw [hname]; exact List.mem_cons_self)
    have hcode : (f :: later).flatMap fieldCode = f.ty.toByte :: UInt8.ofNat (asBytes f.name).length ::
        (asBytes f.name ++ later.flatMap fieldCode) := by
      rw [List.flatMap_cons]
      rfl
    rw [hcode]
    match k with
    | 0 =>
      -- the first letter of the name would be a length
      rintro ⟨count, ty, length, more, heq, -, -, hlength⟩
      rw [hname] at heq
      obtain ⟨-, heq⟩ := List.cons.inj heq
      obtain ⟨-, heq⟩ := List.cons.inj heq
      obtain ⟨rfl, -⟩ := List.cons.inj heq
      omega
    | 1 =>
      -- the first letter of the name would be a type
      rintro ⟨count, ty, length, more, heq, -, hty, -⟩
      rw [hname] at heq
      obtain ⟨-, heq⟩ := List.cons.inj heq
      obtain ⟨rfl, -⟩ := List.cons.inj heq
      omega
    | k + 2 =>
      show ¬ LooksCanonical ((asBytes f.name ++ later.flatMap fieldCode).drop k)
      by_cases hk : k < (asBytes f.name).length
      · rw [List.drop_append_of_le_length hk.le, List.drop_eq_getElem_cons hk]
        exact not_looksCanonical_of_large (hlarge _ (List.getElem_mem hk))
      · rw [List.drop_append, List.drop_eq_nil_of_le (Nat.le_of_not_lt hk), List.nil_append]
        exact hlater _

/-- **An encoding does not end in another one.** -/
theorem eq_of_append_encode {front : List UInt8} (h : WellFormed fields) (h' : WellFormed fields')
    (heq : encodeCanonicalFieldDefs fields = front ++ encodeCanonicalFieldDefs fields') :
    front = [] ∧ fields = fields' := by
  cases front with
  | nil => exact ⟨rfl, encodeCanonical_inj h h' heq⟩
  | cons b front =>
    exfalso
    have hdrop : (fields.flatMap fieldCode).drop front.length = encodeCanonicalFieldDefs fields' := by
      have htail : fields.flatMap fieldCode = front ++ encodeCanonicalFieldDefs fields' := (List.cons.inj heq).2
      rw [htail]
      exact List.drop_left
    have hlooks := looksCanonical_encode h'
    rw [← hdrop] at hlooks
    exact not_looksCanonical_drop h.named front.length hlooks

end Ends

/-! ## The preimage -/

section Preimage

variable {name name' : List UInt8} {version version' : ℕ} {fields fields' : List FieldDef}

/-- Of two encodings of one string the one behind the longer name is the end of the other. -/
theorem tail_inj_of_le (h : WellFormed fields) (h' : WellFormed fields') (hle : name.length ≤ name'.length)
    (heq : name ++ (beBytes 4 version ++ encodeCanonicalFieldDefs fields) =
      name' ++ (beBytes 4 version' ++ encodeCanonicalFieldDefs fields')) :
    name = name' ∧ beBytes 4 version = beBytes 4 version' ∧ fields = fields' := by
  have hlength := congrArg List.length heq
  simp only [List.length_append, length_beBytes] at hlength
  -- the common end
  have hdrop := congrArg (List.drop (name'.length + 4)) heq
  have hleft : (name ++ (beBytes 4 version ++ encodeCanonicalFieldDefs fields)).drop (name'.length + 4) =
      (encodeCanonicalFieldDefs fields).drop (name'.length - name.length) := by
    have hfront : name'.length + 4 = (name ++ beBytes 4 version).length + (name'.length - name.length) := by
      rw [List.length_append, length_beBytes]
      omega
    rw [← List.append_assoc, hfront, ← List.drop_drop, List.drop_left]
  have hright : (name' ++ (beBytes 4 version' ++ encodeCanonicalFieldDefs fields')).drop (name'.length + 4) =
      encodeCanonicalFieldDefs fields' := by
    have hfront : name'.length + 4 = (name' ++ beBytes 4 version').length := by
      rw [List.length_append, length_beBytes]
    rw [← List.append_assoc, hfront, List.drop_left]
  rw [hleft, hright] at hdrop
  have hsplit := (List.take_append_drop (name'.length - name.length) (encodeCanonicalFieldDefs fields)).symm
  rw [hdrop] at hsplit
  obtain ⟨-, rfl⟩ := eq_of_append_encode h h' hsplit
  have hsame : name.length = name'.length := by omega
  obtain ⟨rfl, hrest⟩ := List.append_inj heq hsame
  exact ⟨rfl, (List.append_inj hrest (by rw [length_beBytes, length_beBytes])).1, rfl⟩

theorem tail_inj (h : WellFormed fields) (h' : WellFormed fields')
    (heq : name ++ (beBytes 4 version ++ encodeCanonicalFieldDefs fields) =
      name' ++ (beBytes 4 version' ++ encodeCanonicalFieldDefs fields')) :
    name = name' ∧ beBytes 4 version = beBytes 4 version' ∧ fields = fields' := by
  rcases Nat.le_total name.length name'.length with hle | hle
  · exact tail_inj_of_le h h' hle heq
  · obtain ⟨hname, hversion, hfields⟩ := tail_inj_of_le h' h hle heq.symm
    exact ⟨hname.symm, hversion.symm, hfields.symm⟩

end Preimage

/-- **The preimage of a schema's identifier is injective.** -/
theorem schemaIdPreimage_inj {key key' : BytesN 32} {name name' s s' : Str} {version version' : ℕ}
    {fields fields' : List FieldDef} (hversion : version < 2 ^ 32) (hversion' : version' < 2 ^ 32)
    (hparse : parseFieldDefinitions s = .ok fields) (hparse' : parseFieldDefinitions s' = .ok fields')
    (heq : schemaIdPreimage key name version (encodeCanonicalFieldDefs fields) =
      schemaIdPreimage key' name' version' (encodeCanonicalFieldDefs fields')) :
    key = key' ∧ name = name' ∧ version = version' ∧ fields = fields' := by
  simp only [schemaIdPreimage, List.append_assoc] at heq
  obtain ⟨hkey, heq⟩ := List.append_inj heq (key.2.trans key'.2.symm)
  obtain ⟨hname, hbytes, hfields⟩ :=
    tail_inj (wellFormed_of_parse hparse) (wellFormed_of_parse hparse') heq
  exact ⟨Subtype.ext hkey, asBytes_injective hname,
    beBytes_inj (by simpa using hversion) (by simpa using hversion') hbytes, hfields⟩

/-- Blanks in the definitions make no difference. -/
theorem schemaIdPreimage_inj_spaced : ∃ fields fields',
    parseFieldDefinitions " bool passed , u8 level".toList = .ok fields ∧
      parseFieldDefinitions "bool passed,u8 level".toList = .ok fields' ∧
      schemaIdPreimage (BytesN.ofNat 32 1) "kyc".toList 1 (encodeCanonicalFieldDefs fields) =
        schemaIdPreimage (BytesN.ofNat 32 1) "kyc".toList 1 (encodeCanonicalFieldDefs fields') ∧
      fields = fields' := by
  have hspaced : parseFieldDefinitions " bool passed , u8 level".toList = .ok Demo.fields := by decide
  have hparse : parseFieldDefinitions "bool passed,u8 level".toList = .ok Demo.fields := by decide
  have hsame : schemaIdPreimage (BytesN.ofNat 32 1) "kyc".toList 1 (encodeCanonicalFieldDefs Demo.fields) =
      schemaIdPreimage (BytesN.ofNat 32 1) "kyc".toList 1 (encodeCanonicalFieldDefs Demo.fields) := rfl
  obtain ⟨-, -, -, hfields⟩ := schemaIdPreimage_inj (by decide) (by decide) hspaced hparse hsame
  exact ⟨Demo.fields, Demo.fields, hspaced, hparse, hsame, hfields⟩

/-! ## Names that are not texts

A contract's string is any bytes. What is not UTF-8 is hashed as no name at all, and stored as it is. -/

/-- The preimage with the bytes of the stored name. -/
def storedPreimage (key : BytesN 32) (name : List UInt8) (version : ℕ) (canonical : List UInt8) : List UInt8 :=
  key.1 ++ name ++ beBytes 4 version ++ canonical

def Collides (host : Host) (x y : List UInt8) : Prop := x ≠ y ∧ host.sha256 x = host.sha256 y

/-- Hashed as no name. -/
def Nameless (name : List UInt8) : Prop := name = [] ∨ fromUtf8 name = none

/-- What registering hashes. -/
def SchemaArgs.hashed (args : SchemaArgs) (fields : List FieldDef) : List UInt8 :=
  schemaIdPreimage args.authorityKey ((fromUtf8 args.name).getD []) args.version (encodeCanonicalFieldDefs fields)

/-- What the claimed identifier is the hash of. -/
def SchemaArgs.stored (args : SchemaArgs) (fields : List FieldDef) : List UInt8 :=
  storedPreimage args.authorityKey args.name args.version (encodeCanonicalFieldDefs fields)

section Names

variable {host : Host} {args args' : SchemaArgs} {fields : List FieldDef} {name name' : List UInt8}
  {x y : List UInt8}

theorem asBytes_getD_iff : asBytes ((fromUtf8 name).getD []) = name ↔ (fromUtf8 name).isSome := by
  cases hname : fromUtf8 name with
  | some s =>
    rw [Option.getD_some, asBytes_of_fromUtf8 hname]
    simp
  | none =>
    constructor
    · intro h
      obtain rfl : name = [] := h.symm
      cases hname
    · intro h
      cases h

theorem asBytes_getD_of_nameless (h : Nameless name) : (fromUtf8 name).getD [] = [] := by
  rcases h with rfl | h
  · rfl
  · rw [h]
    rfl

/-- Two names are hashed alike only where neither is hashed at all. -/
theorem getD_eq_iff (hne : name ≠ name') :
    (fromUtf8 name).getD [] = (fromUtf8 name').getD [] ↔ Nameless name ∧ Nameless name' := by
  constructor
  · intro h
    cases hname : fromUtf8 name with
    | none =>
      cases hname' : fromUtf8 name' with
      | none => exact ⟨.inr hname, .inr hname'⟩
      | some t =>
        rw [hname, hname'] at h
        obtain rfl : t = [] := h.symm
        exact ⟨.inr hname, .inl (asBytes_of_fromUtf8 hname').symm⟩
    | some s =>
      cases hname' : fromUtf8 name' with
      | none =>
        rw [hname, hname'] at h
        obtain rfl : s = [] := h
        exact ⟨.inl (asBytes_of_fromUtf8 hname).symm, .inr hname'⟩
      | some t =>
        rw [hname, hname'] at h
        obtain rfl : s = t := h
        exact absurd ((asBytes_of_fromUtf8 hname).symm.trans (asBytes_of_fromUtf8 hname')) hne
  · rintro ⟨h, h'⟩
    rw [asBytes_getD_of_nameless h, asBytes_getD_of_nameless h']

theorem sha256_eq_iff : host.sha256 x = host.sha256 y ↔ x = y ∨ Collides host x y := by
  constructor
  · intro h
    by_cases hxy : x = y
    · exact .inl hxy
    · exact .inr ⟨hxy, h⟩
  · rintro (rfl | h)
    · rfl
    · exact h.2

theorem hashed_eq_stored_iff : args.hashed fields = args.stored fields ↔ (fromUtf8 args.name).isSome := by
  rw [← asBytes_getD_iff, SchemaArgs.hashed, SchemaArgs.stored, schemaIdPreimage, storedPreimage,
    List.append_left_inj, List.append_left_inj, List.append_right_inj]

theorem hashed_eq_iff (hkey : args.authorityKey = args'.authorityKey) (hversion : args.version = args'.version)
    (hne : args.name ≠ args'.name) :
    args.hashed fields = args'.hashed fields ↔ Nameless args.name ∧ Nameless args'.name := by
  rw [← getD_eq_iff hne, SchemaArgs.hashed, SchemaArgs.hashed, hkey, hversion, schemaIdPreimage,
    schemaIdPreimage, List.append_left_inj, List.append_left_inj, List.append_right_inj]
  exact asBytes_injective.eq_iff

end Names

/-- Where identifiers commit to the stored names, short of a collision of the hash function. -/
structure CommitsToNames (host : Host) : Prop where
  committed : ∀ env w args w', registerSchema host env w args = .ok w' →
    ∃ fields schema, readFieldDefs args.fieldDefinitions = .ok fields ∧
      w'.registry.schemas.lookup args.schemaId = some schema ∧ schema.name = args.name ∧
      (args.schemaId = host.sha256 (storedPreimage args.authorityKey schema.name schema.version
          (encodeCanonicalFieldDefs fields)) ↔
        (fromUtf8 args.name).isSome ∨ Collides host (args.hashed fields) (args.stored fields))
  competing : ∀ env w args w₁ env' w' args' w₁' fields, registerSchema host env w args = .ok w₁ →
    registerSchema host env' w' args' = .ok w₁' → readFieldDefs args.fieldDefinitions = .ok fields →
    readFieldDefs args'.fieldDefinitions = .ok fields → args.authorityKey = args'.authorityKey →
    args.version = args'.version → args.name ≠ args'.name →
      (args.schemaId = args'.schemaId ↔ (Nameless args.name ∧ Nameless args'.name) ∨
        Collides host (args.hashed fields) (args'.hashed fields))

/-- **Identifiers commit to names that are UTF-8**, and to no others. -/
theorem commits_to_names (host : Host) : CommitsToNames host where
  committed env w args w' h := by
    obtain ⟨-, -, fields, hparsed, hid, -, -, rfl⟩ := registerSchema_eq_ok.mp h
    refine ⟨fields, args.schema fields env.sequence, hparsed, Finmap.lookup_insert _, rfl, ?_⟩
    rw [← @hashed_eq_stored_iff _ fields, ← sha256_eq_iff]
    show args.schemaId = host.sha256 (args.stored fields) ↔ _
    rw [hid]
    rfl
  competing env w args w₁ env' w' args' w₁' fields h h' hparsed hparsed' hkey hversion hne := by
    obtain ⟨-, -, read, hread, hid, -⟩ := registerSchema_eq_ok.mp h
    obtain ⟨-, -, read', hread', hid', -⟩ := registerSchema_eq_ok.mp h'
    obtain rfl : fields = read := Except.ok.inj (hparsed.symm.trans hread)
    obtain rfl : fields = read' := Except.ok.inj (hparsed'.symm.trans hread')
    rw [← @hashed_eq_iff _ _ fields hkey hversion hne, ← sha256_eq_iff, hid, hid']
    rfl

/-- Registering "u8 a" under a name of one byte that is not UTF-8. -/
def Demo.unnamed (b : UInt8) : SchemaArgs where
  authority := account 1
  authorityKey := BytesN.ofNat 32 1
  schemaId := coreDeriveSchemaId host (BytesN.ofNat 32 1) [] 1 [1, 1, 1, 97]
  name := [b]
  fieldDefinitions := asBytes "u8 a".toList
  revocable := true
  version := 1
  resolver := none
  schemaExpiryLedger := 0

def Demo.env : Env := ⟨1, 1, [account 1], fun _ _ _ => false⟩

theorem registers_unnamed (b : UInt8) (hb : fromUtf8 [b] = none) :
    ∃ w, registerSchema Demo.host Demo.env {} (Demo.unnamed b) = .ok w ∧
      w.registry.schemas.lookup (Demo.unnamed b).schemaId ≠ none := by
  have hshort : (Demo.unnamed b).name.length ≤ 64 := by
    show 1 ≤ 64
    decide
  have hparsed : readFieldDefs (asBytes "u8 a".toList) = .ok [⟨"a".toList, .U8⟩] := by decide
  have hderived : (Demo.unnamed b).schemaId = (Demo.unnamed b).derivedId Demo.host [⟨"a".toList, .U8⟩] := by
    show _ = coreDeriveSchemaId Demo.host (BytesN.ofNat 32 1) ((fromUtf8 [b]).getD []) 1 _
    rw [hb]
    rfl
  refine ⟨_, registerSchema_eq_ok.mpr ⟨⟨List.mem_singleton_self _, ?_⟩, hshort, _, hparsed, hderived, rfl,
    .inl rfl, rfl⟩, ?_⟩
  · show Demo.account 1 ≠ Demo.host.self
    decide
  · show ((Finmap.insert _ _ _).lookup _) ≠ none
    rw [Finmap.lookup_insert]
    exact Option.some_ne_none _

/-- **Two such names compete for one identifier**, which is the hash of neither. -/
theorem unnamed_compete : (∃ w, registerSchema Demo.host Demo.env {} (Demo.unnamed 0xFF) = .ok w ∧
      ∀ w', registerSchema Demo.host Demo.env w (Demo.unnamed 0xFE) ≠ .ok w') ∧
    (∃ w, registerSchema Demo.host Demo.env {} (Demo.unnamed 0xFE) = .ok w) ∧
    (Demo.unnamed 0xFF).schemaId ≠
      Demo.host.sha256 (storedPreimage (BytesN.ofNat 32 1) [0xFF] 1 [1, 1, 1, 97]) := by
  obtain ⟨w, hregistered, hstored⟩ := registers_unnamed 0xFF (by decide)
  obtain ⟨w', hregistered', -⟩ := registers_unnamed 0xFE (by decide)
  refine ⟨⟨w, hregistered, ?_⟩, ⟨w', hregistered'⟩, by decide⟩
  intro w'' h
  obtain ⟨-, -, -, -, -, hfresh, -⟩ := registerSchema_eq_ok.mp h
  exact hstored hfresh

end OpaqueStellar.Schemas
