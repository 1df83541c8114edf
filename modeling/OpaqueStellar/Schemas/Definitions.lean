import OpaqueStellar.Schemas.Codec

/-! # One grammar of field definitions

The crate and the SDK read the same definitions, but for the white space that they trim: U+0085 is white
space to Rust only, and U+FEFF to JavaScript only. -/

namespace OpaqueStellar.Schemas

open OpaqueStellar.Lib OpaqueStellar.Soroban

/-! ## Names -/

def isName (name : Str) : Bool :=
  match name with
  | [] => false
  | first :: rest => decide ((first :: rest).length ≤ MAX_FIELD_NAME_LEN) && Sdk.isNameStart first &&
      rest.all Sdk.isNamePart

section Names

variable {c : Char} {name : Str}

theorem lt_of_isNamePart (h : Sdk.isNamePart c = true) : c.toNat < 128 := by
  have hle : ∀ d : Char, c ≤ d → c.toNat ≤ d.toNat := fun d hd => hd
  simp only [Sdk.isNamePart, Sdk.isNameStart, Bool.or_eq_true, Bool.and_eq_true, decide_eq_true_eq,
    beq_iff_eq] at h
  rcases h with ((⟨-, h⟩ | ⟨-, h⟩) | rfl) | ⟨-, h⟩
  · exact lt_of_le_of_lt (hle _ h) (by decide)
  · exact lt_of_le_of_lt (hle _ h) (by decide)
  · decide
  · exact lt_of_le_of_lt (hle _ h) (by decide)

theorem isNamePart_of_isNameStart (h : Sdk.isNameStart c = true) : Sdk.isNamePart c = true := by
  simp [Sdk.isNamePart, h]

theorem isNameChar_ofNat (h : c.toNat < 128) : isNameChar (UInt8.ofNat c.toNat) = Sdk.isNamePart c ∧
    (isAsciiAlphabetic (UInt8.ofNat c.toNat) || UInt8.ofNat c.toNat == 0x5F) = Sdk.isNameStart c := by
  apply of_ascii (P := fun c => isNameChar (UInt8.ofNat c.toNat) = Sdk.isNamePart c ∧
    (isAsciiAlphabetic (UInt8.ofNat c.toNat) || UInt8.ofNat c.toNat == 0x5F) = Sdk.isNameStart c)
  · decide
  · exact h

/-- No byte from 128 on is part of a name. -/
theorem isNameChar_of_le {b : UInt8} (h : 128 ≤ b.toNat) :
    isNameChar b = false ∧ (isAsciiAlphabetic b || b == 0x5F) = false := by
  have hall : ∀ n < 128, isNameChar (UInt8.ofNat (128 + n)) = false ∧
      (isAsciiAlphabetic (UInt8.ofNat (128 + n)) || UInt8.ofNat (128 + n) == 0x5F) = false := by
    decide
  have hlt := b.toNat_lt
  have hb := hall (b.toNat - 128) (by omega)
  rwa [Nat.add_sub_cancel' h, UInt8.ofNat_toNat] at hb

theorem all_isNameChar_asBytes (s : Str) : (asBytes s).all isNameChar = s.all Sdk.isNamePart := by
  induction s with
  | nil => rfl
  | cons c s ih =>
    rw [asBytes, List.flatMap_cons, List.all_append, List.all_cons, ← ih, asBytes]
    by_cases hc : c.toNat < 128
    · rw [utf8EncodeChar_of_lt hc, List.all_cons, List.all_nil, Bool.and_true, (isNameChar_ofNat hc).1]
    · obtain ⟨first, rest, hbytes, hfirst⟩ := utf8EncodeChar_of_le (Nat.le_of_not_lt hc)
      have hpart : Sdk.isNamePart c = false := by
        by_contra hpart
        exact hc (lt_of_isNamePart (by simpa using hpart))
      rw [hbytes, List.all_cons, (isNameChar_of_le hfirst).1, hpart, Bool.false_and]

theorem lt_of_all_isNamePart (h : name.all Sdk.isNamePart = true) : ∀ c ∈ name, c.toNat < 128 :=
  fun c hc => lt_of_isNamePart (List.all_eq_true.mp h c hc)

theorem all_isNamePart_of_isName (h : isName name = true) : name.all Sdk.isNamePart = true := by
  cases name with
  | nil => rfl
  | cons first rest =>
    simp only [isName, Bool.and_eq_true] at h
    rw [List.all_cons, isNamePart_of_isNameStart h.1.2, h.2, Bool.true_and]

/-- What the crate takes for a name. -/
theorem validateFieldName_toOption : (validateFieldName name).toOption = if isName name then some () else none := by
  cases name with
  | nil => rfl
  | cons first rest =>
    by_cases hfirst : first.toNat < 128
    · obtain ⟨-, hstart⟩ := isNameChar_ofNat hfirst
      have hbytes : asBytes (first :: rest) = UInt8.ofNat first.toNat :: asBytes rest := by
        rw [asBytes, List.flatMap_cons, utf8EncodeChar_of_lt hfirst]
        rfl
      have hall := all_isNameChar_asBytes (first :: rest)
      rw [hbytes] at hall
      simp only [validateFieldName, hbytes, hstart, hall]
      by_cases hname : (first :: rest).all Sdk.isNamePart = true
      · have hlength : (UInt8.ofNat first.toNat :: asBytes rest).length = (first :: rest).length := by
          rw [← hbytes]
          exact utf8Length_of_lt (lt_of_all_isNamePart hname)
        have hrest : rest.all Sdk.isNamePart = true := by
          rw [List.all_cons, Bool.and_eq_true] at hname
          exact hname.2
        rw [hlength]
        simp only [isName, hrest, hname, Bool.and_true]
        generalize (first :: rest).length = length
        by_cases hlong : MAX_FIELD_NAME_LEN < length
        · have hnot : ¬ length ≤ MAX_FIELD_NAME_LEN := Nat.not_le_of_gt hlong
          simp [hlong, hnot, Except.toOption]
        · have hle : length ≤ MAX_FIELD_NAME_LEN := Nat.le_of_not_lt hlong
          cases Sdk.isNameStart first with
          | true => simp [hlong, hle, Except.toOption]
          | false => simp [hlong, Except.toOption]
      · have hnot : isName (first :: rest) = false := by
          by_contra hyes
          exact hname (all_isNamePart_of_isName (by simpa using hyes))
        rw [hnot]
        have hfalse : (first :: rest).all Sdk.isNamePart = false := by simpa using hname
        rw [hfalse]
        split
        · rfl
        · split
          · rfl
          · rfl
    · obtain ⟨b, more, hutf8, hb⟩ := utf8EncodeChar_of_le (Nat.le_of_not_lt hfirst)
      have hbytes : asBytes (first :: rest) = b :: (more ++ asBytes rest) := by
        rw [asBytes, List.flatMap_cons, hutf8]
        rfl
      have hnot : isName (first :: rest) = false := by
        by_contra hyes
        have hpart := all_isNamePart_of_isName (by simpa using hyes)
        exact hfirst (lt_of_all_isNamePart hpart first List.mem_cons_self)
      rw [hnot]
      simp only [validateFieldName, hbytes, (isNameChar_of_le hb).2]
      split
      · rfl
      · rfl

/-- What the SDK takes for a name. -/
theorem isValidFieldName_eq : Sdk.isValidFieldName name = isName name := by
  cases name with
  | nil => rfl
  | cons first rest =>
    by_cases hname : (first :: rest).all Sdk.isNamePart = true
    · rw [Sdk.isValidFieldName, isName, utf16Length_of_lt (lt_of_all_isNamePart hname)]
      generalize (first :: rest).length = length
      by_cases hlong : MAX_FIELD_NAME_LEN < length
      · have hnot : ¬ length ≤ MAX_FIELD_NAME_LEN := Nat.not_le_of_gt hlong
        simp [hlong, hnot]
      · have hle : length ≤ MAX_FIELD_NAME_LEN := Nat.le_of_not_lt hlong
        simp [hlong, hle]
    · have hnot : isName (first :: rest) = false := by
        by_contra hyes
        exact hname (all_isNamePart_of_isName (by simpa using hyes))
      rw [hnot, Sdk.isValidFieldName]
      split
      · rfl
      · by_contra hyes
        simp only [Bool.not_eq_false, Bool.and_eq_true] at hyes
        rw [List.all_cons, isNamePart_of_isNameStart hyes.1, hyes.2] at hname
        exact hname rfl

end Names

/-! ## Definitions -/

/-- A segment, for a reader with this white space. -/
def readSegment (isSpace : Char → Bool) (fields : List FieldDef) (segment : Str) : Option (List FieldDef) :=
  match splitSpace (trimBy isSpace segment) with
  | none => none
  | some (before, after) =>
      let name := trimBy isSpace after
      if ' ' ∈ name then none
      else
        match FieldType.fromStr (trimBy isSpace before) with
        | none => none
        | some ty =>
            if !isName name then none
            else if (fields.any fun f => f.name = name) then none
            else if MAX_FIELDS < (fields ++ [FieldDef.mk name ty]).length then none
            else some (fields ++ [FieldDef.mk name ty])

def readFieldDefinitions (isSpace : Char → Bool) (input : Str) : Option (List FieldDef) :=
  (((trimBy isSpace input).splitOn ',').foldlM (readSegment isSpace) []).bind fun fields =>
    if MAX_FIELD_DEFS_STR_LEN < (fieldDefsToCanonicalString fields).length then none else some fields

/-- A field of the SDK without its number. -/
def fieldOf (f : Sdk.FieldDef) : FieldDef where
  name := f.name
  ty := f.type

section Definitions

variable {isSpace p q : Char → Bool} {s : Str} {fields fields' : List FieldDef} {segment : Str}

theorem throw_bind {ε α β : Type} {e : ε} {f : α → Except ε β} :
    ((throw e : Except ε α) >>= f) = .error e := rfl

theorem parseSegment_toOption :
    (parseSegment fields segment).toOption = readSegment isWhitespace fields segment := by
  have htrim : ∀ s, trim s = trimBy isWhitespace s := fun _ => rfl
  simp only [parseSegment, readSegment, htrim]
  generalize hseg : trimBy isWhitespace segment = seg
  by_cases hempty : seg = []
  · simp only [hempty, if_true, throw_bind]
    rfl
  · simp only [hempty, if_false]
    cases splitSpace seg with
    | none => rfl
    | some parts =>
      obtain ⟨before, after⟩ := parts
      simp only
      generalize trimBy isWhitespace after = name
      by_cases hspace : ' ' ∈ name
      · simp only [hspace, if_true, throw_bind]
        rfl
      · simp only [hspace, if_false]
        cases FieldType.fromStr (trimBy isWhitespace before) with
        | none => rfl
        | some ty =>
          simp only [toOption_bind, validateFieldName_toOption]
          cases isName name with
          | false => rfl
          | true =>
            simp only [if_true, Bool.not_true, Bool.false_eq_true, if_false]
            show Except.toOption _ = _
            split
            · rfl
            · split
              · rfl
              · rfl

theorem sdkParseSegment_toOption {fields : List Sdk.FieldDef} :
    (Sdk.parseSegment fields segment).toOption.map (List.map fieldOf) =
      readSegment Lib.isSpace (fields.map fieldOf) segment := by
  have htrim : ∀ s, trimSpaces s = trimBy Lib.isSpace s := fun _ => rfl
  simp only [Sdk.parseSegment, readSegment, htrim]
  generalize hseg : trimBy Lib.isSpace segment = seg
  by_cases hempty : seg = []
  · simp only [hempty, if_true]
    rfl
  · simp only [hempty, if_false]
    cases splitSpace seg with
    | none => rfl
    | some parts =>
      obtain ⟨before, after⟩ := parts
      simp only
      generalize trimBy Lib.isSpace after = name
      by_cases hspace : ' ' ∈ name
      · simp only [hspace, if_true]
        rfl
      · simp only [hspace, if_false]
        cases FieldType.fromStr (trimBy Lib.isSpace before) with
        | none => rfl
        | some ty =>
          simp only [isValidFieldName_eq]
          cases isName name with
          | false => rfl
          | true =>
            simp only [Bool.not_true, Bool.false_eq_true, if_false]
            have hdup : ((fields.map fieldOf).any fun f => decide (f.name = name)) =
                fields.any fun f => decide (f.name = name) := by
              rw [List.any_map]
              rfl
            simp only [hdup, List.length_append, List.length_map, List.length_singleton]
            split
            · rfl
            · split
              · rfl
              · simp [Except.toOption, fieldOf]

/-- What a segment adds. -/
theorem readSegment_eq_some (h : readSegment isSpace fields segment = some fields') :
    ∃ before after ty, splitSpace (trimBy isSpace segment) = some (before, after) ∧
      FieldType.fromStr (trimBy isSpace before) = some ty ∧ isName (trimBy isSpace after) = true ∧
      fields' = fields ++ [⟨trimBy isSpace after, ty⟩] := by
  unfold readSegment at h
  split at h
  · cases h
  next before after hsplit =>
    simp only at h
    split at h
    · cases h
    · split at h
      · cases h
      next ty hty =>
        split at h
        · cases h
        next hname =>
          split at h
          · cases h
          · split at h
            · cases h
            · exact ⟨before, after, ty, hsplit, hty, by simpa using hname, (Option.some.inj h).symm⟩

/-- All names are names. -/
def Named (fields : List FieldDef) : Prop := ∀ f ∈ fields, isName f.name = true

theorem named_of_foldlM {segments : List Str} (h : segments.foldlM (readSegment isSpace) [] = some fields) :
    Named fields := by
  refine foldlM_keeps (P := Named) ?_ (by simp [Named]) h
  intro t x u hread ht
  obtain ⟨before, after, ty, -, -, hname, rfl⟩ := readSegment_eq_some hread
  intro f hf
  rcases List.mem_append.mp hf with hf | hf
  · exact ht f hf
  · rw [List.mem_singleton.mp hf]
    exact hname

/-! ### The canonical form -/

theorem asStr_lt (ty : FieldType) : ∀ c ∈ ty.asStr, c.toNat < 128 := by
  have hall : ty.asStr.all (fun c => decide (c.toNat < 128)) = true := by cases ty <;> decide
  simpa only [List.all_eq_true, decide_eq_true_eq] using hall

theorem canonical_lt (h : Named fields) : ∀ c ∈ fieldDefsToCanonicalString fields, c.toNat < 128 := by
  intro c hc
  rcases mem_intercalate hc with rfl | ⟨part, hpart, hc⟩
  · decide
  · obtain ⟨f, hf, rfl⟩ := List.mem_map.mp hpart
    rw [List.mem_append, List.mem_append] at hc
    rcases hc with (hc | hc) | hc
    · exact asStr_lt f.ty c hc
    · rw [List.mem_singleton.mp hc]
      decide
    · exact lt_of_all_isNamePart (all_isNamePart_of_isName (h f hf)) c hc

theorem isSpace_of_isNamePart {c : Char} (h : Sdk.isNamePart c = true) : Lib.isSpace c = false := by
  apply of_ascii (P := fun c => Sdk.isNamePart c = true → Lib.isSpace c = false)
  · decide
  · exact lt_of_isNamePart h
  · exact h

/-- The SDK trims names again, and leaves out those that are empty: neither changes a name. -/
theorem sdkCanonical_eq {fields : List Sdk.FieldDef} (h : Named (fields.map fieldOf)) :
    Sdk.fieldDefsToCanonicalString fields = fieldDefsToCanonicalString (fields.map fieldOf) := by
  have hname : ∀ f ∈ fields, isName f.name = true := fun f hf => h (fieldOf f) (List.mem_map_of_mem hf)
  have htrim : ∀ f ∈ fields, trimSpaces f.name = f.name := fun f hf =>
    trimBy_eq_self fun c hc => isSpace_of_isNamePart
      (List.all_eq_true.mp (all_isNamePart_of_isName (hname f hf)) c hc)
  have hfilter : (fields.filter fun f => trimSpaces f.name ≠ []) = fields := by
    rw [List.filter_eq_self]
    intro f hf
    rw [htrim f hf]
    have hne : f.name ≠ [] := by
      intro hempty
      have hf := hname f hf
      rw [hempty] at hf
      cases hf
    simpa using hne
  rw [Sdk.fieldDefsToCanonicalString, hfilter, fieldDefsToCanonicalString, List.map_map]
  congr 1
  apply List.map_congr_left
  intro f hf
  rw [htrim f hf]
  rfl

/-! ### Both parsers -/

theorem readFieldDefinitions_of_blank (h : trimBy isSpace s = []) : readFieldDefinitions isSpace s = none := by
  have hread : readSegment isSpace [] [] = none := by simp [readSegment, trimBy, splitSpace]
  have hsplit : ([] : Str).splitOn ',' = [[]] := rfl
  rw [readFieldDefinitions, h, hsplit, List.foldlM_cons, hread]
  rfl

theorem parseFieldDefinitions_toOption :
    (parseFieldDefinitions s).toOption = readFieldDefinitions isWhitespace s := by
  have htrim : trim s = trimBy isWhitespace s := rfl
  by_cases hblank : trimBy isWhitespace s = []
  · rw [readFieldDefinitions_of_blank hblank, parseFieldDefinitions, htrim, hblank]
    rfl
  · have hfold : (((trimBy isWhitespace s).splitOn ',').foldlM parseSegment []).toOption =
        ((trimBy isWhitespace s).splitOn ',').foldlM (readSegment isWhitespace) [] := by
      have hview := foldlM_toOption (f := parseSegment) (g := readSegment isWhitespace) id
        (fun fields segment => by rw [Option.map_id]; exact parseSegment_toOption)
        ((trimBy isWhitespace s).splitOn ',') []
      rwa [Option.map_id] at hview
    simp only [parseFieldDefinitions, htrim, hblank, if_false, toOption_bind, hfold, readFieldDefinitions]
    cases hread : ((trimBy isWhitespace s).splitOn ',').foldlM (readSegment isWhitespace) [] with
    | none => rfl
    | some fields =>
      have hlength : (asBytes (fieldDefsToCanonicalString fields)).length =
          (fieldDefsToCanonicalString fields).length :=
        utf8Length_of_lt (canonical_lt (named_of_foldlM hread))
      show Except.toOption _ = _
      rw [hlength]
      simp only [Option.bind_some]
      split
      · rfl
      · rfl

theorem sdkParseFieldDefinitions_toOption :
    (Sdk.parseFieldDefinitions s).toOption.map (List.map fieldOf) = readFieldDefinitions Lib.isSpace s := by
  have htrim : trimSpaces s = trimBy Lib.isSpace s := rfl
  by_cases hblank : trimBy Lib.isSpace s = []
  · rw [readFieldDefinitions_of_blank hblank, Sdk.parseFieldDefinitions, htrim, hblank]
    rfl
  · have hfold := foldlM_toOption (List.map fieldOf) (fun fields segment => sdkParseSegment_toOption)
      ((trimBy Lib.isSpace s).splitOn ',') []
    rw [List.map_nil] at hfold
    simp only [Sdk.parseFieldDefinitions, htrim, hblank, if_false, toOption_bind, readFieldDefinitions,
      ← hfold]
    cases hread : ((trimBy Lib.isSpace s).splitOn ',').foldlM Sdk.parseSegment [] with
    | error err => rfl
    | ok fields =>
      rw [hread] at hfold
      have hnamed : Named (fields.map fieldOf) := named_of_foldlM hfold.symm
      have hlength : utf16Length (Sdk.fieldDefsToCanonicalString fields) =
          (fieldDefsToCanonicalString (fields.map fieldOf)).length := by
        rw [sdkCanonical_eq hnamed]
        exact utf16Length_of_lt (canonical_lt hnamed)
      show Option.map _ (Except.toOption _) = _
      rw [hlength]
      have hmax : MAX_FIELD_DEFS_STR_LEN = 256 := rfl
      rw [hmax]
      simp only [Except.toOption, Option.map_some, Option.bind_some]
      generalize (fieldDefsToCanonicalString (fields.map fieldOf)).length = length
      by_cases hlong : 256 < length
      · simp only [hlong, if_true]
        rfl
      · simp only [hlong, if_false]
        rfl

/-! ### White space -/

theorem mem_splitSpace {seg before after : Str} {c : Char} (h : splitSpace seg = some (before, after))
    (hc : c ∈ seg) : c ∈ before ∨ c = ' ' ∨ c ∈ after := by
  unfold splitSpace at h
  split at h
  · obtain ⟨rfl, rfl⟩ := Prod.mk.inj (Option.some.inj h)
    rw [← List.takeWhile_append_dropWhile (p := fun c => decide (c ≠ ' ')) (l := seg)] at hc
    rcases List.mem_append.mp hc with hc | hc
    · exact .inl hc
    · right
      cases hdrop : seg.dropWhile (fun c => decide (c ≠ ' ')) with
      | nil =>
        rw [hdrop] at hc
        cases hc
      | cons d rest =>
        have hd := List.head?_dropWhile_not (fun c => decide (c ≠ ' ')) seg
        rw [hdrop] at hc hd
        rcases List.mem_cons.mp hc with rfl | hc
        · exact .inl (by simpa using hd)
        · exact .inr hc
  · cases h

theorem mem_of_splitSpace {seg before after : Str} {c : Char} (h : splitSpace seg = some (before, after))
    (hc : c ∈ before ∨ c ∈ after) : c ∈ seg := by
  unfold splitSpace at h
  split at h
  · obtain ⟨rfl, rfl⟩ := Prod.mk.inj (Option.some.inj h)
    rcases hc with hc | hc
    · exact (List.takeWhile_sublist _).subset hc
    · exact (List.dropWhile_sublist _).subset (List.mem_of_mem_drop hc)
  · cases h

theorem fromStr_eq_some {ty : FieldType} (h : FieldType.fromStr s = some ty) : s = ty.asStr := by
  unfold FieldType.fromStr at h
  repeat
    split at h
    · next heq =>
        obtain rfl := Option.some.inj h
        exact heq
  cases h

/-- Only white space of the reader is not ASCII in a definition. -/
theorem lt_of_readFieldDefinitions (h : readFieldDefinitions isSpace s = some fields) :
    ∀ c ∈ s, isSpace c = true ∨ c.toNat < 128 := by
  obtain ⟨fields', hfold, -⟩ := Option.bind_eq_some_iff.mp h
  intro c hc
  rcases mem_trimBy_or (p := isSpace) hc with hc | hc
  · have hpart : c = ',' ∨ ∃ part ∈ (trimBy isSpace s).splitOn ',', c ∈ part := mem_splitOn hc
    rcases hpart with rfl | ⟨segment, hsegment, hc⟩
    · exact .inr (by decide)
    · obtain ⟨t, u, hread⟩ := exists_of_foldlM_eq_some hfold segment hsegment
      obtain ⟨before, after, ty, hsplit, hty, hname, -⟩ := readSegment_eq_some hread
      rcases mem_trimBy_or (p := isSpace) hc with hc | hc
      · rcases mem_splitSpace hsplit hc with hc | rfl | hc
        · rcases mem_trimBy_or (p := isSpace) hc with hc | hc
          · rw [fromStr_eq_some hty] at hc
            exact .inr (asStr_lt ty c hc)
          · exact .inl hc
        · exact .inr (by decide)
        · rcases mem_trimBy_or (p := isSpace) hc with hc | hc
          · exact .inr (lt_of_all_isNamePart (all_isNamePart_of_isName hname) c hc)
          · exact .inl hc
      · exact .inl hc
  · exact .inl hc

theorem readFieldDefinitions_congr (h : ∀ c ∈ s, p c = q c) :
    readFieldDefinitions p s = readFieldDefinitions q s := by
  have hsegment : ∀ fields, ∀ segment ∈ (trimBy q s).splitOn ',',
      readSegment p fields segment = readSegment q fields segment := by
    intro fields segment hsegment
    have hseg : ∀ c ∈ segment, p c = q c := fun c hc =>
      h c (mem_of_mem_trimBy (mem_of_mem_splitOn hsegment hc))
    rw [readSegment, readSegment, trimBy_congr hseg]
    cases hsplit : splitSpace (trimBy q segment) with
    | none => rfl
    | some parts =>
      obtain ⟨before, after⟩ := parts
      have hbefore : ∀ c ∈ before, p c = q c := fun c hc =>
        hseg c (mem_of_mem_trimBy (mem_of_splitSpace hsplit (.inl hc)))
      have hafter : ∀ c ∈ after, p c = q c := fun c hc =>
        hseg c (mem_of_mem_trimBy (mem_of_splitSpace hsplit (.inr hc)))
      simp only [trimBy_congr hbefore, trimBy_congr hafter]
  rw [readFieldDefinitions, readFieldDefinitions, trimBy_congr h, foldlM_congr hsegment]

end Definitions

/-! ## Where the parsers agree -/

/-- U+0085, which only Rust trims. -/
def nextLine : Char := Char.ofNat 0x85

/-- U+FEFF, which only JavaScript trims. -/
def byteOrderMark : Char := Char.ofNat 0xFEFF

theorem isWhitespace_eq {c : Char} (hline : c ≠ nextLine) (hmark : c ≠ byteOrderMark) :
    isWhitespace c = Lib.isSpace c := by
  have hnat : ∀ d : Char, c ≠ d → c.toNat ≠ d.toNat := fun d hne h => hne (Char.toNat_inj.mp h)
  have hline : (c.toNat == 0x85) = false := beq_eq_false_iff_ne.mpr (hnat nextLine hline)
  have hmark : (c.toNat == 0xFEFF) = false := beq_eq_false_iff_ne.mpr (hnat byteOrderMark hmark)
  simp only [isWhitespace, Lib.isSpace, hline, hmark, Bool.or_false]

/-- A reader that trims white space, looks at nothing else that is not ASCII, and depends on its white space
only where it occurs. -/
structure Reader {α : Type} (read : (Char → Bool) → Str → Option α) : Prop where
  lt : ∀ p s r, read p s = some r → ∀ c ∈ s, p c = true ∨ c.toNat < 128
  congr : ∀ p q s, (∀ c ∈ s, p c = q c) → read p s = read q s

/-- With the white space of Rust and with that of JavaScript it reads alike what is not padded with one of
the two characters. -/
theorem Reader.agree_iff {α : Type} {read : (Char → Bool) → Str → Option α} (hread : Reader read) {s : Str} :
    read isWhitespace s = read Lib.isSpace s ↔ (nextLine ∈ s → read isWhitespace s = none) ∧
      (byteOrderMark ∈ s → read Lib.isSpace s = none) := by
  -- neither character is white space of the other reader
  have hnone : ∀ (p : Char → Bool) (c : Char), p c = false → 128 ≤ c.toNat → c ∈ s → read p s = none := by
    intro p c hp hlarge hmem
    cases hr : read p s with
    | none => rfl
    | some r =>
      rcases hread.lt p s r hr c hmem with h | h
      · rw [hp] at h
        cases h
      · omega
  by_cases hline : nextLine ∈ s
  · rw [hnone Lib.isSpace nextLine (by decide) (by decide) hline]
    simp [hline]
  · by_cases hmark : byteOrderMark ∈ s
    · rw [hnone isWhitespace byteOrderMark (by decide) (by decide) hmark]
      simp [hline, hmark, eq_comm]
    · have heq : read isWhitespace s = read Lib.isSpace s := hread.congr _ _ _ fun c hc =>
        isWhitespace_eq (fun h => hline (h ▸ hc)) fun h => hmark (h ▸ hc)
      simp [hline, hmark, heq]

theorem reader_readFieldDefinitions : Reader readFieldDefinitions where
  lt _ _ _ h := lt_of_readFieldDefinitions h
  congr _ _ _ h := readFieldDefinitions_congr h

/-- The strings are accepted or refused by both, with the same fields. -/
def ParsesAlike (s : Str) : Prop :=
  (parseFieldDefinitions s).toOption = (Sdk.parseFieldDefinitions s).toOption.map (List.map fieldOf)

/-- No definition is padded with a character that only its reader trims. -/
theorem parsesAlike_iff {s : Str} : ParsesAlike s ↔
    (nextLine ∈ s → readFieldDefinitions isWhitespace s = none) ∧
      (byteOrderMark ∈ s → readFieldDefinitions Lib.isSpace s = none) := by
  rw [ParsesAlike, parseFieldDefinitions_toOption, sdkParseFieldDefinitions_toOption]
  exact reader_readFieldDefinitions.agree_iff

end OpaqueStellar.Schemas
