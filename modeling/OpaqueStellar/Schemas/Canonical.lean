import OpaqueStellar.Attestations.Engine
import OpaqueStellar.Schemas.Definitions
import OpaqueStellar.Schemas.Invariant
import OpaqueStellar.Schemas.Utf8

/-! # The canonical form of field definitions

What the parser accepts is well formed, and what is well formed is read back from its canonical form. So the
form that the registry stores stands for the fields that were registered. -/

namespace OpaqueStellar.Schemas

open OpaqueStellar.Lib OpaqueStellar.Soroban

/-- The fields that a definition can have. -/
structure WellFormed (fields : List FieldDef) : Prop where
  named : Named fields
  distinct : (fields.map FieldDef.name).Nodup
  nonempty : fields ≠ []
  count : fields.length ≤ MAX_FIELDS
  short : (fieldDefsToCanonicalString fields).length ≤ MAX_FIELD_DEFS_STR_LEN

section WellFormed

variable {isSpace : Char → Bool} {s segment : Str} {fields fields' : List FieldDef}

/-! ## What is accepted -/

theorem exists_of_readSegment (h : readSegment isSpace fields segment = some fields') :
    ∃ f : FieldDef, fields' = fields ++ [f] ∧ f.name ∉ fields.map FieldDef.name ∧
      (fields ++ [f]).length ≤ MAX_FIELDS := by
  unfold readSegment at h
  split at h
  · cases h
  next before after hsplit =>
    simp only at h
    split at h
    · cases h
    · split at h
      · cases h
      next ty hty =>
        split at h
        · cases h
        · split at h
          · cases h
          next hnew =>
            split at h
            · cases h
            next hroom =>
              refine ⟨⟨trimBy isSpace after, ty⟩, (Option.some.inj h).symm, ?_, Nat.le_of_not_lt hroom⟩
              simpa using hnew

theorem distinct_of_foldlM {segments : List Str} (hdistinct : (fields.map FieldDef.name).Nodup)
    (h : segments.foldlM (readSegment isSpace) fields = some fields') :
    (fields'.map FieldDef.name).Nodup := by
  refine foldlM_keeps (P := fun fields => (fields.map FieldDef.name).Nodup) ?_ hdistinct h
  intro t segment u hread ht
  obtain ⟨f, rfl, hnew, -⟩ := exists_of_readSegment hread
  rw [List.map_append, List.map_singleton]
  apply List.Nodup.append ht (List.nodup_singleton f.name)
  simpa using hnew

/-- The first segment adds a field, and no later one takes it away. -/
theorem nonempty_of_foldlM {segments : List Str} (hne : segments ≠ [])
    (h : segments.foldlM (readSegment isSpace) fields = some fields') :
    fields' ≠ [] ∧ fields'.length ≤ MAX_FIELDS := by
  cases segments with
  | nil => exact absurd rfl hne
  | cons segment segments =>
    rw [List.foldlM_cons] at h
    obtain ⟨first, hfirst, h⟩ := Option.bind_eq_some_iff.mp h
    refine foldlM_keeps (P := fun fields => fields ≠ [] ∧ fields.length ≤ MAX_FIELDS) ?_ ?_ h
    · intro t segment u hread ht
      obtain ⟨f, rfl, -, hroom⟩ := exists_of_readSegment hread
      exact ⟨by simp, hroom⟩
    · obtain ⟨f, rfl, -, hroom⟩ := exists_of_readSegment hfirst
      exact ⟨by simp, hroom⟩

theorem wellFormed_of_read (h : readFieldDefinitions isSpace s = some fields) : WellFormed fields := by
  obtain ⟨read, hfold, h⟩ := Option.bind_eq_some_iff.mp h
  split at h
  · cases h
  next hshort =>
    obtain rfl := Option.some.inj h
    obtain ⟨hne, hcount⟩ := nonempty_of_foldlM (List.splitOn_ne_nil _ _) hfold
    have hempty : (([] : List FieldDef).map FieldDef.name).Nodup := List.nodup_nil
    exact ⟨named_of_foldlM hfold, distinct_of_foldlM hempty hfold, hne, hcount, Nat.le_of_not_lt hshort⟩

/-! ## What is read back -/

/-- A text that begins and ends with other characters is not trimmed. -/
theorem trimBy_eq_of_ends {first last : Char} (hhead : s.head? = some first) (hfirst : isSpace first = false)
    (hend : s.getLast? = some last) (hlast : isSpace last = false) : trimBy isSpace s = s := by
  have hdrop : ∀ {t : Str} {c : Char}, t.head? = some c → isSpace c = false → t.dropWhile isSpace = t := by
    intro t c ht hc
    obtain ⟨rest, rfl⟩ := List.head?_eq_some_iff.mp ht
    exact List.dropWhile_cons_of_neg (by simp [hc])
  rw [trimBy, hdrop hhead hfirst, hdrop (by rwa [List.head?_reverse]) hlast, List.reverse_reverse]

/-- Characters of a definition other than blanks. -/
def isDefinitionChar (c : Char) : Bool := Sdk.isNamePart c && !isWhitespace c && c != ' ' && c != ','

theorem isDefinitionChar_of_isNamePart {c : Char} (h : Sdk.isNamePart c = true) :
    isDefinitionChar c = true := by
  apply of_ascii (P := fun c => Sdk.isNamePart c = true → isDefinitionChar c = true)
  · decide
  · exact lt_of_isNamePart h
  · exact h

theorem isNamePart_of_mem_asStr {ty : FieldType} {c : Char} (h : c ∈ ty.asStr) : Sdk.isNamePart c = true := by
  have hall : ty.asStr.all Sdk.isNamePart = true := by cases ty <;> decide
  exact List.all_eq_true.mp hall c h

theorem fromStr_asStr (ty : FieldType) : FieldType.fromStr ty.asStr = some ty := by
  cases ty <;> decide

/-- How a field is written. -/
def segmentOf (f : FieldDef) : Str := f.ty.asStr ++ [' '] ++ f.name

section Segment

variable {f : FieldDef}

theorem isWhitespace_of_isNamePart {c : Char} (h : Sdk.isNamePart c = true) : isWhitespace c = false ∧
    c ≠ ' ' ∧ c ≠ ',' := by
  have hc := isDefinitionChar_of_isNamePart h
  simp only [isDefinitionChar, Bool.and_eq_true, Bool.not_eq_true', bne_iff_ne] at hc
  exact ⟨hc.1.1.2, hc.1.2, hc.2⟩

theorem isNamePart_of_mem_name (h : isName f.name = true) {c : Char} (hc : c ∈ f.name) :
    Sdk.isNamePart c = true :=
  List.all_eq_true.mp (all_isNamePart_of_isName h) c hc

theorem trimBy_name (h : ∀ c ∈ s, Sdk.isNamePart c = true) : trimBy isWhitespace s = s :=
  trimBy_eq_self fun c hc => (isWhitespace_of_isNamePart (h c hc)).1

theorem head?_asStr (ty : FieldType) : ∃ c, ty.asStr.head? = some c ∧ Sdk.isNamePart c = true := by
  cases ty <;> exact ⟨_, rfl, by decide⟩

theorem ends_segmentOf (h : isName f.name = true) :
    ∃ first last, (segmentOf f).head? = some first ∧ isWhitespace first = false ∧
      (segmentOf f).getLast? = some last ∧ isWhitespace last = false := by
  obtain ⟨first, hfirst, hpart⟩ := head?_asStr f.ty
  have hne : f.name ≠ [] := by
    intro hempty
    rw [hempty] at h
    cases h
  refine ⟨first, f.name.getLast hne, ?_, (isWhitespace_of_isNamePart hpart).1, ?_,
    (isWhitespace_of_isNamePart (isNamePart_of_mem_name h (List.getLast_mem hne))).1⟩
  · rw [segmentOf, List.append_assoc, List.head?_append, hfirst]
    rfl
  · rw [segmentOf, List.getLast?_append_of_ne_nil _ hne, List.getLast?_eq_some_getLast hne]

theorem splitSpace_segmentOf : splitSpace (segmentOf f) = some (f.ty.asStr, f.name) := by
  have htype : ∀ c ∈ f.ty.asStr, decide (c ≠ ' ') = true := fun c hc =>
    decide_eq_true (isWhitespace_of_isNamePart (isNamePart_of_mem_asStr hc)).2.1
  have hmem : ' ' ∈ segmentOf f := by simp [segmentOf]
  rw [splitSpace, if_pos hmem, segmentOf, List.append_assoc, List.takeWhile_append_of_pos htype,
    List.dropWhile_append_of_pos htype]
  simp

/-- A field is read back. -/
theorem readSegment_segmentOf (h : isName f.name = true) (hnew : f.name ∉ fields.map FieldDef.name)
    (hroom : (fields ++ [f]).length ≤ MAX_FIELDS) :
    readSegment isWhitespace fields (segmentOf f) = some (fields ++ [f]) := by
  obtain ⟨first, last, hhead, hfirst, hend, hlast⟩ := ends_segmentOf h
  have hname : trimBy isWhitespace f.name = f.name := trimBy_name fun c hc => isNamePart_of_mem_name h hc
  have htype : trimBy isWhitespace f.ty.asStr = f.ty.asStr := trimBy_name fun c hc => isNamePart_of_mem_asStr hc
  have hspace : ' ' ∉ f.name := fun hmem =>
    (isWhitespace_of_isNamePart (isNamePart_of_mem_name h hmem)).2.1 rfl
  have hany : (fields.any fun g => decide (g.name = f.name)) = false := by
    simpa using hnew
  have hlong : ¬ MAX_FIELDS < (fields ++ [FieldDef.mk f.name f.ty]).length := Nat.not_lt_of_le hroom
  rw [readSegment, trimBy_eq_of_ends hhead hfirst hend hlast, splitSpace_segmentOf]
  simp only [hname, htype, hspace, if_false, fromStr_asStr, h, hany, Bool.not_true, Bool.false_eq_true, hlong]

end Segment

theorem foldlM_segmentOf (hnamed : Named fields') (hdistinct : ((fields ++ fields').map FieldDef.name).Nodup)
    (hcount : (fields ++ fields').length ≤ MAX_FIELDS) :
    (fields'.map segmentOf).foldlM (readSegment isWhitespace) fields = some (fields ++ fields') := by
  induction fields' generalizing fields with
  | nil => simp
  | cons f later ih =>
    have happend : fields ++ f :: later = fields ++ [f] ++ later := by simp
    rw [happend] at hdistinct hcount ⊢
    have hfirst : ((fields ++ [f]).map FieldDef.name).Nodup := by
      rw [List.map_append] at hdistinct
      exact hdistinct.of_append_left
    have hnew : f.name ∉ fields.map FieldDef.name := by
      rw [List.map_append, List.map_singleton, List.nodup_append] at hfirst
      intro hmem
      exact hfirst.2.2 f.name hmem f.name (List.mem_singleton_self _) rfl
    have hroom : (fields ++ [f]).length ≤ MAX_FIELDS := by
      rw [List.length_append] at hcount
      omega
    rw [List.map_cons, List.foldlM_cons, readSegment_segmentOf (hnamed f List.mem_cons_self) hnew hroom]
    exact ih (fun g hg => hnamed g (List.mem_cons_of_mem f hg)) hdistinct hcount

/-- A text in parts begins as its first part and ends as its last. -/
theorem head?_intercalate {sep : Str} {part : Str} {parts : List Str} (h : part ≠ []) :
    (sep.intercalate (part :: parts)).head? = part.head? := by
  cases parts with
  | nil => simp
  | cons next parts =>
    obtain ⟨c, rest, rfl⟩ := List.exists_cons_of_ne_nil h
    rw [List.intercalate_cons_cons]
    rfl

theorem getLast?_intercalate {sep : Str} {last : Str} {parts : List Str} (h : last ≠ []) :
    (sep.intercalate (parts ++ [last])).getLast? = last.getLast? := by
  induction parts with
  | nil => simp
  | cons part parts ih =>
    have hne : parts ++ [last] ≠ [] := by simp
    obtain ⟨next, rest, hcons⟩ := List.exists_cons_of_ne_nil hne
    have hlater : sep.intercalate (parts ++ [last]) ≠ [] := by
      intro hempty
      rw [hempty] at ih
      exact h (List.getLast?_eq_none_iff.mp ih.symm)
    rw [List.cons_append, hcons, List.intercalate_cons_cons, ← hcons, List.getLast?_append_of_ne_nil _ hlater, ih]

theorem ends_canonical (hnamed : Named fields) (hne : fields ≠ []) :
    trimBy isWhitespace (fieldDefsToCanonicalString fields) = fieldDefsToCanonicalString fields := by
  have hsegment : ∀ f : FieldDef, segmentOf f ≠ [] := by simp [segmentOf]
  have hcanonical : fieldDefsToCanonicalString fields = [','].intercalate (fields.map segmentOf) := rfl
  obtain ⟨f, later, rfl⟩ := List.exists_cons_of_ne_nil hne
  obtain ⟨first, -, hhead, hfirst, -⟩ := ends_segmentOf (hnamed f List.mem_cons_self)
  obtain ⟨before, g, hlast⟩ := (List.eq_nil_or_concat' (f :: later)).resolve_left hne
  obtain ⟨-, last, -, -, hend, hspace⟩ := ends_segmentOf (hnamed g (by simp [hlast]))
  apply trimBy_eq_of_ends _ hfirst _ hspace
  · rw [hcanonical, List.map_cons, head?_intercalate (hsegment f), hhead]
  · rw [hcanonical, hlast, List.map_append, List.map_singleton, getLast?_intercalate (hsegment g), hend]

/-- **The canonical form is read back.** -/
theorem read_canonical (h : WellFormed fields) :
    readFieldDefinitions isWhitespace (fieldDefsToCanonicalString fields) = some fields := by
  have hcomma : ∀ segment ∈ fields.map segmentOf, ',' ∉ segment := by
    intro segment hsegment
    obtain ⟨f, hf, rfl⟩ := List.mem_map.mp hsegment
    intro hmem
    rw [segmentOf, List.mem_append, List.mem_append] at hmem
    rcases hmem with (hmem | hmem) | hmem
    · exact (isWhitespace_of_isNamePart (isNamePart_of_mem_asStr hmem)).2.2 rfl
    · exact absurd (List.mem_singleton.mp hmem) (by decide)
    · exact (isWhitespace_of_isNamePart (isNamePart_of_mem_name (h.named f hf) hmem)).2.2 rfl
  have hsplit : (fieldDefsToCanonicalString fields).splitOn ',' = fields.map segmentOf :=
    List.splitOn_intercalate ',' hcomma (by simpa using h.nonempty)
  have hfold := @foldlM_segmentOf [] fields h.named h.distinct h.count
  rw [readFieldDefinitions, ends_canonical h.named h.nonempty, hsplit, hfold]
  exact if_neg (Nat.not_lt_of_le h.short)

/-! ## The binary form -/

/-- How a field is hashed. -/
def fieldCode (f : FieldDef) : List UInt8 :=
  f.ty.toByte :: UInt8.ofNat (asBytes f.name).length :: asBytes f.name

theorem toByte_injective : Function.Injective FieldType.toByte := by
  intro ty ty'
  cases ty <;> cases ty' <;> simp [FieldType.toByte]

theorem length_asBytes_name {f : FieldDef} (h : isName f.name = true) :
    0 < (asBytes f.name).length ∧ (asBytes f.name).length ≤ MAX_FIELD_NAME_LEN := by
  have hlength : (asBytes f.name).length = f.name.length :=
    utf8Length_of_lt (lt_of_all_isNamePart (all_isNamePart_of_isName h))
  rw [hlength]
  cases hname : f.name with
  | nil =>
    rw [hname] at h
    cases h
  | cons first rest =>
    rw [hname] at h
    simp only [isName, Bool.and_eq_true, decide_eq_true_eq] at h
    exact ⟨Nat.succ_pos _, h.1.1⟩

theorem fieldCode_cut {f g : FieldDef} {u w : List UInt8} (hf : isName f.name = true) (hg : isName g.name = true)
    (h : fieldCode f ++ u = fieldCode g ++ w) : f = g ∧ u = w := by
  obtain ⟨hty, h⟩ := List.cons.inj h
  obtain ⟨hlength, h⟩ := List.cons.inj h
  have hlt : ∀ {f : FieldDef}, isName f.name = true → (asBytes f.name).length < 256 := fun hname =>
    lt_of_le_of_lt (length_asBytes_name hname).2 (by decide)
  have hlength := congrArg UInt8.toNat hlength
  rw [toNat_ofNat_of_lt (hlt hf), toNat_ofNat_of_lt (hlt hg)] at hlength
  obtain ⟨hname, hrest⟩ := List.append_inj h hlength
  exact ⟨congrArg₂ FieldDef.mk (asBytes_injective hname) (toByte_injective hty), hrest⟩

theorem flatMap_fieldCode_inj (hnamed : Named fields) (hnamed' : Named fields')
    (hlength : fields.length = fields'.length) (h : fields.flatMap fieldCode = fields'.flatMap fieldCode) :
    fields = fields' := by
  induction fields generalizing fields' with
  | nil => exact (List.eq_nil_of_length_eq_zero hlength.symm).symm
  | cons f later ih =>
    cases fields' with
    | nil => cases hlength
    | cons g later' =>
      rw [List.flatMap_cons, List.flatMap_cons] at h
      obtain ⟨rfl, hlater⟩ := fieldCode_cut (hnamed f List.mem_cons_self) (hnamed' g List.mem_cons_self) h
      rw [ih (fun f hf => hnamed f (List.mem_cons_of_mem _ hf)) (fun g hg => hnamed' g (List.mem_cons_of_mem _ hg))
        (Nat.succ.inj hlength) hlater]

/-- **The binary form determines the fields.** -/
theorem encodeCanonical_inj (h : WellFormed fields) (h' : WellFormed fields')
    (heq : encodeCanonicalFieldDefs fields = encodeCanonicalFieldDefs fields') : fields = fields' := by
  have hlt : ∀ {fields}, WellFormed fields → fields.length < 256 := fun h => lt_of_le_of_lt h.count (by decide)
  obtain ⟨hcount, hfields⟩ := List.cons.inj heq
  have hcount := congrArg UInt8.toNat hcount
  rw [toNat_ofNat_of_lt (hlt h), toNat_ofNat_of_lt (hlt h')] at hcount
  exact flatMap_fieldCode_inj h.named h'.named hcount hfields

/-! ## The parser -/

theorem parse_iff : parseFieldDefinitions s = .ok fields ↔ readFieldDefinitions isWhitespace s = some fields := by
  rw [← toOption_eq_some_iff, parseFieldDefinitions_toOption]

theorem wellFormed_of_parse (h : parseFieldDefinitions s = .ok fields) : WellFormed fields :=
  wellFormed_of_read (parse_iff.mp h)

theorem parse_canonical (h : WellFormed fields) :
    parseFieldDefinitions (fieldDefsToCanonicalString fields) = .ok fields :=
  parse_iff.mpr (read_canonical h)

theorem length_canonical (h : WellFormed fields) :
    (asBytes (fieldDefsToCanonicalString fields)).length ≤ MAX_FIELD_DEFS_STR_LEN := by
  have hlength : (asBytes (fieldDefsToCanonicalString fields)).length =
      (fieldDefsToCanonicalString fields).length := utf8Length_of_lt (canonical_lt h.named)
  rw [hlength]
  exact h.short

/-- The engine reads the stored form. -/
theorem schemaFields_of_canonical {schema : Schema} (h : WellFormed fields)
    (hstored : schema.fieldDefinitions = asBytes (fieldDefsToCanonicalString fields)) :
    Attestations.schemaFields schema = .ok fields := by
  rw [Attestations.schemaFields, Attestations.sorobanStringToStr, hstored, if_pos (length_canonical h),
    fromUtf8_asBytes]
  show (parseFieldDefinitions (fieldDefsToCanonicalString fields)).mapError _ = _
  rw [parse_canonical h]
  rfl

theorem readFieldDefs_eq_ok {bytes : List UInt8} (h : readFieldDefs bytes = .ok fields) :
    ∃ s, fromUtf8 bytes = some s ∧ parseFieldDefinitions s = .ok fields := by
  obtain ⟨s, hs, h⟩ := bind_eq_ok.mp h
  obtain ⟨-, -, hs⟩ := bind_eq_ok.mp hs
  refine ⟨s, okOr_eq_ok.mp hs, ?_⟩
  cases hparse : parseFieldDefinitions s with
  | error e =>
    rw [hparse] at h
    cases h
  | ok parsed =>
    rw [hparse] at h
    exact congrArg Except.ok (Except.ok.inj h)

end WellFormed

/-- What the canonical form promises. -/
structure CanonicalForm : Prop where
  fixed : ∀ s fields, parseFieldDefinitions s = .ok fields →
    parseFieldDefinitions (fieldDefsToCanonicalString fields) = .ok fields
  short : ∀ s fields, parseFieldDefinitions s = .ok fields →
    (asBytes (fieldDefsToCanonicalString fields)).length ≤ MAX_FIELD_DEFS_STR_LEN ∧
      fields.length ≤ MAX_FIELDS ∧ ∀ f ∈ fields, (asBytes f.name).length ≤ MAX_FIELD_NAME_LEN
  injective : ∀ s t fields fields', parseFieldDefinitions s = .ok fields →
    parseFieldDefinitions t = .ok fields' →
    encodeCanonicalFieldDefs fields = encodeCanonicalFieldDefs fields' → fields = fields'
  registered : ∀ (host : Host) env w args w', registerSchema host env w args = .ok w' →
    ∃ fields, readFieldDefs args.fieldDefinitions = .ok fields ∧ ∀ invs, ∃ schema,
      ((machine host).final w' invs).registry.schemas.lookup args.schemaId = some schema ∧
        Attestations.schemaFields schema = .ok fields

/-- **The canonical form is a fixed point**, and the engine reads from it what was registered, whatever the
registry was called for since. -/
theorem canonical_form : CanonicalForm where
  fixed s fields h := parse_canonical (wellFormed_of_parse h)
  short s fields h := by
    have hfields := wellFormed_of_parse h
    exact ⟨length_canonical hfields, hfields.count, fun f hf => (length_asBytes_name (hfields.named f hf)).2⟩
  injective s t fields fields' h h' := encodeCanonical_inj (wellFormed_of_parse h) (wellFormed_of_parse h')
  registered host env w args w' h := by
    obtain ⟨-, -, fields, hparsed, -, -, -, rfl⟩ := registerSchema_eq_ok.mp h
    obtain ⟨s, -, hparse⟩ := readFieldDefs_eq_ok hparsed
    refine ⟨fields, hparsed, fun invs => ?_⟩
    have hread : (w.register args fields env.sequence).registry.schemas.lookup args.schemaId =
        some (args.schema fields env.sequence) := Finmap.lookup_insert _
    obtain ⟨schema, hread', hkept⟩ := kept_run host hread invs
    refine ⟨schema, hread', schemaFields_of_canonical (wellFormed_of_parse hparse) ?_⟩
    rw [hkept.same]
    rfl

end OpaqueStellar.Schemas
