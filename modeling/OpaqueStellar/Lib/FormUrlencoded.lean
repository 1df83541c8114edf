import Mathlib.Tactic.IntervalCases
import OpaqueStellar.Lib.Codec
import OpaqueStellar.Lib.Text
import OpaqueStellar.Lib.Utf8

/-! # Forms as texts

Names with their values, written `name=value&name=value`. A space is a plus sign, letters and digits stand for
themselves, and anything else for the bytes of its UTF-8. A form is read back from its text. -/

namespace OpaqueStellar.Lib.Form

/-! ## Bytes -/

def upperDigit (n : ℕ) : Char := if n < 10 then Char.ofNat (48 + n) else Char.ofNat (55 + n)

def percentEncode (b : UInt8) : List Char := ['%', upperDigit (b.toNat / 16), upperDigit (b.toNat % 16)]

/-- A percent sign without two hexadecimal digits stands for itself. -/
def percentDecode : List Char → List UInt8
  | '%' :: a :: b :: rest =>
    match Hex.digitValue a, Hex.digitValue b with
    | some high, some low => UInt8.ofNat (high * 16 + low) :: percentDecode rest
    | _, _ => 0x25 :: percentDecode (a :: b :: rest)
  | c :: rest => String.utf8EncodeChar c ++ percentDecode rest
  | [] => []

/-! ## Texts -/

/-- The characters that stand for themselves. -/
def isPlain (c : Char) : Bool := c.isAlphanum || c ∈ ['*', '-', '.', '_']

def encodeChar (c : Char) : List Char :=
  if c = ' ' then ['+'] else if isPlain c then [c] else (String.utf8EncodeChar c).flatMap percentEncode

def encodeText (s : List Char) : List Char := s.flatMap encodeChar

def plusToSpace (c : Char) : Char := if c = '+' then ' ' else c

def decodeText (s : List Char) : List Char := Utf8Decoder.start.run (percentDecode (s.map plusToSpace))

/-! ## Forms -/

abbrev Entry := List Char × List Char

def encodeEntry (e : Entry) : List Char := encodeText e.1 ++ '=' :: encodeText e.2

def decodeEntry (s : List Char) : Entry :=
  (decodeText (s.takeWhile (· ≠ '=')), decodeText (s.dropWhile (· ≠ '=')).tail)

def serialize (entries : List Entry) : List Char := ['&'].intercalate (entries.map encodeEntry)

def parse (s : List Char) : List Entry := ((s.splitOn '&').filter (· ≠ [])).map decodeEntry

/-- The first value under a name is replaced, others are taken out. -/
def set (name value : List Char) : List Entry → List Entry
  | [] => [(name, value)]
  | e :: rest => if e.1 = name then (name, value) :: rest.filter (·.1 ≠ name) else e :: set name value rest

/-! ## A text is read back -/

section Texts

variable {c : Char} {n : ℕ} {rest : List Char}

theorem upperDigit_facts (h : n < 16) : Hex.digitValue (upperDigit n) = some n ∧
    (upperDigit n).isAlphanum = true := by
  interval_cases n <;> decide

theorem plusToSpace_alphanum (h : c.isAlphanum = true) : plusToSpace c = c :=
  if_neg fun hc => by rw [hc] at h; cases h

theorem percentDecode_percentEncode (b : UInt8) :
    percentDecode ((percentEncode b).map plusToSpace ++ rest) = b :: percentDecode rest := by
  have hb : b.toNat < 256 := b.toNat_lt
  obtain ⟨hhigh, hhighPlain⟩ := upperDigit_facts (show b.toNat / 16 < 16 by omega)
  obtain ⟨hlow, hlowPlain⟩ := upperDigit_facts (show b.toNat % 16 < 16 by omega)
  have hmap : (percentEncode b).map plusToSpace = percentEncode b := by
    rw [percentEncode, List.map_cons, List.map_cons, List.map_cons, plusToSpace_alphanum hhighPlain,
      plusToSpace_alphanum hlowPlain]
    rfl
  have hbyte : b.toNat / 16 * 16 + b.toNat % 16 = b.toNat := by omega
  rw [hmap, percentEncode, List.cons_append, List.cons_append, List.cons_append, List.nil_append,
    percentDecode, hhigh, hlow]
  show UInt8.ofNat (b.toNat / 16 * 16 + b.toNat % 16) :: _ = _
  rw [hbyte, UInt8.ofNat_toNat]

theorem percentDecode_flatMap (bytes : List UInt8) :
    percentDecode ((bytes.flatMap percentEncode).map plusToSpace ++ rest) = bytes ++ percentDecode rest := by
  induction bytes with
  | nil => rfl
  | cons b bytes ih =>
    rw [List.flatMap_cons, List.map_append, List.append_assoc, percentDecode_percentEncode, ih,
      List.cons_append]

theorem percentDecode_cons (h : c ≠ '%') :
    percentDecode (c :: rest) = String.utf8EncodeChar c ++ percentDecode rest := by
  rw [percentDecode]
  intro a b rest hc
  exact absurd hc h

theorem percentDecode_encodeChar :
    percentDecode ((encodeChar c).map plusToSpace ++ rest) = String.utf8EncodeChar c ++ percentDecode rest := by
  unfold encodeChar
  split
  · next hspace =>
    rw [hspace]
    exact percentDecode_cons (by decide)
  · split
    · next hplain =>
      have hpercent : c ≠ '%' := fun hc => by rw [hc] at hplain; cases hplain
      have hplus : c ≠ '+' := fun hc => by rw [hc] at hplain; cases hplain
      rw [List.map_singleton, plusToSpace, if_neg hplus]
      exact percentDecode_cons hpercent
    · exact percentDecode_flatMap _

theorem percentDecode_encodeText (s : List Char) :
    percentDecode ((encodeText s).map plusToSpace) = s.flatMap String.utf8EncodeChar := by
  induction s with
  | nil => rfl
  | cons c s ih =>
    rw [encodeText, List.flatMap_cons, List.map_append, percentDecode_encodeChar, List.flatMap_cons]
    exact congrArg _ ih

theorem decodeText_encodeText (s : List Char) : decodeText (encodeText s) = s := by
  rw [decodeText, percentDecode_encodeText, Utf8Decoder.run_utf8]

/-- The characters of an encoded text. -/
def isEncoded (c : Char) : Bool := c ∈ ['+', '%'] || isPlain c

theorem isEncoded_encodeText {s : List Char} : ∀ c ∈ encodeText s, isEncoded c = true := by
  intro c hc
  obtain ⟨d, -, hd⟩ := List.mem_flatMap.mp hc
  have hdigit : ∀ n < 16, isEncoded (upperDigit n) = true := by
    intro n hn
    simp [isEncoded, isPlain, (upperDigit_facts hn).2]
  unfold encodeChar at hd
  split at hd
  · rw [List.mem_singleton.mp hd]
    rfl
  · split at hd
    · next hplain =>
      rw [List.mem_singleton.mp hd, isEncoded, hplain, Bool.or_true]
    · obtain ⟨b, -, hb⟩ := List.mem_flatMap.mp hd
      have hlt : b.toNat < 256 := b.toNat_lt
      rw [percentEncode, List.mem_cons, List.mem_cons, List.mem_singleton] at hb
      rcases hb with rfl | rfl | rfl
      · rfl
      · exact hdigit _ (by omega)
      · exact hdigit _ (by omega)

end Texts

/-! ## A form is read back -/

section Forms

variable {entries : List Entry}

theorem decodeEntry_encodeEntry (e : Entry) : decodeEntry (encodeEntry e) = e := by
  have hname : ∀ c ∈ encodeText e.1, decide (c ≠ '=') = true := by
    intro c hc
    rw [decide_eq_true_eq]
    rintro rfl
    cases isEncoded_encodeText _ hc
  rw [decodeEntry, encodeEntry, List.takeWhile_append_of_pos hname, List.dropWhile_append_of_pos hname,
    List.takeWhile_cons_of_neg (by decide), List.dropWhile_cons_of_neg (by decide), List.append_nil,
    List.tail_cons, decodeText_encodeText, decodeText_encodeText]

theorem encodeEntry_ne_nil (e : Entry) : encodeEntry e ≠ [] :=
  List.append_ne_nil_of_right_ne_nil _ (List.cons_ne_nil _ _)

theorem isEncoded_encodeEntry {e : Entry} {c : Char} (hc : c ∈ encodeEntry e) : c = '=' ∨ isEncoded c = true := by
  rw [encodeEntry, List.mem_append, List.mem_cons] at hc
  rcases hc with hc | hc | hc
  · exact .inr (isEncoded_encodeText _ hc)
  · exact .inl hc
  · exact .inr (isEncoded_encodeText _ hc)

/-- **A form is read back from its text.** -/
theorem parse_serialize (entries : List Entry) : parse (serialize entries) = entries := by
  cases entries with
  | nil => rfl
  | cons e entries =>
    have hsep : ∀ s ∈ (e :: entries).map encodeEntry, '&' ∉ s := by
      intro s hs hmem
      obtain ⟨e', -, rfl⟩ := List.mem_map.mp hs
      rcases isEncoded_encodeEntry hmem with h | h <;> cases h
    have hne : ∀ s ∈ (e :: entries).map encodeEntry, decide (s ≠ []) = true := by
      intro s hs
      obtain ⟨e', -, rfl⟩ := List.mem_map.mp hs
      exact decide_eq_true (encodeEntry_ne_nil e')
    rw [parse, serialize, List.splitOn_intercalate '&' hsep (by simp), List.filter_eq_self.mpr hne, List.map_map]
    exact (List.map_congr_left fun e' _ => decodeEntry_encodeEntry e').trans (List.map_id _)

/-- The characters of a form's text. -/
def isFormChar (c : Char) : Bool := c ∈ ['&', '='] || isEncoded c

theorem isFormChar_serialize : ∀ c ∈ serialize entries, isFormChar c = true := by
  intro c hc
  rcases mem_intercalate hc with rfl | ⟨s, hs, hc⟩
  · rfl
  · obtain ⟨e, -, rfl⟩ := List.mem_map.mp hs
    rcases isEncoded_encodeEntry hc with rfl | h
    · rfl
    · rw [isFormChar, h, Bool.or_true]

/-- Other names keep their values. -/
theorem lookup_set (name value other : List Char) :
    (set name value entries).lookup other = if other = name then some value else entries.lookup other := by
  induction entries with
  | nil =>
    rw [set, List.lookup_cons]
    by_cases hother : other = name
    · rw [if_pos hother, beq_iff_eq.mpr hother]
    · rw [if_neg hother, beq_eq_false_iff_ne.mpr hother]
  | cons e entries ih =>
    have hfilter : other ≠ name → (entries.filter (·.1 ≠ name)).lookup other = entries.lookup other := by
      intro hother
      clear ih
      induction entries with
      | nil => rfl
      | cons e' entries ih =>
        by_cases he : e'.1 = name
        · have hne : (other == e'.1) = false := beq_eq_false_iff_ne.mpr (he ▸ hother)
          rw [List.filter_cons_of_neg (by simp [he]), ih, List.lookup_cons, hne]
        · rw [List.filter_cons_of_pos (by simp [he]), List.lookup_cons, List.lookup_cons, ih]
    unfold set
    by_cases he : e.1 = name
    · rw [if_pos he, List.lookup_cons, List.lookup_cons, he]
      by_cases hother : other = name
      · simp [hother]
      · rw [if_neg hother, beq_eq_false_iff_ne.mpr hother, hfilter hother]
    · rw [if_neg he, List.lookup_cons, List.lookup_cons, ih]
      by_cases hother : other = name
      · have hne : (other == e.1) = false := beq_eq_false_iff_ne.mpr fun h => he (h ▸ hother)
        rw [hne, if_pos hother]
      · simp only [if_neg hother]

end Forms

end OpaqueStellar.Lib.Form
