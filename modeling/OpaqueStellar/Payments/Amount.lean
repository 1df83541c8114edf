import Mathlib.Data.List.DropRight
import Mathlib.Tactic.LinearCombination
import OpaqueStellar.Relayer.Messages

/-! # Amounts as texts

`sdk/src/crypto/amount.ts`: stroops are written as a decimal number of XLM, and read back from one, without
floating point. -/

namespace OpaqueStellar.Payments

open OpaqueStellar.Lib OpaqueStellar.Schemas
open OpaqueStellar.Relayer (bigIntOfString)

def MAX_DECIMALS : ℕ := 7

/-! ## Texts of digits -/

section Digits

def isDigit (c : Char) : Bool := (Decimal.digitValue c).isSome

def digitOf (c : Char) : ℕ := (Decimal.digitValue c).getD 0

def digitsValue (s : Str) : ℕ := s.foldl (fun v c => 10 * v + digitOf c) 0

variable {s t : Str} {c : Char} {n : ℕ}

theorem isDigit_digit (h : n < 10) : isDigit (Decimal.digit n) = true := by
  rw [isDigit, Decimal.digitValue_digit h]
  rfl

theorem isDigit_encode : ∀ c ∈ Decimal.encode n, isDigit c = true := by
  intro c hc
  obtain ⟨d, hd, rfl⟩ := Decimal.mem_encode hc
  exact isDigit_digit hd

theorem eq_digit_of_isDigit (h : isDigit c = true) : ∃ d < 10, c = Decimal.digit d := by
  obtain ⟨d, hd⟩ := Option.isSome_iff_exists.mp h
  exact ⟨d, Decimal.digit_of_digitValue hd⟩

/-- A digit is none of the other characters that a reader looks for. -/
theorem digit_plain (h : isDigit c = true) : isSpace c = false ∧
    c ∉ ['x', 'X', 'o', 'O', 'b', 'B', '-', '+', '.'] := by
  obtain ⟨d, hd, rfl⟩ := eq_digit_of_isDigit h
  interval_cases d <;> decide

theorem foldl_digits (v : ℕ) :
    s.foldl (fun v c => 10 * v + digitOf c) v = v * 10 ^ s.length + digitsValue s := by
  induction s generalizing v with
  | nil => simp [digitsValue]
  | cons c s ih =>
    rw [digitsValue, List.foldl_cons, List.foldl_cons, ih, ih (10 * 0 + digitOf c), List.length_cons]
    ring

theorem digitsValue_append : digitsValue (s ++ t) = digitsValue s * 10 ^ t.length + digitsValue t := by
  rw [digitsValue, List.foldl_append, foldl_digits]
  rfl

theorem digitsValue_zeros : digitsValue (List.replicate n '0') = 0 := by
  induction n with
  | zero => rfl
  | succ n ih =>
    rw [List.replicate_succ', digitsValue_append, ih]
    decide

theorem mapM_digitValue (h : ∀ c ∈ s, isDigit c = true) :
    s.mapM Decimal.digitValue = some (s.map digitOf) := by
  induction s with
  | nil => rfl
  | cons c s ih =>
    rw [List.forall_mem_cons] at h
    obtain ⟨d, hd⟩ := Option.isSome_iff_exists.mp h.1
    simp [List.mapM_cons, hd, ih h.2, digitOf]

theorem ofDigits_reverse : Nat.ofDigits 10 (s.reverse.map digitOf) = digitsValue s := by
  induction s using List.reverseRecOn with
  | nil => rfl
  | append_singleton s c ih =>
    rw [List.reverse_append, List.reverse_singleton, List.singleton_append, List.map_cons, Nat.ofDigits_cons,
      ih, digitsValue_append]
    simp [digitsValue]
    ring

theorem decode_digits (h : ∀ c ∈ s, isDigit c = true) (hne : s ≠ []) :
    Decimal.decode s = some (digitsValue s) := by
  rw [Decimal.decode, if_neg hne, mapM_digitValue fun c hc => h c (List.mem_reverse.mp hc), Option.map_some,
    ofDigits_reverse]

/-- Nothing else is read as a number. -/
theorem isDigit_of_decode (h : Decimal.decode s = some n) : s ≠ [] ∧ ∀ c ∈ s, isDigit c = true := by
  have hdigits : ∀ t : Str, ∀ ds, t.mapM Decimal.digitValue = some ds → ∀ c ∈ t, isDigit c = true := by
    intro t
    induction t with
    | nil => simp
    | cons c t ih =>
      intro ds h
      rw [List.mapM_cons] at h
      obtain ⟨d, hd, h⟩ := Option.bind_eq_some_iff.mp h
      obtain ⟨ds', hds, -⟩ := Option.bind_eq_some_iff.mp h
      rw [List.forall_mem_cons, isDigit, hd]
      exact ⟨rfl, ih ds' hds⟩
  unfold Decimal.decode at h
  split at h
  · cases h
  · next hne =>
    obtain ⟨ds, hds, -⟩ := Option.map_eq_some_iff.mp h
    exact ⟨hne, fun c hc => hdigits _ ds hds c (List.mem_reverse.mpr hc)⟩

theorem digitsValue_encode : digitsValue (Decimal.encode n) = n := by
  have hne : Decimal.encode n ≠ [] := by
    obtain ⟨d, -, hhead⟩ := Decimal.encode_head n
    intro h
    simp [h] at hhead
  have hdecode := Decimal.decode_encode n
  rw [decode_digits isDigit_encode hne] at hdecode
  exact Option.some.inj hdecode

theorem trimSpaces_digits (h : ∀ c ∈ s, isDigit c = true) : trimSpaces s = s :=
  trimSpaces_eq_self fun c hc => (digit_plain (h c hc)).1

/-- A text of digits is not one of the other forms that `BigInt` reads. -/
theorem bigIntOfString_digits (h : ∀ c ∈ s, isDigit c = true) (hne : s ≠ []) :
    bigIntOfString s = some (digitsValue s : ℤ) := by
  have hplain : ∀ c ∈ s, c ∉ ['x', 'X', 'o', 'O', 'b', 'B', '-', '+', '.'] := fun c hc =>
    (digit_plain (h c hc)).2
  have hdecode := decode_digits h hne
  rw [bigIntOfString, trimSpaces_digits h]
  split
  case h_1 => exact absurd rfl hne
  case h_10 => rw [hdecode, Option.map_some]
  -- the texts of the other forms hold a character that is no digit
  all_goals simp at hplain

end Digits

/-! ## The functions -/

def padEnd (n : ℕ) (fill : Char) (s : Str) : Str := s ++ List.replicate (n - s.length) fill

def padStart (n : ℕ) (fill : Char) (s : Str) : Str := List.replicate (n - s.length) fill ++ s

/-- `-?` -/
def withoutSign : Str → Str
  | '-' :: rest => rest
  | s => s

/-- `/^-?\d+\.?\d*$/` -/
def isAmountText (s : Str) : Bool :=
  (withoutSign s).takeWhile isDigit ≠ [] && match (withoutSign s).dropWhile isDigit with
    | [] => true
    | '.' :: decimals => decimals.all isDigit
    | _ => false

def parseXlmToStroops (xlmString : Str) : Except Str ℤ :=
  let trimmed := trimSpaces xlmString
  if trimmed = [] then .error "XLM amount cannot be empty".toList
  else if ¬ isAmountText trimmed then .error ("Invalid XLM amount: ".toList ++ trimmed)
  else
    let isNegative := trimmed.head? = some '-'
    let absolute := if isNegative then trimmed.drop 1 else trimmed
    let parts := absolute.splitOn '.'
    let integerPart := if parts.getD 0 [] = [] then ['0'] else parts.getD 0 []
    let decimalPart := parts.getD 1 []
    if decimalPart.length > MAX_DECIMALS then
      .error ("XLM amount has too many decimal places (max ".toList ++ Decimal.encode MAX_DECIMALS ++
        "): ".toList ++ trimmed)
    else
      let paddedDecimal := padEnd MAX_DECIMALS '0' decimalPart
      match bigIntOfString (integerPart ++ paddedDecimal) with
      | none => .error ("Cannot convert ".toList ++ (integerPart ++ paddedDecimal) ++ " to a BigInt".toList)
      | some stroops => .ok (if isNegative then -stroops else stroops)

def parseHorizonBalanceToStroops (balanceString : Option Str) : ℤ :=
  match balanceString with
  | none => 0
  | some balance =>
    if trimSpaces balance = [] then 0
    else match parseXlmToStroops balance with
      | .ok stroops => stroops
      | .error _ => 0

def formatStroopsToXlm (stroops : ℤ) : Str :=
  let isNegative := stroops < 0
  let absolute := if isNegative then -stroops else stroops
  let stroopsString := padStart (MAX_DECIMALS + 1) '0' (Relayer.bigIntToString absolute)
  let cut := stroopsString.length - MAX_DECIMALS
  let integerPart := if stroopsString.take cut = [] then ['0'] else stroopsString.take cut
  let decimalPart := stroopsString.drop cut
  let trimmedDecimal := decimalPart.rdropWhile (· = '0')
  if trimmedDecimal = [] then if isNegative then '-' :: integerPart else integerPart
  else if isNegative then '-' :: (integerPart ++ '.' :: trimmedDecimal)
  else integerPart ++ '.' :: trimmedDecimal

/-! ## What a text is worth -/

def fractionValue : Str → ℚ
  | [] => 0
  | c :: s => (digitOf c + fractionValue s) / 10

def unsignedValue (s : Str) : ℚ :=
  digitsValue (s.takeWhile (· ≠ '.')) + fractionValue (s.dropWhile (· ≠ '.')).tail

/-- The number of XLM that a decimal text stands for. -/
def decimalValue (s : Str) : ℚ :=
  match trimSpaces s with
  | '-' :: rest => -unsignedValue rest
  | rest => unsignedValue rest

theorem fractionValue_mul {s : Str} : fractionValue s * 10 ^ s.length = digitsValue s := by
  induction s with
  | nil => simp [fractionValue, digitsValue]
  | cons c s ih =>
    have hcons : digitsValue (c :: s) = digitOf c * 10 ^ s.length + digitsValue s := by
      rw [← List.singleton_append, digitsValue_append]
      simp [digitsValue]
    rw [hcons, Nat.cast_add, ← ih, fractionValue, List.length_cons, pow_succ]
    push_cast
    ring

/-- The parts of a text that the regular expression accepts. -/
structure Spelling where
  negative : Bool
  integer : Str
  -- what follows the point, if there is one
  fraction : Option Str
  integer_ne : integer ≠ []
  integer_digits : ∀ c ∈ integer, isDigit c = true
  fraction_digits : ∀ decimals ∈ fraction, ∀ c ∈ decimals, isDigit c = true

namespace Spelling

variable (sp : Spelling)

def decimals : Str := sp.fraction.getD []

def absolute : Str := sp.integer ++ (match sp.fraction with
  | none => []
  | some decimals => '.' :: decimals)

def text : Str := if sp.negative then '-' :: sp.absolute else sp.absolute

def value : ℚ :=
  if sp.negative then -(digitsValue sp.integer + fractionValue sp.decimals)
  else digitsValue sp.integer + fractionValue sp.decimals

def stroops : ℤ :=
  if sp.negative then -(digitsValue (sp.integer ++ padEnd MAX_DECIMALS '0' sp.decimals) : ℤ)
  else digitsValue (sp.integer ++ padEnd MAX_DECIMALS '0' sp.decimals)

theorem decimals_digits : ∀ c ∈ sp.decimals, isDigit c = true := by
  unfold decimals
  cases h : sp.fraction with
  | none => simp
  | some decimals => exact sp.fraction_digits decimals h

theorem absolute_head : ∃ c rest, sp.absolute = c :: rest ∧ isDigit c = true := by
  obtain ⟨c, rest, hinteger⟩ := List.exists_cons_of_ne_nil sp.integer_ne
  refine ⟨c, rest ++ _, by rw [absolute, hinteger]; rfl, ?_⟩
  exact sp.integer_digits c (by simp [hinteger])

/-- The sign can be told from the digits. -/
theorem head_text : sp.text.head? = some '-' ↔ sp.negative = true := by
  obtain ⟨c, rest, habsolute, hc⟩ := sp.absolute_head
  have hne : c ≠ '-' := fun h => (digit_plain hc).2 (by simp [h])
  unfold text
  split
  · next h => simp [h]
  · next h => simp [h, habsolute, hne]

theorem drop_text : (if sp.negative = true then sp.text.drop 1 else sp.text) = sp.absolute := by
  unfold text
  split <;> rfl

theorem splitOn_absolute : sp.absolute.splitOn '.' = sp.integer :: sp.fraction.toList := by
  have hinteger : '.' ∉ sp.integer := fun h => (digit_plain (sp.integer_digits _ h)).2 (by simp)
  unfold absolute
  cases hfraction : sp.fraction with
  | none => simp [List.splitOn_eq_singleton hinteger]
  | some decimals =>
    have hdecimals : '.' ∉ decimals := fun h =>
      (digit_plain (sp.fraction_digits decimals hfraction _ h)).2 (by simp)
    simp [List.splitOn_append_cons_self_of_not_mem hinteger, List.splitOn_eq_singleton hdecimals]

theorem unsignedValue_absolute :
    unsignedValue sp.absolute = digitsValue sp.integer + fractionValue sp.decimals := by
  have hinteger : ∀ c ∈ sp.integer, decide (c ≠ '.') = true := by
    intro c hc
    have hplain := (digit_plain (sp.integer_digits c hc)).2
    simp only [List.mem_cons, not_or] at hplain
    simp [hplain]
  unfold unsignedValue absolute decimals
  cases hfraction : sp.fraction with
  | none =>
    rw [List.append_nil, List.takeWhile_eq_self_iff.mpr hinteger, List.dropWhile_eq_nil_iff.mpr hinteger]
    rfl
  | some decimals =>
    rw [List.takeWhile_append_of_pos hinteger, List.dropWhile_append_of_pos hinteger]
    simp

theorem withoutSign_text : withoutSign sp.text = sp.absolute := by
  obtain ⟨c, rest, habsolute, hc⟩ := sp.absolute_head
  have hne : c ≠ '-' := fun h => (digit_plain hc).2 (by simp [h])
  unfold text
  split
  · rfl
  · rw [habsolute]
    unfold withoutSign
    split
    · next h => exact absurd (List.cons.inj h).1 hne
    · rfl

theorem isAmountText_text : isAmountText sp.text = true := by
  have hpoint : isDigit '.' = false := by decide
  rw [isAmountText, sp.withoutSign_text, absolute, List.takeWhile_append_of_pos sp.integer_digits,
    List.dropWhile_append_of_pos sp.integer_digits]
  cases hfraction : sp.fraction with
  | none => simp [sp.integer_ne]
  | some decimals => simpa [sp.integer_ne, hpoint] using sp.fraction_digits decimals hfraction

/-- The regular expression accepts nothing else. -/
theorem exists_of_isAmountText {s : Str} (h : isAmountText s = true) : ∃ sp : Spelling, sp.text = s := by
  obtain ⟨negative, hs⟩ : ∃ negative : Bool,
      s = if negative then '-' :: withoutSign s else withoutSign s := by
    unfold withoutSign
    split
    · exact ⟨true, rfl⟩
    · exact ⟨false, rfl⟩
  rw [isAmountText, Bool.and_eq_true, decide_eq_true_eq] at h
  obtain ⟨hne, htail⟩ := h
  have hdigits : ∀ c ∈ (withoutSign s).takeWhile isDigit, isDigit c = true := fun c hc =>
    List.mem_takeWhile_imp hc
  have hwhole : (withoutSign s).takeWhile isDigit ++ (withoutSign s).dropWhile isDigit = withoutSign s :=
    List.takeWhile_append_dropWhile
  split at htail
  · next hdrop =>
    refine ⟨⟨negative, (withoutSign s).takeWhile isDigit, none, hne, hdigits, by simp⟩, ?_⟩
    rw [hdrop] at hwhole
    rw [text, absolute, hwhole, ← hs]
  · next decimals hdrop =>
    rw [List.all_eq_true] at htail
    refine ⟨⟨negative, (withoutSign s).takeWhile isDigit, some decimals, hne, hdigits,
      by simpa using htail⟩, ?_⟩
    rw [hdrop] at hwhole
    rw [text, absolute, hwhole, ← hs]
  · cases htail

/-- **Up to seven decimals, the whole text is read as one integer.** -/
theorem parse_text {s : Str} (h : trimSpaces s = sp.text) : parseXlmToStroops s =
    if sp.decimals.length ≤ MAX_DECIMALS then .ok sp.stroops
    else .error ("XLM amount has too many decimal places (max ".toList ++ Decimal.encode MAX_DECIMALS ++
      "): ".toList ++ sp.text) := by
  have hne : sp.text ≠ [] := by
    obtain ⟨c, rest, habsolute, -⟩ := sp.absolute_head
    unfold text
    split <;> simp [habsolute]
  have hparts : (sp.integer :: sp.fraction.toList).getD 1 [] = sp.decimals := by
    unfold decimals
    cases sp.fraction <;> rfl
  have hdigits : ∀ c ∈ sp.integer ++ padEnd MAX_DECIMALS '0' sp.decimals, isDigit c = true := by
    intro c hc
    rw [padEnd, List.mem_append, List.mem_append] at hc
    rcases hc with hc | hc | hc
    · exact sp.integer_digits c hc
    · exact sp.decimals_digits c hc
    · rw [List.eq_of_mem_replicate hc]
      decide
  have hstroops := bigIntOfString_digits hdigits (by simp [sp.integer_ne])
  simp only [parseXlmToStroops, h, hne, sp.isAmountText_text, not_true, if_false, sp.drop_text,
    sp.splitOn_absolute, hparts, List.getD_cons_zero, sp.integer_ne, hstroops, head_text]
  by_cases hlength : sp.decimals.length ≤ MAX_DECIMALS
  · rw [if_neg (by omega), if_pos hlength]
    rfl
  · rw [if_pos (by omega), if_neg hlength]

theorem decimalValue_text {s : Str} (h : trimSpaces s = sp.text) : decimalValue s = sp.value := by
  obtain ⟨c, rest, habsolute, hc⟩ := sp.absolute_head
  have hne : c ≠ '-' := fun h => (digit_plain hc).2 (by simp [h])
  unfold decimalValue value
  rw [h, ← sp.unsignedValue_absolute]
  by_cases hnegative : sp.negative = true
  · rw [text, if_pos hnegative, if_pos hnegative]
    rfl
  · rw [text, if_neg hnegative, if_neg hnegative, habsolute]
    split
    · next heq => exact absurd (List.cons.inj heq).1 hne
    · rfl

theorem stroops_eq (h : sp.decimals.length ≤ MAX_DECIMALS) : (sp.stroops : ℚ) = 10 ^ 7 * sp.value := by
  have hunsigned : (digitsValue (sp.integer ++ padEnd MAX_DECIMALS '0' sp.decimals) : ℚ) =
      10 ^ 7 * (digitsValue sp.integer + fractionValue sp.decimals) := by
    have hlength : (padEnd MAX_DECIMALS '0' sp.decimals).length = 7 := by
      rw [padEnd, List.length_append, List.length_replicate]
      exact Nat.add_sub_of_le h
    have hpow : (10 : ℚ) ^ 7 = 10 ^ sp.decimals.length * 10 ^ (MAX_DECIMALS - sp.decimals.length) := by
      rw [← pow_add, Nat.add_sub_of_le h]
      rfl
    rw [digitsValue_append, hlength, padEnd, digitsValue_append, digitsValue_zeros, List.length_replicate]
    push_cast
    rw [← fractionValue_mul (s := sp.decimals)]
    linear_combination -fractionValue sp.decimals * hpow
  unfold stroops value
  split
  · push_cast
    rw [hunsigned]
    ring
  · push_cast
    rw [hunsigned]

end Spelling

/-! ## Reading and writing -/

section Amounts

variable {s t : Str} {x y : ℤ}

/-- What is accepted, and what it is read as. -/
theorem parseXlmToStroops_eq_ok : parseXlmToStroops s = .ok x ↔
    ∃ sp : Spelling, trimSpaces s = sp.text ∧ sp.decimals.length ≤ MAX_DECIMALS ∧ sp.stroops = x := by
  constructor
  · intro h
    have hread : trimSpaces s ≠ [] ∧ isAmountText (trimSpaces s) = true := by
      refine ⟨fun hempty => ?_, ?_⟩
      · simp [parseXlmToStroops, hempty] at h
      · by_contra htext
        simp only [parseXlmToStroops, htext] at h
        split at h <;> simp at h
    obtain ⟨sp, hsp⟩ := Spelling.exists_of_isAmountText hread.2
    rw [sp.parse_text hsp.symm] at h
    split at h
    · next hlength => exact ⟨sp, hsp.symm, hlength, Except.ok.inj h⟩
    · cases h
  · rintro ⟨sp, hsp, hlength, rfl⟩
    rw [sp.parse_text hsp, if_pos hlength]

/-- **An accepted text is read exactly.** -/
theorem parseXlmToStroops_value (h : parseXlmToStroops s = .ok x) : (x : ℚ) = 10 ^ 7 * decimalValue s := by
  obtain ⟨sp, hsp, hlength, rfl⟩ := parseXlmToStroops_eq_ok.mp h
  rw [sp.decimalValue_text hsp, sp.stroops_eq hlength]

/-- The digits of a number, with a place for each decimal. -/
def padded (x : ℤ) : Str := padStart (MAX_DECIMALS + 1) '0' (Decimal.encode x.natAbs)

theorem padded_digits : ∀ c ∈ padded x, isDigit c = true := by
  intro c hc
  rw [padded, padStart, List.mem_append] at hc
  rcases hc with hc | hc
  · rw [List.eq_of_mem_replicate hc]
    decide
  · exact isDigit_encode c hc

theorem length_padded : MAX_DECIMALS < (padded x).length := by
  rw [padded, padStart, List.length_append, List.length_replicate]
  omega

theorem digitsValue_padded : digitsValue (padded x) = x.natAbs := by
  rw [padded, padStart, digitsValue_append, digitsValue_zeros, digitsValue_encode]
  omega

/-- Filling up again gives back the zeros that were left out. -/
theorem padEnd_rdropWhile (s : Str) : padEnd s.length '0' (s.rdropWhile (· = '0')) = s := by
  induction s using List.reverseRecOn with
  | nil => rfl
  | append_singleton s c ih =>
    by_cases hc : c = '0'
    · subst hc
      have hle : (s.rdropWhile (· = '0')).length ≤ s.length := (List.rdropWhile_prefix _ _).length_le
      rw [List.rdropWhile_concat_pos _ _ _ (by simp), padEnd, List.length_append, List.length_singleton,
        Nat.succ_sub hle, List.replicate_succ', ← List.append_assoc]
      rw [padEnd] at ih
      rw [ih]
    · rw [List.rdropWhile_concat_neg _ _ _ (by simpa using hc), padEnd, Nat.sub_self]
      simp

/-- The text that a number is written as. -/
def spelled (x : ℤ) : Spelling where
  negative := decide (x < 0)
  integer := (padded x).take ((padded x).length - MAX_DECIMALS)
  fraction :=
    let decimals := ((padded x).drop ((padded x).length - MAX_DECIMALS)).rdropWhile (· = '0')
    if decimals = [] then none else some decimals
  integer_ne := by
    rw [← List.length_pos_iff, List.length_take]
    have := length_padded (x := x)
    omega
  integer_digits c hc := padded_digits c (List.mem_of_mem_take hc)
  fraction_digits decimals hdecimals c hc := by
    dsimp only at hdecimals
    split at hdecimals
    · cases hdecimals
    · cases hdecimals
      exact padded_digits c (List.mem_of_mem_drop ((List.rdropWhile_prefix _ _).subset hc))

theorem formatStroopsToXlm_eq (x : ℤ) : formatStroopsToXlm x = (spelled x).text := by
  have hstring : padStart (MAX_DECIMALS + 1) '0' (Relayer.bigIntToString (if x < 0 then -x else x)) =
      padded x := by
    have habs : ¬ (if x < 0 then -x else x) < 0 := by split <;> omega
    rw [Relayer.bigIntToString, if_neg habs, padded]
    congr 2
    split <;> omega
  have hne := (spelled x).integer_ne
  simp only [formatStroopsToXlm, hstring]
  simp only [spelled] at hne
  rw [if_neg hne]
  simp only [Spelling.text, Spelling.absolute, spelled, decide_eq_true_eq]
  by_cases hdecimals : ((padded x).drop ((padded x).length - MAX_DECIMALS)).rdropWhile (· = '0') = []
  · simp [hdecimals]
  · simp [hdecimals]

theorem decimals_spelled (x : ℤ) : (spelled x).decimals =
    ((padded x).drop ((padded x).length - MAX_DECIMALS)).rdropWhile (· = '0') := by
  simp only [Spelling.decimals, spelled]
  split
  · next h => rw [h, Option.getD_none]
  · rfl

theorem stroops_spelled (x : ℤ) : (spelled x).stroops = x := by
  have hlength : ((padded x).drop ((padded x).length - MAX_DECIMALS)).length = MAX_DECIMALS := by
    have := length_padded (x := x)
    rw [List.length_drop]
    omega
  have hdecimals : padEnd MAX_DECIMALS '0' (spelled x).decimals =
      (padded x).drop ((padded x).length - MAX_DECIMALS) := by
    have hfilled := padEnd_rdropWhile ((padded x).drop ((padded x).length - MAX_DECIMALS))
    rwa [hlength, ← decimals_spelled] at hfilled
  have hinteger : (spelled x).integer = (padded x).take ((padded x).length - MAX_DECIMALS) := rfl
  have hnegative : (spelled x).negative = decide (x < 0) := rfl
  rw [Spelling.stroops, hdecimals, hinteger, hnegative, List.take_append_drop, digitsValue_padded]
  by_cases hx : x < 0
  · rw [if_pos (by simpa using hx)]
    omega
  · rw [if_neg (by simpa using hx)]
    omega

theorem length_decimals_spelled (x : ℤ) : (spelled x).decimals.length ≤ MAX_DECIMALS := by
  have hdrop : ((padded x).drop ((padded x).length - MAX_DECIMALS)).length ≤ MAX_DECIMALS := by
    rw [List.length_drop]
    omega
  rw [decimals_spelled]
  exact (List.rdropWhile_prefix _ _).length_le.trans hdrop

theorem trimSpaces_text (sp : Spelling) : trimSpaces sp.text = sp.text := by
  have habsolute : ∀ c ∈ sp.absolute, isSpace c = false := by
    intro c hc
    rw [Spelling.absolute, List.mem_append] at hc
    rcases hc with hc | hc
    · exact (digit_plain (sp.integer_digits c hc)).1
    · split at hc
      · cases hc
      · next decimals hfraction =>
        rcases List.mem_cons.mp hc with rfl | hc
        · decide
        · exact (digit_plain (sp.fraction_digits decimals hfraction c hc)).1
  refine trimSpaces_eq_self fun c hc => ?_
  unfold Spelling.text at hc
  split at hc
  · rcases List.mem_cons.mp hc with rfl | hc
    · decide
    · exact habsolute c hc
  · exact habsolute c hc

/-- **An amount that is written is read back.** -/
theorem parse_format (x : ℤ) : parseXlmToStroops (formatStroopsToXlm x) = .ok x := by
  refine parseXlmToStroops_eq_ok.mpr ⟨spelled x, ?_, length_decimals_spelled x, stroops_spelled x⟩
  rw [formatStroopsToXlm_eq, trimSpaces_text]

/-- Two spellings of one value are read as the same integer. -/
theorem parseXlmToStroops_congr (hs : parseXlmToStroops s = .ok x) (ht : parseXlmToStroops t = .ok y)
    (h : decimalValue s = decimalValue t) : x = y := by
  have hvalue : (x : ℚ) = y := by
    rw [parseXlmToStroops_value hs, parseXlmToStroops_value ht, h]
  exact_mod_cast hvalue

/-- **Amounts are converted exactly.** -/
theorem amount_conversion : (∀ x, parseXlmToStroops (formatStroopsToXlm x) = .ok x) ∧
    (∀ s x, parseXlmToStroops s = .ok x → (x : ℚ) = 10 ^ 7 * decimalValue s) ∧
    ∀ s t x y, parseXlmToStroops s = .ok x → parseXlmToStroops t = .ok y →
      decimalValue s = decimalValue t → formatStroopsToXlm x = formatStroopsToXlm y := by
  refine ⟨parse_format, fun s x h => parseXlmToStroops_value h, fun s t x y hs ht h => ?_⟩
  rw [parseXlmToStroops_congr hs ht h]

/-- Minus one half, spelled in two ways. -/
theorem amount_conversion_half : (-5000000 : ℤ) = (10 ^ 7 * decimalValue "-0.5".toList : ℚ) ∧
    ∃ x y, parseXlmToStroops "-0.5".toList = .ok x ∧ parseXlmToStroops " -00.500 ".toList = .ok y ∧
      formatStroopsToXlm x = formatStroopsToXlm y := by
  have hs : parseXlmToStroops "-0.5".toList = .ok (-5000000) := by decide
  have ht : parseXlmToStroops " -00.500 ".toList = .ok (-5000000) := by decide
  have hvalue : decimalValue "-0.5".toList = decimalValue " -00.500 ".toList := by
    linear_combination (parseXlmToStroops_value ht - parseXlmToStroops_value hs) / 10 ^ 7
  exact ⟨amount_conversion.2.1 _ _ hs, _, _, hs, ht, amount_conversion.2.2 _ _ _ _ hs ht hvalue⟩

end Amounts

end OpaqueStellar.Payments
