import OpaqueStellar.Lib.Json

/-! # JSON as text

`parse` is `JSON.parse`: one pass over the text, with the arrays and objects that are open on a stack. A
string may have any code units; a name that comes twice keeps its first place and its last value. The
`write` functions are `JSON.stringify`: half pairs and control characters are escaped, so that the text is
well formed. How numbers are written is a parameter.

What is written is read back (`run_writeString`, `run_writeObject`, `reads_writeValue`), and is one line
(`visible_writeValue`). -/

namespace OpaqueStellar.Lib.JsonText

open Utf16 (isHigh isLow)

/-! ## Numbers -/

def isDigit (c : Char) : Bool := '0' ≤ c && c ≤ '9'

def isNumberChar (c : Char) : Bool := isDigit c || c ∈ ['-', '+', '.', 'e', 'E']

/-- The digits after the point; none without one. -/
def readFraction (text : List Char) : Option (List Char × List Char) :=
  match text with
  | '.' :: rest => if rest.takeWhile isDigit = [] then none else some (rest.span isDigit)
  | _ => some ([], text)

/-- The exponent, up to the end. -/
def readExponent (text : List Char) : Option ℤ :=
  match text with
  | [] => some 0
  | e :: rest =>
    if e ≠ 'e' ∧ e ≠ 'E' then none
    else match rest with
      | '-' :: digits => (Decimal.decode digits).map fun n => -(n : ℤ)
      | '+' :: digits => (Decimal.decode digits).map fun n => (n : ℤ)
      | digits => (Decimal.decode digits).map fun n => (n : ℤ)

/-- A number without its sign. -/
def readMagnitude (text : List Char) : Option Double := do
  let (whole, rest) := text.span isDigit
  -- no zero stands before other digits
  if whole.head? = some '0' ∧ 1 < whole.length then none
  let (fraction, rest) ← readFraction rest
  let exponent ← readExponent rest
  let _ ← Decimal.decode whole
  let digits ← Decimal.decode (whole ++ fraction)
  pure (Double.round (digits * (10 : ℚ) ^ (exponent - fraction.length)))

def numberOfText : List Char → Option Double
  | '-' :: text => (readMagnitude text).map Double.neg
  | text => readMagnitude text

/-! ## The parser -/

/-- What is open around a value. -/
inductive Frame where
  | array (items : List JsonValue)
  | object (members : Dict Units JsonValue)
  -- the value will be the member of this name
  | member (members : Dict Units JsonValue) (name : Units)

inductive Mode where
  | value
  | firstItem
  | firstName
  | name
  | colon
  | string (isName : Bool) (units : Units)
  | escape (isName : Bool) (units : Units)
  | hex (isName : Bool) (units : Units) (digits : List ℕ)
  | number (text : List Char)
  | literal (rest : List Char) (value : JsonValue)
  -- after an item or a member
  | after
  | done (value : JsonValue)

abbrev State := Mode × List Frame

def isWhitespace (c : Char) : Bool := c ∈ [' ', '\t', '\n', '\r']

/-- A value is complete. -/
def complete (v : JsonValue) : List Frame → Option State
  | [] => some (.done v, [])
  | .array items :: frames => some (.after, .array (items ++ [v]) :: frames)
  | .member members name :: frames => some (.after, .object (members.set name v) :: frames)
  | .object _ :: _ => none

def startValue (c : Char) (frames : List Frame) : Option State :=
  if isWhitespace c then some (.value, frames)
  else if c = '"' then some (.string false [], frames)
  else if c = '[' then some (.firstItem, .array [] :: frames)
  else if c = '{' then some (.firstName, .object [] :: frames)
  else if c = 't' then some (.literal "rue".toList (.bool true), frames)
  else if c = 'f' then some (.literal "alse".toList (.bool false), frames)
  else if c = 'n' then some (.literal "ull".toList .null, frames)
  else if c = '-' ∨ isDigit c then some (.number [c], frames)
  else none

def close (c : Char) : List Frame → Option State
  | .array items :: frames => if c = ']' then complete (.array items) frames else none
  | .object members :: frames => if c = '}' then complete (.object members) frames else none
  | _ => none

def startName (c : Char) (mode : Mode) (frames : List Frame) : Option State :=
  if isWhitespace c then some (mode, frames)
  else if c = '"' then some (.string true [], frames)
  else none

def endString (isName : Bool) (units : Units) (frames : List Frame) : Option State :=
  if isName then
    match frames with
    | .object members :: frames => some (.colon, .member members units :: frames)
    | _ => none
  else complete (.string units) frames

/-- After a complete value. -/
def separate (s : State) (c : Char) : Option State :=
  match s with
  | (.after, frames) =>
    if isWhitespace c then some s
    else if c = ',' then
      match frames with
      | .array _ :: _ => some (.value, frames)
      | .object _ :: _ => some (.name, frames)
      | _ => none
    else close c frames
  | (.done _, _) => if isWhitespace c then some s else none
  | _ => none

/-- Escapes of one character that are written, and the units that they stand for. -/
def escapes : List (Char × UInt16) :=
  [('b', 0x08), ('t', 0x09), ('n', 0x0A), ('f', 0x0C), ('r', 0x0D), ('"', 0x22), ('\\', 0x5C)]

/-- A solidus is read as well. -/
def unescape (c : Char) : Option UInt16 := ((('/', 0x2F) :: escapes).find? fun e => e.1 = c).map (·.2)

def step (s : State) (c : Char) : Option State :=
  match s with
  | (.value, frames) => startValue c frames
  | (.firstItem, frames) =>
    if isWhitespace c then some s else if c = ']' then close c frames else startValue c frames
  | (.firstName, frames) => if c = '}' then close c frames else startName c .firstName frames
  | (.name, frames) => startName c .name frames
  | (.colon, frames) =>
    if isWhitespace c then some s else if c = ':' then some (.value, frames) else none
  | (.string isName units, frames) =>
    if c = '"' then endString isName units frames
    else if c = '\\' then some (.escape isName units, frames)
    else if c.toNat < 0x20 then none
    else some (.string isName (units ++ Utf16.encodeChar c), frames)
  | (.escape isName units, frames) =>
    if c = 'u' then some (.hex isName units [], frames)
    else (unescape c).map fun u => (.string isName (units ++ [u]), frames)
  | (.hex isName units digits, frames) =>
    (Hex.digitValue c).map fun d =>
      if digits.length = 3 then
        (.string isName (units ++ [UInt16.ofNat (Nat.ofDigits 16 (d :: digits))]), frames)
      else (.hex isName units (d :: digits), frames)
  | (.number text, frames) =>
    if isNumberChar c then some (.number (text ++ [c]), frames)
    else do
      let n ← numberOfText text
      let s ← complete (.number n) frames
      separate s c
  | (.literal rest v, frames) =>
    match rest with
    | [] => none
    | [last] => if c = last then complete v frames else none
    | next :: rest => if c = next then some (.literal rest v, frames) else none
  | (.after, _) => separate s c
  | (.done _, _) => separate s c

def run (s : State) (text : List Char) : Option State := text.foldlM step s

def finish : State → Option JsonValue
  | (.done v, _) => some v
  | (.number text, []) => (numberOfText text).map .number
  | _ => none

/-- `JSON.parse`; `none` where it throws. -/
def parse (text : List Char) : Option JsonValue := (run (.value, []) text).bind finish

/-! ## The writer -/

def hexDigits (n : ℕ) : List Char :=
  [Hex.digit (n / 4096 % 16), Hex.digit (n / 256 % 16), Hex.digit (n / 16 % 16), Hex.digit (n % 16)]

def escapeUnit (u : UInt16) : List Char :=
  match escapes.find? fun e => e.2 = u with
  | some e => ['\\', e.1]
  | none =>
    if u.toNat < 0x20 ∨ isHigh u ∨ isLow u then '\\' :: 'u' :: hexDigits u.toNat else [Char.ofNat u.toNat]

def escapeUnits : Units → List Char
  | [] => []
  | [u] => escapeUnit u
  | u :: v :: rest =>
    if isHigh u && isLow v then Utf16.pair u v :: escapeUnits rest
    else escapeUnit u ++ escapeUnits (v :: rest)

def writeString (s : Units) : List Char := '"' :: (escapeUnits s ++ ['"'])

/-- Members with the texts of their values. -/
def writeMembers : List (Units × List Char) → List Char
  | [] => []
  | [member] => writeString member.1 ++ ':' :: member.2
  | member :: members => writeString member.1 ++ ':' :: (member.2 ++ ',' :: writeMembers members)

def writeObject (members : List (Units × List Char)) : List Char := '{' :: (writeMembers members ++ ['}'])

/-! ## Strings are read back -/

section Strings

variable {s s' : State} {c : Char} {rest : List Char}

theorem run_cons (s : State) (c : Char) (rest : List Char) :
    run s (c :: rest) = (step s c).bind fun s' => run s' rest := List.foldlM_cons

theorem run_of_step (h : step s c = some s') : run s (c :: rest) = run s' rest := by
  rw [run_cons, h, Option.bind_some]

variable {isName : Bool} {units : Units} {frames : List Frame}

/-- A character that stands for itself. -/
theorem step_string (hquote : c ≠ '"') (hsolidus : c ≠ '\\') (hcontrol : ¬ c.toNat < 0x20) :
    step (.string isName units, frames) c =
      some (.string isName (units ++ Utf16.encodeChar c), frames) := by
  have hstep : step (.string isName units, frames) c =
      if c = '"' then endString isName units frames
      else if c = '\\' then some (.escape isName units, frames)
      else if c.toNat < 0x20 then none
      else some (.string isName (units ++ Utf16.encodeChar c), frames) := rfl
  rw [hstep, if_neg hquote, if_neg hsolidus, if_neg hcontrol]

theorem run_escape {e : Char × UInt16} (he : e ∈ escapes) :
    run (.string isName units, frames) ('\\' :: e.1 :: rest) =
      run (.string isName (units ++ [e.2]), frames) rest := by
  have hall : ∀ e ∈ escapes, e.1 ≠ 'u' ∧ unescape e.1 = some e.2 := by decide
  obtain ⟨hu, hunit⟩ := hall e he
  have hopen : step (.string isName units, frames) '\\' = some (.escape isName units, frames) := rfl
  have hread : step (.escape isName units, frames) e.1 =
      some (.string isName (units ++ [e.2]), frames) := by
    show (if e.1 = 'u' then _ else _) = _
    rw [if_neg hu, hunit]
    rfl
  rw [run_of_step hopen, run_of_step hread]

theorem step_hex {n : ℕ} (hn : n < 16) (digits : List ℕ) :
    step (.hex isName units digits, frames) (Hex.digit n) =
      some (if digits.length = 3 then
        (.string isName (units ++ [UInt16.ofNat (Nat.ofDigits 16 (n :: digits))]), frames)
      else (.hex isName units (n :: digits), frames)) := by
  show (Hex.digitValue (Hex.digit n)).map _ = _
  rw [Hex.digitValue_digit hn]
  rfl

theorem run_hexDigits {n : ℕ} (hn : n < 65536) :
    run (.hex isName units [], frames) (hexDigits n ++ rest) =
      run (.string isName (units ++ [UInt16.ofNat n]), frames) rest := by
  have hdigit : ∀ m, m % 16 < 16 := fun m => Nat.mod_lt m (by decide)
  have hsum : Nat.ofDigits 16 [n % 16, n / 16 % 16, n / 256 % 16, n / 4096 % 16] = n := by
    simp only [Nat.ofDigits_cons, Nat.ofDigits_nil]
    omega
  have hlast : [n / 16 % 16, n / 256 % 16, n / 4096 % 16].length = 3 := rfl
  show run _ (_ :: _ :: _ :: _ :: rest) = _
  rw [run_of_step (step_hex (hdigit _) _), if_neg (by simp), run_of_step (step_hex (hdigit _) _),
    if_neg (by simp), run_of_step (step_hex (hdigit _) _), if_neg (by simp),
    run_of_step (step_hex (hdigit _) _), if_pos hlast, hsum]

theorem run_escapeUnit (u : UInt16) :
    run (.string isName units, frames) (escapeUnit u ++ rest) =
      run (.string isName (units ++ [u]), frames) rest := by
  unfold escapeUnit
  split
  next e he =>
    have hu : e.2 = u := by simpa using List.find?_some he
    rw [← hu]
    exact run_escape (List.mem_of_find?_eq_some he)
  next hnone =>
    have hnot : ∀ e ∈ escapes, e.2 ≠ u := by simpa using hnone
    split
    · have hslash : step (.string isName units, frames) '\\' = some (.escape isName units, frames) := rfl
      have hu : step (.escape isName units, frames) 'u' = some (.hex isName units [], frames) := rfl
      rw [List.cons_append, List.cons_append, run_of_step hslash, run_of_step hu,
        run_hexDigits u.toNat_lt, UInt16.ofNat_toNat]
    next hplain =>
      rw [not_or, not_or, Bool.not_eq_true, Bool.not_eq_true] at hplain
      obtain ⟨hcontrol, hhigh, hlow⟩ := hplain
      have hself := Utf16.encodeChar_ofNat hhigh hlow
      -- the quote and the reverse solidus are among the escapes
      have hquote : Char.ofNat u.toNat ≠ '"' := by
        intro heq
        rw [heq] at hself
        exact hnot ('"', 0x22) (by decide) (List.singleton_inj.mp hself)
      have hsolidus : Char.ofNat u.toNat ≠ '\\' := by
        intro heq
        rw [heq] at hself
        exact hnot ('\\', 0x5C) (by decide) (List.singleton_inj.mp hself)
      have hcode : (Char.ofNat u.toNat).toNat = u.toNat := by
        have hu := u.toNat_lt
        have := of_decide_eq_false hhigh
        have := of_decide_eq_false hlow
        exact Utf16.toNat_ofNat (by omega)
      rw [List.singleton_append, run_of_step (step_string hquote hsolidus (by rwa [hcode])), hself]

theorem pair_not_escaped {u v : UInt16} (hu : isHigh u = true) (hv : isLow v = true) :
    0xFFFF < (Utf16.pair u v).toNat := by
  have hhigh := of_decide_eq_true hu
  have hlow := of_decide_eq_true hv
  have hcode : (Utf16.pair u v).toNat = 0x10000 + (u.toNat - 0xD800) * 0x400 + (v.toNat - 0xDC00) :=
    Utf16.toNat_ofNat (by omega)
  omega

theorem run_escapeUnits (written : Units) :
    run (.string isName units, frames) (escapeUnits written ++ rest) =
      run (.string isName (units ++ written), frames) rest := by
  induction written using escapeUnits.induct generalizing units with
  | case1 => rw [escapeUnits, List.nil_append, List.append_nil]
  | case2 u => exact run_escapeUnit u
  | case3 u v more hpair ih =>
      obtain ⟨hu, hv⟩ := Bool.and_eq_true_iff.mp hpair
      have hlarge := pair_not_escaped hu hv
      have hquote : Utf16.pair u v ≠ '"' := by
        intro heq
        rw [heq] at hlarge
        exact absurd hlarge (by decide)
      have hsolidus : Utf16.pair u v ≠ '\\' := by
        intro heq
        rw [heq] at hlarge
        exact absurd hlarge (by decide)
      rw [escapeUnits, if_pos hpair, List.cons_append,
        run_of_step (step_string hquote hsolidus (by omega)), Utf16.encodeChar_pair hu hv, ih,
        List.append_assoc]
      rfl
  | case4 u v more hpair ih =>
      rw [escapeUnits, if_neg hpair, List.append_assoc, run_escapeUnit, ih, List.append_assoc]
      rfl

theorem run_writeString (written : Units) :
    run (.value, frames) (writeString written ++ rest) =
      (complete (.string written) frames).bind fun s => run s rest := by
  have hopen : step (.value, frames) '"' = some (.string false [], frames) := rfl
  rw [writeString, List.cons_append, List.append_assoc, run_of_step hopen, run_escapeUnits,
    List.nil_append, List.singleton_append, run_cons]
  rfl

/-- The same for a name. -/
theorem run_writeString_name (members : Dict Units JsonValue) (written : Units) :
    run (.name, .object members :: frames) (writeString written ++ rest) =
      run (.colon, .member members written :: frames) rest := by
  have hopen : step (.name, .object members :: frames) '"' =
      some (.string true [], .object members :: frames) := rfl
  have hclose : step (.string true written, .object members :: frames) '"' =
      some (.colon, .member members written :: frames) := rfl
  rw [writeString, List.cons_append, List.append_assoc, run_of_step hopen, run_escapeUnits,
    List.singleton_append, List.nil_append, run_of_step hclose]

end Strings

/-! ## Numbers and objects are read back -/

section Values

variable {s : State} {c : Char} {rest : List Char} {frames : List Frame} {text : List Char} {v : JsonValue}

/-- The text of a value is read as the value, if a character follows that no number goes on with. -/
def Reads (text : List Char) (v : JsonValue) : Prop :=
  ∀ frames c rest, isNumberChar c = false →
    run (.value, frames) (text ++ c :: rest) = (complete v frames).bind fun s => run s (c :: rest)

theorem reads_writeString (written : Units) : Reads (writeString written) (.string written) :=
  fun _ _ _ _ => run_writeString written

theorem step_of_complete (h : complete v frames = some s) (c : Char) : step s c = separate s c := by
  match frames with
  | [] | .array _ :: _ | .member _ _ :: _ =>
      obtain rfl := Option.some.inj h
      rfl
  | .object _ :: _ => cases h

theorem run_number (hchars : ∀ c ∈ text, isNumberChar c = true) (start : List Char) :
    run (.number start, frames) (text ++ rest) = run (.number (start ++ text), frames) rest := by
  induction text generalizing start with
  | nil => rw [List.nil_append, List.append_nil]
  | cons c text ih =>
      rw [List.forall_mem_cons] at hchars
      have hstep : step (.number start, frames) c = some (.number (start ++ [c]), frames) :=
        if_pos hchars.1
      rw [List.cons_append, run_of_step hstep, ih hchars.2, List.append_assoc]
      rfl

theorem reads_number {n : Double} (hstart : ∀ frames, startValue c frames = some (.number [c], frames))
    (hchars : ∀ c ∈ text, isNumberChar c = true) (hnumber : numberOfText (c :: text) = some n) :
    Reads (c :: text) (.number n) := by
  intro frames next rest hnext
  have hnot : ¬ isNumberChar next = true := by rw [hnext]; exact Bool.false_ne_true
  have hopen : step (.value, frames) c = some (.number [c], frames) := hstart frames
  rw [List.cons_append, run_of_step hopen, run_number hchars, run_cons]
  have hstep : step (.number (c :: text), frames) next =
      (complete (.number n) frames).bind fun s => separate s next := by
    show (if isNumberChar next then _ else _) = _
    rw [if_neg hnot, hnumber]
    rfl
  rw [List.singleton_append, hstep]
  rcases hcomplete : complete (.number n) frames with - | s
  · rfl
  · rw [Option.bind_some, Option.bind_some, run_cons, step_of_complete hcomplete]

theorem reads_one : Reads ['1'] (.count 1) := by
  have hround : Double.round (((1 : ℕ) : ℚ) * 10 ^ ((0 : ℤ) - (0 : ℕ))) = .finite ((1 : ℕ) : ℚ) := by
    rw [Nat.cast_zero, sub_zero, zpow_zero, mul_one]
    exact Double.round_natCast (by decide)
  exact reads_number (fun _ => rfl) (List.forall_mem_nil _) (congrArg some hround)

/-- A member, with what follows it. -/
theorem run_member (hv : Reads text v) (hc : isNumberChar c = false) (members : Dict Units JsonValue)
    (name : Units) :
    run (.name, .object members :: frames) (writeString name ++ ':' :: (text ++ c :: rest)) =
      run (.after, .object (members.set name v) :: frames) (c :: rest) := by
  have hcolon : step (.colon, .member members name :: frames) ':' =
      some (.value, .member members name :: frames) := rfl
  rw [run_writeString_name, run_of_step hcolon, hv _ c rest hc]
  rfl

/-- Texts of members and their values. -/
abbrev Members := List.Forall₂ fun (written : Units × List Char) (member : Units × JsonValue) =>
  written.1 = member.1 ∧ Reads written.2 member.2

variable {texts : List (Units × List Char)} {members : Dict Units JsonValue}

theorem writeMembers_cons (first : Units × List Char) (hne : texts ≠ []) :
    writeMembers (first :: texts) = writeString first.1 ++ ':' :: (first.2 ++ ',' :: writeMembers texts) := by
  rw [writeMembers]
  exact hne

theorem run_writeMembers (h : Members texts members) (hne : texts ≠ []) (acc : Dict Units JsonValue) :
    run (.name, .object acc :: frames) (writeMembers texts ++ '}' :: rest) =
      (complete (.object (members.foldl (fun (acc : Dict Units JsonValue) e => acc.set e.1 e.2) acc))
        frames).bind fun s => run s rest := by
  induction h generalizing acc with
  | nil => exact absurd rfl hne
  | @cons written member texts members hfirst hmore ih =>
      obtain ⟨hname, hvalue⟩ := hfirst
      cases hmore with
      | nil =>
          rw [writeMembers, List.append_assoc, List.cons_append, run_member hvalue rfl, run_cons, hname]
          rfl
      | cons hsecond hmore =>
          have hcomma : step (.after, .object (acc.set written.1 member.2) :: frames) ',' =
              some (.name, .object (acc.set written.1 member.2) :: frames) := rfl
          rw [writeMembers_cons _ (List.cons_ne_nil _ _), List.append_assoc, List.cons_append,
            List.append_assoc, List.cons_append, run_member hvalue rfl, run_of_step hcomma,
            ih (List.cons_ne_nil _ _), hname]
          rfl

/-- The first name is read as the others are. -/
theorem run_firstName (hne : texts ≠ []) :
    run (.firstName, frames) (writeMembers texts ++ rest) =
      run (.name, frames) (writeMembers texts ++ rest) := by
  match texts with
  | [] => exact absurd rfl hne
  | [_] => rfl
  | _ :: _ :: _ => rfl

/-- **Objects are read back.** -/
theorem run_writeObject (h : Members texts members) (hdistinct : members.Distinct) :
    run (.value, frames) (writeObject texts ++ rest) =
      (complete (.object members) frames).bind fun s => run s rest := by
  have hopen : step (.value, frames) '{' = some (.firstName, .object [] :: frames) := rfl
  rw [writeObject, List.cons_append, List.append_assoc, run_of_step hopen, List.singleton_append]
  by_cases hempty : texts = []
  · subst hempty
    cases h
    rw [writeMembers, List.nil_append, run_cons]
    rfl
  · rw [run_firstName hempty, run_writeMembers h hempty, Dict.foldl_set members [] hdistinct]
    rfl

theorem parse_writeObject (h : Members texts members) (hdistinct : members.Distinct) :
    parse (writeObject texts) = some (.object members) := by
  have hrun := @run_writeObject [] [] texts members h hdistinct
  rw [List.append_nil] at hrun
  rw [parse, hrun]
  rfl

end Values

/-! ## Values are read back -/

mutual

/-- `JSON.stringify` -/
def writeValue (numberText : ℚ → List Char) : JsonValue → List Char
  | .null => "null".toList
  | .bool b => if b then "true".toList else "false".toList
  | .number (.finite n) => numberText n
  | .number _ => "null".toList
  | .string s => writeString s
  | .array items => '[' :: ([','].intercalate (writeItems numberText items) ++ [']'])
  | .object members => writeObject (writeFields numberText members)

def writeItems (numberText : ℚ → List Char) : List JsonValue → List (List Char)
  | [] => []
  | v :: items => writeValue numberText v :: writeItems numberText items

def writeFields (numberText : ℚ → List Char) : List (Units × JsonValue) → List (Units × List Char)
  | [] => []
  | (name, v) :: members => (name, writeValue numberText v) :: writeFields numberText members

end

/-- A text of this number. -/
def IsNumberText (text : List Char) (n : ℚ) : Prop :=
  ∃ c more, text = c :: more ∧ (c = '-' ∨ isDigit c = true) ∧ (∀ c ∈ more, isNumberChar c = true) ∧
    numberOfText text = some (.finite n)

/-- The names of every object are distinct, and every number is one that is written. -/
inductive Plain (numberText : ℚ → List Char) : JsonValue → Prop
  | null : Plain numberText .null
  | bool (b : Bool) : Plain numberText (.bool b)
  | finite {n : ℚ} (h : IsNumberText (numberText n) n) : Plain numberText (.number (.finite n))
  | nan : Plain numberText (.number .nan)
  | infinity (negative : Bool) : Plain numberText (.number (.infinity negative))
  | string (s : Units) : Plain numberText (.string s)
  | array {items : List JsonValue} (h : ∀ v ∈ items, Plain numberText v) : Plain numberText (.array items)
  | object {members : Dict Units JsonValue} (hdistinct : members.Distinct)
      (h : ∀ m ∈ members, Plain numberText m.2) : Plain numberText (.object members)

section Writing

variable {numberText : ℚ → List Char} {c : Char} {text rest : List Char} {frames : List Frame} {v : JsonValue}
  {texts : List (List Char)} {items : List JsonValue}

theorem writeValue_null : writeValue numberText .null = "null".toList := rfl

theorem writeValue_bool (b : Bool) :
    writeValue numberText (.bool b) = if b then "true".toList else "false".toList := rfl

theorem writeValue_finite (n : ℚ) : writeValue numberText (.number (.finite n)) = numberText n := rfl

theorem writeValue_string (s : Units) : writeValue numberText (.string s) = writeString s := rfl

theorem writeValue_array (items : List JsonValue) : writeValue numberText (.array items) =
    '[' :: ([','].intercalate (writeItems numberText items) ++ [']']) := rfl

theorem writeValue_object (members : Dict Units JsonValue) :
    writeValue numberText (.object members) = writeObject (writeFields numberText members) := rfl

theorem writeItems_cons (v : JsonValue) (items : List JsonValue) :
    writeItems numberText (v :: items) = writeValue numberText v :: writeItems numberText items := rfl

theorem writeFields_cons (name : Units) (v : JsonValue) (members : List (Units × JsonValue)) :
    writeFields numberText ((name, v) :: members) =
      (name, writeValue numberText v) :: writeFields numberText members := rfl

/-- A text that an array cannot end with. -/
def StartsValue (text : List Char) : Prop := ∃ c more, text = c :: more ∧ isWhitespace c = false ∧ c ≠ ']'

theorem mem_of_numberStart (h : c = '-' ∨ isDigit c = true) : c ∈ "-0123456789".toList := by
  rcases h with rfl | h
  · decide
  · have hall : ∀ k < 10, Char.ofNat (48 + k) ∈ "-0123456789".toList := by decide
    rw [isDigit, Bool.and_eq_true_iff, decide_eq_true_iff, decide_eq_true_iff] at h
    have hlow : 48 ≤ c.toNat := h.1
    have hhigh : c.toNat ≤ 57 := h.2
    have hc := hall (c.toNat - 48) (by omega)
    rwa [Nat.add_sub_cancel' hlow, Char.ofNat_toNat] at hc

theorem startValue_number (h : c = '-' ∨ isDigit c = true) (frames : List Frame) :
    startValue c frames = some (.number [c], frames) := by
  have hmem := mem_of_numberStart h
  simp at hmem
  rcases hmem with rfl | rfl | rfl | rfl | rfl | rfl | rfl | rfl | rfl | rfl | rfl <;> rfl

theorem writeValue_not_finite {n : Double} (h : ∀ q, n ≠ .finite q) :
    writeValue numberText (.number n) = "null".toList := by
  cases n with
  | finite q => exact absurd rfl (h q)
  | nan | infinity _ => rfl

theorem startsValue_writeValue (h : Plain numberText v) : StartsValue (writeValue numberText v) := by
  cases h with
  | null => exact ⟨'n', "ull".toList, rfl, rfl, by decide⟩
  | nan => exact ⟨'n', "ull".toList, writeValue_not_finite (by simp), rfl, by decide⟩
  | infinity negative => exact ⟨'n', "ull".toList, writeValue_not_finite (by simp), rfl, by decide⟩
  | bool b =>
      cases b
      · exact ⟨'f', "alse".toList, rfl, rfl, by decide⟩
      · exact ⟨'t', "rue".toList, rfl, rfl, by decide⟩
  | finite h =>
      obtain ⟨c, more, heq, hstart, -⟩ := h
      have hall : ∀ c ∈ "-0123456789".toList, isWhitespace c = false ∧ c ≠ ']' := by simp [isWhitespace]
      exact ⟨c, more, by rw [writeValue_finite, heq], hall c (mem_of_numberStart hstart)⟩
  | string s => exact ⟨'"', _, writeValue_string s, rfl, by decide⟩
  | array h => exact ⟨'[', _, writeValue_array _, rfl, by decide⟩
  | object hdistinct h => exact ⟨'{', _, writeValue_object _, rfl, by decide⟩

theorem run_literal (first : Char) (more : List Char) :
    run (.literal (first :: more) v, frames) (first :: more ++ rest) =
      (complete v frames).bind fun s => run s rest := by
  induction more generalizing first with
  | nil =>
      have hstep : step (.literal [first] v, frames) first = complete v frames := if_pos rfl
      rw [List.cons_append, run_cons, hstep]
      rfl
  | cons next more ih =>
      have hstep : step (.literal (first :: next :: more) v, frames) first =
          some (.literal (next :: more) v, frames) := if_pos rfl
      rw [List.cons_append, run_of_step hstep, ih]

/-- A literal that begins with a character of its own. -/
theorem reads_literal (next : Char) (more : List Char)
    (h : ∀ frames, startValue c frames = some (.literal (next :: more) v, frames)) :
    Reads (c :: next :: more) v := by
  intro frames d rest hd
  have hstep : step (.value, frames) c = some (.literal (next :: more) v, frames) := h frames
  rw [List.cons_append, run_of_step hstep, run_literal]

/-- Texts of items and their values. -/
abbrev Items := List.Forall₂ Reads

theorem run_items {values : List JsonValue} (h : Items texts values) (hne : texts ≠ [])
    (acc : List JsonValue) :
    run (.value, .array acc :: frames) ([','].intercalate texts ++ ']' :: rest) =
      (complete (.array (acc ++ values)) frames).bind fun s => run s rest := by
  induction h generalizing acc with
  | nil => exact absurd rfl hne
  | @cons text v texts values hfirst hmore ih =>
      cases hmore with
      | nil =>
          rw [List.intercalate_singleton, hfirst _ _ _ rfl, complete, Option.bind_some, run_cons]
          rfl
      | cons hsecond hmore =>
          have hcomma : step (.after, .array (acc ++ [v]) :: frames) ',' =
              some (.value, .array (acc ++ [v]) :: frames) := rfl
          rw [List.intercalate_cons_of_ne_nil (List.cons_ne_nil _ _), List.append_assoc, List.append_assoc,
            List.singleton_append, hfirst _ _ _ rfl, complete, Option.bind_some, run_of_step hcomma, ih (List.cons_ne_nil _ _),
            List.append_assoc]
          rfl

/-- The first item is read as the others are. -/
theorem run_firstItem (h : StartsValue text) :
    run (.firstItem, frames) (text ++ rest) = run (.value, frames) (text ++ rest) := by
  obtain ⟨c, more, rfl, hspace, hbracket⟩ := h
  rw [List.cons_append, run_cons, run_cons]
  have hspace' : ¬ isWhitespace c = true := by rw [hspace]; exact Bool.false_ne_true
  have hstep : step (.firstItem, frames) c = step (.value, frames) c := by
    show (if isWhitespace c then _ else if c = ']' then _ else _) = _
    rw [if_neg hspace', if_neg hbracket]
    rfl
  rw [hstep]

theorem reads_array {values : List JsonValue} (h : Items texts values)
    (hstart : ∀ text ∈ texts, StartsValue text) : Reads ('[' :: ([','].intercalate texts ++ [']'])) (.array values) := by
  intro frames d rest hd
  have hopen : step (.value, frames) '[' = some (.firstItem, .array [] :: frames) := rfl
  rw [List.cons_append, List.append_assoc, run_of_step hopen, List.singleton_append]
  cases h with
  | nil =>
      rw [List.intercalate_nil, List.nil_append, run_cons]
      rfl
  | @cons text v texts values hfirst hmore =>
      have hfirstItem : run (.firstItem, .array [] :: frames)
          ([','].intercalate (text :: texts) ++ ']' :: d :: rest) =
            run (.value, .array [] :: frames) ([','].intercalate (text :: texts) ++ ']' :: d :: rest) := by
        have htext := hstart text List.mem_cons_self
        by_cases hmany : texts = []
        · rw [hmany, List.intercalate_singleton]
          exact run_firstItem htext
        · rw [List.intercalate_cons_of_ne_nil hmany, List.append_assoc, List.append_assoc]
          exact run_firstItem htext
      rw [hfirstItem, run_items (.cons hfirst hmore) (List.cons_ne_nil _ _)]
      rfl

theorem mem_writeItems :
    text ∈ writeItems numberText items ↔ ∃ v ∈ items, writeValue numberText v = text := by
  induction items with
  | nil => simp [writeItems]
  | cons v items ih => simp [writeItems_cons, ih, eq_comm]

/-- The members of an object as they are read. -/
theorem members_writeFields {members : List (Units × JsonValue)}
    (h : ∀ m ∈ members, Reads (writeValue numberText m.2) m.2.reread) :
    Members (writeFields numberText members) (JsonValue.rereadMembers members) := by
  induction members with
  | nil => exact .nil
  | cons m members ih =>
      rw [List.forall_mem_cons] at h
      rw [writeFields_cons, JsonValue.rereadMembers]
      exact .cons ⟨rfl, h.1⟩ (ih h.2)

theorem items_writeItems (h : ∀ v ∈ items, Reads (writeValue numberText v) v.reread) :
    Items (writeItems numberText items) (JsonValue.rereadItems items) := by
  induction items with
  | nil => exact .nil
  | cons v items ih =>
      rw [List.forall_mem_cons] at h
      rw [writeItems_cons, JsonValue.rereadItems]
      exact .cons h.1 (ih h.2)

theorem keys_rereadMembers (members : List (Units × JsonValue)) :
    (JsonValue.rereadMembers members).map (·.1) = members.map (·.1) := by
  induction members with
  | nil => rfl
  | cons m members ih => rw [JsonValue.rereadMembers, List.map_cons, List.map_cons, ih]

/-- **What is written is read back**, whatever stands around it. -/
theorem reads_writeValue (h : Plain numberText v) : Reads (writeValue numberText v) v.reread := by
  induction h with
  | null => rw [writeValue_null, JsonValue.reread]; exact reads_literal 'u' "ll".toList fun _ => rfl
  | nan =>
      rw [writeValue_not_finite (by simp), JsonValue.reread]
      · exact reads_literal 'u' "ll".toList fun _ => rfl
      · simp
  | infinity negative =>
      rw [writeValue_not_finite (by simp), JsonValue.reread]
      · exact reads_literal 'u' "ll".toList fun _ => rfl
      · simp
  | bool b =>
      rw [writeValue_bool, JsonValue.reread]
      cases b
      · exact reads_literal 'a' "lse".toList fun _ => rfl
      · exact reads_literal 'r' "ue".toList fun _ => rfl
  | finite h =>
      obtain ⟨c, more, heq, hstart, hchars, hnumber⟩ := h
      rw [heq] at hnumber
      rw [writeValue_finite, JsonValue.reread, heq]
      exact reads_number (startValue_number hstart) hchars hnumber
  | string s =>
      rw [writeValue_string, JsonValue.reread]
      exact reads_writeString s
  | array h ih =>
      rw [writeValue_array, JsonValue.reread]
      refine reads_array (items_writeItems ih) ?_
      intro text htext
      obtain ⟨v, hv, rfl⟩ := mem_writeItems.mp htext
      exact startsValue_writeValue (h v hv)
  | object hdistinct h ih =>
      rw [writeValue_object, JsonValue.reread]
      intro frames d rest hd
      refine run_writeObject (members_writeFields ih) ?_
      rw [Dict.Distinct, keys_rereadMembers]
      exact hdistinct

theorem parse_writeValue {members : Dict Units JsonValue} (h : Plain numberText (.object members)) :
    parse (writeValue numberText (.object members)) = some (JsonValue.object members).reread := by
  cases h with
  | object hdistinct h =>
      rw [writeValue_object, JsonValue.reread]
      refine parse_writeObject (members_writeFields fun m hm => reads_writeValue (h m hm)) ?_
      rw [Dict.Distinct, keys_rereadMembers]
      exact hdistinct

/-! ### One line -/

/-- No control characters. -/
def Visible (text : List Char) : Prop := ∀ c ∈ text, 0x20 ≤ c.toNat

theorem Visible.append {text' : List Char} (h : Visible text) (h' : Visible text') :
    Visible (text ++ text') :=
  List.forall_mem_append.mpr ⟨h, h'⟩

theorem Visible.cons (hc : 0x20 ≤ c.toNat) (h : Visible text) : Visible (c :: text) :=
  List.forall_mem_cons.mpr ⟨hc, h⟩

theorem visible_escapeUnit (u : UInt16) : Visible (escapeUnit u) := by
  unfold escapeUnit
  split
  next e he =>
    have hall : ∀ e ∈ escapes, 0x20 ≤ e.1.toNat := by decide
    exact .cons (by decide) (.cons (hall e (List.mem_of_find?_eq_some he)) (List.forall_mem_nil _))
  next =>
    split
    · have hdigit : ∀ n < 16, 0x20 ≤ (Hex.digit n).toNat := by decide
      refine .cons (by decide) (.cons (by decide) ?_)
      simp only [Visible, hexDigits, List.forall_mem_cons]
      refine ⟨hdigit _ ?_, hdigit _ ?_, hdigit _ ?_, hdigit _ ?_, List.forall_mem_nil _⟩ <;> omega
    next hplain =>
      rw [not_or, not_or, Bool.not_eq_true, Bool.not_eq_true] at hplain
      obtain ⟨hcontrol, hhigh, hlow⟩ := hplain
      have hcode : (Char.ofNat u.toNat).toNat = u.toNat := by
        have hu := u.toNat_lt
        have := of_decide_eq_false hhigh
        have := of_decide_eq_false hlow
        exact Utf16.toNat_ofNat (by omega)
      exact .cons (by omega) (List.forall_mem_nil _)

theorem visible_escapeUnits (s : Units) : Visible (escapeUnits s) := by
  induction s using escapeUnits.induct with
  | case1 => exact List.forall_mem_nil _
  | case2 u => exact visible_escapeUnit u
  | case3 u v rest hpair ih =>
      obtain ⟨hu, hv⟩ := Bool.and_eq_true_iff.mp hpair
      have hlarge := pair_not_escaped hu hv
      rw [escapeUnits, if_pos hpair]
      exact .cons (by omega) ih
  | case4 u v rest hpair ih =>
      rw [escapeUnits, if_neg hpair]
      exact .append (visible_escapeUnit u) ih

theorem visible_writeString (s : Units) : Visible (writeString s) :=
  .cons (by decide) (.append (visible_escapeUnits s) (.cons (by decide) (List.forall_mem_nil _)))

theorem visible_intercalate (h : ∀ text ∈ texts, Visible text) : Visible ([','].intercalate texts) := by
  induction texts with
  | nil => exact List.forall_mem_nil _
  | cons text texts ih =>
      rw [List.forall_mem_cons] at h
      by_cases hmany : texts = []
      · rw [hmany, List.intercalate_singleton]
        exact h.1
      · rw [List.intercalate_cons_of_ne_nil hmany, List.append_assoc]
        exact .append h.1 (.cons (by decide) (ih h.2))

theorem visible_writeMembers {fields : List (Units × List Char)} (h : ∀ field ∈ fields, Visible field.2) :
    Visible (writeMembers fields) := by
  induction fields with
  | nil => exact List.forall_mem_nil _
  | cons field fields ih =>
      rw [List.forall_mem_cons] at h
      by_cases hmany : fields = []
      · rw [hmany, writeMembers]
        exact .append (visible_writeString _) (.cons (by decide) h.1)
      · rw [writeMembers_cons _ hmany]
        exact .append (visible_writeString _) (.cons (by decide) (.append h.1 (.cons (by decide) (ih h.2))))

theorem mem_writeFields {members : List (Units × JsonValue)} {field : Units × List Char}
    (h : field ∈ writeFields numberText members) : ∃ m ∈ members, writeValue numberText m.2 = field.2 := by
  induction members with
  | nil => simp [writeFields] at h
  | cons m members ih =>
      rw [writeFields_cons, List.mem_cons] at h
      rcases h with rfl | h
      · exact ⟨m, List.mem_cons_self, rfl⟩
      · obtain ⟨m', hm', heq⟩ := ih h
        exact ⟨m', List.mem_cons_of_mem m hm', heq⟩

theorem visible_number {n : ℚ} (h : IsNumberText text n) : Visible text := by
  obtain ⟨c, more, rfl, hstart, hchars, -⟩ := h
  have hall : ∀ c ∈ "-0123456789".toList ++ ['+', '.', 'e', 'E'], 0x20 ≤ c.toNat := by simp
  have hmem : ∀ c, isNumberChar c = true → c ∈ "-0123456789".toList ++ ['+', '.', 'e', 'E'] := by
    intro c hc
    rw [isNumberChar, Bool.or_eq_true_iff, decide_eq_true_iff] at hc
    rcases hc with hc | hc
    · exact List.mem_append_left _ (mem_of_numberStart (.inr hc))
    · revert hc
      simp
      grind
  exact .cons (hall c (List.mem_append_left _ (mem_of_numberStart hstart)))
    fun c hc => hall c (hmem c (hchars c hc))

/-- **A text is one line.** -/
theorem visible_writeValue (h : Plain numberText v) : Visible (writeValue numberText v) := by
  have hnull : Visible "null".toList := by simp [Visible]
  induction h with
  | null => rw [writeValue_null]; exact hnull
  | nan => rw [writeValue_not_finite (by simp)]; exact hnull
  | infinity negative => rw [writeValue_not_finite (by simp)]; exact hnull
  | bool b =>
      rw [writeValue_bool]
      cases b <;> simp [Visible]
  | finite h =>
      rw [writeValue_finite]
      exact visible_number h
  | string s =>
      rw [writeValue_string]
      exact visible_writeString s
  | array h ih =>
      rw [writeValue_array]
      refine .cons (by decide) (.append (visible_intercalate ?_) (.cons (by decide) (List.forall_mem_nil _)))
      intro text htext
      obtain ⟨v, hv, rfl⟩ := mem_writeItems.mp htext
      exact ih v hv
  | object hdistinct h ih =>
      rw [writeValue_object]
      refine .cons (by decide) (.append (visible_writeMembers ?_) (.cons (by decide) (List.forall_mem_nil _)))
      intro field hfield
      obtain ⟨m, hm, heq⟩ := mem_writeFields hfield
      rw [← heq]
      exact ih m hm

end Writing

example : parse "[\"\\u00e9\", [true , null]]".toList =
    some (.array [.string [0xE9], .array [.bool true, .null]]) := by rfl

end OpaqueStellar.Lib.JsonText
