import OpaqueStellar.Lib.Binary64
import OpaqueStellar.Lib.Codec
import OpaqueStellar.Lib.Dict
import OpaqueStellar.Lib.Utf16

/-! # JSON values as a script sees them

What a script does with a value of which it knows nothing: it reads properties and items, which may be
missing, and compares. A missing one is `none`; that there is nothing to read from, because the value is
`null`, is the outer `none`. -/

namespace OpaqueStellar.Lib

/-- A string of the script: code units, which need not be those of a text. -/
abbrev Units := List UInt16

inductive JsonValue where
  | null
  | bool (b : Bool)
  | number (n : Double)
  | string (s : Units)
  | array (items : List JsonValue)
  | object (members : List (Units × JsonValue))

namespace JsonValue

def units (s : String) : Units := Utf16.encode s.toList

/-- A number that counts. -/
def count (n : ℕ) : JsonValue := .number (.finite n)

/-- `value.name`, for names that values do not inherit. -/
def property (name : String) : JsonValue → Option (Option JsonValue)
  | .null => none
  | .object members => some (Dict.find members (units name))
  | .array items => some (if name = "length" then some (count items.length) else none)
  | .string s => some (if name = "length" then some (count s.length) else none)
  | _ => some none

/-- `value[index]` -/
def item (index : ℕ) : JsonValue → Option (Option JsonValue)
  | .null => none
  | .object members => some (Dict.find members (Utf16.encode (Decimal.encode index)))
  | .array items => some items[index]?
  | .string s => some (s[index]?.map fun u => .string [u])
  | _ => some none

/-- `a === b`, for values that come from different places: arrays and objects are never the same. -/
def strictEq : Option JsonValue → Option JsonValue → Bool
  | none, none => true
  | some .null, some .null => true
  | some (.bool a), some (.bool b) => a == b
  | some (.number a), some (.number b) => a == b && a != .nan
  | some (.string a), some (.string b) => a == b
  | _, _ => false

/-- `Boolean(value)` -/
def truthy : Option JsonValue → Bool
  | none | some .null => false
  | some (.bool b) => b
  | some (.number n) => n ≠ .nan && n ≠ .finite 0
  | some (.string s) => s ≠ []
  | some (.array _) | some (.object _) => true

/-- `object[name] = value` -/
def setProperty (v : JsonValue) (name : String) (value : JsonValue) : JsonValue :=
  match v with
  | .object members => .object (Dict.set members (units name) value)
  | other => other

/-- `value.name`, where there is something to read from. -/
def get (v : JsonValue) (name : String) : Option JsonValue := (v.property name).join

def isNull : JsonValue → Bool
  | .null => true
  | _ => false

mutual

/-- What comes back of a value that is written as JSON: numbers that are not finite become `null`. -/
def reread : JsonValue → JsonValue
  | .null => .null
  | .bool b => .bool b
  | .number (.finite n) => .number (.finite n)
  | .number _ => .null
  | .string s => .string s
  | .array items => .array (rereadItems items)
  | .object members => .object (rereadMembers members)

def rereadItems : List JsonValue → List JsonValue
  | [] => []
  | v :: items => reread v :: rereadItems items

def rereadMembers : List (Units × JsonValue) → List (Units × JsonValue)
  | [] => []
  | (name, v) :: members => (name, reread v) :: rereadMembers members

end

mutual

/-- `String(value)`, where numbers are written by `numberText`. An object whose `toString` is its own
has no text. -/
def toText (numberText : Double → Units) : JsonValue → Option Units
  | .null => some (units "null")
  | .bool b => some (units (if b then "true" else "false"))
  | .number n => some (numberText n)
  | .string s => some s
  | .array items => (itemTexts numberText items).map fun texts => (units ",").intercalate texts
  | .object members =>
    if (Dict.find members (units "toString")).isSome then none else some (units "[object Object]")

def itemTexts (numberText : Double → Units) : List JsonValue → Option (List Units)
  | [] => some []
  | v :: items => do
    let text ← if v.isNull then some [] else toText numberText v
    let texts ← itemTexts numberText items
    pure (text :: texts)

end

theorem count_inj {m n : ℕ} : count m = count n ↔ m = n := by
  simp [count]

theorem strictEq_count {v : Option JsonValue} {n : ℕ} :
    strictEq (some (count n)) v = true ↔ v = some (count n) := by
  match v with
  | some (.number m) =>
      have hnan : (Double.finite n != .nan) = true := rfl
      simp only [count, strictEq, hnan, Bool.and_true, beq_iff_eq, Option.some.injEq,
        JsonValue.number.injEq]
      exact eq_comm
  | none | some .null | some (.bool _) | some (.string _) | some (.array _) | some (.object _) =>
      simp [count, strictEq]

theorem units_injective {a b : String} (h : units a = units b) : a = b := by
  have hlist := congrArg Utf16.decode h
  rw [units, units, Utf16.decode_encode, Utf16.decode_encode] at hlist
  exact String.toList_injective hlist

theorem units_inj {a b : String} : units a = units b ↔ a = b := ⟨units_injective, congrArg units⟩

theorem rereadItems_eq_map (items : List JsonValue) : rereadItems items = items.map reread := by
  induction items with
  | nil => rw [rereadItems, List.map_nil]
  | cons v items ih => rw [rereadItems, List.map_cons, ih]

theorem find_rereadMembers (members : List (Units × JsonValue)) (name : Units) :
    Dict.find (rereadMembers members) name = (Dict.find members name).map reread := by
  induction members with
  | nil =>
    rw [rereadMembers]
    rfl
  | cons m members ih =>
    obtain ⟨name', v⟩ := m
    rw [rereadMembers]
    unfold Dict.find at *
    by_cases h : name' = name
    · simp [h]
    · simp [h, ih]

theorem get_reread_object (members : List (Units × JsonValue)) (name : String) :
    (object members).reread.get name = ((object members).get name).map reread := by
  rw [reread]
  exact find_rereadMembers members (units name)

@[simp] theorem get_object_nil (name : String) : (object []).get name = none := rfl

@[simp] theorem get_object_cons (name' : String) (v : JsonValue) (members : List (Units × JsonValue))
    (name : String) : (object ((units name', v) :: members)).get name =
      if name' = name then some v else (object members).get name := by
  by_cases h : name' = name
  · simp [JsonValue.get, property, Dict.find, h]
  · simp [JsonValue.get, property, Dict.find, h, units_inj]

@[simp] theorem reread_bool (b : Bool) : (bool b).reread = bool b := by
  rw [reread]

@[simp] theorem reread_string (s : Units) : (string s).reread = string s := by
  rw [reread]

@[simp] theorem reread_count (n : ℕ) : (count n).reread = count n := by
  rw [count, reread]

@[simp] theorem truthy_string {s : Units} : truthy (some (string s)) = true ↔ s ≠ [] := by
  simp [truthy]

theorem property_setProperty_self (members : List (Units × JsonValue)) (name : String)
    (value : JsonValue) :
    ((object members).setProperty name value).property name = some (some value) :=
  congrArg some (Dict.find_set_self _ _ _)

theorem property_setProperty_of_ne (v : JsonValue) {name other : String} (value : JsonValue)
    (h : other ≠ name) : (v.setProperty name value).property other = v.property other := by
  cases v with
  | object members =>
      have hunits : units other ≠ units name := fun heq => h (units_injective heq)
      exact congrArg some (Dict.find_set_of_ne members _ hunits)
  | null | bool _ | number _ | string _ | array _ => rfl

end JsonValue

end OpaqueStellar.Lib
