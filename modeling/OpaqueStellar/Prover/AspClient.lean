import Mathlib.Data.ZMod.Basic
import OpaqueStellar.Asp.Inclusion
import OpaqueStellar.Groth16.Verifier
import OpaqueStellar.Lib.Lists
import OpaqueStellar.Lib.Merkle

/-! # The client of the association set

`sdk/src/prove/asp-client.ts`. The server answers with whatever JSON it likes. What comes back is
replayed with the label, the root and the number of levels that it names itself; those that were asked
for are only sent. -/

namespace OpaqueStellar.Prover

open OpaqueStellar.Lib
open OpaqueStellar.Groth16 (scalarOrder)
open OpaqueStellar.Asp (isValidRoot isValidLabel)
open OpaqueStellar.Relayer (bigIntOfString bigIntOfValue bigIntOfValue_encode)
open OpaqueStellar.Schemas (Str)
open OpaqueStellar.Soroban (bind_eq_ok pure_eq_ok)

inductive AspError where
  -- "asp root must be a 0x-prefixed 32-byte hex string, got …"
  | badRoot (got : Str)
  -- "asp label must be a decimal field element, got …"
  | badLabel (got : Str)
  -- no answer in time
  | unreachable
  -- "ASP returned … for …"
  | status (code : ℕ)
  -- the body is not JSON
  | notJson
  -- a property or an item of `undefined` or `null`
  | typeError
  -- `BigInt` throws
  | bigInt
  -- "ASP inclusion proof is malformed: …"
  | malformed
  -- "ASP inclusion proof covers … levels, expected …"
  | levels
  -- "ASP inclusion proof does not reproduce its root: …"
  | root

inductive AspReply where
  | none
  -- `none` is a body that is not JSON
  | response (status : ℕ) (body : Option JsonValue)

structure FetchAspInclusionOptions where
  root : Str
  label : Str

/-- Go on if `c` holds. -/
def check (c : Prop) [Decidable c] (e : AspError) : Except AspError Unit :=
  if c then .ok () else .error e

/-- `value.name`, of a value that is there. -/
def readProperty (v : Option JsonValue) (name : String) : Except AspError (Option JsonValue) :=
  match v.bind (·.property name) with
  | some x => .ok x
  | none => .error .typeError

def readItem (v : Option JsonValue) (index : ℕ) : Except AspError (Option JsonValue) :=
  match v.bind (·.item index) with
  | some x => .ok x
  | none => .error .typeError

def toBigInt (v : Option JsonValue) : Except AspError ℤ :=
  match bigIntOfValue v with
  | some n => .ok n
  | none => .error .bigInt

section Client

-- `Number` of a string, and the hash of two field elements
variable (stringToNumber : Units → Double)
  (poseidon2 : ZMod scalarOrder → ZMod scalarOrder → ZMod scalarOrder)

/-- `hashFields` of two inputs; what the hash gives is reduced. -/
def hashFields (a b : ℤ) : ℤ := (poseidon2 a b).val

/-- `level < length` -/
def lessThan (level : ℕ) : Option JsonValue → Bool
  | some .null => false
  | some (.bool b) => decide (level = 0) && b
  | some (.number n) => below n
  | some (.string s) => below (stringToNumber s)
  | _ => false
where
  below : Double → Bool
    | .nan => false
    | .infinity negative => !negative
    | .finite n => decide ((level : ℚ) < n)

/-- The number of entries a value can have. -/
def entries : Option JsonValue → ℕ
  | some (.array items) => items.length
  | some (.string s) => s.length
  | some (.object members) => members.length
  | _ => 0

/-- The loop. An object with `fuel` entries, one of them its length, lacks one of the levels up to
`fuel`, and `BigInt` of nothing throws. -/
def replay (elements indices length : Option JsonValue) : ℕ → ℕ → ℤ → Except AspError ℤ
  | 0, level, computed =>
      if lessThan stringToNumber level length then .error .bigInt else .ok computed
  | fuel + 1, level, computed =>
      if lessThan stringToNumber level length then do
        let sibling ← readItem elements level >>= toBigInt
        let direction ← readItem indices level
        replay elements indices length fuel (level + 1)
          (if JsonValue.strictEq direction (some (.count 1)) then hashFields poseidon2 sibling computed
          else hashFields poseidon2 computed sibling)
      else .ok computed

def assertAspInclusionMatchesRoot (proof : JsonValue) : Except AspError Unit := do
  let elements ← readProperty (some proof) "pathElements"
  let length ← readProperty elements "length"
  let indices ← readProperty (some proof) "pathIndices"
  let indexLength ← readProperty indices "length"
  check (JsonValue.strictEq length indexLength = true) .malformed
  let levels ← readProperty (some proof) "levels"
  check (JsonValue.strictEq length levels = true) .levels
  let label ← readProperty (some proof) "label" >>= toBigInt
  let computed ← replay stringToNumber poseidon2 elements indices length (entries elements) 0 label
  let root ← readProperty (some proof) "root" >>= toBigInt
  check (computed = root) .root

def getJson : AspReply → Except AspError JsonValue
  | .none => .error .unreachable
  | .response status body =>
      if 200 ≤ status ∧ status < 300 then
        match body with
        | some value => .ok value
        | none => .error .notJson
      else .error (.status status)

def fetchAspInclusion (opts : FetchAspInclusionOptions) (reply : AspReply) :
    Except AspError JsonValue := do
  check (isValidRoot opts.root = true) (.badRoot opts.root)
  check (isValidLabel opts.label = true) (.badLabel opts.label)
  let proof ← getJson reply
  assertAspInclusionMatchesRoot stringToNumber poseidon2 proof
  pure proof

end Client

/-! ## What is asked of it -/

/-- The path in the body: arrays of as many numbers, and the directions are bits. -/
structure PathOf (proof : JsonValue) (path : List (ℤ × Bool)) : Prop where
  elements : ∃ items, proof.property "pathElements" = some (some (.array items)) ∧
    items.mapM (fun v => bigIntOfValue (some v)) = some (path.map (·.1))
  indices : proof.property "pathIndices" =
    some (some (.array (path.map fun s => .count (if s.2 then 1 else 0))))

def inField (s : ℤ × Bool) : ZMod scalarOrder × Bool := (s.1, s.2)

/-- The body holds a path of the circuit's depth, from the label that was asked for to the root that
was asked for. -/
def Asked (poseidon2 : ZMod scalarOrder → ZMod scalarOrder → ZMod scalarOrder)
    (opts : FetchAspInclusionOptions) (proof : JsonValue) : Prop :=
  ∃ path label root, bigIntOfString opts.label = some label ∧ bigIntOfString opts.root = some root ∧
    PathOf proof path ∧ path.length = 20 ∧
    ((Merkle.fold poseidon2 (label : ZMod scalarOrder) (path.map inField)).val : ℤ) = root

/-- Twenty elements, and twenty directions that are bits. -/
def TwentyLevels (proof : JsonValue) : Prop :=
  ∃ items bits, proof.property "pathElements" = some (some (.array items)) ∧
    proof.property "pathIndices" = some (some (.array bits)) ∧ items.length = 20 ∧
    bits.length = 20 ∧ ∀ v ∈ bits, v = .count 0 ∨ v = .count 1

/-- The body with the label and the root that were asked for. -/
def readdress (opts : FetchAspInclusionOptions) (proof : JsonValue) : JsonValue :=
  (proof.setProperty "label" (.string (Utf16.encode opts.label))).setProperty "root"
    (.string (Utf16.encode opts.root))

/-- The body names what was asked for, in whatever spelling. -/
def Names (opts : FetchAspInclusionOptions) (proof : JsonValue) : Prop :=
  (proof.property "label").bind bigIntOfValue = bigIntOfString opts.label ∧
    (proof.property "root").bind bigIntOfValue = bigIntOfString opts.root

/-! ## The check, on arrays -/

section Check

variable {stringToNumber : Units → Double}
  {poseidon2 : ZMod scalarOrder → ZMod scalarOrder → ZMod scalarOrder}

@[simp] theorem check_eq_ok {c : Prop} [Decidable c] {e : AspError} {u : Unit} :
    check c e = .ok u ↔ c := by
  unfold check
  split <;> simp_all

@[simp] theorem readProperty_eq_ok {v : JsonValue} {name : String} {x : Option JsonValue} :
    readProperty (some v) name = .ok x ↔ v.property name = some x := by
  unfold readProperty
  cases h : v.property name <;> simp [h]

@[simp] theorem toBigInt_eq_ok {v : Option JsonValue} {n : ℤ} :
    toBigInt v = .ok n ↔ bigIntOfValue v = some n := by
  unfold toBigInt
  cases h : bigIntOfValue v <;> simp

@[simp] theorem lessThan_count {level n : ℕ} :
    lessThan stringToNumber level (some (.count n)) = decide (level < n) := by
  simp [lessThan, lessThan.below, JsonValue.count]

/-- The direction that an entry stands for. -/
def direction (v : JsonValue) : Bool := JsonValue.strictEq (some v) (some (.count 1))

variable (stringToNumber poseidon2) in
theorem replay_arrays {items bits : List JsonValue} (hlength : items.length = bits.length)
    (rest level : ℕ) (hlevel : level + rest = items.length) (computed c : ℤ) :
    replay stringToNumber poseidon2 (some (.array items)) (some (.array bits))
        (some (.count items.length)) rest level computed = .ok c ↔
      ∃ siblings, (items.drop level).mapM (fun v => bigIntOfValue (some v)) = some siblings ∧
        Merkle.fold (hashFields poseidon2) computed (siblings.zip ((bits.drop level).map direction)) =
          c := by
  induction rest generalizing level computed with
  | zero =>
      have hend : items.drop level = [] := List.drop_eq_nil_of_le (by omega)
      have hdone : ¬ level < items.length := by omega
      simp [replay, hend, hdone, Merkle.fold]
  | succ rest ih =>
      have hlt : level < items.length := by omega
      have hlt' : level < bits.length := by omega
      have hitem : readItem (some (.array items)) level = .ok (some items[level]) := by
        simp [readItem, JsonValue.item, hlt]
      have hbit : readItem (some (.array bits)) level = .ok (some bits[level]) := by
        simp [readItem, JsonValue.item, hlt']
      have hunfold : replay stringToNumber poseidon2 (some (.array items)) (some (.array bits))
          (some (.count items.length)) (rest + 1) level computed =
          toBigInt (some items[level]) >>= fun sibling =>
            replay stringToNumber poseidon2 (some (.array items)) (some (.array bits))
              (some (.count items.length)) rest (level + 1)
              (Merkle.up (hashFields poseidon2) computed (sibling, direction bits[level])) := by
        rw [replay, if_pos (by simp [hlt]), hitem, hbit]
        rfl
      simp only [hunfold, bind_eq_ok, toBigInt_eq_ok, ih (level + 1) (by omega)]
      rw [List.drop_eq_getElem_cons hlt, List.drop_eq_getElem_cons hlt', List.mapM_cons]
      constructor
      · rintro ⟨sibling, hsibling, siblings, hsiblings, hfold⟩
        refine ⟨sibling :: siblings, ?_, ?_⟩
        · simp [hsibling, hsiblings]
        · exact hfold
      · rintro ⟨siblings, hall, hfold⟩
        obtain ⟨sibling, hsibling, hrest⟩ := Option.bind_eq_some_iff.mp hall
        obtain ⟨others, hothers, hcons⟩ := Option.bind_eq_some_iff.mp hrest
        cases hcons
        exact ⟨sibling, hsibling, others, hothers, hfold⟩

/-- What the check says of a body with two arrays of the same length. -/
theorem assert_arrays {proof : JsonValue} {items bits : List JsonValue}
    (hitems : proof.property "pathElements" = some (some (.array items)))
    (hbits : proof.property "pathIndices" = some (some (.array bits)))
    (hlength : items.length = bits.length) :
    assertAspInclusionMatchesRoot stringToNumber poseidon2 proof = .ok () ↔
      proof.property "levels" = some (some (.count items.length)) ∧
      ∃ label siblings root, (proof.property "label").bind bigIntOfValue = some label ∧
        items.mapM (fun v => bigIntOfValue (some v)) = some siblings ∧
        (proof.property "root").bind bigIntOfValue = some root ∧
        Merkle.fold (hashFields poseidon2) label (siblings.zip (bits.map direction)) = root := by
  have hlength' : bits.length = items.length := hlength.symm
  have hreplay := replay_arrays stringToNumber poseidon2 hlength items.length 0 (Nat.zero_add _)
  simp only [assertAspInclusionMatchesRoot, bind_eq_ok, readProperty_eq_ok, check_eq_ok,
    toBigInt_eq_ok, exists_const]
  constructor
  · rintro ⟨v, hv, n, hn, v', hv', n', hn', -, levels, hlevels, heq, label, ⟨x, hx, hlabel⟩, c, hc,
      root, ⟨y, hy, hroot⟩, rfl⟩
    rw [hitems] at hv
    rw [hbits] at hv'
    cases hv
    cases hv'
    cases hn
    obtain rfl := JsonValue.strictEq_count.mp heq
    obtain ⟨siblings, hsiblings, hfold⟩ := (hreplay label c).mp hc
    exact ⟨hlevels, label, siblings, c, Option.bind_eq_some_iff.mpr ⟨x, hx, hlabel⟩, hsiblings,
      Option.bind_eq_some_iff.mpr ⟨y, hy, hroot⟩, hfold⟩
  · rintro ⟨hlevels, label, siblings, root, hlabel, hsiblings, hroot, hfold⟩
    obtain ⟨x, hx, hlabel⟩ := Option.bind_eq_some_iff.mp hlabel
    obtain ⟨y, hy, hroot⟩ := Option.bind_eq_some_iff.mp hroot
    have hsame : JsonValue.strictEq (some (.count items.length)) (some (.count items.length)) = true :=
      JsonValue.strictEq_count.mpr rfl
    refine ⟨_, hitems, some (.count items.length), rfl, _, hbits, some (.count bits.length), rfl, ?_,
      _, hlevels, hsame, label, ⟨x, hx, hlabel⟩, root, (hreplay label root).mpr ⟨siblings, hsiblings, hfold⟩,
      root, ⟨y, hy, hroot⟩, rfl⟩
    rw [hlength']
    exact hsame

instance neZero_scalarOrder : NeZero scalarOrder := ⟨by decide⟩

/-- The loop reckons with integers, which are residues from the first level on. -/
theorem fold_hashFields (label : ℤ) {path : List (ℤ × Bool)} (h : path ≠ []) :
    Merkle.fold (hashFields poseidon2) label path =
      (Merkle.fold poseidon2 (label : ZMod scalarOrder) (path.map inField)).val := by
  have hcast : ∀ path : List (ℤ × Bool),
      ((Merkle.fold (hashFields poseidon2) label path : ℤ) : ZMod scalarOrder) =
        Merkle.fold poseidon2 (label : ZMod scalarOrder) (path.map inField) := by
    intro path
    induction path using List.reverseRecOn with
    | nil => rfl
    | append_singleton path s ih =>
        simp only [Merkle.fold, List.map_append, List.foldl_append, List.map_cons, List.map_nil,
          List.foldl_cons, List.foldl_nil] at ih ⊢
        rw [← ih]
        by_cases hside : s.2 = true <;>
          simp [Merkle.up, hside, inField, hashFields]
  rcases List.eq_nil_or_concat' path with rfl | ⟨path, s, rfl⟩
  · exact absurd rfl h
  · have hbefore := hcast path
    simp only [Merkle.fold, List.map_append, List.foldl_append, List.map_cons, List.map_nil,
      List.foldl_cons, List.foldl_nil] at hbefore ⊢
    rw [← hbefore]
    by_cases hside : s.2 = true <;> simp [Merkle.up, hside, inField, hashFields]

/-- Only objects have such a property. -/
theorem object_of_property {v x : JsonValue} {name : String} (h : v.property name = some (some x))
    (hname : name ≠ "length") : ∃ members, v = .object members := by
  cases v with
  | object members => exact ⟨members, rfl⟩
  | null | bool _ | number _ | string _ | array _ => simp [JsonValue.property, hname] at h

theorem property_readdress (opts : FetchAspInclusionOptions) {proof : JsonValue}
    (hproof : ∃ members, proof = .object members) :
    ((readdress opts proof).property "label").bind bigIntOfValue = bigIntOfString opts.label ∧
      ((readdress opts proof).property "root").bind bigIntOfValue = bigIntOfString opts.root ∧
      ∀ name, name ≠ "label" → name ≠ "root" →
        (readdress opts proof).property name = proof.property name := by
  obtain ⟨members, rfl⟩ := hproof
  refine ⟨?_, ?_, ?_⟩
  · rw [readdress, JsonValue.property_setProperty_of_ne _ _ (by decide),
      JsonValue.property_setProperty_self]
    exact bigIntOfValue_encode opts.label
  · have hset := JsonValue.property_setProperty_self
      (Dict.set members (JsonValue.units "label") (.string (Utf16.encode opts.label))) "root"
      (.string (Utf16.encode opts.root))
    exact (congrArg (·.bind bigIntOfValue) hset).trans (bigIntOfValue_encode opts.root)
  · intro name hlabel hroot
    rw [readdress, JsonValue.property_setProperty_of_ne _ _ hroot,
      JsonValue.property_setProperty_of_ne _ _ hlabel]

theorem direction_count (b : Bool) : direction (.count (if b then 1 else 0)) = b := by
  cases b <;> decide

theorem count_direction {v : JsonValue} (h : v = .count 0 ∨ v = .count 1) :
    .count (if direction v then 1 else 0) = v := by
  rcases h with rfl | rfl
  · exact congrArg _ (if_neg (by decide))
  · exact congrArg _ (if_pos (by decide))

theorem PathOf.twentyLevels {proof : JsonValue} {path : List (ℤ × Bool)} (h : PathOf proof path)
    (hlength : path.length = 20) : TwentyLevels proof := by
  obtain ⟨items, hitems, hnumbers⟩ := h.elements
  have hcount := length_of_mapM hnumbers
  rw [List.length_map, hlength] at hcount
  refine ⟨items, _, hitems, h.indices, hcount.symm, by rw [List.length_map, hlength], ?_⟩
  intro v hv
  obtain ⟨s, -, rfl⟩ := List.mem_map.mp hv
  cases s.2 with
  | false => exact .inl rfl
  | true => exact .inr rfl

/-- **The check that is missing.** Of a body that passes its own check: it is what was asked for exactly
when it has twenty levels and would pass with the label and the root that were asked for. -/
theorem asked_iff {opts : FetchAspInclusionOptions} {proof : JsonValue}
    (hpassed : assertAspInclusionMatchesRoot stringToNumber poseidon2 proof = .ok ()) :
    Asked poseidon2 opts proof ↔ TwentyLevels proof ∧
      assertAspInclusionMatchesRoot stringToNumber poseidon2 (readdress opts proof) = .ok () := by
  constructor
  · rintro ⟨path, label, root, hlabel, hroot, hpath, hlength, hfold⟩
    refine ⟨hpath.twentyLevels hlength, ?_⟩
    obtain ⟨items, hitems, hnumbers⟩ := hpath.elements
    have hcount := length_of_mapM hnumbers
    rw [List.length_map] at hcount
    obtain ⟨hreLabel, hreRoot, hsame⟩ := property_readdress opts
      (object_of_property hitems (by decide))
    obtain ⟨hlevels, -⟩ := (assert_arrays hitems hpath.indices
      (by rw [List.length_map, hcount])).mp hpassed
    refine (assert_arrays ((hsame _ (by decide) (by decide)).trans hitems)
      ((hsame _ (by decide) (by decide)).trans hpath.indices) (by rw [List.length_map, hcount])).mpr
      ⟨(hsame _ (by decide) (by decide)).trans hlevels, label, _, root, hreLabel.trans hlabel,
        hnumbers, hreRoot.trans hroot, ?_⟩
    have hdirections : ((path.map fun s : ℤ × Bool => JsonValue.count (if s.2 then 1 else 0)).map
        direction) = path.map (·.2) := by
      rw [List.map_map]
      exact List.map_congr_left fun s _ => direction_count s.2
    have hzip : (path.map (·.1)).zip (path.map (·.2)) = path := (List.zip_of_prod rfl rfl).symm
    rw [hdirections, hzip, fold_hashFields label (by rintro rfl; cases hlength), hfold]
  · rintro ⟨⟨items, bits, hitems, hbits, hitemCount, hbitCount, hbinary⟩, hasked⟩
    obtain ⟨hreLabel, hreRoot, hsame⟩ := property_readdress opts
      (object_of_property hitems (by decide))
    obtain ⟨-, label, siblings, root, hlabel, hnumbers, hroot, hfold⟩ := (assert_arrays
      ((hsame _ (by decide) (by decide)).trans hitems) ((hsame _ (by decide) (by decide)).trans hbits)
      (hitemCount.trans hbitCount.symm)).mp hasked
    have hcount := length_of_mapM hnumbers
    have hlength : siblings.length = (bits.map direction).length := by
      rw [List.length_map, hcount, hitemCount, hbitCount]
    refine ⟨siblings.zip (bits.map direction), label, root, hreLabel.symm.trans hlabel,
      hreRoot.symm.trans hroot, ⟨⟨items, hitems, ?_⟩, ?_⟩, ?_, ?_⟩
    · rw [hnumbers, List.map_fst_zip hlength.le]
    · have hback : ((siblings.zip (bits.map direction)).map fun s : ℤ × Bool =>
          JsonValue.count (if s.2 then 1 else 0)) =
          ((siblings.zip (bits.map direction)).map (·.2)).map fun b : Bool =>
            JsonValue.count (if b then 1 else 0) := by rw [List.map_map]; rfl
      rw [hback, List.map_snd_zip hlength.ge, List.map_map, hbits]
      have hsame' : bits.map ((fun b : Bool => JsonValue.count (if b then 1 else 0)) ∘ direction) =
          bits := (List.map_congr_left fun v hv => count_direction (hbinary v hv)).trans (List.map_id _)
      rw [hsame']
    · rw [List.length_zip, ← hlength, Nat.min_self, hcount, hitemCount]
    · rw [← fold_hashFields label ?_, hfold]
      intro hnil
      have hzero := congrArg List.length hnil
      rw [List.length_zip, ← hlength, Nat.min_self, hcount, hitemCount] at hzero
      cases hzero

theorem fetchAspInclusion_eq_ok {opts : FetchAspInclusionOptions} {reply : AspReply}
    {proof : JsonValue} :
    fetchAspInclusion stringToNumber poseidon2 opts reply = .ok proof ↔
      isValidRoot opts.root = true ∧ isValidLabel opts.label = true ∧ getJson reply = .ok proof ∧
        assertAspInclusionMatchesRoot stringToNumber poseidon2 proof = .ok () := by
  simp only [fetchAspInclusion, bind_eq_ok, check_eq_ok, exists_const, pure_eq_ok]
  constructor
  · rintro ⟨hroot, hlabel, value, hvalue, ⟨⟩, hpassed, rfl⟩
    exact ⟨hroot, hlabel, hvalue, hpassed⟩
  · rintro ⟨hroot, hlabel, hvalue, hpassed⟩
    exact ⟨hroot, hlabel, proof, hvalue, (), hpassed, rfl⟩

/-- A body that names what was asked for is checked for that. -/
theorem assert_readdress {opts : FetchAspInclusionOptions} {proof : JsonValue}
    (hnames : Names opts proof) (hlevels : TwentyLevels proof)
    (hpassed : assertAspInclusionMatchesRoot stringToNumber poseidon2 proof = .ok ()) :
    assertAspInclusionMatchesRoot stringToNumber poseidon2 (readdress opts proof) = .ok () := by
  obtain ⟨items, bits, hitems, hbits, hitemCount, hbitCount, -⟩ := hlevels
  obtain ⟨hreLabel, hreRoot, hsame⟩ := property_readdress opts
    (object_of_property hitems (by decide))
  obtain ⟨hcount, label, siblings, root, hlabel, hnumbers, hroot, hfold⟩ :=
    (assert_arrays hitems hbits (hitemCount.trans hbitCount.symm)).mp hpassed
  exact (assert_arrays ((hsame _ (by decide) (by decide)).trans hitems)
    ((hsame _ (by decide) (by decide)).trans hbits) (hitemCount.trans hbitCount.symm)).mpr
    ⟨(hsame _ (by decide) (by decide)).trans hcount, label, siblings, root,
      hreLabel.trans (hnames.1.symm.trans hlabel), hnumbers,
      hreRoot.trans (hnames.2.symm.trans hroot), hfold⟩

end Check

/-- **Fetched inclusion.** For every request and every answer: whatever is returned is what was asked
for exactly when a body that passes its own check has twenty elements with as many bits and passes the
check also with the label and the root that were asked for in place of its own. A body that names
these, in whatever spelling, and has twenty levels meets the condition. -/
theorem fetchAspInclusion_iff (stringToNumber : Units → Double)
    (poseidon2 : ZMod scalarOrder → ZMod scalarOrder → ZMod scalarOrder)
    (opts : FetchAspInclusionOptions) (reply : AspReply) :
    ((∀ proof, fetchAspInclusion stringToNumber poseidon2 opts reply = .ok proof →
        Asked poseidon2 opts proof) ↔
      ∀ proof, getJson reply = .ok proof → isValidRoot opts.root = true →
        isValidLabel opts.label = true →
        assertAspInclusionMatchesRoot stringToNumber poseidon2 proof = .ok () →
        TwentyLevels proof ∧
          assertAspInclusionMatchesRoot stringToNumber poseidon2 (readdress opts proof) = .ok ()) ∧
    ∀ proof, fetchAspInclusion stringToNumber poseidon2 opts reply = .ok proof →
      Names opts proof → TwentyLevels proof → Asked poseidon2 opts proof := by
  refine ⟨⟨?_, ?_⟩, ?_⟩
  · intro hasked proof hreply hroot hlabel hpassed
    exact (asked_iff hpassed).mp
      (hasked proof (fetchAspInclusion_eq_ok.mpr ⟨hroot, hlabel, hreply, hpassed⟩))
  · intro hcondition proof hfetched
    obtain ⟨hroot, hlabel, hreply, hpassed⟩ := fetchAspInclusion_eq_ok.mp hfetched
    exact (asked_iff hpassed).mpr (hcondition proof hreply hroot hlabel hpassed)
  · intro proof hfetched hnames hlevels
    obtain ⟨-, -, -, hpassed⟩ := fetchAspInclusion_eq_ok.mp hfetched
    exact (asked_iff hpassed).mpr ⟨hlevels, assert_readdress hnames hlevels hpassed⟩

namespace EmptyPath

def options : FetchAspInclusionOptions :=
  ⟨'0' :: 'x' :: List.replicate 64 'a', ['7']⟩

def bytes (s : String) : Units := JsonValue.units s

/-- No levels, and the root is the label. -/
def body : JsonValue := .object [
  (bytes "root", .string (bytes "0x05")),
  (bytes "label", .string (bytes "5")),
  (bytes "levels", .count 0),
  (bytes "pathElements", .array []),
  (bytes "pathIndices", .array [])]

end EmptyPath

/-- For every hash, a path of no levels from another label to another root is returned. -/
theorem fetchAspInclusion_emptyPath (stringToNumber : Units → Double)
    (poseidon2 : ZMod scalarOrder → ZMod scalarOrder → ZMod scalarOrder) :
    fetchAspInclusion stringToNumber poseidon2 EmptyPath.options
        (.response 200 (some EmptyPath.body)) = .ok EmptyPath.body ∧
      ¬ Asked poseidon2 EmptyPath.options EmptyPath.body := by
  have hitems : EmptyPath.body.property "pathElements" = some (some (.array [])) := rfl
  have hbits : EmptyPath.body.property "pathIndices" = some (some (.array [])) := rfl
  have hpassed : assertAspInclusionMatchesRoot stringToNumber poseidon2 EmptyPath.body = .ok () :=
    (assert_arrays hitems hbits rfl).mpr ⟨rfl, 5, [], 5, by decide, rfl, by decide, rfl⟩
  refine ⟨fetchAspInclusion_eq_ok.mpr ⟨by decide, by decide, rfl, hpassed⟩, ?_⟩
  intro hasked
  obtain ⟨⟨items, bits, hitems', -, hcount, -⟩, -⟩ := (asked_iff hpassed).mp hasked
  rw [hitems] at hitems'
  cases hitems'
  cases hcount

theorem fetchAspInclusion_wrong :
    fetchAspInclusion (fun _ => .nan) (fun left right => left + right) EmptyPath.options
        (.response 200 (some EmptyPath.body)) = .ok EmptyPath.body ∧
      ¬ Asked (fun left right => left + right) EmptyPath.options EmptyPath.body :=
  fetchAspInclusion_emptyPath _ _

end OpaqueStellar.Prover
