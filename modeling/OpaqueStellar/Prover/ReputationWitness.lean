import OpaqueStellar.Lib.Json
import OpaqueStellar.Publisher.Tree

/-! # The reputation witness of the SDK

`buildReputationWitnessV2` of `sdk/src/prove/reputation.ts`. The publisher's answer is whatever JSON came
back. Some of the numbers are reduced before they are written into the witness and some are not. -/

namespace OpaqueStellar.Prover.Reputation

open OpaqueStellar.Lib
open OpaqueStellar.Circuit (ReputationSignals SignalValues readSignal)
open OpaqueStellar.Publisher (Scalar)
open OpaqueStellar.Publisher.Tree (TREE_DEPTH)
open OpaqueStellar.Relayer (bigIntOfString bigIntOfValue bigIntOfValue_encode bigIntToString
  bigIntOfString_bigIntToString)
open OpaqueStellar.Schemas (Str)
open OpaqueStellar.Soroban (bind_eq_ok pure_eq_ok)

inductive WitnessError where
  -- a property of `undefined` or `null`, or something that is not a function or not iterable
  | typeError
  -- `BigInt` throws
  | bigInt
  -- "publisher proof must contain exactly 20 path elements and indices"
  | length
  -- "publisher proof path indices must be 0 or 1"
  | direction
  -- "publisher proof path does not match its root for the supplied attestation fields"
  | mismatch

/-- A big integer, or something else that `BigInt` is given. -/
inductive FieldValue where
  | bigint (n : ℤ)
  | other (v : JsonValue)

structure ReputationProveInput where
  attestationId : FieldValue
  stealthPrivKey : List UInt8
  externalNullifier : ℤ
  issuerPkX : FieldValue
  traitDataHash : FieldValue
  nonce : FieldValue
  publisherProof : JsonValue

/-- `field` -/
def field : FieldValue → Except WitnessError ℤ
  | .bigint n => .ok n
  | .other v => orThrow (bigIntOfValue (some v)) .bigInt

/-- `F.toObject(F.e(n))` -/
def toObject (n : ℤ) : ℤ := (n : Scalar).val

/-- `value.name`, of a value that is there. -/
def get (v : Option JsonValue) (name : String) : Except WitnessError (Option JsonValue) :=
  orThrow (v.bind (·.property name)) .typeError

/-- `value.map` and `[...value]`: a text of twenty characters is no path, so it does not get here. -/
def itemsOf : Option JsonValue → Except WitnessError (List JsonValue)
  | some (.array items) => .ok items
  | _ => .error .typeError

/-- `value.length !== 20` does not hold. -/
def hasDepth (v : Option JsonValue) : Except WitnessError Unit := do
  let length ← get v "length"
  require (JsonValue.strictEq (some (.count TREE_DEPTH)) length = true) .length

section Build

variable (hash2 : Scalar → Scalar → Scalar)
  (hash5 : Scalar → Scalar → Scalar → Scalar → Scalar → Scalar)

/-- The loop over the path, with the index and the hash so far: the siblings, and the hash at the end. -/
def climb (pathIndices : Option JsonValue) :
    List JsonValue → ℕ → ℤ → Except WitnessError (List ℤ × ℤ)
  | [], _, current => .ok ([], current)
  | element :: rest, index, current => do
      let value ← field (.other element)
      let sibling := toObject value
      let direction ← orThrow (pathIndices.bind (·.item index)) .typeError
      require (JsonValue.strictEq (some (.count 0)) direction = true ∨
        JsonValue.strictEq (some (.count 1)) direction = true) .direction
      let (siblings, root) ← climb pathIndices rest (index + 1)
        (if JsonValue.strictEq (some (.count 0)) direction = true then Publisher.Tree.hashFields hash2 current sibling
        else Publisher.Tree.hashFields hash2 sibling current)
      pure (sibling :: siblings, root)

/-- What a number of the path's directions is for the circuit. -/
def bitOf (v : JsonValue) : ℕ := if JsonValue.strictEq (some (.count 0)) (some v) = true then 0 else 1

def buildReputationWitnessV2 (input : ReputationProveInput) : Except WitnessError ReputationSignals := do
  let stealthPk := toObject (beNat input.stealthPrivKey)
  let schemaId ← field input.attestationId
  let issuerPkX ← field input.issuerPkX
  let issuerPkX := toObject issuerPkX
  let traitDataHash ← field input.traitDataHash
  let traitDataHash := toObject traitDataHash
  let nonce ← field input.nonce
  let nonce := toObject nonce
  let leaf : ℤ := (hash5 stealthPk schemaId issuerPkX traitDataHash nonce).val
  let root ← get (some input.publisherProof) "root"
  let pathElements ← get (some input.publisherProof) "pathElements"
  let pathIndices ← get (some input.publisherProof) "pathIndices"
  hasDepth pathElements
  hasDepth pathIndices
  let elements ← itemsOf pathElements
  let (merklePath, current) ← climb hash2 pathIndices elements 0 leaf
  let root ← orThrow (bigIntOfValue root) .bigInt
  let merkleRoot := toObject root
  require (current = merkleRoot) .mismatch
  let nullifierHash := Publisher.Tree.hashFields hash2 stealthPk input.externalNullifier
  let indices ← itemsOf pathIndices
  pure {
    stealthPk := bigIntToString stealthPk
    schemaId := bigIntToString schemaId
    issuerPkX := bigIntToString issuerPkX
    traitDataHash := bigIntToString traitDataHash
    nonce := bigIntToString nonce
    merklePath := merklePath.map bigIntToString
    merklePathIndices := indices.map bitOf
    merkleRoot := bigIntToString merkleRoot
    attestationId := bigIntToString schemaId
    externalNullifier := bigIntToString input.externalNullifier
    nullifierHash := bigIntToString nullifierHash }

end Build

/-! ## The checks -/

section Checks

variable {hash2 : Scalar → Scalar → Scalar}
  {hash5 : Scalar → Scalar → Scalar → Scalar → Scalar → Scalar}

@[simp] theorem cast_toObject (n : ℤ) : ((toObject n : ℤ) : Scalar) = n := by
  rw [toObject, Int.cast_natCast, ZMod.natCast_zmod_val]

@[simp] theorem cast_hashFields (a b : ℤ) : ((Publisher.Tree.hashFields hash2 a b : ℤ) : Scalar) = hash2 a b := by
  rw [Publisher.Tree.hashFields, Int.cast_natCast, ZMod.natCast_zmod_val]

@[simp] theorem readSignal_bigIntToString (n : ℤ) : readSignal (bigIntToString n) = some (n : Scalar) := by
  rw [readSignal, bigIntOfString_bigIntToString, Option.map_some]

@[simp] theorem itemsOf_eq_ok {v : Option JsonValue} {items : List JsonValue} :
    itemsOf v = .ok items ↔ v = some (.array items) := by
  unfold itemsOf
  split <;> simp_all

@[simp] theorem get_eq_ok {v : JsonValue} {name : String} {x : Option JsonValue} :
    get (some v) name = .ok x ↔ v.property name = some x := by
  rw [get, orThrow_eq_ok, Option.bind_some]

theorem hasDepth_array {items : List JsonValue} {u : Unit} :
    hasDepth (some (.array items)) = .ok u ↔ items.length = TREE_DEPTH := by
  have hlength : (JsonValue.array items).property "length" = some (some (.count items.length)) := rfl
  rw [hasDepth, bind_eq_ok]
  simp only [get_eq_ok, hlength, Option.some.injEq, exists_eq_left']
  rw [require_eq_ok, JsonValue.strictEq_count, Option.some.injEq, JsonValue.count_inj]

/-- The directions of a path are bits. -/
def AreBits (bits : List JsonValue) : Prop := ∀ v ∈ bits, v = .count 0 ∨ v = .count 1

/-- The side on which a sibling stands. -/
def sideOf (v : JsonValue) : Bool := decide (bitOf v = 1)

theorem sideOf_eq (v : JsonValue) : sideOf v = !JsonValue.strictEq (some (.count 0)) (some v) := by
  unfold sideOf bitOf
  cases JsonValue.strictEq (some (.count 0)) (some v) <;> rfl

/-- The loop takes a step up for each element, from an index on. -/
theorem climb_eq_ok {bits items : List JsonValue} {index : ℕ} (hlength : bits.length = index + items.length)
    {current root : ℤ} {siblings : List ℤ} :
    climb hash2 (some (.array bits)) items index current = .ok (siblings, root) ↔
      ∃ values, List.Forall₂ (fun v n => bigIntOfValue (some v) = some n) items values ∧
        AreBits (bits.drop index) ∧ siblings = values.map toObject ∧
        root = Merkle.fold (Publisher.Tree.hashFields hash2) current
          (siblings.zip ((bits.drop index).map sideOf)) := by
  induction items generalizing index current siblings with
  | nil =>
      have hend : bits.drop index = [] := List.drop_eq_nil_of_le (by rw [hlength]; rfl)
      simp [climb, hend, AreBits, Merkle.fold, eq_comm]
  | cons v items ih =>
      rw [List.length_cons] at hlength
      have hlt : index < bits.length := by omega
      have hitem : (some (JsonValue.array bits)).bind (·.item index) = some (some bits[index]) := by
        simp [JsonValue.item, hlt]
      have hdrop := List.drop_eq_getElem_cons hlt
      have hstep : ∀ sibling, (if JsonValue.strictEq (some (.count 0)) (some bits[index]) = true then
            Publisher.Tree.hashFields hash2 current sibling
          else Publisher.Tree.hashFields hash2 sibling current) =
          Merkle.up (Publisher.Tree.hashFields hash2) current (sibling, sideOf bits[index]) := by
        intro sibling
        rw [Merkle.up, sideOf_eq]
        cases JsonValue.strictEq (some (.count 0)) (some bits[index]) <;> rfl
      have hbits : AreBits (bits.drop index) ↔
          (bits[index] = .count 0 ∨ bits[index] = .count 1) ∧ AreBits (bits.drop (index + 1)) := by
        rw [AreBits, hdrop, List.forall_mem_cons, AreBits]
      have hfold : ∀ n values, Merkle.fold (Publisher.Tree.hashFields hash2) current
            (((n :: values).map toObject).zip ((bits.drop index).map sideOf)) =
          Merkle.fold (Publisher.Tree.hashFields hash2)
            (Merkle.up (Publisher.Tree.hashFields hash2) current (toObject n, sideOf bits[index]))
            ((values.map toObject).zip ((bits.drop (index + 1)).map sideOf)) := by
        intro n values
        rw [hdrop]
        rfl
      simp only [climb, hitem, bind_eq_ok, orThrow_eq_ok, require_eq_ok, pure_eq_ok, field,
        JsonValue.strictEq_count, hstep, Option.some.injEq, exists_eq_left', exists_const, hbits]
      constructor
      · rintro ⟨n, hn, hbit, ⟨rest, top⟩, hrest, heq⟩
        obtain ⟨rfl, rfl⟩ := Prod.mk.inj heq
        obtain ⟨values, hvalues, hothers, rfl, rfl⟩ := (ih (by omega)).mp hrest
        exact ⟨n :: values, .cons hn hvalues, ⟨hbit, hothers⟩, rfl, (hfold n values).symm⟩
      · rintro ⟨values, hvalues, ⟨hbit, hothers⟩, rfl, rfl⟩
        cases hvalues with
        | cons hn hvalues =>
            exact ⟨_, hn, hbit, (_, _), (ih (by omega)).mpr ⟨_, hvalues, hothers, rfl, hfold _ _⟩, rfl⟩

end Checks

/-! ## What it returns -/

section Returns

variable {hash2 : Scalar → Scalar → Scalar}
  {hash5 : Scalar → Scalar → Scalar → Scalar → Scalar → Scalar} {input : ReputationProveInput}

/-- The numbers of the attestation. -/
structure Fields (input : ReputationProveInput) (schemaId issuerPkX traitDataHash nonce : ℤ) : Prop where
  schemaId : field input.attestationId = .ok schemaId
  issuerPkX : field input.issuerPkX = .ok issuerPkX
  traitDataHash : field input.traitDataHash = .ok traitDataHash
  nonce : field input.nonce = .ok nonce

/-- The publisher's answer holds a path and a root. -/
structure PathOf (body : JsonValue) (items bits : List JsonValue) (values : List ℤ) (root : ℤ) : Prop where
  elements : body.property "pathElements" = some (some (.array items))
  indices : body.property "pathIndices" = some (some (.array bits))
  root : ∃ v, body.property "root" = some v ∧ bigIntOfValue v = some root
  length_elements : items.length = TREE_DEPTH
  length_indices : bits.length = TREE_DEPTH
  areBits : AreBits bits
  values : List.Forall₂ (fun v n => bigIntOfValue (some v) = some n) items values

/-- The leaf that the fields are hashed into. -/
def leafOf (hash5 : Scalar → Scalar → Scalar → Scalar → Scalar → Scalar) (input : ReputationProveInput)
    (schemaId issuerPkX traitDataHash nonce : ℤ) : Scalar :=
  hash5 (beNat input.stealthPrivKey) schemaId issuerPkX traitDataHash nonce

def signalsOf (hash2 : Scalar → Scalar → Scalar) (input : ReputationProveInput)
    (schemaId issuerPkX traitDataHash nonce : ℤ) (values : List ℤ) (bits : List JsonValue) (root : ℤ) :
    ReputationSignals where
  stealthPk := bigIntToString (toObject (beNat input.stealthPrivKey))
  schemaId := bigIntToString schemaId
  issuerPkX := bigIntToString (toObject issuerPkX)
  traitDataHash := bigIntToString (toObject traitDataHash)
  nonce := bigIntToString (toObject nonce)
  merklePath := (values.map toObject).map bigIntToString
  merklePathIndices := bits.map bitOf
  merkleRoot := bigIntToString (toObject root)
  attestationId := bigIntToString schemaId
  externalNullifier := bigIntToString input.externalNullifier
  nullifierHash := bigIntToString
    (Publisher.Tree.hashFields hash2 (toObject (beNat input.stealthPrivKey)) input.externalNullifier)

theorem build_eq_ok {s : ReputationSignals} :
    buildReputationWitnessV2 hash2 hash5 input = .ok s ↔
      ∃ schemaId issuerPkX traitDataHash nonce items bits values root,
        Fields input schemaId issuerPkX traitDataHash nonce ∧
        PathOf input.publisherProof items bits values root ∧
        Merkle.fold (Publisher.Tree.hashFields hash2)
            (leafOf hash5 input schemaId issuerPkX traitDataHash nonce).val
            ((values.map toObject).zip (bits.map sideOf)) = toObject root ∧
        s = signalsOf hash2 input schemaId issuerPkX traitDataHash nonce values bits root := by
  simp only [buildReputationWitnessV2, bind_eq_ok, get_eq_ok, itemsOf_eq_ok, orThrow_eq_ok, require_eq_ok,
    pure_eq_ok, cast_toObject, exists_const]
  constructor
  · rintro ⟨schemaId, hschema, issuerPkX, hissuer, traitDataHash, htrait, nonce, hnonce, root, hroot, elements,
      helements, indices, hindices, _, hdepth, _, hdepth', items, rfl, ⟨path, top⟩, hclimb, root', hroot',
      heq, bits, rfl, rfl⟩
    have hitems := hasDepth_array.mp hdepth
    have hbits := hasDepth_array.mp hdepth'
    obtain ⟨values, hvalues, hareBits, rfl, htop⟩ := (climb_eq_ok (by omega)).mp hclimb
    refine ⟨schemaId, issuerPkX, traitDataHash, nonce, items, bits, values, root',
      ⟨hschema, hissuer, htrait, hnonce⟩,
      ⟨helements, hindices, ⟨root, hroot, hroot'⟩, hitems, hbits, hareBits, hvalues⟩, ?_, rfl⟩
    exact htop.symm.trans heq
  · rintro ⟨schemaId, issuerPkX, traitDataHash, nonce, items, bits, values, root, hfields, hpath, hfold, rfl⟩
    obtain ⟨v, hv, hroot⟩ := hpath.root
    have hlength : bits.length = 0 + items.length := by
      rw [hpath.length_elements, hpath.length_indices, Nat.zero_add]
    have hclimb : climb hash2 (some (.array bits)) items 0
        (leafOf hash5 input schemaId issuerPkX traitDataHash nonce).val = .ok (values.map toObject, _) :=
      (climb_eq_ok hlength).mpr ⟨values, hpath.values, hpath.areBits, rfl, rfl⟩
    exact ⟨schemaId, hfields.schemaId, issuerPkX, hfields.issuerPkX, traitDataHash, hfields.traitDataHash,
      nonce, hfields.nonce, v, hv, _, hpath.elements, _, hpath.indices, (),
      hasDepth_array.mpr hpath.length_elements, (), hasDepth_array.mpr hpath.length_indices, items, rfl,
      _, hclimb, root, hroot, hfold, bits, rfl, rfl⟩

end Returns

/-! ## Reduced and unreduced -/

section Reduced

variable {hash2 : Scalar → Scalar → Scalar}
  {hash5 : Scalar → Scalar → Scalar → Scalar → Scalar → Scalar} {input : ReputationProveInput}
  {schemaId issuerPkX traitDataHash nonce : ℤ} {items bits : List JsonValue} {values : List ℤ} {root : ℤ}

/-- A path in the field. -/
def inField (path : List (ℤ × Bool)) : List (Scalar × Bool) := path.map fun s => ((s.1 : Scalar), s.2)

/-- The walk reckons with integers and is one in the field. -/
theorem cast_fold (leaf : ℤ) (path : List (ℤ × Bool)) :
    ((Merkle.fold (Publisher.Tree.hashFields hash2) leaf path : ℤ) : Scalar) =
      Merkle.fold hash2 (leaf : Scalar) (inField path) :=
  Merkle.map_fold cast_hashFields leaf path

/-- It does not matter to the hash whether the siblings are reduced. -/
theorem fold_toObject (leaf : ℤ) (values : List ℤ) (sides : List Bool) :
    Merkle.fold (Publisher.Tree.hashFields hash2) leaf ((values.map toObject).zip sides) =
      Merkle.fold (Publisher.Tree.hashFields hash2) leaf (values.zip sides) := by
  have hup : ∀ current n side, Merkle.up (Publisher.Tree.hashFields hash2) current (toObject n, side) =
      Merkle.up (Publisher.Tree.hashFields hash2) current (n, side) := by
    intro current n side
    simp only [Merkle.up, Publisher.Tree.hashFields, cast_toObject]
  rw [List.zip_map_left, Merkle.fold, Merkle.fold, List.foldl_map]
  congr 1
  funext current s
  exact hup current s.1 s.2

/-- What a walk ends with is reduced. -/
theorem toObject_fold (leaf : ℤ) {path : List (ℤ × Bool)} (h : path ≠ []) :
    toObject (Merkle.fold (Publisher.Tree.hashFields hash2) leaf path) =
      Merkle.fold (Publisher.Tree.hashFields hash2) leaf path := by
  have hhash : ∀ a b, toObject (Publisher.Tree.hashFields hash2 a b) = Publisher.Tree.hashFields hash2 a b := by
    intro a b
    rw [toObject, cast_hashFields, Publisher.Tree.hashFields]
  rcases List.eq_nil_or_concat' path with rfl | ⟨path, s, rfl⟩
  · exact absurd rfl h
  · rw [Merkle.fold, List.foldl_append, List.foldl_cons, List.foldl_nil, Merkle.up]
    split_ifs
    · exact hhash _ _
    · exact hhash _ _

theorem bitOf_eq (v : JsonValue) : bitOf v = if sideOf v then 1 else 0 := by
  unfold sideOf bitOf
  split <;> rfl

/-- The signals are numbers, and the numbers are these. -/
theorem numbers_signalsOf (hlength : values.length = bits.length) :
    (signalsOf hash2 input schemaId issuerPkX traitDataHash nonce values bits root).Numbers
      ⟨beNat input.stealthPrivKey, schemaId, issuerPkX, traitDataHash, nonce,
        inField (values.zip (bits.map sideOf)), root, schemaId, input.externalNullifier,
        hash2 (beNat input.stealthPrivKey) input.externalNullifier⟩ := by
  have hlength' : values.length = (bits.map sideOf).length := by rw [List.length_map, hlength]
  constructor
  case merklePath =>
    have hvalues : (values.zip (bits.map sideOf)).map (·.1) = values := by
      rw [List.map_fst_zip hlength'.le]
    conv_lhs => rw [signalsOf, ← hvalues]
    simp [inField, Function.comp_def]
  case merklePathIndices =>
    have hbits : (values.zip (bits.map sideOf)).map (·.2) = bits.map sideOf := by
      rw [List.map_snd_zip hlength'.ge]
    have hindices : bits.map bitOf = (bits.map sideOf).map fun side => if side then 1 else 0 := by
      simp [Function.comp_def, bitOf_eq]
    conv_lhs => rw [signalsOf, hindices, ← hbits]
    simp [inField, Function.comp_def]
  all_goals simp [signalsOf]

/-- **Soundness.** Whatever is returned satisfies the circuit. -/
theorem satisfy_of_build {s : ReputationSignals} (h : buildReputationWitnessV2 hash2 hash5 input = .ok s) :
    s.Satisfy hash2 hash5 TREE_DEPTH := by
  obtain ⟨schemaId, issuerPkX, traitDataHash, nonce, items, bits, values, root, hfields, hpath, hfold, rfl⟩ :=
    build_eq_ok.mp h
  have hvalues : values.length = TREE_DEPTH := hpath.values.length_eq ▸ hpath.length_elements
  have hlength : values.length = bits.length := hvalues.trans hpath.length_indices.symm
  have hdepth : (inField (values.zip (bits.map sideOf))).length = TREE_DEPTH := by
    rw [inField, List.length_map, List.length_zip, List.length_map, hpath.length_indices, hvalues, Nat.min_self]
  refine ((numbers_signalsOf hlength).satisfy_iff hdepth).mpr ⟨?_, rfl, rfl⟩
  have hcast := congrArg (fun n : ℤ => (n : Scalar)) hfold
  simp only [fold_toObject, cast_fold, cast_toObject, Int.cast_natCast, ZMod.natCast_zmod_val] at hcast
  exact hcast

/-- The publisher's answer carries this root and this path. -/
structure Carries (body : JsonValue) (p : Publisher.Tree.Path) : Prop where
  root : body.property "root" = some (some (.string (Utf16.encode p.root)))
  pathElements : body.property "pathElements" =
    some (some (.array (p.pathElements.map fun text => .string (Utf16.encode text))))
  pathIndices : body.property "pathIndices" = some (some (.array (p.pathIndices.map .count)))

/-- A path that is written down is read back. -/
theorem pathOf_of_carries {body : JsonValue} {p : Publisher.Tree.Path} {path : List (ℤ × Bool)}
    (hlength : path.length = TREE_DEPTH) (hwrites : p.Writes path root) (hcarries : Carries body p) :
    ∃ items bits, PathOf body items bits (path.map (·.1)) root ∧ bits.map sideOf = path.map (·.2) := by
  have hside : ∀ side : Bool, sideOf (.count (if side then 1 else 0)) = side := by
    intro side
    cases side <;> simp [sideOf, bitOf, JsonValue.strictEq, JsonValue.count]
  refine ⟨_, _, ⟨hcarries.pathElements, hcarries.pathIndices, ⟨_, hcarries.root, ?_⟩, ?_, ?_, ?_, ?_⟩, ?_⟩
  · rw [bigIntOfValue_encode, hwrites.root]
  · rw [List.length_map, hwrites.pathElements.length_eq, hlength]
  · rw [List.length_map, hwrites.pathIndices, List.length_map, hlength]
  · intro v hv
    rw [hwrites.pathIndices, List.map_map, List.mem_map] at hv
    obtain ⟨⟨n, side⟩, -, rfl⟩ := hv
    cases side
    · exact .inl rfl
    · exact .inr rfl
  · rw [List.forall₂_map_left_iff, List.forall₂_map_right_iff]
    refine hwrites.pathElements.imp fun text s h => ?_
    rw [bigIntOfValue_encode, h]
  · rw [hwrites.pathIndices, List.map_map, List.map_map]
    exact List.map_congr_left fun s _ => hside s.2

/-- **Completeness.** With the publisher's path for its leaf, a witness is returned. -/
theorem exists_build (hfields : Fields input schemaId issuerPkX traitDataHash nonce) {path : List (ℤ × Bool)}
    (hlength : path.length = TREE_DEPTH) {p : Publisher.Tree.Path}
    (hwrites : p.Writes path (Merkle.fold (Publisher.Tree.hashFields hash2)
      (leafOf hash5 input schemaId issuerPkX traitDataHash nonce).val path))
    (hcarries : Carries input.publisherProof p) :
    ∃ s, buildReputationWitnessV2 hash2 hash5 input = .ok s := by
  obtain ⟨items, bits, hpath, hsides⟩ := pathOf_of_carries hlength hwrites hcarries
  have hne : path ≠ [] := by
    rintro rfl
    cases hlength
  refine ⟨_, build_eq_ok.mpr ⟨schemaId, issuerPkX, traitDataHash, nonce, items, bits, _, _, hfields, hpath,
    ?_, rfl⟩⟩
  have hzip : (path.map (·.1)).zip (path.map (·.2)) = path := (List.zip_of_prod rfl rfl).symm
  rw [fold_toObject, hsides, hzip, toObject_fold _ hne]

end Reduced

/-- **The reputation witness of the SDK.** What it returns satisfies the circuit, whatever the publisher
has answered; and it returns when the publisher has answered with the path of a leaf that is the hash of
the attestation. -/
theorem reputation_witness_v2 (hash2 : Scalar → Scalar → Scalar)
    (hash5 : Scalar → Scalar → Scalar → Scalar → Scalar → Scalar) (toLowerCase : Str → Str)
    (input : ReputationProveInput) :
    (∀ s, buildReputationWitnessV2 hash2 hash5 input = .ok s → s.Satisfy hash2 hash5 20) ∧
      ∀ schemaId issuerPkX traitDataHash nonce, Fields input schemaId issuerPkX traitDataHash nonce →
        ∀ (leaves : List Str) (i : ℕ) (text leaf : Str) (leafIndex : ℕ) (p : Publisher.Tree.Path),
          leaves[i]? = some text →
          bigIntOfString (toLowerCase text) =
            some ((leafOf hash5 input schemaId issuerPkX traitDataHash nonce).val : ℤ) →
          toLowerCase leaf = toLowerCase text →
          Publisher.Tree.buildProof hash2 toLowerCase leaves leaf = .ok (leafIndex, p) →
          Carries input.publisherProof p → ∃ s, buildReputationWitnessV2 hash2 hash5 input = .ok s := by
  refine ⟨fun s h => satisfy_of_build h, ?_⟩
  intro schemaId issuerPkX traitDataHash nonce hfields leaves i text leaf leafIndex p _ hvalue hleaf hproof hcarries
  obtain ⟨value, path, hread, hlength, hwrites⟩ := Publisher.Tree.writes_of_buildProof hproof
  rw [hleaf, hvalue] at hread
  obtain rfl := Option.some.inj hread
  exact exists_build hfields hlength hwrites hcarries

/-- An answer with these members and no others. -/
def bodyOf (p : Publisher.Tree.Path) : JsonValue :=
  .object [(JsonValue.units "root", .string (Utf16.encode p.root)),
    (JsonValue.units "pathElements", .array (p.pathElements.map fun text => .string (Utf16.encode text))),
    (JsonValue.units "pathIndices", .array (p.pathIndices.map .count))]

theorem carries_bodyOf (p : Publisher.Tree.Path) : Carries (bodyOf p) p := ⟨rfl, rfl, rfl⟩

def smallInput (p : Publisher.Tree.Path) : ReputationProveInput where
  attestationId := .bigint 1
  stealthPrivKey := [2]
  externalNullifier := 5
  issuerPkX := .bigint 3
  traitDataHash := .bigint 4
  nonce := .bigint 6
  publisherProof := bodyOf p

set_option maxRecDepth 100000 in
/-- Sums in the place of the hashes, and one leaf. -/
theorem reputation_witness_v2_small :
    let hash2 : Scalar → Scalar → Scalar := fun a b => a + b
    let hash5 : Scalar → Scalar → Scalar → Scalar → Scalar → Scalar := fun a b c d e => a + b + c + d + e
    ∃ p s, Publisher.Tree.buildProof hash2 id ["16".toList] "16".toList = .ok (0, p) ∧
      buildReputationWitnessV2 hash2 hash5 (smallInput p) = .ok s ∧ s.Satisfy hash2 hash5 20 := by
  intro hash2 hash5
  have hindex : (Publisher.Tree.buildProof hash2 id ["16".toList] "16".toList).toOption.map (·.1) = some 0 := by
    decide
  obtain ⟨⟨index, p⟩, hp, rfl⟩ := Option.map_eq_some_iff.mp hindex
  have hp := toOption_eq_some_iff.mp hp
  have hleaf : leafOf hash5 (smallInput p) 1 3 4 6 = leafOf hash5 (smallInput ⟨[], [], []⟩) 1 3 4 6 := rfl
  obtain ⟨hsound, hcomplete⟩ := reputation_witness_v2 hash2 hash5 id (smallInput p)
  obtain ⟨s, hs⟩ := hcomplete 1 3 4 6 ⟨rfl, rfl, rfl, rfl⟩ ["16".toList] 0 "16".toList "16".toList 0 p rfl
    (by rw [hleaf]; decide) rfl hp (carries_bodyOf p)
  exact ⟨p, s, hp, hs, hsound s hs⟩

end OpaqueStellar.Prover.Reputation
