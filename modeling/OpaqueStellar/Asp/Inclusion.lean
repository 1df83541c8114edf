import OpaqueStellar.Asp.Manifest
import OpaqueStellar.Lib.Lists
import OpaqueStellar.Lib.Text

/-! # Inclusion paths

`readInclusion` of `asp/src/manifest-service.ts` looks a label up in a manifest and is to return its path
to the root. It builds the tree with `new MerkleTree(poseidon, labels, levels)`, as the classes of other
packages are called; the class of this package takes no leaves, and its second argument is the depth. So
the tree has an array for its depth and no leaf in it, and what follows does not depend on the labels
any more: `BareTree` is what the constructor leaves, `root` and `proof` are what the methods make of it. -/

namespace OpaqueStellar.Asp

open OpaqueStellar.Lib OpaqueStellar.Soroban
open OpaqueStellar.Schemas (Str)
open OpaqueStellar.Relayer (bytesToHex bigIntOfString toLowerCase)

/-! ## A tree without leaves -/

/-- What is thrown. -/
inductive InclusionError where
  -- `Cannot convert … to a BigInt`
  | syntaxError
  -- `Invalid array length`
  | rangeError
  -- `Cannot read properties of undefined (reading 'toString')`
  | typeError
  -- `leaf index … out of bounds`
  | outOfBounds (index : ℕ)
  deriving DecidableEq

/-- What the constructor is given as the depth. -/
inductive Depth where
  | number (n : ℕ)
  | array (elements : List ℤ)
  deriving DecidableEq

/-- As a number: an array is that of its only element, and zero if it is empty; `none` is `NaN`. -/
def Depth.toNumber : Depth → Option ℤ
  | .number n => some n
  | .array [] => some 0
  | .array [x] => some x
  | .array (_ :: _ :: _) => none

/-- As the index of an array, where it is one: an array is the text of its elements, with commas. -/
def Depth.index : Depth → Option ℕ
  | .number n => some n
  | .array [x] => if 0 ≤ x then some x.toNat else none
  | .array _ => none

/-- The longest that an array can be. -/
def MAX_ARRAY_LENGTH : ℕ := 2 ^ 32 - 1

structure BareTree where
  depth : Depth
  -- the table `zero`
  zeros : List ℕ
  deriving DecidableEq

section Tree

variable (hash2 : ℕ → ℕ → ℕ)

/-- The table after this many turns of the loop. -/
def pushZeros : ℕ → List ℕ
  | 0 => [0]
  | i + 1 =>
      let zeros := pushZeros i
      zeros ++ [hash2 (zeros.getD i 0) (zeros.getD i 0)]

/-- `new MerkleTree(poseidon, depth)`: the loop goes on while `i < depth`, which no `i` is for `NaN`. -/
def newMerkleTree (depth : Depth) : Except InclusionError BareTree :=
  let turns := ((depth.toNumber).getD 0).toNat
  if turns < MAX_ARRAY_LENGTH then .ok ⟨depth, pushZeros hash2 turns⟩ else .error .rangeError

/-- `rootFrom` returns at its first line, as the tree is empty from the start on. -/
def BareTree.root (t : BareTree) : Option ℕ := t.depth.index.bind (t.zeros[·]?)

/-- `proof` throws at its first line, as no index is that of a leaf. -/
def BareTree.proof (_ : BareTree) (index : ℕ) : Except InclusionError (List ℕ × List ℕ) :=
  .error (.outOfBounds index)

end Tree

/-! ## The endpoint -/

structure InclusionProof where
  root : Str
  label : Str
  index : ℕ
  depositIndex : Option ℕ
  levels : ℕ
  pathElements : List Str
  pathIndices : List ℕ
  deriving DecidableEq

inductive Body where
  | error (text : String)
  | notIncluded (text : String) (root : Str) (size : ℕ)
  | proof (p : InclusionProof)
  deriving DecidableEq

structure ManifestRouteResult where
  status : ℕ
  body : Body
  deriving DecidableEq

/-- `/^0x[0-9a-fA-F]{64}$/` -/
def isValidRoot : Str → Bool
  | '0' :: 'x' :: digits => digits.length = 64 && digits.all fun c => (Hex.digitValue c).isSome
  | _ => false

/-- `/^\d{1,78}$/` -/
def isValidLabel (value : Str) : Bool :=
  decide (1 ≤ value.length ∧ value.length ≤ 78) && value.all fun c => (Decimal.digitValue c).isSome

def rootFile (root : Str) : Str := toLowerCase root ++ ".json".toList

/-- The two texts are numbers, and the same. -/
def sameLabel (a b : Str) : Bool := (bigIntOfString a).isSome && bigIntOfString a = bigIntOfString b

section Endpoint

variable (S : Setting ℕ)

/-- `toHex32` of a value that may be missing. -/
def toHex32OrThrow (v : Option ℕ) : Except InclusionError Str :=
  match v with
  | some v => .ok (hexText (S.toHex32 v))
  | none => .error .typeError

/-- `BigInt` -/
def bigIntOrThrow (l : Str) : Except InclusionError ℤ :=
  match bigIntOfString l with
  | some v => .ok v
  | none => .error .syntaxError

/-- What is done for the label at an index of the manifest. -/
def serveProof (manifest : SetManifest) (label : Str) (index : ℕ) :
    Except InclusionError ManifestRouteResult := do
  let labels ← manifest.labels.mapM bigIntOrThrow
  let tree ← newMerkleTree S.hash2 (.array labels)
  let computedRoot ← toHex32OrThrow S tree.root
  if toLowerCase computedRoot ≠ toLowerCase manifest.root then
    pure ⟨500, .error "manifest root does not match its own label set"⟩
  else do
    let (pathElements, pathIndices) ← tree.proof index
    pure ⟨200, .proof {
      root := manifest.root
      label := label
      index := index
      depositIndex := manifest.indices[index]?
      levels := manifest.levels
      pathElements := pathElements.map Decimal.encode
      pathIndices := pathIndices }⟩

def readInclusion (files : SetFiles) (root label : Str) :
    Except InclusionError ManifestRouteResult :=
  if ¬ isValidRoot root then
    .ok ⟨400, .error "root must be a 0x-prefixed 32-byte hex string"⟩
  else if ¬ isValidLabel label then .ok ⟨400, .error "label must be a decimal field element"⟩
  else
    match files (rootFile root) with
    | none => .ok ⟨404, .error "no manifest retained for that root"⟩
    | some manifest =>
        match manifest.labels.findIdx? (sameLabel · label) with
        | none =>
            .ok ⟨404, .notIncluded "label is not in this root's association set" manifest.root
              manifest.labels.length⟩
        | some index => serveProof S manifest label index

/-! ## What is asked of it -/

/-- The label is one of the manifest's. -/
def SetManifest.Includes (manifest : SetManifest) (label : Str) : Prop :=
  ∃ l ∈ manifest.labels, sameLabel l label = true

/-- The path leads from the label to the root, through a tree of depth twenty. -/
structure InclusionProof.Leads (p : InclusionProof) (label root : Str) : Prop where
  elements : p.pathElements.length = TREE_DEPTH
  folds : ∃ leaf : ℕ, ∃ path : List (ℕ × Bool), bigIntOfString label = some (leaf : ℤ) ∧
    p.pathElements = path.map (fun s => Decimal.encode s.1) ∧
    p.pathIndices = path.map (fun s => s.2.toNat) ∧
    hexText (S.toHex32 (Merkle.fold S.hash2 leaf path)) = root

/-- The answer says that there is no path. -/
def Refuses (result : Except InclusionError ManifestRouteResult) : Prop :=
  ∃ r, result = .ok r ∧ (r.status = 400 ∨ r.status = 404) ∧ ∀ p, r.body ≠ .proof p

/-- The answer is right: a path for a label of the manifest, and none for another one. -/
structure Answers (manifest : SetManifest) (label : Str)
    (result : Except InclusionError ManifestRouteResult) : Prop where
  member : manifest.Includes label →
    ∃ p, result = .ok ⟨200, .proof p⟩ ∧ p.Leads S label manifest.root
  stranger : ¬ manifest.Includes label → Refuses result

end Endpoint

section Spec

variable {S : Setting ℕ}

/-- A proof is never served. -/
theorem serveProof_ne_proof (manifest : SetManifest) (label : Str) (index : ℕ) (p : InclusionProof) :
    serveProof S manifest label index ≠ .ok ⟨200, .proof p⟩ := by
  intro h
  simp only [serveProof, bind_eq_ok] at h
  obtain ⟨labels, -, tree, -, computedRoot, -, h⟩ := h
  split at h
  · cases h
  · obtain ⟨path, hproof, -⟩ := bind_eq_ok.mp h
    cases hproof

theorem readInclusion_ne_proof (files : SetFiles) (root label : Str) (p : InclusionProof) :
    readInclusion S files root label ≠ .ok ⟨200, .proof p⟩ := by
  unfold readInclusion
  split
  · simp
  · split
    · simp
    · split
      · simp
      · split
        · simp
        · exact serveProof_ne_proof _ _ _ p

/-- A label that is not in the manifest is refused. -/
theorem refuses_stranger {files : SetFiles} {root label : Str} {manifest : SetManifest}
    (h : files (rootFile root) = some manifest) (hnot : ¬ manifest.Includes label) :
    Refuses (readInclusion S files root label) := by
  have hnone : manifest.labels.findIdx? (sameLabel · label) = none := by
    rw [List.findIdx?_eq_none_iff]
    intro l hl
    by_contra hsame
    exact hnot ⟨l, hl, by simpa using hsame⟩
  unfold readInclusion
  split
  · exact ⟨_, rfl, .inl rfl, by simp⟩
  · split
    · exact ⟨_, rfl, .inl rfl, by simp⟩
    · simp only [h, hnone]
      exact ⟨_, rfl, .inr rfl, by simp⟩

theorem mapM_bigIntOrThrow {texts : List Str} (h : ∀ l ∈ texts, (bigIntOfString l).isSome) :
    ∃ values, texts.mapM bigIntOrThrow = .ok values ∧ values.length = texts.length := by
  have hread : ∀ l ∈ texts, ∃ v, bigIntOrThrow l = .ok v := by
    intro l hl
    obtain ⟨v, hv⟩ := Option.isSome_iff_exists.mp (h l hl)
    exact ⟨v, by rw [bigIntOrThrow, hv]⟩
  obtain ⟨values, hvalues⟩ := exists_forall₂_iff.mpr hread
  exact ⟨values, mapM_eq_ok_forall₂.mpr hvalues, hvalues.length_eq.symm⟩

/-- With two labels or more, the tree has not even a root. -/
theorem serveProof_of_many {manifest : SetManifest} {label : Str} {index : ℕ}
    (hnumbers : ∀ l ∈ manifest.labels, (bigIntOfString l).isSome)
    (hmany : 2 ≤ manifest.labels.length) :
    serveProof S manifest label index = .error .typeError := by
  obtain ⟨values, hvalues, hlen⟩ := mapM_bigIntOrThrow hnumbers
  rw [← hlen] at hmany
  rw [serveProof, hvalues]
  cases values with
  | nil => simp at hmany
  | cons x values =>
      cases values with
      | nil => simp at hmany
      | cons y rest => rfl

/-- **The endpoint answers right exactly for labels that are not in the manifest.** For every manifest
that is retained, however its root is spelled, and every label. -/
theorem inclusion_answers_iff (S : Setting ℕ) (files : SetFiles) (root label : Str)
    (manifest : SetManifest) (h : files (rootFile root) = some manifest) :
    Answers S manifest label (readInclusion S files root label) ↔ ¬ manifest.Includes label := by
  constructor
  · intro hanswers hincludes
    obtain ⟨p, hp, -⟩ := hanswers.member hincludes
    exact readInclusion_ne_proof files root label p hp
  · intro hnot
    exact ⟨fun hincludes => absurd hincludes hnot, fun _ => refuses_stranger h hnot⟩

/-! ## A published manifest -/

theorem isValidRoot_hexText (x : BytesN 32) : isValidRoot (hexText x) = true := by
  show (decide ((Hex.encode x.1).length = 64) &&
    (Hex.encode x.1).all fun c => (Hex.digitValue c).isSome) = true
  rw [Bool.and_eq_true, decide_eq_true_eq, List.all_eq_true]
  refine ⟨by rw [Hex.length_encode, x.2], ?_⟩
  intro c hc
  obtain ⟨n, hn, rfl⟩ := Hex.mem_encode hc
  rw [Hex.digitValue_digit hn]
  rfl

theorem toLowerCase_hexText (x : BytesN 32) : toLowerCase (hexText x) = hexText x := by
  have hdigits : (Hex.encode x.1).map Char.toLower = Hex.encode x.1 := by
    refine (List.map_congr_left fun c hc => ?_).trans (List.map_id _)
    obtain ⟨n, hn, rfl⟩ := Hex.mem_encode hc
    exact Hex.toLower_digit hn
  exact congrArg (fun digits => '0' :: 'x' :: digits) hdigits

/-- The file of a manifest is found under its root. -/
theorem writeManifest_rootFile (files : SetFiles) {manifest : SetManifest} {x : BytesN 32}
    (hroot : manifest.root = hexText x) :
    writeManifest files manifest (rootFile manifest.root) = some manifest := by
  have hfile : rootFile manifest.root = manifest.root ++ ".json".toList := by
    rw [rootFile, hroot, toLowerCase_hexText]
  rw [hfile, writeManifest, Function.update_apply]
  split
  · rfl
  · rw [Function.update_self]

end Spec

/-- The set of the first three deposits. -/
def Demo.firstThree : AssociationSet ℕ :=
  ⟨[0, 1, 2], labels Demo.setting [0, 1, 2], { leaves := labels Demo.setting [0, 1, 2] }⟩

def Demo.published : SetManifest :=
  Demo.firstThree.manifest Demo.setting "7".toList "2026-06-15T00:00:00.000Z".toList

/-- A published manifest is asked for the second of its three labels, and the request fails. -/
theorem inclusion_not_answered :
    associationSet Demo.setting [0, 1, 2] = .ok Demo.firstThree ∧
    readInclusion Demo.setting (writeManifest (fun _ => none) Demo.published) Demo.published.root
      "11".toList = .error .typeError ∧
    ¬ Answers Demo.setting Demo.published "11".toList
      (readInclusion Demo.setting (writeManifest (fun _ => none) Demo.published) Demo.published.root
        "11".toList) := by
  have hvalid : isValidRoot Demo.published.root = true := isValidRoot_hexText _
  have hfile := @writeManifest_rootFile (fun _ => none) Demo.published _ rfl
  have hindex : Demo.published.labels.findIdx? (sameLabel · "11".toList) = some 1 := by decide
  have hserved : readInclusion Demo.setting (writeManifest (fun _ => none) Demo.published)
      Demo.published.root "11".toList = .error .typeError := by
    have hlabel : isValidLabel "11".toList = true := by decide
    simp only [readInclusion, hvalid, hlabel, not_true_eq_false, if_false, hfile, hindex]
    exact serveProof_of_many (by decide) (by decide)
  refine ⟨associationSet_eq_ok.mpr ⟨by decide, rfl⟩, hserved, ?_⟩
  intro hanswers
  obtain ⟨p, hp, -⟩ := hanswers.member ⟨"11".toList, by decide, by decide⟩
  rw [hserved] at hp
  cases hp

theorem inclusion_answers_stranger :
    Answers Demo.setting Demo.published "13".toList
      (readInclusion Demo.setting (writeManifest (fun _ => none) Demo.published) Demo.published.root
        "13".toList) := by
  have hfile := @writeManifest_rootFile (fun _ => none) Demo.published _ rfl
  refine (inclusion_answers_iff Demo.setting _ _ "13".toList Demo.published hfile).mpr ?_
  rintro ⟨l, hl, hsame⟩
  have hnone : Demo.published.labels.all (fun l => !sameLabel l "13".toList) = true := by decide
  have := List.all_eq_true.mp hnone l hl
  rw [hsame] at this
  cases this

end OpaqueStellar.Asp
