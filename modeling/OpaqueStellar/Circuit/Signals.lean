import OpaqueStellar.Circuit.StealthReputation
import OpaqueStellar.Lib.Lists
import OpaqueStellar.Publisher.Service
import OpaqueStellar.Publisher.Validate
import OpaqueStellar.Relayer.Messages
import OpaqueStellar.Scanner.Trees

/-! # Signals as texts

The provers hand the reputation circuit an object of texts, each of which is read with `BigInt` and
reduced. What the circuit then demands is the same whatever functions stand in the place of its hashes,
so here they are any functions on the scalars. -/

namespace OpaqueStellar.Circuit

open OpaqueStellar.Lib
open OpaqueStellar.Publisher (Scalar digitsOf_hexDecode)
open OpaqueStellar.Relayer (bigIntOfString)
open OpaqueStellar.Schemas (Str isWhitespace)

/-! ## The constraints for any hashes -/

section Constraints

variable {F : Type} [CommRing F]

/-- `StealthReputation`, with functions in the place of its hashes. -/
structure ReputationConstraints (hash2 : F → F → F) (hash5 : F → F → F → F → F → F) (levels : ℕ)
    (pub : PublicSignalsV2 F) (w : WitnessV2 F) : Prop where
  merkle : MerkleInclusion hash2 levels
    (hash5 w.stealthPk w.schemaId w.issuerPkX w.traitDataHash w.nonce) w.merklePath
    w.merklePathIndices pub.merkleRoot
  schema : IsEqual w.schemaId pub.attestationId w.schemaInv 1
  nullifier : hash2 w.stealthPk pub.externalNullifier = pub.nullifierHash

theorem stealthReputation_iff (P : PoseidonV2 F) {levels : ℕ} {pub : PublicSignalsV2 F}
    {w : WitnessV2 F} :
    StealthReputation P levels pub w ↔ ReputationConstraints P.hash2 P.hash5 levels pub w :=
  ⟨fun h => ⟨h.merkle, h.schema, h.nullifier⟩, fun h => ⟨h.merkle, h.schema, h.nullifier⟩⟩

theorem isEqual_self (x : F) : IsEqual x x 0 1 := ⟨by simp, by simp⟩

theorem merkleInclusion_of_path {hash2 : F → F → F} {leaf : F} {path : List (F × Bool)}
    {siblings pathIndices : ℕ → F}
    (h : ∀ i s, path[i]? = some s →
      siblings i = s.1 ∧ pathIndices i = ((if s.2 then 1 else 0 : ℕ) : F)) {root : F} :
    MerkleInclusion hash2 path.length leaf siblings pathIndices root ↔
      Merkle.fold hash2 leaf path = root := by
  have hcur : merkleCur hash2 leaf siblings pathIndices path.length = Merkle.fold hash2 leaf path := by
    rw [Scanner.merkleCur_eq_fold_take hash2 leaf h le_rfl, List.take_length]
  constructor
  · intro hinclusion
    rw [hinclusion.root, hcur]
  · intro hfold
    refine ⟨?_, hfold.symm.trans hcur.symm⟩
    intro i hi
    rw [(h i _ (List.getElem?_eq_getElem hi)).2]
    cases path[i].2 <;> simp

end Constraints

/-! ## Reading the texts -/

/-- The inputs of the circuit as they are handed over. -/
structure ReputationSignals where
  stealthPk : Str
  schemaId : Str
  issuerPkX : Str
  traitDataHash : Str
  nonce : Str
  merklePath : List Str
  merklePathIndices : List ℕ
  merkleRoot : Str
  attestationId : Str
  externalNullifier : Str
  nullifierHash : Str
  deriving DecidableEq

/-- A text as the circuit takes it; `none` where `BigInt` throws. -/
def readSignal (text : Str) : Option Scalar := (bigIntOfString text).map fun n : ℤ => (n : Scalar)

section Digits

variable {digits : Str} {bytes : List UInt8} {c : Char}

theorem hexDigit_of_isSome (h : (Hex.digitValue c).isSome = true) :
    isWhitespace c = false ∧ isSpace c = false ∧ c ≠ 'x' := by
  have hlt : c.toNat < 128 := by
    unfold Hex.digitValue at h
    split_ifs at h with h0 ha hA
    · exact Nat.lt_of_le_of_lt h0.2 (by decide)
    · exact Nat.lt_of_le_of_lt ha.2 (by decide)
    · exact Nat.lt_of_le_of_lt hA.2 (by decide)
    · cases h
  apply of_ascii (P := fun c => (Hex.digitValue c).isSome = true →
    isWhitespace c = false ∧ isSpace c = false ∧ c ≠ 'x')
  · decide
  · exact hlt
  · exact h

/-- Hexadecimal digits behind `0x` are read by `BigInt`. -/
theorem bigIntOfString_hex (hne : digits ≠ []) (h : Hex.decode digits = some bytes) :
    bigIntOfString ('0' :: 'x' :: digits) = some (beNat bytes : ℤ) := by
  have hspace : ∀ c ∈ '0' :: 'x' :: digits, isSpace c = false := by
    rw [List.forall_mem_cons, List.forall_mem_cons]
    exact ⟨by decide, by decide, fun c hc => (hexDigit_of_isSome (Hex.isSome_of_decode h c hc)).2.1⟩
  rw [bigIntOfString, trimSpaces_eq_self hspace]
  exact digitsOf_hexDecode hne h

theorem readSignal_hex (hne : digits ≠ []) (h : Hex.decode digits = some bytes) :
    readSignal ('0' :: 'x' :: digits) = some (beNat bytes : Scalar) := by
  rw [readSignal, bigIntOfString_hex hne h, Option.map_some, Int.cast_natCast]

theorem encode_ne_nil (h : bytes ≠ []) : Hex.encode bytes ≠ [] := by
  intro hnil
  have hlength := Hex.length_encode bytes
  rw [hnil, List.length_nil] at hlength
  exact h (List.length_eq_zero_iff.mp (by omega))

end Digits

/-- Every text is a number, and the numbers are these signals. -/
structure Reads (s : ReputationSignals) (pub : PublicSignalsV2 Scalar) (w : WitnessV2 Scalar) :
    Prop where
  stealthPk : readSignal s.stealthPk = some w.stealthPk
  schemaId : readSignal s.schemaId = some w.schemaId
  issuerPkX : readSignal s.issuerPkX = some w.issuerPkX
  traitDataHash : readSignal s.traitDataHash = some w.traitDataHash
  nonce : readSignal s.nonce = some w.nonce
  merklePath : ∀ i text, s.merklePath[i]? = some text → readSignal text = some (w.merklePath i)
  merklePathIndices : ∀ i (b : ℕ), s.merklePathIndices[i]? = some b → w.merklePathIndices i = b
  merkleRoot : readSignal s.merkleRoot = some pub.merkleRoot
  attestationId : readSignal s.attestationId = some pub.attestationId
  externalNullifier : readSignal s.externalNullifier = some pub.externalNullifier
  nullifierHash : readSignal s.nullifierHash = some pub.nullifierHash

/-- The texts are inputs of a circuit with this many levels, and satisfy its constraints. -/
def ReputationSignals.Satisfy (hash2 : Scalar → Scalar → Scalar)
    (hash5 : Scalar → Scalar → Scalar → Scalar → Scalar → Scalar) (levels : ℕ)
    (s : ReputationSignals) : Prop :=
  s.merklePath.length = levels ∧ s.merklePathIndices.length = levels ∧
    ∃ pub w, Reads s pub w ∧ ReputationConstraints hash2 hash5 levels pub w

/-! ## Texts that are numbers -/

/-- What the texts are read as. -/
structure SignalValues where
  stealthPk : Scalar
  schemaId : Scalar
  issuerPkX : Scalar
  traitDataHash : Scalar
  nonce : Scalar
  path : List (Scalar × Bool)
  merkleRoot : Scalar
  attestationId : Scalar
  externalNullifier : Scalar
  nullifierHash : Scalar

structure ReputationSignals.Numbers (s : ReputationSignals) (v : SignalValues) : Prop where
  stealthPk : readSignal s.stealthPk = some v.stealthPk
  schemaId : readSignal s.schemaId = some v.schemaId
  issuerPkX : readSignal s.issuerPkX = some v.issuerPkX
  traitDataHash : readSignal s.traitDataHash = some v.traitDataHash
  nonce : readSignal s.nonce = some v.nonce
  merklePath : s.merklePath.map readSignal = v.path.map fun p => some p.1
  merklePathIndices : s.merklePathIndices = v.path.map fun p => if p.2 then 1 else 0
  merkleRoot : readSignal s.merkleRoot = some v.merkleRoot
  attestationId : readSignal s.attestationId = some v.attestationId
  externalNullifier : readSignal s.externalNullifier = some v.externalNullifier
  nullifierHash : readSignal s.nullifierHash = some v.nullifierHash

def SignalValues.leaf (hash5 : Scalar → Scalar → Scalar → Scalar → Scalar → Scalar)
    (v : SignalValues) : Scalar :=
  hash5 v.stealthPk v.schemaId v.issuerPkX v.traitDataHash v.nonce

section Values

variable {hash2 : Scalar → Scalar → Scalar}
  {hash5 : Scalar → Scalar → Scalar → Scalar → Scalar → Scalar} {s : ReputationSignals}
  {v : SignalValues}

theorem ReputationSignals.Numbers.getElem?_path (h : s.Numbers v) {i : ℕ} {p : Scalar × Bool}
    (hp : v.path[i]? = some p) :
    ∃ text, s.merklePath[i]? = some text ∧ readSignal text = some p.1 ∧
      s.merklePathIndices[i]? = some (if p.2 then 1 else 0) := by
  have htext : (s.merklePath.map readSignal)[i]? = some (some p.1) := by
    rw [h.merklePath, List.getElem?_map, hp, Option.map_some]
  rw [List.getElem?_map] at htext
  obtain ⟨text, htext, hread⟩ := Option.map_eq_some_iff.mp htext
  refine ⟨text, htext, hread, ?_⟩
  rw [h.merklePathIndices, List.getElem?_map, hp, Option.map_some]

theorem ReputationSignals.Numbers.length_merklePath (h : s.Numbers v) :
    s.merklePath.length = v.path.length ∧ s.merklePathIndices.length = v.path.length := by
  have hlength := congrArg List.length h.merklePath
  rw [List.length_map, List.length_map] at hlength
  refine ⟨hlength, ?_⟩
  rw [h.merklePathIndices, List.length_map]

/-- **What the circuit demands of texts that are numbers.** -/
theorem ReputationSignals.Numbers.satisfy_iff (h : s.Numbers v) {levels : ℕ}
    (hlevels : v.path.length = levels) :
    s.Satisfy hash2 hash5 levels ↔
      Merkle.fold hash2 (v.leaf hash5) v.path = v.merkleRoot ∧ v.schemaId = v.attestationId ∧
        hash2 v.stealthPk v.externalNullifier = v.nullifierHash := by
  subst hlevels
  constructor
  · rintro ⟨-, -, pub, w, hreads, hmerkle, hschema, hnullifier⟩
    have hpath : ∀ i p, v.path[i]? = some p →
        w.merklePath i = p.1 ∧ w.merklePathIndices i = ((if p.2 then 1 else 0 : ℕ) : Scalar) := by
      intro i p hp
      obtain ⟨text, htext, hread, hindex⟩ := h.getElem?_path hp
      exact ⟨Option.some.inj ((hreads.merklePath i text htext).symm.trans hread),
        hreads.merklePathIndices i _ hindex⟩
    have hleaf : hash5 w.stealthPk w.schemaId w.issuerPkX w.traitDataHash w.nonce = v.leaf hash5 := by
      rw [SignalValues.leaf, Option.some.inj (hreads.stealthPk.symm.trans h.stealthPk),
        Option.some.inj (hreads.schemaId.symm.trans h.schemaId),
        Option.some.inj (hreads.issuerPkX.symm.trans h.issuerPkX),
        Option.some.inj (hreads.traitDataHash.symm.trans h.traitDataHash),
        Option.some.inj (hreads.nonce.symm.trans h.nonce)]
    rw [hleaf, merkleInclusion_of_path hpath,
      Option.some.inj (hreads.merkleRoot.symm.trans h.merkleRoot)] at hmerkle
    have heq := hschema.eq
    rw [Option.some.inj (hreads.schemaId.symm.trans h.schemaId),
      Option.some.inj (hreads.attestationId.symm.trans h.attestationId)] at heq
    rw [Option.some.inj (hreads.stealthPk.symm.trans h.stealthPk),
      Option.some.inj (hreads.externalNullifier.symm.trans h.externalNullifier),
      Option.some.inj (hreads.nullifierHash.symm.trans h.nullifierHash)] at hnullifier
    exact ⟨hmerkle, heq, hnullifier⟩
  · rintro ⟨hmerkle, hschema, hnullifier⟩
    obtain ⟨hpathLength, hindexLength⟩ := h.length_merklePath
    refine ⟨hpathLength, hindexLength,
      ⟨v.merkleRoot, v.attestationId, v.externalNullifier, v.nullifierHash⟩,
      ⟨v.stealthPk, v.schemaId, v.issuerPkX, v.traitDataHash, v.nonce,
        fun i => ((v.path[i]?).map (·.1)).getD 0,
        fun i => ((v.path[i]?).map fun p => ((if p.2 then 1 else 0 : ℕ) : Scalar)).getD 0, 0⟩,
      ⟨h.stealthPk, h.schemaId, h.issuerPkX, h.traitDataHash, h.nonce, ?_, ?_, h.merkleRoot,
        h.attestationId, h.externalNullifier, h.nullifierHash⟩, ?_, ?_, hnullifier⟩
    · intro i text htext
      have hi : i < v.path.length := hpathLength ▸ (List.getElem?_eq_some_iff.mp htext).1
      have hp := List.getElem?_eq_getElem hi
      obtain ⟨text', htext', hread, -⟩ := h.getElem?_path hp
      obtain rfl := Option.some.inj (htext.symm.trans htext')
      simp only [hread, hp, Option.map_some, Option.getD_some]
    · intro i b hb
      have hi : i < v.path.length := hindexLength ▸ (List.getElem?_eq_some_iff.mp hb).1
      have hp := List.getElem?_eq_getElem hi
      obtain ⟨-, -, -, hindex⟩ := h.getElem?_path hp
      obtain rfl := Option.some.inj (hb.symm.trans hindex)
      simp only [hp, Option.map_some, Option.getD_some]
    · refine (merkleInclusion_of_path ?_).mpr hmerkle
      intro i p hp
      simp only [hp, Option.map_some, Option.getD_some, and_self]
    · simp only [hschema]
      exact isEqual_self _

end Values

end OpaqueStellar.Circuit
