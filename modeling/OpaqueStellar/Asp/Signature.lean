import OpaqueStellar.Asp.Manifest
import OpaqueStellar.Schemas.Utf8

/-! # What the signature of a manifest covers

`signManifest` hashes the pool id, the root, the dataset hash, the policy, the ledger and the key, one
after the other and with nothing in between. A policy that is missing and a ledger that is missing are
written as nothing.

The root and the dataset hash are of one length. So it is the policy and the ledger that run into each
other, and a policy that is missing is not told from an empty one. -/

namespace OpaqueStellar.Asp

open OpaqueStellar.Lib OpaqueStellar.Soroban
open OpaqueStellar.Schemas (Str asBytes asBytes_injective)

/-! ## Signing -/

/-- `String(ledger ?? "")`; the number of a ledger is written with all its digits. -/
def ledgerText (ledger : Option ℕ) : Str := (ledger.map Decimal.encode).getD []

/-- What is hashed; `none` where `update` throws, for a manifest without a dataset hash. -/
def signedMessage (manifest : SetManifest) (signingKey : Str) : Option (List UInt8) :=
  manifest.datasetHash.map fun datasetHash =>
    asBytes manifest.poolId ++ asBytes manifest.root ++ asBytes datasetHash ++
      asBytes (manifest.policy.getD []) ++ asBytes (ledgerText manifest.ledger) ++ asBytes signingKey

def signManifest (sha256 : List UInt8 → BytesN 32) (manifest : SetManifest) (signingKey : Str) :
    Option Str :=
  (signedMessage manifest signingKey).map fun message => hexText (sha256 message)

def verifyManifestSignature (sha256 : List UInt8 → BytesN 32) (manifest : SetManifest)
    (signature signingKey : Str) : Option Bool :=
  (signManifest sha256 manifest signingKey).map (· = signature)

/-! ## What it covers -/

/-- What the signature is to cover. -/
def SetManifest.contents (manifest : SetManifest) : Str × Str × Option Str × Option Str × Option ℕ :=
  (manifest.poolId, manifest.root, manifest.datasetHash, manifest.policy, manifest.ledger)

/-- `0x` and the digits of 32 bytes. -/
def Hex32 (s : Str) : Prop := ∃ x, s = hexText x

/-- The manifest has a root and a dataset hash, each of 32 bytes. -/
structure SetManifest.Signable (manifest : SetManifest) : Prop where
  root : Hex32 manifest.root
  datasetHash : ∃ datasetHash, Hex32 datasetHash ∧ manifest.datasetHash = some datasetHash

/-- No manifest with other contents has the signed message of this one. -/
def SetManifest.Bound (manifest : SetManifest) (signingKey : Str) : Prop :=
  ∀ other : SetManifest, other.Signable →
    signedMessage other signingKey = signedMessage manifest signingKey →
    other.contents = manifest.contents

/-- The texts before the ledger, one after the other. -/
def SetManifest.text (manifest : SetManifest) : Str :=
  manifest.poolId ++ manifest.root ++ manifest.datasetHash.getD [] ++ manifest.policy.getD []

/-- The manifest says where its texts end: it names no ledger, and a policy that does not end in a
digit; and two texts of 32 bytes one after the other stand after its pool id only. -/
structure SetManifest.Delimited (manifest : SetManifest) : Prop where
  ledger : manifest.ledger = none
  policy : ∃ p c, manifest.policy = some (p ++ [c]) ∧ Decimal.digitValue c = none
  cut : ∀ poolId root datasetHash rest, Hex32 root → Hex32 datasetHash →
    poolId ++ root ++ datasetHash ++ rest = manifest.text → poolId = manifest.poolId

/-! ### Texts -/

theorem asBytes_append (s t : Str) : asBytes (s ++ t) = asBytes s ++ asBytes t :=
  List.flatMap_append

theorem length_of_hex32 {s : Str} (h : Hex32 s) : s.length = 66 := by
  obtain ⟨x, rfl⟩ := h
  show (Hex.encode x.1).length + 1 + 1 = 66
  rw [Hex.length_encode, x.2]

theorem signedMessage_eq {manifest : SetManifest} (h : manifest.Signable) (signingKey : Str) :
    signedMessage manifest signingKey =
      some (asBytes (manifest.text ++ ledgerText manifest.ledger ++ signingKey)) := by
  obtain ⟨datasetHash, -, hhash⟩ := h.datasetHash
  simp only [signedMessage, SetManifest.text, hhash, Option.map_some, Option.getD_some, asBytes_append]

/-- Under one key, messages are as equal as what comes before the key. -/
theorem signedMessage_eq_iff {manifest other : SetManifest} (h : manifest.Signable)
    (hother : other.Signable) (signingKey : Str) :
    signedMessage other signingKey = signedMessage manifest signingKey ↔
      other.text ++ ledgerText other.ledger = manifest.text ++ ledgerText manifest.ledger := by
  rw [signedMessage_eq h, signedMessage_eq hother, Option.some.injEq, asBytes_injective.eq_iff]
  exact List.append_left_inj _

/-- The text of a ledger is empty only if it is missing, and else it ends with a digit. -/
theorem ledgerText_cases (ledger : Option ℕ) :
    (ledger = none ∧ ledgerText ledger = []) ∨
      ∃ s, ∃ d < 10, ledgerText ledger = s ++ [Decimal.digit d] := by
  cases ledger with
  | none => exact .inl ⟨rfl, rfl⟩
  | some n =>
      obtain ⟨s, d, hd, heq⟩ := Decimal.encode_concat n
      exact .inr ⟨s, d, hd, heq⟩

/-! ### Where the texts end -/

/-- What a delimited manifest says can be read off its message. -/
theorem SetManifest.Delimited.bound {manifest : SetManifest} (h : manifest.Delimited)
    (hsignable : manifest.Signable) (signingKey : Str) : manifest.Bound signingKey := by
  intro other hother hmessage
  rw [signedMessage_eq_iff hsignable hother, h.ledger] at hmessage
  obtain ⟨hash, hhash, heq⟩ := hsignable.datasetHash
  obtain ⟨hash', hhash', heq'⟩ := hother.datasetHash
  obtain ⟨p, c, hpolicy, hc⟩ := h.policy
  have htext : other.poolId ++ other.root ++ hash' ++
      (other.policy.getD [] ++ ledgerText other.ledger) = manifest.text := by
    simpa [SetManifest.text, heq', ledgerText] using hmessage
  -- the pool id ends where it does, and the other texts are of one length
  have hpool := h.cut _ _ _ _ hother.root hhash' htext
  simp only [SetManifest.text, heq, hpolicy, hpool, Option.getD_some, List.append_assoc,
    List.append_cancel_left_eq] at htext
  obtain ⟨hroot, htext⟩ := List.append_inj htext
    ((length_of_hex32 hother.root).trans (length_of_hex32 hsignable.root).symm)
  obtain ⟨hhashes, htext⟩ := List.append_inj htext
    ((length_of_hex32 hhash').trans (length_of_hex32 hhash).symm)
  rcases ledgerText_cases other.ledger with ⟨hnone, hempty⟩ | ⟨s, d, hd, hdigit⟩
  · rw [hempty, List.append_nil] at htext
    have hother' : other.policy = some (p ++ [c]) := by
      cases hp : other.policy with
      | none =>
          rw [hp] at htext
          simp at htext
      | some q =>
          rw [hp] at htext
          exact congrArg some htext
    simp only [SetManifest.contents, hpool, hroot, heq, heq', hhashes, hother', hpolicy, hnone,
      h.ledger]
  · -- the last character would be a digit
    rw [hdigit, ← List.append_assoc] at htext
    have hlast := (List.append_inj' htext rfl).2
    rw [← List.singleton_inj.mp hlast, Decimal.digitValue_digit hd] at hc
    cases hc

/-- A bound manifest is the only one that reads as it does. -/
theorem SetManifest.Bound.unique {manifest : SetManifest} {signingKey : Str}
    (h : manifest.Bound signingKey) (hsignable : manifest.Signable) (poolId : Str)
    {root datasetHash : Str} (hroot : Hex32 root) (hhash : Hex32 datasetHash) (policy : Option Str)
    (ledger : Option ℕ) (htext : poolId ++ root ++ datasetHash ++ policy.getD [] ++ ledgerText ledger =
      manifest.text ++ ledgerText manifest.ledger) :
    (poolId, root, some datasetHash, policy, ledger) = manifest.contents := by
  let other : SetManifest := { manifest with
    poolId := poolId
    root := root
    datasetHash := some datasetHash
    policy := policy
    ledger := ledger }
  have hother : other.Signable := ⟨hroot, datasetHash, hhash, rfl⟩
  exact h other hother ((signedMessage_eq_iff hsignable hother signingKey).mpr htext)

/-- A bound manifest is delimited: otherwise there is another one that reads the same. -/
theorem SetManifest.Bound.delimited {manifest : SetManifest} {signingKey : Str}
    (h : manifest.Bound signingKey) (hsignable : manifest.Signable) : manifest.Delimited := by
  obtain ⟨hash, hhash, heq⟩ := hsignable.datasetHash
  -- another policy and ledger in the place of the two
  have hpolicy : ∀ (policy : Option Str) (ledger : Option ℕ), policy.getD [] ++ ledgerText ledger =
      manifest.policy.getD [] ++ ledgerText manifest.ledger →
      policy = manifest.policy ∧ ledger = manifest.ledger := by
    intro policy ledger htext
    have hsame := h.unique hsignable manifest.poolId hsignable.root hhash policy ledger
      (by simp [SetManifest.text, heq, htext])
    simp only [SetManifest.contents, Prod.mk.injEq] at hsame
    exact ⟨hsame.2.2.2.1, hsame.2.2.2.2⟩
  obtain ⟨hwhole, hledger⟩ := hpolicy (some (manifest.policy.getD [] ++ ledgerText manifest.ledger))
    none (List.append_nil _)
  rw [← hledger] at hwhole hpolicy
  refine ⟨hledger.symm, ?_, ?_⟩
  · rcases List.eq_nil_or_concat (manifest.policy.getD []) with hnil | ⟨q, c, hconcat⟩
    · -- an empty policy reads as one that is missing
      have hmissing := (hpolicy none none (by rw [hnil]; rfl)).1
      rw [← hmissing] at hwhole
      cases hwhole
    · rw [List.concat_eq_append] at hconcat
      refine ⟨q, c, ?_, ?_⟩
      · rw [← hwhole, ← hconcat]
        exact congrArg some (List.append_nil _)
      · cases hc : Decimal.digitValue c with
        | none => rfl
        | some d =>
            -- the last digit may be the number of a ledger
            obtain ⟨hd, rfl⟩ := Decimal.digit_of_digitValue hc
            have hdigit : ledgerText (some d) = [Decimal.digit d] := Decimal.encode_of_lt hd
            have hread := hpolicy (some q) (some d)
              (by rw [hconcat, hdigit]; exact (List.append_nil _).symm)
            cases hread.2
  · intro poolId root datasetHash rest hroot hhash' htext
    have hsame := h.unique hsignable poolId hroot hhash' (some rest) none
      (by rw [← hledger, ← htext]; rfl)
    exact congrArg Prod.fst hsame

/-- **A signature binds a manifest exactly if the manifest is delimited.** For every manifest with a
root and a dataset hash of 32 bytes each, every name of a pool and of a policy, every ledger and every
key. -/
theorem bound_iff_delimited (manifest : SetManifest) (signingKey : Str) (h : manifest.Signable) :
    manifest.Bound signingKey ↔ manifest.Delimited :=
  ⟨fun hbound => hbound.delimited h, fun hdelimited => hdelimited.bound h signingKey⟩

/-! ## Names without an x -/

/-- In a text of 32 bytes there is one `x`, its second character. -/
theorem hex32_eq {s : Str} (h : Hex32 s) : ∃ digits, s = '0' :: 'x' :: digits ∧ 'x' ∉ digits := by
  obtain ⟨x, rfl⟩ := h
  refine ⟨_, rfl, ?_⟩
  intro hmem
  obtain ⟨n, hn, hx⟩ := Hex.mem_encode hmem
  have hvalue := Hex.digitValue_digit hn
  rw [← hx] at hvalue
  have hnone : Hex.digitValue 'x' = none := by decide
  rw [hnone] at hvalue
  cases hvalue

/-- If neither the pool id nor the policy has an `x` in it, the texts can be cut in one way only. -/
theorem cut_of_no_x {poolId root datasetHash rest poolId' root' datasetHash' rest' : Str}
    (hroot : Hex32 root) (hhash : Hex32 datasetHash) (hroot' : Hex32 root')
    (hhash' : Hex32 datasetHash') (hpool : 'x' ∉ poolId) (hrest : 'x' ∉ rest)
    (h : poolId' ++ root' ++ datasetHash' ++ rest' = poolId ++ root ++ datasetHash ++ rest) :
    poolId' = poolId := by
  have hone : ∀ {s : Str}, Hex32 s → s.count 'x' = 1 := by
    intro s hs
    obtain ⟨digits, rfl, hdigits⟩ := hex32_eq hs
    simp [List.count_eq_zero_of_not_mem hdigits]
  have hpool' : 'x' ∉ poolId' := by
    have hcount := congrArg (List.count 'x') h
    simp only [List.count_append, hone hroot, hone hhash, hone hroot', hone hhash',
      List.count_eq_zero_of_not_mem hpool, List.count_eq_zero_of_not_mem hrest] at hcount
    exact List.count_eq_zero.mp (by omega)
  -- up to the first `x`
  have hfront : ∀ {s digits t : Str}, 'x' ∉ s →
      (s ++ '0' :: 'x' :: (digits ++ t)).takeWhile (· ≠ 'x') = s ++ ['0'] := by
    intro s digits t hs
    rw [List.takeWhile_append_of_pos]
    · rfl
    · intro c hc
      exact decide_eq_true fun hx => hs (hx ▸ hc)
  obtain ⟨digits, rfl, -⟩ := hex32_eq hroot
  obtain ⟨digits', rfl, -⟩ := hex32_eq hroot'
  simp only [List.append_assoc, List.cons_append] at h
  have hfronts := congrArg (List.takeWhile (· ≠ 'x')) h
  rw [hfront hpool, hfront hpool'] at hfronts
  exact List.append_cancel_right hfronts

/-- Two manifests of one pool, root and dataset with a policy and a ledger each. -/
def Demo.signed (policy : String) (ledger : Option ℕ) : SetManifest where
  poolId := "7".toList
  root := hexText (BytesN.ofNat 32 1)
  version := 0
  levels := 20
  labels := []
  indices := []
  generatedAt := []
  datasetHash := some (hexText (BytesN.ofNat 32 2))
  policy := some policy.toList
  ledger := ledger

theorem Demo.signed_signable (policy : String) (ledger : Option ℕ) :
    (Demo.signed policy ledger).Signable :=
  ⟨⟨_, rfl⟩, _, ⟨_, rfl⟩, rfl⟩

/-- The digits of a ledger are taken for those of a version: neither manifest is bound. -/
theorem policy_runs_into_ledger :
    let first := Demo.signed "allowlist-v1" (some 23)
    let second := Demo.signed "allowlist-v12" (some 3)
    first.Signable ∧ second.Signable ∧
      signedMessage second "key".toList = signedMessage first "key".toList ∧
      second.contents ≠ first.contents := by
  intro first second
  have hfirst := Demo.signed_signable "allowlist-v1" (some 23)
  have hsecond := Demo.signed_signable "allowlist-v12" (some 3)
  refine ⟨hfirst, hsecond, ?_, ?_⟩
  · refine (signedMessage_eq_iff hfirst hsecond _).mpr ?_
    have htexts : "allowlist-v12".toList ++ ledgerText (some 3) =
        "allowlist-v1".toList ++ ledgerText (some 23) := by decide
    exact (List.append_assoc _ _ _).trans <|
      (congrArg (_ ++ ·) htexts).trans (List.append_assoc _ _ _).symm
  · intro hsame
    simp only [SetManifest.contents, Prod.mk.injEq] at hsame
    have hledger : some 3 = some 23 := hsame.2.2.2.2
    simp at hledger

/-- A manifest whose policy ends in a letter, and that names no ledger. -/
theorem bound_allowlist : (Demo.signed "allowlist" none).Bound "key".toList := by
  refine (bound_iff_delimited _ _ (Demo.signed_signable "allowlist" none)).mpr ⟨rfl, ?_, ?_⟩
  · exact ⟨"allowlis".toList, 't', by decide, by decide⟩
  · intro poolId root datasetHash rest hroot hhash htext
    exact cut_of_no_x ⟨_, rfl⟩ ⟨_, rfl⟩ hroot hhash (by decide) (by decide) htext

end OpaqueStellar.Asp
