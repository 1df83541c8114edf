import OpaqueStellar.Asp.Manifest
import OpaqueStellar.Lib.Lists
import OpaqueStellar.Publisher.Validate

/-! # Dataset hashes

The association-set provider and the publisher each hash the dataset of a root they post: how many
entries there are, the root, and the entries. The one reads an entry with `BigInt` and the root with
`Buffer.from`, the other reads all of them with `normalizeHex32`; what they hash is laid out alike. So is
what they are hashed for: equal preimages come from the same root and the same entries in the same
order, however these are spelled.

The hashes of the two engines are those of the texts that stand for their roots and entries. -/

namespace OpaqueStellar.Asp

open OpaqueStellar.Lib
open OpaqueStellar.Schemas (Str)
open OpaqueStellar.Relayer (bigIntOfString strip0x)

/-! ## What is hashed -/

/-- A count, a root, and a part for each entry; `none` where one of them cannot be read. -/
def preimageOf (root : Option (List UInt8)) (entryBytes : Str → Option (List UInt8))
    (entries : List Str) : Option (List UInt8) :=
  root.bind fun rootBytes =>
    (gather entryBytes entries).map fun parts => beBytes 4 entries.length ++ rootBytes ++ parts

/-- `Buffer.from(…, "hex")`: the bytes up to the first that is not written in digits. -/
def hexBuffer : Str → List UInt8
  | a :: b :: rest =>
      match Hex.digitValue a, Hex.digitValue b with
      | some high, some low => UInt8.ofNat (16 * high + low) :: hexBuffer rest
      | _, _ => []
  | _ => []

def rootBytes (root : Str) : List UInt8 := hexBuffer (strip0x root)

/-- The lowest 32 bytes of a number. -/
def labelBytes (label : Str) : Option (List UInt8) :=
  (bigIntOfString label).map fun v => beBytes 32 (v % 2 ^ 256).toNat

/-- What `computeDatasetHash` hashes. -/
def datasetPreimage (root : Str) (labels : List Str) : Option (List UInt8) :=
  preimageOf (some (rootBytes root)) labelBytes labels

end OpaqueStellar.Asp

namespace OpaqueStellar.Publisher

open OpaqueStellar.Lib
open OpaqueStellar.Asp (preimageOf hexBuffer rootBytes labelBytes hexText)
open OpaqueStellar.Schemas (Str)
open OpaqueStellar.Relayer (bigIntOfString bigIntToString strip0x)

def hex32ToBytes (value : Str) : Option (List UInt8) := (normalizeHex32 value).map (·.1)

/-- What `computeDatasetHash` hashes. -/
def datasetPreimage (root : Str) (leaves : List Str) : Option (List UInt8) :=
  preimageOf (hex32ToBytes root) hex32ToBytes leaves

/-! ## What it is hashed for -/

/-- With parts of 32 bytes, and with fewer entries than a count can say. -/
theorem preimageOf_inj {entryBytes : Str → Option (List UInt8)}
    (hentry : ∀ x a, entryBytes x = some a → a.length = 32) {root root' : Option (List UInt8)}
    {entries entries' : List Str} {preimage : List UInt8}
    (h : preimageOf root entryBytes entries = some preimage)
    (h' : preimageOf root' entryBytes entries' = some preimage) (hlen : entries.length < 2 ^ 32)
    (hlen' : entries'.length < 2 ^ 32) :
    root = root' ∧ entries.length = entries'.length ∧
      entries.map entryBytes = entries'.map entryBytes := by
  simp only [preimageOf, Option.bind_eq_some_iff, Option.map_eq_some_iff] at h h'
  obtain ⟨r, rfl, parts, hparts, rfl⟩ := h
  obtain ⟨r', rfl, parts', hparts', heq⟩ := h'
  rw [List.append_assoc, List.append_assoc] at heq
  obtain ⟨hcount, heq⟩ := List.append_inj heq (by simp)
  have hcount : entries.length = entries'.length := beBytes_inj hlen hlen' hcount.symm
  have hsize := congrArg List.length heq
  rw [List.length_append, List.length_append, length_gather_of_length hentry hparts,
    length_gather_of_length hentry hparts', hcount, Nat.add_right_cancel_iff] at hsize
  obtain ⟨rfl, rfl⟩ := List.append_inj heq hsize
  exact ⟨rfl, hcount, map_eq_of_gather_eq hentry hcount hparts hparts'⟩

/-- The texts stand for one dataset: `rootOf` is what a text of a root stands for, and `entryOf` what
one of an entry does. -/
structure SameDataset {ρ ε : Type} (rootOf : Str → ρ) (entryOf : Str → ε) (root root' : Str)
    (entries entries' : List Str) : Prop where
  root : rootOf root = rootOf root'
  count : entries.length = entries'.length
  entries : entries.map entryOf = entries'.map entryOf

/-- Each label is a number that fits into 32 bytes. -/
def LabelsFit (labels : List Str) : Prop :=
  ∀ l ∈ labels, ∀ v, bigIntOfString l = some v → 0 ≤ v ∧ v < 2 ^ 256

theorem length_labelBytes (label : Str) (bytes : List UInt8) (h : labelBytes label = some bytes) :
    bytes.length = 32 := by
  obtain ⟨v, -, rfl⟩ := Option.map_eq_some_iff.mp h
  exact length_beBytes 32 _

theorem length_hex32ToBytes (value : Str) (bytes : List UInt8) (h : hex32ToBytes value = some bytes) :
    bytes.length = 32 := by
  obtain ⟨x, -, rfl⟩ := Option.map_eq_some_iff.mp h
  exact x.2

/-- Numbers that fit into 32 bytes are told apart by them. -/
theorem value_eq_of_labelBytes {l l' : Str} {v v' : ℤ} (hv : bigIntOfString l = some v)
    (hv' : bigIntOfString l' = some v') (hfits : 0 ≤ v ∧ v < 2 ^ 256) (hfits' : 0 ≤ v' ∧ v' < 2 ^ 256)
    (h : labelBytes l = labelBytes l') : v = v' := by
  rw [labelBytes, labelBytes, hv, hv', Option.map_some, Option.map_some, Option.some.injEq,
    Int.emod_eq_of_lt hfits.1 hfits.2, Int.emod_eq_of_lt hfits'.1 hfits'.2] at h
  have hnat := beBytes_inj (by omega) (by omega) h
  omega

theorem hex32ToBytes_eq_iff {value value' : Str} :
    hex32ToBytes value = hex32ToBytes value' ↔ normalizeHex32 value = normalizeHex32 value' := by
  unfold hex32ToBytes
  exact (Option.map_injective Subtype.val_injective).eq_iff

/-- What is written in digits is read to its end. -/
theorem hexBuffer_of_decode {s : Str} {bytes : List UInt8} (h : Hex.decode s = some bytes) :
    hexBuffer s = bytes := by
  fun_induction hexBuffer s generalizing bytes with
  | case1 a b rest high low hlow hhigh ih =>
      obtain ⟨high', low', more, hhigh', hlow', hmore, rfl⟩ := Hex.decode_cons_eq_some.mp h
      obtain rfl : high = high' := Option.some.inj (hhigh.symm.trans hhigh')
      obtain rfl : low = low' := Option.some.inj (hlow.symm.trans hlow')
      rw [ih hmore]
  | case2 a b rest hdigits =>
      obtain ⟨high, low, more, hhigh, hlow, -⟩ := Hex.decode_cons_eq_some.mp h
      exact absurd hlow (hdigits high low hhigh)
  | case3 s hs =>
      cases s with
      | nil => exact Option.some.inj h
      | cons a rest =>
          cases rest with
          | nil => cases h
          | cons b rest => exact absurd rfl (hs a b rest)

theorem rootBytes_of_hexBytes {root : Str} {x : BytesN 32} (h : hexBytes 32 root = some x) :
    rootBytes root = x.1 :=
  hexBuffer_of_decode (hexBytes_eq_some.mp h)

/-- **Dataset hashes bind.** For the provider and for the publisher: equal preimages come from texts of
one root, as many entries, and entries of the same values in the same order; for all lists of fewer than
`2 ^ 32` entries below `2 ^ 256`, in every spelling that is read. The provider reads any text for a root:
what it hashes are then the same bytes, and it is the same root where the texts stand for 32 bytes. -/
theorem dataset_binding :
    (∀ root root' labels labels' preimage, labels.length < 2 ^ 32 → labels'.length < 2 ^ 32 →
      LabelsFit labels → LabelsFit labels' → Asp.datasetPreimage root labels = some preimage →
      Asp.datasetPreimage root' labels' = some preimage →
      SameDataset rootBytes bigIntOfString root root' labels labels' ∧
        ∀ x x', hexBytes 32 root = some x → hexBytes 32 root' = some x' → x = x') ∧
    ∀ root root' leaves leaves' preimage, leaves.length < 2 ^ 32 → leaves'.length < 2 ^ 32 →
      datasetPreimage root leaves = some preimage → datasetPreimage root' leaves' = some preimage →
      SameDataset normalizeHex32 normalizeHex32 root root' leaves leaves' := by
  refine ⟨?_, ?_⟩
  · intro root root' labels labels' preimage hlen hlen' hfit hfit' h h'
    obtain ⟨hroot, hcount, hlabels⟩ := preimageOf_inj length_labelBytes h h' hlen hlen'
    have hroot := Option.some.inj hroot
    refine ⟨⟨hroot, hcount, map_eq_map_of ?_ hlabels⟩, ?_⟩
    swap
    · intro x x' hx hx'
      rw [rootBytes_of_hexBytes hx, rootBytes_of_hexBytes hx'] at hroot
      exact Subtype.ext hroot
    intro l hl l' hl' hbytes
    cases hv : bigIntOfString l with
    | none =>
        cases hv' : bigIntOfString l' with
        | none => rfl
        | some v' => simp [labelBytes, hv, hv'] at hbytes
    | some v =>
        cases hv' : bigIntOfString l' with
        | none => simp [labelBytes, hv, hv'] at hbytes
        | some v' =>
            rw [value_eq_of_labelBytes hv hv' (hfit l hl v hv) (hfit' l' hl' v' hv') hbytes]
  · intro root root' leaves leaves' preimage hlen hlen' h h'
    obtain ⟨hroot, hcount, hleaves⟩ := preimageOf_inj length_hex32ToBytes h h' hlen hlen'
    refine ⟨hex32ToBytes_eq_iff.mp hroot, hcount, map_eq_map_of ?_ hleaves⟩
    intro l _ l' _ hbytes
    exact hex32ToBytes_eq_iff.mp hbytes

/-- Decimal and hexadecimal digits of one label, and a root with and without `0x`. -/
theorem dataset_binding_spelled :
    SameDataset rootBytes bigIntOfString (hexText (BytesN.ofNat 32 1)) (Hex.encode (BytesN.ofNat 32 1).1)
      ["12".toList, "7".toList] ["0xc".toList, " 7".toList] :=
  (dataset_binding.1 _ _ _ _ (beBytes 4 2 ++ beBytes 32 1 ++ (beBytes 32 12 ++ beBytes 32 7)) (by simp)
    (by simp) (by unfold LabelsFit; decide) (by unfold LabelsFit; decide) (by decide) (by decide)).1

/-! ## The hashes of the engines -/

theorem gather_of_map {entryBytes : Str → Option (List UInt8)} {texts : List Str}
    {values : List (BytesN 32)} (h : texts.map entryBytes = values.map fun x => some x.1) :
    gather entryBytes texts = some (values.flatMap (·.1)) := by
  have htexts : gather id (texts.map entryBytes) = gather entryBytes texts := gather_map entryBytes texts
  rw [← htexts, h, gather_map]
  exact gather_some _ _

/-- A root or a leaf of the state as a text. -/
theorem labelBytes_hexText (x : BytesN 32) : labelBytes (hexText x) = some x.1 := by
  have hspace : ∀ c ∈ hexText x, isSpace c = false := by
    intro c hc
    rcases List.mem_cons.mp hc with rfl | hc
    · decide
    rcases List.mem_cons.mp hc with rfl | hc
    · decide
    obtain ⟨n, hn, rfl⟩ := Hex.mem_encode hc
    interval_cases n <;> decide
  have hdecode := Hex.decode_encode x.1
  have hvalue : bigIntOfString (hexText x) = some (x.toNat : ℤ) := by
    rw [bigIntOfString, trimSpaces_eq_self hspace]
    exact digitsOf_hexDecode (ne_nil_of_hexDecode hdecode) hdecode
  have hlt := x.toNat_lt
  rw [labelBytes, hvalue, Option.map_some, Int.emod_eq_of_lt (by omega) (by omega), Int.toNat_natCast]
  have hbytes := Schemas.beBytes_beNat x.1
  rw [x.2] at hbytes
  rw [BytesN.toNat, hbytes]

/-- A label as a text. -/
theorem labelBytes_encode {v : ℕ} (h : v < 2 ^ 256) :
    labelBytes (Decimal.encode v) = some (BytesN.ofNat 32 v).1 := by
  have hvalue : bigIntOfString (Decimal.encode v) = some (v : ℤ) :=
    Relayer.bigIntOfString_bigIntToString v
  rw [labelBytes, hvalue, Option.map_some, Int.emod_eq_of_lt (by omega) (by omega), Int.toNat_natCast]
  rfl

/-- The hash of the provider is that of the texts it writes for a root and for its labels. -/
theorem asp_computeDatasetHash {F : Type} (S : Asp.Setting F) (root : BytesN 32) {texts : List Str}
    {values : List (BytesN 32)} (h : texts.map labelBytes = values.map fun x => some x.1) :
    (Asp.datasetPreimage (hexText root) texts).map S.sha256 =
      some (Asp.computeDatasetHash S root values) := by
  have hcount : texts.length = values.length := by simpa using congrArg List.length h
  have hroot : rootBytes (hexText root) = root.1 := hexBuffer_of_decode (Hex.decode_encode root.1)
  rw [Asp.datasetPreimage, preimageOf, Option.bind_some, gather_of_map h, hroot, hcount, Option.map_some,
    Option.map_some, Asp.computeDatasetHash]

theorem state_datasetHash {F : Type} (S : Asp.Setting F) (root : BytesN 32) (leaves : List (BytesN 32)) :
    (Asp.datasetPreimage (hexText root) (leaves.map hexText)).map S.sha256 =
      some (Asp.computeDatasetHash S root leaves) := by
  apply asp_computeDatasetHash
  rw [List.map_map]
  exact List.map_congr_left fun x _ => labelBytes_hexText x

theorem manifest_datasetHash (S : Asp.Setting ℕ) (hhex : ∀ v, S.toHex32 v = BytesN.ofNat 32 v)
    {set : Asp.AssociationSet ℕ} (hlabels : ∀ v ∈ set.labels, v < 2 ^ 256) (poolId generatedAt : Str) :
    (Asp.datasetPreimage (hexText (set.rootHex S)) (set.manifest S poolId generatedAt).labels).map S.sha256 =
      some (Asp.computeDatasetHash S (set.rootHex S) (set.labels.map S.toHex32)) := by
  apply asp_computeDatasetHash
  show (set.labels.map Decimal.encode).map labelBytes = _
  rw [List.map_map, List.map_map]
  apply List.map_congr_left
  intro v hv
  show labelBytes (Decimal.encode v) = some (S.toHex32 v).1
  rw [labelBytes_encode (hlabels v hv), hhex]

/-- That of the publisher is the one of any texts that it reads so. -/
theorem publisher_computeDatasetHash (crypto : Crypto) {rootText : Str} {root : BytesN 32}
    {texts : List Str} {values : List (BytesN 32)} (hroot : normalizeHex32 rootText = some root)
    (h : texts.map normalizeHex32 = values.map some) :
    (datasetPreimage rootText texts).map crypto.sha256 =
      some (computeDatasetHash crypto root values) := by
  have hcount : texts.length = values.length := by simpa using congrArg List.length h
  have htexts : texts.map hex32ToBytes = values.map fun x => some x.1 := by
    have hmap := congrArg (List.map (Option.map fun x : BytesN 32 => x.1)) h
    rw [List.map_map, List.map_map] at hmap
    exact hmap
  rw [datasetPreimage, preimageOf, hex32ToBytes, hroot, Option.map_some, Option.bind_some,
    gather_of_map htexts, hcount, Option.map_some, Option.map_some, computeDatasetHash]

end OpaqueStellar.Publisher
