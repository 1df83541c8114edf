import OpaqueStellar.Stealth.Dksap

/-! # Scanning announcements

`StealthAnnouncer` (`contracts/stealth-announcer/src/lib.rs`) lets an announcement through if its key has
the length and the first byte of a compressed point. The scanner (`sdk/src/crypto/scan.ts`) goes through all
of them, and whatever throws inside the loop ends it. -/

namespace OpaqueStellar.Stealth

open OpaqueStellar.Lib OpaqueStellar.Schemas OpaqueStellar.Soroban

/-! ## The announcer -/

inductive AnnouncerError where
  | InvalidEphemeralKey
  | MetadataMissingViewTag
  | InvalidKeyPrefix
  | UnsupportedSchemeId
  | InvalidStealthAddressLength
  deriving DecidableEq

/-- The arguments of `announce`. -/
structure Announce where
  scheme_id : ℕ
  stealth_address : List UInt8
  ephemeral_pub_key : List UInt8
  metadata : List UInt8
  deriving DecidableEq

def SUPPORTED_SCHEMES : List ℕ := [1]

def Announce.validate (a : Announce) : Except AnnouncerError Unit :=
  if a.scheme_id ∉ SUPPORTED_SCHEMES then .error .UnsupportedSchemeId
  else if a.scheme_id ≠ 1 then .error .UnsupportedSchemeId
  else if a.stealth_address.length ≠ 20 then .error .InvalidStealthAddressLength
  else if a.ephemeral_pub_key.length ≠ 33 then .error .InvalidEphemeralKey
  else if a.ephemeral_pub_key.head? ≠ some 0x02 ∧ a.ephemeral_pub_key.head? ≠ some 0x03 then
    .error .InvalidKeyPrefix
  else if a.metadata = [] then .error .MetadataMissingViewTag
  else .ok ()

/-- What the contract has accepted. -/
abbrev Accepted : Type := { a : Announce // a.validate = .ok () }

structure StealthAnnouncement where
  stealthAddress : Str
  ephemeralPubKey : List UInt8
  viewTag : UInt8
  deriving DecidableEq

/-- What `scanEvents` makes of the event. -/
def Announce.announcement (a : Announce) : StealthAnnouncement where
  stealthAddress := toHex a.stealth_address
  ephemeralPubKey := a.ephemeral_pub_key
  viewTag := a.metadata.headD 0

/-! ## The scanner -/

structure ScanMatch where
  announcement : StealthAnnouncement
  stealthPrivKey : BytesN 32
  stealthStellarAddress : Str
  deriving DecidableEq

structure ViewOnlyMatch where
  announcement : StealthAnnouncement
  derivedStealthAddress : Str
  deriving DecidableEq

def toLowerCase (text : Str) : Str := text.map Char.toLower

/-- `matches` after the loop. -/
def collect {α β ε : Type} (scan : α → Except ε (Option β)) (xs : List α) : Except ε (List β) :=
  xs.foldlM (fun matched x => do
    match ← scan x with
    | some m => pure (matched ++ [m])
    | none => pure matched) []

section Scan

variable (C : Crypto)

/-- One turn of the loop of `scanAnnouncements`. -/
def scanAnnouncement (viewingKey spendingKey : BytesN 32) (announcement : StealthAnnouncement) :
    Except Thrown (Option ScanMatch) := do
  if ← checkViewTagMatch C viewingKey announcement.ephemeralPubKey announcement.viewTag then
    let stealthPrivKey ← reconstructStealthPrivateKey C viewingKey spendingKey
      announcement.ephemeralPubKey
    let id ← stealthIdFromPrivateKey C stealthPrivKey
    if toLowerCase id ≠ toLowerCase announcement.stealthAddress then pure none
    else
      let stellar ← deriveStealthStellarAddressFromStealthPrivKey C stealthPrivKey
      pure (some ⟨announcement, stealthPrivKey, stellar⟩)
  else pure none

def scanAnnouncements (viewingKey spendingKey : BytesN 32) (announcements : List StealthAnnouncement) :
    Except Thrown (List ScanMatch) :=
  collect (scanAnnouncement C viewingKey spendingKey) announcements

/-- One turn of the loop of `scanAnnouncementsViewOnly`. -/
def scanAnnouncementViewOnly (viewingKey : BytesN 32) (spendingPubKey : List UInt8)
    (announcement : StealthAnnouncement) : Except Thrown (Option ViewOnlyMatch) := do
  if ← checkViewTagMatch C viewingKey announcement.ephemeralPubKey announcement.viewTag then
    let derivedAddress ← deriveStealthAddressViewOnly C viewingKey spendingPubKey
      announcement.ephemeralPubKey
    if toLowerCase derivedAddress ≠ toLowerCase announcement.stealthAddress then pure none
    else pure (some ⟨announcement, derivedAddress⟩)
  else pure none

def scanAnnouncementsViewOnly (viewingKey : BytesN 32) (spendingPubKey : List UInt8)
    (announcements : List StealthAnnouncement) : Except Thrown (List ViewOnlyMatch) :=
  collect (scanAnnouncementViewOnly C viewingKey spendingPubKey) announcements

end Scan

/-! ## Loops that collect -/

section Collect

variable {α β ε : Type} {scan : α → Except ε (Option β)}

/-- What scanning it on its own finds; nothing if that throws. -/
def alone (scan : α → Except ε (Option β)) (x : α) : List β :=
  match collect scan [x] with
  | .ok found => found
  | .error _ => []

theorem collect_singleton {x : α} {r : Option β} (h : scan x = .ok r) :
    collect scan [x] = .ok r.toList := by
  cases r with
  | none => simp [collect, h, pure, Except.pure]
  | some m => simp [collect, h, pure, Except.pure]

theorem alone_of_ok {x : α} {r : Option β} (h : scan x = .ok r) : alone scan x = r.toList := by
  rw [alone, collect_singleton h]

/-- The loop from some matches on. -/
theorem foldlM_collect {xs : List α} {found : List β} (h : ∀ x ∈ xs, ∃ r, scan x = .ok r) :
    xs.foldlM (fun matched x => do
      match ← scan x with
      | some m => pure (matched ++ [m])
      | none => pure matched) found = .ok (found ++ xs.flatMap (alone scan)) := by
  induction xs generalizing found with
  | nil => simp [pure, Except.pure]
  | cons x xs ih =>
    obtain ⟨r, hr⟩ := h x List.mem_cons_self
    have hlater : ∀ x ∈ xs, ∃ r, scan x = .ok r := fun x hx => h x (List.mem_cons_of_mem _ hx)
    rw [List.foldlM_cons, hr, List.flatMap_cons, alone_of_ok hr]
    cases r with
    | none =>
      simp only [ok_bind, pure, Except.pure]
      exact ih hlater
    | some m =>
      simp only [ok_bind, pure, Except.pure]
      rw [← List.append_assoc]
      exact ih hlater

/-- One that throws ends the loop. -/
theorem foldlM_collect_error {xs : List α} {found : List β} {x : α} (hx : x ∈ xs)
    (h : ∀ r, scan x ≠ .ok r) (all : List β) :
    xs.foldlM (fun matched x => do
      match ← scan x with
      | some m => pure (matched ++ [m])
      | none => pure matched) found ≠ .ok all := by
  induction xs generalizing found with
  | nil => cases hx
  | cons y xs ih =>
    rw [List.foldlM_cons]
    intro hok
    obtain ⟨found', hfound', hok⟩ := bind_eq_ok.mp hok
    rcases List.mem_cons.mp hx with rfl | hx
    · obtain ⟨r, hr, -⟩ := bind_eq_ok.mp hfound'
      exact h r hr
    · exact ih hx hok

theorem collect_isOk {xs : List α} {all : List β} (h : collect scan xs = .ok all) :
    ∀ x ∈ xs, ∃ r, scan x = .ok r := by
  intro x hx
  by_contra hnone
  push Not at hnone
  exact foldlM_collect_error hx hnone _ h

theorem collect_eq_of_isOk {xs : List α} (h : ∀ x ∈ xs, ∃ r, scan x = .ok r) :
    collect scan xs = .ok (xs.flatMap (alone scan)) := by
  have hfold : collect scan xs = .ok ([] ++ xs.flatMap (alone scan)) := foldlM_collect h
  rwa [List.nil_append] at hfold

theorem collect_eq_of_ok {xs : List α} {all : List β} (h : collect scan xs = .ok all) :
    all = xs.flatMap (alone scan) :=
  Except.ok.inj (h.symm.trans (collect_eq_of_isOk (collect_isOk h)))

/-- The loop finds what it would find one by one exactly if none throws. -/
theorem collect_eq_flatMap_iff {xs : List α} :
    collect scan xs = .ok (xs.flatMap (alone scan)) ↔ ∀ x ∈ xs, ∃ r, scan x = .ok r :=
  ⟨collect_isOk, collect_eq_of_isOk⟩

theorem alone_eq_toList (x : α) : alone scan x = (scan x).toOption.join.toList := by
  cases h : scan x with
  | ok r =>
    rw [alone_of_ok h]
    rfl
  | error e => simp [alone, collect, h, Except.toOption]

theorem flatMap_alone (xs : List α) :
    xs.flatMap (alone scan) = xs.filterMap fun x => (scan x).toOption.join := by
  have halone : alone scan = fun x => (scan x).toOption.join.toList := funext alone_eq_toList
  rw [List.filterMap_eq_flatMap_toList, halone]

end Collect

/-! ## When a turn throws -/

section Turns

variable {C : Crypto} {view spend : SecretKey} {a : StealthAnnouncement}

/-- The key is a point, and if the tag is the one that it gives, the one-time key is not zero. -/
def Scannable (C : Crypto) (view spend : SecretKey) (a : StealthAnnouncement) : Prop :=
  ∃ P, C.curve.fromHex a.ephemeralPubKey = some P ∧
    (viewTagOf (sharedHash C view P) = a.viewTag → stealthScalar C view spend P ≠ 0)

/-- Neither is the hash that is added to the spending key. -/
def ScannableViewOnly (C : Crypto) (view spend : SecretKey) (a : StealthAnnouncement) : Prop :=
  ∃ P, C.curve.fromHex a.ephemeralPubKey = some P ∧
    (viewTagOf (sharedHash C view P) = a.viewTag →
      (sharedHash C view P).toNat % order ≠ 0 ∧ stealthScalar C view spend P ≠ 0)

theorem checkViewTagMatch_eq_error (h : C.curve.fromHex a.ephemeralPubKey = none) :
    checkViewTagMatch C view.bytes a.ephemeralPubKey a.viewTag = .error .badPoint := by
  simp [checkViewTagMatch, recipientSharedSecretHash, sharedSecretFromScalarAndPoint, fromHex_eq_error h]

theorem scanAnnouncement_isOk :
    (∃ r, scanAnnouncement C view.bytes spend.bytes a = .ok r) ↔ Scannable C view spend a := by
  cases hpoint : C.curve.fromHex a.ephemeralPubKey with
  | none => simp [scanAnnouncement, checkViewTagMatch_eq_error hpoint, Scannable, hpoint]
  | some P =>
    have hreconstruct : reconstructStealthPrivateKey C view.bytes spend.bytes a.ephemeralPubKey = _ :=
      reconstructStealthPrivateKey_eq hpoint
    have hkey : stealthScalar C view spend P ≠ 0 → _ := getPublicKey_stealthScalar
    simp only [Scannable, hpoint, Option.some.injEq, exists_eq_left']
    generalize stealthScalar C view spend P = key at hreconstruct hkey ⊢
    simp only [scanAnnouncement, checkViewTagMatch_eq hpoint, ok_bind, decide_eq_true_eq, hreconstruct]
    by_cases htag : viewTagOf (sharedHash C view P) = a.viewTag
    · by_cases hzero : key = 0
      · simp [htag, hzero]
      · -- nothing throws once there is a key
        refine iff_of_true ?_ fun _ => hzero
        simp only [htag, hzero, if_true, if_false, ok_bind, stealthIdFromPrivateKey,
          deriveStealthStellarAddressFromStealthPrivKey, hkey hzero, pure, Except.pure]
        split
        · exact ⟨_, rfl⟩
        · exact ⟨_, rfl⟩
    · simp [htag, pure, Except.pure]

theorem scanAnnouncementViewOnly_isOk :
    (∃ r, scanAnnouncementViewOnly C view.bytes (C.curve.compressed (spend.point C.curve)) a = .ok r) ↔
      ScannableViewOnly C view spend a := by
  cases hpoint : C.curve.fromHex a.ephemeralPubKey with
  | none => simp [scanAnnouncementViewOnly, checkViewTagMatch_eq_error hpoint, ScannableViewOnly, hpoint]
  | some P =>
    simp only [scanAnnouncementViewOnly, checkViewTagMatch_eq hpoint, ok_bind, decide_eq_true_eq,
      ScannableViewOnly, hpoint, Option.some.injEq, exists_eq_left', deriveStealthAddressViewOnly_eq hpoint]
    by_cases htag : viewTagOf (sharedHash C view P) = a.viewTag
    · by_cases hhash : (sharedHash C view P).toNat % order = 0
      · simp [htag, hhash]
      · by_cases hzero : stealthScalar C view spend P = 0
        · simp [htag, hhash, hzero]
        · refine iff_of_true ?_ fun _ => ⟨hhash, hzero⟩
          simp only [htag, hhash, hzero, if_true, if_false, ok_bind, pure, Except.pure]
          split
          · exact ⟨_, rfl⟩
          · exact ⟨_, rfl⟩
    · simp [htag, pure, Except.pure]

end Turns

/-- For every list of accepted announcements, scanning all of them finds what scanning them one by one
finds exactly if each of them can be scanned: its key is a point, and a tag that matches does not come with
a key or a hash that is zero. -/
theorem scan_finds_all_iff (C : Crypto) (view spend : SecretKey) (announces : List Accepted) :
    (scanAnnouncements C view.bytes spend.bytes (announces.map (·.1.announcement)) =
        .ok ((announces.map (·.1.announcement)).flatMap
          (alone (scanAnnouncement C view.bytes spend.bytes))) ↔
      ∀ a ∈ announces, Scannable C view spend a.1.announcement) ∧
    (scanAnnouncementsViewOnly C view.bytes (C.curve.compressed (spend.point C.curve))
        (announces.map (·.1.announcement)) =
          .ok ((announces.map (·.1.announcement)).flatMap
            (alone (scanAnnouncementViewOnly C view.bytes (C.curve.compressed (spend.point C.curve))))) ↔
      ∀ a ∈ announces, ScannableViewOnly C view spend a.1.announcement) := by
  constructor
  · rw [scanAnnouncements, collect_eq_flatMap_iff, List.forall_mem_map]
    simp only [scanAnnouncement_isOk]
  · rw [scanAnnouncementsViewOnly, collect_eq_flatMap_iff, List.forall_mem_map]
    simp only [scanAnnouncementViewOnly_isOk]

/-! ## A key that is no point -/

namespace Toy

/-- A hash function with one value. -/
def crypto : Crypto where
  curve := curve
  keccak256 _ := BytesN.ofNat 32 1
  stellarAddress _ := []

def one : SecretKey where
  bytes := BytesN.ofNat 32 1
  pos := by decide
  lt := by decide

/-- The first coordinate is larger than any coordinate. -/
def noPoint : Accepted where
  val := ⟨1, List.replicate 20 0, 0x02 :: List.replicate 32 0xff, [0]⟩
  property := by decide

/-- A payment to the recipient whose keys are both `one`, with the ephemeral key `one`. -/
def payment : Accepted where
  val := ⟨1, (BytesN.ofNat 32 1).1.drop 12, 0x02 :: (BytesN.ofNat 32 1).1, [0]⟩
  property := by decide

theorem fromHex_noPoint : crypto.curve.fromHex noPoint.1.announcement.ephemeralPubKey = none := by
  have hlarge : order ≤ beNat (List.replicate 32 0xff) := by decide
  simp only [crypto, curve, noPoint, Announce.announcement, fromHex]
  exact if_neg fun hrange => absurd hrange.2.2 (not_lt_of_ge hlarge)

theorem fromHex_payment : crypto.curve.fromHex payment.1.announcement.ephemeralPubKey =
    some (1 : ZMod order) := by
  show fromHex (0x02 :: (BytesN.ofNat 32 1).1) = some 1
  have hone : beNat (BytesN.ofNat 32 1).1 = 1 := by decide
  have hrange : (BytesN.ofNat 32 1).1.length = 32 ∧ 0 < beNat (BytesN.ofNat 32 1).1 ∧
      beNat (BytesN.ofNat 32 1).1 < order := by
    decide
  simp only [fromHex]
  rw [if_pos hrange, hone, Nat.cast_one]

/-- Whatever its key is, an announcement of the address that is paid to is a match. -/
theorem scanAnnouncement_eq {a : StealthAnnouncement} {P : crypto.curve.Point}
    (hkey : crypto.curve.fromHex a.ephemeralPubKey = some P)
    (haddress : a.stealthAddress = payment.1.announcement.stealthAddress) (htag : a.viewTag = 0) :
    scanAnnouncement crypto one.bytes one.bytes a = .ok (some ⟨a, BytesN.ofNat 32 2, []⟩) := by
  have hhash : sharedHash crypto one P = BytesN.ofNat 32 1 := rfl
  have hscalar : stealthScalar crypto one one P = 2 := by
    rw [stealthScalar, hhash]
    decide
  have hreconstruct : reconstructStealthPrivateKey crypto one.bytes one.bytes a.ephemeralPubKey = _ :=
    reconstructStealthPrivateKey_eq hkey
  have hpublic : getPublicKey crypto (BytesN.ofNat 32 (stealthScalar crypto one one P)) false = _ :=
    getPublicKey_stealthScalar (by rw [hscalar]; decide)
  rw [hscalar] at hreconstruct hpublic
  have hbytes : ∀ uncompressed, addressBytes crypto uncompressed = (BytesN.ofNat 32 1).1.drop 12 :=
    fun _ => rfl
  have hviewTag : viewTagOf (sharedHash crypto one P) = a.viewTag := by
    rw [hhash, htag]
    decide
  have hstellar : ∀ uncompressed, crypto.stellarAddress uncompressed = [] := fun _ => rfl
  have hid : toHex ((BytesN.ofNat 32 1).1.drop 12) = a.stealthAddress := haddress.symm
  simp [scanAnnouncement, checkViewTagMatch_eq hkey, hviewTag, hreconstruct, hpublic,
    stealthIdFromPrivateKey, deriveStealthStellarAddressFromStealthPrivKey, hbytes, hstellar, hid, pure,
    Except.pure]

theorem scanAnnouncement_payment :
    scanAnnouncement crypto one.bytes one.bytes payment.1.announcement =
      .ok (some ⟨payment.1.announcement, BytesN.ofNat 32 2, []⟩) :=
  scanAnnouncement_eq fromHex_payment rfl rfl

end Toy

/-- An accepted announcement whose key is no point hides the payment after it. -/
theorem scan_aborts :
    scanAnnouncements Toy.crypto Toy.one.bytes Toy.one.bytes
        [Toy.noPoint.1.announcement, Toy.payment.1.announcement] = .error .badPoint ∧
      scanAnnouncementsViewOnly Toy.crypto Toy.one.bytes
        (Toy.crypto.curve.compressed (Toy.one.point Toy.crypto.curve))
        [Toy.noPoint.1.announcement, Toy.payment.1.announcement] = .error .badPoint ∧
      scanAnnouncements Toy.crypto Toy.one.bytes Toy.one.bytes [Toy.payment.1.announcement] =
        .ok [⟨Toy.payment.1.announcement, BytesN.ofNat 32 2, []⟩] := by
  have hnoPoint : checkViewTagMatch Toy.crypto Toy.one.bytes Toy.noPoint.1.announcement.ephemeralPubKey
      Toy.noPoint.1.announcement.viewTag = _ := checkViewTagMatch_eq_error Toy.fromHex_noPoint
  refine ⟨?_, ?_, ?_⟩
  · simp [scanAnnouncements, collect, scanAnnouncement, hnoPoint]
  · simp [scanAnnouncementsViewOnly, collect, scanAnnouncementViewOnly, hnoPoint]
  · rw [scanAnnouncements, collect_singleton Toy.scanAnnouncement_payment]
    rfl

end OpaqueStellar.Stealth
