import OpaqueStellar.Soroban.Basic

/-! # The Groth16 verifier contract

`contracts/groth16-verifier`: the scalar check on the public signals, the accumulation of the
public-input point, the negation of the proof's first point and the pairing check. The curve
operations are host functions and enter as the parameter `Bn254`.

What the callers of the contract rely on besides the pairing is the scalar check: a proof verifies
only for signals that are canonical, so an accepted signal has no second encoding
(`isValidScalar_iff`, `valid_of_verifyProofV3`). -/

namespace OpaqueStellar.Groth16

open OpaqueStellar.Lib OpaqueStellar.Soroban

/-! ## Field constants and byte-level helpers -/

/-- The scalar field order `r` of BN254, big-endian. -/
def SCALAR_FIELD : List UInt8 := [
  0x30, 0x64, 0x4e, 0x72, 0xe1, 0x31, 0xa0, 0x29, 0xb8, 0x50, 0x45, 0xb6, 0x81, 0x81, 0x58, 0x5d,
  0x28, 0x33, 0xe8, 0x48, 0x79, 0xb9, 0x70, 0x91, 0x43, 0xe1, 0xf5, 0x93, 0xf0, 0x00, 0x00, 0x01]

/-- The base field modulus `q` of BN254, big-endian. -/
def BASE_FIELD : List UInt8 := [
  0x30, 0x64, 0x4e, 0x72, 0xe1, 0x31, 0xa0, 0x29, 0xb8, 0x50, 0x45, 0xb6, 0x81, 0x81, 0x58, 0x5d,
  0x97, 0x81, 0x6a, 0x91, 0x68, 0x71, 0xca, 0x8d, 0x3c, 0x20, 0x8c, 0x16, 0xd8, 0x7c, 0xfd, 0x47]

def scalarOrder : ℕ :=
  21888242871839275222246405745257275088548364400416034343698204186575808495617

theorem beNat_SCALAR_FIELD : beNat SCALAR_FIELD = scalarOrder := by decide

/-- The loop of `is_valid_scalar`: the first byte that differs from `r` decides, and `r` itself
is rejected. -/
def isValidScalar (val : BytesN 32) : Bool := lexLt val.1 SCALAR_FIELD

/-- The scalar check accepts exactly the canonical encodings. -/
theorem isValidScalar_iff (val : BytesN 32) :
    isValidScalar val = true ↔ val.toNat < scalarOrder := by
  rw [isValidScalar, lexLt_iff (val.2.trans (by decide)), beNat_SCALAR_FIELD]
  rfl

def overflowingSub (x y : UInt8) : UInt8 × Bool := (x - y, decide (x < y))

/-- The subtraction loop of `field_negate`, from the last byte to the first: the difference of the
paired bytes and the borrow out of the first one. -/
def subBorrow : List (UInt8 × UInt8) → List UInt8 × Bool
  | [] => ([], false)
  | (x, y) :: rest =>
    let (tail, borrow) := subBorrow rest
    let (diff, b1) := overflowingSub x y
    let (diff2, b2) := overflowingSub diff (if borrow then 1 else 0)
    (diff2 :: tail, b1 || b2)

theorem length_subBorrow (l : List (UInt8 × UInt8)) : (subBorrow l).1.length = l.length := by
  induction l with
  | nil => rfl
  | cons p rest ih => simp [subBorrow, ih]

/-- `field_negate`: `q - a`, with zero for zero. -/
def fieldNegate (a : BytesN 32) : BytesN 32 :=
  if a.1.all (· == 0) then ⟨List.replicate 32 0, by simp⟩
  else ⟨(subBorrow (BASE_FIELD.zip a.1)).1, by rw [length_subBorrow, List.length_zip, a.2]; rfl⟩

/-! ## The verifier -/

/-- The BN254 host functions; `none` is a host trap (a point off the curve). -/
structure Bn254 where
  g1Add : BytesN 64 → BytesN 64 → Option (BytesN 64)
  g1Mul : BytesN 64 → BytesN 32 → Option (BytesN 64)
  pairingCheck : List (BytesN 64) → List (BytesN 128) → Option Bool

inductive VerifierError where
  | InvalidPublicSignal
  | Bn128AdditionFailed
  | Bn128MultiplicationFailed
  | Bn128PairingFailed
  deriving DecidableEq

/-- A verifying key; `ic` holds the points after the first. -/
structure VerifyingKey where
  alpha : BytesN 64
  beta : BytesN 128
  gamma : BytesN 128
  delta : BytesN 128
  ic₀ : BytesN 64
  ic : List (BytesN 64)

def g1 (x y : ℕ) : BytesN 64 := ⟨beBytes 32 x ++ beBytes 32 y, by simp⟩

def g2 (x₁ x₀ y₁ y₀ : ℕ) : BytesN 128 :=
  ⟨beBytes 32 x₁ ++ beBytes 32 x₀ ++ (beBytes 32 y₁ ++ beBytes 32 y₀), by simp⟩

/-- The verifying key of the withdraw circuit (`VK_ALPHA_V3` to `VK_IC_V3`). -/
def verifyingKeyV3 : VerifyingKey where
  alpha := g1 0x0181fea5d8c256a5e7a9125801e4c95d99c125dad39a6cbf11b1cdda5eba1698
    0x1bb85a436c14d5894a1819bd17e95e6b98d35c3bcd1d2cdbbf70f11876e722f9
  beta := g2 0x1dc7ddefc89fe1dd4835d6d39253abd4ce98f06070407bdd95068ec99d0691d1
    0x271d8db5ee88dc5bd91520cecae688495b504721b951dade164796557880d571
    0x1b4e7e43cf9471bc9388266453e4c53cccf3c9ce49b0baf78fe4d10a3f380cff
    0x2e4a4f5b3fd93219613999fdfa3f3285a2c8cf6133ae07623c1cc484999abc87
  gamma := g2 0x198e9393920d483a7260bfb731fb5d25f1aa493335a9e71297e485b7aef312c2
    0x1800deef121f1e76426a00665e5c4479674322d4f75edadd46debd5cd992f6ed
    0x090689d0585ff075ec9e99ad690c3395bc4b313370b38ef355acdadcd122975b
    0x12c85ea5db8c6deb4aab71808dcb408fe3d1e7690c43d37b4ce6cc0166fa7daa
  delta := g2 0x2427b8f48326741293da5df960adb738d04656929c914f03bf66335225286a96
    0x0111f52bfaa8ecb3cc0d4cb11225a38027d3c56e6699d4b1fd3f012a19035f5a
    0x194dc12555b2594ea300f27116230ba706a01c4c354a7b0acbd8e02ee7eb26bc
    0x16d8114ef418bbc74a7968c210c8b08f8d9e0c6131f31940c4f297653645d08c
  ic₀ := g1 0x256713157759d8fbe0d13a6b960b571907a1b247b82359c3fc34f0c7fd895f4d
    0x27040fa73675e150ec63434f9a7d98627fa66326157904d31c481680e26eb1b1
  ic := [
    g1 0x246801ab26b9ed6c3daf9105ca6788722a2504df465f6863da9ebaac1c5f9a48
      0x2fdf0c73093d7b35463ba27b5f7d18f33a67787c7503fb5776493c785b52be25,
    g1 0x2403606bb0d975aad902da66bda60a6f0b2c350123021c36f5177101507d1aff
      0x27ee95d7099226f1186a85af9c0fa052e22db165972028d333d1bbd5d17cddcc,
    g1 0x00471e8e1852a6fd4ff9da52863765f32fa8ff8ac52672dd4e2ed44aa98ba194
      0x1acbd48414ce7f301db5206d706aef4f6146589f183945245a39e78026c0e4df,
    g1 0x19e30ceafaa2ce66583a3999235c41bbc9d3fbb96b23df5ef00a25a9c9a48aeb
      0x2d822530229f4e7767ba1af58da3963931c300a4918fb238df4d24f3bf42f894,
    g1 0x1115da7ab0cf55136d2a58ec85841f122eb967ae853d788eacbb4f5dd7280317
      0x2d60a2275666909dd0a85c042d86951aa3b64774482f35d4d4d7ed2b897bb99d,
    g1 0x2679e5d33f701b2b861f1370107e3180b42dcb75b75ebe4e89b1a8ce6017dfd3
      0x279781b875a893c66f506804043b55b49dae11892c87a512695c51fc32bcabd4]

/-- `alt_bn128_pairing`: the input is cut into `count` chunks of 192 bytes, a point of each group
per chunk. -/
def pairingPoints : ℕ → List UInt8 → List (List UInt8 × List UInt8)
  | 0, _ => []
  | count + 1, input =>
    (input.take 64, (input.drop 64).take 128) :: pairingPoints count (input.drop 192)

/-- A byte string as one of a fixed length, cut or padded with zeros. -/
def fit (n : ℕ) (bs : List UInt8) : BytesN n :=
  ⟨(bs ++ List.replicate n 0).take n, by simp⟩

def altBn128Pairing (bn : Bn254) (input : List UInt8) : Result VerifierError Bool :=
  let points := pairingPoints (input.length / 192) input
  hostCall (bn.pairingCheck (points.map fun p => fit 64 p.1) (points.map fun p => fit 128 p.2))

/-- `run_pairing_check`: negate the proof's first point and lay the four pairs out in a row. -/
def runPairingCheck (bn : Bn254) (proofA : BytesN 64) (proofB : BytesN 128) (proofC : BytesN 64)
    (vkX : BytesN 64) (vk : VerifyingKey) : Result VerifierError Bool :=
  let negA := proofA.1.take 32 ++ (fieldNegate (fit 32 (proofA.1.drop 32))).1
  altBn128Pairing bn
    (negA ++ proofB.1 ++ vk.alpha.1 ++ vk.beta.1 ++ vkX.1 ++ vk.gamma.1 ++ proofC.1 ++ vk.delta.1)

theorem fit_self {n : ℕ} (b : BytesN n) : fit n b.1 = b := by
  apply Subtype.ext
  show (b.1 ++ List.replicate n 0).take n = b.1
  rw [List.take_append_of_le_length (le_of_eq b.2.symm), List.take_of_length_le (le_of_eq b.2)]

/-- Pairs of points in a row. -/
def layout (points : List (BytesN 64 × BytesN 128)) : List UInt8 :=
  points.flatMap fun p => p.1.1 ++ p.2.1

theorem length_layout (points : List (BytesN 64 × BytesN 128)) :
    (layout points).length = 192 * points.length := by
  induction points with
  | nil => rfl
  | cons p points ih =>
      rw [layout, List.flatMap_cons, List.length_append, ← layout, ih, List.length_append, p.1.2,
        p.2.2, List.length_cons]
      omega

/-- Cutting a row of pairs gives the pairs back. -/
theorem pairingPoints_layout (points : List (BytesN 64 × BytesN 128)) :
    pairingPoints points.length (layout points) = points.map fun p => (p.1.1, p.2.1) := by
  induction points with
  | nil => rfl
  | cons p points ih =>
      have hrow : layout (p :: points) = p.1.1 ++ (p.2.1 ++ layout points) := by
        rw [layout, List.flatMap_cons, List.append_assoc, ← layout]
      have htail : (layout (p :: points)).drop 64 = p.2.1 ++ layout points := by
        rw [hrow, List.drop_left' p.1.2]
      have hrest : (layout (p :: points)).drop 192 = layout points := by
        rw [show 192 = 64 + 128 from rfl, ← List.drop_drop, htail, List.drop_left' p.2.2]
      rw [List.length_cons, pairingPoints, htail, hrest, ih, hrow, List.take_left' p.1.2,
        List.take_left' p.2.2, List.map_cons]

/-- The pairing check sees the four pairs of the verification equation. -/
theorem runPairingCheck_eq (bn : Bn254) (proofA : BytesN 64) (proofB : BytesN 128)
    (proofC vkX : BytesN 64) (vk : VerifyingKey) :
    runPairingCheck bn proofA proofB proofC vkX vk =
      hostCall (bn.pairingCheck
        [fit 64 (proofA.1.take 32 ++ (fieldNegate (fit 32 (proofA.1.drop 32))).1), vk.alpha, vkX,
          proofC]
        [proofB, vk.beta, vk.gamma, vk.delta]) := by
  have hneg : (proofA.1.take 32 ++ (fieldNegate (fit 32 (proofA.1.drop 32))).1).length = 64 := by
    rw [List.length_append, List.length_take, proofA.2, (fieldNegate _).2]
    rfl
  have hrow : proofA.1.take 32 ++ (fieldNegate (fit 32 (proofA.1.drop 32))).1 ++ proofB.1 ++
      vk.alpha.1 ++ vk.beta.1 ++ vkX.1 ++ vk.gamma.1 ++ proofC.1 ++ vk.delta.1 =
      layout [(⟨_, hneg⟩, proofB), (vk.alpha, vk.beta), (vkX, vk.gamma), (proofC, vk.delta)] := by
    simp [layout]
  rw [runPairingCheck, altBn128Pairing, hrow, length_layout, Nat.mul_div_cancel_left _ (by decide),
    pairingPoints_layout]
  simp only [List.map_cons, List.map_nil, fit_self]

/-- The public-input point: the first key point plus each signal times its own. -/
def accumulate (bn : Bn254) :
    BytesN 64 → List (BytesN 64 × BytesN 32) → Result VerifierError (BytesN 64)
  | vkX, [] => pure vkX
  | vkX, (point, signal) :: rest => do
    let mulResult ← hostCall (bn.g1Mul point signal)
    let vkX' ← hostCall (bn.g1Add vkX mulResult)
    accumulate bn vkX' rest

/-- The body shared by the verifier's entry points. -/
def verifyWith (bn : Bn254) (vk : VerifyingKey) (proofA : BytesN 64) (proofB : BytesN 128)
    (proofC : BytesN 64) (pubSignals : List (BytesN 32)) : Result VerifierError Bool := do
  ensure (∀ signal ∈ pubSignals, isValidScalar signal = true) (.err .InvalidPublicSignal)
  let vkX ← accumulate bn vk.ic₀ (vk.ic.zip pubSignals)
  runPairingCheck bn proofA proofB proofC vkX vk

/-- A call that answers at all was given canonical signals only. -/
theorem valid_of_verifyWith {bn : Bn254} {vk : VerifyingKey} {a : BytesN 64} {b : BytesN 128}
    {c : BytesN 64} {signals : List (BytesN 32)} {v : Bool}
    (h : verifyWith bn vk a b c signals = .ok v) :
    ∀ signal ∈ signals, signal.toNat < scalarOrder := by
  simp only [verifyWith, bind_eq_ok, ensure_eq_ok, exists_const] at h
  intro signal hs
  exact (isValidScalar_iff signal).mp (h.1 signal hs)

/-- The verifying key of the reputation circuit (`VK_ALPHA_V2` to `VK_IC_V2`). -/
def verifyingKeyV2 : VerifyingKey where
  alpha := g1 0x0181fea5d8c256a5e7a9125801e4c95d99c125dad39a6cbf11b1cdda5eba1698
    0x1bb85a436c14d5894a1819bd17e95e6b98d35c3bcd1d2cdbbf70f11876e722f9
  beta := g2 0x1dc7ddefc89fe1dd4835d6d39253abd4ce98f06070407bdd95068ec99d0691d1
    0x271d8db5ee88dc5bd91520cecae688495b504721b951dade164796557880d571
    0x1b4e7e43cf9471bc9388266453e4c53cccf3c9ce49b0baf78fe4d10a3f380cff
    0x2e4a4f5b3fd93219613999fdfa3f3285a2c8cf6133ae07623c1cc484999abc87
  gamma := g2 0x198e9393920d483a7260bfb731fb5d25f1aa493335a9e71297e485b7aef312c2
    0x1800deef121f1e76426a00665e5c4479674322d4f75edadd46debd5cd992f6ed
    0x090689d0585ff075ec9e99ad690c3395bc4b313370b38ef355acdadcd122975b
    0x12c85ea5db8c6deb4aab71808dcb408fe3d1e7690c43d37b4ce6cc0166fa7daa
  delta := g2 0x1f668429be54854d3e4ea186b1b1ddb4ed243cdb589eebdfc802f92714282200
    0x09fe605c551450b1389e054aaf0c6d24ea7f799b1fe048cc24c2fb7ee9ae43b6
    0x17f0f031a93d64b5e64f542265a5f58a449f251717fd9048a24766af207bdfe1
    0x0f021f4c5876acc2d9a41b86e124317044383a31dba7a53b23e774edf366e9f7
  ic₀ := g1 0x2bdfd6a146ebebd9e4fb26a000356d974aef70c0b56ed924ab576472d3c5d8e6
    0x00ee80573791a27681399b16829f13053ffe4351eb436843b9f489a2c08e516d
  ic := [
    g1 0x25b6815ed8cba94bf1544fc541a9a320a2b7c7e57ddc9ffe80d6a010f94a2b66
      0x2e15e174072baa966b5dd024f007a08c1eb5068d92b7bd64676c79dc6788ad16,
    g1 0x1a580d81834705af29c3138675cd42900c810167c16072e0f85ffb9d4305ba78
      0x2026c53b033a7aa532cdd3c0da040663d251947f9dbc8ffea50644484fa8bfb8,
    g1 0x1b8f09b8dc7ecbf77bc36e69b0b51ae5cec843fe4292d09db4ad870a807faee8
      0x2f39d02f5a1c51f9801b778f9c5bcd74c9f47a08c447cb47afcaae5e41e161d2,
    g1 0x2db243735644443891a692d46d7b18b499aca827225155d9b2d5e34d241884d5
      0x17daa87652cc7b9ef881e97c1fc84ca7e3e4ed8dcbddaf25f487b9d2467e16cc]

/-- The public inputs of the reputation circuit, in the order of its public signals. -/
structure VerifyPublicInputsV2 where
  merkleRoot : BytesN 32
  attestationId : BytesN 32
  externalNullifier : BytesN 32
  nullifierHash : BytesN 32
  deriving DecidableEq

def VerifyPublicInputsV2.signals (p : VerifyPublicInputsV2) : List (BytesN 32) :=
  [p.merkleRoot, p.attestationId, p.externalNullifier, p.nullifierHash]

def verifyProofV2 (bn : Bn254) (proofA : BytesN 64) (proofB : BytesN 128) (proofC : BytesN 64)
    (publicInputs : VerifyPublicInputsV2) : Result VerifierError Bool :=
  verifyWith bn verifyingKeyV2 proofA proofB proofC publicInputs.signals

/-- The public inputs of the withdraw circuit, in the order of its public signals. -/
structure VerifyPublicInputsV3 where
  withdrawnValue : BytesN 32
  stateRoot : BytesN 32
  aspRoot : BytesN 32
  nullifierHash : BytesN 32
  newCommitment : BytesN 32
  context : BytesN 32
  deriving DecidableEq

def VerifyPublicInputsV3.signals (p : VerifyPublicInputsV3) : List (BytesN 32) :=
  [p.withdrawnValue, p.stateRoot, p.aspRoot, p.nullifierHash, p.newCommitment, p.context]

def verifyProofV3 (bn : Bn254) (proofA : BytesN 64) (proofB : BytesN 128) (proofC : BytesN 64)
    (publicInputs : VerifyPublicInputsV3) : Result VerifierError Bool :=
  verifyWith bn verifyingKeyV3 proofA proofB proofC publicInputs.signals

theorem valid_of_verifyProofV3 {bn : Bn254} {a : BytesN 64} {b : BytesN 128} {c : BytesN 64}
    {p : VerifyPublicInputsV3} {v : Bool} (h : verifyProofV3 bn a b c p = .ok v) :
    ∀ signal ∈ p.signals, signal.toNat < scalarOrder := valid_of_verifyWith h

end OpaqueStellar.Groth16
