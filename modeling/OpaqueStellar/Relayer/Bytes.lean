import OpaqueStellar.Lib.Codec
import OpaqueStellar.Schemas.Core

/-! # Byte helpers of the relayer protocol

`sdk/src/relayer-protocol/bytes.ts`, which the relayer node imports as well. Hexadecimal texts may
carry a `0x`, so that one byte string has several spellings; job identifiers are such texts. -/

namespace OpaqueStellar.Relayer

open OpaqueStellar.Lib OpaqueStellar.Schemas

/-- `replace(/^0x/, "")` -/
def strip0x : Str → Str
  | '0' :: 'x' :: rest => rest
  | hex => hex

def hexToBytes (hex : Str) : Option (List UInt8) := Hex.decode (strip0x hex)

def bytesToHex (bytes : List UInt8) : Str := '0' :: 'x' :: Hex.encode bytes

/-- `assertLength`, as the value that it lets through. -/
def assertLength (n : ℕ) (bytes : List UInt8) : Option (BytesN n) :=
  if h : bytes.length = n then some ⟨bytes, h⟩ else none

def toLowerCase (s : Str) : Str := s.map Char.toLower

/-- The job that an identifier stands for. -/
def jobKey (jobId : Str) : Option (BytesN 32) := (hexToBytes jobId).bind (assertLength 32)

/-- Digits do not begin as a `0x` does. -/
theorem strip0x_eq_self {hex : Str} {bytes : List UInt8} (h : Hex.decode hex = some bytes) :
    strip0x hex = hex := by
  unfold strip0x
  split
  · exfalso
    rw [Hex.decode] at h
    have hx : Hex.digitValue 'x' = none := by decide
    simp [hx] at h
  · rfl

/-- Identifiers of jobs may be put in lower case. -/
theorem jobKey_toLowerCase {jobId : Str} {key : BytesN 32} (h : jobKey jobId = some key) :
    jobKey (toLowerCase jobId) = some key := by
  obtain ⟨bytes, hbytes, hkey⟩ := Option.bind_eq_some_iff.mp h
  suffices hstrip : strip0x (toLowerCase jobId) = toLowerCase (strip0x jobId) by
    unfold jobKey hexToBytes
    rw [hstrip, toLowerCase, Hex.decode_toLower]
    exact h
  unfold hexToBytes at hbytes
  by_cases hprefixed : ∃ rest, jobId = '0' :: 'x' :: rest
  · obtain ⟨rest, rfl⟩ := hprefixed
    rfl
  · have hself : strip0x jobId = jobId := by
      unfold strip0x
      split
      · exact absurd ⟨_, rfl⟩ hprefixed
      · rfl
    rw [hself] at hbytes ⊢
    refine @strip0x_eq_self _ bytes ?_
    rw [toLowerCase, Hex.decode_toLower]
    exact hbytes

theorem hexToBytes_bytesToHex (bytes : List UInt8) : hexToBytes (bytesToHex bytes) = some bytes :=
  Hex.decode_encode bytes

end OpaqueStellar.Relayer
