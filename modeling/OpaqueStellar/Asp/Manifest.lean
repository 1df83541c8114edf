import OpaqueStellar.Asp.Engine
import OpaqueStellar.Relayer.Messages

/-! # Manifests

What the provider publishes beside a root: the labels of the set, each with the index of its deposit, and
the root once more. `asp/src/publish.ts` writes a manifest into a file named after its root.

Manifests are texts: numbers are in decimal, roots and hashes in hexadecimal. -/

namespace OpaqueStellar.Asp

open OpaqueStellar.Lib OpaqueStellar.Soroban
open OpaqueStellar.Schemas (Str)
open OpaqueStellar.Relayer (bytesToHex bigIntOfString strip0x toLowerCase)

structure SetManifest where
  poolId : Str
  root : Str
  version : ℕ
  levels : ℕ
  algo : Str := "poseidon-bn254".toList
  labels : List Str
  indices : List ℕ
  generatedAt : Str
  -- what `signManifest` reads and the engine does not write
  datasetHash : Option Str := none
  policy : Option Str := none
  ledger : Option ℕ := none
  signature : Option Str := none
  deriving DecidableEq

/-- `toHex32` -/
def hexText (x : BytesN 32) : Str := bytesToHex x.1

def AssociationSet.manifest (S : Setting ℕ) (set : AssociationSet ℕ) (poolId generatedAt : Str) :
    SetManifest where
  poolId := poolId
  root := hexText (set.rootHex S)
  version := set.labels.length
  levels := set.tree.depth
  labels := set.labels.map Decimal.encode
  indices := set.indices
  generatedAt := generatedAt

/-- The files of a pool that hold a manifest. -/
abbrev SetFiles := Str → Option SetManifest

/-- The files after a manifest was written, before old ones are pruned. -/
def writeManifest (files : SetFiles) (manifest : SetManifest) : SetFiles :=
  Function.update (Function.update files (manifest.root ++ ".json".toList) (some manifest))
    "latest.json".toList (some manifest)

end OpaqueStellar.Asp
