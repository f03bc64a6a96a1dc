import Myco.Lib.Files
import Myco.Canonical.RoundTrip
import Myco.Canonical.MapGet
import Myco.Schema.Ledger
import Myco.Substrate.Events

/-!
# The signing key of a substrate

`persistence/signing_key.rs` as it is built on a host that is not Windows: a seed is saved in
format version 1, with its BLAKE3 beside it, and `boot_or_genesis_substrate_signing_key` loads the
seed it finds or generates one and saves that.

The loader gives one of three answers: a seed; an error; no key, which is what makes a boot
generate one. `seedOfBytes` is the part of the loader that goes by the bytes of the file alone.

What the clock, the entropy of the generator and the file system answer are arguments: `KeySaving`,
`KeyReading` and the fresh seed.
-/

namespace Myco.Substrate

open Myco.Lib Myco.Canonical Myco.Schema

/-! ### The file -/

def substrateSigningKeyFilename : String := "substrate_signing_key.cb"

def substrateSigningKeyTmpFilename : String := substrateSigningKeyFilename ++ ".tmp"

def substrateSigningKeyFormatVersionV1 : UInt64 := 1

def substrateSigningKeyFormatVersionV2 : UInt64 := 2

/-- What is written on a host that is not Windows. -/
def substrateSigningKeyPreferredWriteVersion : UInt64 := substrateSigningKeyFormatVersionV1

/-- The first eight bytes in hexadecimal, and dots if there are more. -/
def bytesToHexShort (bytes : Bytes) : String :=
  hexPrefix bytes 8 ++ if bytes.length > 8 then "..." else ""

inductive SigningKeyError where
  | io
  /-- `substrate_signing_key encode: {e}` -/
  | encode (e : CanonicalBytesError)
  /-- `substrate_signing_key decode: {e}` -/
  | decode (e : CanonicalBytesError)
  /-- `substrate_signing_key v1 integrity FAILED: stored seed_blake3={} computed={}; …` -/
  | integrity (stored computed : String)
  /-- `substrate_signing_key v1 seed_blake3 field has {} bytes; expected 32 …` -/
  | hashLength (length : Nat)
  /-- `substrate_signing_key on disk is v2 (Windows DPAPI-wrapped) but this is not a Windows
  host …` -/
  | foreignVersion

/-- How a save goes where it meets the world: whether the directory can be made, the clock, whether
the temporary file is created, after how many bytes writing it fails, if it does, and whether the
rename and the change of permissions succeed. -/
structure KeySaving where
  ensures : Bool
  createdAtUnixNs : Int64
  creates : Bool
  tornAfter : Option Nat
  renames : Bool
  restricts : Bool

/-- How a load goes where it meets the world: whether the permissions that the probe finds are
restrictive, if the metadata can be read, and whether the file opens and is read to its end. -/
structure KeyReading where
  restrictive : Option Bool
  readable : Bool

variable (blake3 : Bytes → NodeHash)

/-- The map that is saved. -/
def signingKeyMap (seed : Hash32) (createdAtUnixNs : Int64) : Value :=
  mapOf [("format_version", .uint substrateSigningKeyPreferredWriteVersion),
    ("seed", .bytes seed.bytes), ("seed_blake3", .bytes (blake3 seed.bytes).bytes),
    ("created_at_unix_ns", .timestamp createdAtUnixNs)]

def saveSubstrateSigningKey (saving : KeySaving) (seed : Hash32) (dir : Files String) :
    Except (Fault SigningKeyError) Unit × Files String :=
  if !saving.ensures then (.error (.err .io), dir)
  else
    match encode (signingKeyMap blake3 seed saving.createdAtUnixNs) with
    | .error e => (.error (.err (.encode e)), dir)
    | .ok bytes =>
      if !saving.creates then (.error (.err .io), dir)
      else
        match saving.tornAfter with
        | some k => (.error (.err .io), dir.write substrateSigningKeyTmpFilename (bytes.take k))
        | none =>
          let dir := dir.write substrateSigningKeyTmpFilename bytes
          if !saving.renames then (.error (.err .io), dir)
          else
            let dir := dir.rename substrateSigningKeyTmpFilename substrateSigningKeyFilename
            if !saving.restricts then (.error (.err .io), dir) else (.ok (), dir)

/-! ### Loading -/

/-- The seed against the hash that stands beside it; a file without one is of an older build. -/
def checkSeedBlake3 (map : List (String × Value)) (seed : Hash32) :
    Except (Fault SigningKeyError) (Option Hash32) :=
  match OrdMap.get "seed_blake3" map with
  | some (.bytes storedHash) =>
    if storedHash.length = 32 then
      let computed := blake3 seed.bytes
      if computed.bytes ≠ storedHash then
        .error (.err (.integrity (bytesToHexShort storedHash) (bytesToHexShort computed.bytes)))
      else .ok (some seed)
    else .error (.err (.hashLength storedHash.length))
  | _ => .ok (some seed)

/-- The seed of a map of format version 1. -/
def seedOfV1 (map : List (String × Value)) : Except (Fault SigningKeyError) (Option Hash32) :=
  match OrdMap.get "seed" map with
  | some (.bytes b) => if h : b.length = 32 then checkSeedBlake3 blake3 map ⟨b, h⟩ else .ok none
  | _ => .ok none

def seedOfMap (map : List (String × Value)) : Except (Fault SigningKeyError) (Option Hash32) :=
  match OrdMap.get "format_version" map with
  | some (.uint version) =>
    if version = substrateSigningKeyFormatVersionV1 then seedOfV1 blake3 map
    else if version = substrateSigningKeyFormatVersionV2 then .error (.err .foreignVersion)
    else .ok none
  | _ => .ok none

/-- What the loader makes of the bytes of the file. -/
def seedOfBytes (bytes : Bytes) : Except (Fault SigningKeyError) (Option Hash32) := do
  let decoded ← (decode bytes).mapError (.map .decode)
  match decoded with
  | .map map => seedOfMap blake3 map
  | _ => .ok none

/-- The permissions are looked at before the file is read. -/
def loadSubstrateSigningKeyWithPermissionCheck (reading : KeyReading) (dir : Files String) :
    Except (Fault SigningKeyError) (Option (Hash32 × Bool)) :=
  match reading.restrictive with
  | none => .error (.err .io)
  | some wasRestrictive =>
    match dir substrateSigningKeyFilename with
    | none => .ok none
    | some bytes =>
      if reading.readable then do
        let seed ← seedOfBytes blake3 bytes
        .ok (seed.map (·, wasRestrictive))
      else .error (.err .io)

/-- A fresh seed, saved. -/
def genesisSubstrateSigningKey (fresh : Hash32) (saving : KeySaving) (dir : Files String) :
    Except (Fault SigningKeyError) (Hash32 × Bool) × Files String :=
  match saveSubstrateSigningKey blake3 saving fresh dir with
  | (.error e, dir) => (.error e, dir)
  | (.ok _, dir) => (.ok (fresh, true), dir)

def bootOrGenesisSubstrateSigningKeyWithPermissionStatus (reading : KeyReading) (fresh : Hash32)
    (saving : KeySaving) (dir : Files String) :
    Except (Fault SigningKeyError) (Hash32 × Bool) × Files String :=
  match loadSubstrateSigningKeyWithPermissionCheck blake3 reading dir with
  | .error e => (.error e, dir)
  | .ok (some found) => (.ok found, dir)
  | .ok none => genesisSubstrateSigningKey blake3 fresh saving dir

def bootOrGenesisSubstrateSigningKey (reading : KeyReading) (fresh : Hash32) (saving : KeySaving)
    (dir : Files String) : Except (Fault SigningKeyError) Hash32 × Files String :=
  let (result, dir) :=
    bootOrGenesisSubstrateSigningKeyWithPermissionStatus blake3 reading fresh saving dir
  (result.map Prod.fst, dir)

end Myco.Substrate
