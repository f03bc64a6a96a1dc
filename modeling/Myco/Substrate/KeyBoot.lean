import Mathlib.Logic.Equiv.Basic
import Myco.Substrate.ChangedKey

/-!
# What a boot makes of a changed key file

`boot_of_changed`: over a file with one byte changed, a boot returns the old seed or fails, and
leaves the file, or takes the file for no key and replaces it. A file of another format version is
always taken for no key; one that does not decode, and one of a known version that holds a seed,
never is.

Another seed can come of the file only where a second key stands in it, which the old seed must
have spelled, or its hash. `boot_not_failsClosed` has a file of either kind.
-/

namespace Myco.Substrate

open Myco.Lib Myco.Canonical Myco.Schema

variable {blake3 : Bytes → NodeHash}

/-! ### Saving -/

/-- A save that returns without an error leaves the file with the seed and its hash. -/
theorem file_of_save {saving : KeySaving} {seed : Hash32} {dir after : Files String}
    (h : saveSubstrateSigningKey blake3 saving seed dir = (.ok (), after)) :
    after substrateSigningKeyFilename = some (signingKeyTree 1 seed.bytes (blake3 seed.bytes).bytes
      saving.createdAtUnixNs).bytesOf := by
  unfold saveSubstrateSigningKey at h
  rw [encode_signingKeyMap] at h
  split at h
  · cases h
  · simp only at h
    split at h
    · cases h
    · split at h
      · cases h
      · split at h
        · cases h
        · split at h
          · cases h
          · cases h
            exact Files.rename_target Files.write_same

/-! ### The four ways of a boot -/

/-- The fresh seed is saved, and returned if that succeeds. -/
def Regenerates (blake3 : Bytes → NodeHash) (fresh : Hash32) (saving : KeySaving)
    (dir : Files String) (out : Except (Fault SigningKeyError) Hash32 × Files String) : Prop :=
  (∃ after, saveSubstrateSigningKey blake3 saving fresh dir = (.ok (), after) ∧
    out = (.ok fresh, after)) ∨
  ∃ e after, saveSubstrateSigningKey blake3 saving fresh dir = (.error e, after) ∧
    out = (.error e, after)

variable {reading : KeyReading} {fresh : Hash32} {saving : KeySaving} {dir : Files String}

theorem boot_of_error {e : Fault SigningKeyError}
    (h : loadSubstrateSigningKeyWithPermissionCheck blake3 reading dir = .error e) :
    bootOrGenesisSubstrateSigningKey blake3 reading fresh saving dir = (.error e, dir) := by
  simp only [bootOrGenesisSubstrateSigningKey,
    bootOrGenesisSubstrateSigningKeyWithPermissionStatus, h]
  rfl

theorem boot_of_some (found : Hash32 × Bool)
    (h : loadSubstrateSigningKeyWithPermissionCheck blake3 reading dir = .ok (some found)) :
    bootOrGenesisSubstrateSigningKey blake3 reading fresh saving dir = (.ok found.1, dir) := by
  simp only [bootOrGenesisSubstrateSigningKey,
    bootOrGenesisSubstrateSigningKeyWithPermissionStatus, h]
  rfl

theorem boot_of_none
    (h : loadSubstrateSigningKeyWithPermissionCheck blake3 reading dir = .ok none) :
    Regenerates blake3 fresh saving dir
      (bootOrGenesisSubstrateSigningKey blake3 reading fresh saving dir) := by
  simp only [bootOrGenesisSubstrateSigningKey,
    bootOrGenesisSubstrateSigningKeyWithPermissionStatus, h, genesisSubstrateSigningKey]
  rcases hsave : saveSubstrateSigningKey blake3 saving fresh dir with ⟨e | u, after⟩
  · exact .inr ⟨e, after, hsave, rfl⟩
  · exact .inl ⟨after, hsave, rfl⟩

/-! ### What is loaded -/

variable {bytes : Bytes}

/-- An answer of the loader about a file that is there comes from its bytes. -/
theorem load_eq_ok {found : Option (Hash32 × Bool)}
    (hdir : dir substrateSigningKeyFilename = some bytes)
    (h : loadSubstrateSigningKeyWithPermissionCheck blake3 reading dir = .ok found) :
    seedOfBytes blake3 bytes = .ok (found.map Prod.fst) := by
  unfold loadSubstrateSigningKeyWithPermissionCheck at h
  rw [hdir] at h
  split at h
  · cases h
  · simp only at h
    split at h
    · obtain ⟨seed, hseed, h⟩ := bind_eq_ok.1 h
      cases h
      rw [hseed]
      cases seed <;> rfl
    · cases h

theorem load_of_none {restrictive : Bool} (hdir : dir substrateSigningKeyFilename = some bytes)
    (hr : reading.restrictive = some restrictive) (hreadable : reading.readable = true)
    (h : seedOfBytes blake3 bytes = .ok none) :
    loadSubstrateSigningKeyWithPermissionCheck blake3 reading dir = .ok none := by
  simp only [loadSubstrateSigningKeyWithPermissionCheck, hr, hdir, hreadable, if_true, h]
  rfl

theorem seedOfBytes_of_decode {map : List (String × Value)}
    (h : decode bytes = .ok (.map map)) : seedOfBytes blake3 bytes = seedOfMap blake3 map := by
  rw [seedOfBytes, h]
  rfl

/-- The file is a map of a format version that is neither of the two. -/
def OtherKeyVersion (bytes : Bytes) : Prop :=
  ∃ map version, decode bytes = .ok (.map map) ∧
    OrdMap.get "format_version" map = some (.uint version) ∧
    version ≠ substrateSigningKeyFormatVersionV1 ∧ version ≠ substrateSigningKeyFormatVersionV2

theorem seedOfBytes_of_otherKeyVersion (h : OtherKeyVersion bytes) :
    seedOfBytes blake3 bytes = .ok none := by
  obtain ⟨map, version, hdecode, hget, h1, h2⟩ := h
  rw [seedOfBytes_of_decode hdecode, seedOfMap, hget]
  simp only [if_neg h1, if_neg h2]

/-- The file does not decode, or is a map of one of the two versions that holds what its version
asks for. -/
def HoldsKey (bytes : Bytes) : Prop :=
  (∃ e, decode bytes = .error e) ∨ ∃ map, decode bytes = .ok (.map map) ∧
    (OrdMap.get "format_version" map = some (.uint substrateSigningKeyFormatVersionV2) ∨
      OrdMap.get "format_version" map = some (.uint substrateSigningKeyFormatVersionV1) ∧
      ∃ seed, OrdMap.get "seed" map = some (.bytes seed) ∧ seed.length = 32)

theorem checkSeedBlake3_ne_none {map : List (String × Value)} {seed : Hash32} :
    checkSeedBlake3 blake3 map seed ≠ .ok none := by
  unfold checkSeedBlake3
  intro h
  split at h
  · split at h
    · simp only at h
      split at h <;> cases h
    · cases h
  · cases h

theorem seedOfBytes_of_holdsKey (h : HoldsKey bytes) : seedOfBytes blake3 bytes ≠ .ok none := by
  rcases h with ⟨e, he⟩ | ⟨map, hmap, h2 | ⟨h1, seed, hseed, hlen⟩⟩
  · rw [seedOfBytes, he]
    intro h
    cases h
  · rw [seedOfBytes_of_decode hmap, seedOfMap, h2]
    intro h
    cases h
  · rw [seedOfBytes_of_decode hmap, seedOfMap, h1]
    simp only [if_true]
    rw [seedOfV1, hseed]
    simp only [hlen, dif_pos]
    exact checkSeedBlake3_ne_none

/-! ### A file with one byte changed -/

/-- Over a saved file with one byte changed a boot returns the old seed or fails, and the file
stays, or the file is taken for no key and a fresh seed takes its place; another seed comes of it
only from a second key. A file of another version is replaced; one that does not decode, or is of a
known version and holds a seed, stays. -/
theorem boot_of_changed (hinj : SeedsApart blake3) {saving : KeySaving} {seed : Hash32}
    {before saved : Files String}
    (hsave : saveSubstrateSigningKey blake3 saving seed before = (.ok (), saved)) {bytes : Bytes}
    (hfile : saved substrateSigningKeyFilename = some bytes) {changed : Bytes} {i : Nat}
    (hchanged : Changed bytes changed i) {dir : Files String}
    (hdir : dir substrateSigningKeyFilename = some changed) (reading : KeyReading)
    (fresh : Hash32) (resaving : KeySaving) :
    let boot := bootOrGenesisSubstrateSigningKey blake3 reading fresh resaving dir
    (boot = (.ok seed, dir) ∨ (∃ e, boot = (.error e, dir)) ∨
      ((∃ other, boot = (.ok other, dir)) ∧ SecondKey blake3 seed i) ∨
      loadSubstrateSigningKeyWithPermissionCheck blake3 reading dir = .ok none ∧
        Regenerates blake3 fresh resaving dir boot) ∧
    (OtherKeyVersion changed → reading.restrictive.isSome → reading.readable →
      Regenerates blake3 fresh resaving dir boot) ∧
    (HoldsKey changed → boot.2 = dir) := by
  intro boot
  obtain rfl := Option.some.inj (hfile.symm.trans (file_of_save hsave))
  have hw := laid saving.createdAtUnixNs seed.length_eq (blake3 seed.bytes).length_eq
  refine ⟨?_, fun hother hmode hreadable => ?_, fun hholds => ?_⟩
  · rcases hload : loadSubstrateSigningKeyWithPermissionCheck blake3 reading dir with e | found
    · exact .inr (.inl ⟨e, boot_of_error hload⟩)
    · cases found with
      | none => exact .inr (.inr (.inr ⟨rfl, boot_of_none hload⟩))
      | some found =>
        have hboot : boot = (.ok found.1, dir) := boot_of_some _ hload
        rcases seed_of_changed hinj hw hchanged (load_eq_ok hdir hload) with rfl | hsecond
        · exact .inl hboot
        · exact .inr (.inr (.inl ⟨⟨found.1, hboot⟩, hsecond⟩))
  · obtain ⟨restrictive, hr⟩ := Option.isSome_iff_exists.1 hmode
    exact boot_of_none (load_of_none hdir hr hreadable (seedOfBytes_of_otherKeyVersion hother))
  · rcases hload : loadSubstrateSigningKeyWithPermissionCheck blake3 reading dir with e | found
    · exact congrArg Prod.snd (boot_of_error hload)
    · cases found with
      | none => exact absurd (load_eq_ok hdir hload) (seedOfBytes_of_holdsKey hholds)
      | some found => exact congrArg Prod.snd (boot_of_some _ hload)

/-! ### Files of one save -/

/-- A hash of seeds that exchanges two of them. -/
def exchange (s s' : Hash32) (bytes : Bytes) : NodeHash :=
  if h : bytes.length = 32 then Equiv.swap s s' ⟨bytes, h⟩ else s

theorem seedsApart_exchange {s s' : Hash32} : SeedsApart (exchange s s') := by
  intro a b h
  rw [exchange, exchange, dif_pos a.length_eq, dif_pos b.length_eq] at h
  exact (Equiv.swap s s').injective h

/-- A save in which nothing fails, at time 0. -/
def smooth : KeySaving := ⟨true, 0, true, none, true, true⟩

/-- What it writes. -/
def keyFile (blake3 : Bytes → NodeHash) (seed : Hash32) : Bytes :=
  (signingKeyTree 1 seed.bytes (blake3 seed.bytes).bytes 0).bytesOf

theorem keyFile_length {seed : Hash32} : (keyFile blake3 seed).length = 143 :=
  (laid 0 seed.length_eq (blake3 seed.bytes).length_eq).length_eq

def savedDir (blake3 : Bytes → NodeHash) (seed : Hash32) (dir : Files String) : Files String :=
  (dir.write substrateSigningKeyTmpFilename (keyFile blake3 seed)).rename
    substrateSigningKeyTmpFilename substrateSigningKeyFilename

theorem save_smooth {seed : Hash32} {dir : Files String} :
    saveSubstrateSigningKey blake3 smooth seed dir = (.ok (), savedDir blake3 seed dir) := by
  unfold saveSubstrateSigningKey
  rw [encode_signingKeyMap]
  rfl

theorem savedDir_file {seed : Hash32} {dir : Files String} :
    savedDir blake3 seed dir substrateSigningKeyFilename = some (keyFile blake3 seed) :=
  Files.rename_target Files.write_same

/-- The directory with byte `i` of that file set to `x`. -/
def changedDir (blake3 : Bytes → NodeHash) (seed : Hash32) (i : Nat) (x : UInt8) : Files String :=
  (savedDir blake3 seed fun _ => none).write substrateSigningKeyFilename
    ((keyFile blake3 seed).set i x)

theorem changedDir_file {seed : Hash32} {i : Nat} {x : UInt8} :
    changedDir blake3 seed i x substrateSigningKeyFilename =
      some ((keyFile blake3 seed).set i x) := Files.write_same

/-- A changed file that spells an acceptable tree is decoded to its value. -/
theorem decode_set {seed : Hash32} {i : Nat} {x : UInt8} {t : Tlv}
    (h : (keyFile blake3 seed).set i x = t.bytesOf) (hok : t.Ok u64Varint) :
    decode ((keyFile blake3 seed).set i x) = .ok t.value := by
  have hlen : ((keyFile blake3 seed).set i x).length < 2 ^ 64 := by
    rw [List.length_set, keyFile_length]
    decide
  exact (decode_iff hlen).2 ⟨t, ⟨h.symm, hok⟩, rfl⟩

/-- The permissions are as they should be, and the file is read. -/
def whole : KeyReading := ⟨some true, true⟩

def sevens : Hash32 := .replicate 7

def nines : Hash32 := .replicate 9

/-- Its hash is that of no seed here. -/
def plain : Bytes → NodeHash := exchange (.replicate 1) (.replicate 2)

theorem sevens_version_three : OtherKeyVersion ((keyFile plain sevens).set 113 3) := by
  have hfile : (keyFile plain sevens).set 113 3 =
      (signingKeyTree 3 sevens.bytes (plain sevens.bytes).bytes 0).bytesOf := by decide
  have hok := signingKeyTree_ok 3 0 sevens.length_eq (plain sevens.bytes).length_eq
  refine ⟨_, 3, (decode_set hfile hok).trans (congrArg Except.ok signingKeyTree_value), ?_,
    by decide, by decide⟩
  rw [get_mapOf]
  rfl

theorem sevens_other_seed : HoldsKey ((keyFile plain sevens).set 10 8) := by
  have hfile : (keyFile plain sevens).set 10 8 =
      (signingKeyTree 1 (sevens.bytes.set 0 8) (plain sevens.bytes).bytes 0).bytesOf := by
    decide
  have hlen : (sevens.bytes.set 0 8).length = 32 := List.length_set.trans sevens.length_eq
  have hok := signingKeyTree_ok 1 0 hlen (plain sevens.bytes).length_eq
  refine .inr ⟨_, (decode_set hfile hok).trans (congrArg Except.ok signingKeyTree_value),
    .inr ⟨?_, sevens.bytes.set 0 8, ?_, hlen⟩⟩
  · rw [get_mapOf]
    rfl
  · rw [get_mapOf]
    rfl

theorem sevens_version_changed :
    Changed (keyFile plain sevens) ((keyFile plain sevens).set 113 3) 113 :=
  changed_set (by rw [keyFile_length]; decide) (by decide)

/-- The version is made 3, or the first byte of the seed is made another. -/
theorem boot_of_changed_sevens :
    Regenerates plain nines smooth (changedDir plain sevens 113 3)
      (bootOrGenesisSubstrateSigningKey plain whole nines smooth (changedDir plain sevens 113 3)) ∧
    (bootOrGenesisSubstrateSigningKey plain whole nines smooth (changedDir plain sevens 10 8)).2 =
      changedDir plain sevens 10 8 := by
  have hsave : saveSubstrateSigningKey plain smooth sevens (fun _ => none) =
      (.ok (), savedDir plain sevens fun _ => none) := save_smooth
  constructor
  · exact (boot_of_changed seedsApart_exchange hsave savedDir_file sevens_version_changed
      changedDir_file whole nines smooth).2.1 sevens_version_three rfl rfl
  · have hchanged : Changed (keyFile plain sevens) ((keyFile plain sevens).set 10 8) 10 :=
      changed_set (by rw [keyFile_length]; decide) (by decide)
    exact (boot_of_changed seedsApart_exchange hsave savedDir_file hchanged changedDir_file whole
      nines smooth).2.2 sevens_other_seed

/-! ### A boot that does not fail closed -/

/-- Over any saved file with one byte changed, a boot returns the old seed or fails, and does not
replace the file. -/
def FailsClosed (blake3 : Bytes → NodeHash) : Prop :=
  ∀ (saving : KeySaving) (seed : Hash32) (before saved : Files String) (bytes changed : Bytes)
    (i : Nat) (dir : Files String) (reading : KeyReading) (fresh : Hash32) (resaving : KeySaving),
    saveSubstrateSigningKey blake3 saving seed before = (.ok (), saved) →
    saved substrateSigningKeyFilename = some bytes → Changed bytes changed i →
    dir substrateSigningKeyFilename = some changed →
    ((bootOrGenesisSubstrateSigningKey blake3 reading fresh resaving dir).1 = .ok seed ∨
      ∃ e, (bootOrGenesisSubstrateSigningKey blake3 reading fresh resaving dir).1 = .error e) ∧
    (bootOrGenesisSubstrateSigningKey blake3 reading fresh resaving dir).2
      substrateSigningKeyFilename = some changed

/-- With its version made 3, the file is replaced by that of the fresh seed. -/
theorem sevens_replaced :
    bootOrGenesisSubstrateSigningKey plain whole nines smooth (changedDir plain sevens 113 3) =
      (.ok nines, savedDir plain nines (changedDir plain sevens 113 3)) := by
  have hload : loadSubstrateSigningKeyWithPermissionCheck plain whole
      (changedDir plain sevens 113 3) = .ok none :=
    load_of_none changedDir_file rfl rfl (seedOfBytes_of_otherKeyVersion sevens_version_three)
  have hboot : Regenerates plain nines smooth (changedDir plain sevens 113 3)
      (bootOrGenesisSubstrateSigningKey plain whole nines smooth
        (changedDir plain sevens 113 3)) := boot_of_none hload
  rcases hboot with h | h
  · obtain ⟨after, hsave, h⟩ := h
    rw [save_smooth] at hsave
    cases hsave
    exact h
  · obtain ⟨e, after, hsave, -⟩ := h
    rw [save_smooth] at hsave
    cases hsave

theorem not_failsClosed_plain : ¬ FailsClosed plain := by
  intro h
  have hfile := (h smooth sevens (fun _ => none) _ _ _ 113 _ whole nines smooth save_smooth
    savedDir_file sevens_version_changed changedDir_file).2
  rw [sevens_replaced] at hfile
  simp only [savedDir_file, Option.some.injEq] at hfile
  exact absurd hfile (by decide)

/-! ### A second key -/

/-- A seed that goes on, after the tag of a key, with the version and a second key for a seed. -/
def speaking : Hash32 :=
  ⟨backBytes.tail ++ [0x20, 0x84, 0x00, 0x73, 0x65, 0x65, 0x64, 0x21], rfl⟩

/-- Its hash, which ends in a last key and the start of its value. -/
def spoken : Hash32 :=
  ⟨List.replicate 18 0 ++ [0x20, 0x85, 0x00, 0x61, 0x62, 0x63, 0x64, 0x65, 0x21, 58, 0, 0, 0, 0],
    rfl⟩

/-- The bytes after the second key for a seed. -/
def impostor : Hash32 := ⟨middleBytes.tail ++ List.replicate 18 0, rfl⟩

/-- A key whose length `x` modulo 128 is spelled in two bytes. -/
def longKey (x : UInt8) (h : 128 ≤ x.toNat) (text : String) : Key :=
  ⟨⟨[x, 0x00], (isLeb_cons_of_ge h).2 ((isLeb_cons_of_lt (by decide)).2 rfl)⟩, text⟩

/-- The file once the tag of its first value is that of null. -/
def impostorTree : Tlv :=
  .map (Leb.ofNat 4) [(Key.ofString "seed", .null), versionEntry 1,
    (longKey 0x84 (by decide) "seed", .bytes (Leb.ofNat 32) impostor.bytes),
    (longKey 0x85 (by decide) "abcde",
      .bytes (Leb.ofNat 58) ((keyFile (exchange speaking spoken) speaking).drop 85))]

theorem impostorTree_spelled :
    (keyFile (exchange speaking spoken) speaking).set 8 0 = impostorTree.bytesOf := by
  decide

theorem impostorTree_ok : impostorTree.Ok u64Varint := by
  have h4 : u64Varint (Leb.ofNat 4) = some 4 := by decide
  have h32 : u64Varint (Leb.ofNat 32) = some impostor.bytes.length := by decide
  have h58 : u64Varint (Leb.ofNat 58) =
      some ((keyFile (exchange speaking spoken) speaking).drop 85).length := by decide
  have hkeys : ∀ k ∈ [Key.ofString "seed", Key.ofString "format_version",
      longKey 0x84 (by decide) "seed", longKey 0x85 (by decide) "abcde"], k.Ok u64Varint := by
    simp only [Key.Ok]
    decide
  have hascend : [Key.ofString "seed", Key.ofString "format_version",
      longKey 0x84 (by decide) "seed", longKey 0x85 (by decide) "abcde"].Pairwise
      (fun a b => keyBytes a < keyBytes b) := by
    decide
  simp only [List.forall_mem_cons] at hkeys
  obtain ⟨hk1, hk2, hk3, hk4, -⟩ := hkeys
  exact ⟨h4, List.Pairwise.of_map Prod.fst (fun _ _ h => h) hascend, hk1, trivial, hk2, trivial,
    hk3, h32, hk4, h58, trivial⟩

theorem seedOfBytes_impostor : seedOfBytes (exchange speaking spoken)
    ((keyFile (exchange speaking spoken) speaking).set 8 0) = .ok (some impostor) := by
  rw [seedOfBytes_of_decode (decode_set impostorTree_spelled impostorTree_ok)]
  rfl

/-- A version that is made 3 has the seed replaced by a fresh one; a tag that is made that of null
has a boot return a seed that no save has written. -/
theorem boot_not_failsClosed :
    (SeedsApart plain ∧ ¬ FailsClosed plain) ∧ SeedsApart (exchange speaking spoken) ∧
    bootOrGenesisSubstrateSigningKey (exchange speaking spoken) whole nines smooth
      (changedDir (exchange speaking spoken) speaking 8 0) =
        (.ok impostor, changedDir (exchange speaking spoken) speaking 8 0) ∧
    impostor ≠ speaking ∧ impostor ≠ nines := by
  refine ⟨⟨seedsApart_exchange, not_failsClosed_plain⟩, seedsApart_exchange, ?_, by decide,
    by decide⟩
  refine boot_of_some (impostor, true) ?_
  simp only [loadSubstrateSigningKeyWithPermissionCheck, whole, changedDir_file, if_true,
    seedOfBytes_impostor]
  rfl

end Myco.Substrate
