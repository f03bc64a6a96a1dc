import Myco.Canonical.Standing
import Myco.Substrate.SigningKey

/-!
# A byte of the signing key's file is changed

What a boot makes of a file that `save_substrate_signing_key` wrote and of which one byte has
another value (`boot_of_changed`).

The file is a map of four entries with the seed first. `Laid` says where each of them stands, and
`Accepted` what the loader must have found to return a seed. From offset 10 on, a changed byte
leaves the head of the file and with it the place of the seed: the seed is either the old one or
does not have the hash that stands beside it. Before, it changes how the rest of the file is taken
apart. No other seed comes of that unless a second key that reads `seed`, with its length spelled
in more bytes than it needs, stands in the old seed or in its hash (`HoldsSeed`).
-/

namespace Myco.Substrate

open Myco.Lib Myco.Canonical Myco.Schema

/-! ### The tree of the file -/

def seedEntry (seed : Bytes) : Key × Tlv := (Key.ofString "seed", .bytes (Leb.ofNat 32) seed)

def hashEntry (hash : Bytes) : Key × Tlv :=
  (Key.ofString "seed_blake3", .bytes (Leb.ofNat 32) hash)

def versionEntry (version : UInt64) : Key × Tlv := (Key.ofString "format_version", .uint version)

def createdEntry (now : Int64) : Key × Tlv := (Key.ofString "created_at_unix_ns", .timestamp now)

/-- The file with a version, a seed, a hash and a time. -/
def signingKeyTree (version : UInt64) (seed hash : Bytes) (now : Int64) : Tlv :=
  .map (Leb.ofNat 4) [seedEntry seed, hashEntry hash, versionEntry version, createdEntry now]

theorem leb_four : (Leb.ofNat 4).bytes = [4] := by decide

theorem leb_thirtyTwo : (Leb.ofNat 32).bytes = [0x20] := by decide

theorem keyBytes_seed : keyBytes (Key.ofString "seed") = [0x20, 4, 0x73, 0x65, 0x65, 0x64] := by
  decide

theorem keyBytes_seedBlake3 : keyBytes (Key.ofString "seed_blake3") =
    [0x20, 11, 0x73, 0x65, 0x65, 0x64, 0x5f, 0x62, 0x6c, 0x61, 0x6b, 0x65, 0x33] := by
  decide

theorem keyBytes_formatVersion : keyBytes (Key.ofString "format_version") =
    [0x20, 14, 0x66, 0x6f, 0x72, 0x6d, 0x61, 0x74, 0x5f, 0x76, 0x65, 0x72, 0x73, 0x69, 0x6f,
      0x6e] := by
  decide

theorem keyBytes_createdAt : (keyBytes (Key.ofString "created_at_unix_ns")).length = 20 := by
  decide

theorem signingKeyTree_value {version : UInt64} {seed hash : Bytes} {now : Int64} :
    (signingKeyTree version seed hash now).value = mapOf [("format_version", .uint version),
      ("seed", .bytes seed), ("seed_blake3", .bytes hash),
      ("created_at_unix_ns", .timestamp now)] := by
  simp only [signingKeyTree, seedEntry, hashEntry, versionEntry, createdEntry, Tlv.value,
    valueEntries, mapOf]
  congr 1

theorem signingKeyTree_ok (version : UInt64) (now : Int64) {seed hash : Bytes}
    (hs : seed.length = 32) (hh : hash.length = 32) :
    (signingKeyTree version seed hash now).Ok u64Varint := by
  have h4 : u64Varint (Leb.ofNat 4) = some 4 := by decide
  have h32 : u64Varint (Leb.ofNat 32) = some 32 := by decide
  have hk : ∀ k ∈ ["seed", "seed_blake3", "format_version", "created_at_unix_ns"],
      (Key.ofString k).Ok u64Varint := by
    simp only [Key.Ok]
    decide
  have hascend : (["seed", "seed_blake3", "format_version", "created_at_unix_ns"].map
      Key.ofString).Pairwise (fun a b => keyBytes a < keyBytes b) := by
    decide
  simp only [List.forall_mem_cons] at hk
  obtain ⟨hk1, hk2, hk3, hk4, -⟩ := hk
  simp only [signingKeyTree, seedEntry, hashEntry, versionEntry, createdEntry, Tlv.Ok, OkEntries,
    List.length_cons, List.length_nil, hs, hh]
  exact ⟨h4, List.Pairwise.of_map Prod.fst (fun _ _ h => h) hascend, hk1, h32, hk2, h32, hk3,
    trivial, hk4, trivial, trivial⟩

theorem signingKeyTree_shortest {version : UInt64} {seed hash : Bytes} {now : Int64} :
    (signingKeyTree version seed hash now).Every Shortest := by
  have h4 : Shortest (Leb.ofNat 4) := ⟨4, rfl⟩
  have h32 : Shortest (Leb.ofNat 32) := ⟨32, rfl⟩
  have hk : ∀ k ∈ ["seed", "seed_blake3", "format_version", "created_at_unix_ns"],
      (utf8 k).length < 2 ^ 64 := by
    decide
  have hk' : ∀ k ∈ ["seed", "seed_blake3", "format_version", "created_at_unix_ns"],
      Shortest (Key.ofString k).len := fun k hk'' =>
    ⟨UInt64.ofNat (utf8 k).length, by rw [UInt64.toNat_ofNat_of_lt' (hk k hk'')]; rfl⟩
  simp only [List.forall_mem_cons] at hk'
  obtain ⟨hk1, hk2, hk3, hk4, -⟩ := hk'
  exact ⟨h4, hk1, h32, hk2, h32, hk3, trivial, hk4, trivial, trivial⟩

/-- What a save writes. -/
theorem encode_signingKeyMap {blake3 : Bytes → NodeHash} {seed : Hash32} {now : Int64} :
    encode (signingKeyMap blake3 seed now) =
      .ok (signingKeyTree 1 seed.bytes (blake3 seed.bytes).bytes now).bytesOf := by
  have hok := signingKeyTree_ok 1 now seed.length_eq (blake3 seed.bytes).length_eq
  have hvalue : (signingKeyTree 1 seed.bytes (blake3 seed.bytes).bytes now).value =
      signingKeyMap blake3 seed now := signingKeyTree_value
  rw [← hvalue, encode_eq hok.value_fits, Value.wire,
    Tlv.canonical_value hok signingKeyTree_shortest]

/-! ### Where the entries stand -/

/-- The entries of the file that a save writes. -/
def savedEntries (seed hash : Bytes) (now : Int64) : List (Key × Tlv) :=
  [seedEntry seed, hashEntry hash, versionEntry 1, createdEntry now]

/-- The bytes before the seed. -/
def frontBytes : Bytes := [0x31, 4, 0x20, 4, 0x73, 0x65, 0x65, 0x64, 0x21, 0x20]

/-- The bytes between the seed and its hash. -/
def middleBytes : Bytes := [0x20, 11, 0x73, 0x65, 0x65, 0x64, 0x5f, 0x62, 0x6c, 0x61, 0x6b, 0x65,
  0x33, 0x21, 0x20]

/-- The bytes after the hash, up to the entry of the time. -/
def backBytes : Bytes := [0x20, 14, 0x66, 0x6f, 0x72, 0x6d, 0x61, 0x74, 0x5f, 0x76, 0x65, 0x72,
  0x73, 0x69, 0x6f, 0x6e, 0x11, 0, 0, 0, 0, 0, 0, 0, 1]

/-- Where the head of the file and its four entries stand. -/
structure Laid (w seed hash : Bytes) (now : Int64) : Prop where
  ok : OkEntries u64Varint (savedEntries seed hash now)
  head : At w 0 [0x31, 4]
  seed : EntryAt w 2 42 (seedEntry seed)
  hash : EntryAt w 42 89 (hashEntry hash)
  version : EntryAt w 89 114 (versionEntry 1)
  created : EntryAt w 114 143 (createdEntry now)
  length_eq : w.length = 143

theorem seedEntry_length {seed : Bytes} (hs : seed.length = 32) :
    (keyBytes (seedEntry seed).1).length + (seedEntry seed).2.bytesOf.length = 40 := by
  simp only [seedEntry, keyBytes_seed, Tlv.bytesOf, List.length_cons, List.length_append,
    List.length_nil, leb_thirtyTwo, hs]

theorem hashEntry_length {hash : Bytes} (hh : hash.length = 32) :
    (keyBytes (hashEntry hash).1).length + (hashEntry hash).2.bytesOf.length = 47 := by
  simp only [hashEntry, keyBytes_seedBlake3, Tlv.bytesOf, List.length_cons, List.length_append,
    List.length_nil, leb_thirtyTwo, hh]

theorem versionEntry_length (version : UInt64) :
    (keyBytes (versionEntry version).1).length + (versionEntry version).2.bytesOf.length = 25 := by
  simp only [versionEntry, keyBytes_formatVersion, Tlv.bytesOf, List.length_cons,
    List.length_nil, u64Be_length]

theorem createdEntry_length (now : Int64) :
    (keyBytes (createdEntry now).1).length + (createdEntry now).2.bytesOf.length = 29 := by
  rw [createdEntry, keyBytes_createdAt, Tlv.bytesOf, List.length_cons, i64Be_length]

theorem laid (now : Int64) {seed hash : Bytes} (hs : seed.length = 32) (hh : hash.length = 32) :
    Laid (signingKeyTree 1 seed hash now).bytesOf seed hash now := by
  have hl1 := seedEntry_length hs
  have hl2 := hashEntry_length hh
  have hl3 := versionEntry_length 1
  have hl4 := createdEntry_length now
  generalize hw : (signingKeyTree 1 seed hash now).bytesOf = w
  have hat : At w 0 (signingKeyTree 1 seed hash now).bytesOf := hw ▸ At.of_eq
  rw [signingKeyTree, Tlv.bytesOf, leb_four, ← List.cons_append, At.append_iff] at hat
  obtain ⟨hhead, h1⟩ := hat
  obtain ⟨a2, he1, h2, -⟩ := entriesAt_cons h1
  obtain rfl : a2 = 42 := by
    rw [he1.stop_eq, Nat.add_assoc, hl1]
    rfl
  obtain ⟨a3, he2, h3, -⟩ := entriesAt_cons h2
  obtain rfl : a3 = 89 := by rw [he2.stop_eq, Nat.add_assoc, hl2]
  obtain ⟨a4, he3, h4, -⟩ := entriesAt_cons h3
  obtain rfl : a4 = 114 := by rw [he3.stop_eq, Nat.add_assoc, hl3]
  obtain ⟨a5, he4, -, -⟩ := entriesAt_cons h4
  obtain rfl : a5 = 143 := by rw [he4.stop_eq, Nat.add_assoc, hl4]
  refine ⟨(signingKeyTree_ok 1 now hs hh).2.2, hhead, he1, he2, he3, he4, ?_⟩
  rw [← hw]
  simp only [signingKeyTree, Tlv.bytesOf, leb_four, bytesOfEntries, List.length_cons,
    List.length_append, List.length_nil]
  omega

section

variable {w seed hash : Bytes} {now : Int64}

theorem Laid.body (hw : Laid w seed hash now) : At w 2
    (bytesOfEntries (savedEntries seed hash now)) :=
  hw.seed.cons (hw.hash.cons (hw.version.cons (hw.created.cons At.nil)))

theorem Laid.body_length (hw : Laid w seed hash now) :
    (bytesOfEntries (savedEntries seed hash now)).length = 141 := by
  have h1 := hw.seed.stop_eq
  have h2 := hw.hash.stop_eq
  have h3 := hw.version.stop_eq
  have h4 := hw.created.stop_eq
  simp only [savedEntries, bytesOfEntries, List.length_append, List.length_nil]
  omega

theorem Laid.front (hw : Laid w seed hash now) : At w 0 frontBytes ∧ At w 10 seed := by
  have hk := hw.seed.key
  have hv := hw.seed.value
  rw [seedEntry, keyBytes_seed] at hk hv
  rw [Tlv.bytesOf, leb_thirtyTwo, ← List.cons_append, At.append_iff] at hv
  have hrest : At w 2 ([0x20, 4, 0x73, 0x65, 0x65, 0x64] ++ [0x21, 0x20]) :=
    At.append_iff.2 ⟨hk, hv.1⟩
  exact ⟨(At.append_iff (s := [0x31, 4])).2 ⟨hw.head, hrest⟩, hv.2⟩

theorem Laid.middle (hw : Laid w seed hash now) : At w 42 middleBytes ∧ At w 57 hash := by
  have hk := hw.hash.key
  have hv := hw.hash.value
  rw [hashEntry, keyBytes_seedBlake3] at hk hv
  rw [Tlv.bytesOf, leb_thirtyTwo, ← List.cons_append, At.append_iff] at hv
  exact ⟨At.append_iff.2 ⟨hk, hv.1⟩, hv.2⟩

theorem Laid.back (hw : Laid w seed hash now) : At w 89 backBytes := by
  have hk := hw.version.key
  have hv := hw.version.value
  have h1 : u64Be 1 = [0, 0, 0, 0, 0, 0, 0, 1] := by decide
  rw [versionEntry, keyBytes_formatVersion] at hk hv
  rw [Tlv.bytesOf, h1] at hv
  exact (At.append_iff (s := [0x20, 14, 0x66, 0x6f, 0x72, 0x6d, 0x61, 0x74, 0x5f, 0x76, 0x65,
    0x72, 0x73, 0x69, 0x6f, 0x6e])).2 ⟨hk, hv⟩

end

/-! ### What the loader found -/

/-- What stands in bytes that the loader takes the seed `found` from. -/
structure Accepted (blake3 : Bytes → NodeHash) (b : Bytes) (found : Hash32) (n : Leb)
    (entries : List (Key × Tlv)) : Prop where
  spells : Spells u64Varint b (.map n entries)
  version : ∃ e ∈ entries, e.1.text = "format_version" ∧ e.2 = .uint 1
  seed : ∃ e ∈ entries, e.1.text = "seed" ∧ ∃ l, e.2 = .bytes l found.bytes
  hash : ∀ stored, OrdMap.get "seed_blake3" (OrdMap.ofList utf8 (valueEntries entries)) =
    some (.bytes stored) → stored = (blake3 found.bytes).bytes

variable {blake3 : Bytes → NodeHash}

theorem mem_of_get_ofList {entries : List (Key × Tlv)} {key : String} {v : Value}
    (h : OrdMap.get key (OrdMap.ofList utf8 (valueEntries entries)) = some v) :
    ∃ e ∈ entries, e.1.text = key ∧ e.2.value = v := by
  have hmem := OrdMap.mem_of_mem_ofList (OrdMap.mem_of_get h)
  rw [valueEntries_eq, List.mem_map] at hmem
  obtain ⟨e, he, heq⟩ := hmem
  exact ⟨e, he, congrArg Prod.fst heq, congrArg Prod.snd heq⟩

theorem checkSeedBlake3_eq_some {map : List (String × Value)} {seed found : Hash32}
    (h : checkSeedBlake3 blake3 map seed = .ok (some found)) : found = seed ∧
      ∀ stored, OrdMap.get "seed_blake3" map = some (.bytes stored) →
        stored = (blake3 seed.bytes).bytes := by
  unfold checkSeedBlake3 at h
  split at h
  · rename_i stored hget
    split at h
    · simp only at h
      split at h
      · cases h
      · rename_i hne
        cases h
        refine ⟨rfl, fun stored' hget' => ?_⟩
        rw [hget] at hget'
        cases hget'
        exact (not_not.1 hne).symm
    · cases h
  · rename_i hnot
    cases h
    exact ⟨rfl, fun stored hget => absurd hget (hnot stored)⟩

theorem accepted_of_seedOfBytes {b : Bytes} {found : Hash32}
    (h : seedOfBytes blake3 b = .ok (some found)) :
    ∃ n entries, Accepted blake3 b found n entries := by
  unfold seedOfBytes at h
  obtain ⟨v, hv, h⟩ := bind_eq_ok.1 h
  obtain ⟨t, ht, rfl⟩ := spells_of_decode (mapError_eq_ok.1 hv)
  split at h
  · rename_i map hmap
    obtain ⟨n, entries, rfl, rfl⟩ := Tlv.eq_map_of_value hmap
    unfold seedOfMap at h
    split at h
    · rename_i version hversion
      split at h
      · rename_i hv1
        subst hv1
        unfold seedOfV1 at h
        split at h
        · rename_i raw hraw
          split at h
          · rename_i hlen
            obtain ⟨rfl, hhash⟩ := checkSeedBlake3_eq_some h
            obtain ⟨e, he, hkey, hval⟩ := mem_of_get_ofList hversion
            obtain ⟨e', he', hkey', hval'⟩ := mem_of_get_ofList hraw
            exact ⟨n, entries, ht, ⟨e, he, hkey, Tlv.eq_uint_of_value hval⟩,
              ⟨e', he', hkey', Tlv.eq_bytes_of_value hval'⟩, hhash⟩
          · cases h
        · cases h
      · split at h <;> cases h
    · cases h
  · cases h

/-! ### Four entries, one byte changed -/

/-- `b` has another byte than `w` at offset `i`, and the same elsewhere. -/
structure Changed (w b : Bytes) (i : Nat) : Prop where
  lt : i < w.length
  length_eq : b.length = w.length
  ne : b[i]? ≠ w[i]?
  same : ∀ p, p ≠ i → b[p]? = w[p]?

theorem changed_set {w : Bytes} {i : Nat} {x : UInt8} (hi : i < w.length) (hx : w[i]? ≠ some x) :
    Changed w (w.set i x) i where
  lt := hi
  length_eq := List.length_set
  ne := by
    rw [List.getElem?_set_self hi]
    exact hx.symm
  same p hp := List.getElem?_set_ne hp.symm

/-- What stands off the changed byte still stands there. -/
theorem Changed.kept {w b t : Bytes} {i a : Nat} (hc : Changed w b i) (h : At w a t)
    (hi : i < a ∨ a + t.length ≤ i) : At b a t := by
  rw [at_iff] at h ⊢
  intro j x hx
  obtain ⟨hj, -⟩ := List.getElem?_eq_some_iff.1 hx
  rw [hc.same _ (by omega)]
  exact h j x hx

/-- The head of a map, and its entries to the end. -/
structure Headed (b : Bytes) (n : Leb) (entries : List (Key × Tlv)) : Prop where
  tag : b[0]? = some 0x31
  count : At b 1 n.bytes
  body : At b (1 + n.bytes.length) (bytesOfEntries entries)
  length_eq : b.length = 1 + n.bytes.length + (bytesOfEntries entries).length
  reads : u64Varint n = some entries.length
  ascend : KeysAscend entries
  ok : OkEntries u64Varint entries

theorem headed_of_spells {b : Bytes} {n : Leb} {entries : List (Key × Tlv)}
    (h : Spells u64Varint b (.map n entries)) : Headed b n entries := by
  obtain ⟨rfl, hok⟩ := h
  have hat : At (Tlv.map n entries).bytesOf 0 (Tlv.map n entries).bytesOf := At.of_eq
  rw [show At _ 0 (Tlv.map n entries).bytesOf ↔ _ from At.cons_iff, At.append_iff] at hat
  refine ⟨hat.1, hat.2.1, hat.2.2, ?_, hok.1, hok.2.1, hok.2.2⟩
  simp only [Tlv.bytesOf, List.length_cons, List.length_append]
  omega

/-- Four entries from offset 2 to the end, and the offsets at which they meet. -/
structure Taken (b : Bytes) (e₁ e₂ e₃ e₄ : Key × Tlv) (a₂ a₃ a₄ : Nat) : Prop where
  first : EntryAt b 2 a₂ e₁
  second : EntryAt b a₂ a₃ e₂
  third : EntryAt b a₃ a₄ e₃
  fourth : EntryAt b a₄ 143 e₄
  ok : ∀ e ∈ [e₁, e₂, e₃, e₄], e.1.Ok u64Varint ∧ e.2.Ok u64Varint
  ascend : KeysAscend [e₁, e₂, e₃, e₄]

variable {w b seed hash : Bytes} {now : Int64} {i : Nat} {n : Leb} {entries : List (Key × Tlv)}

theorem Headed.ne_zero (hh : Headed b n entries) (hw : Laid w seed hash now)
    (hc : Changed w b i) : i ≠ 0 := by
  rintro rfl
  have h0 := hw.front.1.get (j := 0) rfl
  exact hc.ne (hh.tag.trans h0.symm)

/-- Another count than four does not end with the file. -/
theorem Headed.ne_one (hh : Headed b n entries) (hw : Laid w seed hash now)
    (hc : Changed w b i) : i ≠ 1 := by
  rintro rfl
  have hlen := hh.length_eq
  rw [hc.length_eq, hw.length_eq] at hlen
  obtain ⟨x, hx⟩ : ∃ x, b[1]? = some x :=
    ⟨_, hh.count.get (List.getElem?_eq_getElem n.isLeb.length_pos)⟩
  have h2 : b[1 + 1]? = some 0x20 := (hc.same 2 (by decide)).trans (hw.front.1.get (j := 2) rfl)
  have hreads := hh.reads
  rcases Leb.bytes_two_at hh.count hx h2 (by decide) with hn | hn
  · have hfour : entries = savedEntries seed hash now := by
      have hbody := hh.body
      have hold := hc.kept hw.body (.inl (by decide))
      have hlen' := congrArg List.length hn
      rw [List.length_singleton] at hlen'
      rw [hlen'] at hbody hlen
      exact bytesOfEntries_injective hh.ok hw.ok (hbody.eq_of_length_eq hold
        (by rw [hw.body_length]; omega))
    have hlt := (Leb.lt_iff_at hh.count n.isLeb.length_pos hx).2 (by rw [hn]; rfl)
    rw [hfour, u64Varint_of_byte hn hlt] at hreads
    have hx4 : x = 4 := UInt8.toNat_inj.1 (Option.some.inj hreads)
    rw [hx4] at hx
    exact hc.ne (hx.trans (hw.front.1.get (j := 1) rfl).symm)
  · rw [u64Varint_of_two hn] at hreads
    have hlen' := congrArg List.length hn
    have hmany := length_le_bytesOfEntries entries
    have hmany' := Option.some.inj hreads
    simp only [List.length_cons, List.length_nil] at hlen'
    have h32 : (0x20 : UInt8).toNat = 32 := rfl
    omega

/-- From offset 2 on, a changed byte leaves a map of four entries. -/
theorem Headed.taken (hh : Headed b n entries) (hw : Laid w seed hash now) (hc : Changed w b i)
    (hi : 2 ≤ i) : ∃ e₁ e₂ e₃ e₄ a₂ a₃ a₄, entries = [e₁, e₂, e₃, e₄] ∧
      Taken b e₁ e₂ e₃ e₄ a₂ a₃ a₄ := by
  have hlen := hh.length_eq
  rw [hc.length_eq, hw.length_eq] at hlen
  have h1 : b[1]? = some 4 := (hc.same 1 (by omega)).trans (hw.front.1.get (j := 1) rfl)
  have hn := Leb.bytes_at hh.count h1 (by decide)
  have hfour : entries.length = 4 :=
    Option.some.inj (hh.reads.symm.trans (u64Varint_of_byte hn (by decide)))
  obtain ⟨e₁, e₂, e₃, e₄, rfl⟩ := List.length_eq_four.1 hfour
  have hbody := hh.body
  rw [hn] at hbody hlen
  obtain ⟨a₂, he₁, h2, hl1⟩ := entriesAt_cons hbody
  obtain ⟨a₃, he₂, h3, hl2⟩ := entriesAt_cons h2
  obtain ⟨a₄, he₃, h4, hl3⟩ := entriesAt_cons h3
  obtain ⟨a₅, he₄, -, hl4⟩ := entriesAt_cons h4
  obtain rfl : a₅ = 143 := by
    simp only [List.length_cons, List.length_nil, bytesOfEntries] at hlen hl1 hl2 hl3 hl4
    omega
  exact ⟨e₁, e₂, e₃, e₄, a₂, a₃, a₄, rfl, he₁, he₂, he₃, he₄, okEntries_iff.1 hh.ok, hh.ascend⟩

variable {e₁ e₂ e₃ e₄ : Key × Tlv} {a₂ a₃ a₄ : Nat}

theorem Laid.seed_ok (hw : Laid w seed hash now) :
    (seedEntry seed).1.Ok u64Varint ∧ (seedEntry seed).2.Ok u64Varint :=
  ⟨hw.ok.1, hw.ok.2.1⟩

/-- From offset 8 on, a changed byte leaves the first key. -/
theorem Taken.key_kept (ht : Taken b e₁ e₂ e₃ e₄ a₂ a₃ a₄) (hw : Laid w seed hash now)
    (hc : Changed w b i) (hi : 8 ≤ i) : e₁.1 = Key.ofString "seed" := by
  have hk := hw.seed.key
  have hlen : (keyBytes (seedEntry seed).1).length = 6 := congrArg List.length keyBytes_seed
  have hkept := hc.kept hk (.inr (by omega))
  exact key_unique_at (ht.ok e₁ (by simp)).1 hw.seed_ok.1 ht.first.key hkept

/-- After a key of the old length, the old value of the seed is found if no byte of it was
changed. -/
theorem Taken.seed_kept (ht : Taken b e₁ e₂ e₃ e₄ a₂ a₃ a₄) (hw : Laid w seed hash now)
    (hc : Changed w b i) (hkey : (keyBytes e₁.1).length = 6) (hi : i < 8 ∨ 42 ≤ i) :
    e₁.2 = (seedEntry seed).2 ∧ a₂ = 42 := by
  have hlen : (keyBytes (seedEntry seed).1).length = 6 := congrArg List.length keyBytes_seed
  have hv := hw.seed.value
  have hstop := hw.seed.stop_eq
  have hv' := ht.first.value
  have hstop' := ht.first.stop_eq
  rw [hlen] at hv hstop
  rw [hkey] at hv' hstop'
  have hkept := hc.kept hv (by omega)
  have heq := Tlv.unique_at (ht.ok e₁ (by simp)).2 hw.seed_ok.2 hv' hkept
  rw [heq] at hstop'
  exact ⟨heq, by omega⟩

/-- The last three entries are the old ones if no byte of them was changed. -/
theorem Taken.rest_kept (ht : Taken b e₁ e₂ e₃ e₄ a₂ a₃ a₄) (hw : Laid w seed hash now)
    (hc : Changed w b i) (ha : a₂ = 42) (hi : i < 42) :
    e₂ = hashEntry hash ∧ e₃ = versionEntry 1 ∧ e₄ = createdEntry now := by
  subst ha
  have hold : At w 42 (bytesOfEntries [hashEntry hash, versionEntry 1, createdEntry now]) :=
    hw.hash.cons (hw.version.cons (hw.created.cons At.nil))
  have hnew : At b 42 (bytesOfEntries [e₂, e₃, e₄]) :=
    ht.second.cons (ht.third.cons (ht.fourth.cons At.nil))
  have hok : OkEntries u64Varint [e₂, e₃, e₄] :=
    okEntries_iff.2 fun e he => ht.ok e (List.mem_cons_of_mem _ he)
  have heq := entries_unique_at hok hw.ok.2.2 rfl hnew (hc.kept hold (.inl hi))
  simpa using heq

/-- No key but the first reads `seed`. -/
theorem text_ne_seed (hash : Bytes) (now : Int64) {e : Key × Tlv}
    (he : e = hashEntry hash ∨ e = versionEntry 1 ∨ e = createdEntry now) : e.1.text ≠ "seed" := by
  rcases he with rfl | rfl | rfl
  · exact (by decide : "seed_blake3" ≠ "seed")
  · exact (by decide : "format_version" ≠ "seed")
  · exact (by decide : "created_at_unix_ns" ≠ "seed")

/-! ### A second key that reads `seed` -/

/-- The four letters stand in the bytes. -/
def HoldsSeed (bytes : Bytes) : Prop := utf8 "seed" <:+: bytes

theorem utf8_seed : utf8 "seed" = [0x73, 0x65, 0x65, 0x64] := by decide

/-- No tag of a key stands among bytes that hold none after their first one. -/
theorem no_tag {t : Bytes} {a p m : Nat} (h : At b p t) (hm : m ≤ t.length)
    (hnone : ∀ j < m, 0 < j → t[j]? ≠ some 0x20) (hp : p < a) (ha : a < p + m) :
    b[a]? ≠ some 0x20 := by
  obtain ⟨j, rfl⟩ : ∃ j, a = p + j := ⟨a - p, by omega⟩
  have hj := List.getElem?_eq_getElem (l := t) (i := j) (by omega)
  have hne := hnone j (by omega) (by omega)
  rwa [h.get hj, ← hj]

/-- Behind the place of the first key, where no byte is changed, only the seed and its hash have
room for a key that reads `seed`: the tags of the other keys are followed by other lengths. -/
theorem holdsSeed_of_key {k : Key} {a : Nat} (hw : Laid w seed hash now)
    (hs : seed.length = 32) (hh : hash.length = 32) (hsame : ∀ p, 10 ≤ p → b[p]? = w[p]?)
    (hk : At b a (keyBytes k)) (hok : k.Ok u64Varint) (htext : k.text = "seed") (ha : 9 ≤ a)
    (hroom : a + (keyBytes k).length + 34 ≤ 143) : HoldsSeed seed ∨ HoldsSeed hash := by
  have hkept : ∀ {t : Bytes} {p : Nat}, 10 ≤ p → At w p t → At b p t := fun hp h =>
    at_iff.2 fun j x hx => (hsame _ (by omega)).trans (h.get hx)
  have hmiddle := hkept (by decide) hw.middle.1
  have hback := hkept (by decide) hw.back
  obtain ⟨htag, -, hword⟩ := keyAt_iff.1 hk
  have hpos := k.len.isLeb.length_pos
  have hlen := keyBytes_length (k := k)
  rw [htext, utf8_seed] at hword hlen
  rw [List.length_cons, List.length_cons, List.length_cons, List.length_singleton] at hlen
  have hfour : (utf8 k.text).length = 4 := by rw [htext, utf8_seed]; rfl
  have hmem : (0x20 : UInt8) ∉ utf8 k.text := by rw [htext, utf8_seed]; decide
  have hfirst : (utf8 k.text)[0]? = some 0x73 := by rw [htext, utf8_seed]; rfl
  have h42 := hmiddle.get (j := 0) rfl
  have h43 := hmiddle.get (j := 1) rfl
  have h89 := hback.get (j := 0) rfl
  have h90 := hback.get (j := 1) rfl
  rcases key_clear hk h42 (by decide) hmem hfirst (by rw [h43]; decide) with h | h
  · have hne : a ≠ 42 := by
      rintro rfl
      have := (hok.length_at hk h43 (by decide)).2
      rw [hfour] at this
      exact absurd this (by decide)
    have hge : 56 ≤ a := by
      by_contra hlt
      exact no_tag (m := 14) hmiddle (by decide) (by decide) (by omega) (by omega) htag
    rcases key_clear hk h89 (by decide) hmem hfirst (by rw [h90]; decide) with h' | h'
    · have hne' : a ≠ 89 := by
        rintro rfl
        have := (hok.length_at hk h90 (by decide)).2
        rw [hfour] at this
        exact absurd this (by decide)
      have hge' : 114 ≤ a := by
        by_contra hlt
        exact no_tag (m := 25) hback (by decide) (by decide) (by omega) (by omega) htag
      omega
    · right
      rw [HoldsSeed, utf8_seed]
      exact (hkept (by decide) hw.middle.2).inside hword (by omega)
        (by simp only [List.length_cons, List.length_nil]; omega)
  · left
    rw [HoldsSeed, utf8_seed]
    exact (hkept (by decide) hw.front.2).inside hword (by omega)
      (by simp only [List.length_cons, List.length_nil]; omega)

/-- An entry of a seed: its key reads `seed`, and its value is thirty-two bytes. -/
def IsSeed (e : Key × Tlv) (found : Bytes) : Prop :=
  e.1.text = "seed" ∧ (∃ l, e.2 = .bytes l found) ∧ found.length = 32

variable {found : Bytes}

theorem Taken.holdsSeed (ht : Taken b e₁ e₂ e₃ e₄ a₂ a₃ a₄) (hw : Laid w seed hash now)
    (hs : seed.length = 32) (hh : hash.length = 32) (hsame : ∀ p, 10 ≤ p → b[p]? = w[p]?)
    (ha : 9 ≤ a₂) {e : Key × Tlv} (he : e ∈ [e₂, e₃, e₄]) (hseed : IsSeed e found) :
    HoldsSeed seed ∨ HoldsSeed hash := by
  obtain ⟨htext, ⟨l, hval⟩, hlen⟩ := hseed
  have hroom : 34 ≤ e.2.bytesOf.length := by
    have := l.isLeb.length_pos
    rw [hval, Tlv.bytesOf, List.length_cons, List.length_append]
    omega
  have hok := (ht.ok e (List.mem_cons_of_mem _ he)).1
  have h2 := ht.second.stop_eq
  have h3 := ht.third.stop_eq
  have h4 := ht.fourth.stop_eq
  simp only [List.mem_cons, List.not_mem_nil, or_false] at he
  rcases he with rfl | rfl | rfl
  · exact holdsSeed_of_key hw hs hh hsame ht.second.key hok htext ha (by omega)
  · exact holdsSeed_of_key hw hs hh hsame ht.third.key hok htext (by omega) (by omega)
  · exact holdsSeed_of_key hw hs hh hsame ht.fourth.key hok htext (by omega) (by omega)

/-- With the length of its key changed, the first entry is not that of a seed. -/
theorem Taken.first_three (ht : Taken b e₁ e₂ e₃ e₄ a₂ a₃ a₄) (hw : Laid w seed hash now)
    (hc : Changed w b 3) : ¬ IsSeed e₁ found ∧ 9 ≤ a₂ := by
  have hkept : ∀ j, 4 ≤ j → ∀ x, frontBytes[j]? = some x → b[j]? = some x := fun j hj x hx =>
    (hc.same j (by omega)).trans (by simpa using hw.front.1.get hx)
  have hlen := (keyAt_iff.1 ht.first.key).2.1
  have hkey := keyBytes_length (k := e₁.1)
  have hok : u64Varint e₁.1.len = some (utf8 e₁.1.text).length := (ht.ok e₁ (by simp)).1
  have hstop := ht.first.stop_eq
  have h2 := ht.second.stop_eq
  have h3 := ht.third.stop_eq
  have h4 := ht.fourth.stop_eq
  have hval := e₁.2.bytesOf_length_pos
  obtain ⟨x, hx⟩ : ∃ x, b[2 + 1]? = some x :=
    ⟨_, hlen.get (List.getElem?_eq_getElem e₁.1.len.isLeb.length_pos)⟩
  rcases Leb.bytes_two_at hlen hx (hkept 4 (by decide) 0x73 rfl) (by decide) with hone | htwo
  · have hlt := (Leb.lt_iff_at hlen e₁.1.len.isLeb.length_pos hx).2 (by rw [hone]; rfl)
    have htext := Option.some.inj (hok.symm.trans (u64Varint_of_byte hone hlt))
    rw [hone, htext, List.length_singleton] at hkey
    have hne : x.toNat ≠ 4 := by
      intro h
      obtain rfl : x = 4 := UInt8.toNat_inj.1 h
      exact hc.ne (hx.trans (hw.front.1.get (j := 3) rfl).symm)
    have hge : 5 ≤ x.toNat := by
      by_contra hlt'
      -- the value would start at a letter of the old key
      have htag := Tlv.tag_at ht.first.value
      rw [hkey, show 2 + (1 + 1 + x.toNat) = 4 + x.toNat by omega] at htag
      have hletter : ∀ j < 4, (frontBytes[4 + j]?).bind Tag.ofByte? = none := by decide
      have hj := List.getElem?_eq_getElem (l := frontBytes) (i := 4 + x.toNat)
        (show 4 + x.toNat < 10 by omega)
      have hnone := hletter x.toNat (by omega)
      rw [hj, ← Option.some.inj (htag.symm.trans (hkept _ (by omega) _ hj))] at hnone
      simp at hnone
    refine ⟨?_, by omega⟩
    rintro ⟨hseed, -, -⟩
    rw [hseed, utf8_seed] at htext
    exact hne htext.symm
  · have htext := Option.some.inj (hok.symm.trans (u64Varint_of_two htwo))
    have h73 : (0x73 : UInt8).toNat = 115 := rfl
    omega

/-- With its tag changed, the value of the first entry is not that of a seed. -/
theorem Taken.first_eight (ht : Taken b e₁ e₂ e₃ e₄ a₂ a₃ a₄) (hw : Laid w seed hash now)
    (hc : Changed w b 8) : ¬ IsSeed e₁ found ∧ 9 ≤ a₂ := by
  have hkey : (keyBytes e₁.1).length = 6 := by
    rw [ht.key_kept hw hc (by decide), keyBytes_seed]
    rfl
  have htag := Tlv.tag_at ht.first.value
  have hstop := ht.first.stop_eq
  have hval := e₁.2.bytesOf_length_pos
  rw [hkey] at htag hstop
  refine ⟨?_, by omega⟩
  rintro ⟨-, ⟨l, hl⟩, -⟩
  rw [hl] at htag
  exact hc.ne (htag.trans (hw.front.1.get (j := 8) rfl).symm)

/-- With its length changed, the value of the first entry is not that of a seed: spelled in more
bytes, the old length leads to where no key stands. -/
theorem Taken.first_nine (ht : Taken b e₁ e₂ e₃ e₄ a₂ a₃ a₄) (hw : Laid w seed hash now)
    (hc : Changed w b 9) : ¬ IsSeed e₁ found ∧ 9 ≤ a₂ := by
  have hkey : (keyBytes e₁.1).length = 6 := by
    rw [ht.key_kept hw hc (by decide), keyBytes_seed]
    rfl
  have hvalue := ht.first.value
  have hstop := ht.first.stop_eq
  have hval := e₁.2.bytesOf_length_pos
  have hok := (ht.ok e₁ (by simp)).2
  rw [hkey] at hvalue hstop
  refine ⟨?_, by omega⟩
  rintro ⟨-, ⟨l, hl⟩, hlen⟩
  rw [hl] at hvalue hstop hok
  simp only [Tlv.Ok, hlen] at hok
  rw [Tlv.bytesOf, At.cons_iff, At.append_iff] at hvalue
  have hpos := l.isLeb.length_pos
  obtain ⟨x, hx⟩ : ∃ x, b[8 + 1]? = some x :=
    ⟨_, hvalue.2.1.get (List.getElem?_eq_getElem hpos)⟩
  rcases Nat.lt_or_ge 1 l.bytes.length with hlong | hshort
  · have hten := u64Varint_length hok
    have hmiddle := hc.kept hw.middle.1 (.inl (by decide))
    rw [Tlv.bytesOf, List.length_cons, List.length_append, hlen] at hstop
    exact no_tag (m := 14) hmiddle (by decide) (by decide) (by omega) (by omega)
      (keyAt_iff.1 ht.second.key).1
  · have hlt := (Leb.lt_iff_at hvalue.2.1 hpos hx).2 (by omega)
    have hone := Leb.bytes_at hvalue.2.1 hx hlt
    rw [u64Varint_of_byte hone hlt] at hok
    obtain rfl : x = 0x20 := UInt8.toNat_inj.1 (Option.some.inj hok)
    exact hc.ne (hx.trans (hw.front.1.get (j := 9) rfl).symm)

/-- With a letter of its key changed, the first entry is not that of a seed, and the others are
what they were. -/
theorem Taken.letter_changed (ht : Taken b e₁ e₂ e₃ e₄ a₂ a₃ a₄) (hw : Laid w seed hash now)
    (hc : Changed w b i) (hi : 4 ≤ i) (hi' : i < 8) {e : Key × Tlv} (he : e ∈ [e₁, e₂, e₃, e₄]) :
    ¬ IsSeed e found := by
  have h3 : b[2 + 1]? = some 4 := (hc.same 3 (by omega)).trans (hw.front.1.get (j := 3) rfl)
  obtain ⟨hone, htext⟩ := (ht.ok e₁ (by simp)).1.length_at ht.first.key h3 (by decide)
  have hkey : (keyBytes e₁.1).length = 6 := by
    rw [keyBytes_length, hone, htext]
    rfl
  obtain ⟨-, ha⟩ := ht.seed_kept hw hc hkey (.inl hi')
  obtain ⟨h2, h3, h4⟩ := ht.rest_kept hw hc ha (by omega)
  rintro ⟨hseed, -, -⟩
  rcases List.mem_cons.1 he with rfl | he
  · have hword := (keyAt_iff.1 ht.first.key).2.2
    rw [hseed, utf8_seed, hone] at hword
    obtain ⟨j, rfl⟩ : ∃ j, i = 4 + j := ⟨i - 4, by omega⟩
    have hj : ([0x73, 0x65, 0x65, 0x64] : Bytes)[j]? = frontBytes[4 + j]? := by
      have hsame : ∀ j < 4, ([0x73, 0x65, 0x65, 0x64] : Bytes)[j]? = frontBytes[4 + j]? := by
        decide
      exact hsame j (by omega)
    have hold := List.getElem?_eq_getElem (l := frontBytes) (i := 4 + j)
      (show 4 + j < 10 by omega)
    have hnew := hword.get (hj.trans hold)
    exact hc.ne (hnew.trans (by simpa using (hw.front.1.get hold).symm))
  · refine text_ne_seed hash now ?_ hseed
    simpa [h2, h3, h4] using he

/-- With a byte of the seed changed, the first entry is that of another seed, and the others are
what they were. -/
theorem Taken.seed_changed (ht : Taken b e₁ e₂ e₃ e₄ a₂ a₃ a₄) (hw : Laid w seed hash now)
    (hc : Changed w b i) (hi : 10 ≤ i) (hi' : i < 42) :
    e₁.1 = Key.ofString "seed" ∧ (∃ l c, e₁.2 = .bytes l c ∧ c ≠ seed) ∧ a₂ = 42 := by
  have hkey := ht.key_kept hw hc (by omega)
  have hvalue := ht.first.value
  have hstop := ht.first.stop_eq
  have hok := (ht.ok e₁ (by simp)).2
  rw [hkey, keyBytes_seed] at hvalue hstop
  refine ⟨hkey, ?_⟩
  have h8 := (hc.same 8 (by omega)).trans (hw.front.1.get (j := 8) rfl)
  have h9 := (hc.same 9 (by omega)).trans (hw.front.1.get (j := 9) rfl)
  have htag : e₁.2.tag = .bytes :=
    Tag.byte_injective (Option.some.inj ((Tlv.tag_at hvalue).symm.trans h8))
  obtain ⟨l, c, hbytes⟩ : ∃ l c, e₁.2 = .bytes l c := by
    cases h : e₁.2 <;> simp_all [Tlv.tag]
  rw [hbytes] at hvalue hstop hok
  rw [Tlv.bytesOf, At.cons_iff, At.append_iff] at hvalue
  have hone := Leb.bytes_at hvalue.2.1 h9 (by decide)
  have hlen : 32 = c.length :=
    Option.some.inj ((u64Varint_of_byte hone (by decide)).symm.trans hok)
  simp only [Tlv.bytesOf, List.length_cons, List.length_append, List.length_nil, hone,
    ← hlen] at hstop
  refine ⟨⟨l, c, hbytes, ?_⟩, hstop⟩
  -- the same bytes would leave the changed one as it was
  rintro rfl
  have hc10 := hvalue.2.2
  rw [hone] at hc10
  obtain ⟨j, rfl⟩ : ∃ j, i = 10 + j := ⟨i - 10, by omega⟩
  have hj := List.getElem?_eq_getElem (l := c) (i := j) (by omega)
  exact hc.ne ((hc10.get hj).trans (hw.front.2.get hj).symm)

/-- From offset 42 on, a changed byte leaves the first entry, and the second is not that of a seed
or of the version. -/
theorem Taken.second_other (ht : Taken b e₁ e₂ e₃ e₄ a₂ a₃ a₄) (hw : Laid w seed hash now)
    (hc : Changed w b i) (hi : 42 ≤ i) (hkey : e₁.1 = Key.ofString "seed") (ha : a₂ = 42) :
    e₂.1.text ≠ "seed" ∧ e₂.1.text ≠ "format_version" := by
  subst ha
  obtain ⟨htag, hlen, hword⟩ := keyAt_iff.1 ht.second.key
  have hok := (ht.ok e₂ (by simp)).1
  have hne : i ≠ 42 := by
    rintro rfl
    exact hc.ne (htag.trans (hw.middle.1.get (j := 0) rfl).symm)
  have hversion : utf8 "format_version" = 0x66 :: (utf8 "format_version").tail := by
    decide
  have hlens : (utf8 "seed").length = 4 ∧ (utf8 "format_version").length = 14 := by
    decide
  by_cases h43 : i = 43
  · subst h43
    have h44 : b[42 + 1 + 1]? = some 0x73 :=
      (hc.same 44 (by decide)).trans (hw.middle.1.get (j := 2) rfl)
    have h45 : b[42 + 1 + 2]? = some 0x65 :=
      (hc.same 45 (by decide)).trans (hw.middle.1.get (j := 3) rfl)
    obtain ⟨x, hx⟩ : ∃ x, b[42 + 1]? = some x :=
      ⟨_, hlen.get (List.getElem?_eq_getElem e₂.1.len.isLeb.length_pos)⟩
    rcases Leb.bytes_two_at hlen hx h44 (by decide) with hone | htwo
    · have hlt := (Leb.lt_iff_at hlen e₂.1.len.isLeb.length_pos hx).2 (by rw [hone]; rfl)
      have htext := Option.some.inj (hok.symm.trans (u64Varint_of_byte hone hlt))
      rw [hone] at hword
      constructor <;> intro h <;> rw [h] at htext hword
      · -- the first key once more
        obtain rfl : x = 4 := UInt8.toNat_inj.1 (htext.symm.trans hlens.1)
        have hsame : keyBytes e₂.1 = keyBytes e₁.1 := by
          rw [hkey, keyBytes_seed, keyBytes, hone, h, utf8_seed]
          rfl
        have hascend := (List.pairwise_cons.1 ht.ascend).1 e₂ (by simp)
        rw [hsame] at hascend
        exact lt_irrefl _ hascend
      · rw [hversion] at hword
        exact absurd (Option.some.inj (h44.symm.trans hword.getElem?)) (by decide)
    · rw [htwo] at hword
      constructor <;> intro h <;> rw [h] at hword
      · rw [utf8_seed] at hword
        exact absurd (Option.some.inj (h45.symm.trans hword.getElem?)) (by decide)
      · rw [hversion] at hword
        exact absurd (Option.some.inj (h45.symm.trans hword.getElem?)) (by decide)
  · have h11 := (hc.same 43 (by omega)).trans (hw.middle.1.get (j := 1) rfl)
    have htext : (utf8 e₂.1.text).length = 11 := (hok.length_at ht.second.key h11 (by decide)).2
    constructor <;> intro h <;> rw [h] at htext <;> omega

/-- The last entry is not that of a seed: the thirty-two bytes at the end are preceded by zeros, of
which a length and a tag would replace two. -/
theorem Taken.fourth_not_seed (ht : Taken b e₁ e₂ e₃ e₄ a₂ a₃ a₄) (hw : Laid w seed hash now)
    (hc : Changed w b i) : ¬ IsSeed e₄ found := by
  rintro ⟨-, ⟨l, hl⟩, hlen⟩
  have hvalue := ht.fourth.value
  have hstop := ht.fourth.stop_eq
  have hok := (ht.ok e₄ (by simp)).2
  generalize a₄ + (keyBytes e₄.1).length = v at hvalue hstop
  rw [hl] at hvalue hstop hok
  simp only [Tlv.Ok, hlen] at hok
  rw [Tlv.bytesOf, At.cons_iff, At.append_iff] at hvalue
  rw [Tlv.bytesOf, List.length_cons, List.length_append, hlen] at hstop
  obtain ⟨htag, hat, -⟩ := hvalue
  have hpos := l.isLeb.length_pos
  have hzero : ∀ j, 19 ≤ j → j < 22 → 89 + j ≠ i → b[89 + j]? = some 0 := by
    intro j h1 h2 hne
    have hj : ∀ j < 22, 19 ≤ j → backBytes[j]? = some 0 := by decide
    exact (hc.same _ hne).trans (hw.back.get (hj j h2 h1))
  -- no byte of the tag and of the length but its last is zero
  have hnz : ∀ p, v ≤ p → p < 110 → b[p]? ≠ some 0 := by
    intro p hp hp' h0
    rcases Nat.eq_or_lt_of_le hp with rfl | hp
    · exact absurd (Option.some.inj (htag.symm.trans h0)) (by decide)
    · obtain ⟨j, rfl⟩ : ∃ j, p = v + 1 + j := ⟨p - (v + 1), by omega⟩
      have := (Leb.lt_iff_at hat (by omega) h0).1 (by decide)
      omega
  have h109 : i = 109 := by
    by_contra hne
    exact hnz 109 (by omega) (by omega) (hzero 20 (by omega) (by omega) (by omega))
  rcases Nat.lt_or_ge 1 l.bytes.length with hlong | hshort
  · exact hnz 108 (by omega) (by omega) (hzero 19 (by omega) (by omega) (by omega))
  · have h110 : b[v + 1]? = some 0 := by
      rw [show v + 1 = 89 + 21 by omega]
      exact hzero 21 (by omega) (by omega) (by omega)
    have hone := Leb.bytes_at hat h110 (by decide)
    rw [u64Varint_of_byte hone (by decide)] at hok
    exact absurd (Option.some.inj hok) (by decide)

/-- If the last entry is a number, its tag is the byte that was changed. -/
theorem Taken.fourth_uint (ht : Taken b e₁ e₂ e₃ e₄ a₂ a₃ a₄) (hw : Laid w seed hash now)
    (hc : Changed w b i) {u : UInt64} (hu : e₄.2 = .uint u) : i = 134 := by
  have hvalue := Tlv.tag_at ht.fourth.value
  have hstop := ht.fourth.stop_eq
  have hold := Tlv.tag_at hw.created.value
  rw [createdEntry, keyBytes_createdAt] at hold
  rw [hu] at hvalue hstop
  rw [Tlv.bytesOf, List.length_cons, u64Be_length] at hstop
  by_contra hne
  rw [show a₄ + (keyBytes e₄.1).length = 134 by omega, hc.same _ (by omega), hold] at hvalue
  exact absurd (Option.some.inj hvalue) (show (0x40 : UInt8) ≠ 0x11 by decide)

theorem Taken.third_kept (ht : Taken b e₁ e₂ e₃ e₄ a₂ a₃ a₄) (hw : Laid w seed hash now)
    (hc : Changed w b i) (ha : a₂ = 42) (hi : 114 ≤ i) : e₃ = versionEntry 1 := by
  subst ha
  have hold : At w 42 (bytesOfEntries [hashEntry hash, versionEntry 1]) :=
    hw.hash.cons (hw.version.cons At.nil)
  have hnew : At b 42 (bytesOfEntries [e₂, e₃]) := ht.second.cons (ht.third.cons At.nil)
  have hok : OkEntries u64Varint [e₂, e₃] :=
    okEntries_iff.2 fun e he => ht.ok e (by
      simp only [List.mem_cons, List.not_mem_nil, or_false] at he ⊢
      exact .inr (he.elim .inl fun h => .inr (.inl h)))
  have hok' : OkEntries u64Varint [hashEntry hash, versionEntry 1] :=
    ⟨hw.ok.2.2.1, hw.ok.2.2.2.1, hw.ok.2.2.2.2.1, trivial, trivial⟩
  have h2 := hw.hash.stop_eq
  have h3 := hw.version.stop_eq
  have hkept := hc.kept hold (by
    simp only [bytesOfEntries, List.length_append, List.length_nil]
    omega)
  have heq := entries_unique_at hok hok' rfl hnew hkept
  simp only [List.cons.injEq] at heq
  exact heq.2.1

/-- From offset 42 on, a changed byte leaves no seed but the old one where there is a version. -/
theorem Taken.behind (ht : Taken b e₁ e₂ e₃ e₄ a₂ a₃ a₄) (hw : Laid w seed hash now)
    (hc : Changed w b i) (hi : 42 ≤ i)
    (hversion : ∃ e ∈ [e₁, e₂, e₃, e₄], e.1.text = "format_version" ∧ e.2 = .uint 1)
    {e : Key × Tlv} (he : e ∈ [e₁, e₂, e₃, e₄]) (hseed : IsSeed e found) : found = seed := by
  have hkey := ht.key_kept hw hc (by omega)
  have hlen : (keyBytes e₁.1).length = 6 := by
    rw [hkey, keyBytes_seed]
    rfl
  obtain ⟨hvalue, ha⟩ := ht.seed_kept hw hc hlen (.inr hi)
  obtain ⟨h2s, h2v⟩ := ht.second_other hw hc hi hkey ha
  have h1 : e₁.1.text = "seed" := congrArg Key.text hkey
  obtain ⟨e', he', htext', hval'⟩ := hversion
  simp only [List.mem_cons, List.not_mem_nil, or_false] at he he'
  rcases he with rfl | rfl | rfl | rfl
  · obtain ⟨-, ⟨l, hl⟩, -⟩ := hseed
    rw [hvalue] at hl
    exact (Tlv.bytes.inj hl).2.symm
  · exact absurd hseed.1 h2s
  · rcases he' with rfl | rfl | rfl | rfl
    · exact absurd (h1.symm.trans htext') (by decide)
    · exact absurd htext' h2v
    · exact absurd (hseed.1.symm.trans htext') (by decide)
    · have h134 := ht.fourth_uint hw hc hval'
      have h3 := ht.third_kept hw hc ha (by omega)
      have htext := hseed.1
      rw [h3] at htext
      exact absurd htext (by decide)
  · exact absurd hseed (ht.fourth_not_seed hw hc)

/-! ### What the loader makes of it -/

/-- No two seeds have the same hash. -/
def SeedsApart (blake3 : Bytes → NodeHash) : Prop :=
  ∀ s s' : Hash32, blake3 s.bytes = blake3 s'.bytes → s = s'

/-- The changed byte is the length of the first key, or the tag or the length of its value, and the
letters of that key stand in the seed or in its hash. -/
def SecondKey (blake3 : Bytes → NodeHash) (seed : Hash32) (i : Nat) : Prop :=
  (i = 3 ∨ i = 8 ∨ i = 9) ∧ (HoldsSeed seed.bytes ∨ HoldsSeed (blake3 seed.bytes).bytes)

/-- The hash that stands beside a changed seed is that of the old one. -/
theorem Taken.seed_refused {seed found : Hash32} (ht : Taken b e₁ e₂ e₃ e₄ a₂ a₃ a₄)
    (hw : Laid w seed.bytes (blake3 seed.bytes).bytes now) (hc : Changed w b i)
    (hinj : SeedsApart blake3) (ha : Accepted blake3 b found n [e₁, e₂, e₃, e₄]) (hi : 10 ≤ i)
    (hi' : i < 42) : False := by
  obtain ⟨hkey, ⟨l, c, hval, hne⟩, ha₂⟩ := ht.seed_changed hw hc hi hi'
  obtain ⟨rfl, rfl, rfl⟩ := ht.rest_kept hw hc ha₂ hi'
  have hhash := ha.hash (blake3 seed.bytes).bytes (by
    rw [OrdMap.get_ofList utf8_injective]
    simp [valueEntries, hashEntry, versionEntry, createdEntry, Key.ofString, OrdMap.get_cons,
      Tlv.value])
  have hfound : found = seed := (hinj _ _ (Hash32.ext hhash)).symm
  obtain ⟨e, he, htext, l', hval'⟩ := ha.seed
  rcases List.mem_cons.1 he with rfl | he
  · rw [hval] at hval'
    exact hne ((Tlv.bytes.inj hval').2.trans (congrArg Hash32.bytes hfound))
  · exact text_ne_seed _ _ (by simpa using he) htext

/-- No seed but the old one is taken from the changed file, unless a second key stands in it. -/
theorem seed_of_changed {seed found : Hash32} (hinj : SeedsApart blake3)
    (hw : Laid w seed.bytes (blake3 seed.bytes).bytes now) (hc : Changed w b i)
    (h : seedOfBytes blake3 b = .ok (some found)) : found = seed ∨ SecondKey blake3 seed i := by
  obtain ⟨n, entries, ha⟩ := accepted_of_seedOfBytes h
  have hh := headed_of_spells ha.spells
  have h0 := hh.ne_zero hw hc
  have h1 := hh.ne_one hw hc
  obtain ⟨e₁, e₂, e₃, e₄, a₂, a₃, a₄, rfl, ht⟩ := hh.taken hw hc (by omega)
  obtain ⟨e, he, htext, hval⟩ := ha.seed
  have hseed : IsSeed e found.bytes := ⟨htext, hval, found.length_eq⟩
  have hsecond (hfirst : ¬ IsSeed e₁ found.bytes ∧ 9 ≤ a₂) (hi : i = 3 ∨ i = 8 ∨ i = 9) :
      SecondKey blake3 seed i := by
    refine ⟨hi, ht.holdsSeed hw seed.length_eq (blake3 seed.bytes).length_eq
      (fun p hp => hc.same p (by omega)) hfirst.2 ?_ hseed⟩
    rcases List.mem_cons.1 he with rfl | he
    · exact absurd hseed hfirst.1
    · exact he
  rcases Nat.lt_or_ge i 10 with hlt | hge
  · by_cases h3 : i = 3
    · subst h3
      exact .inr (hsecond (ht.first_three hw hc) (.inl rfl))
    by_cases h8 : i = 8
    · subst h8
      exact .inr (hsecond (ht.first_eight hw hc) (.inr (.inl rfl)))
    by_cases h9 : i = 9
    · subst h9
      exact .inr (hsecond (ht.first_nine hw hc) (.inr (.inr rfl)))
    by_cases h2 : i = 2
    · subst h2
      have htag := (keyAt_iff.1 ht.first.key).1
      exact absurd (htag.trans (hw.front.1.get (j := 2) rfl).symm) hc.ne
    exact absurd hseed (ht.letter_changed hw hc (by omega) (by omega) he)
  · rcases Nat.lt_or_ge i 42 with hlt | hge'
    · exact (ht.seed_refused hw hc hinj ha hge hlt).elim
    · exact .inl (Hash32.ext (ht.behind hw hc hge' ha.version he hseed))

end Myco.Substrate
