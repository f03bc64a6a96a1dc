import Myco.Canonical.Length
import Myco.Schema.Dag

/-!
# State files at rest

`at_rest_seal.rs` and `dpapi.rs`: the envelope that a state file is sealed in, with a body that is
plain or, on Windows, wrapped by the operating system. What has no envelope is read as it is.

`unseal_seal`: what was sealed is unsealed. A blob of the Windows API has a length of 32 bits, so
there it takes a plaintext of less than that.
-/

namespace Myco.Substrate

open Myco.Lib Myco.Canonical

/-! ### Sealing -/

/-- `CryptProtectData` and `CryptUnprotectData` for one Windows user: a ciphertext, which also
depends on a salt, is turned back into its plaintext. The lengths are `DWORD`s. -/
structure CryptApi where
  cryptProtectData : Bytes → Bytes → Except UInt32 Bytes
  cryptUnprotectData : Bytes → Except UInt32 Bytes
  length_lt {salt plaintext ciphertext : Bytes} :
    cryptProtectData salt plaintext = .ok ciphertext → ciphertext.length < 2 ^ 32
  unprotect_protect {salt plaintext ciphertext : Bytes} :
    cryptProtectData salt plaintext = .ok ciphertext →
      cryptUnprotectData ciphertext = .ok plaintext
  protects {plaintext : Bytes} : plaintext.length < 2 ^ 16 →
    ∃ salt b ciphertext, cryptProtectData salt plaintext = .ok (b :: ciphertext)

/-- A header before the plaintext. -/
instance : Inhabited CryptApi where
  default :=
    { cryptProtectData := fun _ p => if p.length < 2 ^ 32 - 1 then .ok (1 :: p) else .error 87
      cryptUnprotectData := fun c => .ok c.tail
      length_lt := by
        intro salt p c h
        split at h
        · cases h
          rw [List.length_cons]
          omega
        · cases h
      unprotect_protect := by
        intro salt p c h
        split at h
        · cases h
          rfl
        · cases h
      protects := fun {p} h => ⟨[], 1, p, if_pos (by omega)⟩ }

/-- Windows, or another host. -/
abbrev Platform := Option CryptApi

inductive DpapiError where
  | winApi (operation : String) (code : UInt32)
  | emptyBlob (operation : String)

/-- The blob at the same address with the length `len() as u32`. -/
def asDword (b : Bytes) : Bytes := b.take (b.length % 2 ^ 32)

/-- What both calls do with their output. -/
def outputBlob (operation : String) : Except UInt32 Bytes → Except DpapiError Bytes
  | .error code => .error (.winApi operation code)
  | .ok [] => .error (.emptyBlob operation)
  | .ok output => .ok output

def protect (api : CryptApi) (salt plaintext : Bytes) : Except DpapiError Bytes :=
  outputBlob "protect" (api.cryptProtectData salt (asDword plaintext))

def unprotect (api : CryptApi) (ciphertext : Bytes) : Except DpapiError Bytes :=
  outputBlob "unprotect" (api.cryptUnprotectData (asDword ciphertext))

inductive AtRestError where
  | protect (e : DpapiError)
  | envelopeEncode (e : CanonicalBytesError)
  | envelopeDecode (e : CanonicalBytesError)
  | payloadNotMap
  | missingFormatVersion
  | missingBody
  | unprotect (e : DpapiError)
  | wrappedElsewhere (bodyBytes : Nat)
  | unknownFormatVersion (version : UInt64)

/-- `MASR`. -/
def envelopeMagic : Bytes := [0x4d, 0x41, 0x53, 0x52]

def envelopeFormatV1Plain : UInt64 := 1

def envelopeFormatV2Dpapi : UInt64 := 2

def envelopeValue (formatVersion : UInt64) (body : Bytes) : Value :=
  mapOf [("at_rest_format_version", .uint formatVersion), ("body", .bytes body)]

def sealForAtRest (platform : Platform) (salt plaintext : Bytes) :
    Except (Fault AtRestError) Bytes := do
  let (formatVersion, body) ← match platform with
    | some api =>
      match protect api salt plaintext with
      | .ok wrapped => .ok (envelopeFormatV2Dpapi, wrapped)
      | .error e => .error (.err (.protect e))
    | none => .ok (envelopeFormatV1Plain, plaintext)
  let payload ← (encode (envelopeValue formatVersion body)).mapError fun e =>
    .err (.envelopeEncode e)
  let out := envelopeMagic ++ payload
  -- no `Vec` is longer, and a process that asks for more memory than there is aborts
  if out.length ≤ isizeMax then .ok out else .error .panic

/-- The format version and the body of an envelope. -/
def openEnvelope (payload : Bytes) : Except (Fault AtRestError) (UInt64 × Bytes) := do
  let map ← match ← (decode payload).mapError (.map .envelopeDecode) with
    | .map m => .ok m
    | _ => .error (.err .payloadNotMap)
  let formatVersion ← match OrdMap.get "at_rest_format_version" map with
    | some (.uint v) => .ok v
    | _ => .error (.err .missingFormatVersion)
  let body ← match OrdMap.get "body" map with
    | some (.bytes b) => .ok b
    | _ => .error (.err .missingBody)
  .ok (formatVersion, body)

def unsealBody (platform : Platform) (formatVersion : UInt64) (body : Bytes) :
    Except (Fault AtRestError) Bytes :=
  if formatVersion = envelopeFormatV1Plain then .ok body
  else if formatVersion = envelopeFormatV2Dpapi then
    match platform with
    | some api => (unprotect api body).mapError fun e => .err (.unprotect e)
    | none => .error (.err (.wrappedElsewhere body.length))
  else .error (.err (.unknownFormatVersion formatVersion))

def unsealFromAtRest (platform : Platform) (bytes : Bytes) : Except (Fault AtRestError) Bytes :=
  if bytes.length < envelopeMagic.length ∨ bytes.take envelopeMagic.length ≠ envelopeMagic then
    .ok bytes
  else do
    let (formatVersion, body) ← openEnvelope (bytes.drop envelopeMagic.length)
    unsealBody platform formatVersion body

/-! ### What is sealed is unsealed -/

variable {platform : Platform}

theorem envelopeValue_wf {formatVersion : UInt64} {body : Bytes} :
    (envelopeValue formatVersion body).WF := by
  refine mapOf_wf ?_
  simp [Value.WF]

theorem openEnvelope_encode {formatVersion : UInt64} {body payload : Bytes}
    (h : encode (envelopeValue formatVersion body) = .ok payload)
    (hmem : payload.length ≤ isizeMax) : openEnvelope payload = .ok (formatVersion, body) := by
  simp [openEnvelope, decode_of_encode envelopeValue_wf h hmem, envelopeValue, mapOf, get_mapOf,
    OrdMap.get_cons, Except.mapError]

theorem envelopeValue_size {formatVersion : UInt64} {body : Bytes} :
    body.length ≤ (envelopeValue formatVersion body).size ∧
      (envelopeValue formatVersion body).size ≤ body.length + 128 := by
  have h1 := lenVarint_length_le (n := 2)
  have h2 := lenVarint_length_le (n := (utf8 "at_rest_format_version").length)
  have h3 := lenVarint_length_le (n := (utf8 "body").length)
  have h4 := lenVarint_length_le (n := body.length)
  have h5 : (utf8 "at_rest_format_version").length = 22 := by decide
  have h6 : (utf8 "body").length = 4 := by decide
  rw [envelopeValue, size_mapOf (by simp)]
  simp [keySize, prefixedSize, Value.size]
  omega

theorem asDword_of_lt {b : Bytes} (h : b.length < 2 ^ 32) : asDword b = b := by
  rw [asDword, Nat.mod_eq_of_lt h, List.take_length]

theorem outputBlob_eq_ok {operation : String} {x : Except UInt32 Bytes} {b : Bytes} :
    outputBlob operation x = .ok b ↔ x = .ok b ∧ b ≠ [] := by
  cases x with
  | error code => simp [outputBlob]
  | ok output =>
    cases output with
    | nil => simp [outputBlob, eq_comm]
    | cons b bs => simp +contextual [outputBlob, ← eq_comm]

theorem unprotect_protect {api : CryptApi} {salt plaintext wrapped : Bytes}
    (h : protect api salt plaintext = .ok wrapped) (hlen : plaintext.length < 2 ^ 32)
    (hne : plaintext ≠ []) : unprotect api wrapped = .ok plaintext := by
  obtain ⟨h1, -⟩ := outputBlob_eq_ok.1 h
  rw [asDword_of_lt hlen] at h1
  rw [unprotect, asDword_of_lt (api.length_lt h1)]
  exact outputBlob_eq_ok.2 ⟨api.unprotect_protect h1, hne⟩

/-- What a sealed file is made of. -/
theorem seal_eq_ok {salt plaintext out : Bytes} :
    sealForAtRest platform salt plaintext = .ok out ↔ ∃ formatVersion body payload,
      (platform = none ∧ formatVersion = envelopeFormatV1Plain ∧ body = plaintext ∨
        ∃ api, platform = some api ∧ formatVersion = envelopeFormatV2Dpapi ∧
          protect api salt plaintext = .ok body) ∧
      encode (envelopeValue formatVersion body) = .ok payload ∧
      out = envelopeMagic ++ payload ∧ out.length ≤ isizeMax := by
  have htail : ∀ formatVersion body, (do
      let payload ← (encode (envelopeValue formatVersion body)).mapError fun e =>
        (.err (.envelopeEncode e) : Fault AtRestError)
      let out := envelopeMagic ++ payload
      if out.length ≤ isizeMax then .ok out else .error .panic) = .ok out ↔
        ∃ payload, encode (envelopeValue formatVersion body) = .ok payload ∧
          out = envelopeMagic ++ payload ∧ out.length ≤ isizeMax := by
    intro formatVersion body
    rw [bind_eq_ok]
    refine exists_congr fun payload => ?_
    rw [mapError_eq_ok]
    refine and_congr_right fun _ => ?_
    simp only
    split
    · rename_i hle
      constructor
      · intro h
        cases h
        exact ⟨rfl, hle⟩
      · rintro ⟨rfl, -⟩
        rfl
    · rename_i hle
      constructor
      · intro h
        cases h
      · rintro ⟨rfl, h⟩
        exact absurd h hle
  unfold sealForAtRest
  cases platform with
  | none =>
    simp only [ok_bind, htail]
    constructor
    · rintro ⟨payload, h⟩
      exact ⟨_, _, payload, .inl ⟨trivial, rfl, rfl⟩, h⟩
    · rintro ⟨_, _, payload, ⟨-, rfl, rfl⟩ | ⟨_, h, -⟩, h'⟩
      · exact ⟨payload, h'⟩
      · cases h
  | some api =>
    cases hp : protect api salt plaintext with
    | error e => simp [hp]
    | ok wrapped =>
      simp only [hp, ok_bind, htail]
      constructor
      · rintro ⟨payload, h⟩
        exact ⟨_, _, payload, .inr ⟨api, rfl, rfl, hp⟩, h⟩
      · rintro ⟨_, _, payload, ⟨h, -⟩ | ⟨_, h, rfl, hb⟩, h'⟩
        · cases h
        · cases h
          cases Except.ok.inj (hp.symm.trans hb)
          exact ⟨payload, h'⟩

theorem unseal_seal {salt plaintext out : Bytes}
    (h : sealForAtRest platform salt plaintext = .ok out)
    (hlen : platform.isSome → plaintext.length < 2 ^ 32) (hne : plaintext ≠ []) :
    unsealFromAtRest platform out = .ok plaintext := by
  obtain ⟨formatVersion, body, payload, hbody, henc, rfl, hmem⟩ := seal_eq_ok.1 h
  have hpayload : payload.length ≤ isizeMax := by
    rw [List.length_append] at hmem
    omega
  have hmagic : ¬((envelopeMagic ++ payload).length < envelopeMagic.length ∨
      (envelopeMagic ++ payload).take envelopeMagic.length ≠ envelopeMagic) := by
    simp [List.length_append]
  rw [unsealFromAtRest, if_neg hmagic, List.drop_left, openEnvelope_encode henc hpayload, ok_bind]
  rcases hbody with ⟨rfl, rfl, rfl⟩ | ⟨api, rfl, rfl, hp⟩
  · exact if_pos rfl
  · have hplain : envelopeFormatV2Dpapi ≠ envelopeFormatV1Plain := by decide
    simp [unsealBody, hplain, unprotect_protect hp (hlen rfl) hne, Except.mapError]

/-- A blob that the API can return is shorter than memory, and so is the plain one in an envelope
that is. -/
theorem length_le_of_seal {salt plaintext out : Bytes}
    (h : sealForAtRest platform salt plaintext = .ok out)
    (hlen : platform.isSome → plaintext.length < 2 ^ 32) : plaintext.length ≤ isizeMax := by
  obtain ⟨formatVersion, body, payload, hbody, henc, rfl, hmem⟩ := seal_eq_ok.1 h
  rcases hbody with ⟨-, -, rfl⟩ | ⟨api, rfl, -, -⟩
  · have hsize := encode_length henc
    have hle := (@envelopeValue_size formatVersion body).1
    rw [List.length_append] at hmem
    omega
  · have := hlen rfl
    simp only [isizeMax]
    omega

/-- There is a salt with which a short plaintext is sealed. -/
theorem exists_seal {plaintext : Bytes} (h : plaintext.length < 2 ^ 16) :
    ∃ salt out, sealForAtRest platform salt plaintext = .ok out := by
  obtain ⟨salt, formatVersion, body, hbody, hlen⟩ : ∃ salt formatVersion body,
      (platform = none ∧ formatVersion = envelopeFormatV1Plain ∧ body = plaintext ∨
        ∃ api, platform = some api ∧ formatVersion = envelopeFormatV2Dpapi ∧
          protect api salt plaintext = .ok body) ∧ body.length < 2 ^ 32 := by
    cases platform with
    | none => exact ⟨[], _, _, .inl ⟨rfl, rfl, rfl⟩, by omega⟩
    | some api =>
      obtain ⟨salt, b, ciphertext, hc⟩ := api.protects h
      have hp : protect api salt plaintext = .ok (b :: ciphertext) := by
        rw [protect, asDword_of_lt (by omega)]
        exact outputBlob_eq_ok.2 ⟨hc, List.cons_ne_nil _ _⟩
      exact ⟨salt, _, _, .inr ⟨api, rfl, rfl, hp⟩, api.length_lt hc⟩
  obtain ⟨payload, hpayload⟩ := encode_total (envelopeValue formatVersion body)
  refine ⟨salt, _, seal_eq_ok.2 ⟨_, _, payload, hbody, hpayload, rfl, ?_⟩⟩
  have hsize := (@envelopeValue_size formatVersion body).2
  have hmagic : envelopeMagic.length = 4 := rfl
  rw [List.length_append, encode_length hpayload, hmagic]
  simp only [isizeMax]
  omega

end Myco.Substrate
