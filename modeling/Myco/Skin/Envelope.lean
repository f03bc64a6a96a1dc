import Myco.Canonical.Size

/-!
# The envelope of a delta

`validate_envelope` of `kernel/skin/src/envelope.rs`, with the digest that an envelope carries: a
MAC under the token of the session, over the canonical bytes of its other fields and its payload
(`canonical_envelope_fields`, `compute_envelope_digest`). A process that would need a `Vec` longer
than `isize::MAX` bytes stops, which is `none` here.

The fields are a canonical map, which says where it ends, so what the digest is computed over
determines the envelope (`signed_inj`) once its shape is one that a parser makes. Hence
`accepted_was_sent`: whoever has only the digests of envelopes that were sent can have no others
accepted than these, unless by a collision of the MAC.
-/

namespace Myco.Canonical

open Myco.Lib

/-- A value that fits in memory says where it ends. -/
theorem encode_append_inj {v w : Value} {bs cs r s : Bytes} (hv : v.WF) (hw : w.WF)
    (hbs : encode v = .ok bs) (hcs : encode w = .ok cs) (lbs : bs.length ≤ isizeMax)
    (lcs : cs.length ≤ isizeMax) (h : bs ++ r = cs ++ s) : v = w ∧ r = s := by
  have hbuf : ∀ {b : Bytes}, b.length ≤ isizeMax → b.length < 2 ^ 64 := by
    intro b hb
    simp only [isizeMax] at hb
    omega
  obtain ⟨t, hspells, ht⟩ := (decode_iff (hbuf lbs)).1 (decode_of_encode hv hbs lbs)
  obtain ⟨t', hspells', ht'⟩ := (decode_iff (hbuf lcs)).1 (decode_of_encode hw hcs lcs)
  rw [← hspells.1, ← hspells'.1] at h
  obtain ⟨rfl, hrest⟩ := t.unique hspells.2 hspells'.2 h
  exact ⟨ht.trans ht'.symm, hrest⟩

end Myco.Canonical

namespace Myco.Skin

open Myco.Lib Myco.Canonical

/-! ### HMAC -/

inductive CryptoError where
  /-- `HMAC key cannot be empty` -/
  | hmacEmptyKey
deriving DecidableEq

/-- HMAC-SHA256, of a key and a message. -/
abbrev Mac := Bytes → Bytes → Hash32

def hmacSign (mac : Mac) (key canonicalBytes : Bytes) : Except CryptoError Hash32 :=
  if key = [] then .error .hmacEmptyKey else .ok (mac key canonicalBytes)

abbrev OperatorToken := Hash32

theorem hmacSign_token {mac : Mac} {token : OperatorToken} {b : Bytes} :
    hmacSign mac token.bytes b = .ok (mac token.bytes b) := by
  refine if_neg fun h => ?_
  have := token.length_eq
  rw [h] at this
  cases this

/-! ### Payload shapes -/

inductive PayloadShape where
  | text
  | fileRef
  | structuredYaml
  | binaryRef
  | other (s : String)
deriving DecidableEq

namespace PayloadShape

def asStr : PayloadShape → String
  | .text => "text"
  | .fileRef => "file_ref"
  | .structuredYaml => "structured_yaml"
  | .binaryRef => "binary_ref"
  | .other s => s

def parse (s : String) : PayloadShape :=
  if s = "text" then .text
  else if s = "file_ref" then .fileRef
  else if s = "structured_yaml" then .structuredYaml
  else if s = "binary_ref" then .binaryRef
  else .other s

def isRecognized : PayloadShape → Bool
  | .other _ => false
  | _ => true

/-- A shape that `parse` makes: no recognised one is spelt as an `other`. -/
def Parsed (p : PayloadShape) : Prop := parse p.asStr = p

theorem parsed_of_isRecognized {p : PayloadShape} (h : p.isRecognized = true) : p.Parsed := by
  cases p with
  | other s => cases h
  | _ => rfl

theorem parsed_parse (s : String) : (parse s).Parsed := by
  unfold Parsed
  suffices h : (parse s).asStr = s by rw [h]
  unfold parse
  split
  · rename_i h; exact h.symm
  · split
    · rename_i h; exact h.symm
    · split
      · rename_i h; exact h.symm
      · split
        · rename_i h; exact h.symm
        · rfl

theorem asStr_inj {p q : PayloadShape} (hp : p.Parsed) (hq : q.Parsed) (h : p.asStr = q.asStr) :
    p = q := by
  rw [← hp, ← hq, h]

end PayloadShape

/-! ### Envelopes -/

structure Envelope where
  envelopeVersion : UInt32
  senderToken : OperatorToken
  payloadShape : PayloadShape
  causalParentRef : Option Bytes
  sizeBytes : UInt64
  contentTypeHint : Option String
  submittedAtCycle : UInt64
  envelopeDigest : Hash32
  payload : Bytes
deriving DecidableEq

inductive EnvelopeError where
  /-- `envelope_malformed: {0}` -/
  | malformed (what : String)
  /-- `envelope_malformed: sender_token mismatch` -/
  | senderTokenMismatch
  /-- `envelope_malformed: unknown payload_shape: {0}` -/
  | unknownPayloadShape (shape : String)
  /-- `envelope_malformed: size_bytes {got} exceeds max {max}` -/
  | sizeTooLarge (got max : UInt64)
  /-- `envelope_malformed: size_bytes {claimed} does not match payload length {actual}` -/
  | sizeMismatch (claimed actual : UInt64)
  /-- `envelope_malformed: envelope_digest invalid` -/
  | digestInvalid
  /-- `envelope_replay: submitted_at_cycle {submitted} not within window of current cycle
  {current}` -/
  | staleSubmittedCycle (submitted current : UInt64)
  | canonicalBytes (e : CanonicalBytesError)
  | crypto (e : CryptoError)

structure EnvelopeValidationConfig where
  acceptedVersions : List UInt32
  maxSizeBytes : UInt64
  freshnessWindowCycles : UInt64

def EnvelopeValidationConfig.default : EnvelopeValidationConfig := ⟨[1], 100 * 1024 * 1024, 60⟩

/-- `Value::Null` for what is not there. -/
def orNull {α : Type} (f : α → Value) : Option α → Value
  | some a => f a
  | none => .null

theorem orNull_inj {α : Type} {f : α → Value} (hf : Function.Injective f) (hnull : ∀ a, f a ≠ .null)
    {x y : Option α} (h : orNull f x = orNull f y) : x = y := by
  cases x with
  | none => cases y with
    | none => rfl
    | some b => exact absurd h.symm (hnull b)
  | some a => cases y with
    | none => exact absurd h (hnull a)
    | some b => exact congrArg some (hf h)

namespace Envelope

def entries (env : Envelope) : List (String × Value) :=
  [("envelope_version", .uint env.envelopeVersion.toUInt64),
    ("sender_token", .bytes env.senderToken.bytes),
    ("payload_shape", .string env.payloadShape.asStr),
    ("causal_parent_ref", orNull .bytes env.causalParentRef),
    ("size_bytes", .uint env.sizeBytes),
    ("content_type_hint", orNull .string env.contentTypeHint),
    ("submitted_at_cycle", .uint env.submittedAtCycle)]

end Envelope

def canonicalEnvelopeFields (env : Envelope) : Except EnvelopeError Bytes :=
  (encode (mapOf env.entries)).mapError .canonicalBytes

def computeEnvelopeDigest (mac : Mac) (env : Envelope) (operatorToken : OperatorToken) :
    Option (Except EnvelopeError Hash32) :=
  match canonicalEnvelopeFields env with
  | .error e => some (.error e)
  | .ok fields =>
    if (fields ++ env.payload).length ≤ isizeMax then
      some ((hmacSign mac operatorToken.bytes (fields ++ env.payload)).mapError .crypto)
    else none

def validateEnvelope (mac : Mac) (env : Envelope) (activeOperatorToken : OperatorToken)
    (currentCycle : UInt64) (config : EnvelopeValidationConfig) :
    Option (Except EnvelopeError Unit) :=
  if env.envelopeVersion ∉ config.acceptedVersions then
    some (.error (.malformed s!"unsupported envelope_version {env.envelopeVersion}"))
  else if env.senderToken ≠ activeOperatorToken then some (.error .senderTokenMismatch)
  else if ¬ env.payloadShape.isRecognized then
    some (.error (.unknownPayloadShape env.payloadShape.asStr))
  else if config.maxSizeBytes < env.sizeBytes then
    some (.error (.sizeTooLarge env.sizeBytes config.maxSizeBytes))
  else if env.sizeBytes ≠ UInt64.ofNat env.payload.length then
    some (.error (.sizeMismatch env.sizeBytes (UInt64.ofNat env.payload.length)))
  else if currentCycle < env.submittedAtCycle then
    some (.error (.staleSubmittedCycle env.submittedAtCycle currentCycle))
  else if config.freshnessWindowCycles.toNat <
      currentCycle.toNat - env.submittedAtCycle.toNat then
    some (.error (.staleSubmittedCycle env.submittedAtCycle currentCycle))
  else match computeEnvelopeDigest mac env activeOperatorToken with
    | none => none
    | some (.error e) => some (.error e)
    | some (.ok recomputed) =>
      if recomputed ≠ env.envelopeDigest then some (.error .digestInvalid) else some (.ok ())

/-! ### What the digest is computed over -/

namespace Envelope

/-- The message of the MAC. -/
def Signs (env : Envelope) (message : Bytes) : Prop :=
  ∃ fields, encode (mapOf env.entries) = .ok fields ∧ message = fields ++ env.payload ∧
    message.length ≤ isizeMax

theorem entries_wf {env : Envelope} : (mapOf env.entries).WF := by
  refine mapOf_wf fun e he => ?_
  obtain ⟨version, token, shape, parent, size, hint, cycle, digest, payload⟩ := env
  simp only [entries, List.mem_cons, List.not_mem_nil, or_false] at he
  rcases he with rfl | rfl | rfl | rfl | rfl | rfl | rfl
  · trivial
  · trivial
  · trivial
  · cases parent <;> trivial
  · trivial
  · cases hint <;> trivial
  · trivial

/-- The map tells all fields but the payload and the digest. -/
theorem fields_inj {a b : Envelope} (hshape : a.payloadShape.Parsed)
    (hshape' : b.payloadShape.Parsed) (h : mapOf a.entries = mapOf b.entries) :
    { a with payload := b.payload, envelopeDigest := b.envelopeDigest } = b := by
  have hget : ∀ k, OrdMap.get k a.entries.reverse = OrdMap.get k b.entries.reverse := fun k =>
    get_mapOf.symm.trans ((congrArg (OrdMap.get k) (Value.map.inj h)).trans get_mapOf)
  obtain ⟨version, token, shape, parent, size, hint, cycle, digest, payload⟩ := a
  obtain ⟨version', token', shape', parent', size', hint', cycle', digest', payload'⟩ := b
  have hversion : version = version' := by
    have := Value.uint.inj (Option.some.inj (hget "envelope_version"))
    exact UInt32.toNat_inj.1 (by simpa using congrArg UInt64.toNat this)
  have htoken : token = token' :=
    Hash32.ext (Value.bytes.inj (Option.some.inj (hget "sender_token")))
  have htexts := Value.string.inj (Option.some.inj (hget "payload_shape"))
  have hshapes : shape = shape' := PayloadShape.asStr_inj hshape hshape' htexts
  have hparent : parent = parent' :=
    orNull_inj (fun _ _ => Value.bytes.inj) (fun _ h => by cases h)
      (Option.some.inj (hget "causal_parent_ref"))
  have hsize : size = size' := Value.uint.inj (Option.some.inj (hget "size_bytes"))
  have hhint : hint = hint' :=
    orNull_inj (fun _ _ => Value.string.inj) (fun _ h => by cases h)
      (Option.some.inj (hget "content_type_hint"))
  have hcycle : cycle = cycle' := Value.uint.inj (Option.some.inj (hget "submitted_at_cycle"))
  subst hversion htoken hshapes hparent hsize hhint hcycle
  rfl

/-- Two envelopes with one message differ in their digests at most. -/
theorem signed_inj {a b : Envelope} {m : Bytes} (hshape : a.payloadShape.Parsed)
    (hshape' : b.payloadShape.Parsed) (ha : a.Signs m) (hb : b.Signs m) :
    { a with envelopeDigest := b.envelopeDigest } = b := by
  obtain ⟨f, hf, hm, hl⟩ := ha
  obtain ⟨g, hg, hm', -⟩ := hb
  have hlf : f.length ≤ isizeMax := by
    rw [hm, List.length_append] at hl
    omega
  have hlg : g.length ≤ isizeMax := by
    rw [hm', List.length_append] at hl
    omega
  obtain ⟨hfields, hpayload⟩ :=
    encode_append_inj entries_wf entries_wf hf hg hlf hlg (hm.symm.trans hm')
  have := fields_inj hshape hshape' hfields
  rwa [← hpayload] at this

end Envelope

theorem computeEnvelopeDigest_eq {mac : Mac} {env : Envelope} {token : OperatorToken} {d : Hash32} :
    computeEnvelopeDigest mac env token = some (.ok d) ↔
      ∃ m, env.Signs m ∧ d = mac token.bytes m := by
  obtain ⟨fields, hfields⟩ := encode_total (mapOf env.entries)
  unfold computeEnvelopeDigest canonicalEnvelopeFields
  rw [hfields]
  simp only [Except.mapError, hmacSign_token]
  split
  · rename_i hl
    simp only [Option.some.injEq, Except.ok.injEq]
    constructor
    · rintro rfl
      exact ⟨_, ⟨fields, hfields, rfl, hl⟩, rfl⟩
    · rintro ⟨m, ⟨f, hf, rfl, -⟩, rfl⟩
      rw [Except.ok.inj (hfields.symm.trans hf)]
  · rename_i hl
    refine ⟨fun h => (by cases h), ?_⟩
    rintro ⟨m, ⟨f, hf, rfl, hm⟩, -⟩
    rw [← Except.ok.inj (hfields.symm.trans hf)] at hm
    exact absurd hm hl

/-! ### What is accepted -/

/-- `validate_envelope(..)` has answered `Ok(())`. -/
def Accepts (mac : Mac) (env : Envelope) (token : OperatorToken) (cycle : UInt64)
    (config : EnvelopeValidationConfig) : Prop :=
  validateEnvelope mac env token cycle config = some (.ok ())

/-- The seven checks together. -/
structure Valid (mac : Mac) (env : Envelope) (token : OperatorToken) (cycle : UInt64)
    (config : EnvelopeValidationConfig) : Prop where
  version : env.envelopeVersion ∈ config.acceptedVersions
  token : env.senderToken = token
  shape : env.payloadShape.isRecognized = true
  size_le : env.sizeBytes ≤ config.maxSizeBytes
  size_eq : env.sizeBytes = UInt64.ofNat env.payload.length
  submitted : env.submittedAtCycle ≤ cycle
  fresh : cycle.toNat - env.submittedAtCycle.toNat ≤ config.freshnessWindowCycles.toNat
  digest : ∃ m, env.Signs m ∧ env.envelopeDigest = mac env.senderToken.bytes m

section

variable {mac : Mac} {env : Envelope} {token : OperatorToken} {cycle : UInt64}
  {config : EnvelopeValidationConfig}

theorem accepts_iff : Accepts mac env token cycle config ↔ Valid mac env token cycle config := by
  have hlt : ∀ {a b : UInt64}, ¬ a < b ↔ b ≤ a := UInt64.not_lt
  constructor
  · intro h
    unfold Accepts validateEnvelope at h
    split at h
    · cases h
    rename_i hversion
    split at h
    · cases h
    rename_i htoken
    split at h
    · cases h
    rename_i hshape
    split at h
    · cases h
    rename_i hsize
    split at h
    · cases h
    rename_i hlength
    split at h
    · cases h
    rename_i hfuture
    split at h
    · cases h
    rename_i hold
    split at h
    · cases h
    · cases h
    · rename_i d hd
      split at h
      · cases h
      · rename_i heq
        obtain ⟨m, hm, hmac⟩ := computeEnvelopeDigest_eq.1 hd
        exact ⟨not_not.1 hversion, not_not.1 htoken, not_not.1 hshape, hlt.1 hsize,
          not_not.1 hlength, hlt.1 hfuture, not_lt.1 hold, m, hm, by
            rw [← not_not.1 heq, hmac, not_not.1 htoken]⟩
  · rintro ⟨hversion, rfl, hshape, hle, heq, hsubmitted, hfresh, hdigest⟩
    unfold Accepts validateEnvelope
    rw [if_neg (not_not.2 hversion), if_neg (not_not.2 rfl),
      if_neg (not_not.2 hshape), if_neg (hlt.2 hle), if_neg (not_not.2 heq),
      if_neg (hlt.2 hsubmitted), if_neg (not_lt.2 hfresh), computeEnvelopeDigest_eq.2 hdigest]
    exact if_neg (not_not.2 rfl)

end

/-- The messages of two envelopes differ and have the same MAC. -/
def Collide (mac : Mac) (a b : Envelope) : Prop :=
  ∃ m m', a.Signs m ∧ b.Signs m' ∧ m ≠ m' ∧ mac a.senderToken.bytes m = mac b.senderToken.bytes m'

/-- Someone who sends deltas has computed the digests of `sent`, whose shapes come from the parser.
Then an envelope that carries one of these digests, with whatever else in it, is accepted in some
session, cycle and configuration only if it is one of `sent` itself, barring a collision: neither a
field nor the payload can be changed, moved from the one to the other, or carried into another
session. -/
theorem accepted_was_sent {mac : Mac} {sent : List Envelope}
    (hsent : ∀ e ∈ sent, e.payloadShape.Parsed ∧
      computeEnvelopeDigest mac e e.senderToken = some (.ok e.envelopeDigest))
    {env : Envelope} {token : OperatorToken} {cycle : UInt64} {config : EnvelopeValidationConfig}
    (hseen : env.envelopeDigest ∈ sent.map Envelope.envelopeDigest)
    (h : Accepts mac env token cycle config) : env ∈ sent ∨ ∃ e ∈ sent, Collide mac e env := by
  have hvalid := accepts_iff.1 h
  obtain ⟨e, he, hdigest⟩ := List.mem_map.1 hseen
  obtain ⟨hparsed, hcomputed⟩ := hsent e he
  obtain ⟨m, hm, hd⟩ := computeEnvelopeDigest_eq.1 hcomputed
  obtain ⟨m', hm', hd'⟩ := hvalid.digest
  have hmac := (hd.symm.trans hdigest).trans hd'
  by_cases heq : m = m'
  · subst heq
    have henv :=
      Envelope.signed_inj hparsed (PayloadShape.parsed_of_isRecognized hvalid.shape) hm hm'
    rw [← hdigest] at henv
    exact .inl ((show e = env from henv) ▸ he)
  · exact .inr ⟨e, he, m, m', hm, hm', heq, hmac⟩

/-- The first delta of a session, under a MAC that does not look at what it is computed over. -/
def firstDelta : Envelope := ⟨1, .replicate 7, .text, none, 2, none, 5, .replicate 0, [104, 105]⟩

set_option maxRecDepth 4000 in
theorem firstDelta_signs : ∃ m, firstDelta.Signs m :=
  ⟨_, _, rfl, rfl, (show _ ≤ 1000 by decide).trans (by decide)⟩

theorem firstDelta_accepted {c : UInt64} (h : 5 ≤ c) (h' : c.toNat - 5 ≤ 60) :
    Accepts (fun _ _ => .replicate 0) firstDelta (.replicate 7) c .default := by
  obtain ⟨m, hm⟩ := firstDelta_signs
  exact accepts_iff.2 ⟨by decide, rfl, rfl, by decide, rfl, h, h', m, hm, rfl⟩

def secondDelta : Envelope := ⟨1, .replicate 7, .text, none, 1, none, 6, .replicate 0, [33]⟩

set_option maxRecDepth 4000 in
theorem secondDelta_signs : ∃ m, secondDelta.Signs m :=
  ⟨_, _, rfl, rfl, (show _ ≤ 1000 by decide).trans (by decide)⟩

/-- A MAC to evaluate on: the sum of the bytes of the key and of the message, repeated. -/
def sumMac (key message : Bytes) : Hash32 := .replicate ((key ++ message).foldl (· + ·) 0)

/-- The envelope with the digest of this message. -/
def Envelope.sealed (env : Envelope) (m : Bytes) : Envelope :=
  { env with envelopeDigest := sumMac env.senderToken.bytes m }

/-- Whoever has seen the digests of two deltas, and sends the first. -/
theorem accepted_was_sent_two : ∃ m m',
    firstDelta.sealed m ∈ [firstDelta.sealed m, secondDelta.sealed m'] ∨
      ∃ e ∈ [firstDelta.sealed m, secondDelta.sealed m'],
        Collide sumMac e (firstDelta.sealed m) := by
  obtain ⟨m, hm⟩ := firstDelta_signs
  obtain ⟨m', hm'⟩ := secondDelta_signs
  have hfirst : (firstDelta.sealed m).Signs m := hm
  have hsecond : (secondDelta.sealed m').Signs m' := hm'
  have hversion : (1 : UInt32) ∈ EnvelopeValidationConfig.default.acceptedVersions := by decide
  have hsize : (2 : UInt64) ≤ EnvelopeValidationConfig.default.maxSizeBytes := by decide
  have haccepted : Accepts sumMac (firstDelta.sealed m) (.replicate 7) 9 .default :=
    accepts_iff.2 ⟨hversion, rfl, rfl, hsize, rfl, (show (5 : UInt64) ≤ 9 by decide),
      (show 9 - 5 ≤ 60 by decide), m, hfirst, rfl⟩
  refine ⟨m, m', accepted_was_sent (fun e he => ?_) List.mem_cons_self haccepted⟩
  rcases List.mem_cons.1 he with rfl | he
  · exact ⟨PayloadShape.parsed_parse "text", computeEnvelopeDigest_eq.2 ⟨m, hfirst, rfl⟩⟩
  · cases List.mem_singleton.1 he
    exact ⟨PayloadShape.parsed_parse "text", computeEnvelopeDigest_eq.2 ⟨m', hsecond, rfl⟩⟩

end Myco.Skin
