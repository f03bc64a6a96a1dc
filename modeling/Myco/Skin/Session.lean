import Myco.Lib.Loop
import Myco.Skin.Envelope

/-!
# Operator sessions

The session of `kernel/skin/src/handshake.rs`: `process_initiate`, `process_terminate`,
`advance_quarantine_window` and `check_idle_timeout`, over the token that `sealed_derive.rs` derives
for a handshake. A run is a path of these calls and of deltas, each validated under the token of the
session that is open.

`session_of_run` says what is known of an open session. `accepted_in_one_session` says what the
fresh token of a session is for: what was accepted in one session is never accepted in another.
-/

namespace Myco.Skin

open Myco.Lib Myco.Canonical

/-! ### The handshake -/

inductive SealedDeriveError where
  /-- `sealing backend unavailable: {0}` -/
  | backendUnavailable (what : String)
  /-- `substrate_secret not initialized` -/
  | notInitialized
  /-- `backend internal error: {0}` -/
  | backendError (what : String)
deriving DecidableEq

/-- `SealedDerive::derive`, of the nonce, the cycle and what the kernel drew. -/
abbrev SealedDerive := Bytes → UInt64 → Bytes → Except SealedDeriveError OperatorToken

/-- What `SoftwareStub` hashes. -/
def derivationInput (substrateSecret : Hash32) (handshakeNonce : Bytes) (currentCycle : UInt64)
    (kernelRandom : Bytes) : Bytes :=
  substrateSecret.bytes ++ handshakeNonce ++ u64Be currentCycle ++ kernelRandom

def softwareStub (blake3 : Bytes → Hash32) (substrateSecret : Hash32) : SealedDerive :=
  fun nonce cycle random => .ok (blake3 (derivationInput substrateSecret nonce cycle random))

inductive HandshakeError where
  | substrateIdMismatch (claimed actual : String)
  | skinBusy
  | invalidOperatorPubKey (what : String)
  | invalidContinuityClaim (what : String)
  | sealedDerive (e : SealedDeriveError)
  | wrongState (what : String)
deriving DecidableEq

inductive ContinuityClaim where
  | fresh
  | attestedContinuity (continuityAttestation : Bytes)
deriving DecidableEq

structure HandshakeInitiate where
  envelopeVersion : UInt32
  substrateIdProof : String
  operatorSigningKeyPublic : Bytes
  continuityClaim : ContinuityClaim
  submittedAt : Int64

structure HandshakeComplete where
  operatorToken : OperatorToken
  substrateId : String
  handshakeTimestamp : UInt64

structure ActiveSession where
  operatorToken : OperatorToken
  operatorSigningKeyPublic : Bytes
  handshakeAtCycle : UInt64
  continuityClaim : ContinuityClaim
  inPostHandshakeQuarantine : Bool

inductive SkinState where
  | idle
  | active (session : ActiveSession)

structure HandshakeConfig where
  postHandshakeQuarantineCycles : UInt64
  quarantineWithContinuity : UInt64
  idleTimeoutCycles : UInt64

def HandshakeConfig.default : HandshakeConfig := ⟨100, 10, 100⟩

def HandshakeInitiate.nonce (initiate : HandshakeInitiate) : Bytes :=
  initiate.operatorSigningKeyPublic ++ i64Be initiate.submittedAt

/-- `process_initiate`, on the identity of the substrate. -/
def processInitiate (derive : SealedDerive) (identity : String) (state : SkinState)
    (initiate : HandshakeInitiate) (currentCycle : UInt64) (kernelRandom : Bytes) :
    Except HandshakeError HandshakeComplete × SkinState :=
  match state with
  | .active _ => (.error .skinBusy, state)
  | .idle =>
    if initiate.substrateIdProof ≠ identity then
      (.error (.substrateIdMismatch initiate.substrateIdProof identity), state)
    else if initiate.operatorSigningKeyPublic = [] then
      (.error (.invalidOperatorPubKey "empty key bytes"), state)
    else if initiate.continuityClaim = .attestedContinuity [] then
      (.error (.invalidContinuityClaim
        "AttestedContinuity requires non-empty continuity_attestation"), state)
    else match derive initiate.nonce currentCycle kernelRandom with
      | .error e => (.error (.sealedDerive e), state)
      | .ok operatorToken =>
        (.ok ⟨operatorToken, identity, currentCycle⟩, .active {
          operatorToken
          operatorSigningKeyPublic := initiate.operatorSigningKeyPublic
          handshakeAtCycle := currentCycle
          continuityClaim := initiate.continuityClaim
          inPostHandshakeQuarantine := true })

def processTerminate : SkinState → Except HandshakeError Unit × SkinState
  | .active _ => (.ok (), .idle)
  | .idle => (.error (.wrongState "cannot terminate: no active operator"), .idle)

/-- For how many cycles a session is in quarantine. -/
def HandshakeConfig.window (config : HandshakeConfig) : ContinuityClaim → UInt64
  | .attestedContinuity _ => config.quarantineWithContinuity
  | .fresh => config.postHandshakeQuarantineCycles

def advanceQuarantineWindow (config : HandshakeConfig) (currentCycle : UInt64) :
    SkinState → SkinState
  | .idle => .idle
  | .active session =>
    if session.inPostHandshakeQuarantine = false then .active session
    else if (config.window session.continuityClaim).toNat ≤
        currentCycle.toNat - session.handshakeAtCycle.toNat then
      .active { session with inPostHandshakeQuarantine := false }
    else .active session

def checkIdleTimeout (config : HandshakeConfig) (currentCycle lastEnvelopeCycle : UInt64) :
    SkinState → Bool × SkinState
  | .idle => (false, .idle)
  | .active session =>
    if config.idleTimeoutCycles.toNat ≤ currentCycle.toNat - lastEnvelopeCycle.toNat then
      (true, .idle)
    else (false, .active session)

/-- A handshake that succeeds finds no session and opens one, in quarantine. -/
theorem processInitiate_ok {derive : SealedDerive} {identity : String} {state state' : SkinState}
    {i : HandshakeInitiate} {c : UInt64} {r : Bytes} {a : HandshakeComplete}
    (h : processInitiate derive identity state i c r = (.ok a, state')) :
    state = .idle ∧ derive i.nonce c r = .ok a.operatorToken ∧ state' =
      .active ⟨a.operatorToken, i.operatorSigningKeyPublic, c, i.continuityClaim, true⟩ := by
  unfold processInitiate at h
  split at h
  · cases h
  split at h
  · cases h
  split at h
  · cases h
  split at h
  · cases h
  split at h
  · cases h
  · rename_i token hd
    cases h
    exact ⟨rfl, hd, rfl⟩

theorem processInitiate_error {derive : SealedDerive} {identity : String} {state state' : SkinState}
    {i : HandshakeInitiate} {c : UInt64} {r : Bytes} {e : HandshakeError}
    (h : processInitiate derive identity state i c r = (.error e, state')) : state' = state := by
  unfold processInitiate at h
  split at h
  · cases h; rfl
  split at h
  · cases h; rfl
  split at h
  · cases h; rfl
  split at h
  · cases h; rfl
  split at h
  · cases h; rfl
  · cases h

/-! ### Runs -/

/-- What a skin is set up with. -/
structure SkinSetup where
  derive : SealedDerive
  identity : String
  mac : Mac
  handshake : HandshakeConfig
  validation : EnvelopeValidationConfig

/-- One thing that happens at the skin, with its answer. -/
inductive Deed where
  | initiate (initiate : HandshakeInitiate) (cycle : UInt64) (kernelRandom : Bytes)
      (answer : Except HandshakeError HandshakeComplete)
  | terminate (answer : Except HandshakeError Unit)
  | advanceWindow (cycle : UInt64)
  | idleCheck (cycle lastEnvelopeCycle : UInt64) (disconnected : Bool)
  | submit (env : Envelope) (cycle : UInt64) (answer : Except EnvelopeError Unit)

inductive SkinStep (p : SkinSetup) : SkinState → Deed → SkinState → Prop
  | initiate {st st' : SkinState} {i : HandshakeInitiate} {c : UInt64} {r : Bytes}
      {answer : Except HandshakeError HandshakeComplete} :
      processInitiate p.derive p.identity st i c r = (answer, st') →
      SkinStep p st (.initiate i c r answer) st'
  | terminate {st st' : SkinState} {answer : Except HandshakeError Unit} :
      processTerminate st = (answer, st') → SkinStep p st (.terminate answer) st'
  | advanceWindow {st : SkinState} {c : UInt64} :
      SkinStep p st (.advanceWindow c) (advanceQuarantineWindow p.handshake c st)
  | idleCheck {st st' : SkinState} {c l : UInt64} {disconnected : Bool} :
      checkIdleTimeout p.handshake c l st = (disconnected, st') →
      SkinStep p st (.idleCheck c l disconnected) st'
  | submit {s : ActiveSession} {env : Envelope} {c : UInt64} {answer : Except EnvelopeError Unit} :
      validateEnvelope p.mac env s.operatorToken c p.validation = some answer →
      SkinStep p (.active s) (.submit env c answer) (.active s)

abbrev SkinRun (p : SkinSetup) : SkinState → List Deed → SkinState → Prop := Path (SkinStep p)

/-- The handshakes that succeeded: what each was asked for, when, and with what the kernel drew. -/
def openings (ds : List Deed) : List (HandshakeInitiate × UInt64 × Bytes) :=
  ds.filterMap fun
    | .initiate i c r (.ok _) => some (i, c, r)
    | _ => none

/-- Ends a session. -/
def Deed.Closes : Deed → Prop
  | .terminate (.ok _) => True
  | .idleCheck _ _ true => True
  | _ => False

/-- No session begins or ends. -/
structure Undisturbed (ds : List Deed) : Prop where
  opens : openings ds = []
  closes : ∀ d ∈ ds, ¬ d.Closes

theorem Undisturbed.nil : Undisturbed [] := ⟨rfl, fun _ h => absurd h List.not_mem_nil⟩

theorem Undisturbed.snoc {ds : List Deed} {d : Deed} (h : Undisturbed ds) (ho : openings [d] = [])
    (hc : ¬ d.Closes) : Undisturbed (ds ++ [d]) := by
  refine ⟨?_, fun e he => ?_⟩
  · rw [openings, List.filterMap_append]
    exact List.append_eq_nil_iff.2 ⟨h.opens, ho⟩
  · rcases List.mem_append.1 he with he | he
    · exact h.closes e he
    · exact List.mem_singleton.1 he ▸ hc

/-- `s'` is `s` after `ds`: the quarantine of `s` lasts until a cycle at which its window is
over. -/
structure Ages (config : HandshakeConfig) (s : ActiveSession) (ds : List Deed)
    (s' : ActiveSession) : Prop where
  undisturbed : Undisturbed ds
  same : { s' with inPostHandshakeQuarantine := s.inPostHandshakeQuarantine } = s
  quarantine : s'.inPostHandshakeQuarantine = true ↔ s.inPostHandshakeQuarantine = true ∧
    ∀ c, .advanceWindow c ∈ ds →
      c.toNat - s.handshakeAtCycle.toNat < (config.window s.continuityClaim).toNat

variable {config : HandshakeConfig} {s s' : ActiveSession} {ds : List Deed}

theorem Ages.nil : Ages config s [] s := ⟨.nil, rfl, by simp⟩

theorem Ages.snoc (h : Ages config s ds s') {d : Deed} (hd : ∀ c, d ≠ .advanceWindow c)
    (ho : openings [d] = []) (hc : ¬ d.Closes) : Ages config s (ds ++ [d]) s' := by
  refine ⟨h.undisturbed.snoc ho hc, h.same, h.quarantine.trans (and_congr_right fun _ => ?_)⟩
  refine forall_congr' fun c => ?_
  rw [List.mem_append, List.mem_singleton, or_iff_left (fun he => hd c he.symm)]

theorem Ages.window (h : Ages config s ds s') {c : UInt64} {s'' : ActiveSession}
    (hs : advanceQuarantineWindow config c (.active s') = .active s'') :
    Ages config s (ds ++ [.advanceWindow c]) s'' := by
  obtain ⟨token, key, cycle, claim, q⟩ := s'
  obtain ⟨token₀, key₀, cycle₀, claim₀, q₀⟩ := s
  obtain ⟨hundisturbed, hsame, hquarantine⟩ := h
  simp only [ActiveSession.mk.injEq] at hsame
  obtain ⟨rfl, rfl, rfl, rfl, -⟩ := hsame
  dsimp only at hquarantine
  have hmem : ∀ c', .advanceWindow c' ∈ ds ++ [.advanceWindow c] ↔
      .advanceWindow c' ∈ ds ∨ c' = c := by simp
  simp only [advanceQuarantineWindow] at hs
  split at hs
  · rename_i hq
    cases hs
    refine ⟨hundisturbed.snoc rfl id, rfl, fun h => absurd (hq.symm.trans h) Bool.false_ne_true, ?_⟩
    rintro ⟨hin, hall⟩
    exact hquarantine.2 ⟨hin, fun c' hc' => hall c' ((hmem c').2 (.inl hc'))⟩
  · rename_i hq
    have hq' := Bool.eq_true_of_not_eq_false hq
    split at hs
    · rename_i hover
      cases hs
      refine ⟨hundisturbed.snoc rfl id, rfl, fun h => absurd h Bool.false_ne_true, ?_⟩
      rintro ⟨-, hall⟩
      exact absurd (hall c ((hmem c).2 (.inr rfl))) (not_lt.2 hover)
    · rename_i hover
      cases hs
      have hin := hquarantine.1 hq'
      refine ⟨hundisturbed.snoc rfl id, rfl, fun _ => ⟨hin.1, fun c' hc' => ?_⟩, fun _ => hq'⟩
      rcases (hmem c').1 hc' with hc' | rfl
      · exact hin.2 c' hc'
      · exact not_le.1 hover

/-- The session that a handshake opens. -/
def HandshakeInitiate.opens (i : HandshakeInitiate) (c : UInt64) (token : OperatorToken) :
    ActiveSession :=
  ⟨token, i.operatorSigningKeyPublic, c, i.continuityClaim, true⟩

/-- Where the session came from that is open after `ds`: it was open before and `ds` did not
disturb it, or the last handshake in `ds` opened it. -/
def Since (p : SkinSetup) (st₀ : SkinState) (ds : List Deed) (st : SkinState) : Prop :=
  ∀ s, st = .active s → (∃ s₀, st₀ = .active s₀ ∧ Ages p.handshake s₀ ds s) ∨
    ∃ pre i c r a post, ds = pre ++ .initiate i c r (.ok a) :: post ∧ SkinRun p st₀ pre .idle ∧
      p.derive i.nonce c r = .ok a.operatorToken ∧
      Ages p.handshake (i.opens c a.operatorToken) post s

theorem Since.snoc {p : SkinSetup} {st₀ : SkinState} {d : Deed} {s s' : ActiveSession}
    (h : Since p st₀ ds (.active s))
    (hages : ∀ s₀ es, Ages p.handshake s₀ es s → Ages p.handshake s₀ (es ++ [d]) s') :
    Since p st₀ (ds ++ [d]) (.active s') := by
  rintro _ ⟨⟩
  rcases h s rfl with ⟨s₀, h0, ha⟩ | ⟨pre, i, c, r, a, post, rfl, hpre, hd, ha⟩
  · exact .inl ⟨s₀, h0, hages _ _ ha⟩
  · exact .inr ⟨pre, i, c, r, a, post ++ [d], by simp, hpre, hd, hages _ _ ha⟩

theorem since_of_run {p : SkinSetup} {st₀ st : SkinState} (h : SkinRun p st₀ ds st) :
    Since p st₀ ds st := by
  refine h.keeps_labels (I := Since p st₀) ?_ fun s hs => .inl ⟨s, hs, .nil⟩
  rintro es d _ u v - hrun hstep - hsince
  cases hstep with
  | @initiate _ _ i c r answer he =>
    cases answer with
    | ok a =>
      obtain ⟨rfl, hd, rfl⟩ := processInitiate_ok he
      rintro _ ⟨⟩
      exact .inr ⟨es, i, c, r, a, [], rfl, hrun, hd, .nil⟩
    | error e =>
      cases processInitiate_error he
      cases u with
      | idle => rintro s ⟨⟩
      | active s' => exact hsince.snoc fun _ _ ha => ha.snoc (fun _ h => by cases h) rfl id
  | terminate he =>
    cases u with
    | idle =>
      cases he
      rintro s ⟨⟩
    | active s' =>
      cases he
      rintro s ⟨⟩
  | advanceWindow =>
    intro s hs
    cases u with
    | idle => cases hs
    | active s' => exact (hsince.snoc fun _ _ ha => ha.window hs) s rfl
  | @idleCheck _ _ c l disconnected he =>
    cases u with
    | idle =>
      cases he
      rintro s ⟨⟩
    | active s' =>
      simp only [checkIdleTimeout] at he
      split at he
      · cases he
        rintro s ⟨⟩
      · cases he
        exact hsince.snoc fun _ _ ha => ha.snoc (fun _ h => by cases h) rfl id
  | submit he => exact hsince.snoc fun _ _ ha => ha.snoc (fun _ h => by cases h) rfl id

/-- In every run that begins without a session: when a session is open, some handshake in the run
found none and opened it, with the token that was derived for that handshake; since then no
handshake has succeeded and none has ended; and the session is in quarantine just as long as no
cycle was announced that is a whole window after the handshake, a shorter one for a claim of
continuity. -/
theorem session_of_run {p : SkinSetup} {s : ActiveSession} (h : SkinRun p .idle ds (.active s)) :
    ∃ pre i c r a post, ds = pre ++ .initiate i c r (.ok a) :: post ∧ SkinRun p .idle pre .idle ∧
      p.derive i.nonce c r = .ok s.operatorToken ∧ a.operatorToken = s.operatorToken ∧
      s.operatorSigningKeyPublic = i.operatorSigningKeyPublic ∧ Undisturbed post ∧
      (s.inPostHandshakeQuarantine = true ↔ ∀ c', .advanceWindow c' ∈ post →
        c'.toNat - c.toNat < (p.handshake.window i.continuityClaim).toNat) := by
  rcases since_of_run h s rfl with ⟨s₀, h0, -⟩ | ⟨pre, i, c, r, a, post, rfl, hpre, hd, ha⟩
  · cases h0
  · have htoken : s.operatorToken = a.operatorToken := congrArg ActiveSession.operatorToken ha.same
    have hkey : s.operatorSigningKeyPublic = i.operatorSigningKeyPublic :=
      congrArg ActiveSession.operatorSigningKeyPublic ha.same
    refine ⟨pre, i, c, r, a, post, rfl, hpre, htoken ▸ hd, htoken.symm, hkey, ha.undisturbed, ?_⟩
    exact ha.quarantine.trans (and_iff_right rfl)

/-! ### Isolation -/

theorem openings_append {ds es : List Deed} : openings (ds ++ es) = openings ds ++ openings es :=
  List.filterMap_append

theorem mem_openings {pre post : List Deed} {i : HandshakeInitiate} {c : UInt64} {r : Bytes}
    {a : HandshakeComplete} : (i, c, r) ∈ openings (pre ++ .initiate i c r (.ok a) :: post) := by
  rw [openings_append]
  exact List.mem_append_right _ List.mem_cons_self

/-- What the stub hashed for the handshakes that succeeded. -/
def derivations (substrateSecret : Hash32) (ds : List Deed) : List Bytes :=
  (openings ds).map fun o => derivationInput substrateSecret o.1.nonce o.2.1 o.2.2

/-- An accepted delta carries the token of its session, and is not older than the window allows. -/
theorem accepted_submit {p : SkinSetup} {u v : SkinState} {env : Envelope} {c : UInt64}
    (h : SkinStep p u (.submit env c (.ok ())) v) : ∃ s, u = .active s ∧ v = .active s ∧
      env.senderToken = s.operatorToken ∧ env.submittedAtCycle ≤ c ∧
      c.toNat - env.submittedAtCycle.toNat ≤ p.validation.freshnessWindowCycles.toNat := by
  cases h with
  | submit he =>
    have hvalid := accepts_iff.1 he
    exact ⟨_, rfl, rfl, hvalid.token, hvalid.submitted, hvalid.fresh⟩

/-- Where no two handshakes draw the same randomness and all draw as much of it, an envelope that is
accepted twice is accepted in one session: nothing opened or ended a session in between, and both
times fall into the freshness window of the envelope. Otherwise two different derivations of the
run have given one token. -/
theorem accepted_in_one_session {blake3 : Bytes → Hash32} {secret : Hash32} {p : SkinSetup}
    (hp : p.derive = softwareStub blake3 secret) {pre mid post : List Deed} {env : Envelope}
    {c c' : UInt64} {st : SkinState}
    (h : SkinRun p .idle
      (pre ++ .submit env c (.ok ()) :: (mid ++ .submit env c' (.ok ()) :: post)) st)
    (hdrawn : ((openings (pre ++ mid)).map fun o => o.2.2).Nodup) {n : Nat}
    (hlength : ∀ o ∈ openings (pre ++ mid), o.2.2.length = n) :
    (Undisturbed mid ∧ ∀ t ∈ [c, c'], env.submittedAtCycle ≤ t ∧
      t.toNat - env.submittedAtCycle.toNat ≤ p.validation.freshnessWindowCycles.toNat) ∨
    ∃ x ∈ derivations secret (pre ++ mid), ∃ y ∈ derivations secret (pre ++ mid),
      x ≠ y ∧ blake3 x = blake3 y := by
  obtain ⟨u, hpre, hrest⟩ := Path.append_iff.1 h
  obtain ⟨v, hsubmit, hrest⟩ := Path.cons_iff.1 hrest
  obtain ⟨w, hmid, hrest⟩ := Path.append_iff.1 hrest
  obtain ⟨x, hsubmit', -⟩ := Path.cons_iff.1 hrest
  obtain ⟨s, rfl, rfl, htoken, hsubmitted, hfresh⟩ := accepted_submit hsubmit
  obtain ⟨s', rfl, rfl, htoken', hsubmitted', hfresh'⟩ := accepted_submit hsubmit'
  rcases since_of_run hmid s' rfl with ⟨s₀, ⟨⟩, ha⟩ | ⟨ds', i', r', k', a', es', hmid', -, hd', ha'⟩
  · refine .inl ⟨ha.undisturbed, fun t ht => ?_⟩
    simp only [List.mem_cons, List.not_mem_nil, or_false] at ht
    rcases ht with rfl | rfl
    · exact ⟨hsubmitted, hfresh⟩
    · exact ⟨hsubmitted', hfresh'⟩
  · rcases since_of_run hpre s rfl with ⟨s₀, ⟨⟩, -⟩ | ⟨ds, i, r, k, a, es, hpre', -, hd, ha⟩
    have hmem : (i, r, k) ∈ openings pre := hpre' ▸ mem_openings
    have hmem' : (i', r', k') ∈ openings mid := hmid' ▸ mem_openings
    rw [openings_append] at hdrawn hlength
    rw [hp] at hd hd'
    have hsame : blake3 (derivationInput secret i.nonce r k) =
        blake3 (derivationInput secret i'.nonce r' k') :=
      calc blake3 (derivationInput secret i.nonce r k) = a.operatorToken := Except.ok.inj hd
        _ = s.operatorToken := (congrArg ActiveSession.operatorToken ha.same).symm
        _ = s'.operatorToken := htoken.symm.trans htoken'
        _ = a'.operatorToken := congrArg ActiveSession.operatorToken ha'.same
        _ = blake3 (derivationInput secret i'.nonce r' k') := (Except.ok.inj hd').symm
    right
    rw [derivations, openings_append]
    refine ⟨_, List.mem_map_of_mem (List.mem_append_left _ hmem), _,
      List.mem_map_of_mem (List.mem_append_right _ hmem'), fun heq => ?_, hsame⟩
    -- one input ends in one randomness, which only one handshake has drawn
    have hn : k.length = n := hlength _ (List.mem_append_left _ hmem)
    have hn' : k'.length = n := hlength _ (List.mem_append_right _ hmem')
    have hl : k.length = k'.length := hn.trans hn'.symm
    have hk : k = k' := List.append_inj_right' heq hl
    rw [List.map_append, List.nodup_append] at hdrawn
    exact hdrawn.2.2 _ (List.mem_map_of_mem hmem) _ (List.mem_map_of_mem hmem') hk

/-! ### A session -/

def smallSetup : SkinSetup :=
  ⟨softwareStub (fun _ => .replicate 7) (.replicate 0), "sub_001", fun _ _ => .replicate 0,
    .default, .default⟩

def firstHandshake : Deed :=
  .initiate ⟨1, "sub_001", [9], .fresh, 0⟩ 5 [] (.ok ⟨.replicate 7, "sub_001", 5⟩)

/-- The first delta is accepted twice. -/
theorem firstSession_run : SkinRun smallSetup .idle
    ([firstHandshake] ++ .submit firstDelta 6 (.ok ()) ::
      ([.advanceWindow 7] ++ .submit firstDelta 8 (.ok ()) :: []))
    (.active ⟨.replicate 7, [9], 5, .fresh, true⟩) :=
  .cons (.initiate rfl) (.cons (.submit (firstDelta_accepted (by decide) (by decide)))
    (.cons .advanceWindow (.cons (.submit (firstDelta_accepted (by decide) (by decide))) .nil)))

theorem session_of_firstSession :
    ∃ pre i c r a post, [firstHandshake] ++ .submit firstDelta 6 (.ok ()) ::
      ([.advanceWindow 7] ++ .submit firstDelta 8 (.ok ()) :: []) =
        pre ++ .initiate i c r (.ok a) :: post ∧ SkinRun smallSetup .idle pre .idle ∧
      smallSetup.derive i.nonce c r = .ok (.replicate 7) ∧ a.operatorToken = .replicate 7 ∧
      [9] = i.operatorSigningKeyPublic ∧ Undisturbed post ∧
      (true = true ↔ ∀ c', .advanceWindow c' ∈ post →
        c'.toNat - c.toNat < (smallSetup.handshake.window i.continuityClaim).toNat) :=
  session_of_run firstSession_run

theorem accepted_in_firstSession :
    (Undisturbed [.advanceWindow 7] ∧ ∀ t ∈ [6, 8], firstDelta.submittedAtCycle ≤ t ∧
      t.toNat - firstDelta.submittedAtCycle.toNat ≤
        smallSetup.validation.freshnessWindowCycles.toNat) ∨
    ∃ x ∈ derivations (.replicate 0) ([firstHandshake] ++ [.advanceWindow 7]),
    ∃ y ∈ derivations (.replicate 0) ([firstHandshake] ++ [.advanceWindow 7]),
      x ≠ y ∧ (fun _ => Hash32.replicate 7) x = (fun _ => Hash32.replicate 7) y :=
  accepted_in_one_session (p := smallSetup) rfl firstSession_run (by decide)
    (n := 0) (by decide)

end Myco.Skin
