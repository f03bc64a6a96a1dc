import Myco.Federation.Private
import Myco.Federation.Serving

/-!
# Relayed events

A substrate serves whatever is in its log, and wraps what it lets through of what it pulls. So in
the log of a substrate that is run as it is meant to be, with peers that are, every event is some
substrate's own, wrapped once by each substrate that has relayed it (`honest_relayed`). What becomes
of such an event is settled by its type and by the number of its wrappers (`verdict_relayed`): no
wrapper in it is malformed, and nothing is smuggled inside.
-/

namespace Myco.Federation

open Myco.Lib Myco.Canonical Myco.Schema Myco.Substrate Myco.Consensus

variable {env : Env}

/-! ### Wrappers in wrappers -/

/-- An event of a substrate's own, wrapped by so many relays, each of which let it through. -/
inductive Relayed : Nat → String → Bytes → Prop
  | own {nodeType : String} {content : Bytes} : ¬ startsWith federationReceivedPrefix nodeType →
      Relayed 0 nodeType content
  | wrapped {k : Nat} {env : Env} {id : Hash32} {ev : EventForFederation} :
      isFederationSafeNodeType ev.nodeType →
      (encodeFederationReceived env id ev).length ≤ isizeMax →
      Relayed k ev.nodeType ev.contentCanonicalBytes →
      Relayed (k + 1) (federationReceivedNodeType id) (encodeFederationReceived env id ev)

/-- The verdict on an event with so many wrappers. -/
def relayVerdict (wrappers : Nat) (nodeType : String) : Verdict :=
  if !isFederationSafeNodeType nodeType then .rejected
  else if wrappers ≤ maxFederationRecursionDepth then .safe
  else .tooDeep (maxFederationRecursionDepth + 1)

section

variable {env' : Env} {id : Hash32} {ev : EventForFederation} {k depth : Nat} {nodeType : String}
  {content : Bytes}

theorem readWrapper_encode (hmem : (encodeFederationReceived env' id ev).length ≤ isizeMax) :
    readWrapper env (encodeFederationReceived env' id ev) depth =
      .ok (ev.nodeType, ev.contentCanonicalBytes) := by
  have hparents : WFItems (ev.parentHashes.map hashValue) := by
    simp [wfItems_iff, hashValue, Value.WF]
  have hdec := decode_cbEncode hmem (by simp [hashValue, Value.WF, hparents])
  rw [readWrapper, encodeFederationReceived, hdec, mapOf]
  dsimp only
  generalize hm : OrdMap.ofList utf8 _ = m
  have hget : ∀ k, OrdMap.get k m = _ := fun k => hm ▸ get_mapOf
  simp only [List.reverse_cons, List.reverse_nil, List.nil_append, List.cons_append] at hget
  have htype : mapGetString m "peer_event_node_type" = .ok ev.nodeType := by
    rw [mapGetString, mapGet, show OrdMap.get "peer_event_node_type" m =
      some (.string ev.nodeType) by simp [hget, OrdMap.get_cons]]
    rfl
  have hcontent : mapGetBytes m "peer_event_content_canonical_bytes" =
      .ok ev.contentCanonicalBytes := by
    rw [mapGetBytes, mapGet, show OrdMap.get "peer_event_content_canonical_bytes" m =
      some (.bytes ev.contentCanonicalBytes) by simp [hget, OrdMap.get_cons]]
    rfl
  rw [ok_bind, htype, hcontent]
  rfl

/-- Each wrapper takes a level, and the levels are all that can run out. -/
theorem validateLevels_relayed (h : Relayed k nodeType content) {left : Nat} :
    validateLevels env left nodeType content depth =
      if k < left then .ok () else .error (.err (.depthExceeded (depth + left))) := by
  induction h generalizing left depth with
  | own hown =>
    cases left with
    | zero => rfl
    | succ left => rw [validateLevels, if_pos hown, if_pos (Nat.zero_lt_succ left)]
  | @wrapped k env' id ev hsafe hmem _ ih =>
    cases left with
    | zero => rfl
    | succ left =>
      have hwrapper : ¬ ¬ startsWith federationReceivedPrefix (federationReceivedNodeType id) :=
        not_not.2 startsWith_append
      rw [validateLevels, if_neg hwrapper, readWrapper_encode hmem]
      dsimp only
      rw [hsafe, Bool.not_true, if_neg Bool.false_ne_true, ih, Nat.add_right_comm, Nat.add_assoc]
      by_cases hk : k < left
      · rw [if_pos hk, if_pos (by omega)]
      · rw [if_neg hk, if_neg (by omega)]

theorem verdict_relayed (h : Relayed k ev.nodeType ev.contentCanonicalBytes) :
    verdict env ev = some (relayVerdict k ev.nodeType) := by
  rw [verdict, relayVerdict]
  split
  · rfl
  · rw [validateFederationInner, validateLevels_relayed h]
    by_cases hk : k ≤ maxFederationRecursionDepth
    · rw [if_pos (by omega), if_pos hk]
    · rw [if_neg (by omega), if_neg hk]
      simp

end

/-! ### Substrates that are run as they are meant to be -/

/-- The batches that come over the wire are ones that this substrate builds. -/
def AnswersFrom (p : ServerState env) (wire : PullWire) : Prop :=
  ∀ m answer, wire.responseRead m = .ok (some answer) → answer.messageType = "fed_event_batch" →
    ∃ request, answerTo p.ledger.dag request = some answer

/-- A substrate whose log has come from its own handlers, which write no wrappers, and from pulls
from other such substrates. -/
inductive Honest : {env : Env} → ServerState env → Prop
  | start {env : Env} {s : ServerState env} : s.nodes = [] → Honest s
  | own {env : Env} {s t : ServerState env} {ns : List DagNode} : Honest s →
      t.nodes = s.nodes ++ ns → (∀ n ∈ ns, ¬ IsWrapper n) → Honest t
  | pull {env env' : Env} {s t : ServerState env} {p : ServerState env'} {wire : PullWire}
      {request : Message} {r : Except SubstrateError (Option Message)} : Honest s → Honest p →
      AnswersFrom p wire → (handleFederationPullEventsFromPeer wire request).exec s = some (r, t) →
      Honest t

section

variable {env' : Env} {s t : ServerState env} {p : ServerState env'} {wire : PullWire}
  {request : Message} {id : Hash32} {batch : ParsedEventBatch}

/-- The events that are pulled are events of the log that is served. -/
theorem pulledBatch_served (hw : AnswersFrom p wire) (hb : pulledBatch s id wire request = .ok batch)
    {ev : EventForFederation} (hev : ev ∈ batch.events) : ∃ n ∈ p.nodes, ev = eventOf n := by
  obtain ⟨resp, hread, htype, hparse⟩ := FederationState.pullEventsFromPeer_ok hb
  obtain ⟨req, hans⟩ := hw _ _ hread htype
  rw [answerTo] at hans
  split at hans
  · cases hans
  obtain ⟨parsed, -, rfl⟩ := Option.map_eq_some_iff.1 hans
  have hmem : ∀ n ∈ requestedNodes p.ledger.dag parsed, n ∈ p.nodes := fun n hn =>
    requestedNodes_sublist.subset hn
  have hp : parseEventBatchPayload (buildEventBatchPayload
      ((requestedNodes p.ledger.dag parsed).map eventOf) (isLastBatch p.ledger.dag parsed)) =
      .ok batch := hparse
  rw [parseEventBatchPayload_build] at hp
  · split at hp
    · cases hp
    · cases hp
      obtain ⟨n, hn, rfl⟩ := List.mem_map.1 hev
      exact ⟨n, hmem n hn, rfl⟩
  · intro ev hev
    obtain ⟨n, hn, rfl⟩ := List.mem_map.1 hev
    exact p.ledger.recorded.typed n (hmem n hn)

/-- In the log of an honest substrate every event is one that relays have wrapped so many times. -/
theorem honest_relayed (h : Honest s) : ∀ n ∈ s.nodes, ∃ k, Relayed k n.nodeType n.content := by
  induction h with
  | start h0 =>
    rw [h0]
    nofun
  | own _ hn hns ih =>
    intro n hm
    rw [hn] at hm
    rcases List.mem_append.1 hm with hm | hm
    · exact ih n hm
    · exact ⟨0, .own (hns n hm)⟩
  | pull _ _ hw hpull ihs ihp =>
    intro n hm
    rcases pull_cases hpull with ⟨hadds, -⟩ | ⟨id, batch, -, -, hb, hingest⟩
    · obtain ⟨ns, hn, hns⟩ := hadds.nodes
      rw [hn] at hm
      rcases List.mem_append.1 hm with hm | hm
      · exact ihs n hm
      · exact ⟨0, .own (hns n hm)⟩
    · obtain ⟨ns, hn, hns⟩ := (ingestBatch_adds _ _ _ hingest).nodes
      rw [hn] at hm
      rcases List.mem_append.1 hm with hm | hm
      · exact ihs n hm
      · rcases hns n hm with hnot | ⟨ev, hev, hsafe, hwraps⟩
        · exact ⟨0, .own hnot⟩
        · obtain ⟨m, hm, rfl⟩ := pulledBatch_served hw hb hev
          obtain ⟨k, hk⟩ := ihp m hm
          refine ⟨k + 1, ?_⟩
          have hallowed : isFederationSafeNodeType m.nodeType := by
            rw [verdict] at hsafe
            split at hsafe
            · cases hsafe
            · rename_i hallowed
              simpa [eventOf] using hallowed
          have hfits := hwraps.fits
          rw [hwraps.content] at hfits
          rw [hwraps.nodeType, hwraps.content]
          exact .wrapped hallowed hfits hk

theorem pulled_relayed (hp : Honest p) (hw : AnswersFrom p wire)
    (hb : pulledBatch s id wire request = .ok batch) {ev : EventForFederation}
    (hev : ev ∈ batch.events) : ∃ k, Relayed k ev.nodeType ev.contentCanonicalBytes := by
  obtain ⟨n, hn, rfl⟩ := pulledBatch_served hw hb hev
  exact honest_relayed hp n hn

end

/-! ### Alarms -/

def injectionDetectors : List String :=
  ["C35_federation_substrate_private_event_injection", "C43_federation_recursive_injection"]

/-- No alarm about an injection has been raised, nor kept back. -/
structure NoInjectionAlarm (s t : ServerState env) : Prop where
  nodes : ∃ ns, t.nodes = s.nodes ++ ns ∧
    ∀ n ∈ ns, ∀ d ∈ injectionDetectors, n.nodeType ≠ immunePrefix ++ d
  emissions : ∀ d ∈ injectionDetectors,
    OrdMap.get d t.immuneEmissionState = OrdMap.get d s.immuneEmissionState

instance : IsPreorder (ServerState env) NoInjectionAlarm where
  refl s := ⟨⟨[], by simp⟩, fun _ _ => rfl⟩
  trans s t u h h' := by
    obtain ⟨ns, h1, h2⟩ := h.nodes
    obtain ⟨ms, h3, h4⟩ := h'.nodes
    refine ⟨⟨ns ++ ms, by rw [h3, h1, List.append_assoc], fun n hn => ?_⟩, fun d hd =>
      (h'.emissions d hd).trans (h.emissions d hd)⟩
    exact (List.mem_append.1 hn).elim (h2 n) (h4 n)

section

variable {s t : ServerState env} {id : Hash32} {batch : ParsedEventBatch} {request : Message}
  {wire : PullWire}

theorem noAlarm_modify {g : ServerState env → ServerState env} (hl : ∀ s, (g s).ledger = s.ledger)
    (he : ∀ s, (g s).immuneEmissionState = s.immuneEmissionState) :
    Within NoInjectionAlarm (modify g : Handler env PUnit) :=
  within_modify fun s => ⟨⟨[], by simp [ServerState.nodes, hl]⟩, fun d _ => by rw [he]⟩

theorem noAlarm_recordImmune {detectorId : String} {e : ImmuneEmission}
    (hd : detectorId ∉ injectionDetectors) :
    Within NoInjectionAlarm (modify (·.recordImmune detectorId e) : Handler env PUnit) := by
  refine within_modify fun s => ⟨⟨[], by simp [ServerState.recordImmune]⟩, fun d hmem => ?_⟩
  rw [ServerState.recordImmune, OrdMap.get_insert utf8_injective, if_neg]
  rintro rfl
  exact hd hmem

theorem noAlarm_insertNode {what : String} {c : Insertion}
    (h : ∀ d ∈ injectionDetectors, c.nodeType ≠ immunePrefix ++ d) :
    Within NoInjectionAlarm (insertNode what c : Handler env NodeHash) := by
  intro s r t he
  have hnodes := (adds_insertNode (P := fun n => ∀ d ∈ injectionDetectors,
    n.nodeType ≠ immunePrefix ++ d) (fun _ => h) s r t he).nodes
  refine ⟨hnodes, fun d _ => ?_⟩
  rw [exec_insertNode] at he
  split at he
  · cases he
    rfl
  · cases he

theorem noAlarm_readClock : Within NoInjectionAlarm (readClock : Handler env Int64) :=
  within_bind within_get fun _ =>
    within_bind (noAlarm_modify (fun _ => rfl) fun _ => rfl) fun _ => within_pure

theorem noAlarm_emitFresh {detectorId name evidence : String} {now : Int64} {k : UInt64}
    (hd : detectorId ∉ injectionDetectors) : Within NoInjectionAlarm
    (emitFresh detectorId name evidence now k : Handler env NodeHash) := by
  refine within_bind within_get fun s => within_bind (noAlarm_insertNode fun d hmem heq => ?_)
    fun _ => within_bind (noAlarm_recordImmune hd) fun _ => within_pure
  exact hd ((String.append_right_inj _).1 heq ▸ hmem)

theorem noAlarm_emitImmuneSporocarp {detectorId name evidence : String}
    (hd : detectorId ∉ injectionDetectors) : Within NoInjectionAlarm
    (emitImmuneSporocarp detectorId name evidence : Handler env NodeHash) := by
  refine within_bind noAlarm_readClock fun _ => within_bind within_get fun s => ?_
  cases OrdMap.get detectorId s.immuneEmissionState with
  | none => exact noAlarm_emitFresh hd
  | some prior =>
    dsimp only
    split
    · exact within_bind (noAlarm_recordImmune hd) fun _ => within_pure
    · exact noAlarm_emitFresh hd

theorem noAlarm_emitSubstrateEvent {nodeType : String} {content : Bytes}
    (h : ∀ d ∈ injectionDetectors, nodeType ≠ immunePrefix ++ d) :
    Within NoInjectionAlarm (emitSubstrateEvent nodeType content : Handler env NodeHash) := by
  refine within_bind within_get fun _ => within_bind (noAlarm_insertNode h) fun _ =>
    within_bind (noAlarm_modify ServerState.refreshCultivation_ledger fun s => ?_)
      fun _ => within_pure
  unfold ServerState.refreshCultivation
  split <;> rfl

theorem ne_immune {p nodeType : String} (h : startsWith p nodeType) (hp : Apart p immunePrefix)
    {d : String} : nodeType ≠ immunePrefix ++ d := by
  rintro rfl
  exact not_startsWith h hp startsWith_append

theorem noAlarm_alarmIf {offence : Bool} {detectorId name evidence : String}
    (h : offence = true → detectorId ∉ injectionDetectors) :
    Within NoInjectionAlarm (alarmIf offence detectorId name evidence : Handler env PUnit) := by
  unfold alarmIf
  split
  · rename_i ho
    exact within_bind (within_attempt (noAlarm_emitImmuneSporocarp (h ho))) fun _ => within_pure
  · exact within_pure

/-- Where nothing has been dropped there is nothing to be alarmed about. -/
theorem noAlarm_ingestBatch (hsafe : ∀ ev ∈ batch.events, verdict env ev = some .safe) :
    Within NoInjectionAlarm (ingestBatch id request batch : Handler env (Option Message)) := by
  unfold ingestBatch
  split
  · exact within_halt
  rename_i tr htr
  obtain ⟨hrejected, hdepths, hcascades⟩ := (triage_quiet htr).2 hsafe
  have hraise : Within NoInjectionAlarm (raiseAlarms id tr : Handler env PUnit) := by
    rw [raiseAlarms, hrejected, hdepths, hcascades]
    exact within_bind (noAlarm_alarmIf nofun) fun _ =>
      within_bind (noAlarm_alarmIf nofun) fun _ => noAlarm_alarmIf nofun
  refine within_bind hraise fun _ => within_bind (within_mapM fun ev _ => ?_) fun _ =>
    within_bind (within_bind noAlarm_readClock fun now => ?_) fun _ => within_pure
  · exact within_bind within_get fun _ => noAlarm_insertNode fun d _ =>
      ne_immune (p := federationReceivedPrefix) startsWith_append (by decide)
  · split
    · exact within_pure
    · exact within_bind (noAlarm_emitSubstrateEvent fun d _ => ne_immune
        (p := federationEventsReceivedType) (by simp [startsWith]) (by decide)) fun _ => within_pure

theorem noAlarm_pullFailed {e : SubstrateError} :
    Within NoInjectionAlarm (pullFailed id request e : Handler env (Option Message)) := by
  unfold pullFailed
  split
  · split
    · exact within_bind (noAlarm_alarmIf fun _ => by decide) fun _ => within_pure
    · exact within_throw
  · exact within_throw

/-- A pull raises no alarm about an injection where all that comes is safe. -/
theorem noAlarm_pull {r : Except SubstrateError (Option Message)}
    (hsafe : ∀ id batch, pulledBatch s id wire request = .ok batch →
      ∀ ev ∈ batch.events, verdict env ev = some .safe)
    (h : (handleFederationPullEventsFromPeer wire request).exec s = some (r, t)) :
    NoInjectionAlarm s t := by
  rw [handleFederationPullEventsFromPeer] at h
  cases hid : bytes32? request.payload "peer_substrate_id" with
  | none =>
    rw [hid] at h
    exact within_throw s r t h
  | some id =>
    rw [hid] at h
    dsimp only at h
    rw [Prog.exec_get_bind] at h
    split at h
    · exact within_bind (noAlarm_alarmIf fun _ => by decide) (fun _ => within_pure) s r t h
    · cases hb : pulledBatch s id wire request with
      | error e =>
        rw [hb] at h
        exact noAlarm_pullFailed s r t h
      | ok batch =>
        rw [hb] at h
        exact noAlarm_ingestBatch (hsafe id batch hb) s r t h

/-- What honest peers send is an event of a substrate's own in so many wrappers, and its type and
the number of these settle what becomes of it. Where all types are allowed and nothing has been
relayed more than five times, no alarm is raised. -/
theorem honest_pull {env' : Env} {p : ServerState env'} {r : Except SubstrateError (Option Message)}
    (hp : Honest p) (hw : AnswersFrom p wire)
    (h : (handleFederationPullEventsFromPeer wire request).exec s = some (r, t)) :
    (∀ id batch, pulledBatch s id wire request = .ok batch → ∀ ev ∈ batch.events,
      ∃ k, Relayed k ev.nodeType ev.contentCanonicalBytes ∧
        verdict env ev = some (relayVerdict k ev.nodeType)) ∧
    ((∀ id batch, pulledBatch s id wire request = .ok batch → ∀ ev ∈ batch.events,
      isFederationSafeNodeType ev.nodeType ∧ ∃ k ≤ maxFederationRecursionDepth,
        Relayed k ev.nodeType ev.contentCanonicalBytes) → NoInjectionAlarm s t) := by
  constructor
  · intro id batch hb ev hev
    obtain ⟨k, hk⟩ := pulled_relayed hp hw hb hev
    exact ⟨k, hk, verdict_relayed hk⟩
  · intro hall
    refine noAlarm_pull (fun id batch hb ev hev => ?_) h
    obtain ⟨hallowed, k, hle, hk⟩ := hall id batch hb ev hev
    rw [verdict_relayed hk, relayVerdict, hallowed, Bool.not_true, if_neg Bool.false_ne_true,
      if_pos hle]

end

/-! ### A log with an event of the substrate's own -/

section

/-- The wire of a peer that answers from its log. -/
def answeringFrom (p : ServerState env) : PullWire where
  readTimeout := .ok ()
  requestWritten _ := .ok ()
  responseRead m := .ok (answerTo p.ledger.dag m)

theorem answersFrom_answeringFrom {p : ServerState env} : AnswersFrom p (answeringFrom p) :=
  fun m _ h _ => ⟨m, Except.ok.inj h⟩

theorem honest_of_nodes {s : ServerState env} (h : ∀ n ∈ s.nodes, ¬ IsWrapper n) : Honest s := by
  have hn : s.nodes = (stateOf env []).nodes ++ s.nodes := rfl
  exact .own (.start rfl) hn h

def pullingFrom (p : ServerState twoKeysEnv) : Handler twoKeysEnv (Option Message) :=
  handleFederationPullEventsFromPeer (answeringFrom p) (pullFrom peerId)

/-- A substrate that has taken in some material. -/
def withMaterial : ServerState twoKeysEnv := stateOf twoKeysEnv [⟨[], "raw_material:text", 0, [1]⟩]

theorem honest_pull_material : ∃ ds r, ∃ s t : ServerState twoKeysEnv,
    Run (stateOf twoKeysEnv []) ds s ∧ Honest withMaterial ∧
    (pullingFrom withMaterial).exec s = some (r, t) ∧ t.nodes.length = s.nodes.length + 2 ∧
    NoInjectionAlarm s t := by
  have h : (runCalls (stateOf twoKeysEnv []) [listening, greeting (helloUnder oldKey 0)]).any
      (fun p => ((pullingFrom withMaterial).exec p.2).any
        fun q => q.2.nodes.length = p.2.nodes.length + 2) = true := by
    decide +kernel
  obtain ⟨⟨ds, s⟩, hrun, hs⟩ := (Option.any_eq_true _ _).1 h
  obtain ⟨⟨r, t⟩, hpull, hlen⟩ := (Option.any_eq_true _ _).1 hs
  have hone : ∀ n ∈ withMaterial.nodes, n.nodeType = "raw_material:text" := by decide
  have hown : ∀ n ∈ withMaterial.nodes, ¬ IsWrapper n := by
    intro n hn
    rw [IsWrapper, hone n hn]
    decide
  have hhonest : Honest withMaterial := honest_of_nodes hown
  refine ⟨ds, r, s, t, run_of_runCalls hrun, hhonest, hpull, by simpa using hlen,
    (honest_pull hhonest answersFrom_answeringFrom hpull).2 fun id batch hb ev hev => ?_⟩
  obtain ⟨n, hn, rfl⟩ := pulledBatch_served answersFrom_answeringFrom hb hev
  refine ⟨?_, 0, Nat.zero_le _, .own (hown n hn)⟩
  show isFederationSafeNodeType n.nodeType = true
  rw [hone n hn]
  decide

/-- A substrate that has opened a listener serves the event that records it, and whoever pulls from
it raises the alarm. -/
theorem honest_pull_raises_alarm : ∃ ds es r, ∃ p s t : ServerState twoKeysEnv,
    Run (stateOf twoKeysEnv []) ds p ∧ Run (stateOf twoKeysEnv []) es s ∧ Honest p ∧ Honest s ∧
    (pullingFrom p).exec s = some (r, t) ∧
    (∃ batch, pulledBatch s peerId (answeringFrom p) (pullFrom peerId) = .ok batch ∧
      ∃ ev ∈ batch.events, ¬ isFederationSafeNodeType ev.nodeType) ∧
    ∃ n ∈ t.nodes, n ∉ s.nodes ∧
      n.nodeType = immunePrefix ++ "C35_federation_substrate_private_event_injection" := by
  have h : (runCalls (stateOf twoKeysEnv []) [listening]).any (fun p =>
      p.2.nodes.all (fun n => ¬ IsWrapper n) &&
      (runCalls (stateOf twoKeysEnv []) [listening, greeting (helloUnder oldKey 0)]).any fun q =>
        q.2.nodes.all (fun n => ¬ IsWrapper n) &&
        (pulledBatch q.2 peerId (answeringFrom p.2) (pullFrom peerId)).toOption.any (fun batch =>
          batch.events.any fun ev => ¬ isFederationSafeNodeType ev.nodeType) &&
        ((pullingFrom p.2).exec q.2).any fun u => u.2.nodes.any fun n => n ∉ q.2.nodes ∧
          n.nodeType = immunePrefix ++ "C35_federation_substrate_private_event_injection") =
      true := by
    decide +kernel
  obtain ⟨⟨ds, p⟩, hp, hrest⟩ := (Option.any_eq_true _ _).1 h
  rw [Bool.and_eq_true] at hrest
  obtain ⟨⟨es, s⟩, hs, hpull⟩ := (Option.any_eq_true _ _).1 hrest.2
  simp only [Bool.and_eq_true] at hpull
  obtain ⟨⟨hown, hbatch⟩, hexec⟩ := hpull
  obtain ⟨⟨r, t⟩, ht, hnode⟩ := (Option.any_eq_true _ _).1 hexec
  obtain ⟨batch, hb, hev⟩ := (Option.any_eq_true _ _).1 hbatch
  obtain ⟨ev, hmem, hbanned⟩ := List.any_eq_true.1 hev
  obtain ⟨n, hn, hnew⟩ := List.any_eq_true.1 hnode
  rw [decide_eq_true_eq] at hnew hbanned
  exact ⟨ds, es, r, p, s, t, run_of_runCalls hp, run_of_runCalls hs,
    honest_of_nodes fun n hn => by simpa using List.all_eq_true.1 hrest.1 n hn,
    honest_of_nodes fun n hn => by simpa using List.all_eq_true.1 hown n hn, ht,
    ⟨batch, toOption_eq_some.1 hb, ev, hmem, hbanned⟩, n, hn, hnew⟩

end

end Myco.Federation
