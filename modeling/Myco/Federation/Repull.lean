import Myco.Federation.Private

/-!
# Pulling a batch again

A wrapper's parent is the local tip, and the tip is nobody's parent. So a wrapper is never the same
node as one that is there already, and a batch that is pulled again leaves its wrappers again: one
for each event that is safe (`repull_adds_none_iff`).
-/

namespace Myco.Federation

open Myco.Lib Myco.Canonical Myco.Schema Myco.Substrate Myco.Consensus

variable {env : Env}

/-! ### One pull -/

section

variable {s t : ServerState env} {id : Hash32} {batch : ParsedEventBatch} {request : Message}
  {wire : PullWire} {r : Except SubstrateError (Option Message)}

theorem federationReceivedNodeType_ne : federationReceivedNodeType id ≠ "" := by
  intro h
  have hstart : startsWith federationReceivedPrefix (federationReceivedNodeType id) :=
    startsWith_append
  rw [h] at hstart
  exact absurd hstart (by decide)

theorem sure_alarmIf {offence : Bool} {detectorId name evidence : String} :
    Sure (alarmIf offence detectorId name evidence : Handler env PUnit) := by
  unfold alarmIf
  split
  · exact sure_bind (sure_attempt quiet_emitImmuneSporocarp) fun _ => sure_pure
  · exact sure_pure

theorem sure_wrapEvent {ev : EventForFederation} :
    Sure (wrapEvent id ev : Handler env NodeHash) :=
  sure_insertNode (fun _ => rfl) fun _ => federationReceivedNodeType_ne

theorem sure_markReceived {hashes : List Hash32} :
    Sure (markReceived id hashes : Handler env (Option NodeHash)) := by
  refine sure_bind sure_readClock fun now => ?_
  split
  · exact sure_pure
  · exact sure_bind (sure_emitSubstrateEvent (by decide)) fun _ => sure_pure

theorem sure_ingestBatch :
    Sure (ingestBatch id request batch : Handler env (Option Message)) := by
  unfold ingestBatch
  split
  · exact sure_halt
  · exact sure_bind (sure_bind sure_alarmIf fun _ => sure_bind sure_alarmIf fun _ => sure_alarmIf)
      fun _ => sure_bind (sure_mapM fun _ _ => sure_wrapEvent) fun _ =>
        sure_bind sure_markReceived fun _ => sure_pure

/-- A pull of this batch, and its answer. -/
def Pulled (s : ServerState env) (id : Hash32) (batch : ParsedEventBatch)
    (r : Except SubstrateError (Option Message)) (t : ServerState env) : Prop :=
  ∃ wire request, bytes32? request.payload "peer_substrate_id" = some id ∧
    pulledBatch s id wire request = .ok batch ∧
    (handleFederationPullEventsFromPeer wire request).exec s = some (r, t)

theorem Pulled.cases (h : Pulled s id batch r t) :
    (id ∈ s.revokedFederationPeers ∧ Adds (fun n => ¬ IsWrapper n) s t) ∨
    (id ∉ s.revokedFederationPeers ∧
      ∃ request, (ingestBatch id request batch).exec s = some (r, t)) := by
  obtain ⟨wire, request, hid, hb, h⟩ := h
  rcases pull_cases h with ⟨hadds, hfail⟩ | ⟨id', batch', hid', hrev, hb', h⟩
  · rcases hfail id hid with hrev | ⟨e, he⟩
    · exact .inl ⟨hrev, hadds⟩
    · rw [hb] at he
      cases he
  · obtain rfl : id = id' := Option.some.inj (hid.symm.trans hid')
    obtain rfl : batch = batch' := Except.ok.inj (hb.symm.trans hb')
    exact .inr ⟨hrev, request, h⟩

end

/-! ### Two pulls -/

instance {id : Hash32} {ev : EventForFederation} {n : DagNode} : Decidable (Wraps env id ev n) :=
  decidable_of_iff (n.nodeType = federationReceivedNodeType id ∧
    n.content = encodeFederationReceived env id ev ∧ n.content.length ≤ isizeMax)
    ⟨fun ⟨ht, hc, hf⟩ => ⟨ht, hc, hf⟩, fun ⟨ht, hc, hf⟩ => ⟨ht, hc, hf⟩⟩

section

variable {s t u v : ServerState env} {id : Hash32} {batch : ParsedEventBatch}
  {r r' : Except SubstrateError (Option Message)}

/-- Every node that wraps an event of the batch was there. -/
def WrapsNoneAgain (id : Hash32) (batch : ParsedEventBatch) (s t : ServerState env) : Prop :=
  ∀ ev ∈ batch.events, ∀ n ∈ t.nodes, Wraps env id ev n → n ∈ s.nodes

theorem mem_wrappersOf {nodes : List DagNode} {n : DagNode} :
    n ∈ wrappersOf nodes ↔ n ∈ nodes ∧ IsWrapper n := by
  simp [wrappersOf]

theorem wrapsNoneAgain_of_wrappers (h : wrappersOf t.nodes = wrappersOf s.nodes) :
    WrapsNoneAgain id batch s t := by
  intro ev _ n hn hw
  have hmem : n ∈ wrappersOf t.nodes := mem_wrappersOf.2 ⟨hn, hw.isWrapper⟩
  rw [h] at hmem
  exact (mem_wrappersOf.1 hmem).1

/-- A wrapper that is appended was not there. -/
theorem not_wrapsNoneAgain {ev : EventForFederation} {n : DagNode} {ws : List DagNode}
    (hev : ev ∈ batch.events) (hw : Wraps env id ev n) (hn : n ∈ ws)
    (h : wrappersOf t.nodes = wrappersOf s.nodes ++ ws) : ¬ WrapsNoneAgain id batch s t := by
  intro hnone
  have hnew : n ∈ wrappersOf t.nodes := by
    rw [h]
    exact List.mem_append_right _ hn
  have hold : n ∈ wrappersOf s.nodes :=
    mem_wrappersOf.2 ⟨hnone ev hev n (mem_wrappersOf.1 hnew).1 hw, hw.isWrapper⟩
  have hnodup : (wrappersOf t.nodes).Nodup :=
    (List.Nodup.of_map _ t.ledger.recorded.nodup).sublist List.filter_sublist
  rw [h] at hnodup
  exact (List.nodup_append.1 hnodup).2.2 n hold n hn rfl

theorem ingestBatch_wrapsNone_iff {request : Message} {x : Option Message}
    (h : (ingestBatch id request batch).exec s = some (.ok x, t)) :
    WrapsNoneAgain id batch s t ↔ ∀ ev ∈ batch.events, verdict env ev ≠ some .safe := by
  obtain ⟨ws, hn, hws⟩ := ingestBatch_wrappers h
  constructor
  · intro hnone ev hev hsafe
    have hmem : ev ∈ batch.events.filter fun ev => verdict env ev = some .safe :=
      List.mem_filter.2 ⟨hev, by simpa using hsafe⟩
    obtain ⟨n, hm, hw⟩ := exists_wrapper hws hmem
    exact not_wrapsNoneAgain hev hw hm hn hnone
  · intro hunsafe
    have hempty : batch.events.filter (fun ev => verdict env ev = some .safe) = [] :=
      List.filter_eq_nil_iff.2 fun ev hev => by simpa using hunsafe ev hev
    rw [hempty] at hws
    cases hws
    rw [List.append_nil] at hn
    exact wrapsNoneAgain_of_wrappers hn

/-- A batch that is pulled again adds no further wrapper exactly where the peer is revoked by then
or none of the events is safe. -/
theorem repull_adds_none_iff (_ : Grown s) (_ : Pulled s id batch r t)
    (_ : Relation.ReflTransGen GrowthStep t u) (h : Pulled u id batch r' v)
    (hr : ¬ Collided v ∨ ∃ x, r' = .ok x) :
    WrapsNoneAgain id batch u v ↔
      id ∈ u.revokedFederationPeers ∨ ∀ ev ∈ batch.events, verdict env ev ≠ some .safe := by
  rcases h.cases with ⟨hrev, hadds⟩ | ⟨hrev, request, h⟩
  · exact ⟨fun _ => .inl hrev, fun _ => wrapsNoneAgain_of_wrappers (wrappersOf_adds hadds)⟩
  · obtain ⟨x, rfl⟩ : ∃ x, r' = .ok x := hr.elim (sure_ingestBatch u r' v h).holds (·)
    rw [ingestBatch_wrapsNone_iff h]
    exact ⟨.inr, fun hc => hc.resolve_left hrev⟩

end

/-! ### Material, twice -/

section

def material : EventForFederation := ⟨[], "raw_material:text", 0, [1]⟩

def pullMaterial : Handler twoKeysEnv (Option Message) :=
  handleFederationPullEventsFromPeer (answering [material]) (pullFrom peerId)

theorem pulled_of_pullMaterial {s t : ServerState twoKeysEnv}
    {r : Except SubstrateError (Option Message)}
    (hb : (pulledBatch s peerId (answering [material]) (pullFrom peerId)).toOption =
      some ⟨[material], true⟩) (h : pullMaterial.exec s = some (r, t)) :
    Pulled s peerId ⟨[material], true⟩ r t :=
  ⟨answering [material], pullFrom peerId, by decide, toOption_eq_some.1 hb, h⟩

theorem material_pulled_twice : ∃ ds r x, ∃ s u v : ServerState twoKeysEnv,
    Run (stateOf twoKeysEnv []) ds s ∧ Grown s ∧ Pulled s peerId ⟨[material], true⟩ r u ∧
    Pulled u peerId ⟨[material], true⟩ (.ok x) v ∧
    ∃ n ∈ v.nodes, Wraps twoKeysEnv peerId material n ∧ n ∉ u.nodes := by
  have h : (runCalls (stateOf twoKeysEnv []) [listening, greeting (helloUnder oldKey 0)]).any
      (fun p => p.2.nodes.all (fun n => family n.nodeType ≠ .absorption) &&
        ((pulledBatch p.2 peerId (answering [material]) (pullFrom peerId)).toOption =
          some ⟨[material], true⟩ : Bool) &&
        (pullMaterial.exec p.2).any fun q =>
          ((pulledBatch q.2 peerId (answering [material]) (pullFrom peerId)).toOption =
            some ⟨[material], true⟩ : Bool) &&
          (pullMaterial.exec q.2).any fun q' => q'.1.toOption.isSome &&
            q'.2.nodes.any fun n => Wraps twoKeysEnv peerId material n ∧ n ∉ q.2.nodes) = true := by
    decide +kernel
  obtain ⟨⟨ds, s⟩, hrun, hs⟩ := (Option.any_eq_true _ _).1 h
  simp only [Bool.and_eq_true, decide_eq_true_eq] at hs
  obtain ⟨⟨hall, hb⟩, hpull⟩ := hs
  obtain ⟨⟨r, u⟩, hu, hagain⟩ := (Option.any_eq_true _ _).1 hpull
  simp only [Bool.and_eq_true, decide_eq_true_eq] at hagain
  obtain ⟨hb', hpull'⟩ := hagain
  obtain ⟨⟨a, v⟩, hv, hw⟩ := (Option.any_eq_true _ _).1 hpull'
  rw [Bool.and_eq_true] at hw
  obtain ⟨x, hx⟩ := Option.isSome_iff_exists.1 hw.1
  obtain rfl : a = .ok x := toOption_eq_some.1 hx
  obtain ⟨n, hn, hnew⟩ := List.any_eq_true.1 hw.2
  rw [decide_eq_true_eq] at hnew
  exact ⟨ds, r, x, s, u, v, run_of_runCalls hrun,
    grown_of_nodes fun n hn => by simpa using List.all_eq_true.1 hall n hn,
    pulled_of_pullMaterial hb hu, pulled_of_pullMaterial hb' hv, n, hn, hnew⟩

theorem repull_adds_none_material : ∃ ds r x, ∃ s u v : ServerState twoKeysEnv,
    Run (stateOf twoKeysEnv []) ds s ∧ Pulled s peerId ⟨[material], true⟩ r u ∧
    Pulled u peerId ⟨[material], true⟩ (.ok x) v ∧
    (WrapsNoneAgain peerId ⟨[material], true⟩ u v ↔ peerId ∈ u.revokedFederationPeers ∨
      ∀ ev ∈ [material], verdict twoKeysEnv ev ≠ some .safe) := by
  obtain ⟨ds, r, x, s, u, v, hrun, hs, hu, hv, -⟩ := material_pulled_twice
  exact ⟨ds, r, x, s, u, v, hrun, hu, hv, repull_adds_none_iff hs hu .refl hv (.inr ⟨x, rfl⟩)⟩

/-- The second of two pulls of some material wraps it again. -/
theorem material_wrapped_again : ∃ ds r x, ∃ s u v : ServerState twoKeysEnv,
    Run (stateOf twoKeysEnv []) ds s ∧ Grown s ∧ Pulled s peerId ⟨[material], true⟩ r u ∧
    Pulled u peerId ⟨[material], true⟩ (.ok x) v ∧
    ¬ WrapsNoneAgain peerId ⟨[material], true⟩ u v := by
  obtain ⟨ds, r, x, s, u, v, hrun, hs, hu, hv, n, hn, hw, hnew⟩ := material_pulled_twice
  exact ⟨ds, r, x, s, u, v, hrun, hs, hu, hv, fun hnone =>
    hnew (hnone material (List.mem_singleton.2 rfl) n hn hw)⟩

end

end Myco.Federation
