import Myco.Consensus.FloorSound

/-!
# Pins

How the key that is pinned for a peer changes over a run (`pins_kept`), and when two connections are
held for one peer under different keys (`live_keys_agree`). A hello that comes in is compared with
nobody, so a peer whose hellos have two keys has the last one pinned, and both connections.
-/

namespace Myco.Consensus

open Myco.Lib Myco.Canonical Myco.Schema Myco.Substrate Myco.Federation

variable {env : Env}

/-- A hello for `id` comes in, and is admitted with this key. -/
inductive Greets (s : ServerState env) (e : Event) (id : Hash32) (key : Option Hash32) : Prop
  | admitted (input : PollInput) (i : Nat) (p : PeerConnection) (parsed : ParsedFedHello)
      (verified : Bool) : e.polled s = some input → ¬ acceptFails s input →
      (callersOf s input)[i]? = some p → AdmitsAs s (input.sockets.hellos i) p parsed verified →
      parsed.peerSubstrateId = id → parsed.pinnedSigner verified = key → Greets s e id key

/-- Whoever answers a dial is pinned, but the parent link pins the parent only. -/
def Event.pinsAnswer (s : ServerState env) (id : Hash32) : Event → Prop
  | .call (.linkToParent ..) _ => parentToLink s = some id
  | _ => True

/-- A hello for `id`, who is not connected, answers a dial, and is admitted with this key. -/
inductive Answers (s : ServerState env) (e : Event) (id : Hash32) (key : Option Hash32) : Prop
  | admitted (dial : Dial) (addr : String) (parsed : ParsedFedHello) (verified : Bool) :
      e.pinsAnswer s id → e.dialled s = some dial → dialHello dial = .ok (addr, parsed) →
      admitHello env.signatures s.federation.acceptLegacyPeers parsed = .ok verified →
      parsed.peerSubstrateId ≠ ownId s → parsed.peerSubstrateId ∉ s.federation.peerIds →
      parsed.peerSubstrateId = id → parsed.pinnedSigner verified = key → Answers s e id key

/-- A hello for `id` is admitted that another key than `k` has signed. -/
def Repins (id k : Hash32) (s : ServerState env) (e : Event) : Prop :=
  ∃ pk, pk ≠ k ∧ (Greets s e id (some pk) ∨ Answers s e id (some pk))

/-- No peer is there with two keys. -/
def Agree (keys : List (Hash32 × Option Hash32)) : Prop :=
  ∀ id k k', (id, k) ∈ keys → (id, k') ∈ keys → k = k'

/-- A hello comes in from a peer with another key than one of its connections or hellos has. -/
def Conflicts (s : ServerState env) (e : Event) : Prop :=
  ∃ id k k', k ≠ k' ∧ Greets s e id k ∧
    ((id, k') ∈ s.federation.pinnedKeys ∨ Greets s e id k')

/-! ### Hellos that are admitted -/

section

variable {s : ServerState env} {e : Event} {input : PollInput} {dial : Dial} {id : Hash32}
  {key : Option Hash32}

/-- A poll pins for hellos that it reads. -/
theorem greets_of_pinned (hpolled : e.polled s = some input)
    (h : (id, key) ∈ (pollChange s input).pinned) : Greets s e id key := by
  have hcallers := @acceptPending_callersOf _ s input
  have hlegacy := @acceptPending_legacy _ s input
  have hfails : ¬ acceptFails s input := by
    intro hfails
    obtain ⟨error, herror, -⟩ := serve_of_acceptFails hfails
    rw [pollChange, herror] at h
    cases h
  obtain ⟨r, hok⟩ := serve_of_not_acceptFails hfails
  unfold pollChange serve at h
  unfold serve at hok
  generalize s.federation.acceptPending input.accepted = accepted at hcallers hlegacy hok h
  obtain ⟨outcome, f⟩ := accepted
  cases outcome with
  | error error => cases hok
  | ok n =>
    dsimp only at hcallers hlegacy h
    rw [admissions_progressPeers, greeted, hlegacy] at h
    obtain ⟨i, p, hp, hadmitted⟩ := mem_admissions_progress.1 h
    obtain ⟨event, hevent, hadmission⟩ := List.mem_filterMap.1 hadmitted
    cases event with
    | pinned _ addr tip _ v =>
      cases hadmission
      obtain ⟨parsed, hadmits, hid, hkey⟩ := admitsAs_of_pinned hevent
      exact ⟨input, i, p, parsed, v, hpolled, hfails, hcallers ▸ hp, hadmits, hid, hkey⟩
    | _ => cases hadmission

/-- A dial pins for the hello that answers it. -/
theorem answers_of_pinned (hdialled : e.dialled s = some dial) (hpins : e.pinsAnswer s id)
    (h : (id, key) ∈ (dialChange s dial).pinned) : Answers s e id key := by
  unfold dialChange FederationState.connectPeer at h
  cases hdial : dialHello dial with
  | error error =>
    rw [hdial] at h
    cases h
  | ok answer =>
    obtain ⟨addr, parsed⟩ := answer
    rw [hdial] at h
    dsimp only at h
    have hadmission := Option.mem_toList.1 h
    generalize hout : (s.federation.connectHello env.signatures (ownId s) dial.openedAtUnixNs addr
      parsed).1 = outcome at hadmission
    cases outcome with
    | pinned _ addr' tip _ v =>
      cases hadmission
      obtain ⟨w, hadmit, rfl, hkey, hother, hnew⟩ := of_connectHello_pinned hout
      exact ⟨dial, addr, parsed, w, hpins, hdialled, hdial, hadmit, hother, hnew, rfl, hkey.symm⟩
    | _ => cases hadmission

/-- Whoever is pinned has said a hello. -/
theorem hello_of_pinned (h : (id, key) ∈ (e.change s).pinned) :
    Greets s e id key ∨ Answers s e id key := by
  rcases e with ⟨c, answer⟩ | _
  · cases c with
    | poll input request => exact .inl (greets_of_pinned rfl h)
    | tick input =>
      rw [Event.change, tickChange] at h
      split at h
      · cases h
      · rename_i hactive
        exact .inl (greets_of_pinned (if_neg hactive) h)
    | connectPeer dial request =>
      rw [Event.change, connectChange] at h
      split at h
      · rename_i hnames
        exact .inr (answers_of_pinned (if_pos hnames) trivial h)
      · cases h
    | linkToParent dial request =>
      rw [Event.change, linkChange] at h
      split at h
      · cases h
      · rename_i parent hparent
        obtain ⟨hpinned, hid⟩ := List.mem_filter.1 h
        have hid : id = parent := by simpa using hid
        subst hid
        exact .inr (answers_of_pinned (if_pos (hparent ▸ rfl)) hparent hpinned)
    | openListener bound request =>
      rw [Event.change, openListenerChange] at h
      split at h <;> cases h
    | closeListener request | revoke r | restart acceptLegacyPeers | propose request
    | submit request | query request => cases h
  · cases h

end

/-! ### Pins in the log -/

section

variable {s t : ServerState env} {e : Event} {es : List Event} {id k pk : Hash32}
  {ns ms : List DagNode}

/-- Only a pin with another key unseats a pin. -/
theorem get_pinsOf_append (h : OrdMap.get id (pinsOf [] ns) = some k)
    (hms : ∀ m ∈ ms, ∀ pk, pinOf m = some (id, pk) → pk = k) :
    OrdMap.get id (pinsOf [] (ns ++ ms)) = some k := by
  induction ms using List.reverseRecOn with
  | nil => rwa [List.append_nil]
  | append_singleton ms m ih =>
    have hrest := ih fun x hx => hms x (List.mem_append_left _ hx)
    rw [← List.append_assoc, get_pinsOf_append_singleton]
    cases hp : pinOf m with
    | none => exact hrest
    | some p =>
      obtain ⟨id', pk⟩ := p
      dsimp only
      split
      · rename_i hid
        obtain ⟨rfl, -⟩ := hid
        rw [hms m (List.mem_append_right _ List.mem_cons_self) pk hp]
      · exact hrest

theorem pin_step (h : Step s e t) (hpin : OrdMap.get id (pinsOf [] s.nodes) = some k) :
    OrdMap.get id (pinsOf [] t.nodes) = some k ∨ Repins id k s e := by
  obtain ⟨ns, hn, hns⟩ := (step_does h).nodes
  by_cases hre : Repins id k s e
  · exact .inr hre
  · refine .inl ?_
    rw [hn]
    refine get_pinsOf_append hpin fun m hm pk hp => ?_
    by_contra hne
    exact hre ⟨pk, hne, hello_of_pinned ((hns m hm).pin id pk hp)⟩

theorem get_derivePins : OrdMap.get id (derivePinnedSignerPubkeys s) =
    if id ∈ s.revokedFederationPeers then none else OrdMap.get id (pinsOf [] s.nodes) :=
  get_pinsOf

theorem pin_of_derivePins (h : OrdMap.get id (derivePinnedSignerPubkeys s) = some k) :
    OrdMap.get id (pinsOf [] s.nodes) = some k := by
  rw [get_derivePins] at h
  split at h
  · cases h
  · exact h

/-- A pin is kept until another key is pinned, unless the peer is revoked. -/
theorem pins_kept (h : Run s es t) (hpin : OrdMap.get id (derivePinnedSignerPubkeys s) = some k) :
    OrdMap.get id (derivePinnedSignerPubkeys t) = some k ∨ id ∈ t.revokedFederationPeers ∨
      Path.Meets Step (Repins id k) s es := by
  rcases h.keeps_or (fun _ _ _ _ _ => pin_step) (pin_of_derivePins hpin) with hlog | hmeets
  · rw [get_derivePins]
    by_cases hrev : id ∈ t.revokedFederationPeers
    · exact .inr (.inl hrev)
    · exact .inl (by rw [if_neg hrev, hlog])
  · exact .inr (.inr hmeets)

/-! ### Keys of the connected -/

theorem agree_nil : Agree [] := nofun

theorem agree_dial {dial : Dial} (h : Agree s.federation.pinnedKeys) :
    Agree (dialChange s dial).federation.pinnedKeys := by
  intro id k k' hk hk'
  have hids : ∀ k, (id, k) ∈ s.federation.pinnedKeys → id ∈ s.federation.peerIds := by
    intro k hk
    obtain ⟨p, hp, hpk⟩ := List.mem_filterMap.1 hk
    obtain ⟨id', hid, heq⟩ := Option.map_eq_some_iff.1 hpk
    cases heq
    exact List.mem_filterMap.2 ⟨p, hp, hid⟩
  rcases pinnedKeys_dialChange hk with hold | ⟨hnew, hid⟩
  · rcases pinnedKeys_dialChange hk' with hold' | ⟨hnew', hid'⟩
    · exact h id k k' hold hold'
    · exact absurd (hids k hold) hid'
  · rcases pinnedKeys_dialChange hk' with hold' | ⟨hnew', hid'⟩
    · exact absurd (hids k' hold') hid
    · rcases @dialChange_cases _ s dial with hc | ⟨id', key, addr, hc, -⟩
      · rw [hc] at hnew
        cases hnew
      · rw [hc] at hnew hnew'
        cases List.mem_singleton.1 hnew
        cases List.mem_singleton.1 hnew'
        rfl

theorem agree_poll {input : PollInput} (hs : ∀ p ∈ s.federation.peers, p.Sane (ownId s))
    (h : Agree s.federation.pinnedKeys) (hpolled : e.polled s = some input) :
    Agree (e.change s).federation.pinnedKeys ∨ Conflicts s e := by
  by_cases hc : Conflicts s e
  · exact .inr hc
  · refine .inl fun id k k' hk hk' => ?_
    by_contra hne
    rw [change_of_polled hpolled] at hk hk'
    rcases pinnedKeys_pollChange hs hk with hold | hnew
    · rcases pinnedKeys_pollChange hs hk' with hold' | hnew'
      · exact hne (h id k k' hold hold')
      · exact hc ⟨id, k', k, Ne.symm hne, greets_of_pinned hpolled hnew', .inl hold⟩
    · rcases pinnedKeys_pollChange hs hk' with hold' | hnew'
      · exact hc ⟨id, k, k', hne, greets_of_pinned hpolled hnew, .inl hold'⟩
      · exact hc ⟨id, k, k', hne, greets_of_pinned hpolled hnew,
          .inr (greets_of_pinned hpolled hnew')⟩

theorem agree_change (hs : ∀ p ∈ s.federation.peers, p.Sane (ownId s))
    (h : Agree s.federation.pinnedKeys) :
    Agree (e.change s).federation.pinnedKeys ∨ Conflicts s e := by
  cases hpolled : e.polled s with
  | some input => exact agree_poll hs h hpolled
  | none =>
    refine .inl ?_
    cases hdialled : e.dialled s with
    | some dial =>
      rw [change_of_dialled hdialled]
      exact agree_dial h
    | none =>
      rw [FederationState.pinnedKeys, change_of_neither hpolled hdialled]
      split
      · exact agree_nil
      · exact h

/-- The connections of a peer have one key until a hello comes in with another. -/
theorem live_keys_agree (hs : Fresh s) (h : Run s es t) :
    Agree t.federation.pinnedKeys ∨ Path.Meets Step Conflicts s es := by
  refine h.keeps_or (I := fun s => Agree s.federation.pinnedKeys) (fun ys u e v hu hstep hagree => ?_)
    (by rw [FederationState.pinnedKeys, hs.peers]; exact agree_nil)
  rw [(step_does hstep).federation_eq]
  exact agree_change (sane_of_run hs hu) hagree

end

/-- A pin stays until a hello under another key is admitted, and connections for one peer have one
key until such a hello comes in. -/
theorem tofu_pins {s u t : ServerState env} {ds es : List Event} (hs : Fresh s) (hu : Run s ds u)
    (ht : Run u es t) :
    (∀ id k, OrdMap.get id (derivePinnedSignerPubkeys u) = some k →
      OrdMap.get id (derivePinnedSignerPubkeys t) = some k ∨ id ∈ t.revokedFederationPeers ∨
        Path.Meets Step (Repins id k) u es) ∧
    (Agree u.federation.pinnedKeys ∨ Path.Meets Step Conflicts s ds) :=
  ⟨fun _ _ hpin => pins_kept ht hpin, live_keys_agree hs hu⟩

/-! ### A peer with two keys -/

section

theorem tofu_pins_first_hello : ∃ ds, ∃ u : ServerState twoKeysEnv,
    Run (stateOf twoKeysEnv []) ds u ∧
    OrdMap.get peerId (derivePinnedSignerPubkeys u) = some oldKey ∧
    (∀ id k, OrdMap.get id (derivePinnedSignerPubkeys u) = some k →
      OrdMap.get id (derivePinnedSignerPubkeys (reboot false u)) = some k ∨
        id ∈ (reboot false u).revokedFederationPeers ∨
        Path.Meets Step (Repins id k) u [.call (.restart false) (.ok none)]) ∧
    (Agree u.federation.pinnedKeys ∨ Path.Meets Step Conflicts (stateOf twoKeysEnv []) ds) := by
  have h : (runCalls (stateOf twoKeysEnv []) [listening, greeting (helloUnder oldKey 0)]).any
      (fun p => OrdMap.get peerId (derivePinnedSignerPubkeys p.2) = some oldKey) = true := by
    decide +kernel
  obtain ⟨⟨ds, u⟩, hrun, hp⟩ := (Option.any_eq_true _ _).1 h
  have hu := run_of_runCalls hrun
  have hrestart : Run u [.call (.restart false) (.ok none)] (reboot false u) :=
    .cons (.call rfl) .nil
  exact ⟨ds, u, hu, by simpa using hp, tofu_pins fresh_stateOf hu hrestart⟩

/-- The second hello of a peer, under another key, replaces its pin and leaves both connections. -/
theorem second_hello_repins : ∃ ds es, ∃ u t : ServerState twoKeysEnv,
    Run (stateOf twoKeysEnv []) ds u ∧ Run u es t ∧
    OrdMap.get peerId (derivePinnedSignerPubkeys u) = some oldKey ∧
    OrdMap.get peerId (derivePinnedSignerPubkeys t) = some newKey ∧
    peerId ∉ t.revokedFederationPeers ∧
    (peerId, some oldKey) ∈ t.federation.pinnedKeys ∧
    (peerId, some newKey) ∈ t.federation.pinnedKeys := by
  have h : (runCalls (stateOf twoKeysEnv []) [listening, greeting (helloUnder oldKey 0)]).any
      (fun p => (OrdMap.get peerId (derivePinnedSignerPubkeys p.2) = some oldKey : Bool) &&
        (runCalls p.2 [greeting (helloUnder newKey 1)]).any fun q =>
          OrdMap.get peerId (derivePinnedSignerPubkeys q.2) = some newKey &&
          decide (peerId ∉ q.2.revokedFederationPeers) &&
          decide ((peerId, some oldKey) ∈ q.2.federation.pinnedKeys) &&
          decide ((peerId, some newKey) ∈ q.2.federation.pinnedKeys)) = true := by
    decide +kernel
  obtain ⟨⟨ds, u⟩, hrun, hp⟩ := (Option.any_eq_true _ _).1 h
  rw [Bool.and_eq_true] at hp
  obtain ⟨⟨es, t⟩, hrun', hq⟩ := (Option.any_eq_true _ _).1 hp.2
  simp only [Bool.and_eq_true, decide_eq_true_eq] at hq
  obtain ⟨⟨⟨hnew, hrev⟩, hold⟩, hboth⟩ := hq
  exact ⟨ds, es, u, t, run_of_runCalls hrun, run_of_runCalls hrun', by simpa using hp.1, hnew,
    hrev, hold, hboth⟩

end

end Myco.Consensus
