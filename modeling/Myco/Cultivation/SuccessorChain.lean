import Mathlib.Data.List.Forall2
import Myco.Substrate.Additions
import Myco.Substrate.Laying
import Myco.Tropism.Replay

/-!
# The chain of successors

`handle_update_successor_chain` of `substrate/src/cultivation.rs`. Each entry names a successor and
the time from which, and until which, it is one: an interval that is closed below and open above.
The handler compares a new interval with the last one only. In a run the intervals are still in
order and apart (`WellFormed`), and the log holds the chain, entry by entry (`Mirrors`), from which
a restart reads it back.
-/

namespace Myco.Cultivation

open Myco.Lib Myco.Canonical Myco.Schema Myco.Substrate Myco.Federation
open Myco.Tropism (BootFiles bootState derivedState)

variable {env : Env}

/-! ### The code -/

def payloadBytes32 (request : Message) (key : String) : Except SubstrateError Hash32 :=
  match bytes32? request.payload key with
  | some h => .ok h
  | none => .error (.protocol s!"{key} must be 32 Bytes")

def payloadTimestamp (request : Message) (key : String) : Except SubstrateError Int64 :=
  match OrdMap.get key request.payload with
  | some (.timestamp t) => .ok t
  | _ => .error (.protocol s!"{key} must be a Timestamp")

def validUntil (request : Message) : Except SubstrateError (Option Int64) :=
  match OrdMap.get "valid_until_unix_ns" request.payload with
  | some (.timestamp t) => .ok (some t)
  | some .null | none => .ok none
  | _ => .error (.protocol
    "update_successor_chain: valid_until_unix_ns must be Timestamp or Null")

/-- Monotone `valid_from` and non-overlap, against the last entry. -/
def checkAgainstLast (last : SuccessorEntry) (validFrom : Int64) : Except SubstrateError Unit :=
  if validFrom ≤ last.validFromUnixNs then
    .error (.protocol s!"update_successor_chain: valid_from ({
      validFrom}) must be strictly greater than the last entry's valid_from ({
      last.validFromUnixNs}) — §3.2.A monotone interval")
  else
    match last.validUntilUnixNs with
    | some priorUntil =>
      if validFrom < priorUntil then
        .error (.protocol s!"update_successor_chain: interval overlap — prior entry valid_until ({
          priorUntil}) > new valid_from ({validFrom}); §3.2.A non-overlap")
      else .ok ()
    | none => .error (.protocol ("update_successor_chain: prior chain head is open-ended " ++
      "(valid_until=Null); close it before appending a successor — §3.2.A non-overlap"))

def checkInterval (validFrom : Int64) (validUntil : Option Int64) : Except SubstrateError Unit :=
  match validUntil with
  | some untilNs =>
    if untilNs ≤ validFrom then
      .error (.protocol s!"update_successor_chain: valid_until ({untilNs}) must be > valid_from ({
        validFrom})")
    else .ok ()
  | none => .ok ()

/-- The entry that a request asks to append, or what is wrong with it. -/
def checkEntry (chain : List SuccessorEntry) (request : Message) :
    Except SubstrateError SuccessorEntry := do
  let pubkey ← payloadBytes32 request "successor_pubkey"
  let validFrom ← payloadTimestamp request "valid_from_unix_ns"
  let validUntil ← validUntil request
  match chain.getLast? with
  | some last => checkAgainstLast last validFrom
  | none => .ok ()
  checkInterval validFrom validUntil
  .ok ⟨pubkey, validFrom, validUntil⟩

def successorChainUpdatedNodeType (pubkey : Hash32) : String :=
  successorChainUpdatedPrefix ++ hexFirst8Bytes pubkey

def handleUpdateSuccessorChain (request : Message) : Handler env (Option Message) := do
  let s ← get
  match checkEntry s.successorChain request with
  | .error e => throw e
  | .ok entry =>
    let chainPosition := UInt64.ofNat s.successorChain.length
    let updatedHash ← emitSubstrateEvent (successorChainUpdatedNodeType entry.pubkey)
      (encodeSuccessorChainUpdated entry chainPosition s.cycleCounter)
    modify fun s => { s with successorChain := s.successorChain ++ [entry] }
    let s ← get
    pure (respond "update_successor_chain_response" request
      [("updated_event_hash", hashValue updatedHash),
        ("chain_length", .uint (UInt64.ofNat s.successorChain.length))])

/-! ### Chains -/

/-- The successor is designated at this time. -/
def Covers (e : SuccessorEntry) (t : Int64) : Prop :=
  e.validFromUnixNs ≤ t ∧ ∀ u, e.validUntilUnixNs = some u → t < u

/-- The interval of `a` closes before that of `b` opens. -/
def ClosesBefore (a b : SuccessorEntry) : Prop :=
  ∃ u, a.validUntilUnixNs = some u ∧ u ≤ b.validFromUnixNs

/-- Some time is covered. -/
def Proper (e : SuccessorEntry) : Prop :=
  ∀ u, e.validUntilUnixNs = some u → e.validFromUnixNs < u

/-- Every interval is proper, and closes before the later ones open. -/
structure WellFormed (chain : List SuccessorEntry) : Prop where
  proper : ∀ e ∈ chain, Proper e
  apart : chain.Pairwise ClosesBefore

theorem covers_start {e : SuccessorEntry} (h : Proper e) : Covers e e.validFromUnixNs :=
  ⟨Int64.le_refl _, h⟩

section

variable {chain : List SuccessorEntry} {a b e last : SuccessorEntry} {t : Int64}

theorem ClosesBefore.sorted (h : ClosesBefore a b) (ha : Proper a) :
    a.validFromUnixNs < b.validFromUnixNs := by
  obtain ⟨u, hu, hle⟩ := h
  exact Int64.lt_of_lt_of_le (ha u hu) hle

theorem ClosesBefore.not_covers (h : ClosesBefore a b) (ha : Covers a t) : ¬ Covers b t := by
  obtain ⟨u, hu, hle⟩ := h
  intro hb
  exact Int64.lt_irrefl (Int64.lt_of_lt_of_le (ha.2 u hu) (Int64.le_trans hle hb.1))

theorem wellFormed_nil : WellFormed [] := ⟨nofun, .nil⟩

/-- An interval that opens when the last one has closed opens when every one has. -/
theorem WellFormed.snoc (h : WellFormed chain) (hlast : ∀ last, chain.getLast? = some last →
    ClosesBefore last e) (he : Proper e) : WellFormed (chain ++ [e]) := by
  refine ⟨?_, List.pairwise_append.2 ⟨h.apart, List.pairwise_singleton _ _, ?_⟩⟩
  · intro x hx
    rcases List.mem_append.1 hx with hx | hx
    · exact h.proper x hx
    · exact List.mem_singleton.1 hx ▸ he
  · intro x hx y hy
    rw [List.mem_singleton.1 hy]
    rcases List.eq_nil_or_concat chain with rfl | ⟨init, last, rfl⟩
    · cases hx
    rw [List.concat_eq_append] at *
    have hclose := hlast last (by simp)
    rcases List.mem_append.1 hx with hx | hx
    · -- the last interval lies between
      obtain ⟨u, hu, hle⟩ := (List.pairwise_append.1 h.apart).2.2 x hx last List.mem_cons_self
      have hlt := hclose.sorted (h.proper last (by simp))
      exact ⟨u, hu, Int64.le_trans hle (Int64.le_of_lt hlt)⟩
    · exact List.mem_singleton.1 hx ▸ hclose

end

/-! ### The chain in the log -/

/-- The events of the chain. -/
def chainEvents (ns : List DagNode) : List DagNode :=
  ns.filter fun n => startsWith successorChainUpdatedPrefix n.nodeType

/-- The event of the entry at this position. -/
def Records (n : DagNode) (p : SuccessorEntry × Nat) : Prop :=
  n.content.length ≤ isizeMax ∧
    ∃ cycle, n.content = encodeSuccessorChainUpdated p.1 (UInt64.ofNat p.2) cycle

/-- The events of the chain, in the order of the log, are those of its entries. -/
def Mirrors (ns : List DagNode) (chain : List SuccessorEntry) : Prop :=
  List.Forall₂ Records (chainEvents ns) chain.zipIdx

/-- Of neither family from which `DerivedState` reads the chain and the configuration. -/
def Elsewhere (n : DagNode) : Prop :=
  ¬ startsWith successorChainUpdatedPrefix n.nodeType ∧ n.nodeType ≠ successionConfigDeclaredType

/-- The log holds a chain that is well formed, and no configuration. -/
structure Holds (ns : List DagNode) (chain : List SuccessorEntry) : Prop where
  wellFormed : WellFormed chain
  mirrors : Mirrors ns chain
  unconfigured : ∀ n ∈ ns, n.nodeType ≠ successionConfigDeclaredType

section

variable {ns ws : List DagNode} {chain : List SuccessorEntry} {e : SuccessorEntry} {n : DagNode}
  {i : Nat} {d : DerivedState}

theorem chainEvents_append : chainEvents (ns ++ ws) = chainEvents ns ++ chainEvents ws :=
  List.filter_append ..

theorem chainEvents_elsewhere (h : ∀ w ∈ ws, Elsewhere w) : chainEvents ws = [] :=
  List.filter_eq_nil_iff.2 fun w hw => by simpa using (h w hw).1

theorem holds_of_elsewhere (h : ∀ n ∈ ns, Elsewhere n) : Holds ns [] where
  wellFormed := wellFormed_nil
  mirrors := by
    rw [Mirrors, chainEvents_elsewhere h]
    exact .nil
  unconfigured n hn := (h n hn).2

theorem Holds.elsewhere (h : Holds ns chain) (hw : ∀ w ∈ ws, Elsewhere w) :
    Holds (ns ++ ws) chain where
  wellFormed := h.wellFormed
  mirrors := by
    rw [Mirrors, chainEvents_append, chainEvents_elsewhere hw, List.append_nil]
    exact h.mirrors
  unconfigured n hn :=
    (List.mem_append.1 hn).elim (h.unconfigured n) fun hn => (hw n hn).2

theorem Holds.snoc (h : Holds ns chain) (hwf : WellFormed (chain ++ [e]))
    (ht : startsWith successorChainUpdatedPrefix n.nodeType) (hr : Records n (e, chain.length)) :
    Holds (ns ++ [n]) (chain ++ [e]) where
  wellFormed := hwf
  mirrors := by
    have hn : chainEvents [n] = [n] := List.filter_eq_self.2 fun m hm => by
      rw [List.mem_singleton.1 hm]
      simpa using ht
    rw [Mirrors, chainEvents_append, hn, List.zipIdx_append]
    exact List.rel_append h.mirrors (.cons (by simpa using hr) .nil)
  unconfigured m hm := by
    rcases List.mem_append.1 hm with hm | hm
    · exact h.unconfigured m hm
    · rw [List.mem_singleton.1 hm]
      exact ne_of_startsWith ht (by decide)

/-! ### Reading it back -/

theorem readSuccessorChainUpdated_records (h : Records n (e, i)) :
    readSuccessorChainUpdated n = .ok e := by
  obtain ⟨hmem, cycle, hc⟩ := h
  have hwf : ∀ x ∈ [("successor_pubkey", hashValue e.pubkey),
      ("valid_from_unix_ns", .timestamp e.validFromUnixNs),
      ("valid_until_unix_ns", e.validUntilUnixNs.elim .null .timestamp),
      ("chain_position", .uint (UInt64.ofNat i)), ("updated_at_cycle", .uint cycle)], x.2.WF := by
    cases e.validUntilUnixNs <;> simp [Value.WF, hashValue]
  rw [readSuccessorChainUpdated, decodeEventMap_cbEncode hc hmem hwf, ok_bind]
  obtain ⟨pubkey, validFrom, validUntil⟩ := e
  cases validUntil <;>
    simp [bytes32Field, timestampField, mapGetBytes, mapGet, get_mapOf, OrdMap.get_cons,
      Value.bytes?, canonicalField, Except.mapError, hashValue, pubkey.length_eq, timestamp?]

/-- Replaying the log appends the entries that it records, in their order. -/
theorem replays_of_records {k : Nat} {entries : List SuccessorEntry}
    (h : List.Forall₂ Records (chainEvents ns) (entries.zipIdx k))
    (hconf : ∀ n ∈ ns, n.nodeType ≠ successionConfigDeclaredType) :
    Replays rederiveEvent ns d { d with successorChain := d.successorChain ++ entries } := by
  induction ns generalizing k entries d with
  | nil =>
    cases entries with
    | nil => exact replays_nil.2 (by simp)
    | cons _ _ => cases h
  | cons n ns ih =>
    rw [List.forall_mem_cons] at hconf
    by_cases ht : startsWith successorChainUpdatedPrefix n.nodeType
    · rw [chainEvents, List.filter_cons_of_pos (by simpa using ht)] at h
      cases entries with
      | nil => cases h
      | cons e entries =>
        rw [List.zipIdx_cons] at h
        obtain ⟨hr, hrest⟩ := List.forall₂_cons.1 h
        refine replays_cons.2 ⟨{ d with successorChain := d.successorChain ++ [e] }, ?_, ?_⟩
        · rw [rederiveEvent, if_pos ht, applySuccessorChainUpdated,
            readSuccessorChainUpdated_records hr]
          rfl
        · have := ih (d := { d with successorChain := d.successorChain ++ [e] }) hrest hconf.2
          simpa using this
    · rw [chainEvents, List.filter_cons_of_neg (by simpa using ht)] at h
      refine replays_cons.2 ⟨d, ?_, ih h hconf.2⟩
      rw [rederiveEvent, if_neg ht, if_neg hconf.1]

theorem Holds.rederives {l : Ledger env.blake3} (h : Holds l.nodes chain) (d : DerivedState) :
    rederiveCultivationFromDag l.dag d =
      (.ok (), { d with successorChain := chain, successionConfig := none }) := by
  have := replays_of_records (d := { d with successorChain := [], successionConfig := none })
    h.mirrors h.unconfigured
  exact this

/-- A full replay, where it succeeds, derives the chain too. -/
theorem Holds.fromDag_eq {l : Ledger env.blake3} (h : Holds l.nodes chain)
    (hd : fromDag l.dag = .ok d) : d.successorChain = chain := by
  obtain ⟨u, hu, hchain, -⟩ : ∃ u, Replays rederiveEvent l.nodes .empty u ∧
      d.successorChain = u.successorChain ∧ d.successionConfig = u.successionConfig := by
    refine Replays.sim (R := fun s u : DerivedState => s.successorChain = u.successorChain ∧
      s.successionConfig = u.successionConfig) ?_ ⟨rfl, rfl⟩ (fromDag_eq_ok.1 hd)
    rintro n - s u s' ⟨h1, h2⟩ ha
    obtain ⟨u', h3, h4, h5, -⟩ := rederiveEvent_sim h1 h2 ha
    exact ⟨u', h3, h4, h5⟩
  have hmine := replays_of_records (d := .empty) h.mirrors h.unconfigured
  rw [hchain, hu.unique hmine]
  rfl

end

/-! ### What an update does -/

section

variable {s t : ServerState env} {request : Message} {chain : List SuccessorEntry}
  {e last : SuccessorEntry}

theorem checkAgainstLast_ok {validFrom : Int64} (h : checkAgainstLast last validFrom = .ok ()) :
    ∃ u, last.validUntilUnixNs = some u ∧ u ≤ validFrom := by
  unfold checkAgainstLast at h
  split at h
  · cases h
  · cases hu : last.validUntilUnixNs with
    | none =>
      rw [hu] at h
      cases h
    | some u =>
      rw [hu] at h
      dsimp only at h
      split at h
      · cases h
      · rename_i hlt
        exact ⟨u, rfl, Int64.not_lt.1 hlt⟩

theorem checkInterval_ok {validFrom : Int64} {validUntil : Option Int64}
    (h : checkInterval validFrom validUntil = .ok ()) :
    ∀ u, validUntil = some u → validFrom < u := by
  rintro u rfl
  unfold checkInterval at h
  dsimp only at h
  split at h
  · cases h
  · rename_i hle
    exact Int64.not_le.1 hle

/-- An entry that passes keeps the chain well formed. -/
theorem checkEntry_ok (h : checkEntry chain request = .ok e) (hwf : WellFormed chain) :
    WellFormed (chain ++ [e]) := by
  unfold checkEntry at h
  obtain ⟨pubkey, -, h⟩ := bind_eq_ok.1 h
  obtain ⟨validFrom, -, h⟩ := bind_eq_ok.1 h
  obtain ⟨validUntil, -, h⟩ := bind_eq_ok.1 h
  cases hl : chain.getLast? with
  | none =>
    rw [hl] at h
    obtain ⟨_, -, h⟩ := bind_eq_ok.1 h
    obtain ⟨_, hint, h⟩ := bind_eq_ok.1 h
    obtain rfl := Except.ok.inj h
    exact hwf.snoc (fun last hlast => by cases hl.symm.trans hlast) (checkInterval_ok hint)
  | some last =>
    rw [hl] at h
    obtain ⟨_, hlast, h⟩ := bind_eq_ok.1 h
    obtain ⟨_, hint, h⟩ := bind_eq_ok.1 h
    obtain rfl := Except.ok.inj h
    refine hwf.snoc (fun last' hlast' => ?_) (checkInterval_ok hint)
    cases hl.symm.trans hlast'
    exact checkAgainstLast_ok hlast

theorem refreshCultivation_successorChain {nodeType : String} :
    (s.refreshCultivation nodeType).successorChain = s.successorChain := by
  unfold ServerState.refreshCultivation
  split <;> rfl

theorem emitSubstrateEvent_successorChain {nodeType : String} {content : Bytes}
    {r : Except SubstrateError NodeHash}
    (h : (emitSubstrateEvent nodeType content).exec s = some (r, t)) :
    t.successorChain = s.successorChain := by
  rw [emitSubstrateEvent, Prog.exec_get_bind] at h
  have hinsert : ∀ {c : Insertion} {r u}, (insertNode "substrate event DAG insert" c).exec s =
      some (r, u) → u.successorChain = s.successorChain := by
    intro c r u hu
    rw [exec_insertNode] at hu
    split at hu
    · cases hu
      rfl
    · cases hu
  rcases Prog.exec_bind_eq_some.1 h with ⟨e, h1, -⟩ | ⟨hash, u, h1, h2⟩
  · exact hinsert h1
  · cases h2
    exact refreshCultivation_successorChain.trans (hinsert h1)

/-- The update is refused or fails and leaves the chain and its events, or both get one more. -/
theorem update_cases {r : Except SubstrateError (Option Message)}
    (h : (handleUpdateSuccessorChain request).exec s = some (r, t)) :
    ((∃ err, r = .error err) ∧ t.nodes = s.nodes ∧ t.successorChain = s.successorChain) ∨
    ∃ e n, checkEntry s.successorChain request = .ok e ∧ t.nodes = s.nodes ++ [n] ∧
      t.successorChain = s.successorChain ++ [e] ∧
      startsWith successorChainUpdatedPrefix n.nodeType ∧
      Records n (e, s.successorChain.length) := by
  rw [handleUpdateSuccessorChain, Prog.exec_get_bind] at h
  cases hcheck : checkEntry s.successorChain request with
  | error err =>
    rw [hcheck] at h
    cases h
    exact .inl ⟨⟨err, rfl⟩, rfl, rfl⟩
  | ok e =>
    rw [hcheck] at h
    dsimp only at h
    rcases Prog.exec_bind_eq_some.1 h with ⟨err, h1, rfl⟩ | ⟨hash, u, h1, h2⟩
    · obtain ⟨-, ⟨err', -, hn⟩ | ⟨n, he, -⟩⟩ := emitSubstrateEvent_cases h1
      · exact .inl ⟨⟨err, rfl⟩, hn, emitSubstrateEvent_successorChain h1⟩
      · cases he
    · obtain ⟨-, ⟨err', he, -⟩ | ⟨n, -, hn, ht, hc, hmem⟩⟩ := emitSubstrateEvent_cases h1
      · cases he
      cases h2
      refine .inr ⟨e, n, rfl, hn, ?_, ht ▸ startsWith_append, hc ▸ hmem, _, hc⟩
      show u.successorChain ++ [e] = s.successorChain ++ [e]
      rw [emitSubstrateEvent_successorChain h1]

end

/-! ### Runs -/

/-- A substrate and the log on disk. -/
structure Machine (env : Env) where
  server : ServerState env
  disk : Ledger env.blake3

inductive Event where
  | update (request : Message) (answer : Except SubstrateError (Option Message))
  | other
  | save
  | restart (files : BootFiles)

/-- An update of the chain, a save, a restart from the log that was saved last, or anything else,
which leaves the chain and appends events of other families. -/
inductive Step : Machine env → Event → Machine env → Prop
  | update {m : Machine env} {request : Message}
      {answer : Except SubstrateError (Option Message)} {s : ServerState env} :
      (handleUpdateSuccessorChain request).exec m.server = some (answer, s) →
      Step m (.update request answer) { m with server := s }
  | other {m : Machine env} {s : ServerState env} {ns : List DagNode} :
      s.nodes = m.server.nodes ++ ns → (∀ n ∈ ns, Elsewhere n) →
      s.successorChain = m.server.successorChain → Step m .other { m with server := s }
  | save {m : Machine env} : Step m .save { m with disk := m.server.ledger }
  | restart {m : Machine env} {files : BootFiles} :
      Step m (.restart files) ⟨bootState files m.disk, m.disk⟩

abbrev Run : Machine env → List Event → Machine env → Prop := Path Step

/-- A substrate booted from a log without a chain. -/
structure Fresh (m : Machine env) : Prop where
  server : ∀ n ∈ m.server.nodes, Elsewhere n
  disk : ∀ n ∈ m.disk.nodes, Elsewhere n
  chain : m.server.successorChain = []

/-- The log holds the chain in force, and the log on disk some chain. -/
structure Kept (m : Machine env) : Prop where
  server : Holds m.server.nodes m.server.successorChain
  disk : ∃ chain, Holds m.disk.nodes chain

theorem Fresh.kept {m : Machine env} (h : Fresh m) : Kept m where
  server := h.chain ▸ holds_of_elsewhere h.server
  disk := ⟨[], holds_of_elsewhere h.disk⟩

theorem Step.kept {m m' : Machine env} {e : Event} (hstep : Step m e m') (h : Kept m) :
    Kept m' := by
  cases hstep with
  | update hexec =>
    refine ⟨?_, h.disk⟩
    rcases update_cases hexec with ⟨-, hn, hchain⟩ | ⟨entry, n, hcheck, hn, hchain, ht, hr⟩
    · show Holds (ServerState.nodes _) _
      rw [hn, hchain]
      exact h.server
    · show Holds (ServerState.nodes _) _
      rw [hn, hchain]
      exact h.server.snoc (checkEntry_ok hcheck h.server.wellFormed) ht hr
  | other hn helse hchain =>
    refine ⟨?_, h.disk⟩
    show Holds (ServerState.nodes _) _
    rw [hn, hchain]
    exact h.server.elsewhere helse
  | save => exact ⟨h.server, _, h.server⟩
  | @restart files =>
    obtain ⟨chain, hdisk⟩ := h.disk
    refine ⟨?_, chain, hdisk⟩
    show Holds m.disk.nodes (rederiveCultivationFromDag m.disk.dag
      (derivedState m.disk.dag)).2.successorChain
    rw [hdisk.rederives]
    exact hdisk

theorem WellFormed.sorted {chain : List SuccessorEntry} (h : WellFormed chain) :
    chain.Pairwise fun a b => a.validFromUnixNs < b.validFromUnixNs :=
  h.apart.imp_of_mem fun ha _ hab => hab.sorted (h.proper _ ha)

theorem WellFormed.disjoint {chain : List SuccessorEntry} (h : WellFormed chain) :
    chain.Pairwise fun a b => ∀ t, ¬ (Covers a t ∧ Covers b t) :=
  h.apart.imp fun hab _ h => hab.not_covers h.1 h.2

theorem WellFormed.openLast {chain xs ys : List SuccessorEntry} {e : SuccessorEntry}
    (h : WellFormed chain) (hc : chain = xs ++ e :: ys) (he : e.validUntilUnixNs = none) :
    ys = [] := by
  subst hc
  cases ys with
  | nil => rfl
  | cons y ys =>
    obtain ⟨u, hu, -⟩ := (List.pairwise_cons.1 (List.pairwise_append.1 h.apart).2.1).1 y
      List.mem_cons_self
    cases he.symm.trans hu

/-- At any time at most one entry designates a successor. -/
theorem WellFormed.atMostOne {chain : List SuccessorEntry} {i j : Nat} {a b : SuccessorEntry}
    {t : Int64} (h : WellFormed chain) (hi : chain[i]? = some a) (hj : chain[j]? = some b)
    (ha : Covers a t) (hb : Covers b t) : i = j := by
  have hlt : ∀ {i j : Nat} {a b : SuccessorEntry}, chain[i]? = some a → chain[j]? = some b →
      Covers a t → Covers b t → ¬ i < j := by
    intro i j a b hi hj ha hb hij
    obtain ⟨hi', rfl⟩ := List.getElem?_eq_some_iff.1 hi
    obtain ⟨hj', rfl⟩ := List.getElem?_eq_some_iff.1 hj
    exact List.pairwise_iff_getElem.1 h.disjoint i j hi' hj' hij t ⟨ha, hb⟩
  exact Nat.le_antisymm (Nat.le_of_not_lt (hlt hj hi hb ha)) (Nat.le_of_not_lt (hlt hi hj ha hb))

/-- The event at a position of the chain is that of the entry there. -/
theorem Mirrors.getElem? {ns : List DagNode} {chain : List SuccessorEntry} {i : Nat} {n : DagNode}
    (h : Mirrors ns chain) (hn : (chainEvents ns)[i]? = some n) :
    ∃ e, chain[i]? = some e ∧ Records n (e, i) := by
  obtain ⟨hi, rfl⟩ := List.getElem?_eq_some_iff.1 hn
  have hlen := h.length_eq
  rw [List.length_zipIdx] at hlen
  have hr := h.get hi (by rw [List.length_zipIdx]; omega)
  simp only [List.get_eq_getElem, List.getElem_zipIdx, Nat.zero_add] at hr
  exact ⟨chain[i], List.getElem?_eq_getElem (by omega), hr⟩

/-- In every run: each interval covers some time, the intervals are in order and apart, and only
the last may be open; each event of the chain in the log holds its position and the entry there;
the chain is the one that is derived from the log; and at no time two successors are designated. -/
theorem successor_chain_of_run {m₀ m : Machine env} {es : List Event} (hs : Fresh m₀)
    (hrun : Run m₀ es m) :
    (∀ e ∈ m.server.successorChain, ∃ t, Covers e t) ∧
    (m.server.successorChain.Pairwise fun a b => a.validFromUnixNs < b.validFromUnixNs) ∧
    (m.server.successorChain.Pairwise fun a b => ∀ t, ¬ (Covers a t ∧ Covers b t)) ∧
    (∀ xs e ys, m.server.successorChain = xs ++ e :: ys → e.validUntilUnixNs = none → ys = []) ∧
    (chainEvents m.server.nodes).length = m.server.successorChain.length ∧
    (∀ (i : Nat) n, (chainEvents m.server.nodes)[i]? = some n → ∃ e cycle,
      m.server.successorChain[i]? = some e ∧
      n.content = encodeSuccessorChainUpdated e (UInt64.ofNat i) cycle) ∧
    (∀ d, rederiveCultivationFromDag m.server.ledger.dag d = (.ok (), { d with
      successorChain := m.server.successorChain, successionConfig := none })) ∧
    (∀ d, fromDag m.server.ledger.dag = .ok d → d.successorChain = m.server.successorChain) ∧
    (∀ (t : Int64) (i j : Nat) a b, m.server.successorChain[i]? = some a →
      m.server.successorChain[j]? = some b → Covers a t → Covers b t → i = j) := by
  have hkept : Kept m := hrun.keeps (fun _ _ _ hstep h => hstep.kept h) hs.kept
  have hserver := hkept.server
  have hwf := hserver.wellFormed
  have hlen := hserver.mirrors.length_eq
  rw [List.length_zipIdx] at hlen
  refine ⟨fun e he => ⟨_, covers_start (hwf.proper e he)⟩, hwf.sorted, hwf.disjoint,
    fun xs e ys => hwf.openLast, hlen, fun i n hn => ?_, hserver.rederives,
    fun d hd => hserver.fromDag_eq hd, fun t i j a b => hwf.atMostOne⟩
  obtain ⟨e, he, -, cycle, hc⟩ := hserver.mirrors.getElem? hn
  exact ⟨e, cycle, he, hc⟩

/-! ### Two successors -/

def updateRequest (validFrom : Int64) (validUntil : Value) : Message :=
  ⟨"update_successor_chain", 1, [("successor_pubkey", hashValue (.replicate 7)),
    ("valid_from_unix_ns", .timestamp validFrom), ("valid_until_unix_ns", validUntil)]⟩

/-- One successor until 20, the next from then on. -/
def twoUpdates : Handler (keyedEnv []) (Option Message) := do
  let _ ← handleUpdateSuccessorChain (updateRequest 10 (.timestamp 20))
  handleUpdateSuccessorChain (updateRequest 20 .null)

theorem successor_chain_of_two_updates : ∃ m : Machine (keyedEnv []),
    m.server.successorChain = [⟨.replicate 7, 10, some 20⟩, ⟨.replicate 7, 20, none⟩] ∧
    (chainEvents m.server.nodes).length = m.server.successorChain.length ∧
    m.server.successorChain.Pairwise fun a b => ∀ t, ¬ (Covers a t ∧ Covers b t) := by
  have h : (twoUpdates.exec (stateOf (keyedEnv []) [])).any (fun p =>
      p.2.successorChain == [⟨.replicate 7, 10, some 20⟩, ⟨.replicate 7, 20, none⟩]) = true := by
    decide +kernel
  obtain ⟨⟨r, s⟩, he, hchain⟩ := (Option.any_eq_true _ _).1 h
  have hnil : ∀ n ∈ ([] : List DagNode), Elsewhere n := fun n hn => by cases hn
  have hfresh : Fresh (⟨stateOf (keyedEnv []) [], Ledger.new⟩ : Machine (keyedEnv [])) :=
    ⟨hnil, hnil, rfl⟩
  obtain ⟨es, hrun⟩ : ∃ es, Run ⟨stateOf (keyedEnv []) [], Ledger.new⟩ es ⟨s, Ledger.new⟩ := by
    rcases Prog.exec_bind_eq_some.1 he with ⟨e, h1, -⟩ | ⟨a, u, h1, h2⟩
    · exact ⟨_, .cons (.update h1) .nil⟩
    · exact ⟨_, .cons (.update h1) (.cons (.update h2) .nil)⟩
  obtain ⟨-, -, hdisjoint, -, hlen, -⟩ := successor_chain_of_run hfresh hrun
  exact ⟨⟨s, Ledger.new⟩, by simpa using hchain, hlen, hdisjoint⟩

end Myco.Cultivation
