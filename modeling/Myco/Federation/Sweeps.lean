import Myco.Federation.Connections

/-!
# The sweep after a pass over the peers

`FederationState::progress_awaiting_hello_peers` and `progress_peers` of
`substrate/src/federation/mod.rs`, with the list of places they collect and the `swap_remove` calls
that panic past the end. `progress?_eq` brings them back to `progress`, which marks the peers
themselves.
-/

namespace Myco.Federation

open Myco.Lib Myco.Canonical Myco.Schema Myco.Substrate

/-- A loop over the peers, as far as it has come. -/
structure Pass where
  peers : List PeerConnection
  events : List PollPeerEvent
  indicesToRemove : List Nat

namespace Pass

def empty : Pass := ⟨[], [], []⟩

/-- The peer at `idx` has had its turn. -/
def push (pass : Pass) (idx : Nat) (t : Turn) : Pass where
  peers := pass.peers ++ [t.peer]
  events := pass.events ++ t.events
  indicesToRemove := if t.remove then pass.indicesToRemove ++ [idx] else pass.indicesToRemove

/-- `for (idx, peer) in self.peers.iter_mut().enumerate()` -/
def through (turn : Wire → PeerConnection → Turn) (wires : Nat → Wire)
    (peers : List PeerConnection) : Pass :=
  peers.zipIdx.foldl (fun pass e => pass.push e.2 (turn (wires e.2) e.1)) empty

end Pass

namespace FederationState

/-- A pass and the sweep after it, if no removal is out of bounds. -/
def progress? (turn : Wire → PeerConnection → Turn) (wires : Nat → Wire) (f : FederationState) :
    Option (List PollPeerEvent × FederationState) := do
  let pass := Pass.through turn wires f.peers
  let peers ← sweepAt pass.peers pass.indicesToRemove
  some (pass.events, { f with peers })

def progressAwaitingHelloPeers? (signatures : Signatures) (ourSubstrateId : Hash32)
    (wires : Nat → Wire) (f : FederationState) : Option (List PollPeerEvent × FederationState) :=
  f.progress? (progressHello signatures f.acceptLegacyPeers ourSubstrateId) wires

def progressPeers? (signatures : Signatures) (blake3 : Bytes → NodeHash) (ourSubstrateId : Hash32)
    (localDag : Dag) (revokedPeers : List Hash32) (sockets : Sockets) (f : FederationState) :
    Option (List PollPeerEvent × FederationState) := do
  let (events, f) ← f.progressAwaitingHelloPeers? signatures ourSubstrateId sockets.hellos
  let (more, f) ← f.progress? (progressEstablished blake3 localDag revokedPeers) sockets.requests
  some (events ++ more, f)

end FederationState

/-! ### What a pass collects -/

section

variable {turn : Wire → PeerConnection → Turn} {wires : Nat → Wire}

/-- The turns of a pass. -/
def turns (turn : Wire → PeerConnection → Turn) (wires : Nat → Wire)
    (peers : List PeerConnection) : List Turn :=
  peers.mapIdx fun i p => turn (wires i) p

/-- The peers after their turns, with the marks. -/
def marked (ts : List Turn) : List (PeerConnection × Bool) := ts.map fun t => (t.peer, t.remove)

theorem through_concat {peers : List PeerConnection} {p : PeerConnection} :
    Pass.through turn wires (peers ++ [p]) =
      (Pass.through turn wires peers).push peers.length (turn (wires peers.length) p) := by
  unfold Pass.through
  rw [List.zipIdx_append, List.foldl_append, List.zipIdx_singleton, Nat.zero_add]
  rfl

theorem through_eq {peers : List PeerConnection} :
    Pass.through turn wires peers =
      ⟨(turns turn wires peers).map Turn.peer, (turns turn wires peers).flatMap Turn.events,
        markedFrom 0 (marked (turns turn wires peers))⟩ := by
  induction peers using List.reverseRecOn with
  | nil => rfl
  | append_singleton peers p ih =>
    have hturns : turns turn wires (peers ++ [p]) =
        turns turn wires peers ++ [turn (wires peers.length) p] := List.mapIdx_concat
    have hlen : (marked (turns turn wires peers)).length = peers.length := by
      simp [marked, turns]
    rw [through_concat, ih, hturns]
    unfold Pass.push
    simp only [marked, List.map_append, List.map_cons, List.map_nil, List.flatMap_append,
      List.flatMap_cons, List.flatMap_nil, List.append_nil, markedFrom_append, Nat.zero_add]
    rw [show ((turns turn wires peers).map fun t => (t.peer, t.remove)).length = peers.length from
      hlen]
    cases (turn (wires peers.length) p).remove with
    | true => rfl
    | false => simp [markedFrom]

/-- The places a pass collects are in order and within the list it goes over. -/
theorem marks_through {peers : List PeerConnection} :
    Marks (Pass.through turn wires peers).peers.length
      (Pass.through turn wires peers).indicesToRemove := by
  have hmarks := @marks_markedFrom _ (marked (turns turn wires peers))
  rw [through_eq]
  simpa [marked] using hmarks

/-- A pass that is swept, and what it leaves. -/
structure Swept (pass : Pass) (left : List PeerConnection) : Prop where
  marks : Marks pass.peers.length pass.indicesToRemove
  inBounds : sweepAt pass.peers pass.indicesToRemove = some left
  unmarked : left.Perm (unmarkedAt pass.peers pass.indicesToRemove)

theorem through_swept (turn : Wire → PeerConnection → Turn) (wires : Nat → Wire)
    (peers : List PeerConnection) : ∃ left, Swept (Pass.through turn wires peers) left := by
  obtain ⟨left, hleft, hperm⟩ := sweepAt_perm (@marks_through turn wires peers)
  exact ⟨left, marks_through, hleft, hperm⟩

theorem progress?_sweepAt {f : FederationState} :
    f.progress? turn wires =
      (sweepAt (Pass.through turn wires f.peers).peers
        (Pass.through turn wires f.peers).indicesToRemove).map fun peers =>
          ((Pass.through turn wires f.peers).events, { f with peers }) := by
  show Option.bind _ _ = _
  cases sweepAt (Pass.through turn wires f.peers).peers
    (Pass.through turn wires f.peers).indicesToRemove <;> rfl

theorem progress?_of_swept {f : FederationState} {left : List PeerConnection}
    (h : Swept (Pass.through turn wires f.peers) left) :
    f.progress? turn wires =
      some ((Pass.through turn wires f.peers).events, { f with peers := left }) := by
  rw [progress?_sweepAt, h.inBounds, Option.map_some]

/-- No removal of a pass panics. -/
theorem progress?_eq {f : FederationState} :
    f.progress? turn wires = some (f.progress turn wires) := by
  have hsweep := sweepAt_eq (@marks_through turn wires f.peers)
  rw [progress?_sweepAt, hsweep, through_eq, Option.map_some]
  unfold FederationState.progress sweep marked turns
  simp only [List.map_map]
  rfl

end

theorem progressAwaitingHelloPeers?_eq {signatures : Signatures} {ourSubstrateId : Hash32}
    {wires : Nat → Wire} {f : FederationState} :
    f.progressAwaitingHelloPeers? signatures ourSubstrateId wires =
      some (f.progressAwaitingHelloPeers signatures ourSubstrateId wires) := progress?_eq

theorem progressPeers?_eq {signatures : Signatures} {blake3 : Bytes → NodeHash}
    {ourSubstrateId : Hash32} {localDag : Dag} {revokedPeers : List Hash32}
    {sockets : FederationState.Sockets} {f : FederationState} :
    f.progressPeers? signatures blake3 ourSubstrateId localDag revokedPeers sockets =
      some (f.progressPeers signatures blake3 ourSubstrateId localDag revokedPeers sockets) := by
  unfold FederationState.progressPeers?
  rw [progressAwaitingHelloPeers?_eq, Option.bind_eq_bind, Option.bind_some]
  dsimp only
  rw [progress?_eq]
  rfl

/-- Removing peers at collected places, the last first, is never out of bounds and leaves the
unmarked ones; the places that the two passes collect are such places, so the passes are the rounds
over the peers. -/
theorem passes_sweep_marked :
    (∀ (peers : List PeerConnection) (indices : List Nat), Marks peers.length indices →
      ∃ left, sweepAt peers indices = some left ∧ left.Perm (unmarkedAt peers indices)) ∧
    (∀ (signatures : Signatures) (ourSubstrateId : Hash32) (wires : Nat → Wire)
        (f : FederationState), ∃ left,
      let hellos := Pass.through (progressHello signatures f.acceptLegacyPeers ourSubstrateId) wires
        f.peers
      Swept hellos left ∧
        f.progressAwaitingHelloPeers? signatures ourSubstrateId wires =
          some (hellos.events, { f with peers := left }) ∧
        f.progressAwaitingHelloPeers? signatures ourSubstrateId wires =
          some (f.progressAwaitingHelloPeers signatures ourSubstrateId wires)) ∧
    ∀ (signatures : Signatures) (blake3 : Bytes → NodeHash) (ourSubstrateId : Hash32)
        (localDag : Dag) (revokedPeers : List Hash32) (sockets : FederationState.Sockets)
        (f : FederationState), ∃ met left,
      let hellos := Pass.through (progressHello signatures f.acceptLegacyPeers ourSubstrateId)
        sockets.hellos f.peers
      let requests := Pass.through (progressEstablished blake3 localDag revokedPeers)
        sockets.requests met
      Swept hellos met ∧ Swept requests left ∧
        f.progressPeers? signatures blake3 ourSubstrateId localDag revokedPeers sockets =
          some (hellos.events ++ requests.events, { f with peers := left }) ∧
        f.progressPeers? signatures blake3 ourSubstrateId localDag revokedPeers sockets =
          some (f.progressPeers signatures blake3 ourSubstrateId localDag revokedPeers sockets) := by
  refine ⟨fun _ _ => sweepAt_perm, ?_, ?_⟩
  · intro signatures ourSubstrateId wires f
    obtain ⟨left, hleft⟩ := through_swept
      (progressHello signatures f.acceptLegacyPeers ourSubstrateId) wires f.peers
    exact ⟨left, hleft, progress?_of_swept hleft, progressAwaitingHelloPeers?_eq⟩
  · intro signatures blake3 ourSubstrateId localDag revokedPeers sockets f
    obtain ⟨met, hmet⟩ := through_swept
      (progressHello signatures f.acceptLegacyPeers ourSubstrateId) sockets.hellos f.peers
    obtain ⟨left, hleft⟩ := through_swept (progressEstablished blake3 localDag revokedPeers)
      sockets.requests met
    have hhellos : f.progressAwaitingHelloPeers? signatures ourSubstrateId sockets.hellos = _ :=
      progress?_of_swept hmet
    have hrequests : ({ f with peers := met } : FederationState).progress?
        (progressEstablished blake3 localDag revokedPeers) sockets.requests = _ :=
      progress?_of_swept hleft
    refine ⟨met, left, hmet, hleft, ?_, progressPeers?_eq⟩
    unfold FederationState.progressPeers?
    rw [hhellos, Option.bind_eq_bind, Option.bind_some]
    dsimp only
    rw [hrequests]
    rfl

/-- The first and the third of three peers are removed. -/
theorem passes_sweep_marked_ends :
    ∃ left, sweepAt
        [⟨.failed, none, none, "a", 0⟩, ⟨.established, none, none, "b", 0⟩,
          (⟨.failed, none, none, "c", 0⟩ : PeerConnection)] [0, 2] = some left ∧
      left.Perm (unmarkedAt
        [⟨.failed, none, none, "a", 0⟩, ⟨.established, none, none, "b", 0⟩,
          ⟨.failed, none, none, "c", 0⟩] [0, 2]) :=
  passes_sweep_marked.1 _ _ ⟨by decide, by decide⟩

end Myco.Federation
