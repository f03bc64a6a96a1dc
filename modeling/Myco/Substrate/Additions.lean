import Myco.Substrate.Events

/-!
# Programs that only append

`Adds P`: all that a program does to the log is to append nodes that satisfy `P`, and the substrate
stays the same party to its federation. The functions that emit are such programs, for any `P` that
their nodes satisfy. A program is `Sure` when it fails for a collision only.
-/

namespace Myco.Substrate

open Myco.Lib Myco.Canonical Myco.Schema Myco.Federation

variable {env : Env}

/-- The substrate as a party to its federation, apart from its log: the connections, the peers it
has revoked, its id and the seed of its key. -/
def ServerState.party (s : ServerState env) :
    FederationState × List Hash32 × Option Hash32 × Hash32 :=
  (s.federation, s.revokedFederationPeers, s.substrateId, s.substrateSigningSeed)

structure Adds (P : DagNode → Prop) (s s' : ServerState env) : Prop where
  nodes : ∃ ns, s'.nodes = s.nodes ++ ns ∧ ∀ n ∈ ns, P n
  party : s'.party = s.party

variable {P Q : DagNode → Prop}

instance : IsPreorder (ServerState env) (Adds P) where
  refl s := ⟨⟨[], by simp⟩, rfl⟩
  trans s t u h h' := by
    obtain ⟨ns, h1, h2⟩ := h.nodes
    obtain ⟨ms, h3, h4⟩ := h'.nodes
    refine ⟨⟨ns ++ ms, by rw [h3, h1, List.append_assoc], fun n hn => ?_⟩, h'.party.trans h.party⟩
    exact (List.mem_append.1 hn).elim (h2 n) (h4 n)

theorem Adds.mono {s s' : ServerState env} (h : Adds P s s') (hPQ : ∀ n, P n → Q n) :
    Adds Q s s' := by
  obtain ⟨ns, h1, h2⟩ := h.nodes
  exact ⟨⟨ns, h1, fun n hn => hPQ n (h2 n hn)⟩, h.party⟩

theorem Adds.of_eq {s s' : ServerState env} (hl : s'.ledger = s.ledger) (hp : s'.party = s.party) :
    Adds P s s' := ⟨⟨[], by simp [ServerState.nodes, hl]⟩, hp⟩

theorem adds_modify {g : ServerState env → ServerState env} (hl : ∀ s, (g s).ledger = s.ledger)
    (hp : ∀ s, (g s).party = s.party) : Within (Adds P) (modify g : Handler env PUnit) :=
  within_modify fun s => .of_eq (hl s) (hp s)

theorem adds_insertNode {what : String} {c : Insertion}
    (h : c.content.length ≤ isizeMax → P (c.node env.blake3)) :
    Within (Adds P) (insertNode what c : Handler env NodeHash) := by
  intro s r s' he
  rw [exec_insertNode] at he
  split at he
  · rename_i halloc
    cases he
    refine ⟨?_, rfl⟩
    rcases s.ledger.push_cases c with ⟨-, -, -, hn⟩ | ⟨-, -, -, -, -, -, hn⟩ | ⟨-, hn⟩
    · exact ⟨[], by simp [ServerState.nodes, hn]⟩
    · exact ⟨[], by simp [ServerState.nodes, hn]⟩
    · refine ⟨[c.node env.blake3], hn, fun n hm => ?_⟩
      rw [List.mem_singleton.1 hm]
      exact h halloc.1
  · cases he

theorem adds_readClock : Within (Adds P) (readClock : Handler env Int64) :=
  within_bind within_get fun _ =>
    within_bind (adds_modify (fun _ => rfl) fun _ => rfl) fun _ => within_pure

theorem refreshCultivation_party {nodeType : String} (s : ServerState env) :
    (s.refreshCultivation nodeType).party = s.party := by
  unfold ServerState.refreshCultivation
  split <;> rfl

theorem adds_emitSubstrateEvent {nodeType : String} {content : Bytes}
    (h : ∀ n : DagNode, n.nodeType = nodeType → n.content = content → content.length ≤ isizeMax →
      P n) : Within (Adds P) (emitSubstrateEvent nodeType content : Handler env NodeHash) :=
  within_bind within_get fun _ => within_bind (adds_insertNode fun hc => h _ rfl rfl hc) fun _ =>
    within_bind (adds_modify ServerState.refreshCultivation_ledger refreshCultivation_party)
      fun _ => within_pure

theorem adds_emitFresh {detectorId detectorName evidence : String} {t : Int64} {k : UInt64}
    (h : ∀ n : DagNode, startsWith immunePrefix n.nodeType → P n) :
    Within (Adds P) (emitFresh detectorId detectorName evidence t k : Handler env NodeHash) :=
  within_bind within_get fun _ => within_bind (adds_insertNode fun _ => h _ startsWith_append) fun _ =>
    within_bind (adds_modify (fun _ => rfl) fun _ => rfl) fun _ => within_pure

theorem adds_emitImmuneSporocarp {detectorId detectorName evidence : String}
    (h : ∀ n : DagNode, startsWith immunePrefix n.nodeType → P n) :
    Within (Adds P) (emitImmuneSporocarp detectorId detectorName evidence :
      Handler env NodeHash) := by
  refine within_bind adds_readClock fun _ => within_bind within_get fun s => ?_
  cases OrdMap.get detectorId s.immuneEmissionState with
  | none => exact adds_emitFresh h
  | some prior =>
    dsimp only
    split
    · exact within_bind (adds_modify (fun _ => rfl) fun _ => rfl) fun _ => within_pure
    · exact adds_emitFresh h

/-- An event that is emitted is appended, or the log stays as it is. -/
theorem emitSubstrateEvent_cases {nodeType : String} {content : Bytes} {s s' : ServerState env}
    {r : Except SubstrateError NodeHash}
    (h : (emitSubstrateEvent nodeType content).exec s = some (r, s')) :
    s'.party = s.party ∧
    ((∃ e, r = .error e ∧ s'.nodes = s.nodes) ∨
     (∃ n : DagNode, r = .ok n.hash ∧ s'.nodes = s.nodes ++ [n] ∧ n.nodeType = nodeType ∧
        n.content = content ∧ content.length ≤ isizeMax)) := by
  refine ⟨(adds_emitSubstrateEvent (P := fun _ => True) (by simp) s r s' h).party, ?_⟩
  rw [emitSubstrateEvent, Prog.exec_get_bind] at h
  rcases Prog.exec_bind_eq_some.1 h with ⟨e, h1, rfl⟩ | ⟨hash, t, h1, h2⟩
  · rcases insertNode_tip_cases h1 (List.append_nil _).symm with ⟨e', -, hn⟩ | ⟨he, -⟩
    · exact .inl ⟨e, rfl, hn⟩
    · cases he
  · rcases insertNode_tip_cases h1 (List.append_nil _).symm with ⟨e', he, -⟩ | ⟨he, hn, hc⟩
    · cases he
    · cases he
      cases h2
      refine .inr ⟨_, rfl, ?_, rfl, rfl, hc⟩
      rw [← hn]
      exact congrArg Ledger.nodes t.refreshCultivation_ledger

/-! ### Programs that fail for a collision only -/

/-- Barring a collision, the program does not fail. -/
def Sure {α : Type} (m : Handler env α) : Prop :=
  ∀ s r t, m.exec s = some (r, t) → Barring (fun _ _ => ∃ a, r = .ok a) s t

section

variable {α β : Type} {m : Handler env α} {R : ServerState env → ServerState env → Prop}

theorem sure_pure {a : α} : Sure (pure a : Handler env α) := by
  intro s r t h
  cases h
  exact ⟨id, fun _ => ⟨a, rfl⟩⟩

theorem sure_halt : Sure (Prog.halt : Handler env α) := by
  intro s r t h
  cases h

theorem sure_get : Sure (get : Handler env (ServerState env)) := by
  intro s r t h
  cases h
  exact ⟨id, fun _ => ⟨s, rfl⟩⟩

theorem sure_modify {g : ServerState env → ServerState env} (hl : ∀ s, (g s).ledger = s.ledger) :
    Sure (modify g : Handler env PUnit) := by
  intro s r t h
  cases h
  exact .of_ledger_eq (hl s) ⟨_, rfl⟩

theorem sure_attempt (h : Within (Barring R) m) : Sure (m.attempt : Handler env _) := by
  intro s r t he
  obtain ⟨x, hx, rfl⟩ := Prog.exec_attempt_eq_some.1 he
  exact (h s x t hx).imp fun _ => ⟨x, rfl⟩

theorem sure_bind {f : α → Handler env β} (hm : Sure m) (hf : ∀ a, Sure (f a)) :
    Sure (m >>= f) := by
  intro s r t h
  rcases Prog.exec_bind_eq_some.1 h with ⟨e, h1, rfl⟩ | ⟨a, u, h1, h2⟩
  · exact (hm s _ t h1).imp fun ⟨_, ha⟩ => by cases ha
  · exact (hm s _ u h1).trans (hf a u r t h2) fun _ ha => ha

theorem sure_mapM {xs : List α} {f : α → Handler env β} (h : ∀ x ∈ xs, Sure (f x)) :
    Sure (xs.mapM f) := by
  induction xs with
  | nil => exact sure_pure
  | cons x xs ih =>
    rw [List.forall_mem_cons] at h
    rw [List.mapM_cons]
    exact sure_bind h.1 fun _ => sure_bind (ih h.2) fun _ => sure_pure

/-- A call with the tip for the only parent is refused for a collision only. -/
theorem sure_insertNode {what : String} {c : ServerState env → Insertion}
    (hp : ∀ s, (c s).parentHashes = s.tipParents) (ht : ∀ s, (c s).nodeType ≠ "") :
    Sure (get >>= fun s => insertNode what (c s) : Handler env NodeHash) := by
  intro s r t h
  rw [Prog.exec_get_bind] at h
  have hparents : (c s).parentHashes = s.tipParents ++ [] := by rw [hp s, List.append_nil]
  exact (insertNode_tip h (ht s) hparents (by simp)).imp fun ⟨hr, _⟩ => ⟨_, hr⟩

theorem sure_readClock : Sure (readClock : Handler env Int64) :=
  sure_bind sure_get fun _ => sure_bind (sure_modify fun _ => rfl) fun _ => sure_pure

theorem sure_insertNode_bind {what : String} {c : ServerState env → Insertion}
    {f : NodeHash → Handler env α} (hp : ∀ s, (c s).parentHashes = s.tipParents)
    (ht : ∀ s, (c s).nodeType ≠ "") (hf : ∀ h, Sure (f h)) :
    Sure (get >>= fun s => insertNode what (c s) >>= f) := by
  have hassoc : (get >>= fun s => insertNode what (c s) >>= f) =
      (get >>= fun s => insertNode what (c s)) >>= f := (bind_assoc _ _ _).symm
  rw [hassoc]
  exact sure_bind (sure_insertNode hp ht) hf

theorem sure_emitSubstrateEvent {nodeType : String} {content : Bytes} (ht : nodeType ≠ "") :
    Sure (emitSubstrateEvent nodeType content : Handler env NodeHash) :=
  sure_insertNode_bind (fun _ => rfl) (fun _ => ht) fun _ =>
    sure_bind (sure_modify ServerState.refreshCultivation_ledger) fun _ => sure_pure

end

end Myco.Substrate
