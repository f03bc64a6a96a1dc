import Myco.Substrate.Torn
import Myco.Tropism.Backfill

/-!
# The hello after one that has failed

A directory from before the genesis has its axes in `gradient.cb` only. Its first hello appends the
genesis, saves it, and then asks the worker for the axes; when that fails, the next process finds a
log with a genesis and without axes, replays it to an empty worker and does not look at
`gradient.cb` any more.

`retried_hello_recovers` says when the next hello ends as one that succeeds at once does: unless the
first has come as far as the question, the genesis has come to the disk, the log can be read, and
there are axes to lose.
-/

namespace Myco.Tropism

open Myco.Lib Myco.Canonical Myco.Schema Myco.Substrate Myco.Consensus Myco.Prune Myco.Reproduction

variable {env : Env} {rt : Runtime}

/-! ### Deriving the state of a log -/

section

variable {dag dag' : Option Dag} {n : DagNode} {s t s' : DerivedState}

theorem substrateId_of_apply (hn : ¬ startsWith genesisPrefix n.nodeType)
    (h : applyEventWithDag dag n s = (.ok (), s')) : s'.substrateId = s.substrateId := by
  unfold applyEventWithDag at h
  split at h
  · rename_i hf
    exact absurd (family_eq_genesis.1 hf) hn
  · obtain ⟨c, -, rfl⟩ := afterReading_eq_ok.1 h
    rfl
  · obtain ⟨c, -, rfl⟩ := afterReading_eq_ok.1 h
    rfl
  · obtain ⟨c, -, rfl⟩ := afterReading_eq_ok.1 h
    rfl
  · cases h
    rfl
  · obtain ⟨c, -, rfl⟩ := afterReading_eq_ok.1 h
    rfl
  · obtain ⟨c, -, rfl⟩ := afterReading_eq_ok.1 h
    rfl
  · cases h
    rfl

/-- Up to the cycle of the last absorption. -/
def SameBut (s t : DerivedState) : Prop :=
  { s with lastAbsorbedCycle := none } = { t with lastAbsorbedCycle := none }

theorem readAbsorption_ok {c : UInt64} (dag' : Option Dag) (h : readAbsorption dag n = .ok c) :
    ∃ c', readAbsorption dag' n = .ok c' := by
  rw [readAbsorption] at h ⊢
  obtain ⟨map, h1, h⟩ := bind_eq_ok.1 h
  obtain ⟨cycle, h2, -⟩ := bind_eq_ok.1 h
  exact ⟨_, by rw [h1, ok_bind, h2, ok_bind]⟩

/-- Which DAG is at hand matters for nothing but the absorbed cycle. -/
theorem applyEventWithDag_sameBut (hR : SameBut s t)
    (h : applyEventWithDag dag n s = (.ok (), s')) :
    ∃ t', applyEventWithDag dag' n t = (.ok (), t') ∧ SameBut s' t' := by
  obtain ⟨id, time, depth, cycle, absorbed, hist, cand, chain, config⟩ := s
  obtain ⟨id', time', depth', cycle', absorbed', hist', cand', chain', config'⟩ := t
  simp only [SameBut, DerivedState.mk.injEq, true_and] at hR
  obtain ⟨rfl, rfl, rfl, rfl, rfl, rfl, rfl, rfl⟩ := hR
  unfold applyEventWithDag at h ⊢
  split at h
  · obtain ⟨hid, map, i, ts, h1, h2, h3, rfl⟩ := applyGenesis_eq_ok.1 h
    exact ⟨_, applyGenesis_eq_ok.2 ⟨hid, map, i, ts, h1, h2, h3, rfl⟩, rfl⟩
  · obtain ⟨c, h1, rfl⟩ := afterReading_eq_ok.1 h
    exact ⟨_, afterReading_eq_ok.2 ⟨c, h1, rfl⟩, rfl⟩
  · obtain ⟨c, h1, rfl⟩ := afterReading_eq_ok.1 h
    obtain ⟨c', h2⟩ := readAbsorption_ok dag' h1
    exact ⟨_, afterReading_eq_ok.2 ⟨c', h2, rfl⟩, rfl⟩
  · obtain ⟨c, h1, rfl⟩ := afterReading_eq_ok.1 h
    exact ⟨_, afterReading_eq_ok.2 ⟨c, h1, rfl⟩, rfl⟩
  · cases h
    exact ⟨_, rfl, rfl⟩
  · obtain ⟨c, h1, rfl⟩ := afterReading_eq_ok.1 h
    exact ⟨_, afterReading_eq_ok.2 ⟨c, h1, rfl⟩, rfl⟩
  · obtain ⟨c, h1, rfl⟩ := afterReading_eq_ok.1 h
    exact ⟨_, afterReading_eq_ok.2 ⟨c, h1, rfl⟩, rfl⟩
  · cases h
    exact ⟨_, rfl, rfl⟩

end

/-- Every event of the log can be applied. -/
def Readable (dag : Dag) (ns : List DagNode) : Prop :=
  ∃ d, Replays (applyEventWithDag (some dag)) ns .empty d

theorem Readable.of_dag {dag : Dag} (dag' : Dag) {ns : List DagNode} (h : Readable dag ns) :
    Readable dag' ns := by
  obtain ⟨d, hd⟩ := h
  have hstep : ∀ n ∈ ns, ∀ s t s', SameBut s t →
      applyEventWithDag (some dag) n s = (.ok (), s') →
      ∃ t', applyEventWithDag (some dag') n t = (.ok (), t') ∧ SameBut s' t' :=
    fun _ _ _ _ _ => applyEventWithDag_sameBut
  obtain ⟨d', hd', -⟩ := hd.sim hstep rfl
  exact ⟨d', hd'⟩

/-- What events start with that say who the substrate is or are replayed. -/
def helloTexts : List String := dispatchTexts ++ replayedTexts

theorem family_of_not_watched {t : String} (h : ¬ Watched dispatchTexts t) :
    family t = .pureRecord := by
  have hs : ∀ p ∈ dispatchTexts, ¬ startsWith p t := fun p hp hs => h ⟨p, hp, hs⟩
  have hne : ∀ p ∈ dispatchTexts, t ≠ p := fun p hp he => hs p hp (by rw [he, startsWith])
  simp only [dispatchTexts, List.forall_mem_cons] at hs hne
  obtain ⟨h1, -, h3, h4, h5, h6, h7, -, -⟩ := hs
  obtain ⟨-, h2, -, -, -, -, -, h8, -⟩ := hne
  rw [family, if_neg h1, if_neg h2, if_neg h3, if_neg h4, if_neg (not_or.2 ⟨h5, h6⟩), if_neg h7,
    if_neg h8]

def Silent (ns : List DagNode) : Prop := ∀ n ∈ ns, ¬ Watched helloTexts n.nodeType

theorem Silent.append {ns ms : List DagNode} (h : Silent ns) (h' : Silent ms) :
    Silent (ns ++ ms) := fun n hn => (List.mem_append.1 hn).elim (h n) (h' n)

theorem Silent.family {ns : List DagNode} (h : Silent ns) :
    ∀ n ∈ ns, family n.nodeType = .pureRecord := fun n hn =>
  family_of_not_watched fun hw => h n hn (hw.mono fun _ hm => List.mem_append_left _ hm)

theorem Silent.replayed {ns : List DagNode} (h : Silent ns) :
    ∀ n ∈ ns, ¬ Watched replayedTexts n.nodeType := fun n hn hw =>
  h n hn (hw.mono fun _ hm => List.mem_append_right _ hm)

theorem Silent.genesis {ns : List DagNode} (h : Silent ns) :
    ∀ n ∈ ns, ¬ startsWith genesisPrefix n.nodeType := fun n hn hs =>
  h n hn ⟨genesisPrefix, by simp [helloTexts, dispatchTexts], hs⟩

theorem readable_append_silent {dag : Dag} {ns qs : List DagNode} (h : Silent qs) :
    Readable dag (ns ++ qs) ↔ Readable dag ns := by
  have hqs : ∀ d, Replays (applyEventWithDag (some dag)) qs d d := fun d =>
    replay_const (fun n hn _ => apply_pureRecord (h.family n hn)) d
  constructor
  · rintro ⟨d, hd⟩
    obtain ⟨d', h1, -⟩ := replays_append.1 hd
    exact ⟨d', h1⟩
  · rintro ⟨d, hd⟩
    exact ⟨d, replays_append.2 ⟨d, hd, hqs d⟩⟩

/-- Without a genesis nobody is derived. -/
theorem derivedState_pregenesis {dag : Dag}
    (h : ∀ n ∈ dag.iterInInsertionOrder, ¬ startsWith genesisPrefix n.nodeType) :
    (derivedState dag).substrateId = none := by
  rw [derivedState]
  cases hf : fromDag dag with
  | error e => rfl
  | ok d =>
    exact (fromDag_eq_ok.1 hf).inv (I := fun d => d.substrateId = none)
      (fun n hn s s' hs ha => (substrateId_of_apply (h n hn) ha).trans hs) rfl

/-- A node for a genesis. -/
structure IsGenesis (n : DagNode) : Prop where
  exists_event : ∃ id t depth, n.nodeType = genesisEventNodeType id ∧
    n.content = encodeGenesisEvent id t depth
  fits : n.content.length ≤ isizeMax

theorem IsGenesis.startsWith {n : DagNode} (h : IsGenesis n) :
    startsWith genesisPrefix n.nodeType := by
  obtain ⟨id, t, depth, ht, -⟩ := h.exists_event
  exact ht ▸ startsWith_append

/-- With a genesis someone is derived, if what precedes it can be read. -/
theorem derivedState_born {dag : Dag} {xs qs : List DagNode} {n : DagNode}
    (hdag : dag.iterInInsertionOrder = xs ++ n :: qs)
    (hxs : ∀ m ∈ xs, ¬ startsWith genesisPrefix m.nodeType) (hn : IsGenesis n) (hqs : Silent qs) :
    (derivedState dag).substrateId.isSome ↔ Readable dag xs := by
  obtain ⟨id, t, depth, ht, hc⟩ := hn.exists_event
  rw [derivedState]
  constructor
  · intro h
    cases hf : fromDag dag with
    | error e =>
      rw [hf] at h
      cases h
    | ok d =>
      have hr := fromDag_eq_ok.1 hf
      rw [hdag] at hr
      obtain ⟨d', h1, -⟩ := replays_append.1 hr
      exact ⟨d', h1⟩
  · rintro ⟨d, hd⟩
    have hid : d.substrateId = none := hd.inv (I := fun d => d.substrateId = none)
      (fun m hm s s' hs ha => (substrateId_of_apply (hxs m hm) ha).trans hs) rfl
    have hgenesis : applyEventWithDag (some dag) n d = (.ok (), _) :=
      apply_genesis ht hc hn.fits hid
    have hrest : ∀ d, Replays (applyEventWithDag (some dag)) qs d d := fun d =>
      replay_const (fun m hm _ => apply_pureRecord (hqs.family m hm)) d
    have hf : fromDag dag = .ok _ := fromDag_eq_ok.2
      (hdag ▸ replays_append.2 ⟨d, hd, replays_cons.2 ⟨_, hgenesis, hrest _⟩⟩)
    rw [hf]
    rfl

/-! ### What a hello does -/

/-- The hello comes as far as the question for the axes. -/
structure ReachesQuery (rt : Runtime) (o : Surroundings) (gradientCb : Option Bytes)
    (request : Message) : Prop where
  secret : (sessionSecret? request).isSome
  spawn : ∃ v, o.spawn = .ok v
  load : ∃ a : (Nat × Bool) × DispatcherState rt, loadStateFull o gradientCb false = .ok a

/-- The log on disk after a save that goes so. -/
def savedDisk (outcome : Except SubstrateError Unit) (l disk : Ledger env.blake3) :
    Ledger env.blake3 :=
  match outcome with
  | .ok _ => l
  | .error _ => disk

section

variable {fl : FloatDifference rt} {o : Surroundings} {gradientCb : Option Bytes}
  {request : Message} {m m' : Machine env rt} {w : DispatcherState rt}
  {r : Except SubstrateError HelloAck}

theorem succeeds_dropping {σ ε α : Type} {p : Prog σ ε α} : Succeeds (dropping p) :=
  succeeds_bind succeeds_attempt fun _ => succeeds_pure

theorem succeeds_onSubstrate {α : Type} {p : Handler env α} (h : Succeeds p) :
    Succeeds (onSubstrate p : Greeting env rt α) := by
  intro m r m' he
  obtain ⟨s, hs, -⟩ := Prog.exec_zoom_eq_some.1 he
  exact h _ _ _ hs

theorem succeeds_backfillGenesis : Succeeds (backfillGenesis o : Greeting env rt PUnit) := by
  intro m r m' he
  rw [backfillGenesis, Prog.exec_get_bind] at he
  dsimp only at he
  split at he
  · exact succeeds_pure _ _ _ he
  · exact succeeds_bind (succeeds_onSubstrate succeeds_dropping)
      (fun _ => succeeds_dropping) _ _ _ he

theorem succeeds_backfillAxis {i : AxisSchemaInfo rt} :
    Succeeds (backfillAxis fl i : Handler env PUnit) := by
  refine succeeds_bind (fun s r s' he => ?_) fun _ => ?_
  · rw [backfillRegistration, Prog.exec_get_bind] at he
    split at he
    · exact succeeds_pure _ _ _ he
    · exact succeeds_dropping _ _ _ he
  · rw [backfillValue]
    split
    · exact succeeds_dropping
    · exact succeeds_pure

theorem succeeds_backfillDag (hq : o.queryGradientSchemas = .ok ()) :
    Succeeds (backfillDagFromPythonState fl o w : Greeting env rt PUnit) := by
  rw [backfillDagFromPythonState, hq]
  exact succeeds_bind succeeds_backfillGenesis fun _ =>
    succeeds_bind (succeeds_onSubstrate (succeeds_forM fun _ _ => succeeds_backfillAxis))
      fun _ => succeeds_dropping

/-- How a hello to a log without an id can end. -/
inductive Ends (fl : FloatDifference rt) (o : Surroundings) (gradientCb : Option Bytes)
    (request : Message) (m : Machine env rt) :
    Except SubstrateError HelloAck → Machine env rt → Prop
  | early {e : SubstrateError} : ¬ ReachesQuery rt o gradientCb request →
      Ends fl o gradientCb request m (.error e) m
  | unanswered {e : SubstrateError} {m' : Machine env rt} :
      ReachesQuery rt o gradientCb request → o.queryGradientSchemas = .error e →
      (backfillGenesis o).exec m = some (.ok ⟨⟩, m') →
      Ends fl o gradientCb request m (.error e) m'
  | greeted {a : Nat × Bool} {w : DispatcherState rt} {u : Machine env rt} {ack : HelloAck} :
      ReachesQuery rt o gradientCb request → loadStateFull o gradientCb false = .ok (a, w) →
      o.queryGradientSchemas = .ok () →
      (backfillDagFromPythonState fl o w).exec m = some (.ok ⟨⟩, u) →
      Ends fl o gradientCb request m (.ok ack)
        { u with host := ⟨{ u.host.server with handshakeComplete := true }, some w⟩ }

theorem backfillDag_cases {x : Except SubstrateError PUnit}
    (he : (backfillDagFromPythonState fl o w).exec m = some (x, m')) :
    (∃ e, o.queryGradientSchemas = .error e ∧ x = .error e ∧
      (backfillGenesis o).exec m = some (.ok ⟨⟩, m')) ∨
    (o.queryGradientSchemas = .ok () ∧ x = .ok ⟨⟩) := by
  cases hq : o.queryGradientSchemas with
  | ok _ =>
    obtain ⟨a, rfl⟩ := succeeds_backfillDag hq _ _ _ he
    exact .inr ⟨rfl, rfl⟩
  | error e =>
    rw [backfillDagFromPythonState, hq] at he
    rcases Prog.exec_bind_eq_some.1 he with ⟨f, h1, -⟩ | ⟨u, t, h1, h2⟩
    · obtain ⟨a, ha⟩ := succeeds_backfillGenesis _ _ _ h1
      cases ha
    · cases h2
      exact .inl ⟨e, rfl, rfl, h1⟩

theorem hydrate_legacy {x : Except SubstrateError (DispatcherState rt)}
    (hid : (derivedState m.host.server.ledger.dag).substrateId = none)
    (he : (hydrate fl o gradientCb).exec m = some (x, m')) :
    (∃ e, (loadStateFull o gradientCb false :
        Except SubstrateError ((Nat × Bool) × DispatcherState rt)) = .error e ∧
      x = .error e ∧ m' = m) ∨
    ∃ a w y, loadStateFull o gradientCb false = .ok (a, w) ∧
      (backfillDagFromPythonState fl o w).exec m = some (y, m') ∧ x = y.map fun _ => w := by
  rw [hydrate, Prog.exec_get_bind, hid] at he
  dsimp only [Option.isSome_none] at he
  cases hl : (loadStateFull o gradientCb false :
      Except SubstrateError ((Nat × Bool) × DispatcherState rt)) with
  | error e =>
    rw [hl] at he
    cases he
    exact .inl ⟨e, rfl, rfl, rfl⟩
  | ok p =>
    obtain ⟨a, w⟩ := p
    rw [hl] at he
    rcases Prog.exec_bind_eq_some.1 he with ⟨e, h1, rfl⟩ | ⟨u, t, h1, h2⟩
    · exact .inr ⟨a, w, .error e, rfl, h1, rfl⟩
    · cases h2
      exact .inr ⟨a, w, .ok u, rfl, h1, rfl⟩

theorem handleHello_ends (hwaits : m.host.server.handshakeComplete = false)
    (hid : (derivedState m.host.server.ledger.dag).substrateId = none)
    (he : (handleHello fl o gradientCb request).exec m = some (r, m')) :
    Ends fl o gradientCb request m r m' := by
  rw [handleHello, Prog.exec_get_bind, hwaits] at he
  cases hsecret : sessionSecret? request with
  | none =>
    rw [hsecret] at he
    cases he
    refine .early fun hr => ?_
    have hs := hr.secret
    rw [hsecret] at hs
    cases hs
  | some b =>
    rw [hsecret] at he
    cases hspawn : o.spawn with
    | error e =>
      rw [hspawn] at he
      cases he
      refine .early fun hr => ?_
      obtain ⟨v, hv⟩ := hr.spawn
      cases hspawn.symm.trans hv
    | ok v =>
      rw [hspawn] at he
      have hreaches : ∀ a, (loadStateFull o gradientCb false :
          Except SubstrateError ((Nat × Bool) × DispatcherState rt)) = .ok a →
          ReachesQuery rt o gradientCb request := fun a ha =>
        ⟨by rw [hsecret, Option.isSome_some], ⟨v, hspawn⟩, ⟨a, ha⟩⟩
      rcases Prog.exec_bind_eq_some.1 he with ⟨e, h1, rfl⟩ | ⟨w, u, h1, h2⟩
      · rcases hydrate_legacy hid h1 with ⟨e', hl, hx, rfl⟩ | ⟨a, w, y, hl, hb, hx⟩
        · cases hx
          refine .early fun hr => ?_
          obtain ⟨a, ha⟩ := hr.load
          cases hl.symm.trans ha
        · rcases backfillDag_cases hb with ⟨e', hq, rfl, hg⟩ | ⟨-, rfl⟩
          · cases hx
            exact .unanswered (hreaches _ hl) hq hg
          · cases hx
      · rw [Prog.exec_modify_bind, Prog.exec_get_bind] at h2
        cases h2
        rcases hydrate_legacy hid h1 with ⟨e', -, hx, -⟩ | ⟨a, w', y, hl, hb, hx⟩
        · cases hx
        · rcases backfillDag_cases hb with ⟨e', -, rfl, -⟩ | ⟨hq, rfl⟩
          · cases hx
          · cases hx
            exact .greeted (hreaches _ hl) hl hq hb

/-- What `run_loop` does after a hello that has failed. -/
structure Rejects (o : Surroundings) (m m' : Machine env rt) : Prop where
  server : Shuns helloTexts m.host.server m'.host.server
  python : m'.host.python = m.host.python
  disk : m'.disk = savedDisk o.saveRejected m'.host.server.ledger m.disk

theorem shuns_immune {detectorId detectorName evidence : String} : Within (Shuns helloTexts)
    (emitImmuneSporocarp detectorId detectorName evidence : Handler env NodeHash) :=
  shuns_emitImmuneSporocarp (not_watched (p := immunePrefix) startsWith_append (by decide))

theorem exec_saveDag {outcome : Except SubstrateError Unit} {x : Except SubstrateError PUnit}
    (he : (dropping (saveDag outcome)).exec m = some (x, m')) :
    m' = { m with disk := savedDisk outcome m.host.server.ledger m.disk } := by
  obtain ⟨y, hy⟩ := exec_dropping he
  cases outcome with
  | ok _ =>
    cases hy
    rfl
  | error e =>
    cases hy
    rfl

theorem serveHello_cases (he : (serveHello fl o gradientCb request).exec m = some (r, m')) :
    (∃ ack, r = .ok ack ∧ (handleHello fl o gradientCb request).exec m = some (.ok ack, m')) ∨
    ∃ e u, r = .error e ∧ (handleHello fl o gradientCb request).exec m = some (.error e, u) ∧
      Rejects o u m' := by
  rw [serveHello] at he
  rcases Prog.exec_bind_eq_some.1 he with ⟨e, h1, -⟩ | ⟨x, u, h1, h2⟩
  · obtain ⟨y, -, hy⟩ := Prog.exec_attempt_eq_some.1 h1
    cases hy
  · obtain ⟨y, hm, hy⟩ := Prog.exec_attempt_eq_some.1 h1
    cases hy
    cases x with
    | ok ack =>
      cases h2
      exact .inl ⟨ack, rfl, hm⟩
    | error e =>
      have hreject : Within (Shuns helloTexts) (dropping (emitImmuneSporocarp
          "C30_handshake_pubkey_mismatch" "handshake_pubkey_mismatch"
          s!"hello rejected: {e.text}") : Handler env PUnit) :=
        within_bind (within_attempt shuns_immune) fun _ => within_pure
      rcases Prog.exec_bind_eq_some.1 h2 with ⟨f, h3, rfl⟩ | ⟨y, t, h3, h4⟩
      · obtain ⟨y, hy⟩ := succeeds_onSubstrate succeeds_dropping _ _ _ h3
        cases hy
      · obtain ⟨s, hs, rfl⟩ := Prog.exec_zoom_eq_some.1 h3
        rcases Prog.exec_bind_eq_some.1 h4 with ⟨f, h5, rfl⟩ | ⟨y', t', h5, h6⟩
        · obtain ⟨y', hy'⟩ := succeeds_dropping _ _ _ h5
          cases hy'
        · cases h6
          cases exec_saveDag h5
          exact .inr ⟨e, u, rfl, hm, hreject _ _ _ hs, rfl, rfl⟩

/-- The genesis is appended, unless something collides, and saved if that goes well. -/
theorem backfillGenesis_exec {x : Except SubstrateError PUnit}
    (hg : hasGenesis m.host.server.nodes = false)
    (he : (backfillGenesis o).exec m = some (x, m')) :
    Barring (fun s s' => ∃ n, IsGenesis n ∧ s'.nodes = s.nodes ++ [n])
      m.host.server m'.host.server ∧ m'.host.python = m.host.python ∧
      m'.disk = savedDisk o.saveGenesis m'.host.server.ledger m.disk := by
  rw [backfillGenesis, Prog.exec_get_bind] at he
  dsimp only at he
  rw [hg] at he
  rcases Prog.exec_bind_eq_some.1 he with ⟨e, h1, -⟩ | ⟨y, t, h1, h2⟩
  · obtain ⟨y, hy⟩ := succeeds_onSubstrate succeeds_dropping _ _ _ h1
    cases hy
  · obtain ⟨s, hs, rfl⟩ := Prog.exec_zoom_eq_some.1 h1
    obtain ⟨z, hz⟩ := exec_dropping hs
    cases exec_saveDag h2
    exact ⟨(emitSubstrateEvent_tip genesisEventNodeType_ne hz).imp fun ha =>
      ⟨_, ⟨⟨_, _, _, rfl, rfl⟩, ha.content⟩, ha.nodes⟩, rfl, rfl⟩

end

/-! ### Processes -/

/-- A process that has been started from the log on disk, as a hello finds it. The directory has a
manifest, so the boot has emitted no genesis; nor does a boot emit what is replayed. -/
structure BootedFrom (files : BootFiles) (disk : Ledger env.blake3) (m : Machine env rt) :
    Prop where
  server : Shuns helloTexts (bootState files disk) m.host.server
  disk : ∃ qs, m.disk.nodes = disk.nodes ++ qs ∧ Silent qs
  waits : m.host.server.handshakeComplete = false
  python : m.host.python = none

/-- A log from before the genesis, with no axes. -/
structure AxesOnDiskOnly (ns : List DagNode) : Prop where
  pregenesis : ∀ n ∈ ns, ¬ startsWith genesisPrefix n.nodeType
  unregistered : ∀ n ∈ ns, ¬ startsWith axisRegisteredPrefix n.nodeType

/-- The genesis of a hello comes to the disk without its axes. -/
def Strikes (rt : Runtime) (o : Surroundings) (gradientCb : Option Bytes) (request : Message) :
    Prop :=
  ReachesQuery rt o gradientCb request ∧ (o.saveGenesis = .ok () ∨ o.saveRejected = .ok ())

section

variable {fl : FloatDifference rt} {o : Surroundings} {gradientCb : Option Bytes}
  {request : Message} {m m' : Machine env rt} {files : BootFiles} {disk : Ledger env.blake3}

theorem BootedFrom.nodes (h : BootedFrom files disk m) :
    ∃ qs, m.host.server.nodes = disk.nodes ++ qs ∧ Silent qs := h.server.nodes

theorem hasGenesis_eq_false {ns : List DagNode} :
    hasGenesis ns = false ↔ ∀ n ∈ ns, ¬ startsWith genesisPrefix n.nodeType := by
  simp [hasGenesis]

theorem pregenesis_append {ns qs : List DagNode}
    (h : ∀ n ∈ ns, ¬ startsWith genesisPrefix n.nodeType) (hqs : Silent qs) :
    ∀ n ∈ ns ++ qs, ¬ startsWith genesisPrefix n.nodeType := fun n hn =>
  (List.mem_append.1 hn).elim (h n) (hqs.genesis n)

theorem BootedFrom.underived (h : BootedFrom files disk m) (hd : AxesOnDiskOnly disk.nodes) :
    (derivedState m.host.server.ledger.dag).substrateId = none := by
  obtain ⟨qs, hn, hqs⟩ := h.nodes
  refine derivedState_pregenesis fun n hm => pregenesis_append hd.pregenesis hqs n ?_
  rw [← hn]
  exact hm

/-- What a hello that fails leaves on the disk. -/
theorem failed_disk {e : SubstrateError} (hboot : BootedFrom files disk m)
    (hd : AxesOnDiskOnly disk.nodes)
    (he : (serveHello fl o gradientCb request).exec m = some (.error e, m')) :
    (Strikes rt o gradientCb request → m'.disk.Sound → ∃ qs n qs',
      m'.disk.nodes = disk.nodes ++ qs ++ n :: qs' ∧ Silent qs ∧ IsGenesis n ∧ Silent qs') ∧
    (¬ Strikes rt o gradientCb request → ∃ qs, m'.disk.nodes = disk.nodes ++ qs ∧ Silent qs) := by
  rcases serveHello_cases he with ⟨ack, hr, -⟩ | ⟨e', u, -, hu, hrejects⟩
  · cases hr
  obtain ⟨qs, hn, hqs⟩ := hboot.nodes
  obtain ⟨ks, hk, hks⟩ := hboot.disk
  obtain ⟨js, hj, hjs⟩ := hrejects.server.nodes
  cases handleHello_ends hboot.waits (hboot.underived hd) hu with
  | early hreach =>
    refine ⟨fun hs => absurd hs.1 hreach, fun _ => ?_⟩
    rw [hrejects.disk]
    cases o.saveRejected with
    | ok _ =>
      exact ⟨qs ++ js, by rw [← List.append_assoc, ← hn]; exact hj, hqs.append hjs⟩
    | error _ => exact ⟨ks, hk, hks⟩
  | unanswered hreach _ hg =>
    obtain ⟨hgenesis, -, hdisk⟩ := backfillGenesis_exec (hasGenesis_eq_false.2 fun n hm =>
      pregenesis_append hd.pregenesis hqs n (hn ▸ hm)) hg
    rw [hrejects.disk, hdisk, Strikes]
    cases o.saveRejected with
    | ok _ =>
      refine ⟨fun _ hs => ?_, fun hns => absurd ⟨hreach, .inr rfl⟩ hns⟩
      have hsound : ¬ Collided u.host.server := fun hc => hrejects.server.collided hc hs
      obtain ⟨n, hgen, hnodes⟩ := hgenesis.holds hsound
      refine ⟨qs, n, js, ?_, hqs, hgen, hjs⟩
      rw [← hn, List.append_cons, ← hnodes]
      exact hj
    | error _ =>
      cases o.saveGenesis with
      | ok _ =>
        refine ⟨fun _ hs => ?_, fun hns => absurd ⟨hreach, .inl rfl⟩ hns⟩
        obtain ⟨n, hgen, hnodes⟩ := hgenesis.holds (not_not.2 hs)
        exact ⟨qs, n, [], by rw [← hn]; exact hnodes, hqs, hgen, by simp [Silent]⟩
      | error _ =>
        refine ⟨fun hs => ?_, fun _ => ⟨ks, hk, hks⟩⟩
        rcases hs.2 with h | h
        · cases h
        · cases h

end

/-! ### The axes of a log -/

def axisTexts : List String := [axisRegisteredPrefix, axisPerturbedPrefix]

/-- The events of the axes, in order. -/
def axisLog (ns : List DagNode) : List (String × Bytes) :=
  (ns.filter fun n => Watched axisTexts n.nodeType).map fun n => (n.nodeType, n.content)

theorem axisLog_append {ns ms : List DagNode} : axisLog (ns ++ ms) = axisLog ns ++ axisLog ms := by
  rw [axisLog, List.filter_append, List.map_append]
  rfl

theorem axisLog_eq_nil {ns : List DagNode} (h : ∀ n ∈ ns, ¬ Watched replayedTexts n.nodeType) :
    axisLog ns = [] := by
  rw [axisLog, List.map_eq_nil_iff, List.filter_eq_nil_iff]
  intro n hn
  rw [decide_eq_true_eq]
  exact fun hw => h n hn (hw.mono (by decide))

theorem axisLog_of_map {ns : List DagNode} {es : List (String × Bytes)}
    (h : ns.map (fun n => (n.nodeType, n.content)) = es) :
    axisLog ns = es.filter fun e => Watched axisTexts e.1 := by
  rw [axisLog, ← h, List.filter_map]
  rfl

theorem IsGenesis.not_replayed {n : DagNode} (h : IsGenesis n) :
    ¬ Watched replayedTexts n.nodeType := not_watched h.startsWith (by decide)

/-! ### Trials -/

/-- Nothing outside the substrate fails but the saves. -/
structure Surroundings.Serves (o : Surroundings) : Prop where
  spawn : ∃ v, o.spawn = .ok v
  loadState : o.loadState = .ok ()
  queryGradientSchemas : o.queryGradientSchemas = .ok ()

/-- Two back-fills of a worker, one right after the other. -/
structure Rerun (env : Env) (rt : Runtime) (fl : FloatDifference rt) where
  worker : DispatcherState rt
  start : Machine env rt
  once : Machine env rt
  twice : Machine env rt
  first : ∃ o r, o.queryGradientSchemas = .ok () ∧
    (backfillDagFromPythonState fl o worker).exec start = some (r, once)
  second : ∃ o r, o.queryGradientSchemas = .ok () ∧
    (backfillDagFromPythonState fl o worker).exec once = some (r, twice)
  sound : ¬ HostCollided twice.host

/-- A directory from before the genesis, with axes on disk only; a hello to it that succeeds, one
that fails, and the next, to a process started from what the failed one has left. -/
structure Trial (env : Env) (rt : Runtime) (fl : FloatDifference rt) where
  gradientCb : Option Bytes
  disk : Ledger env.blake3
  start : Machine env rt
  atOnce : Machine env rt
  outside : Surroundings
  request : Message
  failed : Machine env rt
  restarted : Machine env rt
  answer : Except SubstrateError HelloAck
  retried : Machine env rt
  axesOnDiskOnly : AxesOnDiskOnly disk.nodes
  boots : ∃ files, BootedFrom files disk start
  succeeds : ∃ o request ack,
    (serveHello fl o gradientCb request).exec start = some (.ok ack, atOnce)
  fails : ∃ e, (serveHello fl outside gradientCb request).exec start = some (.error e, failed)
  restarts : ∃ files, BootedFrom files failed.disk restarted
  retries : ∃ o request, o.Serves ∧ (sessionSecret? request).isSome ∧
    (serveHello fl o gradientCb request).exec restarted = some (answer, retried)
  sound : ¬ HostCollided atOnce.host ∧ ¬ HostCollided retried.host

variable {fl : FloatDifference rt}

def Rerun.AddsNothing (p : Rerun env rt fl) : Prop :=
  p.twice.host.server.nodes = p.once.host.server.nodes

/-- The next hello ends as the one that succeeds at once does: with the same axes and values in the
worker, and the same events of them in the log. -/
structure Trial.Recovers (t : Trial env rt fl) : Prop where
  answer : ∃ ack, t.answer = .ok ack
  worker : t.retried.host.python.map (·.gradient.view) =
    t.atOnce.host.python.map (·.gradient.view)
  log : axisLog t.retried.host.server.nodes = axisLog t.atOnce.host.server.nodes

/-- There are axes in `gradient.cb`. -/
def HoldsAxes (rt : Runtime) (gradientCb : Option Bytes) : Prop :=
  ∃ g : GradientConfiguration rt, loadGradient gradientCb = .ok (some g) ∧ g.slots ≠ []

/-- The genesis of the failed hello comes to the disk without its axes, what is on the disk can be
derived from, and there are axes to lose, or the log cannot be replayed. -/
structure Trial.Strands (t : Trial env rt fl) : Prop where
  strikes : Strikes rt t.outside t.gradientCb t.request
  derivable : ∃ d, fromDag t.disk.dag = .ok d
  loses : HoldsAxes rt t.gradientCb ∨ ¬ ∃ w : DispatcherState rt, Hydrates t.disk.nodes w

section

variable {o : Surroundings} {gradientCb : Option Bytes} {request : Message}
  {m m' : Machine env rt} {r : Except SubstrateError HelloAck}

theorem loadStateFull_eq_ok {skipDiskLoad : Bool} {p : (Nat × Bool) × DispatcherState rt} :
    loadStateFull o gradientCb skipDiskLoad = .ok p ↔
      o.loadState = .ok () ∧ handleLoadState gradientCb skipDiskLoad .fresh = .ok p := by
  unfold loadStateFull
  cases o.loadState with
  | error e => simp
  | ok _ =>
    cases hl : handleLoadState gradientCb skipDiskLoad (.fresh : DispatcherState rt) with
    | ok a => simp
    | error e => cases e <;> simp

/-- A hello that succeeds without a genesis in the log. -/
theorem serveHello_legacy {ack : HelloAck} (hwaits : m.host.server.handshakeComplete = false)
    (hid : (derivedState m.host.server.ledger.dag).substrateId = none)
    (he : (serveHello fl o gradientCb request).exec m = some (.ok ack, m')) :
    ∃ a w, handleLoadState gradientCb false .fresh = .ok (a, w) ∧ m'.host.python = some w ∧
      Barring (Appended (genesisBackfill m.host.server ++
        backfilled fl m.host.server.nodes (gradientSchemas w.gradient)))
        m.host.server m'.host.server := by
  rcases serveHello_cases he with ⟨ack, -, hok⟩ | ⟨e, u, hr, -⟩
  · cases handleHello_ends hwaits hid hok with
    | greeted _ hl hq hb =>
      have hdoes := does_backfillDag hq _ _ _ hb
      exact ⟨_, _, (loadStateFull_eq_ok.1 hl).2, rfl, hdoes.stays, fun hc =>
        (hdoes.holds hc).2.appended⟩
  · cases hr

/-- Where nothing fails, a hello without a genesis in the log succeeds. -/
theorem serveHello_legacy_ok {p : (Nat × Bool) × DispatcherState rt}
    (hwaits : m.host.server.handshakeComplete = false)
    (hid : (derivedState m.host.server.ledger.dag).substrateId = none) (hserves : o.Serves)
    (hsecret : (sessionSecret? request).isSome)
    (hload : handleLoadState gradientCb false .fresh = .ok p)
    (he : (serveHello fl o gradientCb request).exec m = some (r, m')) : ∃ ack, r = .ok ack := by
  have hreach : ReachesQuery rt o gradientCb request :=
    ⟨hsecret, hserves.spawn, p, loadStateFull_eq_ok.2 ⟨hserves.loadState, hload⟩⟩
  rcases serveHello_cases he with ⟨ack, hr, -⟩ | ⟨e, u, -, hu, -⟩
  · exact ⟨ack, hr⟩
  · cases handleHello_ends hwaits hid hu with
    | early hn => exact absurd hreach hn
    | unanswered _ hq _ => cases hserves.queryGradientSchemas.symm.trans hq

/-- A hello with a genesis in the log replays the log to an empty worker. -/
theorem serveHello_born (hwaits : m.host.server.handshakeComplete = false)
    (hid : (derivedState m.host.server.ledger.dag).substrateId.isSome) (hserves : o.Serves)
    (hsecret : (sessionSecret? request).isSome)
    (he : (serveHello fl o gradientCb request).exec m = some (r, m')) :
    (∃ ack w, r = .ok ack ∧ Hydrates m.host.server.nodes w ∧ m'.host.python = some w ∧
      m'.host.server.ledger = m.host.server.ledger) ∨
    ((∃ e, r = .error e) ∧ (¬ ∃ w : DispatcherState rt, Hydrates m.host.server.nodes w) ∧
      (HostCollided m.host → HostCollided m'.host)) := by
  obtain ⟨b, hb⟩ := Option.isSome_iff_exists.1 hsecret
  obtain ⟨v, hv⟩ := hserves.spawn
  have hload : (loadStateFull o gradientCb true :
      Except SubstrateError ((Nat × Bool) × DispatcherState rt)) = .ok ((0, false), .fresh) :=
    loadStateFull_eq_ok.2 ⟨hserves.loadState, rfl⟩
  have hhydrate : ∀ {x : Except SubstrateError (DispatcherState rt)} {u : Machine env rt},
      (hydrate fl o gradientCb).exec m = some (x, u) →
      x = replayPythonEventsFromDag o m.host.server.nodes .fresh ∧ u = m := by
    intro x u h
    rw [hydrate, Prog.exec_get_bind, hid] at h
    dsimp only at h
    rw [hload] at h
    dsimp only at h
    rw [if_pos rfl] at h
    split at h
    · rename_i hrep
      cases h
      exact ⟨hrep.symm, rfl⟩
    · rename_i hrep
      cases h
      exact ⟨hrep.symm, rfl⟩
  have hhello : ∀ {x : Except SubstrateError HelloAck} {u : Machine env rt},
      (handleHello fl o gradientCb request).exec m = some (x, u) →
      (∃ ack w, x = .ok ack ∧ Hydrates m.host.server.nodes w ∧ u.host.python = some w ∧
        u.host.server.ledger = m.host.server.ledger) ∨
      ((∃ e, x = .error e) ∧ (¬ ∃ w : DispatcherState rt, Hydrates m.host.server.nodes w) ∧
        u = m) := by
    intro x u h
    rw [handleHello, Prog.exec_get_bind, hwaits, hb, hv] at h
    rcases Prog.exec_bind_eq_some.1 h with ⟨e, h1, rfl⟩ | ⟨w, t, h1, h2⟩
    · obtain ⟨hrep, rfl⟩ := hhydrate h1
      refine .inr ⟨⟨e, rfl⟩, ?_, rfl⟩
      rintro ⟨w, hw⟩
      rw [replayPythonEventsFromDag, show replay replayNode _ _ = _ from hw] at hrep
      cases hrep
    · obtain ⟨hrep, rfl⟩ := hhydrate h1
      rw [Prog.exec_modify_bind, Prog.exec_get_bind] at h2
      cases h2
      refine .inl ⟨_, w, rfl, ?_, rfl, rfl⟩
      rw [replayPythonEventsFromDag] at hrep
      split at hrep
      · rename_i u w' hr
        cases hrep
        exact hr
      · cases hrep
  rcases serveHello_cases he with ⟨ack, rfl, hok⟩ | ⟨e, u, rfl, hu, hrejects⟩
  · rcases hhello hok with h | ⟨⟨e, hx⟩, -⟩
    · exact .inl h
    · cases hx
  · rcases hhello hu with ⟨ack, w, hx, -⟩ | ⟨-, hnone, rfl⟩
    · cases hx
    · exact .inr ⟨⟨e, rfl⟩, hnone, hrejects.server.collided⟩

/-- What is loaded has axes just if there are axes on the disk. -/
theorem holdsAxes_iff {a : Nat × Bool} {w : DispatcherState rt}
    (h : handleLoadState gradientCb false .fresh = .ok (a, w)) :
    HoldsAxes rt gradientCb ↔ w.gradient.slots ≠ [] := by
  rw [handleLoadState, if_neg (by decide)] at h
  unfold HoldsAxes
  split at h
  · cases h
  · rename_i hg
    cases h
    refine ⟨?_, fun hne => absurd rfl hne⟩
    rintro ⟨g, h1, -⟩
    cases hg.symm.trans h1
  · rename_i g hg
    cases h
    refine ⟨?_, fun hne => ⟨g, hg, hne⟩⟩
    rintro ⟨g', h1, h2⟩
    cases hg.symm.trans h1
    exact h2

end

/-! ### What becomes of a trial -/

theorem Appended.axisLog {es : List (String × Bytes)} {s s' : ServerState env}
    (h : Appended es s s') : Tropism.axisLog s'.nodes =
      Tropism.axisLog s.nodes ++ es.filter fun e => Watched axisTexts e.1 := by
  obtain ⟨ns, hn, hns⟩ := h
  rw [hn, axisLog_append, axisLog_of_map hns]

/-- A genesis is no event of an axis. -/
theorem axisLog_genesisBackfill {s : ServerState env} :
    (genesisBackfill s).filter (fun e => Watched axisTexts e.1) = [] := by
  rw [List.filter_eq_nil_iff]
  intro e he
  rw [genesisBackfill] at he
  split at he
  · cases he
  · rw [List.mem_singleton.1 he, decide_eq_true_eq]
    exact not_watched (p := genesisPrefix) startsWith_append (by decide)

/-- A log to which nothing has been added that a worker is sent. -/
structure Preserves (ns ms : List DagNode) : Prop where
  nodes : ∃ qs, ms = ns ++ qs ∧ ∀ n ∈ qs, ¬ Watched replayedTexts n.nodeType

section

variable {ns ms : List DagNode} {w : DispatcherState rt}

theorem Preserves.axisLog (h : Preserves ns ms) : Tropism.axisLog ms = Tropism.axisLog ns := by
  obtain ⟨qs, rfl, hqs⟩ := h.nodes
  rw [axisLog_append, axisLog_eq_nil hqs, List.append_nil]

theorem Preserves.hydrates (h : Preserves ns ms) : Hydrates ms w ↔ Hydrates ns w := by
  obtain ⟨qs, rfl, hqs⟩ := h.nodes
  rw [Hydrates, Lib.Replays, Hydrates, Lib.Replays, replay_append_of_const
    (replay_const fun n hn w => replayNode_of_not_watched (hqs n hn) w)]

theorem Preserves.unregistered (h : Preserves ns ms)
    (hns : ∀ n ∈ ns, ¬ startsWith axisRegisteredPrefix n.nodeType) :
    ∀ n ∈ ms, ¬ startsWith axisRegisteredPrefix n.nodeType := by
  obtain ⟨qs, rfl, hqs⟩ := h.nodes
  intro n hn
  rcases List.mem_append.1 hn with hm | hm
  · exact hns n hm
  · exact fun hs => hqs n hm ⟨axisRegisteredPrefix, by simp [replayedTexts], hs⟩

theorem hasRegistered_eq_false (hns : ∀ n ∈ ns, ¬ startsWith axisRegisteredPrefix n.nodeType)
    (name : String) : hasRegistered ns name = false := by
  rw [hasRegistered, List.any_eq_false]
  intro n hn
  rw [decide_eq_true_eq]
  exact fun he => hns n hn (he ▸ startsWith_append)

end

namespace Trial

variable {t : Trial env rt fl}

theorem start_preserves : Preserves t.disk.nodes t.start.host.server.nodes := by
  obtain ⟨files, hboot⟩ := t.boots
  obtain ⟨qs, hn, hqs⟩ := hboot.nodes
  exact ⟨qs, hn, hqs.replayed⟩

/-- The next process is without a genesis, or has the one that the failed hello has saved. -/
theorem restarted_nodes :
    (¬ Strikes rt t.outside t.gradientCb t.request ∧
      ∃ qs, t.restarted.host.server.nodes = t.disk.nodes ++ qs ∧ Silent qs) ∨
    (Strikes rt t.outside t.gradientCb t.request ∧ (t.failed.disk.Sound → ∃ qs n qs',
      t.restarted.host.server.nodes = t.disk.nodes ++ qs ++ n :: qs' ∧ Silent qs ∧
        IsGenesis n ∧ Silent qs')) := by
  obtain ⟨files, hboot⟩ := t.boots
  obtain ⟨e, hfails⟩ := t.fails
  obtain ⟨files', hrestarts⟩ := t.restarts
  obtain ⟨ks, hk, hks⟩ := hrestarts.nodes
  obtain ⟨hstrikes, hspares⟩ := failed_disk hboot t.axesOnDiskOnly hfails
  by_cases hs : Strikes rt t.outside t.gradientCb t.request
  · refine .inr ⟨hs, fun hsound => ?_⟩
    obtain ⟨qs, n, qs', hn, hqs, hgen, hqs'⟩ := hstrikes hs hsound
    exact ⟨qs, n, qs' ++ ks, by rw [hk, hn, List.append_assoc, List.cons_append], hqs, hgen,
      hqs'.append hks⟩
  · obtain ⟨qs, hn, hqs⟩ := hspares hs
    exact .inl ⟨hs, qs ++ ks, by rw [hk, hn, List.append_assoc], hqs.append hks⟩

theorem sound_failed (h : ¬ HostCollided t.restarted.host) : t.failed.disk.Sound := by
  obtain ⟨files, hrestarts⟩ := t.restarts
  exact not_not.1 fun hc => h (hrestarts.server.collided hc)

theorem restarted_preserves (h : ¬ HostCollided t.restarted.host) :
    Preserves t.disk.nodes t.restarted.host.server.nodes := by
  rcases restarted_nodes (t := t) with ⟨-, qs, hn, hqs⟩ | ⟨-, hgenesis⟩
  · exact ⟨qs, hn, hqs.replayed⟩
  · obtain ⟨qs, n, qs', hn, hqs, hgen, hqs'⟩ := hgenesis (sound_failed h)
    refine ⟨qs ++ n :: qs', by rw [hn, List.append_assoc], fun m hm => ?_⟩
    rw [List.mem_append, List.mem_cons] at hm
    rcases hm with hm | rfl | hm
    · exact hqs.replayed m hm
    · exact hgen.not_replayed
    · exact hqs'.replayed m hm

/-- The next process knows who it is just if the failed hello has struck a log that can be read. -/
theorem restarted_derived (h : ¬ HostCollided t.restarted.host) :
    (derivedState t.restarted.host.server.ledger.dag).substrateId.isSome ↔
      Strikes rt t.outside t.gradientCb t.request ∧ ∃ d, fromDag t.disk.dag = .ok d := by
  have hreadable : (∃ d, fromDag t.disk.dag = .ok d) ↔ Readable t.disk.dag t.disk.nodes :=
    exists_congr fun d => fromDag_eq_ok
  rcases restarted_nodes (t := t) with ⟨hs, qs, hn, hqs⟩ | ⟨hs, hgenesis⟩
  · have hnone : (derivedState t.restarted.host.server.ledger.dag).substrateId = none :=
      derivedState_pregenesis fun n hm =>
        pregenesis_append t.axesOnDiskOnly.pregenesis hqs n (hn ▸ hm)
    rw [hnone]
    exact ⟨fun hc => absurd hc (by decide), fun hc => absurd hc.1 hs⟩
  · obtain ⟨qs, n, qs', hn, hqs, hgen, hqs'⟩ := hgenesis (sound_failed h)
    rw [derivedState_born hn (pregenesis_append t.axesOnDiskOnly.pregenesis hqs) hgen hqs',
      readable_append_silent hqs, hreadable]
    exact ⟨fun hr => ⟨hs, hr.of_dag _⟩, fun hr => hr.2.of_dag _⟩

/-- What the hello that succeeds has loaded, and written into the log. -/
theorem atOnce_spec : ∃ a w, handleLoadState t.gradientCb false .fresh = .ok (a, w) ∧
    t.atOnce.host.python = some w ∧ Tropism.axisLog t.atOnce.host.server.nodes =
      Tropism.axisLog t.disk.nodes ++ (backfilled fl t.disk.nodes
        (gradientSchemas w.gradient)).filter fun e => Watched axisTexts e.1 := by
  obtain ⟨files, hboot⟩ := t.boots
  obtain ⟨o, request, ack, he⟩ := t.succeeds
  obtain ⟨a, w, hload, hpython, happended⟩ := serveHello_legacy hboot.waits
    (hboot.underived t.axesOnDiskOnly) he
  refine ⟨a, w, hload, hpython, ?_⟩
  have hsame : backfilled fl t.start.host.server.nodes (gradientSchemas w.gradient) =
      backfilled fl t.disk.nodes (gradientSchemas w.gradient) := backfilled_congr fun i _ => by
    rw [hasRegistered_eq_false (start_preserves.unregistered t.axesOnDiskOnly.unregistered),
      hasRegistered_eq_false t.axesOnDiskOnly.unregistered]
  rw [(happended.holds t.sound.1).axisLog, List.filter_append, axisLog_genesisBackfill,
    List.nil_append, start_preserves.axisLog, hsame]

/-- Without a genesis the next hello does what the one at once does. -/
theorem recovers_of_none
    (hid : (derivedState t.restarted.host.server.ledger.dag).substrateId = none) :
    t.Recovers ∧ ¬ HostCollided t.restarted.host := by
  obtain ⟨files, hrestarts⟩ := t.restarts
  obtain ⟨o, request, hserves, hsecret, he⟩ := t.retries
  obtain ⟨a, w, hload, hpython, hlog⟩ := atOnce_spec (t := t)
  obtain ⟨ack, hack⟩ := serveHello_legacy_ok hrestarts.waits hid hserves hsecret hload he
  rw [hack] at he
  obtain ⟨a', w', hload', hpython', happended⟩ := serveHello_legacy hrestarts.waits hid he
  cases hload.symm.trans hload'
  have hfree : ¬ HostCollided t.restarted.host := fun hc => t.sound.2 (happended.stays hc)
  have hkept := restarted_preserves hfree
  have hsame : backfilled fl t.restarted.host.server.nodes (gradientSchemas w.gradient) =
      backfilled fl t.disk.nodes (gradientSchemas w.gradient) := backfilled_congr fun i _ => by
    rw [hasRegistered_eq_false (hkept.unregistered t.axesOnDiskOnly.unregistered),
      hasRegistered_eq_false t.axesOnDiskOnly.unregistered]
  refine ⟨⟨⟨ack, hack⟩, by rw [hpython, hpython'], ?_⟩, hfree⟩
  rw [(happended.holds t.sound.2).axisLog, List.filter_append, axisLog_genesisBackfill,
    List.nil_append, hkept.axisLog, hsame, hlog]

/-- With a genesis the next hello ends with no axes, if it ends well. -/
theorem recovers_of_born
    (hid : (derivedState t.restarted.host.server.ledger.dag).substrateId.isSome) :
    (t.Recovers ↔ ¬ (HoldsAxes rt t.gradientCb ∨
      ¬ ∃ w : DispatcherState rt, Hydrates t.disk.nodes w)) ∧
    ¬ HostCollided t.restarted.host := by
  obtain ⟨files, hrestarts⟩ := t.restarts
  obtain ⟨o, request, hserves, hsecret, he⟩ := t.retries
  obtain ⟨a, w, hload, hpython, hlog⟩ := atOnce_spec (t := t)
  rw [holdsAxes_iff hload]
  rcases serveHello_born hrestarts.waits hid hserves hsecret he with
    ⟨ack, v, hack, hv, hpython', hledger⟩ | ⟨⟨e, hack⟩, hnone, hstays⟩
  · have hfree : ¬ HostCollided t.restarted.host := fun hc => t.sound.2 (by
      rw [HostCollided, Collided, hledger]
      exact hc)
    have hkept := restarted_preserves hfree
    have hempty := (empty_of_hydrates (hkept.unregistered t.axesOnDiskOnly.unregistered) hv).1
    have hview : v.gradient.view = [] := by
      rwa [GradientConfiguration.names, List.map_eq_nil_iff, ← List.map_eq_nil_iff] at hempty
    refine ⟨⟨fun hr => ?_, fun hl => ?_⟩, hfree⟩
    · have hworker := hr.worker
      rw [hpython, hpython', Option.map_some, Option.map_some, Option.some.injEq, hview] at hworker
      rintro (hne | hno)
      · exact hne (List.map_eq_nil_iff.1 hworker.symm)
      · exact hno ⟨v, hkept.hydrates.1 hv⟩
    · rw [not_or, not_not] at hl
      have hnil : w.gradient.slots = [] := hl.1
      refine ⟨⟨ack, hack⟩, ?_, ?_⟩
      · rw [hpython, hpython', Option.map_some, Option.map_some, hview, GradientConfiguration.view,
          hnil, List.map_nil]
      · have hnodes : t.retried.host.server.nodes = t.restarted.host.server.nodes :=
          congrArg Ledger.nodes hledger
        rw [hnodes, hkept.axisLog, hlog, gradientSchemas, hnil]
        simp [backfilled]
  · have hfree : ¬ HostCollided t.restarted.host := fun hc => t.sound.2 (hstays hc)
    refine ⟨⟨fun hr => ?_, fun hl => ?_⟩, hfree⟩
    · obtain ⟨ack, hok⟩ := hr.answer
      cases hack.symm.trans hok
    · rw [not_or, not_not, not_not] at hl
      obtain ⟨v, hv⟩ := hl.2
      exact absurd ⟨v, (restarted_preserves hfree).hydrates.2 hv⟩ hnone

end Trial

/-- A second back-fill adds nothing just if no axis has moved since it was registered. A hello after
one that has failed ends as one that succeeds at once just if the failed one does not strand the
axes. -/
theorem backfill_survives (p : Rerun env rt fl) (t : Trial env rt fl) :
    (p.AddsNothing ↔ Unmoved fl p.worker.gradient) ∧ (t.Recovers ↔ ¬ t.Strands) := by
  constructor
  · obtain ⟨o, r, hq, h1⟩ := p.first
    obtain ⟨o', r', hq', h2⟩ := p.second
    exact backfill_twice hq hq' h1 h2 p.sound
  · cases hid : (derivedState t.restarted.host.server.ledger.dag).substrateId with
    | none =>
      obtain ⟨hr, hfree⟩ := Trial.recovers_of_none hid
      refine ⟨fun _ hs => ?_, fun _ => hr⟩
      have hsome := (Trial.restarted_derived hfree).2 ⟨hs.strikes, hs.derivable⟩
      rw [hid] at hsome
      cases hsome
    | some id =>
      have hsome : (derivedState t.restarted.host.server.ledger.dag).substrateId.isSome := by
        rw [hid, Option.isSome_some]
      obtain ⟨hr, hfree⟩ := Trial.recovers_of_born hsome
      obtain ⟨hs, hd⟩ := (Trial.restarted_derived hfree).1 hsome
      rw [hr]
      exact not_congr ⟨fun hl => ⟨hs, hd, hl⟩, fun hst => hst.loses⟩

/-! ### A hello that strands an axis -/

section

/-- A gradient with one axis, which has gained something. -/
def stirred : GradientConfiguration wholeNumbers :=
  ⟨[⟨⟨⟨"a", .appetite, (5 : Int), (0 : Int), (1 : Int), false⟩, (1 : Int), 0, none⟩, .noop⟩],
    by simp⟩

/-- `gradient.cb` of it. -/
def stirredCb : Bytes := (mapOf (mirror stirred)).wire

def calm : Surroundings := ⟨.ok ("", ""), .ok (), .ok (), .ok (), .ok (), .ok (), fun _ => ""⟩

/-- The worker does not say what its axes are. -/
def unanswering : Surroundings := { calm with queryGradientSchemas := .error (.bridge "") }

def helloRequest : Message :=
  ⟨"hello", 1, [("session_secret", .bytes (List.replicate 32 0))]⟩

abbrev unkeyedEnv : Env := keyedEnv []

def legacyStart : Machine unkeyedEnv wholeNumbers := .boot noFiles .new

def hello (o : Surroundings) (m : Machine unkeyedEnv wholeNumbers) :
    Option (Except SubstrateError HelloAck × Machine unkeyedEnv wholeNumbers) :=
  (serveHello wholeDifference o (some stirredCb) helloRequest).exec m

def axisCount (m : Machine unkeyedEnv wholeNumbers) : Option Nat :=
  m.host.python.map fun w => w.gradient.view.length

/-- The hello has succeeded, and the worker has this many axes. -/
def greetsWith (count : Nat)
    (p : Except SubstrateError HelloAck × Machine unkeyedEnv wholeNumbers) : Bool :=
  p.1.isOk && decide (axisCount p.2 = some count) && decide p.2.host.server.ledger.Sound

theorem booted_boot {disk : Ledger unkeyedEnv.blake3} :
    BootedFrom noFiles disk (.boot noFiles disk : Machine unkeyedEnv wholeNumbers) :=
  ⟨Std.Refl.refl _, ⟨[], (List.append_nil _).symm, by simp [Silent]⟩, rfl, rfl⟩

theorem greetsWith_ok {count : Nat}
    {p : Except SubstrateError HelloAck × Machine unkeyedEnv wholeNumbers}
    (h : greetsWith count p = true) :
    (∃ ack, p.1 = .ok ack) ∧ axisCount p.2 = some count ∧ ¬ HostCollided p.2.host := by
  obtain ⟨r, m⟩ := p
  simp only [greetsWith, Bool.and_eq_true, decide_eq_true_eq] at h
  refine ⟨?_, h.1.2, not_not.2 h.2⟩
  cases r with
  | ok ack => exact ⟨ack, rfl⟩
  | error e => cases h.1.1

/-- What a hello with these surroundings leaves on disk, when it fails, and a hello that finds it and
gives the worker so many axes. -/
theorem exists_trial {o : Surroundings} {count : Nat} (hruns : (hello o legacyStart).any (fun p =>
      !p.1.isOk && (hello calm (.boot noFiles p.2.disk)).any (greetsWith count)) = true) :
    ∃ t : Trial unkeyedEnv wholeNumbers wholeDifference, t.outside = o ∧
      axisCount t.atOnce = some 1 ∧ axisCount t.retried = some count := by
  have honce : (hello calm legacyStart).any (greetsWith 1) = true := by decide +kernel
  obtain ⟨⟨r, atOnce⟩, h1, hgreets⟩ := (Option.any_eq_true _ _).1 honce
  obtain ⟨⟨r', failed⟩, h2, hrest⟩ := (Option.any_eq_true _ _).1 hruns
  rw [Bool.and_eq_true, Bool.not_eq_true'] at hrest
  obtain ⟨⟨answer, retried⟩, h3, hcount⟩ := (Option.any_eq_true _ _).1 hrest.2
  obtain ⟨⟨ack, hack⟩, hone, hsound⟩ := greetsWith_ok hgreets
  obtain ⟨-, hcount, hsound'⟩ := greetsWith_ok hcount
  have hfails : ∃ e, r' = .error e := by
    cases r' with
    | ok ack => cases hrest.1
    | error e => exact ⟨e, rfl⟩
  obtain ⟨e, rfl⟩ := hfails
  cases hack
  refine ⟨⟨some stirredCb, .new, legacyStart, atOnce, o, helloRequest, failed,
    .boot noFiles failed.disk, answer, retried, ⟨?_, ?_⟩, ⟨noFiles, booted_boot⟩,
    ⟨calm, helloRequest, ack, h1⟩, ⟨e, h2⟩, ⟨noFiles, booted_boot⟩,
    ⟨calm, helloRequest, ⟨⟨_, rfl⟩, rfl, rfl⟩, rfl, h3⟩, hsound, hsound'⟩, rfl, hone, hcount⟩
  · exact fun n hn => absurd hn List.not_mem_nil
  · exact fun n hn => absurd hn List.not_mem_nil

def backfillOf (g : GradientConfiguration wholeNumbers) : Greeting unkeyedEnv wholeNumbers PUnit :=
  backfillDagFromPythonState wholeDifference calm { DispatcherState.fresh with gradient := g }

theorem exists_rerun {g : GradientConfiguration wholeNumbers} {P : Nat → Nat → Bool}
    (hruns : ((backfillOf g).exec legacyStart).any (fun p => ((backfillOf g).exec p.2).any fun q =>
      P p.2.host.server.nodes.length q.2.host.server.nodes.length &&
        decide q.2.host.server.ledger.Sound) = true) :
    ∃ p : Rerun unkeyedEnv wholeNumbers wholeDifference, p.worker.gradient = g ∧
      P p.once.host.server.nodes.length p.twice.host.server.nodes.length := by
  obtain ⟨p, h1, hrest⟩ := (Option.any_eq_true _ _).1 hruns
  obtain ⟨q, h2, hq⟩ := (Option.any_eq_true _ _).1 hrest
  rw [Bool.and_eq_true, decide_eq_true_eq] at hq
  exact ⟨⟨_, legacyStart, p.2, q.2, ⟨calm, p.1, rfl, h1⟩, ⟨calm, q.1, rfl, h2⟩, not_not.2 hq.2⟩,
    rfl, hq.1⟩

/-- The axis as it was registered. -/
def settled : GradientConfiguration wholeNumbers :=
  ⟨[⟨⟨⟨"a", .appetite, (5 : Int), (0 : Int), (1 : Int), false⟩, (0 : Int), 0, none⟩, .noop⟩],
    by simp⟩

/-- The worker does not start. -/
def workerless : Surroundings := { calm with spawn := .error (.bridge "") }

/-- A back-fill of an axis that has not moved, made twice; and a hello that fails before anything is
saved. -/
theorem backfill_survives_settled :
    (∃ p : Rerun unkeyedEnv wholeNumbers wholeDifference, p.worker.gradient = settled ∧
      p.AddsNothing) ∧
    ∃ t : Trial unkeyedEnv wholeNumbers wholeDifference, t.outside = workerless ∧ t.Recovers := by
  obtain ⟨p, hworker, -⟩ := @exists_rerun settled (fun _ _ => true) (by decide +kernel)
  obtain ⟨t, hfails, -⟩ := @exists_trial workerless 1 (by decide +kernel)
  obtain ⟨hadds, hrecovers⟩ := backfill_survives p t
  refine ⟨⟨p, hworker, hadds.2 ?_⟩, t, hfails, hrecovers.2 fun hstrands => ?_⟩
  · rw [hworker]
    unfold Unmoved
    decide +kernel
  · obtain ⟨hreaches, -⟩ := hstrands.strikes
    rw [hfails] at hreaches
    obtain ⟨v, hv⟩ := hreaches.spawn
    cases hv

/-- The perturbation of the axis is written once more; and after a hello whose genesis was saved and
whose question was not answered, the next leaves the worker with no axis. -/
theorem backfill_repeats_and_strands :
    (∃ p : Rerun unkeyedEnv wholeNumbers wholeDifference, ¬ p.AddsNothing) ∧
      ∃ t : Trial unkeyedEnv wholeNumbers wholeDifference, ¬ t.Recovers := by
  constructor
  · obtain ⟨p, -, hlonger⟩ := @exists_rerun stirred (fun n m => decide (m ≠ n)) (by decide +kernel)
    exact ⟨p, fun hadds => of_decide_eq_true hlonger (congrArg List.length hadds)⟩
  · obtain ⟨t, -, hone, hzero⟩ := @exists_trial unanswering 0 (by decide +kernel)
    refine ⟨t, fun hr => ?_⟩
    have hviews := congrArg (Option.map List.length) hr.worker
    rw [Option.map_map, Option.map_map] at hviews
    cases hzero.symm.trans (hviews.trans hone)

end

end Myco.Tropism
