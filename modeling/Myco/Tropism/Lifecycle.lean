import Myco.Lib.Grows
import Myco.Tropism.Rounds

/-!
# Leaving a quarantine, and leaving life

`substrate/src/lifecycle.rs`: the operator lifts the quarantine that a substrate was born into, and
accepts a proposal of the substrate to end itself. Both handlers, in runs with everything else that
a substrate does, with saves at any moment and with restarts:

- `executions_proposed`: a life is ended only on a proposal that was made earlier, for the axis that
  it names.
- `quarantine_left_for_good`: from the lift on the substrate is out of quarantine, a restart
  included, and no other lift is recorded.

No other part of the program emits one of these events, and a quarantine is entered only in the log
that a parent writes for its child; of steps that are not modelled this is assumed (`Unconcerned`).
The process exits when it has answered that it accepts a proposal. Here it may also go on.
-/

namespace Myco.Tropism

open Myco.Lib Myco.Canonical Myco.Schema Myco.Substrate Myco.Federation

variable {env : Env} {rt : Runtime}

/-! ### The code -/

def encodeBirthPeriodQuarantineLifted (reason : String) (atCycle : UInt64)
    (liftedAtUnixNs : Int64) : Bytes :=
  cbEncode [("reason", .string reason), ("at_cycle", .uint atCycle),
    ("lifted_at_unix_ns", .timestamp liftedAtUnixNs)]

def handleLiftBirthPeriodQuarantine (request : Message) : Handler env (Option Message) := do
  let s ← get
  if (currentQuarantineState s).any fun q => !q.lifted then
    let liftedAtUnixNs ← readClock
    let eventHash ← emitSubstrateEvent birthPeriodQuarantineLiftedType
      (encodeBirthPeriodQuarantineLifted "operator_signed_lift" s.cycleCounter liftedAtUnixNs)
    pure (respond "lift_birth_period_quarantine_response" request
      [("was_in_quarantine", .bool true), ("quarantine_lifted_event_hash", hashValue eventHash)])
  else
    pure (respond "lift_birth_period_quarantine_response" request
      [("was_in_quarantine", .bool false)])

def selfEuthanasiaExecutedPrefix : String := "self_euthanasia_executed:"

def encodeSelfEuthanasiaExecuted (axisName : String) (triggeringProposalHash : Hash32)
    (atCycle : UInt64) (executedAtUnixNs : Int64) : Bytes :=
  cbEncode [("axis_name", .string axisName),
    ("triggering_proposal_hash", hashValue triggeringProposalHash), ("at_cycle", .uint atCycle),
    ("executed_at_unix_ns", .timestamp executedAtUnixNs)]

/-- The axis in the content of a proposal. -/
def proposedAxis (env : Env) (content : Bytes) : Except (Fault SubstrateError) String :=
  match decode content with
  | .error (.err e) => .error (.err (.protocol s!"decode proposal content: {
      env.canonicalErrorText e}"))
  | .error .panic => .error .panic
  | .error .stack => .error .stack
  | .ok (.map m) =>
    (mapGetString m "axis_name").mapError fun e => .err (.protocol (env.canonicalErrorText e))
  | .ok _ => .error (.err (.protocol "proposal content not a Map"))

def handleAcceptSelfEuthanasiaProposal (request : Message) : Handler env (Option Message) := do
  match bytes32? request.payload "proposal_hash" with
  | none =>
    throw (.protocol "accept_self_euthanasia_proposal: proposal_hash must be 32 Bytes")
  | some proposalHash =>
    let s ← get
    match s.ledger.dag.get proposalHash with
    | none => throw (.protocol s!"accept_self_euthanasia_proposal: proposal_hash {
        hexFirst8Bytes proposalHash} not found in DAG")
    | some proposal =>
      if ¬ startsWith selfEuthanasiaProposalPrefix proposal.nodeType then
        throw (.protocol s!"accept_self_euthanasia_proposal: proposal_hash points to {
          proposal.nodeType} (not a self_euthanasia_proposal)")
      else
        match proposedAxis env proposal.content with
        | .error (.err e) => throw e
        | .error _ => Prog.halt
        | .ok axisName =>
          let executedAtUnixNs ← readClock
          let eventHash ← emitSubstrateEvent (selfEuthanasiaExecutedPrefix ++ axisName)
            (encodeSelfEuthanasiaExecuted axisName proposalHash s.cycleCounter executedAtUnixNs)
          pure (respond "accept_self_euthanasia_proposal_response" request
            [("axis_name", .string axisName), ("executed_event_hash", hashValue eventHash)])

/-! ### What may be laid -/

def lifecycleTexts : List String :=
  [birthPeriodQuarantineEnteredType, birthPeriodQuarantineLiftedType, selfEuthanasiaExecutedPrefix]

def quarantineOf (log : List DagNode) : Option QuarantineState := log.foldl quarantineEvent none

/-- What may be laid on the log. -/
inductive Rightful (env : Env) (log : List DagNode) (n : DagNode) : Prop
  | other : ¬ Watched lifecycleTexts n.nodeType → Rightful env log n
  | lift : n.nodeType = birthPeriodQuarantineLiftedType →
      (∃ q, quarantineOf log = some q ∧ q.lifted = false) → Rightful env log n
  | execution {p : DagNode} {axisName : String} {cycle : UInt64} {t : Int64} : p ∈ log →
      startsWith selfEuthanasiaProposalPrefix p.nodeType →
      proposedAxis env p.content = .ok axisName →
      n.nodeType = selfEuthanasiaExecutedPrefix ++ axisName →
      n.content = encodeSelfEuthanasiaExecuted axisName p.hash cycle t → Rightful env log n

/-- The events of the two handlers, and those that enter a quarantine. -/
def mortal : Watch where
  texts := cultivationTexts ++ lifecycleTexts
  View := Unit
  see _ := ()
  uncommon := by decide
  cultivation := by decide

theorem sedentary_mortal : mortal.Sedentary := ⟨by decide, fun _ _ => rfl⟩

theorem heedless_mortal : mortal.Heedless := ⟨by decide, fun _ _ => rfl, fun _ _ => rfl⟩

theorem grows_of_mortal {s s' : ServerState env} (h : Aside mortal s s') :
    Grows (Rightful env) s.nodes s'.nodes := by
  obtain ⟨ns, hn, hns⟩ := h.nodes
  rw [hn]
  exact .of_forall_mem fun n hm _ =>
    .other fun hw => hns n hm (hw.mono fun w hw => List.mem_append_right _ hw)

theorem grows_of_emit {nodeType : String} {content : Bytes} {s s' : ServerState env}
    {r : Except SubstrateError NodeHash}
    (h : (emitSubstrateEvent nodeType content).exec s = some (r, s'))
    (hw : ∀ n : DagNode, n.nodeType = nodeType → n.content = content → Rightful env s.nodes n) :
    Grows (Rightful env) s.nodes s'.nodes := by
  obtain ⟨-, hcases⟩ := emitSubstrateEvent_cases h
  rcases hcases with ⟨e, -, hn⟩ | ⟨n, -, hn, ht, hc, -⟩
  · exact hn ▸ .refl
  · exact hn ▸ .snoc .refl (hw n ht hc)

section

variable {request : Message} {s s' : ServerState env}
  {r : Except SubstrateError (Option Message)}

/-- The clock is read, and an event is emitted. -/
theorem clocked_emit {α : Type} {nodeType : String} {content : Int64 → Bytes} {f : NodeHash → α}
    {x : Except SubstrateError α} (h : (do
      let t ← readClock
      let eventHash ← emitSubstrateEvent nodeType (content t)
      pure (f eventHash) : Handler env α).exec s = some (x, s')) :
    ∃ t u y, u.nodes = s.nodes ∧ (emitSubstrateEvent nodeType (content t)).exec u = some (y, s') ∧
      (∀ a, x = .ok a → ∃ hash, y = .ok hash) := by
  rcases Prog.exec_bind_eq_some.1 h with ⟨e, h1, -⟩ | ⟨t, u, h1, h2⟩
  · cases h1
  cases h1
  rcases Prog.exec_bind_eq_some.1 h2 with ⟨e, h3, rfl⟩ | ⟨hash, v, h3, h4⟩
  · refine ⟨_, _, _, ?_, h3, fun a ha => by cases ha⟩
    rfl
  · cases h4
    refine ⟨_, _, _, ?_, h3, fun a _ => ⟨hash, rfl⟩⟩
    rfl

theorem lift_cases (h : (handleLiftBirthPeriodQuarantine request).exec s = some (r, s')) :
    ((currentQuarantineState s).all (·.lifted) = true ∧ s' = s ∧
      r = .ok (respond "lift_birth_period_quarantine_response" request
        [("was_in_quarantine", .bool false)])) ∨
    (∃ q, quarantineOf s.nodes = some q ∧ q.lifted = false) ∧
      ∃ t u y, u.nodes = s.nodes ∧ (emitSubstrateEvent birthPeriodQuarantineLiftedType
        (encodeBirthPeriodQuarantineLifted "operator_signed_lift" s.cycleCounter t)).exec u =
          some (y, s') ∧ (∀ a, r = .ok a → ∃ hash, y = .ok hash) := by
  rw [handleLiftBirthPeriodQuarantine, Prog.exec_get_bind] at h
  split at h
  · rename_i hopen
    obtain ⟨q, hq, hl⟩ := (Option.any_eq_true _ _).1 hopen
    exact .inr ⟨⟨q, hq, by simpa using hl⟩, clocked_emit h⟩
  · rename_i hshut
    cases h
    refine .inl ⟨?_, rfl, rfl⟩
    cases hq : currentQuarantineState s with
    | none => rfl
    | some q => simpa [hq] using hshut

theorem accept_cases (h : (handleAcceptSelfEuthanasiaProposal request).exec s = some (r, s')) :
    s' = s ∨ ∃ p ∈ s.nodes, startsWith selfEuthanasiaProposalPrefix p.nodeType ∧
      ∃ axisName, proposedAxis env p.content = .ok axisName ∧ ∃ t u y, u.nodes = s.nodes ∧
        (emitSubstrateEvent (selfEuthanasiaExecutedPrefix ++ axisName)
          (encodeSelfEuthanasiaExecuted axisName p.hash s.cycleCounter t)).exec u =
            some (y, s') := by
  unfold handleAcceptSelfEuthanasiaProposal at h
  cases hreq : bytes32? request.payload "proposal_hash" with
  | none =>
    rw [hreq] at h
    cases h
    exact .inl rfl
  | some proposalHash =>
    rw [hreq, Prog.exec_get_bind] at h
    cases hp : s.ledger.dag.get proposalHash with
    | none =>
      rw [hp] at h
      cases h
      exact .inl rfl
    | some p =>
      rw [hp] at h
      obtain ⟨hmem, rfl⟩ := Ledger.get_eq_some.1 hp
      dsimp only at h
      split at h
      · cases h
        exact .inl rfl
      · rename_i hstart
        cases haxis : proposedAxis env p.content with
        | error e =>
          rw [haxis] at h
          cases e with
          | err e =>
            cases h
            exact .inl rfl
          | panic => cases h
          | stack => cases h
        | ok axisName =>
          rw [haxis] at h
          obtain ⟨t, u, y, hu, hy, -⟩ := clocked_emit h
          exact .inr ⟨p, hmem, not_not.1 hstart, axisName, haxis, t, u, y, hu, hy⟩

theorem rightful_lift :
    Within (fun s s' : ServerState env => Grows (Rightful env) s.nodes s'.nodes)
      (handleLiftBirthPeriodQuarantine request) := by
  intro s r s' h
  rcases lift_cases h with ⟨-, rfl, -⟩ | ⟨hopen, t, u, y, hu, hy, -⟩
  · exact .refl
  · rw [← hu]
    exact grows_of_emit hy fun n ht _ => .lift ht (hu ▸ hopen)

theorem rightful_accept :
    Within (fun s s' : ServerState env => Grows (Rightful env) s.nodes s'.nodes)
      (handleAcceptSelfEuthanasiaProposal request) := by
  intro s r s' h
  rcases accept_cases h with rfl | ⟨p, hmem, hstart, axisName, haxis, t, u, y, hu, hy⟩
  · exact .refl
  · rw [← hu]
    exact grows_of_emit hy fun n ht hc => .execution (hu ▸ hmem) hstart haxis ht hc

end

/-! ### Runs -/

inductive Matter where
  | event (e : Event)
  | liftQuarantine (request : Message)
  | acceptSelfEuthanasia (request : Message)
  /-- a save in the middle of something -/
  | saveWithin

/-- A step that is not modelled emits none of these events. -/
def Unconcerned (m : Machine env rt) (e : Event) (m' : Machine env rt) : Prop :=
  e = .other → Aside mortal m.host.server m'.host.server

inductive Living : Machine env rt → Matter → Machine env rt → Prop
  | event {m m' : Machine env rt} {e : Event} : Step m e m' → Unconcerned m e m' →
      Living m (.event e) m'
  | liftQuarantine {m : Machine env rt} {request : Message} {s : ServerState env}
      {a : Except SubstrateError (Option Message)} :
      (handleLiftBirthPeriodQuarantine request).exec m.host.server = some (a, s) →
      Living m (.liftQuarantine request) { m with host := { m.host with server := s } }
  | acceptSelfEuthanasia {m : Machine env rt} {request : Message} {s : ServerState env}
      {a : Except SubstrateError (Option Message)} :
      (handleAcceptSelfEuthanasiaProposal request).exec m.host.server = some (a, s) →
      Living m (.acceptSelfEuthanasia request) { m with host := { m.host with server := s } }
  | saveWithin {m : Machine env rt} {l : Ledger env.blake3} : m.disk.nodes <+: l.nodes →
      l.nodes <+: m.host.server.nodes → Living m .saveWithin { m with disk := l }

/-- No step but a restart concerns these events. -/
theorem step_mortal {m m' : Machine env rt} {e : Event} (h : Step m e m')
    (hu : Unconcerned m e m') (he : ∀ files, e ≠ .restart files) :
    Aside mortal m.host.server m'.host.server := by
  cases h with
  | request hg hp hq =>
    rename_i q a t
    by_cases hadv : q = .advance
    · subst hadv
      exact within_bind (spares_advance sedentary_mortal (by decide) fun _ _ => rfl)
        (fun _ => within_pure) _ _ _ hq
    · exact request_spares sedentary_mortal heedless_mortal (by decide) (fun _ _ => rfl) hadv
        _ _ _ hq
  | flush hq => exact spares_flush (by decide) (fun _ _ => rfl) (fun _ _ => rfl) _ _ _ hq
  | tick hg hq =>
    rw [autonomousTick_eq] at hq
    exact within_bind (spares_tick sedentary_mortal (by decide) (fun _ _ => rfl) fun _ _ => rfl)
      (fun _ => within_pure) _ _ _ hq
  | other _ => exact hu rfl
  | save => exact Std.Refl.refl _
  | workerExit => exact Std.Refl.refl _
  | hello _ _ _ => exact .of_ledger rfl rfl
  | restart => exact absurd rfl (he _)

/-- What a matter does to the log: it is loaded from disk, or has grown. -/
theorem Living.log {m m' : Machine env rt} {x : Matter} (h : Living m x m') :
    m'.host.server.nodes = m.disk.nodes ∧ m'.disk = m.disk ∨
    Grows (Rightful env) m.host.server.nodes m'.host.server.nodes ∧
      (m'.disk = m.disk ∨ m.disk.nodes <+: m'.disk.nodes ∧
        m'.disk.nodes <+: m'.host.server.nodes ∨ m'.disk = m'.host.server.ledger) := by
  cases h with
  | event hs hu =>
    rename_i e
    by_cases he : ∃ files, e = .restart files
    · obtain ⟨files, rfl⟩ := he
      cases hs
      exact .inl ⟨rfl, rfl⟩
    · refine .inr ⟨grows_of_mortal (step_mortal hs hu fun files hf => he ⟨files, hf⟩), ?_⟩
      cases hs with
      | save => exact .inr (.inr rfl)
      | request _ _ _ => exact .inl rfl
      | flush _ => exact .inl rfl
      | tick _ _ => exact .inl rfl
      | other _ => exact .inl rfl
      | workerExit => exact .inl rfl
      | hello _ _ _ => exact .inl rfl
      | restart => exact .inl rfl
  | liftQuarantine he => exact .inr ⟨rightful_lift _ _ _ he, .inl rfl⟩
  | acceptSelfEuthanasia he => exact .inr ⟨rightful_accept _ _ _ he, .inl rfl⟩
  | saveWithin hdisk hlive => exact .inr ⟨.refl, .inr (.inl ⟨hdisk, hlive⟩)⟩

/-- All that has been added to the log `l`, here and on disk, was rightful. -/
structure Lawful (l : List DagNode) (m : Machine env rt) : Prop where
  disk : Grows (Rightful env) l m.disk.nodes
  live : Grows (Rightful env) l m.host.server.nodes

theorem Lawful.living {l : List DagNode} {m m' : Machine env rt} {x : Matter} (h : Lawful l m)
    (hx : Living m x m') : Lawful l m' := by
  rcases hx.log with ⟨hload, hd⟩ | ⟨hgrows, hd⟩
  · exact ⟨hd ▸ h.disk, hload ▸ h.disk⟩
  · have hlive := h.live.trans hgrows
    refine ⟨?_, hlive⟩
    rcases hd with hd | ⟨hold, hnew⟩ | hd
    · exact hd ▸ h.disk
    · exact hlive.of_prefix (h.disk.isPrefix.trans hold) hnew
    · exact hd ▸ hlive

theorem Lawful.run {l : List DagNode} {m m' : Machine env rt} {xs : List Matter} (h : Lawful l m)
    (hr : Path Living m xs m') : Lawful l m' :=
  hr.keeps (fun _ _ _ hx hm => hm.living hx) h

/-- A rightful execution names the proposal that it executes. -/
theorem Rightful.proposed {log : List DagNode} {n : DagNode} (h : Rightful env log n)
    (hn : startsWith selfEuthanasiaExecutedPrefix n.nodeType) :
    ∃ p ∈ log, startsWith selfEuthanasiaProposalPrefix p.nodeType ∧ ∃ axisName cycle t,
      proposedAxis env p.content = .ok axisName ∧
      n.nodeType = selfEuthanasiaExecutedPrefix ++ axisName ∧
      n.content = encodeSelfEuthanasiaExecuted axisName p.hash cycle t := by
  cases h with
  | other hw => exact absurd ⟨selfEuthanasiaExecutedPrefix, by simp [lifecycleTexts], hn⟩ hw
  | lift ht _ =>
    rw [ht] at hn
    exact absurd hn (by decide)
  | execution hp hstart haxis ht hc => exact ⟨_, hp, hstart, _, _, _, haxis, ht, hc⟩

/-- In every run from a log `l`, here and on disk: no life is ended but on a proposal that came
before. -/
theorem executions_proposed {files : BootFiles} {l : Ledger env.blake3} {xs : List Matter}
    {m : Machine env rt} (hr : Path Living (.boot files l) xs m) {log : List DagNode}
    (hlog : log = m.host.server.nodes ∨ log = m.disk.nodes) :
    ∃ ns, log = l.nodes ++ ns ∧ ∀ pre n post, ns = pre ++ n :: post →
      startsWith selfEuthanasiaExecutedPrefix n.nodeType →
      ∃ p ∈ l.nodes ++ pre, startsWith selfEuthanasiaProposalPrefix p.nodeType ∧
        ∃ axisName cycle t, proposedAxis env p.content = .ok axisName ∧
          n.nodeType = selfEuthanasiaExecutedPrefix ++ axisName ∧
          n.content = encodeSelfEuthanasiaExecuted axisName p.hash cycle t := by
  have hlawful : Lawful l.nodes m := Lawful.run ⟨.refl, .refl⟩ hr
  have hgrows : Grows (Rightful env) l.nodes log := by
    rcases hlog with rfl | rfl
    · exact hlawful.live
    · exact hlawful.disk
  obtain ⟨ns, hn, hns⟩ := hgrows.exists_append
  exact ⟨ns, hn, fun pre n post he hstart => (hns pre n post he).proposed hstart⟩

/-! ### Out of quarantine -/

/-- There is no quarantine, or it has been lifted. -/
def Settled (log : List DagNode) : Prop := (quarantineOf log).all (·.lifted) = true

def lifts (log : List DagNode) : List DagNode :=
  log.filter (·.nodeType = birthPeriodQuarantineLiftedType)

/-- What is rightful on a settled log is no lift, and leaves it settled. -/
theorem Rightful.settled {log : List DagNode} {n : DagNode} (h : Rightful env log n)
    (hs : Settled log) : Settled (log ++ [n]) ∧ lifts (log ++ [n]) = lifts log := by
  have hquiet : n.nodeType ≠ birthPeriodQuarantineEnteredType ∧
      n.nodeType ≠ birthPeriodQuarantineLiftedType := by
    cases h with
    | other hw =>
      refine ⟨fun ht => hw ⟨birthPeriodQuarantineEnteredType, ?_, ?_⟩,
        fun ht => hw ⟨birthPeriodQuarantineLiftedType, ?_, ?_⟩⟩
      · simp [lifecycleTexts]
      · rw [ht]
        simp [startsWith]
      · simp [lifecycleTexts]
      · rw [ht]
        simp [startsWith]
    | lift _ hopen =>
      obtain ⟨q, hq, hl⟩ := hopen
      rw [Settled, hq, Option.all_some, hl] at hs
      cases hs
    | execution _ _ _ ht _ =>
      have hstart : startsWith selfEuthanasiaExecutedPrefix n.nodeType := ht ▸ startsWith_append
      refine ⟨fun he => ?_, fun he => ?_⟩
      · rw [he] at hstart
        exact absurd hstart (by decide)
      · rw [he] at hstart
        exact absurd hstart (by decide)
  have hsame : quarantineOf (log ++ [n]) = quarantineOf log := by
    unfold quarantineOf
    rw [List.foldl_append, List.foldl_cons, List.foldl_nil, quarantineEvent, if_neg hquiet.1,
      if_neg hquiet.2]
  refine ⟨by rw [Settled, hsame]; exact hs, ?_⟩
  unfold lifts
  rw [List.filter_append, List.filter_singleton]
  simp [hquiet.2]

theorem settled_of_grows {xs ys : List DagNode} (h : Grows (Rightful env) xs ys)
    (hs : Settled xs) : Settled ys ∧ lifts ys = lifts xs := by
  induction h with
  | refl => exact ⟨hs, rfl⟩
  | snoc _ hn ih =>
    obtain ⟨h1, h2⟩ := hn.settled ih.1
    exact ⟨h1, h2.trans ih.2⟩

/-- A lift that has been answered, and the save that comes before the answer. -/
structure Lifts (m m' : Machine env rt) : Prop where
  lifted : ∃ request answer, (handleLiftBirthPeriodQuarantine request).exec m.host.server =
    some (.ok answer, m'.host.server)
  saved : m'.disk = m'.host.server.ledger

theorem Lifts.settled {m m' : Machine env rt} (h : Lifts m m') :
    Settled m'.host.server.nodes := by
  obtain ⟨⟨request, answer, he⟩, -⟩ := h
  rcases lift_cases he with ⟨hall, hsame, -⟩ | ⟨⟨q, hq, -⟩, t, u, y, hu, hy, hok⟩
  · rw [hsame]
    exact hall
  · obtain ⟨hash, rfl⟩ := hok _ rfl
    obtain ⟨-, ⟨e, hx, -⟩ | ⟨n, -, hn, ht, -, -⟩⟩ := emitSubstrateEvent_cases hy
    · cases hx
    · have hne : n.nodeType ≠ birthPeriodQuarantineEnteredType := by
        rw [ht]
        decide
      unfold quarantineOf at hq
      unfold Settled quarantineOf
      rw [hn, hu, List.foldl_append, hq, List.foldl_cons, List.foldl_nil, quarantineEvent,
        if_neg hne, if_pos ht]
      rfl

theorem Settled.lift {s : ServerState env} (h : Settled s.nodes) (request : Message) :
    isInBirthPeriodQuarantine s = false ∧
      (handleLiftBirthPeriodQuarantine request).exec s =
        some (.ok (respond "lift_birth_period_quarantine_response" request
          [("was_in_quarantine", .bool false)]), s) := by
  have hstate : currentQuarantineState s = quarantineOf s.nodes := rfl
  unfold Settled at h
  rw [isInBirthPeriodQuarantine, handleLiftBirthPeriodQuarantine, Prog.exec_get_bind, hstate]
  cases hq : quarantineOf s.nodes with
  | none => exact ⟨rfl, rfl⟩
  | some q =>
    rw [hq, Option.all_some] at h
    refine ⟨by simp [h], ?_⟩
    rw [if_neg (by simp [h])]
    rfl

/-- After a lift that has been answered the substrate is out of quarantine for good, crashes and
restarts from what is on disk included: no other lift is recorded, and to lift again changes
nothing. -/
theorem quarantine_left_for_good {m m' u : Machine env rt} {xs : List Matter} (h : Lifts m m')
    (hr : Path Living m' xs u) :
    isInBirthPeriodQuarantine u.host.server = false ∧
    lifts u.host.server.nodes = lifts m'.host.server.nodes ∧
    ∀ request, (handleLiftBirthPeriodQuarantine request).exec u.host.server =
      some (.ok (respond "lift_birth_period_quarantine_response" request
        [("was_in_quarantine", .bool false)]), u.host.server) := by
  have hdisk : m'.disk.nodes = m'.host.server.nodes := congrArg Ledger.nodes h.saved
  have hlawful : Lawful m'.host.server.nodes u := Lawful.run ⟨hdisk ▸ .refl, .refl⟩ hr
  obtain ⟨hsettled, hlifts⟩ := settled_of_grows hlawful.live h.settled
  exact ⟨(hsettled.lift ⟨"", 0, []⟩).1, hlifts, fun request => (hsettled.lift request).2⟩

/-! ### A life that ends, and a child that is let out -/

def doomedLedger : Ledger smallEnv.blake3 :=
  Ledger.new.push ⟨[], selfEuthanasiaProposalPrefix ++ "x", 0,
    cbEncode [("axis_name", .string "x")]⟩

def deathRequest : Message :=
  ⟨"accept_self_euthanasia_proposal", 1, OrdMap.ofList utf8
    [("proposal_hash", hashValue (doomedLedger.tip.getD (.replicate 0)))]⟩

theorem executions_proposed_doomed : ∃ m : Machine smallEnv wholeNumbers,
    m.host.server.nodes.map DagNode.nodeType =
      ["self_euthanasia_proposal:x", "self_euthanasia_executed:x"] ∧
    ∃ ns, m.host.server.nodes = doomedLedger.nodes ++ ns ∧ ∀ pre n post, ns = pre ++ n :: post →
      startsWith selfEuthanasiaExecutedPrefix n.nodeType →
      ∃ p ∈ doomedLedger.nodes ++ pre, startsWith selfEuthanasiaProposalPrefix p.nodeType ∧
        ∃ axisName cycle t, proposedAxis smallEnv p.content = .ok axisName ∧
          n.nodeType = selfEuthanasiaExecutedPrefix ++ axisName ∧
          n.content = encodeSelfEuthanasiaExecuted axisName p.hash cycle t := by
  have hok : ((handleAcceptSelfEuthanasiaProposal deathRequest).exec
      (bootState noFiles doomedLedger)).any (fun x => decide (x.2.nodes.map DagNode.nodeType =
        ["self_euthanasia_proposal:x", "self_euthanasia_executed:x"])) = true := by
    decide +kernel
  obtain ⟨⟨a, s⟩, he, hs⟩ := (Option.any_eq_true _ _).1 hok
  have hrun : Path Living (.boot noFiles doomedLedger : Machine smallEnv wholeNumbers)
      [.acceptSelfEuthanasia deathRequest] ⟨⟨s, none⟩, doomedLedger⟩ :=
    Path.singleton_iff.2 (.acceptSelfEuthanasia he)
  exact ⟨_, of_decide_eq_true hs, executions_proposed hrun (.inl rfl)⟩

def nurseryLedger : Ledger smallEnv.blake3 :=
  Ledger.new.push ⟨[], birthPeriodQuarantineEnteredType, 0,
    cbEncode [("quarantine_duration_cycles", .uint 10)]⟩

def liftRequest : Message := ⟨"lift_birth_period_quarantine", 1, OrdMap.ofList utf8 []⟩

/-- A child that is in quarantine is let out, and started again. -/
theorem quarantine_left_restarted : ∃ m m' u : Machine smallEnv wholeNumbers,
    isInBirthPeriodQuarantine m.host.server = true ∧ Lifts m m' ∧
    Path Living m' [.event (.restart noFiles)] u ∧
    isInBirthPeriodQuarantine u.host.server = false ∧
    lifts u.host.server.nodes = lifts m'.host.server.nodes ∧
    ∀ request, (handleLiftBirthPeriodQuarantine request).exec u.host.server =
      some (.ok (respond "lift_birth_period_quarantine_response" request
        [("was_in_quarantine", .bool false)]), u.host.server) := by
  have hok : ((handleLiftBirthPeriodQuarantine liftRequest).exec
      (bootState noFiles nurseryLedger)).any (·.1.isOk) = true := by decide +kernel
  obtain ⟨⟨a, s⟩, he, ha⟩ := (Option.any_eq_true _ _).1 hok
  obtain ⟨answer, rfl⟩ : ∃ answer, a = .ok answer := by
    cases a with
    | ok answer => exact ⟨answer, rfl⟩
    | error e => cases ha
  have hlifts : Lifts (.boot noFiles nurseryLedger)
      (⟨⟨s, none⟩, s.ledger⟩ : Machine smallEnv wholeNumbers) := ⟨⟨liftRequest, answer, he⟩, rfl⟩
  have hrestart : Step (⟨⟨s, none⟩, s.ledger⟩ : Machine smallEnv wholeNumbers) (.restart noFiles)
      (.boot noFiles s.ledger) := .restart
  have hrun : Path Living (⟨⟨s, none⟩, s.ledger⟩ : Machine smallEnv wholeNumbers)
      [.event (.restart noFiles)] (.boot noFiles s.ledger) :=
    Path.singleton_iff.2 (.event hrestart fun h => by cases h)
  exact ⟨_, _, _, by decide +kernel, hlifts, hrun, quarantine_left_for_good hlifts hrun⟩

end Myco.Tropism
