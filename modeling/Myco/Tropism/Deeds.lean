import Myco.Tropism.Hydration
import Myco.Tropism.MigrationLog

/-!
# What steps do to the core

All that a step does to the core of a host, cut into `Deed`s: the worker registers, perturbs, evolves
or advances, a cycle is counted and judged, an event is recorded, a migration is opened or ended.
`Core.Does` says what one deed does. Barring a collision a program `Performs` a list of deeds: here are
the lists of what asks the worker to register and to perturb.

What is written of migrations goes with the deeds, as their `marks`.
-/

namespace Myco.Tropism

open Myco.Lib Myco.Canonical Myco.Schema Myco.Substrate Myco.Federation Myco.Prune

variable {env : Env} {rt : Runtime}

/-! ### Deeds -/

inductive Deed (rt : Runtime) where
  | registered (fields : AxisRegisteredEvent rt)
  | perturbed (axisName : String) (delta : rt.F)
  | evolved (content : Bytes)
  | built (content : Bytes)
  | opened (candidate : CandidateState)
  | advanced (report : AdvanceReport rt)
  | counted
  | kept (outcome : DualValidationCycle)
  | committed (candidate : CandidateState)
  | rolledBack (candidate : CandidateState)
  | pended
  | sealed
  | dropped
  | recorded (n : DagNode)
  | noted (marks : List Mark)
  | exited

/-- What a deed writes of migrations. -/
def Deed.marks : Deed rt → List Mark
  | .opened candidate => [.started candidate.opName]
  | .committed candidate => [.committed candidate.opName, .evolved candidate.opName true]
  | .rolledBack candidate => [.rolledBack candidate.opName, .evolved candidate.opName false]
  | .noted marks => marks
  | _ => []

inductive Core.Does : Core rt → Deed rt → Core rt → Prop
  | registered {c : Core rt} {w : DispatcherState rt} {fields : AxisRegisteredEvent rt}
      {schema : AxisSchema rt} {rule : UpdateRule} {g : GradientConfiguration rt} :
      c.python = some w → fields.parameters = .ok (schema, rule) →
      w.gradient.registerAxis schema rule = .ok g →
      Does c (.registered fields) { c with python := some { w with gradient := g } }
  | perturbed {c : Core rt} {w : DispatcherState rt} {axisName : String} {delta : rt.F}
      {g : GradientConfiguration rt} :
      c.python = some w → w.gradient.perturbAxis axisName delta = .ok g →
      Does c (.perturbed axisName delta) { c with python := some { w with gradient := g } }
  | evolved {c : Core rt} {w : DispatcherState rt} {content : Bytes}
      {g : GradientConfiguration rt} : c.python = some w → Evolves content w.gradient g →
      Does c (.evolved content) { c with python := some { w with gradient := g } }
  /-- the candidate is replaced, whichever there was -/
  | built {c : Core rt} {w : DispatcherState rt} {content : Bytes} {op : String}
      {g : GradientConfiguration rt} : c.python = some w → Evolves content w.gradient g →
      Does c (.built content) { c with
        python := some { w with
          candidateGradient := some g
          candidateOp := op
          candidateDiffBytes := content } }
  | opened {c : Core rt} {candidate : CandidateState} : c.migrationCandidate = none →
      candidate.startedAtCycle = c.cycleCounter →
      candidate.dualValidationWindowCycles = defaultDualValidationWindowCycles →
      Does c (.opened candidate) { c with migrationCandidate := some candidate }
  | advanced {c : Core rt} {w w' : DispatcherState rt} {report : AdvanceReport rt} :
      c.python = some w → advanced w (c.cycleCounter + 1) = (report, w') →
      Does c (.advanced report) { c with python := some w' }
  | counted {c : Core rt} :
      Does c .counted { c with cycleCounter := saturatingAdd c.cycleCounter 1 }
  | kept {c : Core rt} {outcome : DualValidationCycle} :
      (∀ candidate ∈ c.migrationCandidate, outcome = .equivalent ∧
        windowComplete candidate c.cycleCounter = false) →
      Does c (.kept outcome) c
  | committed {c : Core rt} {candidate : CandidateState} : c.migrationCandidate = some candidate →
      windowComplete candidate c.cycleCounter = true → Does c (.committed candidate) c.committed
  | rolledBack {c : Core rt} {candidate : CandidateState} : c.migrationCandidate = some candidate →
      Does c (.rolledBack candidate) c.rolledBack
  | pended {c : Core rt} : c.migrationCandidate = none →
      Does c .pended { c with pending := c.pending + 1 }
  | sealed {c : Core rt} :
      Does c .sealed { c with cycleCounter := saturatingAdd c.cycleCounter c.pending }
  | dropped {c : Core rt} : Does c .dropped { c with pending := 0 }
  | recorded {c : Core rt} {n : DagNode} : Does c (.recorded n) { c with log := c.log ++ [n] }
  | noted {c : Core rt} {marks : List Mark} : Does c (.noted marks) c
  | exited {c : Core rt} : Does c .exited { c with python := none }

/-! ### Performing deeds -/

/-- The core goes along the deeds, and their marks are written. -/
structure Performs (ds : List (Deed rt)) (h h' : Host env rt) : Prop where
  core : Path Core.Does h.core ds h'.core
  marks : (account h').marks = (account h).marks ++ ds.flatMap Deed.marks

section

variable {ds es : List (Deed rt)} {h t h' : Host env rt}

theorem Performs.append (h1 : Performs ds h t) (h2 : Performs es t h') :
    Performs (ds ++ es) h h' where
  core := h1.core.append h2.core
  marks := by rw [h2.marks, h1.marks, List.flatMap_append, List.append_assoc]

theorem performs_nil (hk : h'.core = h.core) (hs : SameAccount h h') :
    Performs ([] : List (Deed rt)) h h' where
  core := Path.nil_iff.2 hk.symm
  marks := by
    rw [show account h' = account h from hs]
    simp

theorem performs_singleton {d : Deed rt} (hd : Core.Does h.core d h'.core)
    (hm : (account h').marks = (account h).marks ++ d.marks) : Performs [d] h h' where
  core := Path.singleton_iff.2 hd
  marks := by simpa using hm

/-- Nothing is done. -/
abbrev Still : Host env rt → Host env rt → Prop := Performs []

instance : IsPreorder (Host env rt) Still where
  refl _ := performs_nil rfl rfl
  trans _ _ _ h1 h2 := h1.append h2

theorem Still.core_eq (hs : Still h h') : h'.core = h.core := (Path.nil_iff.1 hs.core).symm

theorem Performs.trans_still (h1 : Performs ds h t) (h2 : Still t h') : Performs ds h h' := by
  have h3 := h1.append h2
  rwa [List.append_nil] at h3

end

/-- One of these lists is performed. -/
def PerformsOne (P : List (Deed rt) → Prop) (h h' : Host env rt) : Prop :=
  ∃ ds, P ds ∧ Performs ds h h'

section

variable {α β : Type} {R S : Host env rt → Host env rt → Prop} {m : Op env rt α}

theorem Does.and {bad : Host env rt → Prop} (h1 : Does bad R m) (h2 : Within S m) :
    Does bad (fun h h' => R h h' ∧ S h h') m :=
  fun h r h' he => ⟨(h1 h r h' he).stays, fun hb =>
    have hd := (h1 h r h' he).holds hb
    ⟨hd.1, hd.2, h2 h r h' he⟩⟩

theorem does_still (h1 : Does HostCollided SameAccount m) (h2 : Within (Leaves replayed) m) :
    Does HostCollided Still m :=
  (Does.and h1 h2).mono fun _ _ h => performs_nil h.2.keeps h.1

theorem still_of_spares (h1 : Within (Spares migrations) m) (h2 : Within (Leaves replayed) m) :
    Within (Unless HostCollided Still) m :=
  fun h r h' he => (unless_of_spares h1 h r h' he).imp fun hs =>
    performs_nil (h2 h r h' he).keeps hs

theorem does_still_immune {detectorId detectorName evidence : String} :
    Does HostCollided Still (immune detectorId detectorName evidence : Op env rt PUnit) :=
  does_still does_immune leaves_immune

end

/-! ### Recording -/

/-- A node of this type and content. -/
structure IsNode (nodeType : String) (content : Bytes) (n : DagNode) : Prop where
  type_eq : n.nodeType = nodeType
  content_eq : n.content = content
  fits : content.length ≤ isizeMax

section

variable {nodeType p : String} {content : Bytes} {h h' : Host env rt} {s : ServerState env}
  {c : Insertion}

theorem not_watched_of_replayed (hp : p ∈ replayedTexts) (hs : startsWith p nodeType) :
    ¬ Watched migrations.texts nodeType :=
  not_watched hs (timeless_migrations.texts p hp)

/-- An event that is replayed is recorded in the core, and that is all. -/
theorem performs_of_appends (hp : p ∈ replayedTexts) (hs : startsWith p c.nodeType)
    (ha : Appends c h.server s) :
    Performs [.recorded (c.node env.blake3)] h { h with server := s } := by
  have hnone : Mark.ofType? c.nodeType = none :=
    Mark.ofType?_eq_none (not_watched_of_replayed hp hs)
  refine performs_singleton ?_ ?_
  · have hlog : gradientLog s = gradientLog h.server ++ [c.node env.blake3] := by
      rw [gradientLog, logOf, ha.nodes, List.filter_append]
      refine congrArg _ (List.filter_eq_self.2 fun n hn => ?_)
      rw [List.mem_singleton.1 hn]
      exact decide_eq_true ⟨p, hp, hs⟩
    have hcycle : s.cycleCounter = h.server.cycleCounter := congrArg Live.cycleCounter ha.live
    have hpending : s.pendingSelfDrivenNoopCycles = h.server.pendingSelfDrivenNoopCycles :=
      congrArg Prod.fst ha.unlogged
    have hcand : s.migrationCandidate = h.server.migrationCandidate :=
      congrArg (fun u => u.2.2.2) ha.unlogged
    have hcore : ({ h with server := s } : Host env rt).core =
        { h.core with log := h.core.log ++ [c.node env.blake3] } := by
      show Core.mk _ _ _ _ _ = Core.mk _ _ _ _ _
      rw [hlog, hcycle, hpending, hcand]
      rfl
    rw [hcore]
    exact .recorded
  · rw [account_of_appends ha (astray_of_none hnone), hnone]
    rfl

/-- Records an event of this type and content. -/
inductive Records (nodeType : String) (content : Bytes) : List (Deed rt) → Prop
  | mk {n : DagNode} : IsNode nodeType content n → Records nodeType content [.recorded n]

theorem succeeds_emit : Succeeds (emit nodeType content : Op env rt PUnit) :=
  succeeds_bind succeeds_attempt fun _ => succeeds_pure

theorem does_emitReplayed (hp : p ∈ replayedTexts) (hs : startsWith p nodeType) :
    Does HostCollided (PerformsOne (Records nodeType content))
      (emit nodeType content : Op env rt PUnit) := by
  have hne : nodeType ≠ "" := by
    refine ne_empty_of_startsWith hs (q := migrationStartedPrefix) ?_
    exact timeless_migrations.texts p hp _ (by decide)
  refine does_bind (does_attempt (R := PerformsOne (Records nodeType content)) ?_)
    (fun _ => does_pure (R := Eq) fun _ => rfl) fun s t u h1 h2 => h2 ▸ h1
  intro h r h' he
  obtain ⟨s, h1, rfl⟩ := exec_onServer.1 he
  have hb := emitSubstrateEvent_tip hne h1
  exact ⟨hb.stays, fun hc => ⟨_, .mk ⟨rfl, rfl, (hb.holds hc).content⟩,
    performs_of_appends hp hs (hb.holds hc)⟩⟩

end

/-! ### Asking the worker -/

/-- Nothing is done, or the worker exits. -/
inductive Halts : List (Deed rt) → Prop
  | nothing : Halts []
  | exited : Halts [.exited]

section

variable {h h' : Host env rt} {t : MessageType} {payload : Payload}

theorem performs_exited (hs : h'.server = h.server) (hp : h'.python = none) :
    Performs [.exited] h h' := by
  refine performs_singleton ?_ ?_
  · have hcore : h'.core = { h.core with python := none } := by
      show Core.mk _ _ _ _ _ = Core.mk _ _ _ _ _
      rw [hs, hp]
      rfl
    rw [hcore]
    exact .exited
  · rw [show account h' = account h by rw [account, account, hs]]
    simp [Deed.marks]

/-- A round trip that fails. -/
theorem halts_of_callPython {e : SubstrateError}
    (he : (callPython t payload).exec h = some (.error e, h')) :
    Unless HostCollided (PerformsOne Halts) h h' := by
  rcases callPython_cases he with ⟨w, reply, w', -, -, hr, -⟩ | ⟨e', -, hs, hw⟩
  · cases hr
  · refine ⟨fun hc => by rwa [HostCollided, hs], fun _ => ?_⟩
    rcases hw with rfl | hw
    · exact ⟨[], .nothing, Std.Refl.refl (r := Still) h'⟩
    · exact ⟨_, .exited, performs_exited hs hw⟩

/-- The worker does something, and the substrate does not. -/
theorem performs_python {w : DispatcherState rt} {d : Deed rt}
    (hd : Core.Does h.core d { h.core with python := some w }) (hm : d.marks = []) :
    Unless HostCollided (Performs [d]) h { h with python := some w } :=
  ⟨id, fun _ => performs_singleton hd (by rw [hm, List.append_nil]; rfl)⟩

theorem Unless.performs {ds es : List (Deed rt)} {u : Host env rt}
    (h1 : Unless HostCollided (Performs ds) h u) (h2 : Unless HostCollided (Performs es) u h') :
    Unless HostCollided (Performs (ds ++ es)) h h' := h1.trans h2 Performs.append

end

/-! ### Registering and perturbing -/

/-- What a registration does that is acknowledged: the event is recorded if it can be read. -/
inductive Registers (payload : Payload) : List (Deed rt) → Prop
  | unread {fields : AxisRegisteredEvent rt} : readAxis payload = .ok fields →
      buildAxisRegisteredEvent rt payload = none → Registers payload [.registered fields]
  | recorded {fields event : AxisRegisteredEvent rt} {n : DagNode} :
      readAxis payload = .ok fields → buildAxisRegisteredEvent rt payload = some event →
      IsNode (axisRegisteredPrefix ++ event.name) (encodeAxisRegistered event) n →
      Registers payload [.registered fields, .recorded n]

/-- What the substrate reads of a perturbation. -/
def buildAxisPerturbed (rt : Runtime) (payload : Payload) : Option (String × rt.F) :=
  match string? payload "axis_name", f64Item? rt payload "delta_repr" with
  | some axisName, some delta => some (axisName, delta)
  | _, _ => none

inductive Perturbs (payload : Payload) : List (Deed rt) → Prop
  | unread {axisName : String} {delta : rt.F} : readPerturbation payload = .ok (axisName, delta) →
      buildAxisPerturbed rt payload = none → Perturbs payload [.perturbed axisName delta]
  | recorded {axisName axisName' : String} {delta delta' : rt.F} {n : DagNode} :
      readPerturbation payload = .ok (axisName, delta) →
      buildAxisPerturbed rt payload = some (axisName', delta') →
      IsNode (axisPerturbedPrefix ++ axisName') (encodeAxisPerturbed axisName' delta') n →
      Perturbs payload [.perturbed axisName delta, .recorded n]

inductive PerturbsFromRaw (payload : Payload) : List (Deed rt) → Prop
  | mk {p : RawPerturbation} {delta : rt.F} {n : DagNode} : readRawPerturbation payload = .ok p →
      rt.f64 p.deltaRepr = some delta →
      IsNode (perturbFromRawPrefix ++ p.axisName) (encodePerturbFromRaw p) n →
      PerturbsFromRaw payload [.perturbed p.axisName delta, .recorded n]

/-- What was done if this was answered: what `P` tells if it was a success. -/
def Answers {α : Type} (P : List (Deed rt) → Prop) : Except SubstrateError α → List (Deed rt) → Prop
  | .ok _ => P
  | .error _ => Halts

section

variable {h h' : Host env rt} {payload : Payload} {request : Message}

theorem does_recordAxisRegistered {fields : AxisRegisteredEvent rt}
    (hread : readAxis payload = .ok fields) : Does HostCollided
      (PerformsOne fun ds => Registers payload (.registered fields :: ds))
      (recordAxisRegistered payload : Op env rt PUnit) := by
  unfold recordAxisRegistered
  cases hbuild : buildAxisRegisteredEvent rt payload with
  | none => exact does_pure fun h => ⟨[], .unread hread hbuild, Std.Refl.refl (r := Still) h⟩
  | some event =>
    have hcount : Does HostCollided Still (onServer (modify fun s : ServerState env =>
        { s with axisRegisterCount := saturatingAdd s.axisRegisterCount 1 }) : Op env rt PUnit) :=
      does_still (does_setting (fun _ => rfl) fun _ => rfl)
        (leaves_onServer (aside_modify (fun _ => rfl) fun _ => rfl))
    refine does_bind (does_emitReplayed (p := axisRegisteredPrefix) (by simp [replayedTexts])
      startsWith_append) (fun _ => hcount) fun h t h' h1 h2 => ?_
    obtain ⟨ds, ⟨hn⟩, h1⟩ := h1
    exact ⟨_, .recorded hread hbuild hn, h1.trans_still h2⟩

theorem does_recordAxisPerturbed {axisName : String} {delta : rt.F}
    (hread : readPerturbation payload = .ok (axisName, delta)) : Does HostCollided
      (PerformsOne fun ds => Perturbs payload (.perturbed axisName delta :: ds))
      (recordAxisPerturbed payload : Op env rt PUnit) := by
  unfold recordAxisPerturbed
  split
  · rename_i name x hname hx
    have hbuild : buildAxisPerturbed rt payload = some (name, x) := by
      rw [buildAxisPerturbed, hname, hx]
    refine (does_emitReplayed (p := axisPerturbedPrefix) (by simp [replayedTexts])
      startsWith_append).mono fun h h' h1 => ?_
    obtain ⟨ds, ⟨hn⟩, h1⟩ := h1
    exact ⟨_, .recorded hread hbuild hn, h1⟩
  · rename_i hnot
    have hbuild : buildAxisPerturbed rt payload = none := by
      unfold buildAxisPerturbed
      split
      · rename_i name x hname hx
        exact absurd hx (hnot _ _ hname)
      · rfl
    exact does_pure fun h => ⟨[], .unread hread hbuild, Std.Refl.refl (r := Still) h⟩

theorem does_quarantineBlock {α : Type} {opName : String} {r : Except SubstrateError α}
    (he : (quarantineBlock opName).exec h = some (r, h')) :
    (∃ e, r = .error e) ∧ Unless HostCollided Still h h' := by
  rw [quarantineBlock] at he
  obtain ⟨_, t, h1, h2⟩ := turns_immune.succeeds.exec_bind he
  cases h2
  exact ⟨⟨_, rfl⟩, does_still_immune.within _ _ _ h1⟩

theorem forwardToPython_cases {t : MessageType} {expected : String}
    {r : Except SubstrateError (Reply rt)}
    (hack : ∀ w reply w', dispatch w t request.payload = .ok ((reply : Reply rt), w') →
      reply.messageType = expected)
    (he : (forwardToPython t expected request).exec h = some (r, h')) :
    (∃ w reply w', h.python = some w ∧ dispatch w t request.payload = .ok (reply, w') ∧
      r = .ok reply ∧ h' = { h with python := some w' }) ∨
    (∃ e, r = .error e ∧ Unless HostCollided (PerformsOne Halts) h h') := by
  rw [forwardToPython] at he
  rcases Prog.exec_bind_eq_some.1 he with ⟨e, h1, rfl⟩ | ⟨reply, u, h1, h2⟩
  · exact .inr ⟨e, rfl, halts_of_callPython h1⟩
  · rcases callPython_cases h1 with ⟨w, reply', w', hp, hd, hr, rfl⟩ | ⟨e, hr, -⟩
    · cases hr
      rw [if_pos (hack w _ w' hd)] at h2
      cases h2
      exact .inl ⟨w, _, w', hp, hd, rfl, rfl⟩
    · cases hr

/-- What both arms do: nothing in quarantine, else the worker is asked, and what it has acknowledged
is recorded. -/
theorem performs_forwarded {t : MessageType} {expected opName : String}
    {record : Payload → Op env rt PUnit} {P : List (Deed rt) → Prop}
    {r : Except SubstrateError (Reply rt)}
    (hack : ∀ w reply w', dispatch w t request.payload = .ok ((reply : Reply rt), w') →
      reply.messageType = expected)
    (hP : ∀ w reply w', h.python = some w →
      dispatch w t request.payload = .ok ((reply : Reply rt), w') →
      ∃ d, Core.Does h.core d { h.core with python := some w' } ∧ d.marks = [] ∧
        Does HostCollided (PerformsOne fun ds => P (d :: ds)) (record request.payload))
    (he : (if isInBirthPeriodQuarantine h.server then quarantineBlock opName
      else do
        let response ← forwardToPython t expected request
        record request.payload
        pure response : Op env rt (Reply rt)).exec h = some (r, h')) :
    Unless HostCollided (PerformsOne (Answers P r)) h h' := by
  split at he
  · obtain ⟨⟨e, rfl⟩, hstill⟩ := does_quarantineBlock he
    exact hstill.imp fun hs => ⟨[], .nothing, hs⟩
  · rcases Prog.exec_bind_eq_some.1 he with ⟨e, h1, rfl⟩ | ⟨reply, u, h1, h2⟩
    · rcases forwardToPython_cases hack h1 with ⟨_, _, _, -, -, hr, -⟩ | ⟨e', -, hhalts⟩
      · cases hr
      · exact hhalts
    rcases forwardToPython_cases hack h1 with ⟨w, reply', w', hp, hd, hr, rfl⟩ | ⟨e', hr, -⟩
    · cases hr
      obtain ⟨d, hdoes, hm, hrecord⟩ := hP w _ w' hp hd
      have hfirst := performs_python hdoes hm
      rcases Prog.exec_bind_eq_some.1 h2 with ⟨e, h3, -⟩ | ⟨_, v, h3, h4⟩
      · exact hfirst.trans (hrecord _ _ _ h3) fun _ ⟨⟨_, hx⟩, _⟩ => by cases hx
      · cases h4
        refine hfirst.trans (hrecord.within _ _ _ h3) fun hp1 ⟨ds, hds, hp2⟩ => ?_
        exact ⟨_, hds, hp1.append hp2⟩
    · cases hr

theorem performs_registerAxis {r : Except SubstrateError (Reply rt)}
    (he : (registerAxis request).exec h = some (r, h')) :
    Unless HostCollided (PerformsOne (Answers (Registers request.payload) r)) h h' := by
  rw [registerAxis, Prog.exec_get_bind] at he
  refine performs_forwarded (t := .registerAxis) (fun w reply w' hd => ?_)
    (fun w reply w' hp hd => ?_) he
  · obtain ⟨_, _, _, _, -, -, -, rfl, -⟩ := handleRegisterAxis_eq_ok.1
      (show handleRegisterAxis w request.payload = .ok (reply, w') from hd)
    rfl
  · obtain ⟨fields, schema, rule, g, hread, hparams, hreg, -, rfl⟩ := handleRegisterAxis_eq_ok.1
      (show handleRegisterAxis w request.payload = .ok (reply, w') from hd)
    exact ⟨.registered fields, .registered hp hparams hreg, rfl, does_recordAxisRegistered hread⟩

theorem performs_perturb {r : Except SubstrateError (Reply rt)}
    (he : (perturb request).exec h = some (r, h')) :
    Unless HostCollided (PerformsOne (Answers (Perturbs request.payload) r)) h h' := by
  rw [perturb, Prog.exec_get_bind] at he
  refine performs_forwarded (t := .perturb) (fun w reply w' hd => ?_)
    (fun w reply w' hp hd => ?_) he
  · obtain ⟨_, _, _, -, -, rfl, -⟩ := handlePerturb_eq_ok.1
      (show handlePerturb w request.payload = .ok (reply, w') from hd)
    rfl
  · obtain ⟨name, delta, g, hread, hper, -, rfl⟩ := handlePerturb_eq_ok.1
      (show handlePerturb w request.payload = .ok (reply, w') from hd)
    exact ⟨.perturbed name delta, .perturbed hp hper, rfl, does_recordAxisPerturbed hread⟩

theorem performs_insertLink {p : RawPerturbation} {r : Except SubstrateError NodeHash}
    (hraw : checkRawMaterial h.server p.rawMaterialHash = .ok ())
    (he : (insertLink p : Op env rt NodeHash).exec h = some (r, h')) :
    Unless HostCollided (fun h h' => (∃ a, r = .ok a) ∧ PerformsOne
      (Records (perturbFromRawPrefix ++ p.axisName) (encodePerturbFromRaw p)) h h') h h' := by
  obtain ⟨s, h1, rfl⟩ := exec_onServer.1 he
  rw [Prog.exec_get_bind] at h1
  have hthere : p.rawMaterialHash ∈ h.server.nodes.map DagNode.hash := by
    unfold checkRawMaterial at hraw
    cases hget : h.server.ledger.dag.get p.rawMaterialHash with
    | none =>
      rw [hget] at hraw
      cases hraw
    | some n =>
      obtain ⟨hn, hh⟩ := Ledger.get_eq_some.1 hget
      exact List.mem_map.2 ⟨n, hn, hh⟩
  obtain ⟨ps, hps, hlink⟩ : ∃ ps, (∀ q ∈ ps, q ∈ h.server.nodes.map DagNode.hash) ∧
      linkParents h.server p.rawMaterialHash = h.server.tipParents ++ ps := by
    unfold linkParents ServerState.tipParents
    cases h.server.ledger.tip with
    | none => exact ⟨[p.rawMaterialHash], by simpa using hthere, rfl⟩
    | some t =>
      by_cases ht : t = p.rawMaterialHash
      · exact ⟨[], by simp, by simp [ht]⟩
      · exact ⟨[p.rawMaterialHash], by simpa using hthere, by simp [ht]⟩
  have hne : perturbFromRawPrefix ++ p.axisName ≠ "" :=
    ne_empty_of_startsWith startsWith_append (q := migrationStartedPrefix) (by decide)
  have hb := insertNode_tip h1 hne hlink hps
  refine ⟨hb.stays, fun hc => ?_⟩
  obtain ⟨hr, ha⟩ := hb.holds hc
  exact ⟨⟨_, hr⟩, _, .mk ⟨rfl, rfl, ha.content⟩, performs_of_appends (p := perturbFromRawPrefix)
    (by simp [replayedTexts]) startsWith_append ha⟩

theorem performs_perturbFromRaw {r : Except SubstrateError (Option Message)}
    (he : (perturbAxisFromRawMaterial request : Op env rt (Option Message)).exec h = some (r, h')) :
    Unless HostCollided (PerformsOne (Answers (PerturbsFromRaw request.payload) r)) h h' := by
  have hstill : ∀ {e : SubstrateError} {r : Except SubstrateError (Option Message)},
      some ((.error e : Except SubstrateError (Option Message)), h) = some (r, h') →
      Unless HostCollided (PerformsOne (Answers (PerturbsFromRaw request.payload) r)) h h' := by
    intro e r hr
    cases hr
    exact ⟨id, fun _ => ⟨[], .nothing, Std.Refl.refl (r := Still) h⟩⟩
  rw [perturbAxisFromRawMaterial, Prog.exec_bind] at he
  cases hread : readRawPerturbation request.payload with
  | error e =>
    rw [hread] at he
    exact hstill he
  | ok p =>
    rw [hread] at he
    change ((get >>= _ : Op env rt (Option Message))).exec h = _ at he
    rw [Prog.exec_get_bind, Prog.exec_bind] at he
    cases hraw : checkRawMaterial h.server p.rawMaterialHash with
    | error e =>
      rw [hraw] at he
      exact hstill he
    | ok u =>
      rw [hraw] at he
      cases hx : rt.f64 p.deltaRepr with
      | none =>
        simp only [hx] at he
        exact hstill he
      | some delta =>
        simp only [hx] at he
        rcases Prog.exec_bind_eq_some.1 he with ⟨e, h1, rfl⟩ | ⟨reply, u, h1, h2⟩
        · exact halts_of_callPython h1
        rcases callPython_cases h1 with ⟨w, reply', w', hp, hd, hr, rfl⟩ | ⟨e', hr, -⟩
        · cases hr
          obtain ⟨name, delta', g, hreq, hper, rfl, rfl⟩ := handlePerturb_eq_ok.1
            (show handlePerturb w (perturbPayload p.axisName delta) = .ok (reply, w') from hd)
          rw [readPerturbation_perturbPayload] at hreq
          cases hreq
          have hdoes : Core.Does h.core (.perturbed p.axisName delta) _ := .perturbed hp hper
          have hfirst := performs_python hdoes rfl
          rw [if_pos (by rfl)] at h2
          rcases Prog.exec_bind_eq_some.1 h2 with ⟨e, h3, -⟩ | ⟨linkHash, v, h3, h4⟩
          · exact hfirst.trans (performs_insertLink hraw h3) fun _ ⟨⟨_, hx⟩, _⟩ => by cases hx
          · cases h4
            refine hfirst.trans (performs_insertLink hraw h3) fun hp1 hlinked => ?_
            obtain ⟨-, ds, ⟨hn⟩, hp2⟩ := hlinked
            exact ⟨_, .mk hread hx hn, hp1.append hp2⟩
        · cases hr

end

end Myco.Tropism
