import Myco.Reproduction.Child
import Myco.Tropism.Marks
import Myco.Tropism.Persistence
import Myco.Tropism.Run

/-!
# The hello and the back-fill

`handle_hello` of `substrate/src/handshake.rs`, what `run_loop` does when it fails, and
`backfill_dag_from_python_state` of `substrate/src/persistence_runtime.rs`. A log with a genesis is
replayed to an empty worker. For any other log the worker loads `gradient.cb`, the back-fill appends
the genesis and saves it, asks the worker for its axes and appends their events. Errors of its
emissions and saves are dropped.

What a back-fill appends is a function of the log and of the axes (`backfilled`), as long as nothing
collides (`backfillDag_spec`).
-/

namespace Myco.Tropism

open Myco.Lib Myco.Canonical Myco.Schema Myco.Substrate Myco.Consensus Myco.Prune Myco.Reproduction

variable {env : Env} {rt : Runtime}

/-! ### What a hello finds -/

/-- How the round trips and the saves of a hello go. -/
structure Surroundings where
  /-- `spawn_and_handshake`, which tells the versions of Python and of the worker -/
  spawn : Except SubstrateError (String × String)
  loadState : Except SubstrateError Unit
  queryGradientSchemas : Except SubstrateError Unit
  saveGenesis : Except SubstrateError Unit
  saveBackfilled : Except SubstrateError Unit
  saveRejected : Except SubstrateError Unit
  /-- the text of an error of a replay -/
  replayErrorText : ReplayError → String

abbrev Greeting (env : Env) (rt : Runtime) := Prog (Machine env rt) SubstrateError

def onSubstrate {α : Type} (m : Handler env α) : Greeting env rt α :=
  Prog.zoom (fun m => m.host.server)
    (fun m s => { m with host := { m.host with server := s } }) m

/-- `let _ = ..` -/
def dropping {σ ε α : Type} (m : Prog σ ε α) : Prog σ ε PUnit := do
  let _ ← m.attempt
  pure ⟨⟩

def saveDag (outcome : Except SubstrateError Unit) : Greeting env rt PUnit :=
  match outcome with
  | .ok _ => modify fun m => { m with disk := m.host.server.ledger }
  | .error e => throw e

/-! ### Loading -/

/-- `load_gradient`. The error is the text of a `PersistenceError`. -/
def loadGradient (gradientCb : Option Bytes) :
    Except String (Option (GradientConfiguration rt)) :=
  match gradientCb with
  | none => .ok none
  | some data => gradientFromCanonicalBytes data

/-- `_handle_load_state`: the count of the axes, whether it has hydrated, and the worker. -/
def handleLoadState (gradientCb : Option Bytes) (skipDiskLoad : Bool) (w : DispatcherState rt) :
    Except PyError ((Nat × Bool) × DispatcherState rt) :=
  if skipDiskLoad then .ok ((w.gradient.slots.length, false), w)
  else
    match loadGradient gradientCb with
    | .error e => .error (.bridgeProtocol s!"load_state gradient failed: {e}")
    | .ok none => .ok ((w.gradient.slots.length, false), w)
    | .ok (some g) => .ok ((g.slots.length, true), { w with gradient := g })

/-- `load_state_full`, of a worker that has only just been spawned. -/
def loadStateFull (o : Surroundings) (gradientCb : Option Bytes) (skipDiskLoad : Bool) :
    Except SubstrateError ((Nat × Bool) × DispatcherState rt) :=
  match o.loadState with
  | .error e => .error e
  | .ok _ =>
    match handleLoadState gradientCb skipDiskLoad .fresh with
    | .ok a => .ok a
    | .error (.bridgeProtocol text) => .error (workerError text)
    | .error _ => .error workerGone

/-! ### The back-fill -/

def hasGenesis (nodes : List DagNode) : Bool :=
  nodes.any fun n => startsWith genesisPrefix n.nodeType

def hasRegistered (nodes : List DagNode) (name : String) : Bool :=
  nodes.any fun n => n.nodeType = axisRegisteredPrefix ++ name

def backfillGenesis (o : Surroundings) : Greeting env rt PUnit := do
  let m ← get
  let s := m.host.server
  if hasGenesis s.nodes then pure ⟨⟩
  else do
    onSubstrate (dropping (emitSubstrateEvent (genesisEventNodeType (ownId s))
      (encodeGenesisEvent (ownId s) (s.genesisTimeUnixNs.getD 0) s.generationDepth)))
    dropping (saveDag o.saveGenesis)

def backfillRegistration (i : AxisSchemaInfo rt) : Handler env PUnit := do
  let s ← get
  if hasRegistered s.nodes i.name then pure ⟨⟩
  else dropping (emitSubstrateEvent (axisRegisteredPrefix ++ i.name) (encodeAxisRegistered i.event))

/-- No look at the log precedes this one. -/
def backfillValue (fl : FloatDifference rt) (i : AxisSchemaInfo rt) : Handler env PUnit :=
  if fl.ne (i.delta fl) fl.zero then
    dropping (emitSubstrateEvent (axisPerturbedPrefix ++ i.name)
      (encodeAxisPerturbed i.name (i.delta fl)))
  else pure ⟨⟩

def backfillAxis (fl : FloatDifference rt) (i : AxisSchemaInfo rt) : Handler env PUnit := do
  backfillRegistration i
  backfillValue fl i

def backfillDagFromPythonState (fl : FloatDifference rt) (o : Surroundings)
    (w : DispatcherState rt) : Greeting env rt PUnit := do
  backfillGenesis o
  match o.queryGradientSchemas with
  | .error e => throw e
  | .ok _ =>
    onSubstrate ((gradientSchemas w.gradient).forM (backfillAxis fl))
    dropping (saveDag o.saveBackfilled)

/-! ### The hello -/

def ReplayError.toSubstrateError (text : ReplayError → String) : ReplayError → SubstrateError
  | .bridge e => e
  | e => .protocol (text e)

/-- The worker, once the log has been replayed to it. -/
def replayPythonEventsFromDag (o : Surroundings) (nodes : List DagNode) (w : DispatcherState rt) :
    Except SubstrateError (DispatcherState rt) :=
  match replay replayNode nodes w with
  | (.ok _, w) => .ok w
  | (.error e, _) => .error (e.toSubstrateError o.replayErrorText)

structure HelloAck where
  kernelTropismVersion : String
  pythonVersion : String
  substrateVersion : String
  substrateId : Hash32
  persistentCycleCounter : UInt64

def substrateVersion : String := "0.9.0-alpha.2"

def sessionSecret? (request : Message) : Option Bytes :=
  match OrdMap.get "session_secret" request.payload with
  | some (.bytes b) => if b.length = 32 then some b else none
  | _ => none

/-- The worker of a hello, hydrated. -/
def hydrate (fl : FloatDifference rt) (o : Surroundings) (gradientCb : Option Bytes) :
    Greeting env rt (DispatcherState rt) := do
  let m ← get
  let isPostM21 := (derivedState m.host.server.ledger.dag).substrateId.isSome
  match loadStateFull o gradientCb isPostM21 with
  | .error e => throw e
  | .ok (_, w) =>
    if isPostM21 then
      match replayPythonEventsFromDag o m.host.server.nodes w with
      | .error e => throw e
      | .ok w => pure w
    else do
      backfillDagFromPythonState fl o w
      pure w

def handleHello (fl : FloatDifference rt) (o : Surroundings) (gradientCb : Option Bytes)
    (request : Message) : Greeting env rt HelloAck := do
  let m ← get
  if m.host.server.handshakeComplete then
    throw (.handshake "hello received after handshake already complete")
  else
    match sessionSecret? request with
    | none => throw (.handshake "hello payload missing 32-byte session_secret")
    | some _ =>
      match o.spawn with
      | .error e => throw e
      | .ok (pythonVersion, kernelTropismVersion) => do
        let w ← hydrate fl o gradientCb
        modify fun m =>
          { m with host := ⟨{ m.host.server with handshakeComplete := true }, some w⟩ }
        let m ← get
        return ⟨kernelTropismVersion, pythonVersion, substrateVersion, ownId m.host.server,
          m.host.server.cycleCounter⟩

/-- The arm of `run_loop` for a hello. One that fails is the end of the process. -/
def serveHello (fl : FloatDifference rt) (o : Surroundings) (gradientCb : Option Bytes)
    (request : Message) : Greeting env rt HelloAck := do
  match ← (handleHello fl o gradientCb request).attempt with
  | .ok ack => pure ack
  | .error e => do
    onSubstrate (dropping (emitImmuneSporocarp "C30_handshake_pubkey_mismatch"
      "handshake_pubkey_mismatch" s!"hello rejected: {e.text}"))
    dropping (saveDag o.saveRejected)
    throw e

/-! ### What is appended -/

/-- Events with these types and contents have been appended. -/
def Appended (es : List (String × Bytes)) (s s' : ServerState env) : Prop :=
  ∃ ns, s'.nodes = s.nodes ++ ns ∧ ns.map (fun n => (n.nodeType, n.content)) = es

section

variable {es fs : List (String × Bytes)} {s t u : ServerState env}

theorem Appended.nil (s : ServerState env) : Appended [] s s := ⟨[], by simp, rfl⟩

theorem Appended.append (h : Appended es s t) (h' : Appended fs t u) :
    Appended (es ++ fs) s u := by
  obtain ⟨ns, h1, rfl⟩ := h
  obtain ⟨ms, h2, rfl⟩ := h'
  exact ⟨ns ++ ms, by rw [h2, h1, List.append_assoc], List.map_append⟩

theorem Appended.nodes_eq_iff (h : Appended es s t) : t.nodes = s.nodes ↔ es = [] := by
  obtain ⟨ns, h1, rfl⟩ := h
  rw [h1, List.append_right_eq_self, List.map_eq_nil_iff]

/-- What the types of the events say, the types of the nodes say. -/
theorem Appended.any_nodes (h : Appended es s t) {p : String → Bool} :
    t.nodes.any (fun n => p n.nodeType) =
      (s.nodes.any (fun n => p n.nodeType) || es.any fun e => p e.1) := by
  obtain ⟨ns, h1, rfl⟩ := h
  rw [h1, List.any_append, List.any_map]
  rfl

end

theorem exec_dropping {σ ε α : Type} {m : Prog σ ε α} {s s' : σ} {r : Except ε PUnit}
    (h : (dropping m).exec s = some (r, s')) : ∃ x, m.exec s = some (x, s') := by
  rcases Prog.exec_bind_eq_some.1 h with ⟨e, h1, -⟩ | ⟨x, t, h1, h2⟩
  · obtain ⟨y, hm, -⟩ := Prog.exec_attempt_eq_some.1 h1
    exact ⟨y, hm⟩
  · obtain ⟨y, hm, -⟩ := Prog.exec_attempt_eq_some.1 h1
    cases h2
    exact ⟨y, hm⟩

theorem does_dropping {σ ε α : Type} {bad : σ → Prop} {R : σ → σ → Prop} {m : Prog σ ε α}
    (h : Within (Unless bad R) m) : Does bad R (dropping m) :=
  does_bind (S := Eq) (does_attempt h) (fun _ => does_pure fun _ => rfl) fun _ _ _ hR he => he ▸ hR

theorem does_emit {nodeType : String} {content : Bytes} (ht : nodeType ≠ "") :
    Does Collided (Appended [(nodeType, content)])
      (dropping (emitSubstrateEvent nodeType content) : Handler env PUnit) :=
  does_dropping fun _ _ _ he => (emitSubstrateEvent_tip ht he).imp fun ha => ⟨_, ha.nodes, rfl⟩

theorem prefix_append_ne {p name : String} (hp : p ≠ "") : p ++ name ≠ "" := by
  intro h
  rw [String.append_eq_empty_iff] at h
  exact hp h.1

/-! ### The axes -/

variable {fl : FloatDifference rt} {i : AxisSchemaInfo rt} {is : List (AxisSchemaInfo rt)}

/-- What is appended for an axis. -/
def axisBackfill (fl : FloatDifference rt) (known : Bool) (i : AxisSchemaInfo rt) :
    List (String × Bytes) :=
  (if known then [] else [(axisRegisteredPrefix ++ i.name, encodeAxisRegistered i.event)]) ++
  if fl.ne (i.delta fl) fl.zero then
    [(axisPerturbedPrefix ++ i.name, encodeAxisPerturbed i.name (i.delta fl))]
  else []

/-- What is appended for axes of distinct names. -/
def backfilled (fl : FloatDifference rt) (nodes : List DagNode) (is : List (AxisSchemaInfo rt)) :
    List (String × Bytes) :=
  is.flatMap fun i => axisBackfill fl (hasRegistered nodes i.name) i

theorem does_backfillRegistration : Does Collided (fun s s' => Appended
    (if hasRegistered s.nodes i.name then []
      else [(axisRegisteredPrefix ++ i.name, encodeAxisRegistered i.event)]) s s')
    (backfillRegistration i : Handler env PUnit) := by
  refine does_get_bind (Q := fun u => Appended (if hasRegistered u.nodes i.name then []
      else [(axisRegisteredPrefix ++ i.name, encodeAxisRegistered i.event)]))
    (fun s => ?_) fun s s' h => h
  split
  · exact does_pure Appended.nil
  · exact does_emit (prefix_append_ne (by decide))

theorem does_backfillValue : Does Collided (Appended
    (if fl.ne (i.delta fl) fl.zero then
      [(axisPerturbedPrefix ++ i.name, encodeAxisPerturbed i.name (i.delta fl))] else []))
    (backfillValue fl i : Handler env PUnit) := by
  rw [backfillValue]
  split
  · exact does_emit (prefix_append_ne (by decide))
  · exact does_pure Appended.nil

theorem does_backfillAxis : Does Collided
    (fun s s' => Appended (axisBackfill fl (hasRegistered s.nodes i.name) i) s s')
    (backfillAxis fl i : Handler env PUnit) :=
  does_bind does_backfillRegistration (fun _ => does_backfillValue) fun _ _ _ h h' => h.append h'

/-- The events of an axis register no other. -/
theorem axisBackfill_registers {known : Bool} {name : String} (hn : i.name ≠ name) :
    (axisBackfill fl known i).any (fun e => e.1 = axisRegisteredPrefix ++ name) = false := by
  have hvalue : axisPerturbedPrefix ++ i.name ≠ axisRegisteredPrefix ++ name := fun he =>
    not_startsWith (p := axisPerturbedPrefix) (q := axisRegisteredPrefix)
      (he ▸ startsWith_append) (by decide) startsWith_append
  have hreg : axisRegisteredPrefix ++ i.name ≠ axisRegisteredPrefix ++ name := fun he =>
    hn ((String.append_right_inj _).1 he)
  rw [List.any_eq_false]
  intro e he
  rw [axisBackfill, List.mem_append] at he
  rw [decide_eq_true_eq]
  rcases he with he | he
  · split at he
    · cases he
    · rw [List.mem_singleton.1 he]
      exact hreg
  · split at he
    · rw [List.mem_singleton.1 he]
      exact hvalue
    · cases he

theorem backfilled_congr {ns ms : List DagNode}
    (h : ∀ i ∈ is, hasRegistered ns i.name = hasRegistered ms i.name) :
    backfilled fl ns is = backfilled fl ms is := by
  rw [backfilled, backfilled]
  exact List.flatMap_congr fun i hi => by rw [h i hi]

theorem does_backfillAxes (hnd : (is.map AxisSchemaInfo.name).Nodup) : Does Collided
    (fun s s' => Appended (backfilled fl s.nodes is) s s')
    (is.forM (backfillAxis fl) : Handler env PUnit) := by
  induction is with
  | nil => exact does_pure Appended.nil
  | cons i is ih =>
    rw [List.map_cons, List.nodup_cons] at hnd
    refine does_bind does_backfillAxis (fun _ => ih hnd.2) fun s t u h h' => ?_
    have hrest : backfilled fl t.nodes is = backfilled fl s.nodes is := by
      refine backfilled_congr fun j hj => ?_
      have hne : i.name ≠ j.name := fun he => hnd.1 (he ▸ List.mem_map_of_mem hj)
      rw [hasRegistered, hasRegistered,
        h.any_nodes (p := fun t => t = axisRegisteredPrefix ++ j.name),
        axisBackfill_registers hne, Bool.or_false]
    rw [hrest] at h'
    exact h.append h'

/-! ### The whole back-fill -/

/-- What is appended as a genesis. -/
def genesisBackfill (s : ServerState env) : List (String × Bytes) :=
  if hasGenesis s.nodes then []
  else [(genesisEventNodeType (ownId s),
    encodeGenesisEvent (ownId s) (s.genesisTimeUnixNs.getD 0) s.generationDepth)]

/-- The substrate has appended these events, and the worker is as it was. -/
structure Fills (es : List (String × Bytes)) (m m' : Machine env rt) : Prop where
  appended : Appended es m.host.server m'.host.server
  python : m'.host.python = m.host.python

section

variable {es fs : List (String × Bytes)} {m m' m'' : Machine env rt} {o o' : Surroundings}
  {w w' : DispatcherState rt}

theorem Fills.append (h : Fills es m m') (h' : Fills fs m' m'') : Fills (es ++ fs) m m'' :=
  ⟨h.appended.append h'.appended, h'.python.trans h.python⟩

theorem does_onSubstrate {α : Type} {es : ServerState env → List (String × Bytes)}
    {p : Handler env α} (h : Does Collided (fun s s' => Appended (es s) s s') p) :
    Does (fun m => HostCollided m.host) (fun m m' => Fills (es m.host.server) m m')
      (onSubstrate p : Greeting env rt α) :=
  does_zoom h (fun _ => Iff.rfl) (fun _ _ => rfl) fun _ _ ha => ⟨ha, rfl⟩

theorem does_saveDag {outcome : Except SubstrateError Unit} :
    Does (fun m => HostCollided m.host) (Fills [])
      (dropping (saveDag outcome) : Greeting env rt PUnit) := by
  refine does_dropping fun m r m' he => ?_
  cases outcome with
  | ok _ =>
    cases he
    exact ⟨id, fun _ => ⟨.nil _, rfl⟩⟩
  | error e =>
    cases he
    exact ⟨id, fun _ => ⟨.nil _, rfl⟩⟩

theorem genesisEventNodeType_ne {id : Hash32} : genesisEventNodeType id ≠ "" :=
  prefix_append_ne (by decide)

theorem does_backfillGenesis : Does (fun m => HostCollided m.host)
    (fun m m' => Fills (genesisBackfill m.host.server) m m')
    (backfillGenesis o : Greeting env rt PUnit) := by
  refine does_get_bind (Q := fun u => Fills (genesisBackfill u.host.server)) (fun u => ?_)
    fun m m' h => h
  dsimp only
  rw [genesisBackfill]
  split
  · exact does_pure fun m => ⟨.nil _, rfl⟩
  · refine does_bind (does_onSubstrate (does_emit genesisEventNodeType_ne))
      (fun _ => does_saveDag) fun _ _ _ h h' => ?_
    have happ := h.append h'
    rwa [List.append_nil] at happ

theorem nodup_gradientSchemas (g : GradientConfiguration rt) :
    ((gradientSchemas g).map AxisSchemaInfo.name).Nodup := (ofWorker_gradientSchemas g).nodup

/-- A genesis registers no axis. -/
theorem genesisBackfill_registers {s : ServerState env} {name : String} :
    (genesisBackfill s).any (fun e => e.1 = axisRegisteredPrefix ++ name) = false := by
  rw [List.any_eq_false]
  intro e he
  rw [genesisBackfill] at he
  split at he
  · cases he
  · have hs : startsWith genesisPrefix (genesisEventNodeType (ownId s)) := startsWith_append
    rw [List.mem_singleton.1 he, decide_eq_true_eq]
    intro heq
    rw [show genesisEventNodeType (ownId s) = _ from heq] at hs
    exact not_startsWith hs (by decide) startsWith_append

theorem does_backfillDag (hq : o.queryGradientSchemas = .ok ()) :
    Does (fun m => HostCollided m.host) (fun m m' => Fills (genesisBackfill m.host.server ++
      backfilled fl m.host.server.nodes (gradientSchemas w.gradient)) m m')
      (backfillDagFromPythonState fl o w : Greeting env rt PUnit) := by
  rw [backfillDagFromPythonState, hq]
  refine does_bind (S := fun m m' => Fills
      (backfilled fl m.host.server.nodes (gradientSchemas w.gradient)) m m')
    does_backfillGenesis (fun _ => ?_) fun m m' m'' h h' => ?_
  · refine does_bind (does_onSubstrate (does_backfillAxes (nodup_gradientSchemas _)))
      (fun _ => does_saveDag) fun _ _ _ h h' => ?_
    have happ := h.append h'
    rwa [List.append_nil] at happ
  · have hsame : backfilled fl m'.host.server.nodes (gradientSchemas w.gradient) =
        backfilled fl m.host.server.nodes (gradientSchemas w.gradient) := by
      refine backfilled_congr fun i _ => ?_
      rw [hasRegistered, hasRegistered,
        h.appended.any_nodes (p := fun t => t = axisRegisteredPrefix ++ i.name),
        genesisBackfill_registers, Bool.or_false]
    rw [hsame] at h'
    exact h.append h'

/-! ### The second back-fill -/

/-- Nothing is gained or lost since the axes were registered. -/
def Unmoved (fl : FloatDifference rt) (g : GradientConfiguration rt) : Prop :=
  ∀ i ∈ gradientSchemas g, fl.ne (i.delta fl) fl.zero = false

theorem hasGenesis_backfilled {s s' : ServerState env}
    (h : Appended (genesisBackfill s ++ fs) s s') : hasGenesis s'.nodes = true := by
  rw [hasGenesis, h.any_nodes (p := fun t => startsWith genesisPrefix t), List.any_append]
  cases hg : hasGenesis s.nodes with
  | true =>
    rw [hasGenesis] at hg
    rw [hg, Bool.true_or]
  | false =>
    rw [genesisBackfill, hg]
    have : startsWith genesisPrefix (genesisEventNodeType (ownId s)) := startsWith_append
    simp [this]

theorem hasRegistered_backfilled {s s' : ServerState env}
    (h : Appended (es ++ backfilled fl s.nodes is) s s') (hi : i ∈ is) :
    hasRegistered s'.nodes i.name = true := by
  rw [hasRegistered, h.any_nodes (p := fun t => t = axisRegisteredPrefix ++ i.name)]
  cases hr : hasRegistered s.nodes i.name with
  | true =>
    rw [hasRegistered] at hr
    rw [hr, Bool.true_or]
  | false =>
    have hmem : (axisRegisteredPrefix ++ i.name, encodeAxisRegistered i.event) ∈
        es ++ backfilled fl s.nodes is := by
      rw [List.mem_append, backfilled, List.mem_flatMap]
      refine .inr ⟨i, hi, ?_⟩
      rw [hr]
      exact List.mem_append_left _ List.mem_cons_self
    rw [Bool.or_eq_true]
    exact .inr (List.any_eq_true.2 ⟨_, hmem, decide_eq_true rfl⟩)

theorem axisBackfill_known : axisBackfill fl true i = [] ↔ fl.ne (i.delta fl) fl.zero = false := by
  rw [axisBackfill, if_pos rfl, List.nil_append]
  split
  · rename_i h
    simp [h]
  · rename_i h
    simp [h]

/-- A back-fill right after another adds nothing just if no axis has moved. -/
theorem backfill_twice {r r' : Except SubstrateError PUnit}
    (hq : o.queryGradientSchemas = .ok ()) (hq' : o'.queryGradientSchemas = .ok ())
    (h1 : (backfillDagFromPythonState fl o w).exec m = some (r, m'))
    (h2 : (backfillDagFromPythonState fl o' w).exec m' = some (r', m''))
    (hc : ¬ HostCollided m''.host) :
    m''.host.server.nodes = m'.host.server.nodes ↔ Unmoved fl w.gradient := by
  have hsecond := does_backfillDag hq' _ _ _ h2
  have hfirst := ((does_backfillDag hq _ _ _ h1).holds fun hb => hc (hsecond.stays hb)).2
  have hgenesis : genesisBackfill m'.host.server = [] := by
    rw [genesisBackfill, hasGenesis_backfilled hfirst.appended, if_pos rfl]
  have hknown : backfilled fl m'.host.server.nodes (gradientSchemas w.gradient) =
      (gradientSchemas w.gradient).flatMap (axisBackfill fl true) :=
    List.flatMap_congr fun i hi => by rw [hasRegistered_backfilled hfirst.appended hi]
  rw [(hsecond.holds hc).2.appended.nodes_eq_iff, hgenesis, hknown, List.nil_append,
    List.flatMap_eq_nil_iff]
  exact forall₂_congr fun i _ => axisBackfill_known

end

end Myco.Tropism
