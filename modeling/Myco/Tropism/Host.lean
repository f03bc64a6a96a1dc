import Myco.Tropism.Evolution
import Myco.Tropism.Watch

/-!
# The substrate and its worker

A `Host` is the substrate process and the worker it has spawned. An operation is a program over
both: what it does to the substrate alone it does `onServer`, and `callPython` is one round trip.
A worker that has exited answers nothing any more.

Of a host, what concerns the gradient is its `core`: the worker, the events that the gradient is
rebuilt from, the cycle counter, the idle cycles that are pending and the migration in flight. What
is aside of these leaves the core as it is (`Leaves.keeps`).
-/

namespace Myco.Tropism

open Myco.Lib Myco.Canonical Myco.Schema Myco.Substrate Myco.Prune

variable {env : Env} {rt : Runtime}

/-! ### Hosts -/

structure Host (env : Env) (rt : Runtime) where
  server : ServerState env
  /-- the state of the worker, unless it has exited -/
  python : Option (DispatcherState rt)

abbrev Op (env : Env) (rt : Runtime) := Prog (Host env rt) SubstrateError

def onServer {α : Type} (m : Handler env α) : Op env rt α :=
  Prog.zoom Host.server (fun h s => { h with server := s }) m

theorem exec_onServer {α : Type} {m : Handler env α} {h h' : Host env rt}
    {r : Except SubstrateError α} : (onServer m).exec h = some (r, h') ↔
      ∃ s, m.exec h.server = some (r, s) ∧ h' = { h with server := s } := Prog.exec_zoom_eq_some

/-- The error envelope that the worker answers with. -/
def workerError (text : String) : SubstrateError :=
  .bridge s!"bridge protocol: worker error envelope: code=dispatcher_error message={text}"

def workerGone : SubstrateError :=
  .bridge "bridge subprocess: python worker reader thread disconnected (child exited)"

/-- `client.call_with_timeout(..)`, answered in time. -/
def callPython (messageType : MessageType) (payload : Payload) : Op env rt (Reply rt) := do
  let h ← get
  match h.python with
  | none => throw workerGone
  | some w =>
    match dispatch w messageType payload with
    | .ok (reply, w) =>
      modify fun h => { h with python := some w }
      pure reply
    | .error (.bridgeProtocol text) => throw (workerError text)
    | .error _ =>
      modify fun h => { h with python := none }
      throw workerGone

/-! ### What the gradient is rebuilt from -/

def perturbFromRawPrefix : String := "perturb_from_raw:"

/-- What the events start with that are replayed to a fresh worker. -/
def replayedTexts : List String :=
  [axisRegisteredPrefix, axisPerturbedPrefix, perturbFromRawPrefix, cycleAdvancedType]

/-- What is replayed, and what else the gradient depends on. -/
def replayed : Watch where
  texts := cultivationTexts ++ replayedTexts
  View := UInt64 × UInt64 × Option CandidateState
  see s := (s.cycleCounter, s.pendingSelfDrivenNoopCycles, s.migrationCandidate)
  uncommon := by decide
  cultivation := by decide

/-- The nodes that are replayed. -/
def gradientLog (s : ServerState env) : List DagNode := logOf replayedTexts s

structure Core (rt : Runtime) where
  python : Option (DispatcherState rt)
  log : List DagNode
  cycleCounter : UInt64
  pending : UInt64
  migrationCandidate : Option CandidateState

def Host.core (h : Host env rt) : Core rt :=
  ⟨h.python, gradientLog h.server, h.server.cycleCounter, h.server.pendingSelfDrivenNoopCycles,
    h.server.migrationCandidate⟩

theorem Aside.gradientLog {s s' : ServerState env} (h : Aside replayed s s') :
    gradientLog s' = gradientLog s := h.logOf fun _ hw => List.mem_append_right _ hw

/-! ### Programs on hosts -/

section

variable {W : Watch} {nodeType detectorId detectorName evidence : String} {content : Bytes}

/-- The worker stays as it is, and what the substrate does is aside. -/
structure Leaves (W : Watch) (h h' : Host env rt) : Prop where
  python : h'.python = h.python
  server : Aside W h.server h'.server

instance : IsPreorder (Host env rt) (Leaves W) where
  refl h := ⟨rfl, Std.Refl.refl h.server⟩
  trans _ _ _ h h' := ⟨h'.python.trans h.python, IsTrans.trans _ _ _ h.server h'.server⟩

theorem leaves_onServer {α : Type} {m : Handler env α} (hm : Within (Aside W) m) :
    Within (Leaves W) (onServer m : Op env rt α) :=
  within_zoom hm fun _ _ ha => ⟨rfl, ha⟩

/-- `let _ = emit_immune_sporocarp(..)` -/
def immune (detectorId detectorName evidence : String) : Op env rt PUnit := do
  let _ ← (onServer (emitImmuneSporocarp detectorId detectorName evidence)).attempt
  pure ⟨⟩

theorem leaves_immune :
    Within (Leaves W) (immune detectorId detectorName evidence : Op env rt PUnit) :=
  within_bind (within_attempt (leaves_onServer aside_emitImmuneSporocarp)) fun _ => within_pure

/-- `let _ = emit_substrate_event(..)` -/
def emit (nodeType : String) (content : Bytes) : Op env rt PUnit := do
  let _ ← (onServer (emitSubstrateEvent nodeType content)).attempt
  pure ⟨⟩

theorem leaves_emit (h : ¬ Watched W.texts nodeType) :
    Within (Leaves W) (emit nodeType content : Op env rt PUnit) :=
  within_bind (within_attempt (leaves_onServer (aside_emitSubstrateEvent h))) fun _ => within_pure

/-- What the substrate does is aside, whatever becomes of the worker. -/
def Spares (W : Watch) (h h' : Host env rt) : Prop := Aside W h.server h'.server

instance : IsPreorder (Host env rt) (Spares W) where
  refl h := Std.Refl.refl (r := Aside W) h.server
  trans _ _ _ h h' := IsTrans.trans (r := Aside W) _ _ _ h h'

theorem Leaves.spares {h h' : Host env rt} (hl : Leaves W h h') : Spares W h h' := hl.server

/-- The core of a host stays. -/
def Keeps (h h' : Host env rt) : Prop := h'.core = h.core

instance : IsPreorder (Host env rt) Keeps where
  refl _ := rfl
  trans _ _ _ h h' := Eq.trans h' h

theorem Leaves.keeps {h h' : Host env rt} (hl : Leaves replayed h h') : Keeps h h' := by
  have hsee := hl.server.see
  simp only [replayed, settings, Prod.mk.injEq] at hsee
  show Core.mk _ _ _ _ _ = Core.mk _ _ _ _ _
  rw [hl.python, hl.server.gradientLog, hsee.1, hsee.2.1, hsee.2.2]

theorem keeps_immune :
    Within Keeps (immune detectorId detectorName evidence : Op env rt PUnit) :=
  leaves_immune.mono fun _ _ => Leaves.keeps

theorem keeps_emit (h : ¬ Watched replayed.texts nodeType) :
    Within Keeps (emit nodeType content : Op env rt PUnit) :=
  (leaves_emit h).mono fun _ _ => Leaves.keeps

end

/-! ### Round trips -/

variable {h h' : Host env rt} {t : MessageType} {payload : Payload}
  {r : Except SubstrateError (Reply rt)}

/-- A round trip gets the worker's answer and leaves the worker as the handler leaves it, or it
fails, and then the worker is as it was or gone. -/
theorem callPython_cases (he : (callPython t payload).exec h = some (r, h')) :
    (∃ w reply w', h.python = some w ∧ dispatch w t payload = .ok (reply, w') ∧ r = .ok reply ∧
      h' = { h with python := some w' }) ∨
    (∃ e, r = .error e ∧ h'.server = h.server ∧ (h' = h ∨ h'.python = none)) := by
  rw [callPython, Prog.exec_get_bind] at he
  cases hp : h.python with
  | none =>
    simp only [hp] at he
    cases he
    exact .inr ⟨_, rfl, rfl, .inl rfl⟩
  | some w =>
    simp only [hp] at he
    cases hd : dispatch w t payload with
    | ok p =>
      obtain ⟨reply, w'⟩ := p
      simp only [hd, Prog.exec_modify_bind] at he
      cases he
      exact .inl ⟨w, reply, w', rfl, hd, rfl, rfl⟩
    | error e =>
      rw [hd] at he
      have hgone : ∀ e' : SubstrateError, ((do
          modify fun h => { h with python := none }
          throw e' : Op env rt (Reply rt))).exec h = some (r, h') →
          ∃ e, r = .error e ∧ h'.server = h.server ∧ (h' = h ∨ h'.python = none) := by
        intro e' he'
        rw [Prog.exec_modify_bind] at he'
        cases he'
        exact ⟨_, rfl, rfl, .inr rfl⟩
      cases e with
      | bridgeProtocol text =>
        cases he
        exact .inr ⟨_, rfl, rfl, .inl rfl⟩
      | keyError _ => exact .inr (hgone _ he)
      | valueError _ => exact .inr (hgone _ he)
      | canonicalBytes _ => exact .inr (hgone _ he)
      | gradient _ => exact .inr (hgone _ he)
      | schemaEvolution _ => exact .inr (hgone _ he)

theorem spares_callPython {W : Watch} :
    Within (Spares W) (callPython t payload : Op env rt (Reply rt)) := by
  intro h r h' he
  rcases callPython_cases he with ⟨w, reply, w', -, -, -, rfl⟩ | ⟨e, -, hs, -⟩
  · exact Std.Refl.refl (r := Aside W) h.server
  · rw [Spares, hs]
    exact Std.Refl.refl (r := Aside W) h.server

end Myco.Tropism
