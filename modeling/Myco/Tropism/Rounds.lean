import Myco.Tropism.Performing

/-!
# Rounds of the run loop

The loop of `substrate/src/server/mod.rs` seals the idle cycles that are pending before it
dispatches a request, and while no request comes it ticks. A `Round` is one turn of the loop, with
its event and with the real cycle that it has run, if it has run one; it is made of steps
(`Round.steps`). Restarts and saves are no rounds.

The clock is the cycle counter and the idle cycles that are pending. Sealing, counting and cycling
move it (`flush_clock`, `runCycle_clock`, `drive_clock`), and whatever else a round does leaves it
alone: `Round.moves` says what becomes of it.
-/

namespace Myco.Tropism

open Myco.Lib Myco.Canonical Myco.Schema Myco.Substrate Myco.Federation Myco.Prune

variable {env : Env} {rt : Runtime}

/-! ### A tick and its answer -/

/-- Whether a self-driven cycle is counted and not run. -/
def countsIdle (s : ServerState env) : Prop :=
  isProvablyInertForBatch s ∧ s.pendingSelfDrivenNoopCycles + 1 < selfDrivenBatchMax ∧
    ¬ shouldRunPruneScan
      (saturatingAdd (saturatingAdd s.cycleCounter s.pendingSelfDrivenNoopCycles) 1)

instance (s : ServerState env) : Decidable (countsIdle s) :=
  inferInstanceAs (Decidable (_ ∧ _ ∧ _))

/-- `selfDrive`, with the answer of the cycle if it has been run. -/
def drive : Op env rt (Option (AdvanceResponse rt)) := do
  let h ← get
  if countsIdle h.server then
    onServer (modify fun s =>
      { s with pendingSelfDrivenNoopCycles := s.pendingSelfDrivenNoopCycles + 1 })
    pure none
  else
    let _ ← flushPendingSelfDriven.attempt
    let answer ← runCycle.attempt
    pure answer.toOption

theorem selfDrive_eq : (selfDrive : Op env rt PUnit) = drive >>= fun _ => pure ⟨⟩ := by
  rw [selfDrive, drive, bind_assoc]
  refine congrArg _ (funext fun h => ?_)
  by_cases hc : countsIdle h.server
  · rw [if_pos hc]
    exact (if_pos hc).trans (by simp only [bind_assoc, pure_bind, bind_pure_unit])
  · rw [if_neg hc]
    exact (if_neg hc).trans (by simp only [bind_assoc, pure_bind])

/-- `autonomousTick`, with the answer of the cycle if it has run one. -/
def tick (selfDriven : Bool) : Op env rt (Option (AdvanceResponse rt)) := do
  let h ← get
  let answer ← if selfDriven ∧ h.server.handshakeComplete ∧ ¬ isArchived h.server then drive
    else pure none
  checkMigrationWindow
  pure answer

theorem autonomousTick_eq {b : Bool} :
    (autonomousTick b : Op env rt PUnit) = tick b >>= fun _ => pure ⟨⟩ := by
  simp only [autonomousTick, tick, bind_assoc, selfDrive_eq]
  refine congrArg _ (funext fun h => ?_)
  split
  · simp only [bind_assoc, pure_bind, bind_pure_unit]
  · simp only [bind_assoc, pure_bind, bind_pure_unit]

/-! ### Rounds -/

/-- A cycle that the worker has answered, and what the counter stood at after it. -/
structure RealCycle (rt : Runtime) where
  response : AdvanceResponse rt
  counter : UInt64

inductive Round : Machine env rt → Event × Option (RealCycle rt) → Machine env rt → Prop
  | advance {m : Machine env rt} {h h' : Host env rt}
      {answer : Except SubstrateError (AdvanceResponse rt)} :
      m.host.server.handshakeComplete = true →
      flushPendingSelfDriven.exec m.host = some (.ok ⟨⟩, h) → advance.exec h = some (answer, h') →
      Round m (.request .advance (answer.map fun _ => ⟨⟩),
        answer.toOption.map (⟨·, h'.server.cycleCounter⟩)) { m with host := h' }
  | request {m : Machine env rt} {q : Request} {answer : Except SubstrateError PUnit}
      {h h' : Host env rt} : q ≠ .advance → m.host.server.handshakeComplete = true →
      flushPendingSelfDriven.exec m.host = some (.ok ⟨⟩, h) → q.run.exec h = some (answer, h') →
      Round m (.request q answer, none) { m with host := h' }
  /-- a request that is not modelled, or one that is refused, or the end of the loop -/
  | flush {m : Machine env rt} {r : Except SubstrateError PUnit} {h : Host env rt} :
      flushPendingSelfDriven.exec m.host = some (r, h) → Round m (.flush, none) { m with host := h }
  | tick {m : Machine env rt} {selfDriven : Bool} {answer : Option (AdvanceResponse rt)}
      {h : Host env rt} : m.host.server.handshakeComplete = true →
      (tick selfDriven).exec m.host = some (.ok answer, h) →
      Round m (.tick selfDriven, answer.map (⟨·, h.server.cycleCounter⟩)) { m with host := h }
  | other {m m' : Machine env rt} : Step m .other m' → Round m (.other, none) m'
  | workerExit {m m' : Machine env rt} : Step m .workerExit m' → Round m (.workerExit, none) m'
  | hello {m m' : Machine env rt} : Step m .hello m' → Round m (.hello, none) m'

abbrev Rounds : Machine env rt → List (Event × Option (RealCycle rt)) → Machine env rt → Prop :=
  Path Round

/-! ### The clock -/

/-- The counter, the idle cycles, and whether there has been a greeting; but no event. -/
def dial : Watch where
  texts := cultivationTexts
  View := UInt64 × UInt64 × Bool
  see s := (s.cycleCounter, s.pendingSelfDrivenNoopCycles, s.handshakeComplete)
  uncommon := by decide
  cultivation := fun _ h => h

theorem sedentary_dial : dial.Sedentary := ⟨by decide, fun _ _ => rfl⟩

theorem heedless_dial : dial.Heedless := ⟨by decide, fun _ _ => rfl, fun _ _ => rfl⟩

/-- The clock has not moved. -/
structure Stopped (h h' : Host env rt) : Prop where
  counter : h'.server.cycleCounter = h.server.cycleCounter
  pending : h'.server.pendingSelfDrivenNoopCycles = h.server.pendingSelfDrivenNoopCycles
  greeted : h'.server.handshakeComplete = h.server.handshakeComplete

theorem Spares.stopped {h h' : Host env rt} (hs : Spares dial h h') : Stopped h h' := by
  have hsee := hs.see
  simp only [dial, settings, Prod.mk.injEq] at hsee
  exact ⟨hsee.1, hsee.2.1, hsee.2.2⟩

section

variable {h h' : Host env rt}

/-- A request other than a cycle. -/
theorem request_spares {W : Watch} (hS : W.Sedentary) (hH : W.Heedless)
    (ht : ∀ p ∈ [axisRegisteredPrefix, axisPerturbedPrefix, perturbFromRawPrefix],
      ∀ w ∈ W.texts, Apart p w)
    (hs : ∀ s n, W.see { s with axisRegisterCount := n } = W.see s) {q : Request}
    (hq : q ≠ .advance) : Within (Spares W) (q.run : Op env rt PUnit) := by
  cases q with
  | registerAxis m =>
    exact within_bind (spares_registerAxis (ht _ (by simp)) hs) fun _ => within_pure
  | perturb m => exact within_bind (spares_perturb (ht _ (by simp))) fun _ => within_pure
  | perturbFromRaw m =>
    exact within_bind (spares_perturbFromRaw (ht _ (by simp))) fun _ => within_pure
  | advance => exact absurd rfl hq
  | submitMutation m => exact within_bind (spares_handleSubmitMutation hH hS) fun _ => within_pure

theorem spares_runCycle {W : Watch} (hS : W.Sedentary)
    (ht : ∀ w ∈ W.texts, Apart cycleAdvancedType w)
    (hc : ∀ s c, W.see { s with cycleCounter := c } = W.see s) :
    Within (Spares W) (runCycle : Op env rt (AdvanceResponse rt)) := by
  rw [runCycle_eq]
  exact within_bind (spares_countCycle ht hc) fun _ =>
    within_bind (within_attempt hS.runMigrationStep) fun _ => within_pure

theorem spares_advance {W : Watch} (hS : W.Sedentary)
    (ht : ∀ w ∈ W.texts, Apart cycleAdvancedType w)
    (hc : ∀ s c, W.see { s with cycleCounter := c } = W.see s) :
    Within (Spares W) (advance : Op env rt (AdvanceResponse rt)) := by
  refine within_bind within_get fun h => ?_
  split
  · exact within_throw
  · exact spares_runCycle hS ht hc

theorem spares_tick {W : Watch} (hS : W.Sedentary)
    (ht : ∀ w ∈ W.texts, Apart cycleAdvancedType w)
    (hc : ∀ s c, W.see { s with cycleCounter := c } = W.see s)
    (hp : ∀ s n, W.see { s with pendingSelfDrivenNoopCycles := n } = W.see s) {selfDriven : Bool} :
    Within (Spares W) (tick selfDriven : Op env rt (Option (AdvanceResponse rt))) := by
  have hdrive : Within (Spares W) (drive : Op env rt (Option (AdvanceResponse rt))) := by
    refine within_bind within_get fun h => ?_
    split
    · exact within_bind (spares_modify (fun _ => rfl) fun s => hp (settings s) _) fun _ =>
        within_pure
    · exact within_bind (within_attempt (spares_flush ht hc hp)) fun _ =>
        within_bind (within_attempt (spares_runCycle hS ht hc)) fun _ => within_pure
  refine within_bind within_get fun h => ?_
  split
  · exact within_bind hdrive fun _ => within_bind hS.checkMigrationWindow fun _ => within_pure
  · exact within_bind within_pure fun _ => within_bind hS.checkMigrationWindow fun _ => within_pure

theorem request_stopped {q : Request} (hq : q ≠ .advance) {r : Except SubstrateError PUnit}
    (he : q.run.exec h = some (r, h')) : Stopped h h' :=
  (request_spares sedentary_dial heedless_dial (by decide) (fun _ _ => rfl) hq _ _ _ he).stopped

/-- What is pending has been sealed, if anything was: the counter has moved by as many cycles, or
not at all. -/
structure Sealing (h h' : Host env rt) : Prop where
  pending : h'.server.pendingSelfDrivenNoopCycles = 0
  counter : h'.server.cycleCounter = h.server.cycleCounter ∨ h'.server.cycleCounter =
    saturatingAdd h.server.cycleCounter h.server.pendingSelfDrivenNoopCycles

structure Flushed (h h' : Host env rt) : Prop extends Sealing h h' where
  greeted : h'.server.handshakeComplete = h.server.handshakeComplete

theorem exec_setting {g : ServerState env → ServerState env} {r : Except SubstrateError PUnit}
    (he : (onServer (modify g) : Op env rt PUnit).exec h = some (r, h')) :
    r = .ok ⟨⟩ ∧ h' = { h with server := g h.server } := by
  obtain ⟨s, h1, rfl⟩ := exec_onServer.1 he
  cases h1
  exact ⟨rfl, rfl⟩

/-- The counter is set and an event says so. -/
theorem exec_sealing {α : Type} {m : Op env rt α} {next prior : UInt64}
    {r : Except SubstrateError α} (he : ((do
      onServer (modify fun s => { s with cycleCounter := next })
      emit cycleAdvancedType (encodeCycleAdvanced prior next)
      m : Op env rt α)).exec h = some (r, h')) :
    ∃ x t, (emit cycleAdvancedType (encodeCycleAdvanced prior next)).exec
      { h with server := { h.server with cycleCounter := next } } = some (x, t) ∧
      m.exec t = some (r, h') := by
  rcases Prog.exec_bind_eq_some.1 he with ⟨e, h1, -⟩ | ⟨_, t, h1, h2⟩
  · cases (exec_setting h1).1
  obtain ⟨-, rfl⟩ := exec_setting h1
  obtain ⟨_, u, h3, h4⟩ := succeeds_emit.exec_bind h2
  exact ⟨_, u, h3, h4⟩

theorem emit_stopped {content : Bytes} {r : Except SubstrateError PUnit}
    (he : (emit cycleAdvancedType content).exec h = some (r, h')) : Stopped h h' :=
  (spares_emit (W := dial) (not_watched_type (by decide)) _ _ _ he).stopped

theorem flush_clock {r : Except SubstrateError PUnit}
    (he : flushPendingSelfDriven.exec h = some (r, h')) : r = .ok ⟨⟩ ∧ Flushed h h' := by
  rw [flushPendingSelfDriven, Prog.exec_get_bind] at he
  split at he
  · obtain ⟨rfl, rfl⟩ := exec_setting he
    exact ⟨rfl, ⟨rfl, .inl rfl⟩, rfl⟩
  · obtain ⟨_, t, h1, h2⟩ := exec_sealing he
    have hs := emit_stopped h1
    obtain ⟨rfl, rfl⟩ := exec_setting h2
    exact ⟨rfl, ⟨rfl, .inr hs.counter⟩, hs.greeted⟩

/-- What a cycle answers of itself. -/
structure Scanned (counter : UInt64) (response : AdvanceResponse rt) : Prop where
  cycleNumber : response.cycleNumber = counter + 1
  pruneScan : shouldRunPruneScan (counter + 1) = true → response.pruneScan.isSome

theorem settleCycle_scanned {start : Int64} {cycle : UInt64} {pending : List NodeHash}
    {breaches : List String} {report : AdvanceReport rt} {s t : ServerState env}
    {a : AdvanceResponse rt}
    (he : (settleCycle start (cycle + 1) pending breaches report).exec s = some (.ok a, t)) :
    Scanned cycle a := by
  rw [settleCycle] at he
  rcases Prog.exec_bind_eq_some.1 he with ⟨e, -, hx⟩ | ⟨hashes, u, -, h2⟩
  · cases hx
  rcases Prog.exec_bind_eq_some.1 h2 with ⟨e, -, hx⟩ | ⟨absorption, v, -, h4⟩
  · cases hx
  rw [Prog.exec_get_bind] at h4
  obtain ⟨pruneScan, w, h5, h6⟩ := succeeds_pruneStep.exec_bind h4
  rcases Prog.exec_bind_eq_some.1 h6 with ⟨e, -, hx⟩ | ⟨now, x, -, h8⟩
  · cases hx
  obtain ⟨_, y, -, h10⟩ := succeeds_detectBacklog.exec_bind h8
  obtain ⟨_, z, -, h12⟩ := succeeds_applyHungerAndEmit.exec_bind h10
  cases h12
  refine ⟨rfl, fun hs => ?_⟩
  show pruneScan.isSome = true
  rw [pruneStep, if_pos hs] at h5
  rcases Prog.exec_bind_eq_some.1 h5 with ⟨e, -, hx⟩ | ⟨_, _, -, h7⟩
  · cases hx
  rcases Prog.exec_bind_eq_some.1 h7 with ⟨e, -, hx⟩ | ⟨_, _, -, h9⟩
  · cases hx
  cases h9
  rfl

theorem handleAdvance_scanned {a : AdvanceResponse rt}
    (he : handleAdvanceRequest.exec h = some (.ok a, h')) : Scanned h.server.cycleCounter a := by
  rw [handleAdvanceRequest] at he
  rcases Prog.exec_bind_eq_some.1 he with ⟨e, -, hx⟩ | ⟨start, t, h1, h2⟩
  · cases hx
  have hclock : Stopped h t :=
    ((leaves_onServer (W := dial) aside_readClock _ _ _ h1).spares).stopped
  rw [Prog.exec_get_bind] at h2
  dsimp only at h2
  split at h2
  · cases (failCycle_exec h2).1.choose_spec
  · rcases Prog.exec_bind_eq_some.1 h2 with ⟨e, -, hx⟩ | ⟨report, u, -, h4⟩
    · cases hx
    obtain ⟨s, h5, -⟩ := exec_onServer.1 h4
    exact hclock.counter ▸ settleCycle_scanned h5

/-- A cycle that is answered moves the counter by one, and a cycle that fails leaves the clock. -/
structure Cycling (h : Host env rt) (r : Except SubstrateError (AdvanceResponse rt))
    (h' : Host env rt) : Prop where
  pending : h'.server.pendingSelfDrivenNoopCycles = h.server.pendingSelfDrivenNoopCycles
  greeted : h'.server.handshakeComplete = h.server.handshakeComplete
  counter : h'.server.cycleCounter = match r with
    | .ok _ => saturatingAdd h.server.cycleCounter 1
    | .error _ => h.server.cycleCounter
  scanned : ∀ a, r = .ok a → Scanned h.server.cycleCounter a

theorem runCycle_clock {r : Except SubstrateError (AdvanceResponse rt)}
    (he : runCycle.exec h = some (r, h')) : Cycling h r h' := by
  rw [runCycle_eq, countCycle, bind_assoc] at he
  rcases Prog.exec_bind_eq_some.1 he with ⟨e, h1, rfl⟩ | ⟨response, t, h1, h2⟩
  · have hs := (spares_handleAdvanceRequest (W := dial) _ _ _ h1).stopped
    exact ⟨hs.pending, hs.greeted, hs.counter, fun _ ha => by cases ha⟩
  have hs := (spares_handleAdvanceRequest (W := dial) _ _ _ h1).stopped
  simp only [bind_assoc, pure_bind] at h2
  rw [Prog.exec_get_bind] at h2
  obtain ⟨_, u, h7, h3⟩ := exec_sealing h2
  have hu := emit_stopped h7
  obtain ⟨x, v, h4, h5⟩ := succeeds_attempt.exec_bind h3
  obtain ⟨y, h6, -⟩ := Prog.exec_attempt_eq_some.1 h4
  cases h5
  have hm := (sedentary_dial.runMigrationStep _ _ _ h6).stopped
  refine ⟨hm.pending.trans (hu.pending.trans hs.pending),
    hm.greeted.trans (hu.greeted.trans hs.greeted), ?_, ?_⟩
  · show h'.server.cycleCounter = saturatingAdd h.server.cycleCounter 1
    rw [hm.counter, hu.counter, ← hs.counter]
  · rintro a ⟨⟩
    exact handleAdvance_scanned h1

theorem advance_clock {r : Except SubstrateError (AdvanceResponse rt)}
    (he : advance.exec h = some (r, h')) : Cycling h r h' := by
  rw [advance, Prog.exec_get_bind] at he
  split at he
  · cases he
    exact ⟨rfl, rfl, rfl, fun _ ha => by cases ha⟩
  · exact runCycle_clock he

/-! ### Ticking -/

/-- What a self-driven cycle does to the clock. -/
inductive Driving (h : Host env rt) : Option (AdvanceResponse rt) → Host env rt → Prop
  | counted {h' : Host env rt} : countsIdle h.server →
      h'.server.cycleCounter = h.server.cycleCounter →
      h'.server.pendingSelfDrivenNoopCycles = h.server.pendingSelfDrivenNoopCycles + 1 →
      Driving h none h'
  | ran {t h' : Host env rt} {r : Except SubstrateError (AdvanceResponse rt)} :
      ¬ countsIdle h.server → Flushed h t → Cycling t r h' → Driving h r.toOption h'

theorem drive_clock {r : Except SubstrateError (Option (AdvanceResponse rt))}
    (he : drive.exec h = some (r, h')) : ∃ a, r = .ok a ∧ Driving h a h' := by
  rw [drive, Prog.exec_get_bind] at he
  split at he
  · rename_i hc
    rcases Prog.exec_bind_eq_some.1 he with ⟨e, h1, -⟩ | ⟨_, t, h1, h2⟩
    · cases (exec_setting h1).1
    · obtain ⟨-, rfl⟩ := exec_setting h1
      cases h2
      exact ⟨none, rfl, .counted hc rfl rfl⟩
  · rename_i hc
    obtain ⟨x, t, h1, h2⟩ := succeeds_attempt.exec_bind he
    obtain ⟨y, h3, -⟩ := Prog.exec_attempt_eq_some.1 h1
    obtain ⟨z, u, h4, h5⟩ := succeeds_attempt.exec_bind h2
    obtain ⟨r, h6, hz⟩ := Prog.exec_attempt_eq_some.1 h4
    cases hz
    cases h5
    exact ⟨_, rfl, .ran hc (flush_clock h3).2 (runCycle_clock h6)⟩

/-- A tick drives a cycle or leaves the clock as it is. -/
inductive Ticking (selfDriven : Bool) (h : Host env rt) :
    Option (AdvanceResponse rt) → Host env rt → Prop
  | drove {a : Option (AdvanceResponse rt)} {h' : Host env rt} : selfDriven = true →
      ¬ isArchived h.server → Driving h a h' → Ticking selfDriven h a h'
  | idle {h' : Host env rt} : Stopped h h' → Ticking selfDriven h none h'

theorem tick_clock {selfDriven : Bool} {a : Option (AdvanceResponse rt)}
    (he : (tick selfDriven).exec h = some (.ok a, h')) : Ticking selfDriven h a h' := by
  have hchecked : ∀ {b : Option (AdvanceResponse rt)} {t : Host env rt},
      ((do checkMigrationWindow; pure b : Op env rt (Option (AdvanceResponse rt)))).exec t =
        some (.ok a, h') → b = a ∧ Stopped t h' := by
    intro b t he
    rcases Prog.exec_bind_eq_some.1 he with ⟨e, -, hx⟩ | ⟨_, u, h1, h2⟩
    · cases hx
    · cases h2
      exact ⟨rfl, (sedentary_dial.checkMigrationWindow _ _ _ h1).stopped⟩
  rw [tick, Prog.exec_get_bind] at he
  split at he
  · rename_i hdrives
    rcases Prog.exec_bind_eq_some.1 he with ⟨e, -, hx⟩ | ⟨b, t, h1, h2⟩
    · cases hx
    obtain ⟨rfl, hs⟩ := hchecked h2
    obtain ⟨c, hb, hd⟩ := drive_clock h1
    cases hb
    refine .drove hdrives.1 hdrives.2.2 ?_
    cases hd with
    | counted hc hcounter hpending =>
      exact .counted hc (hs.counter.trans hcounter) (hs.pending.trans hpending)
    | ran hc hsealed hcycling =>
      exact .ran hc hsealed ⟨hs.pending.trans hcycling.pending, hs.greeted.trans hcycling.greeted,
        hs.counter.trans hcycling.counter, hcycling.scanned⟩
  · rw [pure_bind] at he
    obtain ⟨rfl, hs⟩ := hchecked he
    exact .idle hs

end

/-! ### What a round does to the clock -/

/-- The round counts an idle cycle. -/
def Idles (e : Event) (s : ServerState env) : Prop :=
  e = .tick true ∧ ¬ isArchived s ∧ countsIdle s

inductive Moves (e : Event) (h : Host env rt) : Option (RealCycle rt) → Host env rt → Prop
  | stopped {h' : Host env rt} : h'.server.cycleCounter = h.server.cycleCounter →
      h'.server.pendingSelfDrivenNoopCycles = h.server.pendingSelfDrivenNoopCycles →
      Moves e h none h'
  | counted {h' : Host env rt} : Idles e h.server →
      h'.server.cycleCounter = h.server.cycleCounter →
      h'.server.pendingSelfDrivenNoopCycles = h.server.pendingSelfDrivenNoopCycles + 1 →
      Moves e h none h'
  | sealed {h' : Host env rt} : Sealing h h' → Moves e h none h'
  | cycled {t h' : Host env rt} {a : AdvanceResponse rt} : Sealing h t →
      h'.server.pendingSelfDrivenNoopCycles = 0 →
      h'.server.cycleCounter = saturatingAdd t.server.cycleCounter 1 →
      Scanned t.server.cycleCounter a → Moves e h (some ⟨a, h'.server.cycleCounter⟩) h'

section

variable {e : Event} {h t h' : Host env rt}

theorem Sealing.stopped (hs : Sealing h t) (hst : Stopped t h') : Sealing h h' := by
  refine ⟨hst.pending.trans hs.pending, ?_⟩
  rw [hst.counter]
  exact hs.counter

theorem Sealing.cycling (hs : Sealing h t) {r : Except SubstrateError (AdvanceResponse rt)}
    (hc : Cycling t r h') :
    Moves e h (r.toOption.map (⟨·, h'.server.cycleCounter⟩)) h' := by
  have hpending : h'.server.pendingSelfDrivenNoopCycles = 0 := hc.pending.trans hs.pending
  cases r with
  | ok a => exact .cycled hs hpending hc.counter (hc.scanned a rfl)
  | error _ =>
    have hcounter : h'.server.cycleCounter = t.server.cycleCounter := hc.counter
    refine .sealed ⟨hpending, ?_⟩
    rw [hcounter]
    exact hs.counter

theorem moves_of_tick {selfDriven : Bool} {a : Option (AdvanceResponse rt)}
    (he : (tick selfDriven).exec h = some (.ok a, h')) :
    Moves (.tick selfDriven) h (a.map (⟨·, h'.server.cycleCounter⟩)) h' := by
  cases tick_clock he with
  | drove hb ha hd =>
    cases hd with
    | counted hc hcounter hpending => exact .counted ⟨by rw [hb], ha, hc⟩ hcounter hpending
    | ran _ hs hc => exact hs.toSealing.cycling hc
  | idle hs => exact .stopped hs.counter hs.pending

theorem Round.moves {m m' : Machine env rt} {x : Event × Option (RealCycle rt)}
    (hr : Round m x m') : Moves x.1 m.host x.2 m'.host := by
  cases hr with
  | advance _ hf ha => exact (flush_clock hf).2.toSealing.cycling (advance_clock ha)
  | request hq _ hf he =>
    exact .sealed ((flush_clock hf).2.toSealing.stopped (request_stopped hq he))
  | flush hf => exact .sealed (flush_clock hf).2.toSealing
  | tick _ he => exact moves_of_tick he
  | other hs =>
    cases hs with
    | other ha =>
      have hsee := ha.see
      simp only [vital, settings, Prod.mk.injEq] at hsee
      exact .stopped hsee.1.1 hsee.1.2.2.1
  | workerExit hs =>
    cases hs
    exact .stopped rfl rfl
  | hello hs =>
    cases hs
    exact .stopped rfl rfl

end

/-! ### Rounds are runs -/

/-- A round is its event's step, or the sealing of what is pending and then that step. -/
theorem Round.steps {m m' : Machine env rt} {x : Event × Option (RealCycle rt)}
    (hr : Round m x m') : Step m x.1 m' ∨ ∃ u, Step m .flush u ∧ Step u x.1 m' := by
  cases hr with
  | advance hg hf ha =>
    rename_i h h' answer
    have hs := (flush_clock hf).2
    refine .inr ⟨_, .flush hf, .request (m := { m with host := h }) (hs.greeted.trans hg)
      hs.pending ?_⟩
    rw [Request.run, Prog.exec_bind, ha]
    cases answer <;> rfl
  | request hq hg hf he =>
    rename_i q answer h h'
    have hs := (flush_clock hf).2
    exact .inr ⟨_, .flush hf, .request (m := { m with host := h }) (hs.greeted.trans hg)
      hs.pending he⟩
  | flush hf => exact .inl (.flush hf)
  | tick hg he =>
    rename_i b answer h
    have hexec : (autonomousTick b).exec m.host = some (.ok ⟨⟩, h) := by
      rw [autonomousTick_eq, Prog.exec_bind, he]
      rfl
    exact .inl (.tick hg hexec)
  | other hs => exact .inl hs
  | workerExit hs => exact .inl hs
  | hello hs => exact .inl hs

/-- What is sealed, and then what the event tells. -/
def Seals (e : Event) (ds : List (Deed rt)) : Prop :=
  e.Tells ds ∨ ∃ es fs, Flushes es ∧ e.Tells fs ∧ ds = es ++ fs

theorem Round.performs {m m' : Machine env rt} {x : Event × Option (RealCycle rt)}
    (hr : Round m x m') (hstart : ¬ x.1.Starts) :
    Unless HostCollided (PerformsOne (Seals x.1)) m.host m'.host := by
  rcases hr.steps with hs | ⟨u, hf, hs⟩
  · exact (step_performs hs hstart).imp fun ⟨ds, hds, hp⟩ => ⟨ds, .inl hds, hp⟩
  · refine (step_performs hf id).trans (step_performs hs hstart) ?_
    rintro ⟨es, hes, hp⟩ ⟨fs, hfs, hp'⟩
    exact ⟨es ++ fs, .inr ⟨es, fs, hes, hfs, rfl⟩, hp.append hp'⟩

/-- The steps of rounds are their events, and sealings. -/
theorem Rounds.run {m m' : Machine env rt} {xs : List (Event × Option (RealCycle rt))}
    (hr : Rounds m xs m') : ∃ es, Run m es m' ∧ ∀ e ∈ es, e = .flush ∨ ∃ x ∈ xs, x.1 = e := by
  induction hr with
  | nil => exact ⟨[], .nil, nofun⟩
  | @cons m u m' x xs hround _ ih =>
    obtain ⟨fs, h2, hfs⟩ := ih
    have hlater : ∀ e ∈ fs, e = .flush ∨ ∃ y ∈ x :: xs, y.1 = e := fun e he =>
      (hfs e he).imp id fun ⟨y, hy, hye⟩ => ⟨y, List.mem_cons_of_mem _ hy, hye⟩
    have hfirst : x.1 = .flush ∨ ∃ y ∈ x :: xs, y.1 = x.1 := .inr ⟨x, List.mem_cons_self, rfl⟩
    rcases hround.steps with hs | ⟨v, hf, hs⟩
    · exact ⟨x.1 :: fs, .cons hs h2, List.forall_mem_cons.2 ⟨hfirst, hlater⟩⟩
    · exact ⟨.flush :: x.1 :: fs, .cons hf (.cons hs h2),
        List.forall_mem_cons.2 ⟨.inl rfl, List.forall_mem_cons.2 ⟨hfirst, hlater⟩⟩⟩

/-! ### A new substrate -/

theorem greetedIn_rounds {env : Env}
    (hrun : Run (.boot noFiles .new) [.other, .hello] (greetedIn env)) :
    Rounds (.boot noFiles .new) [(.other, none), (.hello, none)] (greetedIn env) := by
  obtain ⟨m, h1, h2⟩ := Path.cons_iff.1 hrun
  obtain ⟨m', h3, h4⟩ := Path.cons_iff.1 h2
  cases Path.nil_iff.1 h4
  exact .cons (.other h1) (.cons (.hello h3) .nil)

theorem greeted_rounds : Rounds (.boot noFiles .new) [(.other, none), (.hello, none)] greeted :=
  greetedIn_rounds greeted_run

end Myco.Tropism
