import Mathlib.Logic.Basic

/-!
# The dormancy machine

`DormancyMachine` of `kernel/continuity/src/dormancy.rs`: the life cycle of a substrate (alive,
dormant, destroyed), the sub-states of being alive, and the history of the transitions. A call
gives its result and the machine after it.

Destroying keeps the sub-state and the mode, so that both may be left over from the life before;
clearing a quarantine looks at the sub-state alone. A record of entering or of leaving quarantine
holds the sub-state before the transition, every other record the one after it.
-/

namespace Myco.Continuity

/-- Top-level lifecycle state (L0 I1). -/
inductive LifecycleState
  | alive
  | dormant
  | destroyed
deriving DecidableEq, Repr

/-- Dormant compute mode (L1/CONTINUITY §2.4). -/
inductive DormantMode
  | throttled
  | paused
deriving DecidableEq, Repr

/-- Alive sub-state per L1/CONTINUITY §5. -/
inductive AliveSubstate
  | normal
  | quarantined
  | legacy
deriving DecidableEq, Repr

inductive DormancyTrigger
  | operatorDropped
  | idleTimeout
  | ownerCommanded
  | operatorRequested
  | handshakeAccepted
  | ownerAttestationArrived
  | skinBreachCritical
  | coldResumeFailure
  | quarantineClearance
  | ownerDestruction
deriving DecidableEq, Repr

/-- What `{:?}` prints. -/
def LifecycleState.debug : LifecycleState → String
  | .alive => "Alive"
  | .dormant => "Dormant"
  | .destroyed => "Destroyed"

def DormancyTrigger.debug : DormancyTrigger → String
  | .operatorDropped => "OperatorDropped"
  | .idleTimeout => "IdleTimeout"
  | .ownerCommanded => "OwnerCommanded"
  | .operatorRequested => "OperatorRequested"
  | .handshakeAccepted => "HandshakeAccepted"
  | .ownerAttestationArrived => "OwnerAttestationArrived"
  | .skinBreachCritical => "SkinBreachCritical"
  | .coldResumeFailure => "ColdResumeFailure"
  | .quarantineClearance => "QuarantineClearance"
  | .ownerDestruction => "OwnerDestruction"

inductive DormancyError
  | invalidTransition (fromState toState : LifecycleState) (reason : String)
  | substrateDestroyed
deriving DecidableEq, Repr

def DormancyError.message : DormancyError → String
  | .invalidTransition fromState toState reason =>
    s!"invalid transition from {fromState.debug} to {toState.debug}: {reason}"
  | .substrateDestroyed => "substrate is destroyed"

structure TransitionRecord where
  fromState : LifecycleState
  toState : LifecycleState
  aliveSubstate : AliveSubstate
  dormantMode : Option DormantMode
  trigger : DormancyTrigger
  atCycle : UInt64
deriving DecidableEq, Repr

structure DormancyMachine where
  state : LifecycleState
  aliveSubstate : AliveSubstate
  dormantMode : Option DormantMode
  lastTransitionCycle : UInt64
  transitionHistory : List TransitionRecord
deriving DecidableEq, Repr

namespace DormancyMachine

def new : DormancyMachine where
  state := .alive
  aliveSubstate := .normal
  dormantMode := none
  lastTransitionCycle := 0
  transitionHistory := []

/-! ### The transitions -/

def transitionToDormant (m : DormancyMachine) (mode : DormantMode) (trigger : DormancyTrigger)
    (atCycle : UInt64) : Except DormancyError Unit × DormancyMachine :=
  if m.state = .destroyed then (.error .substrateDestroyed, m)
  else if m.state ≠ .alive then
    (.error (.invalidTransition m.state .dormant
      s!"cannot transition to dormant from {m.state.debug}"), m)
  else
    (.ok (), { m with
      state := .dormant
      dormantMode := some mode
      lastTransitionCycle := atCycle
      transitionHistory := m.transitionHistory ++
        [⟨m.state, .dormant, m.aliveSubstate, some mode, trigger, atCycle⟩] })

def transitionToAlive (m : DormancyMachine) (trigger : DormancyTrigger) (atCycle : UInt64) :
    Except DormancyError Unit × DormancyMachine :=
  if m.state = .destroyed then (.error .substrateDestroyed, m)
  else if m.state ≠ .dormant then
    (.error (.invalidTransition m.state .alive
      s!"cannot transition to alive from {m.state.debug}"), m)
  else
    (.ok (), { m with
      state := .alive
      dormantMode := none
      lastTransitionCycle := atCycle
      transitionHistory := m.transitionHistory ++
        [⟨m.state, .alive, m.aliveSubstate, none, trigger, atCycle⟩] })

def enterQuarantine (m : DormancyMachine) (trigger : DormancyTrigger) (atCycle : UInt64) :
    Except DormancyError Unit × DormancyMachine :=
  if m.state ≠ .alive then
    (.error (.invalidTransition m.state m.state
      s!"cannot enter quarantine from {m.state.debug}; substrate must be alive"), m)
  else
    let prevSubstate := m.aliveSubstate
    (.ok (), { m with
      aliveSubstate := .quarantined
      lastTransitionCycle := atCycle
      transitionHistory := m.transitionHistory ++
        [⟨m.state, m.state, prevSubstate, none, trigger, atCycle⟩] })

/-- The lifecycle state is not looked at. -/
def clearQuarantine (m : DormancyMachine) (trigger : DormancyTrigger) (atCycle : UInt64) :
    Except DormancyError Unit × DormancyMachine :=
  if m.aliveSubstate ≠ .quarantined then
    (.error (.invalidTransition m.state m.state "not currently quarantined"), m)
  else if trigger ≠ .quarantineClearance then
    (.error (.invalidTransition m.state m.state
      s!"quarantine clearance requires QuarantineClearance trigger, got {trigger.debug}"), m)
  else
    (.ok (), { m with
      aliveSubstate := .normal
      lastTransitionCycle := atCycle
      transitionHistory := m.transitionHistory ++
        [⟨m.state, m.state, .quarantined, none, trigger, atCycle⟩] })

def destroy (m : DormancyMachine) (trigger : DormancyTrigger) (atCycle : UInt64) :
    Except DormancyError Unit × DormancyMachine :=
  if m.state = .destroyed then (.error .substrateDestroyed, m)
  else
    (.ok (), { m with
      state := .destroyed
      lastTransitionCycle := atCycle
      transitionHistory := m.transitionHistory ++
        [⟨m.state, .destroyed, m.aliveSubstate, m.dormantMode, trigger, atCycle⟩] })

end DormancyMachine

/-! ### Calls in a row -/

inductive Call
  | transitionToDormant (mode : DormantMode) (trigger : DormancyTrigger) (atCycle : UInt64)
  | transitionToAlive (trigger : DormancyTrigger) (atCycle : UInt64)
  | enterQuarantine (trigger : DormancyTrigger) (atCycle : UInt64)
  | clearQuarantine (trigger : DormancyTrigger) (atCycle : UInt64)
  | destroy (trigger : DormancyTrigger) (atCycle : UInt64)
deriving DecidableEq, Repr

namespace DormancyMachine

def call (m : DormancyMachine) : Call → Except DormancyError Unit × DormancyMachine
  | .transitionToDormant mode trigger atCycle => m.transitionToDormant mode trigger atCycle
  | .transitionToAlive trigger atCycle => m.transitionToAlive trigger atCycle
  | .enterQuarantine trigger atCycle => m.enterQuarantine trigger atCycle
  | .clearQuarantine trigger atCycle => m.clearQuarantine trigger atCycle
  | .destroy trigger atCycle => m.destroy trigger atCycle

/-- The machine after calls in a row, whatever each of them returned. -/
def run (m : DormancyMachine) (calls : List Call) : DormancyMachine :=
  calls.foldl (fun m c => (m.call c).2) m

@[simp] theorem run_nil (m : DormancyMachine) : m.run [] = m := rfl

@[simp] theorem run_cons (m : DormancyMachine) (c : Call) (cs : List Call) :
    m.run (c :: cs) = (m.call c).2.run cs := rfl

@[simp] theorem run_append (m : DormancyMachine) (cs ds : List Call) :
    m.run (cs ++ ds) = (m.run cs).run ds := by
  simp [run]

/-! ### What a call can do -/

/-- The machine moved to `toState`, with sub-state `substate` and mode `mode`; the record holds
`substate'` and `mode'`. -/
def moved (m : DormancyMachine) (toState : LifecycleState) (substate substate' : AliveSubstate)
    (mode mode' : Option DormantMode) (trigger : DormancyTrigger) (atCycle : UInt64) :
    DormancyMachine where
  state := toState
  aliveSubstate := substate
  dormantMode := mode
  lastTransitionCycle := atCycle
  transitionHistory := m.transitionHistory ++
    [⟨m.state, toState, substate', mode', trigger, atCycle⟩]

/-- The transitions, each with its guard. -/
inductive Moves (m : DormancyMachine) : Call → DormancyMachine → Prop
  | toDormant (mode trigger atCycle) : m.state = .alive →
      Moves m (.transitionToDormant mode trigger atCycle)
        (m.moved .dormant m.aliveSubstate m.aliveSubstate (some mode) (some mode) trigger atCycle)
  | toAlive (trigger atCycle) : m.state = .dormant →
      Moves m (.transitionToAlive trigger atCycle)
        (m.moved .alive m.aliveSubstate m.aliveSubstate none none trigger atCycle)
  | entered (trigger atCycle) : m.state = .alive →
      Moves m (.enterQuarantine trigger atCycle)
        (m.moved m.state .quarantined m.aliveSubstate m.dormantMode none trigger atCycle)
  | cleared (atCycle) : m.aliveSubstate = .quarantined →
      Moves m (.clearQuarantine .quarantineClearance atCycle)
        (m.moved m.state .normal m.aliveSubstate m.dormantMode none .quarantineClearance atCycle)
  | destroyed (trigger atCycle) : m.state ≠ .destroyed →
      Moves m (.destroy trigger atCycle)
        (m.moved .destroyed m.aliveSubstate m.aliveSubstate m.dormantMode m.dormantMode trigger
          atCycle)

/-- A call fails and changes nothing, or it makes its transition. -/
theorem call_cases (m : DormancyMachine) (c : Call) :
    (∃ e, m.call c = (.error e, m)) ∨ ∃ m', m.call c = (.ok (), m') ∧ m.Moves c m' := by
  cases c with
  | transitionToDormant mode trigger atCycle =>
    simp only [call, transitionToDormant]
    by_cases hd : m.state = .destroyed
    · exact .inl ⟨_, if_pos hd⟩
    rw [if_neg hd]
    by_cases ha : m.state = .alive
    · rw [if_neg (not_not.2 ha)]
      exact .inr ⟨_, rfl, .toDormant mode trigger atCycle ha⟩
    · exact .inl ⟨_, if_pos ha⟩
  | transitionToAlive trigger atCycle =>
    simp only [call, transitionToAlive]
    by_cases hd : m.state = .destroyed
    · exact .inl ⟨_, if_pos hd⟩
    rw [if_neg hd]
    by_cases ha : m.state = .dormant
    · rw [if_neg (not_not.2 ha)]
      exact .inr ⟨_, rfl, .toAlive trigger atCycle ha⟩
    · exact .inl ⟨_, if_pos ha⟩
  | enterQuarantine trigger atCycle =>
    simp only [call, enterQuarantine]
    by_cases ha : m.state = .alive
    · rw [if_neg (not_not.2 ha)]
      exact .inr ⟨_, rfl, .entered trigger atCycle ha⟩
    · exact .inl ⟨_, if_pos ha⟩
  | clearQuarantine trigger atCycle =>
    simp only [call, clearQuarantine]
    by_cases hq : m.aliveSubstate = .quarantined
    · rw [if_neg (not_not.2 hq)]
      by_cases ht : trigger = .quarantineClearance
      · subst ht
        rw [if_neg (not_not.2 rfl), ← hq]
        exact .inr ⟨_, rfl, .cleared atCycle hq⟩
      · exact .inl ⟨_, if_pos ht⟩
    · exact .inl ⟨_, if_pos hq⟩
  | destroy trigger atCycle =>
    simp only [call, destroy]
    by_cases hd : m.state = .destroyed
    · exact .inl ⟨_, if_pos hd⟩
    · rw [if_neg hd]
      exact .inr ⟨_, rfl, .destroyed trigger atCycle hd⟩

theorem call_error {m : DormancyMachine} {c : Call} {e : DormancyError}
    (h : (m.call c).1 = .error e) : (m.call c).2 = m := by
  obtain ⟨e', hc⟩ | ⟨m', hc, -⟩ := m.call_cases c
  · rw [hc]
  · rw [hc] at h
    cases h

theorem call_ok {m : DormancyMachine} {c : Call} (h : (m.call c).1 = .ok ()) :
    m.Moves c (m.call c).2 := by
  obtain ⟨e, hc⟩ | ⟨m', hc, hm⟩ := m.call_cases c
  · rw [hc] at h
    cases h
  · rw [hc]
    exact hm

/-- What holds at the start and across every transition holds after any calls. -/
theorem run_induction {P : DormancyMachine → Prop} {m : DormancyMachine} (h0 : P m)
    (step : ∀ {m c m'}, Moves m c m' → P m → P m') (calls : List Call) : P (m.run calls) := by
  induction calls generalizing m with
  | nil => exact h0
  | cons c cs ih =>
    rw [run_cons]
    obtain ⟨e, hc⟩ | ⟨m', hc, hm⟩ := m.call_cases c
    · rw [hc]
      exact ih h0
    · rw [hc]
      exact ih (step hm h0)

/-! ### What holds after any calls -/

/-- Records that lead from `s` to `t`, each starting where the one before it ended. -/
def Linked (s : LifecycleState) : List TransitionRecord → LifecycleState → Prop
  | [], t => s = t
  | r :: rs, t => r.fromState = s ∧ Linked r.toState rs t

theorem linked_snoc {s t : LifecycleState} {rs : List TransitionRecord} (h : Linked s rs t)
    {r : TransitionRecord} (hr : r.fromState = t) : Linked s (rs ++ [r]) r.toState := by
  induction rs generalizing s with
  | nil => exact ⟨hr.trans h.symm, rfl⟩
  | cons _ _ ih => exact ⟨h.1, ih h.2⟩

/-- The mode follows the state as long as the substrate is not destroyed, and the history leads
from birth to the state. -/
structure Coherent (m : DormancyMachine) : Prop where
  dormant : m.state = .dormant → m.dormantMode.isSome
  alive : m.state = .alive → m.dormantMode = none
  linked : Linked .alive m.transitionHistory m.state

theorem coherent_new : Coherent new where
  dormant := fun h => by cases h
  alive := fun _ => rfl
  linked := rfl

theorem Moves.coherent {m m' : DormancyMachine} {c : Call} (hm : m.Moves c m')
    (h : Coherent m) : Coherent m' := by
  cases hm with
  | toDormant mode _ _ _ => exact ⟨fun _ => rfl, fun ha => (by cases ha), linked_snoc h.linked rfl⟩
  | toAlive _ _ _ => exact ⟨fun hd => (by cases hd), fun _ => rfl, linked_snoc h.linked rfl⟩
  | entered _ _ _ => exact ⟨h.dormant, h.alive, linked_snoc h.linked rfl⟩
  | cleared _ _ => exact ⟨h.dormant, h.alive, linked_snoc h.linked rfl⟩
  | destroyed _ _ _ =>
    exact ⟨fun hd => (by cases hd), fun ha => (by cases ha), linked_snoc h.linked rfl⟩

theorem coherent_run (calls : List Call) : Coherent (new.run calls) :=
  run_induction coherent_new Moves.coherent calls

/-- The one call that a destroyed machine can still make is to clear the quarantine it was destroyed
in. -/
def Clears (m : DormancyMachine) (c : Call) : Prop :=
  m.aliveSubstate = .quarantined ∧ ∃ atCycle, c = .clearQuarantine .quarantineClearance atCycle

/-- Destroyed, and quarantined only where `m` is, and in a mode only where `m` has one. -/
structure Remains (m m' : DormancyMachine) : Prop where
  state : m'.state = .destroyed
  quarantined : m'.aliveSubstate = .quarantined → m.aliveSubstate = .quarantined
  mode : m'.dormantMode = m.dormantMode

theorem Moves.remains_of_destroy {m m' : DormancyMachine} {trigger : DormancyTrigger}
    {atCycle : UInt64} (hm : m.Moves (.destroy trigger atCycle) m') : m.Remains m' := by
  cases hm
  exact ⟨rfl, id, rfl⟩

/-- No transition leads out of `destroyed`, and none into a quarantine there. -/
theorem Remains.moves {m m' m'' : DormancyMachine} {c : Call} (hm : m'.Moves c m'')
    (h : m.Remains m') : m.Remains m'' := by
  cases hm with
  | toDormant _ _ _ ha => exact absurd (h.state.symm.trans ha) (by decide)
  | toAlive _ _ hd => exact absurd (h.state.symm.trans hd) (by decide)
  | entered _ _ ha => exact absurd (h.state.symm.trans ha) (by decide)
  | cleared _ _ => exact ⟨h.state, nofun, h.mode⟩
  | destroyed _ _ hd => exact absurd h.state hd

theorem call_of_destroyed {m : DormancyMachine} {c : Call} (h : m.state = .destroyed) :
    (∃ e, (m.call c).1 = .error e) ∨ m.Clears c := by
  obtain ⟨e, he⟩ | ⟨m', -, hm⟩ := m.call_cases c
  · exact .inl ⟨e, by rw [he]⟩
  · cases hm with
    | toDormant _ _ _ ha => exact absurd (h.symm.trans ha) (by decide)
    | toAlive _ _ hd => exact absurd (h.symm.trans hd) (by decide)
    | entered _ _ ha => exact absurd (h.symm.trans ha) (by decide)
    | cleared atCycle hq => exact .inr ⟨hq, atCycle, rfl⟩
    | destroyed _ _ hd => exact absurd h hd

/-- What the record of a transition from `m` to `m'` says of the sub-state and the mode: of entering
or clearing a quarantine the sub-state given up, and no mode, and of the other transitions what is in
force after them. -/
def Records (m : DormancyMachine) (c : Call) (m' : DormancyMachine) (r : TransitionRecord) :
    Prop :=
  match c with
  | .enterQuarantine _ _ => r.aliveSubstate = m.aliveSubstate ∧ r.dormantMode = m'.dormantMode
  | .clearQuarantine _ _ => r.aliveSubstate = m.aliveSubstate ∧
    (m.dormantMode = none → r.dormantMode = m'.dormantMode)
  | _ => r.aliveSubstate = m'.aliveSubstate ∧ r.dormantMode = m'.dormantMode

theorem Moves.records {m m' : DormancyMachine} {c : Call} (hm : m.Moves c m')
    (h : Coherent m) : ∃ r, m'.transitionHistory = m.transitionHistory ++ [r] ∧
      r.fromState = m.state ∧ r.toState = m'.state ∧ Records m c m' r := by
  cases hm with
  | toDormant _ _ _ _ => exact ⟨_, rfl, rfl, rfl, rfl, rfl⟩
  | toAlive _ _ _ => exact ⟨_, rfl, rfl, rfl, rfl, rfl⟩
  | entered _ _ ha => exact ⟨_, rfl, rfl, rfl, rfl, (h.alive ha).symm⟩
  | cleared _ _ => exact ⟨_, rfl, rfl, rfl, rfl, Eq.symm⟩
  | destroyed _ _ _ => exact ⟨_, rfl, rfl, rfl, rfl, rfl⟩

/-- After any calls: the machine is coherent; a failed call changes nothing; a call that succeeds
adds one record, of its transition; once `destroy` has succeeded every call fails, but for clearing
the quarantine that the machine was destroyed in; and a machine destroyed while alive has no mode. -/
theorem transitions_after_any_calls (calls : List Call) :
    Coherent (new.run calls) ∧
    (∀ c e, ((new.run calls).call c).1 = .error e →
      ((new.run calls).call c).2 = new.run calls) ∧
    (∀ c, ((new.run calls).call c).1 = .ok () →
      ∃ r, ((new.run calls).call c).2.transitionHistory =
          (new.run calls).transitionHistory ++ [r] ∧
        r.fromState = (new.run calls).state ∧
        r.toState = ((new.run calls).call c).2.state ∧
        Records (new.run calls) c ((new.run calls).call c).2 r) ∧
    (∀ trigger atCycle, ((new.run calls).call (.destroy trigger atCycle)).1 = .ok () →
      ∀ later,
        (new.run (calls ++ .destroy trigger atCycle :: later)).state = .destroyed ∧
        (∀ c, (∃ e, ((new.run (calls ++ .destroy trigger atCycle :: later)).call c).1 = .error e) ∨
          (new.run calls).aliveSubstate = .quarantined ∧
            (new.run (calls ++ .destroy trigger atCycle :: later)).Clears c) ∧
        ((new.run calls).state = .alive →
          (new.run (calls ++ .destroy trigger atCycle :: later)).dormantMode = none)) := by
  have hcoherent := coherent_run calls
  refine ⟨hcoherent, fun _ _ => call_error, fun _ hc => (call_ok hc).records hcoherent,
    fun trigger atCycle hd later => ?_⟩
  have h : (new.run calls).Remains (new.run (calls ++ .destroy trigger atCycle :: later)) := by
    rw [run_append, run_cons]
    exact run_induction (call_ok hd).remains_of_destroy Remains.moves later
  refine ⟨h.state, fun c => ?_, fun halive => h.mode.trans (hcoherent.alive halive)⟩
  rcases call_of_destroyed (c := c) h.state with herror | hclears
  · exact .inl herror
  · exact .inr ⟨h.quarantined hclears.1, hclears⟩

theorem transitions_after_dormancy :
    (∃ e, ((new.run ([.enterQuarantine .skinBreachCritical 1] ++ .destroy .ownerDestruction 2 ::
      [.clearQuarantine .quarantineClearance 3])).call (.clearQuarantine .quarantineClearance 4)).1 =
        .error e) ∧
    (new.run ([.enterQuarantine .skinBreachCritical 1] ++ .destroy .ownerDestruction 2 ::
      [.clearQuarantine .quarantineClearance 3])).dormantMode = none ∧
    (∃ r, ((new.run [.transitionToDormant .paused .idleTimeout 1]).call
      (.transitionToAlive .handshakeAccepted 2)).2.transitionHistory =
        (new.run [.transitionToDormant .paused .idleTimeout 1]).transitionHistory ++ [r] ∧
      r.toState = .alive) := by
  obtain ⟨-, -, -, hdestroy⟩ := transitions_after_any_calls [.enterQuarantine .skinBreachCritical 1]
  obtain ⟨-, -, hrecord, -⟩ :=
    transitions_after_any_calls [.transitionToDormant .paused .idleTimeout 1]
  obtain ⟨-, hcalls, hmode⟩ :=
    hdestroy .ownerDestruction 2 rfl [.clearQuarantine .quarantineClearance 3]
  obtain ⟨r, hr, -, hto, -⟩ := hrecord (.transitionToAlive .handshakeAccepted 2) rfl
  refine ⟨(hcalls (.clearQuarantine .quarantineClearance 4)).resolve_right ?_, hmode rfl, r, hr, hto⟩
  rintro ⟨-, hquarantined, -⟩
  exact absurd hquarantined (by decide)

/-- The record of entering a quarantine holds the sub-state left; a destroyed substrate can still
leave its quarantine; and one destroyed while dormant keeps its mode. -/
theorem transitions_off_the_record :
    ((new.run [.enterQuarantine .skinBreachCritical 1]).transitionHistory.map
        (·.aliveSubstate) = [.normal] ∧
      (new.run [.enterQuarantine .skinBreachCritical 1]).aliveSubstate = .quarantined) ∧
    ((new.run [.enterQuarantine .skinBreachCritical 1, .destroy .ownerDestruction 2]).state =
        .destroyed ∧
      ((new.run [.enterQuarantine .skinBreachCritical 1, .destroy .ownerDestruction 2]).call
        (.clearQuarantine .quarantineClearance 3)).1 = .ok ()) ∧
    ((new.run [.transitionToDormant .paused .idleTimeout 1, .destroy .ownerDestruction 2]).state =
        .destroyed ∧
      (new.run [.transitionToDormant .paused .idleTimeout 1,
        .destroy .ownerDestruction 2]).dormantMode = some .paused) := by
  refine ⟨⟨rfl, rfl⟩, ⟨rfl, rfl⟩, rfl, rfl⟩

end DormancyMachine

end Myco.Continuity
