import Myco.Tropism.Performing

/-!
# The window of a migration

A candidate that was applied to the gradient as it was is turned once by every cycle of its window, as
long as it does not diverge: the substrate counts what the worker turns (`Tracks`). A migration in
flight whose candidate the worker does not have, because it has been started again, is `Lost`, and one
at the end of all cycles is `Stuck`; neither is ever committed.

The deeds that concern neither the counter nor a candidate are `Calm`. `cycle_tracks`: a cycle ends
the window, or it `Validates` the candidate.
-/

namespace Myco.Tropism

open Myco.Lib Myco.Canonical Myco.Schema Myco.Substrate Myco.Federation Myco.Prune

variable {env : Env} {rt : Runtime}

/-! ### Turning -/

/-- What the first `n` cycles after `start` make of a gradient. -/
def turned (start : UInt64) (n : Nat) (g : GradientConfiguration rt) : GradientConfiguration rt :=
  (List.range n).foldl (fun g k => g.turn (start + UInt64.ofNat (k + 1))) g

@[simp] theorem turned_zero {start : UInt64} {g : GradientConfiguration rt} :
    turned start 0 g = g := rfl

theorem turned_succ {start : UInt64} {n : Nat} {g : GradientConfiguration rt} :
    turned start (n + 1) g = (turned start n g).turn (start + UInt64.ofNat (n + 1)) := by
  rw [turned, List.range_succ, List.foldl_append]
  rfl

/-- An advanced candidate that must not become the gradient: a value is not finite, or it has fruited
an axis that signals mortality and the gradient has not. -/
def Diverges (advanced : GradientConfiguration rt) (fruited activeFruited : List String) : Prop :=
  (∃ s ∈ advanced.slots, rt.isFinite s.axis.value = false) ∨
  ∃ s ∈ advanced.slots, s.name ∈ fruited ∧ s.axis.schema.isMortalitySignal = true ∧
    s.name ∉ activeFruited

theorem divergence?_eq_none {advanced : GradientConfiguration rt}
    {fruited activeFruited : List String} {cycle : UInt64} :
    divergence? advanced fruited activeFruited cycle = none ↔
      ¬ Diverges advanced fruited activeFruited := by
  unfold divergence? Diverges
  cases hf : advanced.slots.find? fun s => !rt.isFinite s.axis.value with
  | some s =>
    have hs := List.mem_of_find?_eq_some hf
    have hfinite : rt.isFinite s.axis.value = false := by simpa using List.find?_some hf
    exact ⟨nofun, fun hnot => absurd (.inl ⟨s, hs, hfinite⟩) hnot⟩
  | none =>
    have hfinite : ∀ s ∈ advanced.slots, rt.isFinite s.axis.value = true := by
      simpa using List.find?_eq_none.1 hf
    simp only [Option.map_eq_none_iff, List.find?_eq_none]
    constructor
    · rintro hnone (⟨s, hs, hb⟩ | ⟨s, hs, h1, h2, h3⟩)
      · rw [hfinite s hs] at hb
        cases hb
      · exact hnone s hs (by simp [h1, h2, h3])
    · intro hnot s hs hb
      simp only [Bool.and_eq_true, decide_eq_true_eq] at hb
      exact hnot (.inr ⟨s, hs, hb.1.1, hb.1.2, hb.2⟩)

/-! ### A cycle of the window -/

/-- In the `k`-th cycle of the window, counted from zero, the worker advances the candidate along with
its gradient, and the candidate does not diverge. -/
structure Validates (candidate : CandidateState) (applied : GradientConfiguration rt) (k : Nat)
    (c : Core rt) : Prop where
  cycle : c.cycleCounter + 1 = candidate.startedAtCycle + UInt64.ofNat (k + 1)
  sound : ∃ w, c.python = some w ∧
    w.candidateGradient = some (turned candidate.startedAtCycle k applied) ∧
    ¬ Diverges (turned candidate.startedAtCycle k applied).advance.2
      (turned candidate.startedAtCycle k applied).advance.1 w.gradient.advance.1

/-- The candidate has been turned by the `n` cycles since it was applied. -/
structure Tracks (candidate : CandidateState) (applied : GradientConfiguration rt) (n : Nat)
    (c : Core rt) : Prop where
  inFlight : c.migrationCandidate = some candidate
  pending : c.pending = 0
  open_ : n < candidate.dualValidationWindowCycles.toNat
  elapsed : c.cycleCounter.toNat = candidate.startedAtCycle.toNat + n
  turned : ∀ w ∈ c.python,
    w.candidateGradient = some (Tropism.turned candidate.startedAtCycle n applied)

/-- The worker has no candidate for the migration in flight. -/
structure Lost (c : Core rt) : Prop where
  pending : c.pending = 0
  inFlight : c.migrationCandidate.isSome
  candidate : ∀ w ∈ c.python, w.candidateGradient = none

/-- No cycle is left to complete the window. -/
structure Stuck (c : Core rt) : Prop where
  pending : c.pending = 0
  cycle : c.cycleCounter.toNat = 2 ^ 64 - 1
  short : ∃ candidate, c.migrationCandidate = some candidate ∧
    windowComplete candidate c.cycleCounter = false

/-! ### Calm deeds -/

/-- Neither counts nor builds, opens or commits anything. -/
def Deed.Calm : Deed rt → Prop
  | .built _ => False
  | .opened _ => False
  | .advanced _ => False
  | .counted => False
  | .committed _ => False
  | _ => True

/-- A calm deed keeps this of a core with a migration in flight, or ends the migration. -/
def CalmlyKept (P : Core rt → Prop) : Prop :=
  ∀ c d c', Core.Does c d c' → d.Calm → P c → P c' ∨ c'.migrationCandidate = none

theorem calm_path {P : Core rt → Prop} (hP : CalmlyKept P) {c c' : Core rt} {ds : List (Deed rt)}
    (hp : Path Core.Does c ds c') (hds : ∀ d ∈ ds, d.Calm)
    (hc : P c ∨ c.migrationCandidate = none) : P c' ∨ c'.migrationCandidate = none := by
  have hnone : ∀ {c d c'}, @Core.Does rt c d c' → d.Calm → c.migrationCandidate = none →
      c'.migrationCandidate = none := by
    intro c d c' hd hcalm hc
    cases hd with
    | built _ _ => exact hcalm.elim
    | opened _ _ _ => exact hcalm.elim
    | advanced _ _ => exact hcalm.elim
    | committed _ _ => rfl
    | rolledBack _ => rfl
    | _ => exact hc
  induction hp with
  | nil => exact hc
  | @cons c d t ds c' hd _ ih =>
    rw [List.forall_mem_cons] at hds
    refine ih hds.2 ?_
    rcases hc with hc | hc
    · exact hP _ _ _ hd hds.1 hc
    · exact .inr (hnone hd hds.1 hc)

/-! ### Counting -/

theorem windowComplete_iff {candidate : CandidateState} {cycle : UInt64} :
    windowComplete candidate cycle = true ↔ candidate.dualValidationWindowCycles.toNat ≤
      cycle.toNat - candidate.startedAtCycle.toNat := by
  rw [windowComplete, decide_eq_true_iff, ge_iff_le, UInt64.le_iff_toNat_le, saturatingSub_toNat]

theorem windowComplete_eq_false {candidate : CandidateState} {cycle : UInt64} :
    windowComplete candidate cycle = false ↔ cycle.toNat - candidate.startedAtCycle.toNat <
      candidate.dualValidationWindowCycles.toNat := by
  rw [← Bool.not_eq_true, windowComplete_iff, Nat.not_le]

section

variable {candidate : CandidateState} {applied : GradientConfiguration rt} {n : Nat}
  {c c' : Core rt}

theorem Tracks.cycle_eq (h : Tracks candidate applied n c) :
    c.cycleCounter + 1 = candidate.startedAtCycle + UInt64.ofNat (n + 1) := by
  apply UInt64.toNat_inj.1
  rw [UInt64.toNat_add, UInt64.toNat_add, h.elapsed, UInt64.toNat_ofNat']
  simp [Nat.add_mod, Nat.add_assoc]

theorem saturatingAdd_pending (h : c.pending = 0) :
    saturatingAdd c.cycleCounter c.pending = c.cycleCounter := by
  have := c.cycleCounter.toNat_lt
  apply UInt64.toNat_inj.1
  rw [saturatingAdd_toNat, h]
  simp
  omega

/-- The migration in flight stands as it did, and so does its candidate if the worker is there. -/
structure Stands (c c' : Core rt) : Prop where
  inFlight : c'.migrationCandidate = c.migrationCandidate
  pending : c'.pending = 0
  cycle : c'.cycleCounter = c.cycleCounter
  candidate : ∀ w' ∈ c'.python, ∃ w ∈ c.python, w'.candidateGradient = w.candidateGradient

theorem calm_stands {d : Deed rt} (hd : Core.Does c d c') (hcalm : d.Calm) (hp : c.pending = 0) :
    Stands c c' ∨ c'.migrationCandidate = none := by
  cases hd with
  | built _ _ => exact hcalm.elim
  | opened _ _ _ => exact hcalm.elim
  | advanced _ _ => exact hcalm.elim
  | counted => exact hcalm.elim
  | committed _ _ => exact hcalm.elim
  | registered hw _ _ =>
    exact .inl ⟨rfl, hp, rfl, fun w' hw' => ⟨_, hw, by rw [← Option.some.inj hw']⟩⟩
  | perturbed hw _ =>
    exact .inl ⟨rfl, hp, rfl, fun w' hw' => ⟨_, hw, by rw [← Option.some.inj hw']⟩⟩
  | evolved hw _ =>
    exact .inl ⟨rfl, hp, rfl, fun w' hw' => ⟨_, hw, by rw [← Option.some.inj hw']⟩⟩
  | rolledBack _ => exact .inr rfl
  | pended hn => exact .inr hn
  | kept _ => exact .inl ⟨rfl, hp, rfl, fun w hw => ⟨w, hw, rfl⟩⟩
  | sealed => exact .inl ⟨rfl, hp, saturatingAdd_pending hp, fun w hw => ⟨w, hw, rfl⟩⟩
  | dropped => exact .inl ⟨rfl, rfl, rfl, fun w hw => ⟨w, hw, rfl⟩⟩
  | recorded => exact .inl ⟨rfl, hp, rfl, fun w hw => ⟨w, hw, rfl⟩⟩
  | noted => exact .inl ⟨rfl, hp, rfl, fun w hw => ⟨w, hw, rfl⟩⟩
  | exited => exact .inl ⟨rfl, hp, rfl, nofun⟩

theorem calm_tracks : CalmlyKept (Tracks candidate applied n : Core rt → Prop) := by
  intro c d c' hd hcalm h
  refine (calm_stands hd hcalm h.pending).imp_left fun hs => ⟨hs.inFlight.trans h.inFlight,
    hs.pending, h.open_, by rw [hs.cycle, h.elapsed], fun w' hw' => ?_⟩
  obtain ⟨w, hw, he⟩ := hs.candidate w' hw'
  exact he.trans (h.turned w hw)

theorem calm_lost : CalmlyKept (Lost : Core rt → Prop) := by
  intro c d c' hd hcalm h
  refine (calm_stands hd hcalm h.pending).imp_left fun hs => ⟨hs.pending,
    by rw [hs.inFlight]; exact h.inFlight, fun w' hw' => ?_⟩
  obtain ⟨w, hw, he⟩ := hs.candidate w' hw'
  exact he.trans (h.candidate w hw)

theorem calm_stuck : CalmlyKept (Stuck : Core rt → Prop) := by
  intro c d c' hd hcalm h
  refine (calm_stands hd hcalm h.pending).imp_left fun hs => ⟨hs.pending,
    by rw [hs.cycle]; exact h.cycle, ?_⟩
  rw [hs.inFlight, hs.cycle]
  exact h.short

/-! ### Cycles -/

/-- What a cycle is judged by. -/
theorem outcome_advanced {w : DispatcherState rt} {cycle : UInt64} :
    (advanced w cycle).1.outcome = .equivalent ↔ ∃ g, w.candidateGradient = some g ∧
      ¬ Diverges g.advance.2 g.advance.1 w.gradient.advance.1 := by
  simp only [advanced]
  cases hc : w.candidateGradient with
  | none => simp [AdvanceReport.outcome]
  | some g =>
    simp only [Option.some.injEq, exists_eq_left']
    cases hd : divergence? g.advance.2 g.advance.1 w.gradient.advance.1 cycle with
    | none =>
      rw [divergence?_eq_none] at hd
      simp [AdvanceReport.outcome, hd]
    | some reason =>
      have hdiv : Diverges g.advance.2 g.advance.1 w.gradient.advance.1 := by
        by_contra hnot
        rw [divergence?_eq_none.2 hnot] at hd
        cases hd
      simp [AdvanceReport.outcome, hdiv]

theorem turned_advanced {w : DispatcherState rt} {cycle : UInt64} {g : GradientConfiguration rt}
    (hg : w.candidateGradient = some g)
    (hd : ¬ Diverges g.advance.2 g.advance.1 w.gradient.advance.1) :
    (advanced w cycle).2.candidateGradient = some (g.turn cycle) := by
  simp only [advanced, hg, divergence?_eq_none.2 hd]

/-- The deeds of a cycle, in one. -/
structure Cycled (report : AdvanceReport rt) (d : Deed rt) (c c' : Core rt) : Prop where
  worker : ∃ w, c.python = some w ∧ report = (advanced w (c.cycleCounter + 1)).1 ∧
    ∃ t : Core rt, t.python = some (advanced w (c.cycleCounter + 1)).2 ∧
      t.cycleCounter = saturatingAdd c.cycleCounter 1 ∧ t.pending = c.pending ∧
      t.migrationCandidate = c.migrationCandidate ∧ Core.Does t d c'

theorem cycled_of_path {report : AdvanceReport rt} {node : DagNode} {d : Deed rt}
    (hp : Path Core.Does c [.advanced report, .counted, .recorded node, d] c') :
    Cycled report d c c' := by
  obtain ⟨t1, h1, hp⟩ := Path.cons_iff.1 hp
  obtain ⟨t2, h2, hp⟩ := Path.cons_iff.1 hp
  obtain ⟨t3, h3, hp⟩ := Path.cons_iff.1 hp
  cases h1 with
  | advanced hw ha =>
    rename_i w w'
    cases h2
    cases h3
    have hd := Path.singleton_iff.1 hp
    refine ⟨w, hw, congrArg Prod.fst ha.symm, _, ?_, ?_, ?_, ?_, hd⟩
    · exact congrArg some (congrArg Prod.snd ha.symm)
    · rfl
    · rfl
    · rfl

/-- A cycle of the window validates the candidate, and either the window goes on, or no cycle is left
for it, or it is complete and the candidate becomes the gradient; or the candidate diverges, and that
is the end of it. -/
theorem cycle_tracks {report : AdvanceReport rt} {d : Deed rt} (hc : Cycled report d c c')
    (hv : Verdict report.outcome d) (ht : Tracks candidate applied n c) :
    (Validates candidate applied n c ∧
      ((d = .kept .equivalent ∧ (Tracks candidate applied (n + 1) c' ∨ Stuck c')) ∨
      (d = .committed candidate ∧ n + 1 = candidate.dualValidationWindowCycles.toNat ∧
        c'.migrationCandidate = none ∧ ∃ w', c'.python = some w' ∧
          w'.gradient = turned candidate.startedAtCycle (n + 1) applied))) ∨
    (report.outcome = .diverged ∧ d = .rolledBack candidate ∧ c'.migrationCandidate = none) := by
  obtain ⟨w, hw, rfl, t, htw, htc, htp, htm, hd⟩ := hc.worker
  have hg := ht.turned w hw
  have hflight : t.migrationCandidate = some candidate := htm.trans ht.inFlight
  have hcount : t.cycleCounter.toNat = min (candidate.startedAtCycle.toNat + n + 1)
      (2 ^ 64 - 1) := by
    rw [htc, saturatingAdd_toNat, ht.elapsed]
    rfl
  by_cases hout : (advanced w (c.cycleCounter + 1)).1.outcome = .equivalent
  · obtain ⟨g, hg', hnot⟩ := outcome_advanced.1 hout
    rw [hg] at hg'
    cases hg'
    have hturned : (advanced w (c.cycleCounter + 1)).2.candidateGradient =
        some (turned candidate.startedAtCycle (n + 1) applied) := by
      rw [turned_advanced hg hnot, turned_succ, ht.cycle_eq]
    refine .inl ⟨⟨ht.cycle_eq, w, hw, hg, hnot⟩, ?_⟩
    rw [hout] at hv
    cases hv with
    | kept =>
      cases hd with
      | kept hk =>
        obtain ⟨-, hshort⟩ := hk candidate hflight
        have hopen := windowComplete_eq_false.1 hshort
        refine .inl ⟨rfl, ?_⟩
        by_cases hlast : candidate.startedAtCycle.toNat + n + 1 ≤ 2 ^ 64 - 1
        · rw [min_eq_left hlast] at hcount
          rw [hcount] at hopen
          refine .inl ⟨hflight, htp.trans ht.pending, by omega, by omega, fun w' hw' => ?_⟩
          rw [htw] at hw'
          cases hw'
          exact hturned
        · rw [min_eq_right (by omega)] at hcount
          exact .inr ⟨htp.trans ht.pending, hcount, candidate, hflight, hshort⟩
    | committed _ =>
      cases hd with
      | committed hm hcomplete =>
        cases Option.some.inj (hflight.symm.trans hm)
        have hwindow := windowComplete_iff.1 hcomplete
        have hopen := ht.open_
        refine .inr ⟨rfl, by omega, rfl, (advanced w (c.cycleCounter + 1)).2.committed, ?_, ?_⟩
        · show t.python.map DispatcherState.committed = _
          rw [htw]
          rfl
        · show (advanced w (c.cycleCounter + 1)).2.candidateGradient.getD _ = _
          rw [hturned]
          rfl
    | rolledBack h => cases h
  · have hdiv : (advanced w (c.cycleCounter + 1)).1.outcome = .diverged := by
      cases ho : (advanced w (c.cycleCounter + 1)).1.outcome with
      | diverged => rfl
      | equivalent => exact absurd ho hout
    rw [hdiv] at hv
    refine .inr ⟨hdiv, ?_⟩
    cases hv with
    | kept =>
      cases hd with
      | kept hk => cases (hk candidate hflight).1
    | committed h => cases h
    | rolledBack _ =>
      cases hd with
      | rolledBack hm =>
        cases Option.some.inj (hflight.symm.trans hm)
        exact ⟨rfl, rfl⟩

/-- A candidate that is lost is rolled back by the next cycle. -/
theorem cycle_lost {report : AdvanceReport rt} {d : Deed rt} (hc : Cycled report d c c')
    (hv : Verdict report.outcome d) (hl : Lost c) :
    (∃ candidate, d = .rolledBack candidate) ∧ c'.migrationCandidate = none := by
  obtain ⟨w, hw, rfl, t, htw, -, -, htm, hd⟩ := hc.worker
  obtain ⟨candidate, hflight⟩ := Option.isSome_iff_exists.1 hl.inFlight
  have hdiv : (advanced w (c.cycleCounter + 1)).1.outcome = .diverged := by
    cases ho : (advanced w (c.cycleCounter + 1)).1.outcome with
    | diverged => rfl
    | equivalent =>
      obtain ⟨g, hg, -⟩ := outcome_advanced.1 ho
      rw [hl.candidate w hw] at hg
      cases hg
  rw [hdiv] at hv
  cases hv with
  | kept =>
    cases hd with
    | kept hk => cases (hk candidate (htm.trans hflight)).1
  | committed h => cases h
  | rolledBack _ =>
    cases hd with
    | rolledBack _ => exact ⟨⟨_, rfl⟩, rfl⟩

/-- At the end of all cycles nothing is committed any more. -/
theorem cycle_stuck {report : AdvanceReport rt} {d : Deed rt} (hc : Cycled report d c c')
    (hv : Verdict report.outcome d) (hs : Stuck c) :
    (∀ candidate, d ≠ .committed candidate) ∧ (Stuck c' ∨ c'.migrationCandidate = none) := by
  obtain ⟨w, hw, rfl, t, htw, htc, htp, htm, hd⟩ := hc.worker
  obtain ⟨candidate, hflight, hshort⟩ := hs.short
  have hcount : t.cycleCounter = c.cycleCounter := by
    apply UInt64.toNat_inj.1
    rw [htc, saturatingAdd_toNat, hs.cycle]
    rfl
  have ht : Stuck t := ⟨htp.trans hs.pending, by rw [hcount]; exact hs.cycle,
    candidate, htm.trans hflight, by rw [hcount]; exact hshort⟩
  cases hv with
  | kept =>
    cases hd with
    | kept _ => exact ⟨nofun, .inl ht⟩
  | committed _ =>
    cases hd with
    | committed hm hcomplete =>
      cases Option.some.inj ((htm.trans hflight).symm.trans hm)
      rw [hcount, hshort] at hcomplete
      cases hcomplete
  | rolledBack _ =>
    cases hd with
    | rolledBack _ => exact ⟨nofun, .inr rfl⟩

end

end Myco.Tropism
