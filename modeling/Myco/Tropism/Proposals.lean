import Myco.Tropism.Windows

/-!
# Proposals

A `Proposal` is the step of a run that opened the window of the migration in flight, with all that has
been done since. As long as no other mutation builds a candidate while one is in flight, the candidate
of the worker is the one that was applied then, turned by every cycle since, or there is none
(`Minded`).
-/

namespace Myco.Tropism

open Myco.Lib Myco.Canonical Myco.Schema Myco.Substrate Myco.Federation Myco.Prune

variable {env : Env} {rt : Runtime}

/-! ### Kinds of steps -/

/-- A cycle, after deeds that are calm. -/
inductive HasCycle (report : AdvanceReport rt) (d : Deed rt) : List (Deed rt) → Prop
  | mk {ds es : List (Deed rt)} {n : DagNode} : (∀ d ∈ ds, d.Calm) → RollsBack es →
      Verdict report.outcome d →
      HasCycle report d (ds ++ [.advanced report, .counted, .recorded n, d] ++ es)

/-- A candidate is built, and its window is opened or not. -/
inductive Builds (content : Bytes) : List (Deed rt) → Prop
  | built : Builds content [.built content]
  | opened {candidate : CandidateState} : candidate.schemaDiffCanonicalBytes = content →
      Builds content [.built content, .opened candidate]

theorem Halts.calm {ds : List (Deed rt)} (h : Halts ds) : ∀ d ∈ ds, d.Calm := by
  cases h <;> simp [Deed.Calm]

theorem RollsBack.calm {ds : List (Deed rt)} (h : RollsBack ds) : ∀ d ∈ ds, d.Calm := by
  cases h <;> simp [Deed.Calm]

theorem Flushes.calm {ds : List (Deed rt)} (h : Flushes ds) : ∀ d ∈ ds, d.Calm := by
  cases h <;> simp [Deed.Calm]

theorem Notes.calm {ds : List (Deed rt)} (h : Notes ds) : ∀ d ∈ ds, d.Calm := by
  intro d hd
  obtain ⟨ms, rfl, -⟩ := h d hd
  trivial

/-- A step is calm, or builds a candidate, or has a cycle. -/
theorem Event.Tells.cases {e : Event} {ds : List (Deed rt)} (h : e.Tells ds) :
    (∀ d ∈ ds, d.Calm) ∨
    (∃ q answer content, e = .request (.submitMutation q) answer ∧ Applies q true content ∧
      Builds content ds) ∨
    ∃ report d, HasCycle report d ds := by
  have hanswers : ∀ {P : List (Deed rt) → Prop} {answer : Except SubstrateError PUnit},
      Answers P answer ds → P ds ∨ ∀ d ∈ ds, d.Calm := by
    intro P answer ha
    cases answer with
    | ok _ => exact .inl ha
    | error _ => exact .inr (Halts.calm ha)
  have hcycle : Cycles ds → ∃ report d, HasCycle report d ds := by
    rintro ⟨hn, hv⟩
    exact ⟨_, _, @HasCycle.mk _ _ _ [] [] _ (by simp) .nothing hv⟩
  cases e with
  | request q answer =>
    cases q with
    | registerAxis q =>
      rcases hanswers h with h | h
      · cases h <;> simp [Deed.Calm]
      · exact .inl h
    | perturb q =>
      rcases hanswers h with h | h
      · cases h <;> simp [Deed.Calm]
      · exact .inl h
    | perturbFromRaw q =>
      rcases hanswers h with h | h
      · cases h
        simp [Deed.Calm]
      · exact .inl h
    | advance => exact (hanswers h).symm.imp_right fun hc => .inr (hcycle hc)
    | submitMutation q =>
      cases h with
      | halts h => exact .inl h.calm
      | other h1 h2 => exact .inl (List.forall_mem_append.2 ⟨h1.calm, h2.calm⟩)
      | evolved _ h => exact .inl (List.forall_mem_cons.2 ⟨trivial, h.calm⟩)
      | built ha => exact .inr (.inl ⟨q, answer, _, rfl, ha, .built⟩)
      | opened ha hd => exact .inr (.inl ⟨q, answer, _, rfl, ha, .opened hd⟩)
  | flush => exact .inl (Flushes.calm h)
  | tick b =>
    obtain ⟨h1, h2⟩ := h
    rename_i ds es
    cases h1 with
    | idle => exact .inl h2.calm
    | pended => exact .inl (List.forall_mem_cons.2 ⟨trivial, h2.calm⟩)
    | cycled hf hc =>
      rename_i fs cs
      rcases hc with hc | hc
      · obtain ⟨hn, hv⟩ := hc
        exact .inr (.inr ⟨_, _, .mk hf.calm h2 hv⟩)
      · exact .inl (List.forall_mem_append.2 ⟨List.forall_mem_append.2 ⟨hf.calm, hc.calm⟩, h2.calm⟩)
  | workerExit => exact .inl (Halts.calm h)
  | other => exact .inl (by rw [show ds = [] from h]; simp)
  | save => exact .inl (by rw [show ds = [] from h]; simp)
  | hello => exact .inl (by rw [show ds = [] from h]; simp)
  | restart files => exact .inl (by rw [show ds = [] from h]; simp)

/-! ### What has been done -/

/-- The steps of a run, and all that they did. -/
inductive Tale : Machine env rt → List Event → List (Deed rt) → Machine env rt → Prop
  | nil {m : Machine env rt} : Tale m [] [] m
  | snoc {m u v : Machine env rt} {es : List Event} {e : Event} {ds ds' : List (Deed rt)} :
      Tale m es ds u → Step u e v → e.Tells ds' → Performs ds' u.host v.host →
      Tale m (es ++ [e]) (ds ++ ds') v

theorem Tale.run {m u : Machine env rt} {es : List Event} {ds : List (Deed rt)}
    (h : Tale m es ds u) : Run m es u := by
  induction h with
  | nil => exact .nil
  | snoc _ hstep _ _ ih => exact ih.append (Path.singleton_iff.2 hstep)

theorem Tale.performs {m u : Machine env rt} {es : List Event} {ds : List (Deed rt)}
    (h : Tale m es ds u) : Performs ds m.host u.host := by
  induction h with
  | nil => exact Std.Refl.refl (r := Still) _
  | snoc _ _ _ hp ih => exact ih.append hp

/-- The step that proposed the migration of a candidate, in a run from `start` to `m`, and what has been
done since. -/
structure Proposal (start : Machine env rt) (es : List Event) (m : Machine env rt)
    (candidate : CandidateState) where
  earlier : List Event
  before : Machine env rt
  message : Message
  answer : Except SubstrateError PUnit
  after : Machine env rt
  later : List Event
  deeds : List (Deed rt)
  worker : DispatcherState rt
  /-- the candidate as it was built -/
  applied : GradientConfiguration rt
  events_eq : es = earlier ++ .request (.submitMutation message) answer :: later
  run : Run start earlier before
  step : Step before (.request (.submitMutation message) answer) after
  tale : Tale after later deeds m
  free : before.host.server.migrationCandidate = none
  inFlight : after.host.server.migrationCandidate = some candidate
  window : candidate.dualValidationWindowCycles = defaultDualValidationWindowCycles
  applies : Applies message true candidate.schemaDiffCanonicalBytes
  python : before.host.python = some worker
  evolves : Evolves candidate.schemaDiffCanonicalBytes worker.gradient applied
  performs : Performs [.built candidate.schemaDiffCanonicalBytes, .opened candidate] before.host
    after.host

variable {start m m' : Machine env rt} {es : List Event} {candidate : CandidateState}

namespace Proposal

/-- Since the proposal there has been this cycle, and it validated the candidate. -/
def Validated (p : Proposal start es m candidate) (k : Nat) : Prop :=
  ∃ ds report ds' c, p.deeds = ds ++ .advanced report :: ds' ∧
    Path Core.Does p.after.host.core ds c ∧ Validates candidate p.applied k c

/-- One more step. -/
def snoc (p : Proposal start es m candidate) {e : Event} {ds : List (Deed rt)}
    (hstep : Step m e m') (ht : e.Tells ds) (hp : Performs ds m.host m'.host) :
    Proposal start (es ++ [e]) m' candidate :=
  { p with
    later := p.later ++ [e]
    deeds := p.deeds ++ ds
    events_eq := (congrArg (· ++ [e]) p.events_eq).trans (List.append_assoc _ _ _)
    tale := p.tale.snoc hstep ht hp }

variable {p : Proposal start es m candidate} {e : Event} {ds : List (Deed rt)}
  {hstep : Step m e m'} {ht : e.Tells ds} {hp : Performs ds m.host m'.host} {k : Nat}

theorem Validated.snoc (h : p.Validated k) : (p.snoc hstep ht hp).Validated k := by
  obtain ⟨ds1, report, ds2, c, hds, hpath, hv⟩ := h
  refine ⟨ds1, report, ds2 ++ ds, c, ?_, hpath, hv⟩
  show p.deeds ++ ds = _
  rw [hds, List.append_assoc]
  rfl

/-- The cycle that a step has validates the candidate. -/
theorem validated_snoc {report : AdvanceReport rt} {ds1 ds2 : List (Deed rt)} {c : Core rt}
    (hds : ds = ds1 ++ .advanced report :: ds2) (hpath : Path Core.Does m.host.core ds1 c)
    (hv : Validates candidate p.applied k c) : (p.snoc hstep ht hp).Validated k := by
  refine ⟨p.deeds ++ ds1, report, ds2, c, ?_, p.tale.performs.core.append hpath, hv⟩
  show p.deeds ++ ds = _
  rw [hds, List.append_assoc]

end Proposal

/-! ### Whose candidate it is -/

/-- What is known of the migration in flight and of its candidate. -/
inductive Minded (start : Machine env rt) (es : List Event) (m : Machine env rt) : Prop
  | free : m.host.core.migrationCandidate = none → Minded start es m
  | lost : Lost m.host.core → Minded start es m
  | stuck : Stuck m.host.core → Minded start es m
  | tracked {candidate : CandidateState} {n : Nat} (p : Proposal start es m candidate) :
      Tracks candidate p.applied n m.host.core → (∀ k < n, p.Validated k) → Minded start es m

/-- The candidate was validated in every cycle of its window, and has become the gradient. -/
def Promotes (start : Machine env rt) (es : List Event) (m : Machine env rt)
    (candidate : CandidateState) : Prop :=
  ∃ p : Proposal start es m candidate,
    (∀ k < candidate.dualValidationWindowCycles.toNat, p.Validated k) ∧
    ∃ w, m.host.python = some w ∧ w.gradient = turned candidate.startedAtCycle
      candidate.dualValidationWindowCycles.toNat p.applied

section

variable {e : Event} {ds : List (Deed rt)}

theorem free_path {c c' : Core rt} (hp : Path Core.Does c ds c') (hds : ∀ d ∈ ds, d.Calm)
    (hc : c.migrationCandidate = none) : c'.migrationCandidate = none :=
  (calm_path (P := fun _ => False) (fun _ _ _ _ _ => False.elim) hp hds (.inr hc)).resolve_left id

/-- Calm deeds leave everything in its place. -/
theorem Minded.calm (hm : Minded start es m) (hstep : Step m e m') (ht : e.Tells ds)
    (hp : Performs ds m.host m'.host) (hds : ∀ d ∈ ds, d.Calm) : Minded start (es ++ [e]) m' := by
  cases hm with
  | free hc => exact .free (free_path hp.core hds hc)
  | lost hl => exact (calm_path calm_lost hp.core hds (.inl hl)).elim .lost .free
  | stuck hs => exact (calm_path calm_stuck hp.core hds (.inl hs)).elim .stuck .free
  | tracked p htr hv =>
    rcases calm_path calm_tracks hp.core hds (.inl htr) with htr' | hfree
    · exact .tracked (p.snoc hstep ht hp) htr' fun k hk => (hv k hk).snoc
    · exact .free hfree

/-- After a cycle, and the calm deeds around it, everything is in its place again. A commit promotes the
candidate. -/
theorem Minded.cycles {report : AdvanceReport rt} {d : Deed rt} (hm : Minded start es m)
    (hstep : Step m e m') (ht : e.Tells ds) (hp : Performs ds m.host m'.host)
    (hc : HasCycle report d ds) : Minded start (es ++ [e]) m' ∧
      ∀ candidate, d = .committed candidate → Promotes start (es ++ [e]) m' candidate := by
  obtain ⟨hds, hback, hv⟩ := hc
  rename_i ds es' node
  have hes := hback.calm
  have hpath := hp.core
  obtain ⟨c', hpath, hlast⟩ := Path.append_iff.1 hpath
  obtain ⟨c, hfirst, hcycle⟩ := Path.append_iff.1 hpath
  have hcycled := cycled_of_path hcycle
  have hfree : c.migrationCandidate = none → Minded start (es ++ [e]) m' ∧
      ∀ candidate, d = .committed candidate → Promotes start (es ++ [e]) m' candidate := by
    intro hnone
    obtain ⟨w, -, -, t, -, -, -, htm, hd⟩ := hcycled.worker
    have htn : t.migrationCandidate = none := htm.trans hnone
    cases hd with
    | kept _ => exact ⟨.free (free_path hlast hes htn), nofun⟩
    | committed hsome _ =>
      rw [htn] at hsome
      cases hsome
    | rolledBack hsome =>
      rw [htn] at hsome
      cases hsome
    | _ => cases hv
  cases hm with
  | free hn => exact hfree (free_path hfirst hds hn)
  | lost hl =>
    rcases calm_path calm_lost hfirst hds (.inl hl) with hl | hn
    · obtain ⟨⟨candidate, rfl⟩, hn⟩ := cycle_lost hcycled hv hl
      exact ⟨.free (free_path hlast hes hn), nofun⟩
    · exact hfree hn
  | stuck hs =>
    rcases calm_path calm_stuck hfirst hds (.inl hs) with hs | hn
    · obtain ⟨hnot, hs⟩ := cycle_stuck hcycled hv hs
      exact ⟨(calm_path calm_stuck hlast hes hs).elim .stuck .free, fun candidate hd =>
        absurd hd (hnot candidate)⟩
    · exact hfree hn
  | @tracked candidate n p htr hval =>
    rcases calm_path calm_tracks hfirst hds (.inl htr) with htr | hn
    · have hall : ∀ {k}, Validates candidate p.applied n c → k < n + 1 →
          (p.snoc hstep ht hp).Validated k := by
        intro k hv' hk
        by_cases hkn : k < n
        · exact (hval k hkn).snoc
        · obtain rfl : k = n := by omega
          have hsplit : ds ++ [.advanced report, .counted, .recorded node, d] ++ es' =
              ds ++ .advanced report :: (.counted :: .recorded node :: d :: es') := by simp
          exact Proposal.validated_snoc hsplit hfirst hv'
      rcases cycle_tracks hcycled hv htr with ⟨hval', ⟨rfl, hnext⟩ | ⟨rfl, hwindow, hn, w, hw, hg⟩⟩ |
        ⟨-, rfl, hn⟩
      · refine ⟨?_, nofun⟩
        rcases hnext with htr' | hs
        · rcases calm_path calm_tracks hlast hes (.inl htr') with htr' | hn
          · exact .tracked (p.snoc hstep ht hp) htr' fun k hk => hall hval' hk
          · exact .free hn
        · exact (calm_path calm_stuck hlast hes (.inl hs)).elim .stuck .free
      · refine ⟨.free (free_path hlast hes hn), fun candidate' hd => ?_⟩
        cases hd
        refine ⟨p.snoc hstep ht hp, fun k hk => hall hval' (by omega), w, ?_, hwindow ▸ hg⟩
        -- nothing is in flight that could be rolled back
        cases hback with
        | nothing =>
          rw [Path.nil_iff] at hlast
          exact (congrArg Core.python hlast.symm).trans hw
        | rolledBack =>
          have hd := Path.singleton_iff.1 hlast
          generalize m'.host.core = c'' at hd
          cases hd with
          | rolledBack hsome =>
            rw [hn] at hsome
            cases hsome
      · exact ⟨.free (free_path hlast hes hn), nofun⟩
    · exact hfree hn

end

end Myco.Tropism
