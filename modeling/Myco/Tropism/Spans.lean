import Myco.Tropism.Plays

/-!
# The spans of the clock

Every `cycle_advanced` node says from where to where the counter has gone, and these spans tile what
the counter has gone in all (`Tolls`). Idle cycles are counted only while no axis has been recorded,
no migration is in flight and there is no federation.

An axis that the worker has and that has not been recorded does not keep idle cycles from being
counted. There are two ways to get one: a registration whose numbers only Python reads, and a schema
evolution that adds an axis (`Request.Unrecorded`).
-/

namespace Myco.Tropism

open Myco.Lib Myco.Canonical Myco.Schema Myco.Substrate Myco.Federation Myco.Prune

variable {env : Env} {rt : Runtime}

/-! ### Spans -/

/-- From where to where the counter has gone, as the node says. -/
def span (n : DagNode) : Option (UInt64 × UInt64) := do
  let content ← decodeMap? n.content
  return (← uint? content "prior_cycle", ← uint? content "new_cycle")

def cycleNodes (ns : List DagNode) : List DagNode := ns.filter (·.nodeType = cycleAdvancedType)

/-- The spans of the nodes follow one another from the one cycle to the other. -/
abbrev Tiles : UInt64 → List DagNode → UInt64 → Prop :=
  Path fun a n b => span n = some (a, b) ∧ a ≤ b

theorem span_encode {n : DagNode} {nodeType : String} {a b : UInt64}
    (hn : IsNode nodeType (encodeCycleAdvanced a b) n) : span n = some (a, b) := by
  rw [span, hn.content_eq, encodeCycleAdvanced, decodeMap?_cbEncode hn.fits (by simp [Value.WF])]
  simp [uint?, OrdMap.get_cons, get_mapOf]

theorem le_saturatingAdd {a b : UInt64} : a ≤ saturatingAdd a b := by
  have := a.toNat_lt
  rw [UInt64.le_iff_toNat_le, saturatingAdd_toNat]
  omega

/-! ### Tolling -/

/-- What the counter has gone is said by the nodes that have been appended. -/
def Tolls (c c' : Core rt) : Prop :=
  ∃ ns, cycleNodes c'.log = cycleNodes c.log ++ ns ∧ Tiles c.cycleCounter ns c'.cycleCounter

instance : IsPreorder (Core rt) Tolls where
  refl _ := ⟨[], (List.append_nil _).symm, .nil⟩
  trans _ _ _ := by
    rintro ⟨ns, h1, h2⟩ ⟨ms, h3, h4⟩
    exact ⟨ns ++ ms, by rw [h3, h1, List.append_assoc], h2.append h4⟩

/-- Neither moves the counter nor says that it has. -/
def Deed.Silent : Deed rt → Prop
  | .counted => False
  | .sealed => False
  | .recorded n => n.nodeType ≠ cycleAdvancedType
  | _ => True

theorem tolls_of_deed {c c' : Core rt} {d : Deed rt} (hd : Core.Does c d c') (hs : d.Silent) :
    Tolls c c' := by
  cases hd with
  | counted => exact hs.elim
  | sealed => exact hs.elim
  | recorded =>
    rename_i n
    have hn : n.nodeType ≠ cycleAdvancedType := hs
    refine ⟨[], ?_, .nil⟩
    simp [cycleNodes, List.filter_append, hn]
  | _ => exact ⟨[], (List.append_nil _).symm, .nil⟩

theorem tolls_of_silent {c c' : Core rt} {ds : List (Deed rt)} (hp : Path Core.Does c ds c')
    (hds : ∀ d ∈ ds, d.Silent) : Tolls c c' := by
  induction hp with
  | nil => exact Std.Refl.refl (r := Tolls) _
  | cons hd _ ih =>
    rw [List.forall_mem_cons] at hds
    exact IsTrans.trans (r := Tolls) _ _ _ (tolls_of_deed hd hds.1) (ih hds.2)

/-! ### What tolls -/

section

variable {h t h' : Host env rt}

theorem tolls_of_performs {P : List (Deed rt) → Prop} (hP : ∀ ds, P ds → ∀ d ∈ ds, d.Silent)
    (hp : Unless HostCollided (PerformsOne P) h h') :
    Unless HostCollided (fun h h' => Tolls h.core h'.core) h h' :=
  hp.imp fun ⟨_, hds, hpath⟩ => tolls_of_silent hpath.core (hP _ hds)

theorem tolls_trans (h1 : Unless HostCollided (fun h h' => Tolls h.core h'.core) h t)
    (h2 : Unless HostCollided (fun h h' => Tolls h.core h'.core) t h') :
    Unless HostCollided (fun h h' => Tolls h.core h'.core) h h' :=
  h1.trans h2 (IsTrans.trans (r := Tolls) _ _ _)

theorem silent_halts (ds : List (Deed rt)) (hd : Halts ds) : ∀ d ∈ ds, d.Silent := by
  cases hd with
  | nothing => exact nofun
  | exited => simp [Deed.Silent]

theorem silent_rollsBack (ds : List (Deed rt)) (hd : RollsBack ds) : ∀ d ∈ ds, d.Silent := by
  cases hd with
  | nothing => exact nofun
  | rolledBack => simp [Deed.Silent]

theorem silent_verdict {outcome : DualValidationCycle} {d : Deed rt} (hd : Verdict outcome d) :
    d.Silent := by
  cases hd <;> trivial

theorem silent_notes {ds : List (Deed rt)} (hd : Notes ds) : ∀ d ∈ ds, d.Silent := by
  intro d hm
  obtain ⟨ms, rfl, -⟩ := hd d hm
  trivial

/-- The counter is set and the event says so. -/
theorem tolls_sealing {next : UInt64} {r : Except SubstrateError PUnit}
    (hle : h.server.cycleCounter ≤ next)
    (he : (emit cycleAdvancedType (encodeCycleAdvanced h.server.cycleCounter next)).exec
      { h with server := { h.server with cycleCounter := next } } = some (r, h')) :
    Unless HostCollided (fun h h' => Tolls h.core h'.core) h h' := by
  have hrec := (does_emitReplayed (p := cycleAdvancedType) (by simp [replayedTexts])
    (by simp [startsWith])).within _ _ _ he
  refine ⟨hrec.stays, fun hc => ?_⟩
  obtain ⟨_, ⟨hn⟩, hp⟩ := hrec.holds hc
  rename_i n
  have hd := Path.singleton_iff.1 hp.core
  refine ⟨[n], ?_, .cons ⟨span_encode hn, hle⟩ ?_⟩
  · generalize h'.core = c at hd
    cases hd
    show cycleNodes (h.core.log ++ [n]) = _
    simp [cycleNodes, List.filter_append, hn.type_eq]
  · generalize h'.core = c at hd
    cases hd
    exact .nil

theorem tolls_flush {r : Except SubstrateError PUnit}
    (he : flushPendingSelfDriven.exec h = some (r, h')) :
    Unless HostCollided (fun h h' => Tolls h.core h'.core) h h' := by
  have hdropped : ∀ {h h' : Host env rt} {r : Except SubstrateError PUnit},
      (onServer (modify fun s : ServerState env =>
        { s with pendingSelfDrivenNoopCycles := 0 }) : Op env rt PUnit).exec h = some (r, h') →
      Unless HostCollided (fun h h' => Tolls h.core h'.core) h h' := by
    intro h h' r he
    obtain ⟨-, rfl⟩ := exec_setting he
    exact ⟨id, fun _ => ⟨[], (List.append_nil _).symm, .nil⟩⟩
  rw [flushPendingSelfDriven, Prog.exec_get_bind] at he
  split at he
  · exact hdropped he
  · obtain ⟨_, t, h1, h2⟩ := exec_sealing he
    exact tolls_trans (tolls_sealing le_saturatingAdd h1) (hdropped h2)

theorem tolls_runCycle {r : Except SubstrateError (AdvanceResponse rt)}
    (he : runCycle.exec h = some (r, h')) :
    Unless HostCollided (fun h h' => Tolls h.core h'.core) h h' := by
  rw [runCycle_eq, countCycle, bind_assoc] at he
  have hadvanced : ∀ {r : Except SubstrateError (AdvanceResponse rt)} {t : Host env rt},
      handleAdvanceRequest.exec h = some (r, t) →
      Unless HostCollided (fun h h' => Tolls h.core h'.core) h t := by
    intro r t h1
    refine (performs_handleAdvance h1).imp ?_
    rintro (⟨_, report, -, -, hp⟩ | ⟨_, -, ds, hds, hp⟩)
    · exact tolls_of_silent hp.core (by simp [Deed.Silent])
    · exact tolls_of_silent hp.core (silent_halts ds hds)
  rcases Prog.exec_bind_eq_some.1 he with ⟨e, h1, rfl⟩ | ⟨response, t, h1, h2⟩
  · exact hadvanced h1
  simp only [bind_assoc, pure_bind] at h2
  rw [Prog.exec_get_bind] at h2
  obtain ⟨_, u, h3, h4⟩ := exec_sealing h2
  obtain ⟨x, v, h5, h6⟩ := succeeds_attempt.exec_bind h4
  obtain ⟨y, h7, -⟩ := Prog.exec_attempt_eq_some.1 h5
  cases h6
  refine tolls_trans (hadvanced h1) (tolls_trans (tolls_sealing le_saturatingAdd h3) ?_)
  refine (performs_runMigrationStep h7).imp ?_
  rintro ⟨d, hd, hp⟩
  refine tolls_of_silent hp.core fun d' hd' => ?_
  rw [List.mem_singleton.1 hd']
  exact silent_verdict hd

theorem tolls_advance {r : Except SubstrateError (AdvanceResponse rt)}
    (he : advance.exec h = some (r, h')) :
    Unless HostCollided (fun h h' => Tolls h.core h'.core) h h' := by
  rw [advance, Prog.exec_get_bind] at he
  split at he
  · cases he
    exact ⟨id, fun _ => Std.Refl.refl (r := Tolls) h.core⟩
  · exact tolls_runCycle he

theorem tolls_tick {selfDriven : Bool} {a : Option (AdvanceResponse rt)}
    (he : (tick selfDriven).exec h = some (.ok a, h')) :
    Unless HostCollided (fun h h' => Tolls h.core h'.core) h h' := by
  have hchecked : ∀ {b : Option (AdvanceResponse rt)} {t : Host env rt},
      ((do checkMigrationWindow; pure b : Op env rt (Option (AdvanceResponse rt)))).exec t =
        some (.ok a, h') → Unless HostCollided (fun h h' => Tolls h.core h'.core) t h' := by
    intro b t he
    obtain ⟨_, h1⟩ := exec_of_bind_pure he
    exact tolls_of_performs silent_rollsBack (performs_checkMigrationWindow h1)
  rw [tick, Prog.exec_get_bind] at he
  split at he
  · rcases Prog.exec_bind_eq_some.1 he with ⟨e, -, hx⟩ | ⟨b, t, h1, h2⟩
    · cases hx
    refine tolls_trans ?_ (hchecked h2)
    rw [drive, Prog.exec_get_bind] at h1
    split at h1
    · obtain ⟨_, h3⟩ := exec_of_bind_pure h1
      obtain ⟨-, rfl⟩ := exec_setting h3
      exact ⟨id, fun _ => ⟨[], (List.append_nil _).symm, .nil⟩⟩
    · obtain ⟨_, u, h3, h4⟩ := succeeds_attempt.exec_bind h1
      obtain ⟨_, h5, -⟩ := Prog.exec_attempt_eq_some.1 h3
      obtain ⟨_, v, h6, h7⟩ := succeeds_attempt.exec_bind h4
      obtain ⟨_, h8, -⟩ := Prog.exec_attempt_eq_some.1 h6
      cases h7
      exact tolls_trans (tolls_flush h5) (tolls_runCycle h8)
  · rw [pure_bind] at he
    exact hchecked he

theorem silent_node {p nodeType : String} {content : Bytes} {n : DagNode}
    (hn : IsNode (p ++ nodeType) content n) (hp : Apart p cycleAdvancedType) :
    (Deed.recorded n : Deed rt).Silent := by
  show n.nodeType ≠ cycleAdvancedType
  rw [hn.type_eq]
  exact ne_of_startsWith startsWith_append hp

/-- No request but a cycle moves the counter. -/
theorem silent_request {q : Request} (hq : q ≠ .advance) {answer : Except SubstrateError PUnit}
    (ds : List (Deed rt)) (hd : Event.Tells (.request q answer) ds) : ∀ d ∈ ds, d.Silent := by
  cases q with
  | registerAxis m =>
    cases answer with
    | error _ => exact silent_halts ds hd
    | ok _ =>
      cases (show Registers m.payload ds from hd) with
      | unread _ _ => simp [Deed.Silent]
      | recorded _ _ hn =>
        exact List.forall_mem_cons.2 ⟨trivial, List.forall_mem_singleton.2
          (silent_node hn (by decide))⟩
  | perturb m =>
    cases answer with
    | error _ => exact silent_halts ds hd
    | ok _ =>
      cases (show Perturbs m.payload ds from hd) with
      | unread _ _ => simp [Deed.Silent]
      | recorded _ _ hn =>
        exact List.forall_mem_cons.2 ⟨trivial, List.forall_mem_singleton.2
          (silent_node hn (by decide))⟩
  | perturbFromRaw m =>
    cases answer with
    | error _ => exact silent_halts ds hd
    | ok _ =>
      cases (show PerturbsFromRaw m.payload ds from hd) with
      | mk _ _ hn =>
        exact List.forall_mem_cons.2 ⟨trivial, List.forall_mem_singleton.2
          (silent_node hn (by decide))⟩
  | advance => exact absurd rfl hq
  | submitMutation m =>
    cases (show Submits m ds from hd) with
    | halts hd => exact silent_halts ds hd
    | other hn hr =>
      exact List.forall_mem_append.2 ⟨silent_notes hn, silent_rollsBack _ hr⟩
    | evolved _ hn => exact List.forall_mem_cons.2 ⟨trivial, silent_notes hn⟩
    | built _ => simp [Deed.Silent]
    | opened _ _ => simp [Deed.Silent]

theorem tolls_round {m m' : Machine env rt} {x : Event × Option (RealCycle rt)}
    (hr : Round m x m') :
    Unless HostCollided (fun h h' => Tolls h.core h'.core) m.host m'.host := by
  have hstep : ∀ {m m' : Machine env rt} {e : Event}, Step m e m' → ¬ e.Starts →
      (∀ ds : List (Deed rt), e.Tells ds → ∀ d ∈ ds, d.Silent) →
      Unless HostCollided (fun h h' => Tolls h.core h'.core) m.host m'.host :=
    fun hs hstart hP => tolls_of_performs hP (step_performs hs hstart)
  cases hr with
  | advance _ hf ha => exact tolls_trans (tolls_flush hf) (tolls_advance ha)
  | request hq hg hf he =>
    rename_i q answer h h'
    have hs := (flush_clock hf).2
    have hserved : Step { m with host := h } (.request q answer) { m with host := h' } :=
      .request (m := { m with host := h }) (hs.greeted.trans hg) hs.pending he
    exact tolls_trans (tolls_flush hf) (hstep hserved id (silent_request hq))
  | flush hf => exact tolls_flush hf
  | tick _ he => exact tolls_tick he
  | other hs =>
    refine hstep hs id fun ds hd => ?_
    rw [show ds = [] from hd]
    exact nofun
  | workerExit hs => exact hstep hs id silent_halts
  | hello hs =>
    cases hs
    exact ⟨id, fun _ => ⟨[], (List.append_nil _).symm, .nil⟩⟩

end

/-! ### Axes that are not recorded -/

/-- A schema diff that adds an axis. -/
def AddsAxis (rt : Runtime) (content : Bytes) : Prop :=
  ∃ diff, parseSchemaDiff rt content = .ok diff ∧ diff.op = .addAxisToGradient

/-- A registration whose numbers only the worker reads, or a schema evolution that adds an axis. -/
def Request.Unrecorded (rt : Runtime) : Request → Prop
  | .registerAxis m => (∃ fields, @readAxis rt m.payload = .ok fields) ∧
      buildAxisRegisteredEvent rt m.payload = none
  | .submitMutation m => earlyMutationType m = schemaEvolutionType ∧ ∃ content,
      OrdMap.get "content_canonical_bytes" m.payload = some (.bytes content) ∧ AddsAxis rt content
  | _ => False

/-- A diff that adds no axis does not apply where there is none. -/
theorem addsAxis_of_evolves {content : Bytes} {g g' : GradientConfiguration rt}
    (he : Evolves content g g') (hg : g.names = []) : AddsAxis rt content := by
  obtain ⟨diff, hparse, happly⟩ := he
  refine ⟨diff, hparse, ?_⟩
  cases hop : diff.op with
  | addAxisToGradient => rfl
  | modifyAxisThreshold =>
    exfalso
    have hfails : ∀ k, applyModifyAxisThreshold diff g ≠ .ok k := by
      intro k hk
      unfold applyModifyAxisThreshold at hk
      split at hk
      · cases hk
      · obtain ⟨_, -, hk⟩ := bind_eq_ok.1 hk
        obtain ⟨_, -, hk⟩ := bind_eq_ok.1 hk
        rw [hg, if_neg List.not_mem_nil] at hk
        cases hk
    simp only [attemptSchemaDiff, hop] at happly
    split at happly
    · exact hfails _ ‹_›
    all_goals cases happly

/-! ### Without an axis -/

/-- Neither the worker nor its candidate has an axis, and none has been recorded. -/
structure Bare (c : Core rt) : Prop where
  worker : ∀ w ∈ c.python, w.gradient.names = [] ∧ ∀ g ∈ w.candidateGradient, g.names = []
  log : ∀ n ∈ c.log, ¬ startsWith axisRegisteredPrefix n.nodeType

/-- A cycle leaves the candidate, if there is one, the axes that it has. -/
theorem names_candidate_advanced {w : DispatcherState rt} {cycle : UInt64}
    {g : GradientConfiguration rt} (hg : g ∈ (advanced w cycle).2.candidateGradient) :
    ∃ k ∈ w.candidateGradient, g.names = k.names := by
  simp only [advanced] at hg
  cases hk : w.candidateGradient with
  | none =>
    rw [hk] at hg
    cases hg
  | some k =>
    refine ⟨k, rfl, ?_⟩
    rw [hk] at hg
    dsimp only at hg
    split at hg
    · cases hg
      exact GradientConfiguration.names_advance
    · cases hg
      exact GradientConfiguration.names_turn

/-- Gives nobody an axis. -/
def Deed.Barren : Deed rt → Prop
  | .registered _ => False
  | .evolved content => ¬ AddsAxis rt content
  | .built content => ¬ AddsAxis rt content
  | .recorded n => ¬ startsWith axisRegisteredPrefix n.nodeType
  | _ => True

theorem bare_of_deed {c c' : Core rt} {d : Deed rt} (hd : Core.Does c d c') (hbarren : d.Barren)
    (hb : Bare c) : Bare c' := by
  cases hd with
  | registered _ _ _ => exact hbarren.elim
  | perturbed hw hg =>
    have hmem := (GradientConfiguration.perturbAxis_eq_ok.1 hg).1
    rw [(hb.worker _ hw).1] at hmem
    cases hmem
  | evolved hw hg => exact absurd (addsAxis_of_evolves hg (hb.worker _ hw).1) hbarren
  | built hw hg => exact absurd (addsAxis_of_evolves hg (hb.worker _ hw).1) hbarren
  | advanced hw ha =>
    rename_i w w' report
    obtain ⟨hg, hk⟩ := hb.worker w hw
    obtain rfl : (advanced w (c.cycleCounter + 1)).2 = w' := congrArg Prod.snd ha
    refine ⟨fun v hv => ?_, hb.log⟩
    cases hv
    refine ⟨?_, fun k hmem => ?_⟩
    · rw [gradient_advanced, GradientConfiguration.names_turn, hg]
    · obtain ⟨k', hk', hnames⟩ := names_candidate_advanced hmem
      rw [hnames, hk k' hk']
  | committed _ _ =>
    refine ⟨fun w hw => ?_, hb.log⟩
    obtain ⟨v, hv, rfl⟩ := Option.mem_map.1 hw
    obtain ⟨hg, hk⟩ := hb.worker v hv
    refine ⟨?_, nofun⟩
    show (v.candidateGradient.getD v.gradient).names = []
    cases hcand : v.candidateGradient with
    | none => exact hg
    | some k => exact hk k hcand
  | rolledBack _ =>
    refine ⟨fun w hw => ?_, hb.log⟩
    obtain ⟨v, hv, rfl⟩ := Option.mem_map.1 hw
    exact ⟨(hb.worker v hv).1, nofun⟩
  | recorded =>
    refine ⟨hb.worker, fun n hn => ?_⟩
    rcases List.mem_append.1 hn with hn | hn
    · exact hb.log n hn
    · exact List.mem_singleton.1 hn ▸ hbarren
  | exited => exact ⟨nofun, hb.log⟩
  | opened _ _ _ => exact ⟨hb.worker, hb.log⟩
  | counted => exact ⟨hb.worker, hb.log⟩
  | kept _ => exact hb
  | pended _ => exact ⟨hb.worker, hb.log⟩
  | sealed => exact ⟨hb.worker, hb.log⟩
  | dropped => exact ⟨hb.worker, hb.log⟩
  | noted => exact hb

theorem bare_of_path {c c' : Core rt} {ds : List (Deed rt)} (hp : Path Core.Does c ds c')
    (hds : ∀ d ∈ ds, d.Barren) (hb : Bare c) : Bare c' := by
  induction hp with
  | nil => exact hb
  | cons hd _ ih =>
    rw [List.forall_mem_cons] at hds
    exact ih hds.2 (bare_of_deed hd hds.1 hb)

/-! ### Registrations that are counted -/

/-- The registrations that have been counted. -/
def registered : Watch where
  texts := cultivationTexts
  View := UInt64
  see s := s.axisRegisterCount
  uncommon := dial.uncommon
  cultivation := fun _ h => h

theorem sedentary_registered : registered.Sedentary := ⟨by decide, fun _ _ => rfl⟩

theorem heedless_registered : registered.Heedless := ⟨by decide, fun _ _ => rfl, fun _ _ => rfl⟩

section

variable {h t h' : Host env rt}

theorem Spares.registered (hs : Spares registered h h') :
    h'.server.axisRegisterCount = h.server.axisRegisterCount := hs.see

/-- A registration that is acknowledged is counted if its event can be read. -/
theorem registerAxis_counted {m : Message} {r : Except SubstrateError (Reply rt)}
    (he : (registerAxis m).exec h = some (r, h')) :
    (h'.server.axisRegisterCount = h.server.axisRegisterCount ∧
      ∀ reply, r = .ok reply → buildAxisRegisteredEvent rt m.payload = none) ∨
    h'.server.axisRegisterCount = saturatingAdd h.server.axisRegisterCount 1 := by
  rw [registerAxis, Prog.exec_get_bind] at he
  split at he
  · have hb := (spares_quarantineBlock (W := registered) _ _ _ he).registered
    rcases Prog.exec_bind_eq_some.1 he with ⟨e, -, rfl⟩ | ⟨_, t, -, h2⟩
    · exact .inl ⟨hb, fun _ hr => by cases hr⟩
    · cases h2
      exact .inl ⟨hb, fun _ hr => by cases hr⟩
  rcases Prog.exec_bind_eq_some.1 he with ⟨e, h1, rfl⟩ | ⟨reply, t, h1, h2⟩
  · exact .inl ⟨(spares_forwardToPython (W := registered) _ _ _ h1).registered,
      fun _ hr => by cases hr⟩
  have hforwarded := (spares_forwardToPython (W := registered) _ _ _ h1).registered
  obtain ⟨x, h3⟩ := exec_of_bind_pure h2
  rw [recordAxisRegistered] at h3
  split at h3
  · cases h3
    exact .inl ⟨hforwarded, fun _ _ => ‹_›⟩
  · obtain ⟨_, u, h4, h5⟩ := succeeds_emit.exec_bind h3
    have hemitted := (spares_emit (W := registered) (not_watched (p := axisRegisteredPrefix)
      startsWith_append (by decide)) _ _ _ h4).registered
    obtain ⟨-, rfl⟩ := exec_setting h5
    refine .inr ?_
    show saturatingAdd u.server.axisRegisterCount 1 = _
    rw [hemitted, hforwarded]

theorem saturatingAdd_one_ne_zero {n : UInt64} : saturatingAdd n 1 ≠ 0 := by
  intro h
  have hn := congrArg UInt64.toNat h
  rw [saturatingAdd_toNat, UInt64.toNat_zero, show (1 : UInt64).toNat = 1 from rfl] at hn
  omega

theorem request_registered {q : Request} (hq : ∀ m, q ≠ .registerAxis m)
    {answer : Except SubstrateError PUnit} (he : q.run.exec h = some (answer, h')) :
    h'.server.axisRegisterCount = h.server.axisRegisterCount := by
  have hspares : Within (Spares registered) (q.run : Op env rt PUnit) := by
    cases q with
    | registerAxis m => exact absurd rfl (hq m)
    | perturb m => exact within_bind (spares_perturb (by decide)) fun _ => within_pure
    | perturbFromRaw m => exact within_bind (spares_perturbFromRaw (by decide)) fun _ => within_pure
    | advance =>
      exact within_bind (spares_advance sedentary_registered (by decide) fun _ _ => rfl) fun _ =>
        within_pure
    | submitMutation m =>
      exact within_bind (spares_handleSubmitMutation heedless_registered sedentary_registered)
        fun _ => within_pure
  exact (hspares _ _ _ he).registered

theorem flush_registered {r : Except SubstrateError PUnit}
    (he : flushPendingSelfDriven.exec h = some (r, h')) :
    h'.server.axisRegisterCount = h.server.axisRegisterCount :=
  (spares_flush (W := registered) (by decide) (fun _ _ => rfl) (fun _ _ => rfl) _ _ _ he).registered

end

/-! ### Barren deeds -/

section

variable {ds : List (Deed rt)}

theorem barren_node {p nodeType : String} {content : Bytes} {n : DagNode}
    (hn : IsNode (p ++ nodeType) content n) (hp : Apart p axisRegisteredPrefix) :
    (Deed.recorded n : Deed rt).Barren := by
  show ¬ startsWith axisRegisteredPrefix n.nodeType
  rw [hn.type_eq]
  exact not_startsWith startsWith_append hp

theorem barren_cycle {content : Bytes} {n : DagNode} (hn : IsNode cycleAdvancedType content n) :
    (Deed.recorded n : Deed rt).Barren := by
  show ¬ startsWith axisRegisteredPrefix n.nodeType
  rw [hn.type_eq]
  decide

theorem barren_halts (hd : Halts ds) : ∀ d ∈ ds, d.Barren := by
  cases hd <;> simp [Deed.Barren]

theorem barren_rollsBack (hd : RollsBack ds) : ∀ d ∈ ds, d.Barren := by
  cases hd <;> simp [Deed.Barren]

theorem barren_notes (hd : Notes ds) : ∀ d ∈ ds, d.Barren := by
  intro d hm
  obtain ⟨ms, rfl, -⟩ := hd d hm
  trivial

theorem barren_flushes (hd : Flushes ds) : ∀ d ∈ ds, d.Barren := by
  cases hd with
  | dropped => simp [Deed.Barren]
  | sealed hn =>
    exact List.forall_mem_cons.2 ⟨trivial, List.forall_mem_cons.2 ⟨barren_cycle hn,
      List.forall_mem_singleton.2 trivial⟩⟩

theorem barren_cycles (hd : Cycles ds) : ∀ d ∈ ds, d.Barren := by
  cases hd with
  | mk hn hv =>
    refine List.forall_mem_cons.2 ⟨trivial, List.forall_mem_cons.2 ⟨trivial,
      List.forall_mem_cons.2 ⟨barren_cycle hn, List.forall_mem_singleton.2 ?_⟩⟩⟩
    cases hv <;> trivial

theorem barren_ticks (hd : Ticks ds) : ∀ d ∈ ds, d.Barren := by
  cases hd with
  | mk hdrives hrolls =>
    refine List.forall_mem_append.2 ⟨?_, barren_rollsBack hrolls⟩
    cases hdrives with
    | idle => exact nofun
    | pended => simp [Deed.Barren]
    | cycled hf hc =>
      exact List.forall_mem_append.2 ⟨barren_flushes hf, hc.elim barren_cycles barren_halts⟩

/-- All that may give the worker an axis is a registration and a schema evolution. -/
theorem barren_request {q : Request} {answer : Except SubstrateError PUnit}
    (hu : ¬ q.Unrecorded rt) (hreg : ∀ m, q = .registerAxis m → ∀ a, answer = .ok a →
      buildAxisRegisteredEvent rt m.payload = none)
    (hd : Event.Tells (.request q answer) ds) : ∀ d ∈ ds, d.Barren := by
  cases q with
  | registerAxis m =>
    cases answer with
    | error _ => exact barren_halts hd
    | ok a =>
      have hnone := hreg m rfl a rfl
      cases (show Registers m.payload ds from hd) with
      | unread hread _ => exact absurd ⟨⟨_, hread⟩, hnone⟩ hu
      | recorded _ hbuild _ => cases hnone.symm.trans hbuild
  | perturb m =>
    cases answer with
    | error _ => exact barren_halts hd
    | ok _ =>
      cases (show Perturbs m.payload ds from hd) with
      | unread _ _ => simp [Deed.Barren]
      | recorded _ _ hn =>
        exact List.forall_mem_cons.2 ⟨trivial, List.forall_mem_singleton.2
          (barren_node hn (by decide))⟩
  | perturbFromRaw m =>
    cases answer with
    | error _ => exact barren_halts hd
    | ok _ =>
      cases (show PerturbsFromRaw m.payload ds from hd) with
      | mk _ _ hn =>
        exact List.forall_mem_cons.2 ⟨trivial, List.forall_mem_singleton.2
          (barren_node hn (by decide))⟩
  | advance =>
    cases answer with
    | error _ => exact barren_halts hd
    | ok _ => exact barren_cycles hd
  | submitMutation m =>
    have hadds : ∀ {mode : Bool} {content : Bytes}, Applies m mode content →
        ¬ AddsAxis rt content := fun ha hadd => hu ⟨ha.mutationType, _, ha.content_eq, hadd⟩
    cases (show Submits m ds from hd) with
    | halts hd => exact barren_halts hd
    | other hn hr => exact List.forall_mem_append.2 ⟨barren_notes hn, barren_rollsBack hr⟩
    | evolved ha hn => exact List.forall_mem_cons.2 ⟨hadds ha, barren_notes hn⟩
    | built ha => exact List.forall_mem_singleton.2 (hadds ha)
    | opened ha _ =>
      exact List.forall_mem_cons.2 ⟨hadds ha, List.forall_mem_singleton.2 trivial⟩

end

/-! ### Rounds before the first registration -/

section

variable {m m' : Machine env rt} {x : Event × Option (RealCycle rt)}

/-- A round counts a registration, or none is acknowledged in it whose event can be read. -/
theorem Round.registered (hr : Round m x m') :
    (m'.host.server.axisRegisterCount = m.host.server.axisRegisterCount ∧
      ∀ q a, x.1 = .request (.registerAxis q) (.ok a) →
        buildAxisRegisteredEvent rt q.payload = none) ∨
    m'.host.server.axisRegisterCount = saturatingAdd m.host.server.axisRegisterCount 1 := by
  cases hr with
  | advance _ hf ha =>
    refine .inl ⟨?_, fun q a hx => by cases hx⟩
    rw [← flush_registered hf]
    exact (spares_advance sedentary_registered (by decide) (fun _ _ => rfl) _ _ _ ha).registered
  | request hq hg hf he =>
    rename_i q answer h h'
    rw [← flush_registered hf]
    cases q with
    | registerAxis q =>
      obtain ⟨r, h1⟩ := exec_of_bind_pure (k := fun _ => PUnit.unit)
        (show (registerAxis q >>= fun _ => pure ⟨⟩ : Op env rt PUnit).exec h = some (answer, h')
          from he)
      refine (registerAxis_counted h1).imp_left fun ⟨hcount, hnone⟩ => ⟨hcount, fun q' a hx => ?_⟩
      cases hx
      cases r with
      | ok reply => exact hnone reply rfl
      | error e =>
        rw [Request.run, Prog.exec_bind, h1] at he
        cases he
    | perturb q => exact .inl ⟨request_registered (by simp) he, fun q' a hx => by cases hx⟩
    | perturbFromRaw q => exact .inl ⟨request_registered (by simp) he, fun q' a hx => by cases hx⟩
    | advance => exact absurd rfl hq
    | submitMutation q => exact .inl ⟨request_registered (by simp) he, fun q' a hx => by cases hx⟩
  | flush hf => exact .inl ⟨flush_registered hf, fun q a hx => by cases hx⟩
  | tick _ he =>
    exact .inl ⟨(spares_tick sedentary_registered (by decide) (fun _ _ => rfl) (fun _ _ => rfl)
      _ _ _ he).registered, fun q a hx => by cases hx⟩
  | other hs =>
    cases hs with
    | other ha =>
      have hsee := ha.see
      simp only [vital, settings, Prod.mk.injEq] at hsee
      exact .inl ⟨hsee.1.2.2.2.1, fun q a hx => by cases hx⟩
  | workerExit hs =>
    cases hs
    exact .inl ⟨rfl, fun q a hx => by cases hx⟩
  | hello hs =>
    cases hs
    exact .inl ⟨rfl, fun q a hx => by cases hx⟩

/-- While no registration has been counted nobody has an axis, if none is given without a record. -/
theorem Round.bare (hr : Round m x m')
    (hu : ∀ q answer, x.1 = .request q answer → m.host.server.axisRegisterCount = 0 →
      ¬ q.Unrecorded rt)
    (hi : ¬ HostCollided m.host → m.host.server.axisRegisterCount = 0 → Bare m.host.core) :
    ¬ HostCollided m'.host → m'.host.server.axisRegisterCount = 0 → Bare m'.host.core := by
  intro hc hzero
  obtain ⟨hsame, hnone⟩ : m'.host.server.axisRegisterCount = m.host.server.axisRegisterCount ∧
      ∀ q a, x.1 = .request (.registerAxis q) (.ok a) →
        buildAxisRegisteredEvent rt q.payload = none := by
    rcases hr.registered with h | h
    · exact h
    · exact absurd (h.symm.trans hzero) saturatingAdd_one_ne_zero
  have hzero' := hsame.symm.trans hzero
  by_cases hstart : x.1.Starts
  · cases hr with
    | hello hs =>
      cases hs with
      | hello hg hid hw =>
        have hb := hi hc hzero'
        have hlog : ∀ n ∈ m.host.server.nodes, ¬ startsWith axisRegisteredPrefix n.nodeType := by
          intro n hn hreg
          refine hb.log n ?_ hreg
          exact List.mem_filter.2 ⟨hn, decide_eq_true ⟨_, by simp [replayedTexts], hreg⟩⟩
        obtain ⟨hnames, hcand⟩ := empty_of_hydrates hlog hw
        refine ⟨fun v hv => ?_, hb.log⟩
        cases hv
        refine ⟨hnames, ?_⟩
        rw [hcand]
        exact fun _ hs => by cases hs
    | _ => exact hstart.elim
  · have hp := hr.performs hstart
    obtain ⟨ds, hds, hpath⟩ := hp.holds hc
    have htold : ∀ es : List (Deed rt), x.1.Tells es → ∀ d ∈ es, d.Barren := by
      intro es hes
      cases hx : x.1 with
      | request q answer =>
        rw [hx] at hes
        refine barren_request (hu q answer hx hzero') (fun q' hq a ha => ?_) hes
        exact hnone q' a (by rw [hx, hq, ha])
      | flush =>
        rw [hx] at hes
        exact barren_flushes hes
      | tick =>
        rw [hx] at hes
        exact barren_ticks hes
      | workerExit =>
        rw [hx] at hes
        exact barren_halts hes
      | _ =>
        rw [hx] at hes
        rw [show es = [] from hes]
        exact List.forall_mem_nil _
    refine bare_of_path hpath.core ?_ (hi (fun hb => hc (hp.stays hb)) hzero')
    rcases hds with hds | ⟨es, fs, hes, hfs, rfl⟩
    · exact htold ds hds
    · exact List.forall_mem_append.2 ⟨barren_flushes hes, htold fs hfs⟩

end

/-! ### The account of the clock -/

/-- What an idle cycle may be counted in. -/
structure Quiet (h : Host env rt) : Prop where
  bare : Bare h.core
  migration : h.server.migrationCandidate = none
  peers : h.server.federation.peers = []

/-- The spans tile all that the counter has gone, what is pending is sealed before a request is
dispatched, and idle cycles are counted only in quiet. -/
structure Accounted (m : Machine env rt) : Prop where
  tiles : Tiles 0 (cycleNodes m.host.server.nodes) m.host.server.cycleCounter
  dispatched : ∀ r h, flushPendingSelfDriven.exec m.host = some (r, h) →
    h.server.pendingSelfDrivenNoopCycles = 0
  counted : ∀ x m', Round m x m' →
    m.host.server.pendingSelfDrivenNoopCycles < m'.host.server.pendingSelfDrivenNoopCycles →
    Quiet m.host

/-- No axis is given without a record before a registration has been counted. -/
def AllRecorded (m : Machine env rt) (xs : List (Event × Option (RealCycle rt)))
    (m' : Machine env rt) : Prop :=
  Path.Always Round (fun u x _ => ∀ q answer, x.1 = .request q answer →
    u.host.server.axisRegisterCount = 0 → ¬ q.Unrecorded rt) m xs m'

section

variable {m m' : Machine env rt} {x : Event × Option (RealCycle rt)}
  {xs : List (Event × Option (RealCycle rt))}

theorem cycleNodes_log {h : Host env rt} : cycleNodes h.core.log = cycleNodes h.server.nodes := by
  show (h.server.nodes.filter _).filter _ = h.server.nodes.filter _
  rw [List.filter_filter]
  refine List.filter_congr fun n _ => ?_
  by_cases hn : n.nodeType = cycleAdvancedType
  · have hw : Watched replayedTexts n.nodeType :=
      ⟨cycleAdvancedType, by simp [replayedTexts], by rw [hn]; simp [startsWith]⟩
    rw [hn] at hw
    simp [hn, hw]
  · simp [hn]

theorem tolls_rounds (hr : Rounds m xs m') :
    Unless HostCollided (fun h h' => Tolls h.core h'.core) m.host m'.host := by
  induction hr with
  | nil => exact ⟨id, fun _ => Std.Refl.refl (r := Tolls) _⟩
  | cons hround _ ih => exact tolls_trans (tolls_round hround) ih

/-- An idle cycle is counted in a round that idles. -/
theorem Round.idles (hr : Round m x m')
    (hp : m.host.server.pendingSelfDrivenNoopCycles < m'.host.server.pendingSelfDrivenNoopCycles) :
    Idles x.1 m.host.server := by
  rw [UInt64.lt_iff_toNat_lt] at hp
  have hmoves := hr.moves
  generalize x.2 = cycle at hmoves
  cases hmoves with
  | stopped _ hpending =>
    rw [hpending] at hp
    omega
  | counted hidles _ _ => exact hidles
  | sealed hs =>
    rw [hs.pending, UInt64.toNat_zero] at hp
    omega
  | cycled _ hpending _ _ =>
    rw [hpending, UInt64.toNat_zero] at hp
    omega

theorem rounds_bare {files : BootFiles} (hr : Rounds (.boot files .new) xs m)
    (hu : AllRecorded (.boot files .new) xs m) :
    ¬ HostCollided m.host → m.host.server.axisRegisterCount = 0 → Bare m.host.core := by
  have hall := hu
  rw [AllRecorded, ← List.append_nil xs] at hall
  refine hall.keeps (I := fun u : Machine env rt => ¬ HostCollided u.host →
    u.host.server.axisRegisterCount = 0 → Bare u.host.core)
    (fun u x v hround hi hrec => hround.bare hrec hi) (fun _ _ => ⟨fun w hw => ?_, fun n hn => ?_⟩)
    hr .nil
  · cases hw
  · cases hn

/-- In a run from the genesis in which no axis is given without a record, the clock is accounted
for. -/
theorem clock_accounted {files : BootFiles} (hf : files.manifest = .empty)
    (hr : Rounds (.boot files .new) xs m) (hu : AllRecorded (.boot files .new) xs m)
    (hc : ¬ HostCollided m.host) : Accounted m := by
  obtain ⟨ns, hlog, htiles⟩ := (tolls_rounds hr).holds hc
  refine ⟨?_, fun r h he => (flush_clock he).2.pending, fun x m' hround hlt => ?_⟩
  · rw [← cycleNodes_log, hlog]
    have hstart : (Machine.boot files .new : Machine env rt).host.core.cycleCounter = 0 := by
      show (bootState files .new : ServerState env).cycleCounter = 0
      have hnone : (derivedState (Ledger.new : Ledger env.blake3).dag).substrateId.isSome = false :=
        rfl
      simp only [bootState, hnone, hf]
      rfl
    rw [hstart] at htiles
    exact htiles
  · obtain ⟨-, -, hinert, -, -⟩ := hround.idles hlt
    simp only [isProvablyInertForBatch, Bool.and_eq_true, Option.isNone_iff_eq_none, beq_iff_eq,
      Bool.not_eq_true', FederationState.active, Bool.or_eq_false_iff,
      List.isEmpty_iff, Bool.not_eq_false'] at hinert
    obtain ⟨⟨⟨-, hmigration⟩, hcount⟩, -, hpeers⟩ := hinert
    exact ⟨rounds_bare hr hu hc hcount, hmigration, hpeers⟩

theorem firstHour_accounted : ∃ xs, ∃ m : Machine foldingEnv wholeNumbers,
    Rounds (.boot noFiles .new) xs m ∧ m.host.server.cycleCounter = 5 ∧
    m.host.server.axisRegisterCount = 1 ∧ (cycleNodes m.host.server.nodes).length = 4 ∧
    Accounted m := by
  obtain ⟨xs, m, hr, hc, hlived, hrequests⟩ := firstHour_rounds
  simp only [livedOn, Bool.and_eq_true, beq_iff_eq] at hlived
  obtain ⟨⟨hcounter, haxis⟩, hcycles⟩ := hlived
  refine ⟨xs, m, hr, hcounter, haxis, hcycles,
    clock_accounted (show noFiles.manifest = .empty from rfl) hr ?_ hc⟩
  intro ys x zs u v hxs _ _ _ q answer hx _ hq
  have hmem := hrequests x (hxs ▸ List.mem_append_right _ List.mem_cons_self) q answer hx
  simp only [firstHour, List.mem_cons, Input.request.injEq, List.not_mem_nil, or_false, reduceCtorEq,
    false_or] at hmem
  rcases hmem with rfl | rfl
  · exact hq
  · exact absurd hq.2 (by decide)

end

/-! ### A registration that only the worker reads -/

section

/-- A registration whose threshold is written with an underscore. -/
def underscored : Message :=
  ⟨"register_axis", 1, OrdMap.ofList utf8 [("name", .string "sap"), ("axis_class", .string "decay"),
    ("fruiting_threshold_repr", .string "1_0"), ("initial_value_repr", .string "0"),
    ("decay_rate_per_cycle_repr", .string "0"), ("is_mortality_signal", .bool false),
    ("update_rule_kind", .string "decay")]⟩

/-- An idle cycle is counted while the worker has an axis. -/
theorem idle_with_axis : ∃ xs m, Rounds (.boot noFiles .new) xs m ∧ ¬ HostCollided m.host ∧
    ¬ Accounted (m : Machine smallEnv wholeNumbers) := by
  have h : (plays greeted.host [.request (.registerAxis underscored)]).any (fun p =>
      decide p.2.server.ledger.Sound && p.2.python.any (·.gradient.names == ["sap"]) &&
        (play p.2 (.tick true)).any fun q => decide
          (p.2.server.pendingSelfDrivenNoopCycles < q.2.server.pendingSelfDrivenNoopCycles)) =
      true := by decide
  obtain ⟨⟨xs, u⟩, hplays, hp⟩ := (Option.any_eq_true _ _).1 h
  simp only [Bool.and_eq_true, decide_eq_true_eq] at hp
  obtain ⟨⟨hsound, hnames⟩, htick⟩ := hp
  obtain ⟨⟨x, v⟩, hx, hcounted⟩ := (Option.any_eq_true _ _).1 htick
  rw [decide_eq_true_iff] at hcounted
  refine ⟨_, { greeted with host := u }, greeted_rounds.append (rounds_of_plays hplays),
    not_not.2 hsound, fun ha => ?_⟩
  obtain ⟨w, hw, hsap⟩ := (Option.any_eq_true _ _).1 hnames
  have hquiet := ha.counted x _ (round_of_play (m := { greeted with host := u }) hx) hcounted
  have hnone := (hquiet.bare.worker w hw).1
  rw [hnone] at hsap
  cases hsap

end

end Myco.Tropism
