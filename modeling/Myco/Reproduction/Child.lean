import Myco.Reproduction.Sprout
import Myco.Tropism.Hydration

/-!
# What a child's log says

The log that a parent writes for a child holds one node for each of `childEvents`, in order. The
child reads it with readers of its own: the derived state (`fromDag_child`), the quarantine
(`quarantine_child`) and the replay of the gradient (`hydrates_child`), and each finds there what
the parent has meant by it.
-/

namespace Myco.Reproduction

open Myco.Lib Myco.Canonical Myco.Schema Myco.Substrate Myco.Federation Myco.Prune Myco.Tropism

open scoped List

variable {env : Env} {rt : Runtime}

/-! ### One node for each event -/

structure Records (e : ChildEvent) (n : DagNode) : Prop where
  nodeType : n.nodeType = e.nodeType
  createdAtCycle : n.createdAtCycle = 0
  content : n.content = e.content
  fits : n.content.length ≤ isizeMax

def IsChildLog (events : List ChildEvent) (nodes : List DagNode) : Prop :=
  List.Forall₂ Records events nodes

theorem IsChildLog.append {es fs : List ChildEvent} {ns : List DagNode}
    (h : IsChildLog (es ++ fs) ns) :
    ∃ ms ks, ns = ms ++ ks ∧ IsChildLog es ms ∧ IsChildLog fs ks := by
  induction es generalizing ns with
  | nil => exact ⟨[], ns, rfl, .nil, h⟩
  | cons e es ih =>
    obtain ⟨n, ns, hn, hns, rfl⟩ := List.forall₂_cons_left_iff.1 h
    obtain ⟨ms, ks, rfl, hms, hks⟩ := ih hns
    exact ⟨n :: ms, ks, rfl, .cons hn hms, hks⟩

/-- What holds of the types of the events holds of the types of the nodes. -/
theorem IsChildLog.forall_types {P : String → Prop} {es : List ChildEvent} {ns : List DagNode}
    (h : IsChildLog es ns) (hP : ∀ e ∈ es, P e.nodeType) : ∀ n ∈ ns, P n.nodeType := by
  induction h with
  | nil => simp
  | cons hn _ ih =>
    rw [List.forall_mem_cons] at hP ⊢
    exact ⟨hn.nodeType ▸ hP.1, ih hP.2⟩

theorem insertChild_ok {e : ChildEvent} {l l' : Ledger env.blake3} {u : PUnit}
    (h : (insertChild e).exec l = some (.ok u, l')) :
    ∃ n, l'.nodes = l.nodes ++ [n] ∧ Records e n := by
  rw [insertChild, Prog.exec_get_bind] at h
  dsimp only at h
  split at h
  · rename_i halloc
    rw [Prog.exec_modify_bind] at h
    have hp : (⟨l.tip.toList, e.nodeType, 0, e.content⟩ : Insertion).parentHashes =
        l.tip.toList ++ [] := (List.append_nil _).symm
    rcases Ledger.push_tip_cases hp with ⟨err, -, ha, -⟩ | ⟨ha, hn⟩
    · rw [ha] at h
      cases h
    · rw [ha] at h
      cases h
      exact ⟨_, hn, rfl, rfl, rfl, halloc.1⟩
  · cases h

theorem insertChildren_ok {es : List ChildEvent} {l l' : Ledger env.blake3} {u : PUnit}
    (h : (es.forM insertChild).exec l = some (.ok u, l')) :
    ∃ ns, l'.nodes = l.nodes ++ ns ∧ IsChildLog es ns := by
  induction es generalizing l with
  | nil =>
    cases h
    exact ⟨[], by simp, .nil⟩
  | cons e es ih =>
    have hcons : (e :: es).forM insertChild =
        (insertChild e >>= fun _ => es.forM insertChild : Prog (Ledger env.blake3) _ _) := rfl
    rw [hcons] at h
    rcases Prog.exec_bind_eq_some.1 h with ⟨err, -, hr⟩ | ⟨v, t, h1, h2⟩
    · cases hr
    · obtain ⟨n, hn, hrec⟩ := insertChild_ok h1
      obtain ⟨ns, hns, hlog⟩ := ih h2
      exact ⟨n :: ns, by rw [hns, hn, List.append_assoc]; rfl, .cons hrec hlog⟩

theorem buildChild_ok {es : List ChildEvent} {p p' : Parent env} {child : Ledger env.blake3}
    (h : (buildChild es).exec p = some (.ok child, p')) : p' = p ∧ IsChildLog es child.nodes := by
  rw [buildChild] at h
  split at h
  · cases h
  · cases h
  · rename_i u l hl
    cases h
    obtain ⟨ns, hns, hlog⟩ := insertChildren_ok hl
    exact ⟨rfl, hns ▸ hlog⟩

/-! ### What kinds of events there are -/

variable {fl : FloatDifference rt} {c : Conception rt}

def genesisEvent (c : Conception rt) : ChildEvent :=
  ⟨"child genesis_event insert", genesisEventNodeType c.childId,
    encodeGenesisEvent c.childId c.genesisTimeUnixNs c.generationDepth⟩

def closureEvent (c : Conception rt) : ChildEvent :=
  ⟨"child birth_closure_pending insert", birthClosurePendingNodeType c.parentId,
    encodeBirthClosurePending c.parentId c.childId c.sporeSchemaHash⟩

def hintEvents (c : Conception rt) : List ChildEvent :=
  c.hint.toList.map fun h => ⟨"parent_federation_hint insert", parentFederationHintType,
    encodeParentFederationHint c.parentId h.1 h.2⟩

def quarantineEvents (c : Conception rt) : List ChildEvent :=
  c.quarantine.toList.map fun q => ⟨"birth_period_quarantine_entered insert",
    birthPeriodQuarantineEnteredType,
    encodeBirthPeriodQuarantineEntered c.parentId q.1 quarantineDurationCycles q.2⟩

theorem childEvents_eq : childEvents fl c = [genesisEvent c] ++ ([closureEvent c] ++
    (hintEvents c ++ (quarantineEvents c ++ c.schemas.flatMap (axisEvents fl)))) := by
  rw [← List.append_assoc, ← List.append_assoc, ← List.append_assoc]
  rfl

theorem hintEvents_type : ∀ e ∈ hintEvents c, e.nodeType = parentFederationHintType := by
  intro e he
  obtain ⟨h, -, rfl⟩ := List.mem_map.1 he
  rfl

theorem quarantineEvents_type :
    ∀ e ∈ quarantineEvents c, e.nodeType = birthPeriodQuarantineEnteredType := by
  intro e he
  obtain ⟨q, -, rfl⟩ := List.mem_map.1 he
  rfl

theorem axisEvents_type {schemas : List (AxisSchemaInfo rt)} :
    ∀ e ∈ schemas.flatMap (axisEvents fl), startsWith axisRegisteredPrefix e.nodeType ∨
      startsWith axisPerturbedPrefix e.nodeType := by
  intro e he
  obtain ⟨i, -, hi⟩ := List.mem_flatMap.1 he
  rw [axisEvents, List.mem_cons] at hi
  rcases hi with rfl | hi
  · exact .inl startsWith_append
  · split at hi
    · cases List.mem_singleton.1 hi
      exact .inr startsWith_append
    · cases hi

/-! ### The derived state -/

theorem pureRecord_child : ∀ e ∈ [closureEvent c] ++ (hintEvents c ++ (quarantineEvents c ++
    c.schemas.flatMap (axisEvents fl))), family e.nodeType = .pureRecord := by
  intro e he
  simp only [List.mem_append, List.mem_singleton] at he
  rcases he with rfl | he | he | he
  · exact family_pureRecord (p := birthClosurePendingPrefix) startsWith_append (by decide)
  · rw [hintEvents_type e he]
    decide
  · rw [quarantineEvents_type e he]
    decide
  · rcases axisEvents_type e he with h | h
    · exact family_pureRecord h (by decide)
    · exact family_pureRecord h (by decide)

/-- What the state of a child is derived to be. -/
def bornAs (c : Conception rt) : DerivedState :=
  { DerivedState.empty with
    substrateId := some c.childId
    genesisTimeUnixNs := some c.genesisTimeUnixNs
    generationDepth := c.generationDepth }

theorem fromDag_child {child : Ledger env.blake3}
    (h : IsChildLog (childEvents fl c) child.nodes) : fromDag child.dag = .ok (bornAs c) := by
  rw [childEvents_eq] at h
  obtain ⟨ms, ks, hnodes, hms, hks⟩ := h.append
  obtain ⟨n, ns, hn, hns, rfl⟩ := List.forall₂_cons_left_iff.1 hms
  cases hns
  have hgenesis : applyEventWithDag (some child.dag) n .empty = (.ok (), bornAs c) :=
    apply_genesis hn.nodeType hn.content hn.fits rfl
  have hrest : ∀ s, replay (applyEventWithDag (some child.dag)) ks s = (.ok (), s) :=
    replay_const fun m hm s => apply_pureRecord (hks.forall_types (P := fun t =>
      family t = .pureRecord) pureRecord_child m hm)
  have hreplay : replay (applyEventWithDag (some child.dag)) child.dag.iterInInsertionOrder
      DerivedState.empty = (.ok (), bornAs c) := by
    show replay _ child.nodes _ = _
    rw [hnodes, replay_append_of_const hrest, replay, hgenesis]
    rfl
  rw [fromDag, hreplay]
  rfl

/-! ### Quarantine -/

theorem quarantineEvent_other {ns : List DagNode} (h : ∀ n ∈ ns,
    n.nodeType ≠ birthPeriodQuarantineEnteredType ∧ n.nodeType ≠ birthPeriodQuarantineLiftedType)
    (q : Option QuarantineState) : ns.foldl quarantineEvent q = q := by
  induction ns generalizing q with
  | nil => rfl
  | cons n ns ih =>
    rw [List.forall_mem_cons] at h
    rw [List.foldl_cons, quarantineEvent, if_neg h.1.1, if_neg h.1.2]
    exact ih h.2 q

theorem quarantineEvent_entered {n : DagNode} {parentId : Hash32} {summary : List NodeHash}
    {at_ : Int64} (ht : n.nodeType = birthPeriodQuarantineEnteredType)
    (hcycle : n.createdAtCycle = 0) (hc : n.content =
      encodeBirthPeriodQuarantineEntered parentId summary quarantineDurationCycles at_)
    (hmem : n.content.length ≤ isizeMax) (q : Option QuarantineState) :
    quarantineEvent q n = some ⟨10, false⟩ := by
  have hwf : WFItems (summary.map hashValue) := by
    rw [wfItems_iff]
    intro v hv
    obtain ⟨h, -, rfl⟩ := List.mem_map.1 hv
    trivial
  rw [hc, encodeBirthPeriodQuarantineEntered] at hmem
  have hduration : quarantineDuration n = quarantineDurationCycles := by
    rw [quarantineDuration, hc, encodeBirthPeriodQuarantineEntered,
      decodeMap?_cbEncode hmem (by simp [Value.WF, hwf, hashValue]), Option.bind_some,
      uint?_eq (n := quarantineDurationCycles) (by simp [get_mapOf, OrdMap.get_cons])]
    rfl
  have hexpires : saturatingAdd 0 quarantineDurationCycles = 10 := by decide
  rw [quarantineEvent, if_pos ht, hduration, hcycle, hexpires]

theorem quarantine_child {child : Ledger env.blake3} {files : BootFiles}
    (h : IsChildLog (childEvents fl c) child.nodes) :
    isInBirthPeriodQuarantine (bootState files child : ServerState env) = c.quarantine.isSome := by
  have hcycle : (bootState files child : ServerState env).cycleCounter = 0 := by
    show (if (derivedState child.dag).substrateId.isSome then derivedState child.dag
      else files.manifest).cycleCounter = 0
    rw [derivedState, fromDag_child h]
    rfl
  rw [childEvents_eq, ← List.append_assoc, ← List.append_assoc] at h
  obtain ⟨ms, ks, hnodes, hms, hks⟩ := h.append
  obtain ⟨qs, as, rfl, hqs, has⟩ := hks.append
  have hbefore : ∀ q, ms.foldl quarantineEvent q = q := by
    refine quarantineEvent_other (hms.forall_types (P := fun t =>
      t ≠ birthPeriodQuarantineEnteredType ∧ t ≠ birthPeriodQuarantineLiftedType) ?_)
    intro e he
    simp only [List.mem_append, List.mem_singleton] at he
    rcases he with (rfl | rfl) | he
    · exact ⟨ne_of_startsWith (p := genesisPrefix) startsWith_append (by decide),
        ne_of_startsWith (p := genesisPrefix) startsWith_append (by decide)⟩
    · exact ⟨ne_of_startsWith (p := birthClosurePendingPrefix) startsWith_append (by decide),
        ne_of_startsWith (p := birthClosurePendingPrefix) startsWith_append (by decide)⟩
    · rw [hintEvents_type e he]
      decide
  have hafter : ∀ q, as.foldl quarantineEvent q = q := by
    refine quarantineEvent_other (has.forall_types (P := fun t =>
      t ≠ birthPeriodQuarantineEnteredType ∧ t ≠ birthPeriodQuarantineLiftedType) ?_)
    intro e he
    rcases axisEvents_type e he with ht | ht
    · exact ⟨ne_of_startsWith ht (by decide), ne_of_startsWith ht (by decide)⟩
    · exact ⟨ne_of_startsWith ht (by decide), ne_of_startsWith ht (by decide)⟩
  have hstate : currentQuarantineState (bootState files child : ServerState env) =
      qs.foldl quarantineEvent none := by
    show child.nodes.foldl quarantineEvent none = _
    rw [hnodes, List.foldl_append, List.foldl_append, hbefore, hafter]
  rw [isInBirthPeriodQuarantine, hstate, hcycle]
  cases hq : c.quarantine with
  | none =>
    have hnil : quarantineEvents c = [] := by rw [quarantineEvents, hq]; rfl
    rw [hnil] at hqs
    cases hqs
    rfl
  | some q =>
    have hone : quarantineEvents c = [⟨"birth_period_quarantine_entered insert",
        birthPeriodQuarantineEnteredType,
        encodeBirthPeriodQuarantineEntered c.parentId q.1 quarantineDurationCycles q.2⟩] := by
      rw [quarantineEvents, hq]
      rfl
    rw [hone] at hqs
    obtain ⟨n, ns, hn, hns, rfl⟩ := List.forall₂_cons_left_iff.1 hqs
    cases hns
    rw [List.foldl_cons, List.foldl_nil,
      quarantineEvent_entered hn.nodeType hn.createdAtCycle hn.content hn.fits]
    rfl

/-! ### The gradient -/

/-- The words that the worker has for classes and rules. -/
def classText : AxisClass → String
  | .appetite => "appetite"
  | .decay => "decay"

def ruleText : UpdateRule → String
  | .decay => "decay"
  | .noop => "noop"

/-- `_handle_query_gradient_schemas`: the axes by name. -/
def gradientSchemas (g : GradientConfiguration rt) : List (AxisSchemaInfo rt) :=
  (g.slots.mergeSort fun a b => decide (a.name ≤ b.name)).map fun s =>
    ⟨s.name, classText s.axis.schema.axisClass, s.axis.schema.fruitingThreshold,
      s.axis.schema.initialValue, s.axis.value, s.axis.schema.decayRatePerCycle,
      s.axis.schema.isMortalitySignal, ruleText s.rule⟩

/-- Axes of a worker: of distinct names, with classes and rules that it knows. -/
structure OfWorker (schemas : List (AxisSchemaInfo rt)) : Prop where
  nodup : (schemas.map AxisSchemaInfo.name).Nodup
  known : ∀ i ∈ schemas, ∃ k r, i.axisClass = classText k ∧ i.updateRuleKind = ruleText r

theorem ofWorker_gradientSchemas (g : GradientConfiguration rt) : OfWorker (gradientSchemas g) := by
  refine ⟨?_, fun i hi => ?_⟩
  · have hperm : (g.slots.mergeSort fun a b => decide (a.name ≤ b.name)).map Slot.name ~
        g.slots.map Slot.name := (List.mergeSort_perm _ _).map _
    rw [gradientSchemas, List.map_map]
    exact hperm.nodup_iff.2 g.nodup
  · obtain ⟨s, -, rfl⟩ := List.mem_map.1 hi
    exact ⟨_, _, rfl, rfl⟩

theorem parameters_of_known {i : AxisSchemaInfo rt} {k : AxisClass} {r : UpdateRule}
    (hk : i.axisClass = classText k) (hr : i.updateRuleKind = ruleText r) :
    i.event.parameters = .ok (⟨i.name, k, i.fruitingThreshold, i.initialValue,
      i.decayRatePerCycle, i.isMortalitySignal⟩, r) := by
  have hclass : AxisClass.ofString? i.event.axisClass = some k := by
    rw [AxisSchemaInfo.event, hk]
    cases k <;> rfl
  have hrule : UpdateRule.ofString? i.event.updateRuleKind = some r := by
    rw [AxisSchemaInfo.event, hr]
    cases r <;> rfl
  rw [AxisRegisteredEvent.parameters, hclass]
  dsimp only
  rw [hrule]
  rfl

/-- An axis with the parameters that are told, and the initial value plus what it has gained. -/
structure Seeded (fl : FloatDifference rt) (i : AxisSchemaInfo rt) (v : AxisView rt) : Prop where
  name : v.schema.name = i.name
  axisClass : classText v.schema.axisClass = i.axisClass
  fruitingThreshold : v.schema.fruitingThreshold = i.fruitingThreshold
  initialValue : v.schema.initialValue = i.initialValue
  decayRatePerCycle : v.schema.decayRatePerCycle = i.decayRatePerCycle
  isMortalitySignal : v.schema.isMortalitySignal = i.isMortalitySignal
  rule : ruleText v.rule = i.updateRuleKind
  value : v.value = rt.add i.initialValue (i.delta fl) ∨
    fl.ne v.value (rt.add i.initialValue (i.delta fl)) = false

theorem modify_of_notMem {v : View rt} {n : String} {f : AxisView rt → AxisView rt}
    (h : n ∉ v.names) : v.modify n f = v := by
  refine (List.map_congr_left fun a ha => ?_).trans (List.map_id' v)
  have hne : a.schema.name ≠ n := fun he => h (he ▸ List.mem_map_of_mem ha)
  exact if_neg hne

/-- One axis is replayed to a worker that does not have it. -/
theorem replays_axis {i : AxisSchemaInfo rt} {ns : List DagNode} {w : DispatcherState rt}
    {k : AxisClass} {r : UpdateRule} (hk : i.axisClass = classText k)
    (hr : i.updateRuleKind = ruleText r) (hlog : IsChildLog (axisEvents fl i) ns)
    (hfresh : i.name ∉ w.gradient.names) :
    ∃ g v, Replays replayNode ns w { w with gradient := g } ∧ g.view = w.gradient.view ++ [v] ∧
      Seeded fl i v := by
  have hparams := parameters_of_known hk hr
  obtain ⟨n, ms, hn, hms, rfl⟩ := List.forall₂_cons_left_iff.1 hlog
  obtain ⟨g, hg⟩ : ∃ g, w.gradient.registerAxis ⟨i.name, k, i.fruitingThreshold, i.initialValue,
      i.decayRatePerCycle, i.isMortalitySignal⟩ r = .ok g := ⟨_, dif_neg hfresh⟩
  have hview := GradientConfiguration.view_registerAxis hg
  have hreg := replayNode_axisRegistered hn.nodeType hn.content hn.fits hparams hg
  split at hms
  · obtain ⟨m, ks, hm, hks, rfl⟩ := List.forall₂_cons_left_iff.1 hms
    cases hks
    have hnames : i.name ∈ g.names := by
      rw [← GradientConfiguration.names_view, hview]
      simp [View.names, View.register]
    obtain ⟨g', hg'⟩ : ∃ g', g.perturbAxis i.name (i.delta fl) = .ok g' := ⟨_, if_pos hnames⟩
    have hpert := replayNode_axisPerturbed (w := { w with gradient := g }) hm.nodeType hm.content
      hm.fits hg'
    refine ⟨g', ⟨⟨i.name, k, i.fruitingThreshold, i.initialValue, i.decayRatePerCycle,
      i.isMortalitySignal⟩, rt.add i.initialValue (i.delta fl), r⟩,
      replays_cons.2 ⟨_, hreg, replays_singleton.2 hpert⟩, ?_, ?_⟩
    · rw [GradientConfiguration.view_perturbAxis hg', hview, View.perturb, View.register,
        View.modify, List.map_append]
      congr 1
      · exact modify_of_notMem fun hmem => hfresh (by rwa [← GradientConfiguration.names_view])
      · simp [AxisView.perturb]
    · exact ⟨rfl, hk.symm, rfl, rfl, rfl, rfl, hr.symm, .inl rfl⟩
  · rename_i hzero
    cases hms
    refine ⟨g, _, replays_singleton.2 hreg, hview, rfl, hk.symm, rfl, rfl, rfl, rfl, hr.symm, ?_⟩
    exact .inr (fl.add_sub _ _ (Bool.eq_false_iff.2 hzero))

theorem replays_axes {schemas : List (AxisSchemaInfo rt)} {ns : List DagNode}
    {w : DispatcherState rt} (hs : OfWorker schemas)
    (hlog : IsChildLog (schemas.flatMap (axisEvents fl)) ns)
    (hfresh : ∀ i ∈ schemas, i.name ∉ w.gradient.names) :
    ∃ g vs, Replays replayNode ns w { w with gradient := g } ∧ g.view = w.gradient.view ++ vs ∧
      List.Forall₂ (Seeded fl) schemas vs := by
  induction schemas generalizing ns w with
  | nil =>
    cases hlog
    exact ⟨w.gradient, [], replays_nil.2 rfl, by simp, .nil⟩
  | cons i is ih =>
    rw [List.flatMap_cons] at hlog
    obtain ⟨ms, ks, rfl, hms, hks⟩ := hlog.append
    have hnodup := List.nodup_cons.1 hs.nodup
    rw [List.forall_mem_cons] at hfresh
    obtain ⟨k, r, hk, hr⟩ := hs.known i List.mem_cons_self
    obtain ⟨g, v, h1, hg, hv⟩ := replays_axis hk hr hms hfresh.1
    have hfresh' : ∀ j ∈ is, j.name ∉ g.names := by
      intro j hj hmem
      rw [← GradientConfiguration.names_view, hg, View.names, List.map_append,
        List.mem_append] at hmem
      rcases hmem with hmem | hmem
      · refine hfresh.2 j hj ?_
        rwa [← GradientConfiguration.names_view]
      · have hname : j.name = i.name := (List.mem_singleton.1 hmem).trans hv.name
        exact hnodup.1 (hname ▸ List.mem_map_of_mem hj)
    obtain ⟨g', vs, h2, hg', hvs⟩ := ih (w := { w with gradient := g })
      ⟨hnodup.2, fun j hj => hs.known j (List.mem_cons_of_mem _ hj)⟩ hks hfresh'
    refine ⟨g', v :: vs, replays_append.2 ⟨_, h1, h2⟩, ?_, .cons hv hvs⟩
    rw [hg', hg, List.append_assoc]
    rfl

theorem hydrates_child {child : Ledger env.blake3} (hs : OfWorker c.schemas)
    (h : IsChildLog (childEvents fl c) child.nodes) :
    ∃ w, Hydrates child.nodes w ∧ w.candidateGradient = none ∧
      List.Forall₂ (Seeded fl) c.schemas w.gradient.view := by
  rw [childEvents_eq, ← List.append_assoc, ← List.append_assoc, ← List.append_assoc] at h
  obtain ⟨ms, ks, hnodes, hms, hks⟩ := h.append
  have hquiet : ∀ m ∈ ms, ¬ Watched replayedTexts m.nodeType := by
    refine hms.forall_types (P := fun t => ¬ Watched replayedTexts t) fun e he => ?_
    simp only [List.mem_append, List.mem_singleton] at he
    rcases he with ((rfl | rfl) | he) | he
    · exact not_watched (p := genesisPrefix) startsWith_append (by decide)
    · exact not_watched (p := birthClosurePendingPrefix) startsWith_append (by decide)
    · rw [hintEvents_type e he]
      decide
    · rw [quarantineEvents_type e he]
      decide
  have hbefore : Replays replayNode ms (.fresh : DispatcherState rt) .fresh :=
    replay_const (fun m hm w => replayNode_of_not_watched (hquiet m hm) w) _
  obtain ⟨g, vs, h1, hg, hvs⟩ := replays_axes (w := .fresh) hs hks fun i _ => by
    simp [DispatcherState.fresh, GradientConfiguration.empty, GradientConfiguration.names]
  refine ⟨_, hnodes ▸ replays_append.2 ⟨_, hbefore, h1⟩, rfl, ?_⟩
  have hview : g.view = vs := hg
  exact hview ▸ hvs

/-! ### Whole numbers -/

def wholeNe (x y : Int) : Bool := decide (x ≠ y)

theorem wholeNe_add_sub (x y : Int) (h : wholeNe (x - y) 0 = false) :
    wholeNe y (y + (x - y)) = false := by
  simp only [wholeNe, ne_eq, decide_not, Bool.not_eq_false', decide_eq_true_eq] at h ⊢
  omega

def wholeDifference : FloatDifference wholeNumbers where
  sub x y := Int.sub x y
  ne := wholeNe
  zero := (0 : Int)
  add_sub := wholeNe_add_sub

end Myco.Reproduction
