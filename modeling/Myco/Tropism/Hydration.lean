import Myco.Tropism.Replay

/-!
# What replaying an event does

An event of a registration holds all that the request for it held, and an event of a perturbation
too. So replaying it to a worker does to its gradient what was done when the event was written
(`replayNode_axisRegistered`, `replayNode_axisPerturbed`), as long as the worker accepts it.
-/

namespace Myco.Tropism

open Myco.Lib Myco.Canonical Myco.Schema Myco.Substrate Myco.Prune

variable {rt : Runtime} {event : AxisRegisteredEvent rt} {axisName : String} {delta : rt.F}

/-! ### The worker reads what it is sent -/

theorem string_entries {k s : String} {es : Payload}
    (h : OrdMap.get k es.reverse = some (.string s)) :
    stringItem (OrdMap.ofList utf8 es) k = .ok s := by
  rw [stringItem, expectString, item_expect_eq_ok, get_mapOf, h]
  rfl

theorem float_entries {k : String} {x : rt.F} {es : Payload}
    (h : OrdMap.get k es.reverse = some (.string (rt.floatRepr x))) :
    floatItem (OrdMap.ofList utf8 es) k = .ok x := by
  rw [floatItem, string_entries h, ok_bind, toFloat, Runtime.float_floatRepr]

theorem readAxis_registerAxisPayload : readAxis (registerAxisPayload event) = .ok event := by
  have hbool : (item (registerAxisPayload event) "is_mortality_signal" >>= expectBool) =
      .ok event.isMortalitySignal := by
    rw [expectBool, item_expect_eq_ok, registerAxisPayload, get_mapOf]
    simp [AxisRegisteredEvent.entries, OrdMap.get_cons, Value.bool?]
  rw [readAxis, hbool, registerAxisPayload,
    string_entries (s := event.name) (by simp [AxisRegisteredEvent.entries, OrdMap.get_cons]),
    string_entries (s := event.axisClass) (by simp [AxisRegisteredEvent.entries, OrdMap.get_cons]),
    float_entries (x := event.fruitingThreshold)
      (by simp [AxisRegisteredEvent.entries, OrdMap.get_cons]),
    float_entries (x := event.initialValue)
      (by simp [AxisRegisteredEvent.entries, OrdMap.get_cons]),
    float_entries (x := event.decayRatePerCycle)
      (by simp [AxisRegisteredEvent.entries, OrdMap.get_cons]),
    string_entries (s := event.updateRuleKind)
      (by simp [AxisRegisteredEvent.entries, OrdMap.get_cons])]
  rfl

theorem readPerturbation_perturbPayload :
    readPerturbation (perturbPayload axisName delta) = .ok (axisName, delta) := by
  rw [readPerturbation, perturbPayload,
    string_entries (s := axisName) (by simp [perturbEntries, OrdMap.get_cons]),
    float_entries (x := delta) (by simp [perturbEntries, OrdMap.get_cons])]
  rfl

/-! ### The substrate reads what it has written -/

section

variable {n : DagNode} {what k : String} {es : Payload}

theorem replayMap_cbEncode (hc : n.content = cbEncode es) (hmem : n.content.length ≤ isizeMax)
    (hwf : ∀ e ∈ es, e.2.WF) : replayMap what n = .ok (OrdMap.ofList utf8 es) := by
  rw [replayMap, hc, decode_cbEncode (hc ▸ hmem) hwf]
  rfl

theorem replayString_entries {s : String} (h : OrdMap.get k es.reverse = some (.string s)) :
    replayString what (OrdMap.ofList utf8 es) k = .ok s := by
  simp [replayString, mapGetString, mapGet, get_mapOf, h, Value.string?, Except.mapError]

theorem replayFloat_entries {x : rt.F}
    (h : OrdMap.get k es.reverse = some (.string (rt.floatRepr x))) :
    replayFloat rt what (OrdMap.ofList utf8 es) k = .ok x := by
  rw [replayFloat, replayString_entries h, ok_bind, Runtime.f64_floatRepr]
  rfl

theorem replayRequest_axisRegistered (ht : n.nodeType = axisRegisteredPrefix ++ event.name)
    (hc : n.content = encodeAxisRegistered event) (hmem : n.content.length ≤ isizeMax) :
    replayRequest rt n = .ok (some (.registerAxis, registerAxisPayload event)) := by
  have hmap : ∀ what, replayMap what n = .ok (OrdMap.ofList utf8 event.entries) := fun _ =>
    replayMap_cbEncode hc hmem (by simp [AxisRegisteredEvent.entries, Value.WF])
  have hbool : bool? (OrdMap.ofList utf8 event.entries) "is_mortality_signal" =
      some event.isMortalitySignal := by
    rw [bool?, get_mapOf]
    simp [AxisRegisteredEvent.entries, OrdMap.get_cons, Value.bool?]
  have hread : readAxisRegistered rt event.name n = .ok event := by
    rw [readAxisRegistered, hmap, ok_bind,
      replayString_entries (s := event.axisClass)
        (by simp [AxisRegisteredEvent.entries, OrdMap.get_cons]),
      replayFloat_entries (x := event.fruitingThreshold)
        (by simp [AxisRegisteredEvent.entries, OrdMap.get_cons]),
      replayFloat_entries (x := event.initialValue)
        (by simp [AxisRegisteredEvent.entries, OrdMap.get_cons]),
      replayFloat_entries (x := event.decayRatePerCycle)
        (by simp [AxisRegisteredEvent.entries, OrdMap.get_cons]), hbool,
      replayString_entries (s := event.updateRuleKind)
        (by simp [AxisRegisteredEvent.entries, OrdMap.get_cons])]
    rfl
  rw [replayRequest, ht, stripPrefix_append]
  dsimp only
  rw [hread]
  rfl

theorem replayRequest_axisPerturbed (ht : n.nodeType = axisPerturbedPrefix ++ axisName)
    (hc : n.content = encodeAxisPerturbed axisName delta) (hmem : n.content.length ≤ isizeMax) :
    replayRequest rt n = .ok (some (.perturb, perturbPayload axisName delta)) := by
  have hnone : stripPrefix axisRegisteredPrefix n.nodeType = none :=
    stripPrefix_eq_none (p := axisPerturbedPrefix) (ht ▸ startsWith_append) (by decide)
  have hmap : ∀ what, replayMap what n =
      .ok (OrdMap.ofList utf8 (perturbEntries axisName delta)) := fun _ =>
    replayMap_cbEncode hc hmem (by simp [perturbEntries, Value.WF])
  rw [replayRequest, hnone, ht, stripPrefix_append]
  dsimp only
  rw [hmap, ok_bind, replayFloat_entries (x := delta) (by simp [perturbEntries, OrdMap.get_cons])]
  rfl

end

/-! ### One event -/

section

variable {n : DagNode} {w : DispatcherState rt} {g : GradientConfiguration rt}

theorem replayNode_axisRegistered {schema : AxisSchema rt} {rule : UpdateRule}
    (ht : n.nodeType = axisRegisteredPrefix ++ event.name)
    (hc : n.content = encodeAxisRegistered event) (hmem : n.content.length ≤ isizeMax)
    (hp : event.parameters = .ok (schema, rule))
    (hg : w.gradient.registerAxis schema rule = .ok g) :
    replayNode n w = (.ok (), { w with gradient := g }) := by
  have hd : dispatch w .registerAxis (registerAxisPayload event) =
      .ok (.registerAxisAck, { w with gradient := g }) :=
    handleRegisterAxis_eq_ok.2
      ⟨event, schema, rule, g, readAxis_registerAxisPayload, hp, hg, rfl, rfl⟩
  rw [replayNode, replayRequest_axisRegistered ht hc hmem]
  dsimp only
  rw [replayCall, hd]
  rfl

theorem replayNode_axisPerturbed (ht : n.nodeType = axisPerturbedPrefix ++ axisName)
    (hc : n.content = encodeAxisPerturbed axisName delta) (hmem : n.content.length ≤ isizeMax)
    (hg : w.gradient.perturbAxis axisName delta = .ok g) :
    replayNode n w = (.ok (), { w with gradient := g }) := by
  have hd : dispatch w .perturb (perturbPayload axisName delta) =
      .ok (.perturbAck, { w with gradient := g }) :=
    handlePerturb_eq_ok.2 ⟨axisName, delta, g, readPerturbation_perturbPayload, hg, rfl, rfl⟩
  rw [replayNode, replayRequest_axisPerturbed ht hc hmem]
  dsimp only
  rw [replayCall, hd]
  rfl

end

/-! ### A log without axes -/

/-- What is replayed and registers nothing perturbs an axis or is a cycle. -/
theorem replayRequest_unregistered {n : DagNode} {t : MessageType} {payload : Payload}
    (hreg : stripPrefix axisRegisteredPrefix n.nodeType = none)
    (h : replayRequest rt n = .ok (some (t, payload))) :
    t = .perturb ∨ ∃ c, t = .advance ∧ payload = advancePayload c := by
  rw [replayRequest, hreg] at h
  dsimp only at h
  split at h
  · obtain ⟨m, -, h⟩ := bind_eq_ok.1 h
    obtain ⟨delta, -, h⟩ := bind_eq_ok.1 h
    cases h
    exact .inl rfl
  · split at h
    · obtain ⟨m, -, h⟩ := bind_eq_ok.1 h
      obtain ⟨axisName, -, h⟩ := bind_eq_ok.1 h
      obtain ⟨delta, -, h⟩ := bind_eq_ok.1 h
      cases h
      exact .inl rfl
    · split at h
      · obtain ⟨m, -, h⟩ := bind_eq_ok.1 h
        split at h
        · cases h
          exact .inr ⟨_, rfl, rfl⟩
        · cases h
      · cases h

theorem replayCall_eq_ok {t : MessageType} {payload : Payload} {w w' : DispatcherState rt}
    (h : replayCall t payload w = (.ok (), w')) :
    ∃ reply, dispatch w t payload = .ok (reply, w') := by
  rw [replayCall] at h
  split at h
  · rename_i reply w'' hd
    split at h
    · cases h
      exact ⟨reply, hd⟩
    · cases h
  · cases h
  · cases h

/-- A log that registers no axis leaves an empty worker empty. -/
theorem empty_of_hydrates {ns : List DagNode} {w : DispatcherState rt}
    (h : ∀ n ∈ ns, ¬ startsWith axisRegisteredPrefix n.nodeType) (hw : Hydrates ns w) :
    w.gradient.names = [] ∧ w.candidateGradient = none := by
  refine Replays.inv (I := fun w => w.gradient.names = [] ∧ w.candidateGradient = none)
    (fun n hn w w' hempty hr => ?_) ⟨rfl, rfl⟩ hw
  have hreg : stripPrefix axisRegisteredPrefix n.nodeType = none := by
    rw [← Option.not_isSome_iff_eq_none, stripPrefix_isSome]
    exact h n hn
  rw [replayNode] at hr
  split at hr
  · cases hr
  · cases hr
    exact hempty
  · rename_i t payload hq
    obtain ⟨reply, hd⟩ := replayCall_eq_ok hr
    rcases replayRequest_unregistered hreg hq with rfl | ⟨c, rfl, rfl⟩
    · obtain ⟨name, delta, g, -, hg, -, -⟩ := handlePerturb_eq_ok.1 hd
      have hmem := (GradientConfiguration.perturbAxis_eq_ok.1 hg).1
      rw [hempty.1] at hmem
      cases hmem
    · rw [dispatch, handleAdvance_eq] at hd
      cases hd
      refine ⟨by rw [gradient_advanced, GradientConfiguration.names_turn, hempty.1], ?_⟩
      simp only [advanced, hempty.2]

end Myco.Tropism
