import Myco.Lib.Within
import Myco.Tropism.Evolution

/-!
# Applying a diff to objects

`apply_schema_diff` changes a gradient in place and `apply_schema_diff_to_copy` changes a deep copy
of it, so what they share matters. Here a gradient is an object with two dictionaries, and an axis
is an object that a dictionary refers to: both functions act on a memory of such objects.

`Memory.Holds` says which configuration an object stands for. The operations do to a configuration
what `attemptSchemaDiff` does (`applied_applyOp`); a failure leaves the object standing for what it
stood for, and what happens to a copy changes no object that was there before (`Extends`).
-/

namespace Myco.Tropism.Objects

open Myco.Lib Myco.Canonical
open Myco.Substrate (cbEncode)

variable {rt : Runtime}

/-! ### Memory -/

/-- A `GradientConfiguration`: which dictionaries it has. A reference to an object is a number. -/
structure GradientObject where
  axes : Nat
  updateRules : Nat

/-- The objects that can change. Nothing is at `next` or after it. An update rule has no state, so
a dictionary of rules has the rules themselves. -/
structure Memory (rt : Runtime) where
  axis : Nat → AppetiteAxis rt
  axes : Nat → List (String × Nat)
  updateRules : Nat → List (String × UpdateRule)
  gradient : Nat → GradientObject
  next : Nat

abbrev Acts (rt : Runtime) (α : Type) := Prog (Memory rt) PyError α

/-- `d[key] = value` -/
def dictSet {α : Type} (d : List (String × α)) (key : String) (value : α) : List (String × α) :=
  if key ∈ d.map Prod.fst then d.map fun e => if e.1 = key then (key, value) else e
  else d ++ [(key, value)]

theorem dictSet_of_not_mem {α : Type} {d : List (String × α)} {key : String} {value : α}
    (h : key ∉ d.map Prod.fst) : dictSet d key value = d ++ [(key, value)] := if_neg h

/-! ### Copies -/

/-- The axes that a dictionary refers to. -/
def Memory.refs (m : Memory rt) (dict : Nat) : List Nat := (m.axes dict).map Prod.snd

/-- Where the copy of an axis goes: the axes of a dictionary are copied to the free references in
their order, and one that has two names is copied once. -/
def Memory.relocated (m : Memory rt) (dict r : Nat) : Nat := m.next + (m.refs dict).idxOf r

/-- `copy.deepcopy` of a dictionary of axes -/
def copyAxes (dict : Nat) : Acts rt Nat := do
  let m ← get
  let copied := m.next + (m.refs dict).length
  modify fun m =>
    { m with
      axis := fun r => if r < m.next then m.axis r
        else ((m.refs dict)[r - m.next]?.map m.axis).getD (m.axis r)
      axes := Function.update m.axes copied
        ((m.axes dict).map fun e => (e.1, m.relocated dict e.2))
      next := copied + 1 }
  return copied

def copyUpdateRules (dict : Nat) : Acts rt Nat := do
  let m ← get
  modify fun m =>
    { m with
      updateRules := Function.update m.updateRules m.next (m.updateRules dict)
      next := m.next + 1 }
  return m.next

/-- `copy.deepcopy(gradient)`, which is `_snapshot_gradient` too -/
def deepcopy (gradient : Nat) : Acts rt Nat := do
  let m ← get
  let axes ← copyAxes (m.gradient gradient).axes
  let updateRules ← copyUpdateRules (m.gradient gradient).updateRules
  let m ← get
  modify fun m =>
    { m with
      gradient := Function.update m.gradient m.next ⟨axes, updateRules⟩
      next := m.next + 1 }
  return m.next

def restoreGradient (gradient snapshot : Nat) : Acts rt Unit := do
  let m ← get
  let axes ← copyAxes (m.gradient snapshot).axes
  modify fun m =>
    { m with gradient := Function.update m.gradient gradient { m.gradient gradient with axes } }
  let updateRules ← copyUpdateRules (m.gradient snapshot).updateRules
  modify fun m =>
    { m with
      gradient := Function.update m.gradient gradient { m.gradient gradient with updateRules } }

/-! ### What a diff says -/

/-- The new threshold. -/
def readNewThreshold (diff : SchemaDiff) : Except PyError rt.F :=
  match Py.mapGet diff.params (codePoints "new_threshold_repr") with
  | none => .error (.schemaEvolution "modify_axis_threshold: missing new_threshold_repr")
  | some value => do
    let newThresholdRepr ← pyExpectString value
    (@toFloat rt newThresholdRepr).mapError fun e =>
      .schemaEvolution s!"modify_axis_threshold: new_threshold_repr {
        rt.strRepr newThresholdRepr} parse: {e.text}"

/-- The schema and the update rule of the axis to be added. -/
def readAddedAxis (diff : SchemaDiff) : Except PyError (AxisSchema rt × UpdateRule) := do
  let axisClass ← match ← optString diff "axis_class" with
    | none => .error (.schemaEvolution "add_axis_to_gradient: missing axis_class")
    | some axisClassStr =>
      match AxisClass.ofString? axisClassStr with
      | none => .error (.schemaEvolution s!"add_axis_to_gradient: unknown axis_class {
          rt.strRepr axisClassStr}")
      | some axisClass => pure axisClass
  let thresholdRepr? ← optString diff "fruiting_threshold_repr"
  let initialRepr? ← optString diff "initial_value_repr"
  let decayRepr? ← optString diff "decay_rate_per_cycle_repr"
  let updateRuleKind? ← optString diff "update_rule_kind"
  match thresholdRepr?, initialRepr?, decayRepr?, updateRuleKind? with
  | some thresholdRepr, some initialRepr, some decayRepr, some updateRuleKind =>
    let isMortalitySignal ← readIsMortalitySignal diff
    let fruitingThreshold ← addAxisFloat thresholdRepr
    let initialValue ← addAxisFloat initialRepr
    let decayRate ← addAxisFloat decayRepr
    let rule ← match UpdateRule.ofString? updateRuleKind with
      | some rule => pure rule
      | none => .error (.schemaEvolution s!"add_axis_to_gradient: unknown update_rule_kind {
          rt.strRepr updateRuleKind}")
    return (⟨diff.axisName, axisClass, fruitingThreshold, initialValue, decayRate,
      isMortalitySignal⟩, rule)
  | _, _, _, _ => .error (.schemaEvolution ("add_axis_to_gradient: missing one of " ++
    "fruiting_threshold_repr / initial_value_repr / decay_rate_per_cycle_repr / update_rule_kind"))

/-! ### Applying a diff -/

def getAxis (gradient : Nat) (name : String) : Acts rt Nat := do
  let m ← get
  match OrdMap.get name (m.axes (m.gradient gradient).axes) with
  | some axis => return axis
  | none => throw (.gradient (.axisNotFound name))

def applyModifyAxisThreshold (diff : SchemaDiff) (gradient : Nat) : Acts rt Unit := do
  let newThreshold ← ofExcept (readNewThreshold diff)
  let axis ← getAxis gradient diff.axisName
  modify fun m =>
    { m with
      axis := Function.update m.axis axis
        { m.axis axis with
          schema := { (m.axis axis).schema with fruitingThreshold := newThreshold } } }

def registerAxis (gradient : Nat) (schema : AxisSchema rt) (rule : UpdateRule) : Acts rt Unit := do
  let m ← get
  if schema.name ∈ (m.axes (m.gradient gradient).axes).map Prod.fst then
    throw (.gradient (.axisAlreadyRegistered schema.name))
  else
    modify fun m =>
      { m with
        axis := Function.update m.axis m.next (.fromSchema schema)
        axes := Function.update m.axes (m.gradient gradient).axes
          (dictSet (m.axes (m.gradient gradient).axes) schema.name m.next)
        next := m.next + 1 }
    modify fun m =>
      { m with
        updateRules := Function.update m.updateRules (m.gradient gradient).updateRules
          (dictSet (m.updateRules (m.gradient gradient).updateRules) schema.name rule) }

def applyAddAxis (diff : SchemaDiff) (gradient : Nat) : Acts rt Unit := do
  let (schema, rule) ← ofExcept (readAddedAxis diff)
  registerAxis gradient schema rule

def applyOp (diff : SchemaDiff) (gradient : Nat) : Acts rt Unit :=
  match diff.op with
  | .modifyAxisThreshold => applyModifyAxisThreshold diff gradient
  | .addAxisToGradient => applyAddAxis diff gradient

structure ApplyResult where
  succeeded : Bool
  failureReason : String

/-- The result that an exception is made into by the two `except` clauses, if one of them catches
it. -/
def caught : PyError → Option ApplyResult
  | .schemaEvolution text => some ⟨false, text⟩
  | .gradient e => some ⟨false, s!"{e.className}: {e.text}"⟩
  | .valueError text => some ⟨false, s!"ValueError: {text}"⟩
  | .keyError key => some ⟨false, s!"KeyError: {(PyError.keyError key).text}"⟩
  | _ => none

def applySchemaDiff (diff : SchemaDiff) (gradient : Nat) : Acts rt ApplyResult := do
  let snapshot ← deepcopy gradient
  match ← (applyOp diff gradient).attempt with
  | .ok _ => return ⟨true, ""⟩
  | .error e =>
    match caught e with
    | some result =>
      restoreGradient gradient snapshot
      return result
    | none => throw e

def applySchemaDiffToCopy (diff : SchemaDiff) (gradient : Nat) :
    Acts rt (Option Nat × ApplyResult) := do
  let candidate ← deepcopy gradient
  match ← (applyOp diff candidate).attempt with
  | .ok _ => return (some candidate, ⟨true, ""⟩)
  | .error e =>
    match caught e with
    | some result => return (none, result)
    | none => throw e

/-! ### What an object stands for -/

variable {m m' m'' : Memory rt} {dict gradient : Nat} {slots : List (Slot rt)}
  {G G' : GradientConfiguration rt}

/-- The objects below `n` are the same. -/
structure Memory.Agrees (n : Nat) (m' m : Memory rt) : Prop where
  axis : ∀ r < n, m'.axis r = m.axis r
  axes : ∀ r < n, m'.axes r = m.axes r
  updateRules : ∀ r < n, m'.updateRules r = m.updateRules r
  gradient : ∀ r < n, m'.gradient r = m.gradient r

/-- Whatever was there in `m` is in `m'` as it was. -/
structure Memory.Extends (m' m : Memory rt) : Prop extends Memory.Agrees m.next m' m where
  next : m.next ≤ m'.next

theorem Memory.Extends.trans (h : m''.Extends m') (h' : m'.Extends m) : m''.Extends m where
  next := h'.next.trans h.next
  axis r hr := (h.axis r (hr.trans_le h'.next)).trans (h'.axis r hr)
  axes r hr := (h.axes r (hr.trans_le h'.next)).trans (h'.axes r hr)
  updateRules r hr := (h.updateRules r (hr.trans_le h'.next)).trans (h'.updateRules r hr)
  gradient r hr := (h.gradient r (hr.trans_le h'.next)).trans (h'.gradient r hr)

/-- A dictionary of axes that has the names and the axes of some slots, in their order, and an
object for each. -/
structure Memory.HoldsAxes (m : Memory rt) (dict : Nat) (slots : List (Slot rt)) : Prop where
  taken : dict < m.next
  entries : (m.axes dict).map (fun e => (e.1, m.axis e.2)) = slots.map fun s => (s.name, s.axis)
  nodup : (m.refs dict).Nodup
  axesTaken : ∀ r ∈ m.refs dict, r < m.next

structure Memory.HoldsRules (m : Memory rt) (dict : Nat) (slots : List (Slot rt)) : Prop where
  taken : dict < m.next
  entries : m.updateRules dict = slots.map fun s => (s.name, s.rule)

/-- The object stands for the configuration. -/
structure Memory.Holds (m : Memory rt) (gradient : Nat) (G : GradientConfiguration rt) : Prop where
  taken : gradient < m.next
  axes : m.HoldsAxes (m.gradient gradient).axes G.slots
  rules : m.HoldsRules (m.gradient gradient).updateRules G.slots

/-- The references to what makes up a gradient, its own among them. -/
def Memory.parts (m : Memory rt) (gradient : Nat) : List Nat :=
  gradient :: (m.gradient gradient).axes :: (m.gradient gradient).updateRules ::
    m.refs (m.gradient gradient).axes

theorem Memory.HoldsAxes.extends (h : m.HoldsAxes dict slots) (he : m'.Extends m) :
    m'.HoldsAxes dict slots := by
  have hdict : m'.axes dict = m.axes dict := he.axes dict h.taken
  have hrefs : m'.refs dict = m.refs dict := congrArg (List.map Prod.snd) hdict
  refine ⟨h.taken.trans_le he.next, ?_, hrefs ▸ h.nodup, ?_⟩
  · rw [hdict, ← h.entries]
    refine List.map_congr_left fun e hm => ?_
    rw [he.axis e.2 (h.axesTaken _ (List.mem_map_of_mem hm))]
  · rw [hrefs]
    exact fun r hr => (h.axesTaken r hr).trans_le he.next

theorem Memory.HoldsRules.extends (h : m.HoldsRules dict slots) (he : m'.Extends m) :
    m'.HoldsRules dict slots :=
  ⟨h.taken.trans_le he.next, (he.updateRules dict h.taken).trans h.entries⟩

theorem Memory.Holds.extends (h : m.Holds gradient G) (he : m'.Extends m) :
    m'.Holds gradient G := by
  have hg := he.gradient gradient h.taken
  exact ⟨h.taken.trans_le he.next, hg ▸ h.axes.extends he, hg ▸ h.rules.extends he⟩

/-- An object stands for one configuration. -/
theorem Memory.Holds.unique (h : m.Holds gradient G) (h' : m.Holds gradient G') : G = G' := by
  have haxes := congrArg (List.map Prod.snd) (h.axes.entries.symm.trans h'.axes.entries)
  have hrules := congrArg (List.map Prod.snd) (h.rules.entries.symm.trans h'.rules.entries)
  rw [List.map_map, List.map_map] at haxes hrules
  have hzip : ∀ l : List (Slot rt),
      List.zipWith Slot.mk (l.map Slot.axis) (l.map Slot.rule) = l := by
    intro l
    rw [List.zipWith_map, List.zipWith_self, List.map_id'']
    exact fun _ => rfl
  refine GradientConfiguration.ext ?_
  rw [← hzip G.slots, ← hzip G'.slots]
  exact congrArg₂ _ haxes hrules

/-! ### What copying does -/

theorem Memory.relocated_lt {r : Nat} (hr : r ∈ m.refs dict) :
    m.relocated dict r < m.next + (m.refs dict).length :=
  Nat.add_lt_add_left (List.idxOf_lt_length_iff.2 hr) _

theorem Memory.refs_relocated {r : Nat} (hr : r ∈ m.refs dict) :
    (m.refs dict)[m.relocated dict r - m.next]? = some r := by
  rw [relocated, Nat.add_sub_cancel_left, List.getElem?_eq_some_iff]
  exact ⟨List.idxOf_lt_length_iff.2 hr, List.getElem_idxOf _⟩

theorem Memory.relocated_inj {r q : Nat} (hr : r ∈ m.refs dict) (hq : q ∈ m.refs dict)
    (h : m.relocated dict r = m.relocated dict q) : r = q := by
  have he := refs_relocated hr
  rw [h, refs_relocated hq] at he
  exact (Option.some.inj he).symm

theorem copyAxes_exec (h : m.HoldsAxes dict slots) : ∃ copied m',
    (copyAxes dict).exec m = some (.ok copied, m') ∧ m'.Extends m ∧ m'.HoldsAxes copied slots ∧
    m.next ≤ copied ∧ (∀ r ∈ m'.refs copied, m.next ≤ r) ∧
    m'.gradient = m.gradient ∧ m'.updateRules = m.updateRules := by
  obtain ⟨m', hm'⟩ : ∃ m' : Memory rt, m' =
    { m with
      axis := fun r => if r < m.next then m.axis r
        else ((m.refs dict)[r - m.next]?.map m.axis).getD (m.axis r)
      axes := Function.update m.axes (m.next + (m.refs dict).length)
        ((m.axes dict).map fun e => (e.1, m.relocated dict e.2))
      next := m.next + (m.refs dict).length + 1 } := ⟨_, rfl⟩
  have hexec : (copyAxes dict).exec m = some (.ok (m.next + (m.refs dict).length), m') := by
    rw [hm']
    rfl
  have haxes : m'.axes (m.next + (m.refs dict).length) =
      (m.axes dict).map fun e => (e.1, m.relocated dict e.2) := by
    rw [hm']
    exact Function.update_self _ _ _
  have hrefs : m'.refs (m.next + (m.refs dict).length) = (m.refs dict).map (m.relocated dict) := by
    rw [Memory.refs, haxes, Memory.refs, List.map_map, List.map_map]
    rfl
  have haxis : ∀ r ∈ m.refs dict, m'.axis (m.relocated dict r) = m.axis r := by
    intro r hr
    have hnot : ¬ m.relocated dict r < m.next := Nat.not_lt.2 (Nat.le_add_right _ _)
    rw [hm']
    simp only [if_neg hnot, Memory.refs_relocated hr, Option.map_some, Option.getD_some]
  have hnext : m'.next = m.next + (m.refs dict).length + 1 := by rw [hm']
  refine ⟨_, m', hexec, ⟨⟨?_, ?_, by rw [hm']; exact fun _ _ => rfl,
    by rw [hm']; exact fun _ _ => rfl⟩, by omega⟩, ⟨by omega, ?_, ?_, ?_⟩, Nat.le_add_right _ _, ?_,
    by rw [hm'], by rw [hm']⟩
  · rw [hm']
    exact fun r hr => if_pos hr
  · rw [hm']
    exact fun r hr => Function.update_of_ne (by omega) _ _
  · rw [haxes, List.map_map, ← h.entries]
    exact List.map_congr_left fun e he =>
      Prod.ext rfl (haxis e.2 (List.mem_map_of_mem he))
  · show (m'.refs _).Nodup
    rw [hrefs]
    exact List.Nodup.map_on (fun r hr q hq => Memory.relocated_inj hr hq) h.nodup
  · show ∀ r ∈ m'.refs _, _
    rw [hrefs]
    intro r hr
    obtain ⟨q, hq, rfl⟩ := List.mem_map.1 hr
    have := Memory.relocated_lt hq
    omega
  · rw [hrefs]
    intro r hr
    obtain ⟨q, -, rfl⟩ := List.mem_map.1 hr
    exact Nat.le_add_right _ _

theorem copyUpdateRules_exec (h : m.HoldsRules dict slots) : ∃ m',
    (copyUpdateRules dict).exec m = some (.ok m.next, m') ∧ m'.Extends m ∧
    m'.HoldsRules m.next slots ∧ m'.gradient = m.gradient ∧ m'.axes = m.axes := by
  refine ⟨_, rfl, ⟨⟨fun _ _ => rfl, fun _ _ => rfl, ?_, fun _ _ => rfl⟩, Nat.le_succ _⟩,
    ⟨Nat.lt_succ_self _, ?_⟩, rfl, rfl⟩
  · exact fun r hr => Function.update_of_ne (Nat.ne_of_lt hr) _ _
  · exact (Function.update_self _ _ _).trans h.entries

/-- A copy stands for the same and has no part in common with anything that was there. -/
theorem deepcopy_exec (h : m.Holds gradient G) : ∃ copied m',
    (deepcopy gradient).exec m = some (.ok copied, m') ∧ m'.Extends m ∧ m'.Holds copied G ∧
    ∀ r ∈ m'.parts copied, m.next ≤ r := by
  obtain ⟨axes, m1, he1, hx1, ha1, hn1, hr1, hg1⟩ := copyAxes_exec h.axes
  obtain ⟨m2, he2, hx2, hh2, hg2, ha2⟩ := copyUpdateRules_exec (h.rules.extends hx1)
  obtain ⟨m3, hm3⟩ : ∃ m3 : Memory rt, m3 =
    { m2 with
      gradient := Function.update m2.gradient m2.next ⟨axes, m1.next⟩
      next := m2.next + 1 } := ⟨_, rfl⟩
  have hx3 : m3.Extends m2 := by
    rw [hm3]
    exact ⟨⟨fun _ _ => rfl, fun _ _ => rfl, fun _ _ => rfl,
      fun r hr => Function.update_of_ne (Nat.ne_of_lt hr) _ _⟩, Nat.le_succ _⟩
  have hself : m3.gradient m2.next = ⟨axes, m1.next⟩ := by
    rw [hm3]
    exact Function.update_self _ _ _
  have hrefs : m3.refs axes = m1.refs axes :=
    congrArg (List.map Prod.snd) ((hx3.trans hx2).axes axes ha1.taken)
  have hle1 := hx1.next
  have hle2 := hx2.next
  refine ⟨m2.next, m3, ?_, hx3.trans (hx2.trans hx1), ⟨?_, ?_, ?_⟩, ?_⟩
  · rw [deepcopy, Prog.exec_get_bind, Prog.exec_bind, he1, Option.bind_some]
    simp only
    rw [Prog.exec_bind, he2, Option.bind_some]
    simp only
    rw [Prog.exec_get_bind, Prog.exec_modify_bind, hm3]
    rfl
  · rw [hm3]
    exact Nat.lt_succ_self _
  · rw [hself]
    exact ha1.extends (hx3.trans hx2)
  · rw [hself]
    exact hh2.extends hx3
  · intro r hr
    rw [Memory.parts, hself] at hr
    simp only [List.mem_cons, hrefs] at hr
    rcases hr with rfl | rfl | rfl | hr
    · omega
    · exact hn1
    · exact hle1
    · exact hr1 r hr

/-- What has been restored from a snapshot stands for what the snapshot stands for. -/
theorem restoreGradient_exec {snapshot : Nat} (h : m.Holds snapshot G)
    (hg : gradient < m.next) : ∃ m',
    (restoreGradient gradient snapshot).exec m = some (.ok ⟨⟩, m') ∧ m'.Holds gradient G := by
  obtain ⟨axes, m1, he1, hx1, ha1, -, -, hg1, hu1⟩ := copyAxes_exec h.axes
  obtain ⟨m2, hm2⟩ : ∃ m2 : Memory rt, m2 =
    { m1 with
      gradient := Function.update m1.gradient gradient { m1.gradient gradient with axes } } :=
    ⟨_, rfl⟩
  have hr1 := h.rules.extends hx1
  have ha2 : m2.HoldsAxes axes G.slots := by
    rw [hm2]
    exact ⟨ha1.taken, ha1.entries, ha1.nodup, ha1.axesTaken⟩
  have hr2 : m2.HoldsRules (m.gradient snapshot).updateRules G.slots := by
    rw [hm2]
    exact ⟨hr1.taken, hr1.entries⟩
  obtain ⟨m3, he3, hx3, hh3, hg3, -⟩ := copyUpdateRules_exec hr2
  have hself : (m3.gradient gradient).axes = axes := by
    rw [hg3, hm2]
    simp only [Function.update_self]
  have hle1 := hx1.next
  have hle2 : m2.next = m1.next := by rw [hm2]
  have hle3 := hx3.next
  have ha3 := ha2.extends hx3
  obtain ⟨m4, hm4⟩ : ∃ m4 : Memory rt, m4 =
    { m3 with
      gradient := Function.update m3.gradient gradient
        { m3.gradient gradient with updateRules := m2.next } } := ⟨_, rfl⟩
  refine ⟨m4, ?_, ⟨?_, ?_, ?_⟩⟩
  · rw [restoreGradient, Prog.exec_get_bind, Prog.exec_bind, he1, Option.bind_some]
    simp only
    rw [Prog.exec_modify_bind, ← hm2, Prog.exec_bind, he3, Option.bind_some]
    simp only
    rw [hm4]
    exact Prog.exec_modify
  · have : m4.next = m3.next := by rw [hm4]
    omega
  · rw [hm4]
    simp only [Function.update_self, hself]
    exact ⟨ha3.taken, ha3.entries, ha3.nodup, ha3.axesTaken⟩
  · rw [hm4]
    simp only [Function.update_self]
    exact ⟨hh3.taken, hh3.entries⟩

/-! ### What applying does -/

/-- A change to a gradient and what makes it up. -/
structure Memory.Changes (gradient : Nat) (m m' : Memory rt) : Prop where
  next : m.next ≤ m'.next
  frame : ∀ n ≤ m.next, (∀ r ∈ m.parts gradient, n ≤ r) → m'.Agrees n m
  parts : ∀ r ∈ m'.parts gradient, r ∈ m.parts gradient ∨ m.next ≤ r

theorem Memory.HoldsAxes.keys (h : m.HoldsAxes dict slots) :
    (m.axes dict).map Prod.fst = slots.map Slot.name := by
  have := congrArg (List.map Prod.fst) h.entries
  rwa [List.map_map, List.map_map] at this

theorem Memory.HoldsRules.keys (h : m.HoldsRules dict slots) :
    (m.updateRules dict).map Prod.fst = slots.map Slot.name := by
  rw [h.entries, List.map_map]
  rfl

/-- Setting the schema of the axis of a name sets it in the slot of the name and in no other. -/
theorem Memory.HoldsAxes.setThreshold {name : String} {axis : Nat} {threshold : rt.F}
    (h : m.HoldsAxes dict G.slots) (hn : OrdMap.get name (m.axes dict) = some axis) :
    ({ m with
        axis := Function.update m.axis axis
          { m.axis axis with
            schema := { (m.axis axis).schema with fruitingThreshold := threshold } } } :
        Memory rt).HoldsAxes dict
      (G.modifyAxis name (Slot.setThreshold threshold) fun _ => Slot.name_setThreshold).slots := by
  have hmem := OrdMap.mem_of_get hn
  have hname : ∀ e ∈ m.axes dict, e.2 = axis ↔ e.1 = name := by
    intro e he
    constructor
    · intro h2
      exact congrArg Prod.fst (List.inj_on_of_nodup_map h.nodup he hmem h2)
    · intro h1
      exact congrArg Prod.snd (List.inj_on_of_nodup_map (h.keys ▸ G.nodup) he hmem h1)
  refine ⟨h.taken, ?_, h.nodup, h.axesTaken⟩
  set g : String × AppetiteAxis rt → String × AppetiteAxis rt := fun p =>
    if p.1 = name then
      (p.1, { p.2 with schema := { p.2.schema with fruitingThreshold := threshold } })
    else p with hg
  have hleft : ∀ e ∈ m.axes dict, (e.1, Function.update m.axis axis
      { m.axis axis with
        schema := { (m.axis axis).schema with fruitingThreshold := threshold } } e.2) =
      g (e.1, m.axis e.2) := by
    intro e he
    by_cases h2 : e.2 = axis
    · rw [h2, Function.update_self, hg]
      simp only [if_pos ((hname e he).1 h2)]
    · rw [Function.update_of_ne h2, hg]
      simp only [if_neg fun h1 => h2 ((hname e he).2 h1)]
  have hright : ∀ s : Slot rt, g (s.name, s.axis) =
      ((if s.name = name then s.setThreshold threshold else s).name,
        (if s.name = name then s.setThreshold threshold else s).axis) := by
    intro s
    by_cases hs : s.name = name
    · simp only [hg, if_pos hs]
      rfl
    · simp only [hg, if_neg hs]
  calc (m.axes dict).map (fun e => (e.1, Function.update m.axis axis _ e.2))
      = ((m.axes dict).map fun e => (e.1, m.axis e.2)).map g := by
        rw [List.map_map]
        exact List.map_congr_left hleft
    _ = (G.slots.map fun s => (s.name, s.axis)).map g := by rw [h.entries]
    _ = _ := by
        rw [List.map_map, GradientConfiguration.modifyAxis, GradientConfiguration.mapSlots,
          List.map_map]
        exact List.map_congr_left fun s _ => hright s

theorem applyModifyAxisThreshold_eq {diff : SchemaDiff} :
    Tropism.applyModifyAxisThreshold diff G = (do
      let newThreshold ← readNewThreshold diff
      if diff.axisName ∈ G.names then
        return G.modifyAxis diff.axisName (Slot.setThreshold newThreshold)
          fun _ => Slot.name_setThreshold
      else .error (.gradient (.axisNotFound diff.axisName))) := by
  unfold Tropism.applyModifyAxisThreshold readNewThreshold
  cases Py.mapGet diff.params (codePoints "new_threshold_repr") with
  | none => rfl
  | some v => exact bind_assoc (pyExpectString v) _ _ ▸ rfl

theorem applyAddAxis_eq {diff : SchemaDiff} :
    Tropism.applyAddAxis diff G = (do
      let (schema, rule) ← readAddedAxis diff
      (G.registerAxis schema rule).mapError .gradient) := by
  unfold Tropism.applyAddAxis readAddedAxis
  simp only [bind_assoc]
  refine bind_congr fun axisClassStr? => ?_
  cases axisClassStr? with
  | none => rfl
  | some axisClassStr =>
    dsimp only
    cases AxisClass.ofString? axisClassStr with
    | none => rfl
    | some axisClass =>
      simp only [pure_bind, bind_assoc]
      refine bind_congr fun thresholdRepr? => ?_
      refine bind_congr fun initialRepr? => ?_
      refine bind_congr fun decayRepr? => ?_
      refine bind_congr fun updateRuleKind? => ?_
      rcases thresholdRepr? with _ | thresholdRepr
      · rfl
      rcases initialRepr? with _ | initialRepr
      · rfl
      rcases decayRepr? with _ | decayRepr
      · rfl
      rcases updateRuleKind? with _ | updateRuleKind
      · rfl
      simp only [bind_assoc]
      refine bind_congr fun isMortalitySignal => ?_
      refine bind_congr fun fruitingThreshold => ?_
      refine bind_congr fun initialValue => ?_
      refine bind_congr fun decayRate => ?_
      cases UpdateRule.ofString? updateRuleKind <;> rfl

theorem Memory.HoldsAxes.get_eq_none_iff {name : String} (h : m.HoldsAxes dict G.slots) :
    OrdMap.get name (m.axes dict) = none ↔ name ∉ G.names := by
  rw [GradientConfiguration.names, ← h.keys, OrdMap.get_eq_none_iff, List.mem_map]
  constructor
  · rintro hne ⟨e, he, rfl⟩
    exact hne e he rfl
  · exact fun hn e he h1 => hn ⟨e, he, h1.symm⟩

/-- What an operation of the memory did, and what the same does to a configuration. -/
inductive Applied (gradient : Nat) (m : Memory rt) :
    Except PyError (GradientConfiguration rt) → Option (Except PyError Unit × Memory rt) → Prop
  | failed (e : PyError) : Applied gradient m (.error e) (some (.error e, m))
  | done {G : GradientConfiguration rt} {m' : Memory rt} (holds : m'.Holds gradient G)
      (changes : m.Changes gradient m') : Applied gradient m (.ok G) (some (.ok (), m'))

variable {diff : SchemaDiff}

theorem applied_modifyAxisThreshold (h : m.Holds gradient G) :
    Applied gradient m (Tropism.applyModifyAxisThreshold diff G)
      ((applyModifyAxisThreshold diff gradient).exec m) := by
  rw [applyModifyAxisThreshold_eq, applyModifyAxisThreshold]
  cases readNewThreshold diff with
  | error e => exact .failed e
  | ok threshold =>
    rw [ok_bind]
    by_cases hn : diff.axisName ∈ G.names
    · obtain ⟨axis, hget⟩ := Option.ne_none_iff_exists'.1
        fun hnone => h.axes.get_eq_none_iff.1 hnone hn
      have hmem : axis ∈ m.parts gradient := by
        simp only [Memory.parts, List.mem_cons]
        exact .inr (.inr (.inr (List.mem_map_of_mem (OrdMap.mem_of_get hget))))
      have haxis : (getAxis gradient diff.axisName).exec m = some (.ok axis, m) := by
        rw [getAxis, Prog.exec_get_bind, hget]
        rfl
      rw [if_pos hn]
      show Applied gradient m _ ((getAxis gradient diff.axisName >>= _).exec m)
      rw [Prog.exec_bind, haxis]
      refine .done ⟨h.taken, h.axes.setThreshold hget, h.rules.taken, ?_⟩
        ⟨le_refl _, fun n _ hn => ⟨?_, fun _ _ => rfl, fun _ _ => rfl, fun _ _ => rfl⟩,
          fun r hr => .inl hr⟩
      · refine h.rules.entries.trans ?_
        rw [GradientConfiguration.modifyAxis, GradientConfiguration.mapSlots, List.map_map]
        refine List.map_congr_left fun s _ => ?_
        by_cases hs : s.name = diff.axisName
        · simp only [Function.comp_apply, if_pos hs]
          rfl
        · simp only [Function.comp_apply, if_neg hs]
      · exact fun r hr => Function.update_of_ne (Nat.ne_of_lt (hr.trans_le (hn _ hmem))) _ _
    · have haxis : (getAxis gradient diff.axisName).exec m =
          some (.error (.gradient (.axisNotFound diff.axisName)), m) := by
        rw [getAxis, Prog.exec_get_bind, h.axes.get_eq_none_iff.2 hn]
        rfl
      rw [if_neg hn]
      show Applied gradient m _ ((getAxis gradient diff.axisName >>= _).exec m)
      rw [Prog.exec_bind, haxis]
      exact .failed _

theorem applied_registerAxis {schema : AxisSchema rt} {rule : UpdateRule}
    (h : m.Holds gradient G) :
    Applied gradient m ((G.registerAxis schema rule).mapError .gradient)
      ((registerAxis gradient schema rule).exec m) := by
  have hkeys := h.axes.keys
  rw [registerAxis, Prog.exec_get_bind, GradientConfiguration.registerAxis]
  by_cases hn : schema.name ∈ G.names
  · rw [dif_pos hn, if_pos (hkeys ▸ hn)]
    exact .failed _
  · have hdict : schema.name ∉ (m.axes (m.gradient gradient).axes).map Prod.fst := hkeys ▸ hn
    have hrules : schema.name ∉ (m.updateRules (m.gradient gradient).updateRules).map Prod.fst :=
      h.rules.keys ▸ hn
    rw [dif_neg hn, if_neg hdict, Prog.exec_modify_bind, Prog.exec_modify]
    simp only [dictSet_of_not_mem hdict, dictSet_of_not_mem hrules]
    obtain ⟨m', hm'⟩ : ∃ m' : Memory rt, m' =
      { m with
        axis := Function.update m.axis m.next (.fromSchema schema)
        axes := Function.update m.axes (m.gradient gradient).axes
          (m.axes (m.gradient gradient).axes ++ [(schema.name, m.next)])
        updateRules := Function.update m.updateRules (m.gradient gradient).updateRules
          (m.updateRules (m.gradient gradient).updateRules ++ [(schema.name, rule)])
        next := m.next + 1 } := ⟨_, rfl⟩
    rw [← hm']
    have hnext : m'.next = m.next + 1 := by rw [hm']
    have hself : m'.gradient = m.gradient := by rw [hm']
    have haxes : m'.axes (m.gradient gradient).axes =
        m.axes (m.gradient gradient).axes ++ [(schema.name, m.next)] := by
      rw [hm']
      exact Function.update_self _ _ _
    have hrefs : m'.refs (m.gradient gradient).axes =
        m.refs (m.gradient gradient).axes ++ [m.next] := by
      rw [Memory.refs, haxes, List.map_append]
      rfl
    have haxis : ∀ r < m.next, m'.axis r = m.axis r := by
      intro r hr
      rw [hm']
      exact Function.update_of_ne (Nat.ne_of_lt hr) _ _
    have hlt : ∀ r ∈ m'.refs (m.gradient gradient).axes, r < m'.next := by
      intro r hr
      rw [hrefs, List.mem_append, List.mem_singleton] at hr
      rcases hr with hr | rfl
      · have := h.axes.axesTaken r hr
        omega
      · omega
    refine .done ⟨?_, ⟨?_, ?_, ?_, ?_⟩, ?_, ?_⟩ ⟨?_, fun n hle hn => ⟨?_, ?_, ?_, ?_⟩, ?_⟩
    · have := h.taken
      omega
    · have := h.axes.taken
      rw [hself]
      omega
    · rw [hself, haxes, List.map_append, List.map_append, ← h.axes.entries]
      congr 1
      · exact List.map_congr_left fun e he =>
          Prod.ext rfl (haxis e.2 (h.axes.axesTaken _ (List.mem_map_of_mem he)))
      · rw [hm']
        simp only [List.map_cons, List.map_nil, Function.update_self]
        rfl
    · rw [hself, hrefs]
      refine List.nodup_append.2 ⟨h.axes.nodup, List.nodup_singleton _, fun r hr q hq he => ?_⟩
      have := h.axes.axesTaken r hr
      rw [he, List.mem_singleton.1 hq] at this
      exact lt_irrefl _ this
    · rw [hself]
      exact hlt
    · have := h.rules.taken
      rw [hself]
      omega
    · rw [hself, hm', List.map_append, ← h.rules.entries]
      simp only [Function.update_self]
      rfl
    · omega
    · exact fun r hr => haxis r (hr.trans_le hle)
    · intro r hr
      have := hn _ (List.mem_cons_of_mem _ List.mem_cons_self)
      rw [hm']
      exact Function.update_of_ne (by omega) _ _
    · intro r hr
      have := hn _ (List.mem_cons_of_mem _ (List.mem_cons_of_mem _ List.mem_cons_self))
      rw [hm']
      exact Function.update_of_ne (by omega) _ _
    · exact fun r _ => congrFun hself r
    · intro r hr
      simp only [Memory.parts, hself, hrefs, List.mem_cons, List.mem_append] at hr ⊢
      rcases hr with hr | hr | hr | hr | hr | hr
      · exact .inl (.inl hr)
      · exact .inl (.inr (.inl hr))
      · exact .inl (.inr (.inr (.inl hr)))
      · exact .inl (.inr (.inr (.inr hr)))
      · exact .inr hr.ge
      · cases hr

theorem applied_applyAddAxis (h : m.Holds gradient G) :
    Applied gradient m (Tropism.applyAddAxis diff G) ((applyAddAxis diff gradient).exec m) := by
  rw [applyAddAxis_eq, applyAddAxis]
  cases readAddedAxis diff with
  | error e => exact .failed e
  | ok p => exact applied_registerAxis h

/-- What the operation of a diff makes of a configuration. -/
def applied (diff : SchemaDiff) (G : GradientConfiguration rt) :
    Except PyError (GradientConfiguration rt) :=
  match diff.op with
  | .modifyAxisThreshold => Tropism.applyModifyAxisThreshold diff G
  | .addAxisToGradient => Tropism.applyAddAxis diff G

/-- The operations do to what an object stands for what they do to a configuration. -/
theorem applied_applyOp (h : m.Holds gradient G) :
    Applied gradient m (applied diff G) ((applyOp diff gradient).exec m) := by
  unfold applied applyOp
  cases diff.op with
  | modifyAxisThreshold => exact applied_modifyAxisThreshold h
  | addAxisToGradient => exact applied_applyAddAxis h

theorem attemptSchemaDiff_eq : attemptSchemaDiff diff G =
    match applied diff G with
    | .ok G' => .ok (.ok G')
    | .error e =>
      match caught e with
      | some result => .ok (.error result.failureReason)
      | none => .error e := by
  unfold attemptSchemaDiff applied
  cases diff.op with
  | modifyAxisThreshold =>
    dsimp only
    rcases Tropism.applyModifyAxisThreshold diff G with e | G'
    · cases e <;> rfl
    · rfl
  | addAxisToGradient =>
    dsimp only
    rcases Tropism.applyAddAxis diff G with e | G'
    · cases e <;> rfl
    · rfl

theorem caught_eq_some {e : PyError} {result : ApplyResult} (h : caught e = some result) :
    result = ⟨false, result.failureReason⟩ := by
  cases e <;> cases h <;> rfl

/-- The diff is applied, refused, or an exception escapes, as for a configuration; unless it is
applied the object stands for what it stood for. -/
theorem applySchemaDiff_exec (h : m.Holds gradient G) : ∃ m',
    match attemptSchemaDiff diff G with
    | .ok (.ok G') =>
      (applySchemaDiff diff gradient).exec m = some (.ok ⟨true, ""⟩, m') ∧ m'.Holds gradient G'
    | .ok (.error reason) =>
      (applySchemaDiff diff gradient).exec m = some (.ok ⟨false, reason⟩, m') ∧
        m'.Holds gradient G
    | .error e =>
      (applySchemaDiff diff gradient).exec m = some (.error e, m') ∧ m'.Holds gradient G := by
  obtain ⟨snapshot, m1, he1, hx1, hs1, -⟩ := deepcopy_exec h
  have h1 := h.extends hx1
  have happly := @applied_applyOp _ _ _ _ diff h1
  rw [attemptSchemaDiff_eq]
  rw [applySchemaDiff, Prog.exec_bind, he1, Option.bind_some]
  simp only
  rw [Prog.exec_bind, Prog.exec_attempt]
  generalize applied diff G = x at happly ⊢
  generalize (applyOp diff gradient).exec m1 = out at happly ⊢
  cases happly with
  | done holds changes => exact ⟨_, rfl, holds⟩
  | failed e =>
    dsimp only [Option.map_some, Option.bind_some]
    cases hc : caught e with
    | none => exact ⟨m1, rfl, h1⟩
    | some result =>
      obtain ⟨m2, he2, h2⟩ := restoreGradient_exec hs1 h1.taken
      refine ⟨m2, ?_, h2⟩
      dsimp only
      rw [Prog.exec_bind, he2, caught_eq_some hc]
      rfl

/-- The same outcome, for a copy; nothing that was there changes, and the copy has no part in common
with what was there. -/
theorem applySchemaDiffToCopy_exec (h : m.Holds gradient G) : ∃ m', m'.Extends m ∧
    match attemptSchemaDiff diff G with
    | .ok (.ok G') => ∃ candidate,
      (applySchemaDiffToCopy diff gradient).exec m =
        some (.ok (some candidate, ⟨true, ""⟩), m') ∧
      m'.Holds candidate G' ∧ ∀ r ∈ m'.parts candidate, m.next ≤ r
    | .ok (.error reason) =>
      (applySchemaDiffToCopy diff gradient).exec m = some (.ok (none, ⟨false, reason⟩), m')
    | .error e => (applySchemaDiffToCopy diff gradient).exec m = some (.error e, m') := by
  obtain ⟨candidate, m1, he1, hx1, hs1, hfresh⟩ := deepcopy_exec h
  have happly := @applied_applyOp _ _ _ _ diff hs1
  rw [attemptSchemaDiff_eq]
  rw [applySchemaDiffToCopy, Prog.exec_bind, he1, Option.bind_some]
  simp only
  rw [Prog.exec_bind, Prog.exec_attempt]
  generalize applied diff G = x at happly ⊢
  generalize (applyOp diff candidate).exec m1 = out at happly ⊢
  cases happly with
  | done holds changes =>
    have hframe := changes.frame m.next hx1.next hfresh
    refine ⟨_, ⟨⟨?_, ?_, ?_, ?_⟩, hx1.next.trans changes.next⟩, candidate, rfl, holds, ?_⟩
    · exact fun r hr => (hframe.axis r hr).trans (hx1.axis r hr)
    · exact fun r hr => (hframe.axes r hr).trans (hx1.axes r hr)
    · exact fun r hr => (hframe.updateRules r hr).trans (hx1.updateRules r hr)
    · exact fun r hr => (hframe.gradient r hr).trans (hx1.gradient r hr)
    · intro r hr
      rcases changes.parts r hr with hr | hr
      · exact hfresh r hr
      · exact hx1.next.trans hr
  | failed e =>
    refine ⟨m1, hx1, ?_⟩
    dsimp only [Option.map_some, Option.bind_some]
    cases hc : caught e with
    | none => rfl
    | some result =>
      dsimp only
      rw [caught_eq_some hc]
      rfl

/-! ### When an exception escapes -/

/-- Fails with an exception that neither clause catches. -/
def Escapes {α : Type} (x : Except PyError α) : Prop := ∃ e, x = .error e ∧ caught e = none

section

variable {α β : Type} {x : Except PyError α} {f : α → Except PyError β} {a : α} {e : PyError}

@[simp] theorem escapes_ok : ¬ Escapes (.ok a) := by
  rintro ⟨e, h, -⟩
  cases h

@[simp] theorem escapes_error : Escapes (.error e : Except PyError α) ↔ caught e = none :=
  ⟨fun ⟨_, h, hc⟩ => Except.error.inj h ▸ hc, fun hc => ⟨e, rfl, hc⟩⟩

theorem escapes_bind : Escapes (x >>= f) ↔ Escapes x ∨ ∃ a, x = .ok a ∧ Escapes (f a) := by
  cases x <;> simp

theorem not_escapes_bind (hx : ¬ Escapes x) (hf : ∀ a, ¬ Escapes (f a)) : ¬ Escapes (x >>= f) := by
  rw [escapes_bind]
  rintro (h | ⟨a, -, h⟩)
  · exact hx h
  · exact hf a h

/-- What is raised anew can be caught, so nothing escapes. -/
theorem escapes_mapError {ε : Type} {y : Except ε α} {g : ε → PyError}
    (hg : ∀ e, caught (g e) ≠ none) : ¬ Escapes (y.mapError g) := by
  cases y with
  | ok a => exact escapes_ok
  | error e => exact fun h => hg e (escapes_error.1 h)

end

theorem escapes_pyExpectString {v : Py.Value} :
    Escapes (pyExpectString v) ↔ Py.string? v = none := by
  unfold pyExpectString
  cases Py.string? v with
  | none => simp [caught]
  | some s => simp

/-- What is no string is read where one is expected. -/
def Mistyped (diff : SchemaDiff) (key : String) : Prop :=
  ∃ v, Py.mapGet diff.params (codePoints key) = some v ∧ Py.string? v = none

theorem escapes_optString {key : String} : Escapes (optString diff key) ↔ Mistyped diff key := by
  unfold optString Mistyped
  cases Py.mapGet diff.params (codePoints key) with
  | none => simp
  | some v =>
    simp only [Option.some.injEq, exists_eq_left', ← escapes_pyExpectString]
    cases pyExpectString v with
    | ok s => exact ⟨fun h => absurd h escapes_ok, fun h => absurd h escapes_ok⟩
    | error e =>
      show Escapes (.error e) ↔ _
      rw [escapes_error, escapes_error]

theorem escapes_readNewThreshold :
    Escapes (@readNewThreshold rt diff) ↔ Mistyped diff "new_threshold_repr" := by
  unfold readNewThreshold Mistyped
  cases Py.mapGet diff.params (codePoints "new_threshold_repr") with
  | none => simp [caught]
  | some v =>
    simp only [Option.some.injEq, exists_eq_left', ← escapes_pyExpectString, escapes_bind]
    refine or_iff_left ?_
    rintro ⟨s, -, h⟩
    exact escapes_mapError (fun e => by simp [caught]) h

theorem optString_ok {key : String} (h : ¬ Mistyped diff key) :
    ∃ s, optString diff key = .ok s := by
  cases hs : optString diff key with
  | ok s => exact ⟨s, rfl⟩
  | error e =>
    exfalso
    unfold optString at hs
    split at hs
    · cases hs
    · rename_i v hv
      refine h ⟨v, hv, ?_⟩
      cases hstr : Py.string? v with
      | none => rfl
      | some s =>
        rw [pyExpectString, hstr] at hs
        cases hs

/-- A parameter that is read escapes by its type, or the rest does. -/
theorem escapes_optString_bind {β : Type} {key : String} {f : Option String → Except PyError β}
    {P : Prop} (hf : ∀ s, Escapes (f s) ↔ P) :
    Escapes (optString diff key >>= f) ↔ Mistyped diff key ∨ P := by
  rw [escapes_bind, escapes_optString]
  by_cases h : Mistyped diff key
  · exact ⟨fun _ => .inl h, fun _ => .inl h⟩
  · obtain ⟨s, hs⟩ := optString_ok h
    refine or_congr_right ⟨fun ⟨_, _, he⟩ => (hf _).1 he, fun hP => ⟨s, hs, (hf s).2 hP⟩⟩

/-- The parameters of an axis to be added that are read when its class is known. -/
def addedAxisKeys : List String :=
  ["fruiting_threshold_repr", "initial_value_repr", "decay_rate_per_cycle_repr",
    "update_rule_kind"]

/-- The class of the axis to be added is one that there is. -/
def NamesClass (diff : SchemaDiff) : Prop :=
  ∃ s, optString diff "axis_class" = .ok (some s) ∧ (AxisClass.ofString? s).isSome

theorem not_escapes_readIsMortalitySignal : ¬ Escapes (readIsMortalitySignal diff) := by
  unfold readIsMortalitySignal
  split <;> simp [caught]

theorem escapes_readAddedAxis : Escapes (@readAddedAxis rt diff) ↔
    Mistyped diff "axis_class" ∨ NamesClass diff ∧ ∃ key ∈ addedAxisKeys, Mistyped diff key := by
  have hkeys : (∃ key ∈ addedAxisKeys, Mistyped diff key) ↔
      Mistyped diff "fruiting_threshold_repr" ∨ Mistyped diff "initial_value_repr" ∨
        Mistyped diff "decay_rate_per_cycle_repr" ∨ Mistyped diff "update_rule_kind" ∨ False := by
    simp [addedAxisKeys]
  unfold readAddedAxis
  rw [escapes_bind, escapes_optString, hkeys]
  refine or_congr_right ?_
  have hrest : ∀ axisClassStr?, optString diff "axis_class" = .ok axisClassStr? →
      (NamesClass diff ↔ ∃ axisClass, axisClassStr?.bind AxisClass.ofString? = some axisClass) := by
    intro axisClassStr? hs
    rw [NamesClass, hs]
    cases axisClassStr? <;> simp [Option.isSome_iff_exists]
  by_cases hs : ∃ axisClassStr?, optString diff "axis_class" = .ok axisClassStr?
  · obtain ⟨axisClassStr?, hs⟩ := hs
    rw [hrest _ hs, hs]
    simp only [Except.ok.injEq, exists_eq_left']
    rcases axisClassStr? with _ | axisClassStr
    · simp [caught]
    dsimp only [Option.bind_some]
    cases AxisClass.ofString? axisClassStr with
    | none => simp [caught]
    | some axisClass =>
      simp only [pure_bind, Option.some.injEq, exists_eq', true_and]
      refine escapes_optString_bind fun thresholdRepr? => ?_
      refine escapes_optString_bind fun initialRepr? => ?_
      refine escapes_optString_bind fun decayRepr? => ?_
      refine escapes_optString_bind fun updateRuleKind? => iff_false_intro ?_
      rcases thresholdRepr? with _ | thresholdRepr
      · simp [caught]
      rcases initialRepr? with _ | initialRepr
      · simp [caught]
      rcases decayRepr? with _ | decayRepr
      · simp [caught]
      rcases updateRuleKind? with _ | updateRuleKind
      · simp [caught]
      have hfloat : ∀ s, ¬ Escapes (@addAxisFloat rt s) := fun s =>
        escapes_mapError fun e => by simp [caught]
      refine not_escapes_bind not_escapes_readIsMortalitySignal fun isMortalitySignal => ?_
      refine not_escapes_bind (hfloat _) fun fruitingThreshold => ?_
      refine not_escapes_bind (hfloat _) fun initialValue => ?_
      refine not_escapes_bind (hfloat _) fun decayRate => ?_
      cases UpdateRule.ofString? updateRuleKind with
      | none => simp [caught]
      | some rule => exact escapes_ok
  · constructor
    · exact fun ⟨s, he, _⟩ => absurd ⟨s, he⟩ hs
    · exact fun ⟨⟨s, he, _⟩, _⟩ => absurd ⟨_, he⟩ hs

/-! ### The types of the parameters -/

def StringOrAbsent (diff : SchemaDiff) (key : String) : Prop :=
  ∀ v, Py.mapGet diff.params (codePoints key) = some v → ∃ s, v = .string s

/-- The parameters that an operation reads are strings or absent: of an axis to be added they are
read just if its class is one that there is. Null is a value, and no string. -/
def WellTyped (diff : SchemaDiff) : Prop :=
  match diff.op with
  | .modifyAxisThreshold => StringOrAbsent diff "new_threshold_repr"
  | .addAxisToGradient =>
    StringOrAbsent diff "axis_class" ∧
      (NamesClass diff → ∀ key ∈ addedAxisKeys, StringOrAbsent diff key)

theorem mem_pyValueEntries {es : List (Key × Tlv)} {e : Py.Str × Py.Value}
    (h : e ∈ pyValueEntries es) : ∃ t : Tlv, e.2 = t.pyValue := by
  induction es with
  | nil => cases h
  | cons p es ih =>
    rcases List.mem_cons.1 h with rfl | h
    · exact ⟨p.2, rfl⟩
    · exact ih h

/-- A string that has been decoded can be read as one. -/
theorem string?_decoded {raw : Bytes} {entries : List (Py.Str × Py.Value)}
    (h : Py.decode raw = .ok (.map entries)) {e : Py.Str × Py.Value} (he : e ∈ entries) :
    Py.string? e.2 = none ↔ ¬ ∃ s, e.2 = .string s := by
  obtain ⟨⟨v, c⟩, h1, h2⟩ := bind_eq_ok.1 h
  obtain ⟨t, -, -, hv, -⟩ := (Py.decodeInto_spec _).1 _ _ _ h1
  dsimp only at h2
  split at h2
  · cases h2
  · cases h2
    cases t <;> cases hv
    obtain ⟨u, hu⟩ := mem_pyValueEntries he
    rw [hu]
    cases u <;> simp [Tlv.pyValue, Py.string?]

theorem parseSchemaDiff_params {raw : Bytes} (h : parseSchemaDiff rt raw = .ok diff) :
    ∃ entries, Py.decode raw = .ok (.map entries) ∧ diff.params ⊆ entries := by
  obtain ⟨decoded, h1, h⟩ := bind_eq_ok.1 h
  cases decoded with
  | map entries =>
    obtain ⟨keys, hk, h⟩ := bind_eq_ok.1 h
    cases hk
    obtain ⟨opStr, -, h⟩ := bind_eq_ok.1 h
    obtain ⟨axisName, -, h⟩ := bind_eq_ok.1 h
    refine ⟨entries, mapError_eq_ok.1 h1, ?_⟩
    cases hop : SchemaDiffOp.ofString? opStr with
    | none =>
      rw [hop] at h
      cases h
    | some op =>
      rw [hop] at h
      cases h
      exact List.filter_subset_self _
  | _ => cases h

theorem mistyped_iff {raw : Bytes} (h : parseSchemaDiff rt raw = .ok diff) {key : String} :
    Mistyped diff key ↔ ¬ StringOrAbsent diff key := by
  obtain ⟨entries, hd, hsub⟩ := parseSchemaDiff_params h
  unfold Mistyped StringOrAbsent
  push Not
  refine exists_congr fun v => and_congr_right fun hv => ?_
  rw [string?_decoded hd (hsub (OrdMap.mem_of_get hv)), not_exists]

/-- An exception escapes just if a parameter is of the wrong type. -/
theorem escapes_applied {raw : Bytes} (h : parseSchemaDiff rt raw = .ok diff) :
    Escapes (applied diff G) ↔ ¬ WellTyped diff := by
  unfold applied WellTyped
  cases diff.op with
  | modifyAxisThreshold =>
    dsimp only
    rw [applyModifyAxisThreshold_eq, escapes_bind, escapes_readNewThreshold, mistyped_iff h]
    refine or_iff_left ?_
    rintro ⟨threshold, -, he⟩
    split at he
    · exact escapes_ok he
    · simp [caught] at he
  | addAxisToGradient =>
    dsimp only
    have hkeys : (∃ key ∈ addedAxisKeys, Mistyped diff key) ↔
        ¬ ∀ key ∈ addedAxisKeys, StringOrAbsent diff key := by
      simp only [mistyped_iff h]
      push Not
      rfl
    rw [applyAddAxis_eq, escapes_bind, escapes_readAddedAxis, mistyped_iff h, hkeys, not_and_or,
      Classical.not_imp]
    refine or_iff_left ?_
    rintro ⟨⟨schema, rule⟩, -, he⟩
    exact escapes_mapError (fun e => by simp [caught]) he

/-! ### Both ways of applying a diff -/

/-- Applying the diff to the object, and to a copy of it, comes to a result, the same one. Refused,
the object stands for what it stood for. Otherwise the copy stands for what the object does, and
has no part in common with what was there. Nothing that was there changes on behalf of a copy. -/
def AppliesAtomically (diff : SchemaDiff) (m : Memory rt) (gradient : Nat)
    (G : GradientConfiguration rt) : Prop :=
  ∃ result inPlace candidate beside,
    (applySchemaDiff diff gradient).exec m = some (.ok result, inPlace) ∧
    (result.succeeded = false → inPlace.Holds gradient G) ∧
    (applySchemaDiffToCopy diff gradient).exec m = some (.ok (candidate, result), beside) ∧
    (result.succeeded = true ↔ candidate.isSome) ∧
    (∀ copy ∈ candidate, (∃ G', inPlace.Holds gradient G' ∧ beside.Holds copy G') ∧
      ∀ r ∈ beside.parts copy, m.next ≤ r) ∧
    beside.Extends m

theorem attemptSchemaDiff_eq_error : (∃ e, attemptSchemaDiff diff G = .error e) ↔
    Escapes (applied diff G) := by
  rw [attemptSchemaDiff_eq]
  cases applied diff G with
  | ok G' => simp
  | error e =>
    rw [escapes_error]
    cases hc : caught e with
    | none => simp [hc]
    | some result => simp [hc]

/-- Both are so just if no parameter that is read has the wrong type. -/
theorem atomically_iff_wellTyped {raw : Bytes} (hparse : parseSchemaDiff rt raw = .ok diff)
    (h : m.Holds gradient G) : AppliesAtomically diff m gradient G ↔ WellTyped diff := by
  obtain ⟨inPlace, h1⟩ := @applySchemaDiff_exec _ _ _ _ diff h
  obtain ⟨beside, hx, h2⟩ := @applySchemaDiffToCopy_exec _ _ _ _ diff h
  have herror := (@attemptSchemaDiff_eq_error _ G diff).trans (escapes_applied hparse)
  constructor
  · rintro ⟨result, _, _, _, he, -⟩
    by_contra hw
    obtain ⟨e, ha⟩ := herror.2 hw
    rw [ha] at h1
    rw [h1.1] at he
    cases he
  · intro hw
    rcases ha : attemptSchemaDiff diff G with e | reason | G'
    · exact absurd hw (herror.1 ⟨e, ha⟩)
    · rw [ha] at h1 h2
      refine ⟨_, inPlace, none, beside, h1.1, fun _ => h1.2, h2, by simp, ?_, hx⟩
      exact fun copy hc => by cases hc
    · rw [ha] at h1 h2
      obtain ⟨candidate, he, hh, hfresh⟩ := h2
      refine ⟨_, inPlace, some candidate, beside, h1.1, fun hf => (by cases hf), he, by simp, ?_,
        hx⟩
      intro copy hc
      cases hc
      exact ⟨⟨G', h1.2, hh⟩, hfresh⟩

/-- A gradient that has one axis: the objects are the axis, the dictionaries and the gradient. -/
def oneAxis : Memory wholeNumbers where
  axis _ := .fromSchema ⟨"sap", .appetite, (5 : Int), (0 : Int), (1 : Int), false⟩
  axes _ := [("sap", 0)]
  updateRules _ := [("sap", .noop)]
  gradient _ := ⟨1, 2⟩
  next := 4

def oneAxisConfiguration : GradientConfiguration wholeNumbers :=
  ⟨[⟨oneAxis.axis 0, .noop⟩], List.nodup_singleton _⟩

theorem oneAxis_holds : oneAxis.Holds 3 oneAxisConfiguration where
  taken := by decide
  axes := ⟨by decide, rfl, List.nodup_singleton _, by decide⟩
  rules := ⟨by decide, rfl⟩

/-- A diff of the threshold of that axis. -/
def thresholdDiff (newThreshold : Value) : Bytes :=
  cbEncode [("op", .string "modify_axis_threshold"), ("axis_name", .string "sap"),
    ("new_threshold_repr", newThreshold)]

/-- The diff changes a threshold and has the new one as a string. -/
def setsThreshold (diff : SchemaDiff) : Bool :=
  diff.op = .modifyAxisThreshold ∧
    (Py.mapGet diff.params (codePoints "new_threshold_repr")).all fun v => (Py.string? v).isSome

/-- A threshold that is a string. -/
theorem threshold_applies : ∃ diff,
    parseSchemaDiff wholeNumbers (thresholdDiff (.string "7")) = .ok diff ∧
    AppliesAtomically diff oneAxis 3 oneAxisConfiguration := by
  have hrun : (parseSchemaDiff wholeNumbers (thresholdDiff (.string "7"))).toOption.any
      setsThreshold = true := by decide
  obtain ⟨diff, hd, hs⟩ := (Option.any_eq_true _ _).1 hrun
  obtain ⟨hop, hparam⟩ := of_decide_eq_true hs
  have hparse := toOption_eq_some.1 hd
  refine ⟨diff, hparse, (atomically_iff_wellTyped hparse oneAxis_holds).2 ?_⟩
  rw [WellTyped, hop]
  intro v hv
  rw [hv, Option.all_some] at hparam
  cases v with
  | string s => exact ⟨s, rfl⟩
  | _ => cases hparam

/-- An exception escapes from applying the diff. -/
def escapesFromOneAxis (diff : SchemaDiff) : Bool :=
  ((applySchemaDiff diff 3).exec oneAxis).any fun p => p.1.toOption.isNone

/-- A threshold that is a number. -/
theorem threshold_escapes : ∃ diff e after,
    parseSchemaDiff wholeNumbers (thresholdDiff (.uint 1)) = .ok diff ∧
    oneAxis.Holds 3 oneAxisConfiguration ∧
    (applySchemaDiff diff 3).exec oneAxis = some (.error e, after) ∧
    ¬ AppliesAtomically diff oneAxis 3 oneAxisConfiguration := by
  have hrun : (parseSchemaDiff wholeNumbers (thresholdDiff (.uint 1))).toOption.any
      escapesFromOneAxis = true := by decide
  obtain ⟨diff, hd, he⟩ := (Option.any_eq_true _ _).1 hrun
  obtain ⟨⟨r, after⟩, hexec, hr⟩ := (Option.any_eq_true _ _).1 he
  cases r with
  | ok result => cases hr
  | error e =>
    refine ⟨diff, e, after, toOption_eq_some.1 hd, oneAxis_holds, hexec, ?_⟩
    rintro ⟨result, _, _, _, hok, -⟩
    rw [hexec] at hok
    cases hok

end Myco.Tropism.Objects
