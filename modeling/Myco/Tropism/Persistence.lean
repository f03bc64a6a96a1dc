import Myco.Canonical.PythonReread
import Myco.Tropism.Evolution

/-!
# Saving and loading the gradient

`persistence.py` of `kernel/tropism`. A gradient is written with its axes in the order of their
names, and the one that is loaded has them in that order.

- `load_save`: what is loaded is what was saved, with its slots in the order of their names.
- `runOps_sorted`: from there on the two do the same, except that whatever the loaded one lists, it
  lists in the order of the names.
-/

namespace Myco.Tropism

open Myco.Lib Myco.Canonical Py

variable {rt : Runtime}

/-! ### Writing -/

def AxisClass.value : AxisClass → String
  | .appetite => "appetite"
  | .decay => "decay"

def ruleKindLabel : UpdateRule → String
  | .noop => "noop"
  | .decay => "decay"

def gradientFormatVersion : Int := 1

/-- The slots in the order of their names. -/
def GradientConfiguration.sorted (g : GradientConfiguration rt) : GradientConfiguration rt where
  slots := g.slots.mergeSort fun s t => s.name ≤ t.name
  nodup := ((List.mergeSort_perm g.slots _).map Slot.name).nodup_iff.2 g.nodup

def axisEntries (s : Slot rt) : List (String × Py.Value) :=
  [("name", .string (codePoints s.name)),
    ("axis_class", .string (codePoints s.axis.schema.axisClass.value)),
    ("fruiting_threshold_repr", .string (codePoints (rt.repr s.axis.schema.fruitingThreshold))),
    ("initial_value_repr", .string (codePoints (rt.repr s.axis.schema.initialValue))),
    ("decay_rate_per_cycle_repr", .string (codePoints (rt.repr s.axis.schema.decayRatePerCycle))),
    ("is_mortality_signal", .bool s.axis.schema.isMortalitySignal),
    ("update_rule_kind", .string (codePoints (ruleKindLabel s.rule))),
    ("current_value_repr", .string (codePoints (rt.repr s.axis.value))),
    ("fruiting_count", .uint s.axis.fruitingCount),
    ("last_fruiting_cycle", .uint (s.axis.lastFruitingCycle.getD 0).toNat),
    ("last_fruiting_cycle_set", .bool s.axis.lastFruitingCycle.isSome)]

def gradientToCanonicalBytes (g : GradientConfiguration rt) : Except Py.Error Bytes :=
  Py.encode (pyMap [("format_version", .uint gradientFormatVersion),
    ("axes", .array (g.sorted.slots.map fun s => pyMap (axisEntries s)))])

/-! ### Reading -/

/-- `fields[key]`, of the dictionary of the pairs of a map. -/
def dictItem (pairs : List (Py.Str × Py.Value)) (key : String) : Except PyError Py.Value :=
  match OrdMap.get (codePoints key) pairs.reverse with
  | some v => .ok v
  | none => .error (.keyError key)

def pyExpectUint : Py.Value → Except PyError Int
  | .uint n => .ok n
  | other => .error (.canonicalBytes s!"expect_uint: not a Uint: {pyTypeName other}")

def pyExpectBool : Py.Value → Except PyError Bool
  | .bool b => .ok b
  | other => .error (.canonicalBytes s!"expect_bool: not a Bool: {pyTypeName other}")

def pyExpectArray : Py.Value → Except PyError (List Py.Value)
  | .array items => .ok items
  | other => .error (.canonicalBytes s!"expect_array: not an Array: {pyTypeName other}")

def pyExpectMap : Py.Value → Except PyError (List (Py.Str × Py.Value))
  | .map pairs => .ok pairs
  | other => .error (.canonicalBytes s!"expect_map: not a Map: {pyTypeName other}")

/-- What is read of an axis in one `try`. -/
structure AxisFields (rt : Runtime) where
  name : String
  axisClassStr : String
  fruitingThreshold : rt.F
  initialValue : rt.F
  decayRatePerCycle : rt.F
  isMortalitySignal : Bool
  updateRuleKind : String
  currentValue : rt.F
  fruitingCount : Int
  lastFruitingCycleRaw : Int
  lastFruitingCycleSet : Bool

def readSavedAxis (pairs : List (Py.Str × Py.Value)) : Except PyError (AxisFields rt) := do
  let name ← dictItem pairs "name" >>= pyExpectString
  let axisClassStr ← dictItem pairs "axis_class" >>= pyExpectString
  let fruitingThreshold ← dictItem pairs "fruiting_threshold_repr" >>= pyExpectString >>= toFloat
  let initialValue ← dictItem pairs "initial_value_repr" >>= pyExpectString >>= toFloat
  let decayRatePerCycle ←
    dictItem pairs "decay_rate_per_cycle_repr" >>= pyExpectString >>= toFloat
  let isMortalitySignal ← dictItem pairs "is_mortality_signal" >>= pyExpectBool
  let updateRuleKind ← dictItem pairs "update_rule_kind" >>= pyExpectString
  let currentValue ← dictItem pairs "current_value_repr" >>= pyExpectString >>= toFloat
  let fruitingCount ← dictItem pairs "fruiting_count" >>= pyExpectUint
  let lastFruitingCycleRaw ← dictItem pairs "last_fruiting_cycle" >>= pyExpectUint
  let lastFruitingCycleSet ← dictItem pairs "last_fruiting_cycle_set" >>= pyExpectBool
  return ⟨name, axisClassStr, fruitingThreshold, initialValue, decayRatePerCycle,
    isMortalitySignal, updateRuleKind, currentValue, fruitingCount, lastFruitingCycleRaw,
    lastFruitingCycleSet⟩

/-- `axes[name] = ..` and `update_rules[name] = ..` -/
def GradientConfiguration.assign (g : GradientConfiguration rt) (slot : Slot rt) :
    GradientConfiguration rt :=
  if h : slot.name ∈ g.names then
    g.mapSlots (fun s => if s.name = slot.name then slot else s) fun s => by
      split
      · rename_i hs
        exact hs.symm
      · rfl
  else ⟨g.slots ++ [slot], by
    rw [List.map_append, List.map_singleton, ← List.concat_eq_append]
    exact List.Nodup.concat h g.nodup⟩

def AxisFields.slot (f : AxisFields rt) (axisClass : AxisClass) (rule : UpdateRule) : Slot rt where
  axis := {
    schema := ⟨f.name, axisClass, f.fruitingThreshold, f.initialValue, f.decayRatePerCycle,
      f.isMortalitySignal⟩
    value := f.currentValue
    fruitingCount := f.fruitingCount.toNat
    lastFruitingCycle :=
      if f.lastFruitingCycleSet then some (UInt64.ofNat f.lastFruitingCycleRaw.toNat) else none }
  rule

/-- One turn of the loop over the axes. The error is the text of a `PersistenceError`. -/
def loadAxis (g : GradientConfiguration rt) (axisValue : Py.Value) :
    Except String (GradientConfiguration rt) := do
  let pairs ← (pyExpectMap axisValue).mapError fun e => s!"axis entry not a Map: {e.text}"
  let fields ← (readSavedAxis pairs).mapError fun e => s!"axis decode error: {e.text}"
  let axisClass ← match AxisClass.ofString? fields.axisClassStr with
    | some axisClass => pure axisClass
    | none => .error s!"unknown axis_class: {rt.strRepr fields.axisClassStr}"
  let rule ← match UpdateRule.ofString? fields.updateRuleKind with
    | some rule => pure rule
    | none => .error s!"unknown update_rule_kind: {rt.strRepr fields.updateRuleKind}"
  return g.assign (fields.slot axisClass rule)

/-- The gradient, unless it is of another version. The error is the text of a `PersistenceError`. -/
def gradientFromCanonicalBytes (data : Bytes) :
    Except String (Option (GradientConfiguration rt)) := do
  let decoded ← (Py.decode data).mapError fun e =>
    s!"gradient decode failed: {rt.decodeErrorText e}"
  let fields ← (pyExpectMap decoded).mapError fun e => s!"gradient root is not a Map: {e.text}"
  let version ← (dictItem fields "format_version" >>= pyExpectUint).mapError fun e =>
    s!"gradient missing format_version: {e.text}"
  if version ≠ gradientFormatVersion then return none
  else
    let axes ← (dictItem fields "axes" >>= pyExpectArray).mapError fun e =>
      s!"gradient missing axes array: {e.text}"
    some <$> axes.foldlM loadAxis .empty

/-! ### What is saved is loaded -/

section

variable {g : GradientConfiguration rt} {s : Slot rt}

/-- The entries of an axis as the other side of the bridge would have them. -/
def mirrorEntries (s : Slot rt) : List (String × Canonical.Value) :=
  [("name", .string s.name),
    ("axis_class", .string s.axis.schema.axisClass.value),
    ("fruiting_threshold_repr", .string (rt.repr s.axis.schema.fruitingThreshold)),
    ("initial_value_repr", .string (rt.repr s.axis.schema.initialValue)),
    ("decay_rate_per_cycle_repr", .string (rt.repr s.axis.schema.decayRatePerCycle)),
    ("is_mortality_signal", .bool s.axis.schema.isMortalitySignal),
    ("update_rule_kind", .string (ruleKindLabel s.rule)),
    ("current_value_repr", .string (rt.repr s.axis.value)),
    ("fruiting_count", .uint (UInt64.ofNat s.axis.fruitingCount)),
    ("last_fruiting_cycle", .uint (s.axis.lastFruitingCycle.getD 0)),
    ("last_fruiting_cycle_set", .bool s.axis.lastFruitingCycle.isSome)]

def mirror (g : GradientConfiguration rt) : List (String × Canonical.Value) :=
  [("format_version", .uint 1),
    ("axes", .array (g.sorted.slots.map fun s => mapOf (mirrorEntries s)))]

theorem mirrorEntries_keys : ((mirrorEntries s).map Prod.fst).Nodup := by
  simp only [mirrorEntries, List.map_cons, List.map_nil]
  decide

theorem mirror_keys : ((mirror g).map Prod.fst).Nodup := by
  simp only [mirror, List.map_cons, List.map_nil]
  decide

theorem mirrorEntries_wf : (mapOf (mirrorEntries s)).WF :=
  mapOf_wf (by simp [mirrorEntries, Canonical.Value.WF])

theorem mirror_wf : (mapOf (mirror g)).WF := by
  refine mapOf_wf fun e he => ?_
  rcases List.mem_pair.1 he with rfl | rfl
  · trivial
  · rw [Canonical.Value.WF, wfItems_iff, List.forall_mem_map]
    exact fun s _ => mirrorEntries_wf

theorem denote_axisEntries (hs : s.axis.fruitingCount < 2 ^ 64) :
    (pyMap (axisEntries s)).denote = (mapOf (mirrorEntries s)).denote := by
  refine denote_pyMap mirrorEntries_keys ?_
  simp only [axisEntries, mirrorEntries, List.map_cons, List.map_nil, Py.Value.denote,
    Canonical.Value.denote, UInt64.toNat_ofNat_of_lt' hs]

theorem pyDenoteItems_eq {vs : List Py.Value} : pyDenoteItems vs = vs.map Py.Value.denote := by
  induction vs with
  | nil => rfl
  | cons v vs ih => rw [pyDenoteItems, ih, List.map_cons]

theorem denoteItems_eq {vs : List Canonical.Value} :
    denoteItems vs = vs.map Canonical.Value.denote := by
  induction vs with
  | nil => rfl
  | cons v vs ih => rw [denoteItems, ih, List.map_cons]

/-- Saving does not fail. -/
theorem gradientToCanonicalBytes_eq (h : ∀ s ∈ g.slots, s.axis.fruitingCount < 2 ^ 64) :
    gradientToCanonicalBytes g = .ok (mapOf (mirror g)).wire := by
  have hslots : ∀ s ∈ g.sorted.slots, s.axis.fruitingCount < 2 ^ 64 :=
    fun s hs => h s (List.mem_mergeSort.1 hs)
  refine encode_eq_wire mirror_wf ?_ (denote_pyMap mirror_keys ?_)
  · refine distinct_pyMap (by simp only [List.map_cons, List.map_nil]; decide) fun e he => ?_
    rcases List.mem_pair.1 he with rfl | rfl
    · trivial
    · rw [Value.Distinct, distinctItems_iff, List.forall_mem_map]
      refine fun s _ => distinct_pyMap ?_ (by simp [axisEntries, Value.Distinct])
      simp only [axisEntries, List.map_cons, List.map_nil]
      decide
  · have haxes : g.sorted.slots.map (fun s => (pyMap (axisEntries s)).denote) =
        g.sorted.slots.map fun s => (mapOf (mirrorEntries s)).denote :=
      List.map_congr_left fun s hs => denote_axisEntries (hslots s hs)
    simp only [mirror, List.map_cons, List.map_nil, Py.Value.denote, Canonical.Value.denote,
      pyDenoteItems_eq, denoteItems_eq, List.map_map]
    exact congrArg (fun ts => [("format_version", Tree.uint 1), ("axes", .array ts)]) haxes

end

/-- What has been read of an axis that was saved. -/
def fieldsOf (s : Slot rt) : AxisFields rt where
  name := s.name
  axisClassStr := s.axis.schema.axisClass.value
  fruitingThreshold := s.axis.schema.fruitingThreshold
  initialValue := s.axis.schema.initialValue
  decayRatePerCycle := s.axis.schema.decayRatePerCycle
  isMortalitySignal := s.axis.schema.isMortalitySignal
  updateRuleKind := ruleKindLabel s.rule
  currentValue := s.axis.value
  fruitingCount := s.axis.fruitingCount
  lastFruitingCycleRaw := (s.axis.lastFruitingCycle.getD 0).toNat
  lastFruitingCycleSet := s.axis.lastFruitingCycle.isSome

theorem pyExpectString_reread {text : String} :
    pyExpectString (reread (.string text)) = .ok text := by
  show pyExpectString (.string (codePoints text)) = _
  rw [pyExpectString, Py.string?, scalars?_codePoints]

section

variable (hrepr : ∀ x, rt.float (rt.repr x) = some x)

include hrepr

theorem toFloat_repr (x : rt.F) : toFloat (rt.repr x) = .ok x := by
  rw [toFloat, hrepr]

theorem readSavedAxis_mirror {s : Slot rt} (hs : s.axis.fruitingCount < 2 ^ 64)
    {pairs : List (Py.Str × Py.Value)}
    (h : ∀ e ∈ mirrorEntries s, OrdMap.get (codePoints e.1) pairs.reverse = some (reread e.2)) :
    readSavedAxis pairs = .ok (fieldsOf s) := by
  have hitem : ∀ k v, (k, v) ∈ mirrorEntries s → dictItem pairs k = .ok (reread v) := by
    intro k v hkv
    rw [dictItem, h _ hkv]
  have htext : ∀ k text, (k, .string text) ∈ mirrorEntries s →
      (dictItem pairs k >>= pyExpectString) = .ok text := by
    intro k text hkv
    rw [hitem k _ hkv, ok_bind, pyExpectString_reread]
  have hfloat : ∀ k x, (k, .string (rt.repr x)) ∈ mirrorEntries s →
      (dictItem pairs k >>= pyExpectString >>= toFloat) = .ok x := by
    intro k x hkv
    rw [htext k _ hkv, ok_bind, toFloat_repr hrepr]
  have huint : ∀ k u, (k, .uint u) ∈ mirrorEntries s →
      (dictItem pairs k >>= pyExpectUint) = .ok (u.toNat : Int) := by
    intro k u hkv
    rw [hitem k _ hkv, ok_bind]
    rfl
  have hbool : ∀ k b, (k, .bool b) ∈ mirrorEntries s →
      (dictItem pairs k >>= pyExpectBool) = .ok b := by
    intro k b hkv
    rw [hitem k _ hkv, ok_bind]
    rfl
  rw [readSavedAxis, htext "name" s.name (by simp [mirrorEntries]), ok_bind,
    htext "axis_class" s.axis.schema.axisClass.value (by simp [mirrorEntries]), ok_bind,
    hfloat "fruiting_threshold_repr" s.axis.schema.fruitingThreshold (by simp [mirrorEntries]),
    ok_bind, hfloat "initial_value_repr" s.axis.schema.initialValue (by simp [mirrorEntries]),
    ok_bind,
    hfloat "decay_rate_per_cycle_repr" s.axis.schema.decayRatePerCycle (by simp [mirrorEntries]),
    ok_bind, hbool "is_mortality_signal" s.axis.schema.isMortalitySignal (by simp [mirrorEntries]),
    ok_bind, htext "update_rule_kind" (ruleKindLabel s.rule) (by simp [mirrorEntries]), ok_bind,
    hfloat "current_value_repr" s.axis.value (by simp [mirrorEntries]), ok_bind,
    huint "fruiting_count" (UInt64.ofNat s.axis.fruitingCount) (by simp [mirrorEntries]), ok_bind,
    huint "last_fruiting_cycle" (s.axis.lastFruitingCycle.getD 0) (by simp [mirrorEntries]),
    ok_bind, hbool "last_fruiting_cycle_set" s.axis.lastFruitingCycle.isSome
      (by simp [mirrorEntries]), ok_bind, UInt64.toNat_ofNat_of_lt' hs]
  rfl

omit hrepr in
theorem fieldsOf_slot (s : Slot rt) : (fieldsOf s).slot s.axis.schema.axisClass s.rule = s := by
  obtain ⟨⟨schema, value, count, last⟩, rule⟩ := s
  cases last with
  | none => rfl
  | some c => simp [fieldsOf, AxisFields.slot, Slot.name]

theorem loadAxis_mirror {g : GradientConfiguration rt} {s : Slot rt}
    (hs : s.axis.fruitingCount < 2 ^ 64) :
    loadAxis g (reread (mapOf (mirrorEntries s))) = .ok (g.assign s) := by
  obtain ⟨pairs, hpairs, hget⟩ := reread_mapOf (@mirrorEntries_keys rt s)
  have hclass : AxisClass.ofString? s.axis.schema.axisClass.value =
      some s.axis.schema.axisClass := by cases s.axis.schema.axisClass <;> rfl
  have hrule : UpdateRule.ofString? (ruleKindLabel s.rule) = some s.rule := by
    cases s.rule <;> rfl
  rw [loadAxis, hpairs, pyExpectMap]
  simp only [Except.mapError, ok_bind, readSavedAxis_mirror hrepr hs hget]
  simp only [fieldsOf, hclass, hrule]
  exact congrArg (fun t => Except.ok (g.assign t)) (fieldsOf_slot s)

/-- The loop appends the slots one after the other. -/
theorem foldlM_loadAxis (ss : List (Slot rt)) (hss : ∀ s ∈ ss, s.axis.fruitingCount < 2 ^ 64)
    {g : GradientConfiguration rt} (hn : (g.names ++ ss.map Slot.name).Nodup) :
    ∃ g', (ss.map fun s => reread (mapOf (mirrorEntries s))).foldlM loadAxis g = .ok g' ∧
      g'.slots = g.slots ++ ss := by
  induction ss generalizing g with
  | nil => exact ⟨g, rfl, (List.append_nil _).symm⟩
  | cons s ss ih =>
    rw [List.forall_mem_cons] at hss
    have hnew : s.name ∉ g.names := by
      rw [List.map_cons] at hn
      exact fun hm => (List.nodup_append.1 hn).2.2 _ hm _ List.mem_cons_self rfl
    have hassign : (g.assign s).slots = g.slots ++ [s] := by
      rw [GradientConfiguration.assign, dif_neg hnew]
    obtain ⟨g', hload, hslots⟩ := ih (g := g.assign s) hss.2 (by
      rw [GradientConfiguration.names, hassign, List.map_append, List.append_assoc]
      exact hn)
    refine ⟨g', ?_, by rw [hslots, hassign, List.append_assoc]; rfl⟩
    rw [List.map_cons, List.foldlM_cons, loadAxis_mirror hrepr hss.1]
    exact hload

/-- What is loaded is what was saved, in the order of the names. -/
theorem load_save {g : GradientConfiguration rt}
    (h : ∀ s ∈ g.slots, s.axis.fruitingCount < 2 ^ 64)
    (hmem : (mapOf (mirror g)).wire.length ≤ isizeMax) :
    gradientFromCanonicalBytes (mapOf (mirror g)).wire = .ok (some g.sorted) := by
  obtain ⟨pairs, hpairs, hget⟩ := reread_mapOf (@mirror_keys rt g)
  have hversion : dictItem pairs "format_version" = .ok (.uint 1) := by
    rw [dictItem, hget ("format_version", .uint 1) (by simp [mirror])]
    rfl
  have haxes : dictItem pairs "axes" =
      .ok (.array (g.sorted.slots.map fun s => reread (mapOf (mirrorEntries s)))) := by
    rw [dictItem, hget ("axes", .array (g.sorted.slots.map fun s => mapOf (mirrorEntries s)))
      (by simp [mirror]), reread_array, List.map_map]
    rfl
  obtain ⟨g', hload, hslots⟩ := foldlM_loadAxis hrepr g.sorted.slots
    (fun s hs => h s (List.mem_mergeSort.1 hs)) (g := .empty) g.sorted.nodup
  rw [gradientFromCanonicalBytes, decode_wire mirror_wf hmem, hpairs]
  simp only [Except.mapError, ok_bind, pyExpectMap, hversion, pyExpectUint, haxes, pyExpectArray,
    hload, gradientFormatVersion]
  have hsorted : g' = g.sorted := GradientConfiguration.ext (hslots.trans (List.nil_append _))
  rw [hsorted]
  rfl

end

/-! ### The two go on alike -/

inductive GradientOp (rt : Runtime) where
  | perturb (name : String) (delta : rt.F)
  | advance
  /-- an advance and the reset of what it has listed -/
  | cycle (atCycle : UInt64)

inductive OpAnswer where
  | done
  | failed (e : GradientError)
  | ready (names : List String)

def OpAnswer.sorted : OpAnswer → OpAnswer
  | .ready names => .ready (names.mergeSort fun m n => m ≤ n)
  | answer => answer

def GradientOp.run : GradientOp rt → GradientConfiguration rt → OpAnswer × GradientConfiguration rt
  | .perturb name delta, g =>
    match g.perturbAxis name delta with
    | .ok g => (.done, g)
    | .error e => (.failed e, g)
  | .advance, g => (.ready g.advance.1, g.advance.2)
  | .cycle c, g =>
    match g.advance.2.resetAfterFruiting g.advance.1 c with
    | .ok g' => (.ready g.advance.1, g')
    | .error e => (.failed e, g.advance.2)

def runOps : List (GradientOp rt) → GradientConfiguration rt →
    List OpAnswer × GradientConfiguration rt
  | [], g => ([], g)
  | op :: ops, g =>
    let (answer, g) := op.run g
    let (answers, g) := runOps ops g
    (answer :: answers, g)

section

variable {g : GradientConfiguration rt} {c : UInt64}

theorem mem_sorted {s : Slot rt} : s ∈ g.sorted.slots ↔ s ∈ g.slots := List.mem_mergeSort

theorem mem_names_sorted {n : String} : n ∈ g.sorted.names ↔ n ∈ g.names := by
  rw [GradientConfiguration.names, GradientConfiguration.names, List.mem_map, List.mem_map]
  simp only [mem_sorted]

theorem sorted_mapSlots {f : Slot rt → Slot rt} {hf : ∀ s, (f s).name = s.name} :
    (g.mapSlots f hf).sorted = g.sorted.mapSlots f hf := by
  refine GradientConfiguration.ext (List.map_mergeSort fun s _ t _ => ?_).symm
  rw [hf, hf]

theorem sorted_turn : (g.turn c).sorted = g.sorted.turn c := sorted_mapSlots

/-- Sorting by a string leaves the strings in order. -/
theorem pairwise_mergeSort_by {α : Type} {f : α → String} (xs : List α) :
    (xs.mergeSort fun a b => f a ≤ f b).Pairwise fun a b => f a ≤ f b := by
  have htrans : ∀ a b c : α, decide (f a ≤ f b) = true → decide (f b ≤ f c) = true →
      decide (f a ≤ f c) = true := fun a b c hab hbc => decide_eq_true
    (String.le_trans (of_decide_eq_true hab) (of_decide_eq_true hbc))
  have htotal : ∀ a b : α, (decide (f a ≤ f b) || decide (f b ≤ f a)) = true := fun a b => by
    simpa using String.le_total (f a) (f b)
  exact (List.pairwise_mergeSort htrans htotal xs).imp of_decide_eq_true

/-- A list that is in order is what its entries are sorted to. -/
theorem mergeSort_eq_of_perm {xs ys : List String} (hp : xs.Perm ys)
    (hs : xs.Pairwise fun m n => m ≤ n) : xs = ys.mergeSort fun m n => m ≤ n :=
  (hp.trans (List.mergeSort_perm ys _).symm).eq_of_pairwise
    (fun _ _ _ _ h h' => String.le_antisymm h h') hs (pairwise_mergeSort_by (f := fun n => n) ys)

theorem advance_sorted_snd : g.sorted.advance.2 = g.advance.2.sorted :=
  (@sorted_mapSlots rt g Slot.update fun _ => Slot.name_update).symm

theorem advance_sorted_fst : g.sorted.advance.1 = g.advance.1.mergeSort fun m n => m ≤ n := by
  have hready : g.sorted.advance.1 = (g.advance.2.sorted.slots.filter
      (·.axis.isAtFruitingThreshold)).map Slot.name := by
    rw [← advance_sorted_snd]
    rfl
  rw [hready]
  refine mergeSort_eq_of_perm (((List.mergeSort_perm g.advance.2.slots _).filter _).map _) ?_
  exact List.pairwise_map.2 ((pairwise_mergeSort_by (f := Slot.name) _).filter _)

/-- An operation on the sorted gradient answers and leaves the same, sorted. -/
theorem run_sorted (op : GradientOp rt) :
    op.run g.sorted = ((op.run g).1.sorted, (op.run g).2.sorted) := by
  cases op with
  | perturb name delta =>
    by_cases hn : name ∈ g.names
    · have hperturb : ∀ k : GradientConfiguration rt, name ∈ k.names → k.perturbAxis name delta =
          .ok (k.modifyAxis name (Slot.perturb delta) fun _ => Slot.name_perturb) :=
        fun k hk => if_pos hk
      rw [GradientOp.run, GradientOp.run, hperturb g hn, hperturb _ (mem_names_sorted.2 hn)]
      exact congrArg (Prod.mk OpAnswer.done) sorted_mapSlots.symm
    · have hperturb : ∀ k : GradientConfiguration rt, name ∉ k.names →
          k.perturbAxis name delta = .error (.axisNotFound name) := fun k hk => if_neg hk
      rw [GradientOp.run, GradientOp.run, hperturb g hn,
        hperturb _ fun h => hn (mem_names_sorted.1 h)]
      rfl
  | advance =>
    rw [GradientOp.run, GradientOp.run, advance_sorted_fst, advance_sorted_snd]
    rfl
  | cycle c =>
    rw [GradientOp.run, GradientOp.run, GradientConfiguration.resetAfterFruiting_advance,
      GradientConfiguration.resetAfterFruiting_advance, advance_sorted_fst]
    exact congrArg (Prod.mk (OpAnswer.ready _)) sorted_turn.symm

theorem runOps_sorted (ops : List (GradientOp rt)) :
    runOps ops g.sorted = ((runOps ops g).1.map OpAnswer.sorted, (runOps ops g).2.sorted) := by
  induction ops generalizing g with
  | nil => rfl
  | cons op ops ih =>
    simp only [runOps, run_sorted, ih]
    rfl

/-- A gradient whose names ascend is loaded as it was. -/
theorem sorted_eq (h : g.names.Pairwise fun m n => m ≤ n) : g.sorted = g :=
  GradientConfiguration.ext (List.mergeSort_of_pairwise
    ((List.pairwise_map.1 h).imp fun h => by simpa using h))

end

/-- A gradient that registrations and perturbations have made. -/
inductive Built : GradientConfiguration rt → Prop
  | empty : Built .empty
  | register {g g' : GradientConfiguration rt} {schema : AxisSchema rt} {rule : UpdateRule} :
      Built g → g.registerAxis schema rule = .ok g' → Built g'
  | perturb {g g' : GradientConfiguration rt} {name : String} {delta : rt.F} :
      Built g → g.perturbAxis name delta = .ok g' → Built g'

theorem Built.fruitingCount {g : GradientConfiguration rt} (h : Built g) :
    ∀ s ∈ g.slots, s.axis.fruitingCount = 0 := by
  induction h with
  | empty => exact fun s hs => by cases hs
  | register _ hr ih =>
    intro s hs
    rw [(GradientConfiguration.registerAxis_eq_ok.1 hr).2, List.mem_append,
      List.mem_singleton] at hs
    rcases hs with hs | rfl
    · exact ih s hs
    · rfl
  | perturb _ hp ih =>
    obtain ⟨-, rfl⟩ := GradientConfiguration.perturbAxis_eq_ok.1 hp
    intro s hs
    obtain ⟨t, ht, rfl⟩ := List.mem_map.1 hs
    split
    · exact ih t ht
    · exact ih t ht

/-- A gradient is saved, and what is loaded behaves as it would have, except that what it lists is
in the order of the names; if the names ascend, it is in the same order. -/
theorem saved_gradient_behaves (hrepr : ∀ x, rt.float (rt.repr x) = some x)
    {g : GradientConfiguration rt} (hg : Built g) : ∃ data,
    gradientToCanonicalBytes g = .ok data ∧ (data.length ≤ isizeMax →
      ∃ loaded : GradientConfiguration rt, gradientFromCanonicalBytes data = .ok (some loaded) ∧
        (∀ ops, (runOps ops loaded).1 = (runOps ops g).1.map OpAnswer.sorted ∧
          ∀ s, s ∈ (runOps ops loaded).2.slots ↔ s ∈ (runOps ops g).2.slots) ∧
        ((g.names.Pairwise fun m n => m ≤ n) →
          ∀ ops, (runOps ops loaded).1 = (runOps ops g).1)) := by
  have hcount : ∀ s ∈ g.slots, s.axis.fruitingCount < 2 ^ 64 := fun s hs => by
    rw [hg.fruitingCount s hs]
    decide
  refine ⟨_, gradientToCanonicalBytes_eq hcount, fun hmem =>
    ⟨g.sorted, load_save hrepr hcount hmem, fun ops => ?_, fun hn ops => by rw [sorted_eq hn]⟩⟩
  rw [runOps_sorted]
  exact ⟨rfl, fun s => mem_sorted⟩

/-! ### Two axes registered against the order of their names -/

def bothReady (name : String) : AxisSchema wholeNumbers :=
  ⟨name, .appetite, (0 : Int), (1 : Int), (1 : Int), false⟩

/-- An axis `b`, and then an axis `a`. -/
def descending : GradientConfiguration wholeNumbers :=
  ⟨[⟨.fromSchema (bothReady "b"), .noop⟩, ⟨.fromSchema (bothReady "a"), .noop⟩], by decide⟩

theorem built_descending : Built descending := by
  have hb : (GradientConfiguration.empty : GradientConfiguration wholeNumbers).registerAxis
      (bothReady "b") .noop = .ok ⟨[⟨.fromSchema (bothReady "b"), .noop⟩], by decide⟩ :=
    GradientConfiguration.registerAxis_eq_ok.2 ⟨by decide, rfl⟩
  exact .register (.register .empty hb)
    (GradientConfiguration.registerAxis_eq_ok.2 ⟨by decide, rfl⟩)

theorem repr_wholeNumbers (x : Int) : wholeNumbers.float (wholeNumbers.repr x) = some x :=
  @Runtime.float_floatRepr wholeNumbers x

/-- How an axis that was just registered is saved. -/
def savedReady (name : String) : Canonical.Value :=
  mapOf [("name", .string name), ("axis_class", .string "appetite"),
    ("fruiting_threshold_repr", .string "0"), ("initial_value_repr", .string "01"),
    ("decay_rate_per_cycle_repr", .string "01"), ("is_mortality_signal", .bool false),
    ("update_rule_kind", .string "noop"), ("current_value_repr", .string "01"),
    ("fruiting_count", .uint 0), ("last_fruiting_cycle", .uint 0),
    ("last_fruiting_cycle_set", .bool false)]

theorem length_wire_descending : (mapOf (mirror descending)).wire.length ≤ isizeMax := by
  have h0 : wholeNumbers.repr (0 : Int) = "0" := by decide
  have h1 : wholeNumbers.repr (1 : Int) = "01" := by
    simp [wholeNumbers, wholeText, wholeChars]
  have hsaved : ∀ name, mapOf (mirrorEntries ⟨.fromSchema (bothReady name), .noop⟩) =
      savedReady name := by
    intro name
    simp only [mirrorEntries, AppetiteAxis.fromSchema, bothReady, h0, h1]
    rfl
  have hslots : descending.sorted.slots =
      [⟨.fromSchema (bothReady "a"), .noop⟩, ⟨.fromSchema (bothReady "b"), .noop⟩] := by
    have hle : ¬ "b" ≤ "a" := by decide
    simp [GradientConfiguration.sorted, descending, List.mergeSort, Slot.name,
      AppetiteAxis.fromSchema, bothReady, hle]
  rw [mirror, hslots, List.map_cons, List.map_cons, List.map_nil, hsaved, hsaved]
  decide +kernel

/-- The loaded gradient lists what fruits in another order. -/
theorem loaded_order_differs : ∃ data, gradientToCanonicalBytes descending = .ok data ∧
    ∃ loaded : GradientConfiguration wholeNumbers,
      gradientFromCanonicalBytes data = .ok (some loaded) ∧
        (runOps [.advance] loaded).1 ≠ (runOps [.advance] descending).1 := by
  have hcount : ∀ s ∈ descending.slots, s.axis.fruitingCount < 2 ^ 64 := fun s hs => by
    rw [built_descending.fruitingCount s hs]
    decide
  refine ⟨_, gradientToCanonicalBytes_eq hcount, _,
    load_save repr_wholeNumbers hcount length_wire_descending, fun h => ?_⟩
  rw [runOps_sorted] at h
  have hnames : descending.advance.1 = ["b", "a"] := by decide
  have hready := OpAnswer.ready.inj (List.cons.inj h).1
  have hsorted := pairwise_mergeSort_by (f := fun n => n) descending.advance.1
  rw [hready, hnames] at hsorted
  revert hsorted
  decide

/-- The two axes are saved, and listed in the other order from then on. -/
theorem saved_gradient_behaves_descending : ∃ data,
    gradientToCanonicalBytes descending = .ok data ∧ (data.length ≤ isizeMax →
      ∃ loaded : GradientConfiguration wholeNumbers,
        gradientFromCanonicalBytes data = .ok (some loaded) ∧
          ∀ ops, (runOps ops loaded).1 = (runOps ops descending).1.map OpAnswer.sorted) := by
  obtain ⟨data, hsave, hload⟩ := saved_gradient_behaves repr_wholeNumbers built_descending
  refine ⟨data, hsave, fun hmem => ?_⟩
  obtain ⟨loaded, h, hops, -⟩ := hload hmem
  exact ⟨loaded, h, fun ops => (hops ops).1⟩

end Myco.Tropism
