import Mathlib.Data.List.Nodup
import Mathlib.Data.Nat.Digits.Lemmas
import Myco.Canonical.Python
import Myco.Lib.Literals

/-!
# The gradient

`GradientConfiguration` and `AppetiteAxis` of `kernel/tropism`, over floats of which nothing is
known but that they are written and read. The two dictionaries of a configuration have the same
keys, so it is one list of slots here, in the order of insertion, no name twice.

A cycle runs the update rules, reports the axes that have come to their threshold and resets
those: `resetAfterFruiting_advance` says that this turns every slot by itself. What two
configurations have in common when their axes, parameters and values agree is their `view`; counts
and dates of fruiting are no part of it.
-/

namespace Myco.Tropism

open Myco.Lib Myco.Canonical

/-! ### Floats -/

/-- Binary64 numbers as Rust and Python have them, and the texts that Python makes of things. -/
structure Runtime where
  F : Type
  add : F → F → F
  mul : F → F → F
  le : F → F → Bool
  isFinite : F → Bool
  isNegative : F → Bool
  /-- the float that a literal is rounded to -/
  nearest : Literal → F
  /-- `float_repr` -/
  floatRepr : F → String
  /-- Python's `repr` of a float -/
  repr : F → String
  /-- Python's `repr` of a string -/
  strRepr : String → String
  /-- Python's `repr` of a dictionary of canonical values -/
  paramsRepr : List (Py.Str × Py.Value) → String
  /-- `str(e)` of a `CanonicalBytesError` -/
  decodeErrorText : Py.Error → String
  chars : CharTable
  read_floatRepr : ∀ x, (f64FromStr (floatRepr x)).map nearest = some x

namespace Runtime

variable (rt : Runtime)

/-- `s.parse::<f64>().ok()` -/
def f64 (s : String) : Option rt.F := (f64FromStr s).map rt.nearest

/-- `float(s)`, unless it raises. -/
def float (s : String) : Option rt.F := (pyFloat rt.chars s).map rt.nearest

variable {rt}

theorem f64_floatRepr (x : rt.F) : rt.f64 (rt.floatRepr x) = some x := rt.read_floatRepr x

theorem float_of_f64 {s : String} {x : rt.F} (h : rt.f64 s = some x) : rt.float s = some x := by
  obtain ⟨l, hl, rfl⟩ := Option.map_eq_some_iff.1 h
  rw [float, pyFloat_of_f64FromStr _ hl]
  rfl

theorem float_floatRepr (x : rt.F) : rt.float (rt.floatRepr x) = some x :=
  float_of_f64 (f64_floatRepr x)

end Runtime

variable {rt : Runtime}

/-! ### Axes -/

inductive AxisClass where
  | appetite
  | decay
deriving DecidableEq

def AxisClass.ofString? : String → Option AxisClass
  | "appetite" => some .appetite
  | "decay" => some .decay
  | _ => none

inductive UpdateRule where
  | decay
  | noop
deriving DecidableEq

def UpdateRule.ofString? : String → Option UpdateRule
  | "decay" => some .decay
  | "noop" => some .noop
  | _ => none

structure AxisSchema (rt : Runtime) where
  name : String
  axisClass : AxisClass
  fruitingThreshold : rt.F
  initialValue : rt.F
  decayRatePerCycle : rt.F
  isMortalitySignal : Bool

structure AppetiteAxis (rt : Runtime) where
  schema : AxisSchema rt
  value : rt.F
  fruitingCount : Nat
  lastFruitingCycle : Option UInt64

def AppetiteAxis.fromSchema (schema : AxisSchema rt) : AppetiteAxis rt :=
  ⟨schema, schema.initialValue, 0, none⟩

def AppetiteAxis.isAtFruitingThreshold (a : AppetiteAxis rt) : Bool :=
  match a.schema.axisClass with
  | .appetite => rt.le a.schema.fruitingThreshold a.value
  | .decay => rt.le a.value a.schema.fruitingThreshold

def AppetiteAxis.perturb (delta : rt.F) (a : AppetiteAxis rt) : AppetiteAxis rt :=
  { a with value := rt.add a.value delta }

def AppetiteAxis.resetAfterFruiting (atCycle : UInt64) (a : AppetiteAxis rt) : AppetiteAxis rt where
  schema := a.schema
  value := match a.schema.axisClass with
    | .appetite => a.schema.initialValue
    | .decay => a.value
  fruitingCount := a.fruitingCount + 1
  lastFruitingCycle := some atCycle

def UpdateRule.update (rule : UpdateRule) (a : AppetiteAxis rt) : AppetiteAxis rt :=
  match rule with
  | .decay => { a with value := rt.mul a.value a.schema.decayRatePerCycle }
  | .noop => a

/-- An axis and its update rule. -/
structure Slot (rt : Runtime) where
  axis : AppetiteAxis rt
  rule : UpdateRule

namespace Slot

def name (s : Slot rt) : String := s.axis.schema.name

def perturb (delta : rt.F) (s : Slot rt) : Slot rt := { s with axis := s.axis.perturb delta }

def update (s : Slot rt) : Slot rt := { s with axis := s.rule.update s.axis }

def reset (atCycle : UInt64) (s : Slot rt) : Slot rt :=
  { s with axis := s.axis.resetAfterFruiting atCycle }

/-- The schema replaced by one of the same name. -/
def setThreshold (threshold : rt.F) (s : Slot rt) : Slot rt :=
  { s with axis := { s.axis with schema := { s.axis.schema with fruitingThreshold := threshold } } }

/-- What a cycle does to a slot. -/
def turn (atCycle : UInt64) (s : Slot rt) : Slot rt :=
  if s.update.axis.isAtFruitingThreshold then s.update.reset atCycle else s.update

variable {s : Slot rt} {delta x : rt.F} {c : UInt64}

@[simp] theorem name_perturb : (s.perturb delta).name = s.name := rfl

@[simp] theorem name_update : s.update.name = s.name := by
  unfold update
  cases s.rule <;> rfl

@[simp] theorem name_reset : (s.reset c).name = s.name := rfl

@[simp] theorem name_setThreshold : (s.setThreshold x).name = s.name := rfl

@[simp] theorem name_turn : (s.turn c).name = s.name := by
  unfold turn
  split
  · rw [name_reset, name_update]
  · exact name_update

end Slot

/-! ### Configurations -/

inductive GradientError where
  /-- `axis already registered: {name}` -/
  | axisAlreadyRegistered (name : String)
  /-- `axis not registered: {name}`, or `cannot reset unknown axis: {name}` -/
  | axisNotFound (name : String)

structure GradientConfiguration (rt : Runtime) where
  slots : List (Slot rt)
  nodup : (slots.map Slot.name).Nodup

namespace GradientConfiguration

variable {g g' : GradientConfiguration rt} {n : String} {c : UInt64}

theorem ext (h : g.slots = g'.slots) : g = g' := by
  cases g
  cases h
  rfl

def empty : GradientConfiguration rt := ⟨[], List.nodup_nil⟩

def names (g : GradientConfiguration rt) : List String := g.slots.map Slot.name

/-- Changes every slot, and no name. -/
def mapSlots (g : GradientConfiguration rt) (f : Slot rt → Slot rt)
    (hf : ∀ s, (f s).name = s.name) : GradientConfiguration rt where
  slots := g.slots.map f
  nodup := by
    rw [List.map_map]
    exact (List.map_congr_left fun s _ => hf s) ▸ g.nodup

@[simp] theorem names_mapSlots {f : Slot rt → Slot rt} {hf : ∀ s, (f s).name = s.name} :
    (g.mapSlots f hf).names = g.names := by
  rw [names, mapSlots, List.map_map]
  exact List.map_congr_left fun s _ => hf s

/-- Changes the slot of a name. -/
def modifyAxis (g : GradientConfiguration rt) (name : String) (f : Slot rt → Slot rt)
    (hf : ∀ s, (f s).name = s.name) : GradientConfiguration rt :=
  g.mapSlots (fun s => if s.name = name then f s else s) fun s => by
    split
    · exact hf s
    · rfl

def registerAxis (g : GradientConfiguration rt) (schema : AxisSchema rt) (rule : UpdateRule) :
    Except GradientError (GradientConfiguration rt) :=
  if h : schema.name ∈ g.names then .error (.axisAlreadyRegistered schema.name)
  else .ok ⟨g.slots ++ [⟨.fromSchema schema, rule⟩], by
    rw [List.map_append]
    refine List.nodup_append.2 ⟨g.nodup, List.nodup_singleton _, fun a ha b hb hab => h ?_⟩
    have hb : b = schema.name := List.mem_singleton.1 hb
    exact hb ▸ hab ▸ ha⟩

def perturbAxis (g : GradientConfiguration rt) (name : String) (delta : rt.F) :
    Except GradientError (GradientConfiguration rt) :=
  if name ∈ g.names then .ok (g.modifyAxis name (Slot.perturb delta) fun _ => Slot.name_perturb)
  else .error (.axisNotFound name)

/-- The axes that are ready to fruit, and the configuration with the update rules applied. -/
def advance (g : GradientConfiguration rt) : List String × GradientConfiguration rt :=
  let g := g.mapSlots Slot.update fun _ => Slot.name_update
  ((g.slots.filter (·.axis.isAtFruitingThreshold)).map Slot.name, g)

def resetAfterFruiting (g : GradientConfiguration rt) (axisNames : List String) (atCycle : UInt64) :
    Except GradientError (GradientConfiguration rt) :=
  match axisNames.find? (· ∉ g.names) with
  | some name => .error (.axisNotFound name)
  | none => .ok (g.mapSlots (fun s => if s.name ∈ axisNames then s.reset atCycle else s) fun s => by
      split <;> rfl)

/-- A whole cycle. -/
def turn (g : GradientConfiguration rt) (atCycle : UInt64) : GradientConfiguration rt :=
  g.mapSlots (Slot.turn atCycle) fun _ => Slot.name_turn

/-! ### What the operations do -/

theorem registerAxis_eq_ok {schema : AxisSchema rt} {rule : UpdateRule} :
    g.registerAxis schema rule = .ok g' ↔
      schema.name ∉ g.names ∧ g'.slots = g.slots ++ [⟨.fromSchema schema, rule⟩] := by
  unfold registerAxis
  split
  · rename_i h
    exact ⟨nofun, fun h' => absurd h h'.1⟩
  · rename_i h
    constructor
    · intro he
      cases he
      exact ⟨h, rfl⟩
    · intro he
      exact congrArg Except.ok (ext he.2.symm)

theorem perturbAxis_eq_ok {delta : rt.F} : g.perturbAxis n delta = .ok g' ↔
    n ∈ g.names ∧ g' = g.modifyAxis n (Slot.perturb delta) fun _ => Slot.name_perturb := by
  unfold perturbAxis
  split
  · rename_i h
    simp [h, eq_comm]
  · rename_i h
    simp [h]

@[simp] theorem names_advance : g.advance.2.names = g.names :=
  @names_mapSlots _ g Slot.update fun _ => Slot.name_update

theorem ready_subset : g.advance.1 ⊆ g.advance.2.names := fun _ hm =>
  List.map_subset _ (List.filter_subset_self _) hm

/-- An axis is ready just if its slot has come to the threshold. -/
theorem mem_ready {s : Slot rt} (hs : s ∈ g.advance.2.slots) :
    s.name ∈ g.advance.1 ↔ s.axis.isAtFruitingThreshold := by
  constructor
  · intro h
    obtain ⟨t, ht, he⟩ := List.mem_map.1 h
    obtain ⟨hm, hat⟩ := List.mem_filter.1 ht
    rw [← List.inj_on_of_nodup_map g.advance.2.nodup hm hs he]
    exact hat
  · exact fun h => List.mem_map_of_mem (List.mem_filter.2 ⟨hs, h⟩)

/-- The reset after an advance does not fail, and together they turn every slot. -/
theorem resetAfterFruiting_advance :
    g.advance.2.resetAfterFruiting g.advance.1 c = .ok (g.turn c) := by
  have hnone : g.advance.1.find? (· ∉ g.advance.2.names) = none :=
    List.find?_eq_none.2 fun n hn => by simpa using ready_subset hn
  rw [resetAfterFruiting, hnone]
  refine congrArg Except.ok (ext ?_)
  show (g.advance.2.slots.map fun s => if s.name ∈ g.advance.1 then s.reset c else s) =
    g.slots.map (Slot.turn c)
  rw [List.map_congr_left (g := fun s => if s.axis.isAtFruitingThreshold then s.reset c else s)
    fun s hs => if_congr (mem_ready hs) rfl rfl]
  exact List.map_map

@[simp] theorem names_turn : (g.turn c).names = g.names :=
  @names_mapSlots _ g (Slot.turn c) fun _ => Slot.name_turn

end GradientConfiguration

/-! ### Views -/

/-- An axis, its parameters and its value. -/
structure AxisView (rt : Runtime) where
  schema : AxisSchema rt
  value : rt.F
  rule : UpdateRule

namespace AxisView

def perturb (delta : rt.F) (v : AxisView rt) : AxisView rt :=
  { v with value := rt.add v.value delta }

def setThreshold (threshold : rt.F) (v : AxisView rt) : AxisView rt :=
  { v with schema := { v.schema with fruitingThreshold := threshold } }

def update (v : AxisView rt) : AxisView rt :=
  match v.rule with
  | .decay => { v with value := rt.mul v.value v.schema.decayRatePerCycle }
  | .noop => v

def isReady (v : AxisView rt) : Bool :=
  match v.schema.axisClass with
  | .appetite => rt.le v.schema.fruitingThreshold v.value
  | .decay => rt.le v.value v.schema.fruitingThreshold

def reset (v : AxisView rt) : AxisView rt :=
  match v.schema.axisClass with
  | .appetite => { v with value := v.schema.initialValue }
  | .decay => v

def turn (v : AxisView rt) : AxisView rt := if v.update.isReady then v.update.reset else v.update

end AxisView

abbrev View (rt : Runtime) := List (AxisView rt)

namespace View

def names (v : View rt) : List String := v.map fun a => a.schema.name

/-- The axis of a name changed. -/
def modify (v : View rt) (n : String) (f : AxisView rt → AxisView rt) : View rt :=
  v.map fun a => if a.schema.name = n then f a else a

def register (v : View rt) (schema : AxisSchema rt) (rule : UpdateRule) : View rt :=
  v ++ [⟨schema, schema.initialValue, rule⟩]

def perturb (v : View rt) (n : String) (delta : rt.F) : View rt := v.modify n (.perturb delta)

def turn (v : View rt) : View rt := v.map .turn

end View

def Slot.view (s : Slot rt) : AxisView rt := ⟨s.axis.schema, s.axis.value, s.rule⟩

theorem Slot.view_update (s : Slot rt) : s.update.view = s.view.update := by
  obtain ⟨axis, rule⟩ := s
  cases rule <;> rfl

theorem Slot.view_reset (s : Slot rt) (c : UInt64) : (s.reset c).view = s.view.reset := by
  obtain ⟨⟨⟨name, axisClass, threshold, initial, rate, mortal⟩, value, count, last⟩, rule⟩ := s
  cases axisClass <;> rfl

theorem Slot.view_turn (s : Slot rt) (c : UInt64) : (s.turn c).view = s.view.turn := by
  have hready : s.update.axis.isAtFruitingThreshold = s.view.update.isReady :=
    congrArg AxisView.isReady s.view_update
  unfold Slot.turn AxisView.turn
  rw [hready]
  split
  · rw [Slot.view_reset, Slot.view_update]
  · exact s.view_update

namespace GradientConfiguration

variable {g g' : GradientConfiguration rt} {n : String} {c : UInt64}

def view (g : GradientConfiguration rt) : View rt := g.slots.map Slot.view

theorem names_view : g.view.names = g.names := List.map_map

theorem view_registerAxis {schema : AxisSchema rt} {rule : UpdateRule}
    (h : g.registerAxis schema rule = .ok g') : g'.view = g.view.register schema rule := by
  rw [view, (registerAxis_eq_ok.1 h).2, List.map_append]
  rfl

theorem view_modifyAxis {f : Slot rt → Slot rt} {hf : ∀ s, (f s).name = s.name}
    {k : AxisView rt → AxisView rt} (h : ∀ s, (f s).view = k s.view) :
    (g.modifyAxis n f hf).view = g.view.modify n k := by
  rw [view, view, View.modify, modifyAxis, mapSlots, List.map_map, List.map_map]
  refine List.map_congr_left fun s _ => ?_
  by_cases hn : s.name = n
  · rw [Function.comp_apply, if_pos hn, h]
    exact (if_pos hn).symm
  · rw [Function.comp_apply, if_neg hn]
    exact (if_neg hn).symm

theorem view_perturbAxis {delta : rt.F} (h : g.perturbAxis n delta = .ok g') :
    g'.view = g.view.perturb n delta := by
  rw [(perturbAxis_eq_ok.1 h).2]
  exact view_modifyAxis fun _ => rfl

theorem view_turn : (g.turn c).view = g.view.turn := by
  rw [view, view, View.turn, turn, mapSlots, List.map_map, List.map_map]
  exact List.map_congr_left fun s _ => s.view_turn c

end GradientConfiguration

/-! ### Whole numbers -/

/-- The digits of a number after a zero. -/
def wholeChars (n : Nat) : List Char :=
  '0' :: (Nat.digits 10 n).reverse.map fun d => Char.ofNat (48 + d)

theorem isDigit_wholeChars {n : Nat} : ∀ c ∈ wholeChars n, c.isDigit = true := by
  refine List.forall_mem_cons.2 ⟨by decide, fun c hc => ?_⟩
  obtain ⟨d, hd, rfl⟩ := List.mem_map.1 hc
  have hlt : d < 10 := Nat.digits_lt_base (by omega) (List.mem_reverse.1 hd)
  interval_cases d <;> decide

theorem digitsValue_wholeChars {n : Nat} : digitsValue (wholeChars n) = n := by
  have hchar : ∀ d < 10, (Char.ofNat (48 + d)).toNat - 48 = d := by decide
  have hfold : ∀ ds : List Nat, (∀ d ∈ ds, d < 10) →
      digitsValue (ds.reverse.map fun d => Char.ofNat (48 + d)) = Nat.ofDigits 10 ds := by
    intro ds hds
    induction ds with
    | nil => rfl
    | cons d ds ih =>
      rw [List.forall_mem_cons] at hds
      rw [List.reverse_cons, List.map_append, digitsValue, List.foldl_append, ← digitsValue,
        ih hds.2, Nat.ofDigits_cons]
      simp only [List.map_cons, List.map_nil, List.foldl_cons, List.foldl_nil, hchar d hds.1]
      omega
  have hzero : digitsValue (wholeChars n) =
      digitsValue ((Nat.digits 10 n).reverse.map fun d => Char.ofNat (48 + d)) := rfl
  rw [hzero, hfold _ fun d hd => Nat.digits_lt_base (by omega) hd, Nat.ofDigits_digits]

def wholeText (x : Int) : String :=
  String.ofList ((if x < 0 then ['-'] else []) ++ wholeChars x.natAbs)

/-- Towards zero. -/
def wholeNearest : Literal → Int
  | .decimal negative digits exponent =>
    let size : Nat := if 0 ≤ exponent then digits * 10 ^ exponent.toNat
      else digits / 10 ^ (-exponent).toNat
    if negative then -size else size
  | .infinity _ | .nan _ => 0

theorem literal_wholeChars {n : Nat} {negative : Bool} :
    literal? ((if negative then ['-'] else []) ++ wholeChars n) = some (.decimal negative n 0) := by
  have hsign : signOf ((if negative then ['-'] else []) ++ wholeChars n) =
      (negative, wholeChars n) := by cases negative <;> rfl
  have hall : (wholeChars n).takeWhile Char.isDigit = wholeChars n :=
    List.takeWhile_eq_self_iff.2 isDigit_wholeChars
  have hnone : (wholeChars n).dropWhile Char.isDigit = [] :=
    List.dropWhile_eq_nil_iff.2 isDigit_wholeChars
  have hword : ∀ w ∈ "nan".toList :: infinityWords, (wholeChars n).map Char.toLower ≠ w := by
    intro w hw he
    have hhead : w.head? = some '0' := by
      rw [← he]
      rfl
    have hall : ∀ w ∈ "nan".toList :: infinityWords, w.head? ≠ some '0' := by decide
    exact hall w hw hhead
  rw [List.forall_mem_cons] at hword
  simp only [literal?, hsign]
  rw [if_neg fun hm => hword.2 _ hm rfl, if_neg hword.1]
  simp only [number?, hall, hnone, fractionOf, List.append_nil, digitsValue_wholeChars]
  rw [if_neg (by simp [wholeChars])]
  rfl

/-- A runtime whose floats are whole numbers. -/
def wholeNumbers : Runtime where
  F := Int
  add x y := x + y
  mul x y := x * y
  le x y := decide (x ≤ y)
  isFinite _ := true
  isNegative x := decide (x < 0)
  nearest := wholeNearest
  floatRepr := wholeText
  repr := wholeText
  strRepr s := "'" ++ s ++ "'"
  paramsRepr _ := "{}"
  decodeErrorText _ := "decode error"
  chars := ⟨fun _ => false, fun _ => none⟩
  read_floatRepr x := by
    rw [wholeText, f64FromStr, String.toList_ofList]
    have h := @literal_wholeChars x.natAbs (decide (x < 0))
    simp only [decide_eq_true_eq] at h
    rw [h]
    simp only [Option.map_some, wholeNearest, le_refl, if_true, Option.some.injEq]
    simp only [Int.toNat_zero, pow_zero, Nat.mul_one, decide_eq_true_eq]
    split
    · omega
    · omega

end Myco.Tropism
