import Myco.Canonical.Decode

/-!
# Reading a decoded map

The `map_get_*` helpers of `kernel/shared/src/canonical_bytes.rs`: one definition, `mapGet`, that
each helper applies to its own kind of value. `mapOf` is the map that a sequence of
`BTreeMap::insert` calls builds, which is how the encoders of the repository make theirs.
-/

namespace Myco.Canonical

open Myco.Lib

/-! ### The code -/

/-- The error of a helper, and what it takes from a value of its kind. -/
def mapGet {α : Type} (kind : Tag) (take : Value → Option α) (map : List (String × Value))
    (key : String) : Except CanonicalBytesError α :=
  match OrdMap.get key map with
  | none => .error (.invalidInput (.mapGetMissing kind key))
  | some other =>
    match take other with
    | none => .error (.invalidInput (.mapGetKind kind key other))
    | some a => .ok a

def Value.string? : Value → Option String
  | .string s => some s
  | _ => none

def Value.uint? : Value → Option UInt64
  | .uint n => some n
  | _ => none

def Value.bytes? : Value → Option Bytes
  | .bytes b => some b
  | _ => none

def Value.map? : Value → Option (List (String × Value))
  | .map m => some m
  | _ => none

def Value.array? : Value → Option (List Value)
  | .array a => some a
  | _ => none

def Value.bool? : Value → Option Bool
  | .bool b => some b
  | _ => none

def mapGetString := mapGet .string Value.string?

def mapGetUint := mapGet .uint Value.uint?

def mapGetBytes := mapGet .bytes Value.bytes?

def mapGetMap := mapGet .map Value.map?

def mapGetArray := mapGet .array Value.array?

def mapGetBool := mapGet .bool Value.bool?

/-- `BTreeMap::new()` and an `insert` for each entry. -/
def mapOf (es : List (String × Value)) : Value := .map (OrdMap.ofList utf8 es)

/-! ### What they find -/

theorem mapGet_eq_ok {α : Type} {kind : Tag} {take : Value → Option α}
    {map : List (String × Value)} {key : String} {a : α} :
    mapGet kind take map key = .ok a ↔ ∃ v, OrdMap.get key map = some v ∧ take v = some a := by
  unfold mapGet
  cases OrdMap.get key map with
  | none => simp
  | some v => cases h : take v <;> simp [h]

theorem Value.string?_eq {v : Value} {s : String} : v.string? = some s ↔ v = .string s := by
  cases v <;> simp [Value.string?]

theorem Value.uint?_eq {v : Value} {n : UInt64} : v.uint? = some n ↔ v = .uint n := by
  cases v <;> simp [Value.uint?]

theorem Value.map?_eq {v : Value} {m : List (String × Value)} : v.map? = some m ↔ v = .map m := by
  cases v <;> simp [Value.map?]

theorem mapOf_wf {es : List (String × Value)} (h : ∀ e ∈ es, e.2.WF) : (mapOf es).WF := by
  rw [mapOf, Value.WF, wfEntries_iff]
  exact ⟨OrdMap.ofList_sorted, fun e he => h e (OrdMap.mem_of_mem_ofList he)⟩

/-- A key is answered with the last value that was inserted for it. -/
theorem get_mapOf {es : List (String × Value)} {key : String} :
    OrdMap.get key (OrdMap.ofList utf8 es) = OrdMap.get key es.reverse :=
  OrdMap.get_ofList utf8_injective

end Myco.Canonical
