import Myco.Canonical.Size
import Myco.Reproduction.Cosign

/-!
# Spore-schemas

`SporeSchema` of `kernel/schema/src/spore.rs`: seven fields of any value, their canonical bytes and
the hash of these, which a spawn co-signs. A parent checks the bytes that it is handed
(`validate_canonical_bytes_shape`), whoever builds a schema checks the fields (`validate_shape`);
`spore_paths_agree` says that the two never differ, down to the field that they name, and that the
hash stands for the schema.
-/

namespace Myco.Reproduction

open Myco.Lib Myco.Canonical Myco.Schema Myco.Substrate

structure SporeSchema where
  schemaDefinitions : Value
  canonicalBytesSerializerSpec : Value
  sporocarpTypeTree : Value
  classifierDimensionTable : Value
  initialAppetiteAxisSchema : Value
  anchorSurfaceConfig : Value
  parentImmuneSignalSummary : Value

namespace SporeSchema

def fields (s : SporeSchema) : List (String × Value) :=
  [("schema_definitions", s.schemaDefinitions),
    ("canonical_bytes_serializer_spec", s.canonicalBytesSerializerSpec),
    ("sporocarp_type_tree", s.sporocarpTypeTree),
    ("classifier_dimension_table", s.classifierDimensionTable),
    ("initial_appetite_axis_schema", s.initialAppetiteAxisSchema),
    ("anchor_surface_config", s.anchorSurfaceConfig),
    ("parent_immune_signal_summary", s.parentImmuneSignalSummary)]

/-- The maps in the fields are maps. -/
def WF (s : SporeSchema) : Prop := ∀ e ∈ s.fields, e.2.WF

/-- `if matches!(value, Value::Null) { return Err(..) }` -/
def requireField (value : Value) (field : String) : Except SporeError Unit :=
  match value with
  | .null => .error (.missingRequiredField field)
  | _ => .ok ()

def validateShape (s : SporeSchema) : Except SporeError Unit := do
  requireField s.schemaDefinitions "schema_definitions"
  requireField s.canonicalBytesSerializerSpec "canonical_bytes_serializer_spec"
  requireField s.sporocarpTypeTree "sporocarp_type_tree"
  requireField s.classifierDimensionTable "classifier_dimension_table"
  requireField s.initialAppetiteAxisSchema "initial_appetite_axis_schema"
  requireField s.anchorSurfaceConfig "anchor_surface_config"
  requireField s.parentImmuneSignalSummary "parent_immune_signal_summary"

def toCanonicalBytes (s : SporeSchema) : Except SporeError Bytes :=
  (encode (mapOf s.fields)).mapError .canonicalBytes

def hash (blake3 : Bytes → NodeHash) (s : SporeSchema) : Except SporeError NodeHash :=
  s.toCanonicalBytes.map (merkleHash blake3 [])

/-! ### The fields -/

theorem fields_keys (s : SporeSchema) : s.fields.map Prod.fst = requiredSporeFields := rfl

theorem fields_nodup (s : SporeSchema) : (s.fields.map Prod.fst).Nodup := by
  rw [fields_keys]
  decide

theorem get_fields {s : SporeSchema} {e : String × Value} (he : e ∈ s.fields) :
    OrdMap.get e.1 (OrdMap.ofList utf8 s.fields) = some e.2 := by
  rw [get_mapOf]
  refine OrdMap.get_of_mem_of_nodup ?_ (List.mem_reverse.2 he)
  rw [List.map_reverse, List.nodup_reverse]
  exact s.fields_nodup

theorem map_get_fields (s : SporeSchema) :
    requiredSporeFields.map (fun k => OrdMap.get k (OrdMap.ofList utf8 s.fields)) =
      s.fields.map fun e => some e.2 := by
  rw [← s.fields_keys, List.map_map]
  exact List.map_congr_left fun e he => get_fields he

theorem mapOf_fields_inj {s s' : SporeSchema} (h : mapOf s.fields = mapOf s'.fields) : s = s' := by
  have hvalues : s.fields.map (fun e => some e.2) = s'.fields.map (fun e => some e.2) := by
    rw [← map_get_fields, ← map_get_fields, Value.map.inj h]
  simp only [fields, List.map_cons, List.map_nil, List.cons.injEq, Option.some.injEq,
    and_true] at hvalues
  cases s
  cases s'
  simpa only [SporeSchema.mk.injEq] using hvalues

theorem mapOf_fields_wf {s : SporeSchema} (h : s.WF) : (mapOf s.fields).WF := mapOf_wf h

private theorem find?_congr_mem {α : Type*} {p q : α → Bool} {xs : List α}
    (h : ∀ x ∈ xs, p x = q x) : xs.find? p = xs.find? q := by
  induction xs with
  | nil => rfl
  | cons x xs ih =>
    rw [List.find?_cons, List.find?_cons, h x List.mem_cons_self,
      ih fun y hy => h y (List.mem_cons_of_mem x hy)]

/-- A sequence of checks names the first field that is `Null`. -/
theorem forM_requireField (es : List (String × Value)) :
    (forM es fun e => requireField e.2 e.1) =
      match es.find? fun e => e.2 matches .null with
      | some e => .error (.missingRequiredField e.1)
      | none => .ok () := by
  induction es with
  | nil => rfl
  | cons e es ih =>
    obtain ⟨k, v⟩ := e
    cases v with
    | null => rfl
    | _ => exact ih

theorem validateShape_eq (s : SporeSchema) :
    s.validateShape = forM s.fields fun e => requireField e.2 e.1 := by
  unfold validateShape fields
  simp only [List.forM_cons, List.forM_nil, bind_pure_unit]

theorem lacks_eq {s : SporeSchema} {e : String × Value} (he : e ∈ s.fields) :
    lacks (OrdMap.ofList utf8 s.fields) e.1 = (e.2 matches .null) := by
  rw [lacks, get_fields he]
  cases e.2 <;> rfl

end SporeSchema

/-! ### The two paths -/

open SporeSchema in
theorem validate_encoded {s : SporeSchema} {b : Bytes} (hwf : s.WF)
    (h : s.toCanonicalBytes = .ok b) (hmem : b.length ≤ isizeMax) :
    validateCanonicalBytesShape b = s.validateShape.mapError .err := by
  have hb : encode (mapOf s.fields) = .ok b := mapError_eq_ok.1 h
  have hd := decode_of_encode (mapOf_fields_wf hwf) hb hmem
  have hfind : requiredSporeFields.find? (lacks (OrdMap.ofList utf8 s.fields)) =
      (s.fields.find? fun e => e.2 matches .null).map Prod.fst := by
    rw [← s.fields_keys, List.find?_map]
    refine congrArg (Option.map Prod.fst) (find?_congr_mem fun e he => ?_)
    exact lacks_eq he
  rw [validateShape_eq, forM_requireField, validateCanonicalBytesShape, hd]
  simp only [mapOf, hfind]
  cases s.fields.find? fun e => e.2 matches .null <;> rfl

/-- Schemas that have one hash are one, unless the hashes of their bytes have collided. -/
theorem spore_of_hash_eq {blake3 : Bytes → NodeHash} {s s' : SporeSchema} {b b' : Bytes}
    (hwf : s.WF) (hwf' : s'.WF) (h : s.toCanonicalBytes = .ok b) (h' : s'.toCanonicalBytes = .ok b')
    (hmem : b.length ≤ isizeMax) (hmem' : b'.length ≤ isizeMax)
    (hhash : s.hash blake3 = s'.hash blake3) :
    s = s' ∨ b ≠ b' ∧ merkleHash blake3 [] b = merkleHash blake3 [] b' := by
  rw [SporeSchema.hash, SporeSchema.hash, h, h'] at hhash
  by_cases hb : b = b'
  · subst hb
    have hd := decode_of_encode (SporeSchema.mapOf_fields_wf hwf) (mapError_eq_ok.1 h) hmem
    have hd' := decode_of_encode (SporeSchema.mapOf_fields_wf hwf') (mapError_eq_ok.1 h') hmem
    exact .inl (SporeSchema.mapOf_fields_inj (Except.ok.inj (hd.symm.trans hd')))
  · exact .inr ⟨hb, Except.ok.inj hhash⟩

/-- For every schema whose bytes fit in memory: the check of its bytes answers as the check of its
fields does, with the same field named first when one is missing; and no other schema has its hash,
unless the hashes of the two encodings have collided. -/
theorem spore_paths_agree {blake3 : Bytes → NodeHash} {s : SporeSchema} {b : Bytes} (hwf : s.WF)
    (h : s.toCanonicalBytes = .ok b) (hmem : b.length ≤ isizeMax) :
    validateCanonicalBytesShape b = s.validateShape.mapError .err ∧
    (validateCanonicalBytesShape b = .ok () ↔ ∀ e ∈ s.fields, e.2 ≠ .null) ∧
    ∀ s' : SporeSchema, ∀ b', s'.WF → s'.toCanonicalBytes = .ok b' → b'.length ≤ isizeMax →
      s.hash blake3 = s'.hash blake3 →
      s = s' ∨ b ≠ b' ∧ merkleHash blake3 [] b = merkleHash blake3 [] b' := by
  refine ⟨validate_encoded hwf h hmem, ?_, fun s' b' hwf' h' hmem' => ?_⟩
  · rw [validate_encoded hwf h hmem, mapError_eq_ok, SporeSchema.validateShape_eq,
      SporeSchema.forM_requireField]
    split
    · rename_i e hf
      have hnull := List.find?_some hf
      constructor
      · intro h
        cases h
      · intro hall
        have hne := hall e (List.mem_of_find?_eq_some hf)
        cases he : e.2 with
        | null => exact absurd he hne
        | _ => rw [he] at hnull; cases hnull
    · rename_i hf
      refine ⟨fun _ e he hnull => ?_, fun _ => rfl⟩
      have := List.find?_eq_none.1 hf e he
      rw [hnull] at this
      exact this rfl
  · exact spore_of_hash_eq hwf hwf' h h' hmem hmem'

/-- A schema that has every field but one, which is there and `Null`. -/
def unsummarised : SporeSchema :=
  ⟨.string "seven fields", .uint 1, .array [.string "event"], .uint 4, .uint 5, .uint 6, .null⟩

set_option maxRecDepth 4000 in
theorem spore_paths_agree_unsummarised :
    validateCanonicalBytesShape (cbEncode unsummarised.fields) =
      unsummarised.validateShape.mapError .err := by
  have hwf : unsummarised.WF := by
    simp [SporeSchema.WF, SporeSchema.fields, unsummarised, Value.WF, WFItems]
  exact (@spore_paths_agree foldHash _ _ hwf rfl ((show _ ≤ 1000 by decide).trans (by decide))).1

end Myco.Reproduction
