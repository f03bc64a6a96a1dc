import Myco.Canonical.RendererFields
import Myco.Operator.Wire

/-!
# Messages between the operator and the substrate

A frame that the substrate makes of a message is read by the operator (`decodeFrameBody_crossing`),
and the operator makes of a message the frame that the substrate would make of it
(`encodeFrameBody_crossing`), so the substrate reads it.
-/

namespace Myco.Operator

open Myco.Lib Myco.Canonical
open Myco.Bridge (Hmac bodyEntries bodyEntries_keys toBodyCanonicalBytes)
open Myco.Substrate (encode_eq_contentOf)

variable {hmac : Hmac} {key : Hash32} {messageType : String} {requestId : UInt64}
  {es : List (String × Value)}

/-- A message of the substrate with the fields `es`. -/
abbrev messageOf (messageType : String) (requestId : UInt64) (es : List (String × Value)) :
    Substrate.Message := ⟨messageType, requestId, OrdMap.ofList utf8 es⟩

theorem named_bodyEntries {m : Substrate.Message} : Named (bodyEntries m) := by
  have hnames : ∀ k ∈ ["v", "type", "request_id", "payload"], ¬ startsWith byteOrderMark k := by
    decide
  exact ⟨bodyEntries_keys, fun e he => hnames e.1 (List.mem_map_of_mem (f := Prod.fst) he)⟩

theorem wf_bodyEntries (hwf : ∀ e ∈ es, e.2.WF) :
    (mapOf (bodyEntries (messageOf messageType requestId es))).WF :=
  mapOf_wf fun e he => by
    simp only [bodyEntries, List.mem_cons, List.not_mem_nil, or_false] at he
    rcases he with rfl | rfl | rfl | rfl
    · trivial
    · trivial
    · trivial
    · exact mapOf_wf hwf

theorem body_le {m : Substrate.Message}
    (h : (Bridge.encodeFrameBody hmac key m).length ≤ Bridge.maxFrameBodySize) :
    (toBodyCanonicalBytes m).length ≤ isizeMax := by
  rw [Bridge.encodeFrameBody, List.length_append] at h
  simp only [Bridge.maxFrameBodySize, isizeMax] at h ⊢
  omega

/-- A frame of the substrate in TypeScript: the message, with the fields in some order. -/
theorem decodeFrameBody_crossing (htype : ¬ startsWith byteOrderMark messageType)
    (hes : Named es) (hwf : ∀ e ∈ es, e.2.WF)
    (hsize : (Bridge.encodeFrameBody hmac key (messageOf messageType requestId es)).length ≤
      Bridge.maxFrameBodySize) :
    ∃ fs, fs.Perm (tsFields es) ∧
      decodeFrameBody hmac key
        (Bridge.encodeFrameBody hmac key (messageOf messageType requestId es)) =
      .ok { messageType := Ts.units messageType, requestId := requestId.toNat, payload := fs } := by
  generalize hm : messageOf messageType requestId es = m at hsize ⊢
  have hmac32 : (hmac key (toBodyCanonicalBytes m)).bytes.length = hmacSize := Hash32.length_eq _
  have hwire : (mapOf (bodyEntries m)).WF := hm ▸ wf_bodyEntries hwf
  have hdecode : Ts.decode (toBodyCanonicalBytes m) = .ok (tsOf (mapOf (bodyEntries m))) :=
    decode_wire_ts hwire encode_eq_contentOf (body_le hsize)
  obtain ⟨map, hmap, hperm⟩ := tsOf_mapOf (named_bodyEntries (m := m))
  obtain ⟨fs, hfs, hfsperm⟩ := tsOf_mapOf hes
  have hget : ∀ {k : String} {v : Value}, (k, v) ∈ bodyEntries m →
      Ts.mapGet map k = some (tsOf v) := mapGet_field named_bodyEntries hperm
  have hv : Ts.mapGet map "v" = some (.uint protocolVersion) :=
    hget (v := .uint Bridge.protocolVersion) (by simp [bodyEntries])
  have ht : Ts.mapGet map "type" = some (.string (Ts.units messageType)) := by
    rw [hget (v := .string m.messageType) (by simp [bodyEntries]), tsOf_string, ← hm,
      unmarkText_of_not htype]
  have hr : Ts.mapGet map "request_id" = some (.uint requestId.toNat) := by
    rw [hget (v := .uint m.requestId) (by simp [bodyEntries]), ← hm]
    rfl
  have hp : Ts.mapGet map "payload" = some (.map fs) := by
    rw [hget (v := .map m.payload) (by simp [bodyEntries]), ← hm]
    exact congrArg some hfs
  refine ⟨fs, hfsperm, ?_⟩
  rw [decodeFrameBody, Bridge.encodeFrameBody, if_neg (by rw [List.length_append]; omega),
    List.drop_left' hmac32, List.take_left' hmac32, if_neg (not_not.2 rfl), canonicalBytesToBody,
    hdecode, hmap]
  show bodyOfMap map = _
  rw [bodyOfMap, hv]
  simp only [ne_eq, not_true_eq_false, if_false, ht, hr, hp]
  rfl

/-- A frame of the operator is the frame that the substrate would make. -/
theorem encodeFrameBody_crossing {js : List (Ts.Str × Ts.Value)} (hes : (es.map Prod.fst).Nodup)
    (hwf : ∀ e ∈ es, e.2.WF)
    (hsize : (Bridge.encodeFrameBody hmac key (messageOf messageType requestId es)).length ≤
      Bridge.maxFrameBodySize)
    (hjs : List.Forall₂ (fun e j => j.1 = Ts.units e.1 ∧ Alike e.2 j.2) es js) :
    encodeFrameBody hmac key
        { messageType := Ts.units messageType, requestId := requestId.toNat, payload := js } =
      .ok (Bridge.encodeFrameBody hmac key (messageOf messageType requestId es)) := by
  generalize hm : messageOf messageType requestId es = m at hsize ⊢
  have halike : Alike (mapOf (bodyEntries m)) (.map [(Ts.units "v", .uint 1),
      (Ts.units "type", .string (Ts.units messageType)),
      (Ts.units "request_id", .uint requestId.toNat), (Ts.units "payload", .map js)]) := by
    refine alike_mapOf bodyEntries_keys ?_
    rw [← hm]
    exact .cons ⟨rfl, alike_uint⟩ (.cons ⟨rfl, alike_string⟩ (.cons ⟨rfl, alike_uint⟩
      (.cons ⟨rfl, alike_mapOf hes hjs⟩ .nil)))
  have hwire : (mapOf (bodyEntries m)).WF := hm ▸ wf_bodyEntries hwf
  have hbody : bodyToCanonicalBytes
      { messageType := Ts.units messageType, requestId := requestId.toNat, payload := js } =
      .ok (mapOf (bodyEntries m)).wire := halike.encode hwire
  have hrust : encode (mapOf (bodyEntries m)) = .ok (toBodyCanonicalBytes m) := encode_eq_contentOf
  have hfits := fits_of_decode (decode_of_encode hwire hrust (body_le hsize))
  have hsame : (mapOf (bodyEntries m)).wire = toBodyCanonicalBytes m :=
    Except.ok.inj ((encode_eq hfits).symm.trans hrust)
  rw [encodeFrameBody, hbody, Bridge.encodeFrameBody, ← hsame]
  rfl

end Myco.Operator
