import Mathlib.Data.List.Nodup
import Myco.Canonical.Value

/-!
# The skin surface and what leaves through it

`SkinSurface` of `kernel/skin/src/surface.rs` with `from_endpoints` as its only constructor besides
`new`, so that a surface carries what the constructor checked; `route_output` of `output_gate.rs`,
which lets an output through the endpoint it is declared for; and the stub of `egress_enforce.rs`,
the second check that a connection passes on its way out.

The gate asks for a uri and a kind, the enforcer for a uri alone. `egress_iff_routable`: on every
surface they let the same uris out, and the gate each of them as one kind.
-/

namespace Myco.Skin

open Myco.Lib

/-! ### Endpoints -/

inductive EndpointKind where
  | intake
  | federationOut
  | anchorSurfaceOut
  | summaryExportOut
deriving DecidableEq

/-- `{:?}` -/
def EndpointKind.debug : EndpointKind → String
  | .intake => "Intake"
  | .federationOut => "FederationOut"
  | .anchorSurfaceOut => "AnchorSurfaceOut"
  | .summaryExportOut => "SummaryExportOut"

structure Endpoint where
  uri : String
  kind : EndpointKind
deriving DecidableEq

inductive SurfaceError where
  /-- `invalid endpoint: {0}` -/
  | invalidEndpoint (what : String)
  /-- `duplicate endpoint URI: {0}` -/
  | duplicateEndpoint (uri : String)
deriving DecidableEq

/-! ### Surfaces -/

structure SkinSurface where
  intake : List Endpoint
  output : List Endpoint
  uris_nodup : ((intake ++ output).map Endpoint.uri).Nodup
  uris_ne : ∀ e ∈ intake ++ output, e.uri ≠ ""
  intake_kind : ∀ e ∈ intake, e.kind = .intake
  output_kind : ∀ e ∈ output, e.kind ≠ .intake

def SkinSurface.new : SkinSurface where
  intake := []
  output := []
  uris_nodup := .nil
  uris_ne _ h := absurd h List.not_mem_nil
  intake_kind _ h := absurd h List.not_mem_nil
  output_kind _ h := absurd h List.not_mem_nil

/-- The first loop of `from_endpoints`, over both lists. -/
def checkUris (seen : List String) : List Endpoint → Except SurfaceError Unit
  | [] => .ok ()
  | ep :: eps =>
    if ep.uri = "" then .error (.invalidEndpoint "empty uri")
    else if ep.uri ∈ seen then .error (.duplicateEndpoint ep.uri)
    else checkUris (ep.uri :: seen) eps

def checkIntakeKinds : List Endpoint → Except SurfaceError Unit
  | [] => .ok ()
  | ep :: eps =>
    if ep.kind ≠ .intake then .error (.invalidEndpoint
      s!"intake list endpoint {ep.uri} has non-intake kind {ep.kind.debug}")
    else checkIntakeKinds eps

def checkOutputKinds : List Endpoint → Except SurfaceError Unit
  | [] => .ok ()
  | ep :: eps =>
    if ep.kind = .intake then
      .error (.invalidEndpoint s!"output list endpoint {ep.uri} has Intake kind")
    else checkOutputKinds eps

theorem checkUris_ok {seen : List String} {eps : List Endpoint} (h : checkUris seen eps = .ok ()) :
    (∀ e ∈ eps, e.uri ≠ "" ∧ e.uri ∉ seen) ∧ (eps.map Endpoint.uri).Nodup := by
  induction eps generalizing seen with
  | nil => exact ⟨fun e he => absurd he List.not_mem_nil, .nil⟩
  | cons ep eps ih =>
    rw [checkUris] at h
    split at h
    · cases h
    · rename_i hne
      split at h
      · cases h
      · rename_i hseen
        obtain ⟨hrest, hnodup⟩ := ih h
        refine ⟨?_, List.nodup_cons.2 ⟨?_, hnodup⟩⟩
        · intro e he
          rcases List.mem_cons.1 he with rfl | he
          · exact ⟨hne, hseen⟩
          · exact ⟨(hrest e he).1, fun hm => (hrest e he).2 (List.mem_cons_of_mem _ hm)⟩
        · intro hm
          obtain ⟨e, he, heq⟩ := List.mem_map.1 hm
          exact (hrest e he).2 (heq ▸ List.mem_cons_self)

theorem checkIntakeKinds_ok {eps : List Endpoint} (h : checkIntakeKinds eps = .ok ()) :
    ∀ e ∈ eps, e.kind = .intake := by
  induction eps with
  | nil => exact fun e he => absurd he List.not_mem_nil
  | cons ep eps ih =>
    rw [checkIntakeKinds] at h
    split at h
    · cases h
    · rename_i hkind
      exact List.forall_mem_cons.2 ⟨not_not.1 hkind, ih h⟩

theorem checkOutputKinds_ok {eps : List Endpoint} (h : checkOutputKinds eps = .ok ()) :
    ∀ e ∈ eps, e.kind ≠ .intake := by
  induction eps with
  | nil => exact fun e he => absurd he List.not_mem_nil
  | cons ep eps ih =>
    rw [checkOutputKinds] at h
    split at h
    · cases h
    · rename_i hkind
      exact List.forall_mem_cons.2 ⟨hkind, ih h⟩

def SkinSurface.fromEndpoints (intake output : List Endpoint) : Except SurfaceError SkinSurface :=
  match huris : checkUris [] (intake ++ output) with
  | .error e => .error e
  | .ok () =>
    match hintake : checkIntakeKinds intake with
    | .error e => .error e
    | .ok () =>
      match houtput : checkOutputKinds output with
      | .error e => .error e
      | .ok () => .ok {
          intake, output
          uris_nodup := (checkUris_ok huris).2
          uris_ne e he := ((checkUris_ok huris).1 e he).1
          intake_kind := checkIntakeKinds_ok hintake
          output_kind := checkOutputKinds_ok houtput }

namespace SkinSurface

variable (s : SkinSurface)

def isDeclaredIntake (uri : String) : Bool := s.intake.any fun e => e.uri = uri

def isDeclaredOutput (uri : String) (kind : EndpointKind) : Bool :=
  s.output.any fun e => e.uri = uri ∧ e.kind = kind

def findOutputByUri (uri : String) : Option Endpoint := s.output.find? fun e => e.uri = uri

def endpointCount : Nat := s.intake.length + s.output.length

variable {s} {uri : String} {kind : EndpointKind}

theorem isDeclaredOutput_iff : s.isDeclaredOutput uri kind = true ↔ ⟨uri, kind⟩ ∈ s.output := by
  simp only [isDeclaredOutput, List.any_eq_true, decide_eq_true_eq]
  constructor
  · rintro ⟨e, he, rfl, rfl⟩
    exact he
  · exact fun h => ⟨_, h, rfl, rfl⟩

/-- An output has the one kind that it is declared with. -/
theorem output_unique {e e' : Endpoint} (he : e ∈ s.output) (he' : e' ∈ s.output)
    (h : e.uri = e'.uri) : e = e' := by
  have hnodup : (s.output.map Endpoint.uri).Nodup := by
    have := s.uris_nodup
    rw [List.map_append] at this
    exact this.of_append_right
  exact List.inj_on_of_nodup_map hnodup he he' h

theorem findOutputByUri_eq {e : Endpoint} (he : e ∈ s.output) :
    s.findOutputByUri e.uri = some e := by
  cases hf : s.findOutputByUri e.uri with
  | none => exact absurd (decide_eq_true rfl) (List.find?_eq_none.1 hf e he)
  | some e' =>
    have huri : e'.uri = e.uri := by simpa using List.find?_some hf
    rw [output_unique (List.mem_of_find?_eq_some hf) he huri]

theorem findOutputByUri_eq_none : s.findOutputByUri uri = none ↔ ∀ e ∈ s.output, e.uri ≠ uri := by
  simp [findOutputByUri]

/-- What comes in does not go out. -/
theorem intake_not_output (h : s.isDeclaredIntake uri = true) : ∀ e ∈ s.output, e.uri ≠ uri := by
  intro e he heq
  obtain ⟨e', he', h'⟩ := List.any_eq_true.1 h
  have hd := List.nodup_append.1 (List.map_append ▸ s.uris_nodup)
  exact hd.2.2 _ (List.mem_map_of_mem he') _ (List.mem_map_of_mem he)
    ((of_decide_eq_true h').trans heq.symm)

end SkinSurface

/-! ### The output gate -/

inductive OutputError where
  | undeclaredEndpoint (uri : String)
  | kindMismatch (uri : String) (expected declared : EndpointKind)
  | federationEgressBlocked (uri : String)
  | nonCanonicalAnchorOutput
deriving DecidableEq

structure OutputEnvelope where
  target : Endpoint
  payload : Bytes
  substrateSignature : Bytes
deriving DecidableEq

/-- `FederationPeerFreshness::check_freshness` -/
abbrev PeerFreshness := String → Except OutputError Unit

def stubPeerFreshness : PeerFreshness := fun _ => .ok ()

def denyAllPeerFreshness : PeerFreshness := fun uri => .error (.federationEgressBlocked uri)

def revokedPeerFreshness (revokedPeerUris : List String) : PeerFreshness := fun uri =>
  if uri ∈ revokedPeerUris then .error (.federationEgressBlocked uri) else .ok ()

def routeOutput (surface : SkinSurface) (targetUri : String) (targetKind : EndpointKind)
    (payload substrateSignature : Bytes) (checkFreshness : PeerFreshness) :
    Except OutputError OutputEnvelope :=
  if ¬ surface.isDeclaredOutput targetUri targetKind then
    match surface.findOutputByUri targetUri with
    | some existing => .error (.kindMismatch targetUri targetKind existing.kind)
    | none => .error (.undeclaredEndpoint targetUri)
  else do
    if targetKind = .federationOut then checkFreshness targetUri
    return ⟨⟨targetUri, targetKind⟩, payload, substrateSignature⟩

section

variable {s : SkinSurface} {uri : String} {kind : EndpointKind} {payload signature : Bytes}
  {fresh : PeerFreshness}

/-- Every call of the gate: what is not declared is refused for that, a declared output of another
kind for its kind, a declared peer for what its freshness says, and the rest goes out. -/
theorem routeOutput_cases :
    (⟨uri, kind⟩ ∈ s.output ∧ routeOutput s uri kind payload signature fresh =
      (if kind = .federationOut then fresh uri else .ok ()).map
        fun _ => ⟨⟨uri, kind⟩, payload, signature⟩) ∨
    (∃ e ∈ s.output, e.uri = uri ∧ e.kind ≠ kind ∧
      routeOutput s uri kind payload signature fresh = .error (.kindMismatch uri kind e.kind)) ∨
    ((∀ e ∈ s.output, e.uri ≠ uri) ∧
      routeOutput s uri kind payload signature fresh = .error (.undeclaredEndpoint uri)) := by
  by_cases hd : ⟨uri, kind⟩ ∈ s.output
  · refine .inl ⟨hd, ?_⟩
    rw [routeOutput, if_neg (not_not.2 (SkinSurface.isDeclaredOutput_iff.2 hd))]
    split
    · cases fresh uri <;> rfl
    · rfl
  · right
    have hn : ¬ s.isDeclaredOutput uri kind = true := fun h =>
      hd (SkinSurface.isDeclaredOutput_iff.1 h)
    by_cases hu : ∃ e ∈ s.output, e.uri = uri
    · obtain ⟨e, he, rfl⟩ := hu
      refine .inl ⟨e, he, rfl, fun hk => hd (hk ▸ he), ?_⟩
      rw [routeOutput, if_pos hn, SkinSurface.findOutputByUri_eq he]
    · have hu' : ∀ e ∈ s.output, e.uri ≠ uri := fun e he h => hu ⟨e, he, h⟩
      refine .inr ⟨hu', ?_⟩
      rw [routeOutput, if_pos hn, SkinSurface.findOutputByUri_eq_none.2 hu']

/-- What goes out is declared, and its peer is fresh. -/
theorem routeOutput_eq_ok {env : OutputEnvelope} :
    routeOutput s uri kind payload signature fresh = .ok env ↔
      ⟨uri, kind⟩ ∈ s.output ∧ (kind = .federationOut → fresh uri = .ok ()) ∧
        env = ⟨⟨uri, kind⟩, payload, signature⟩ := by
  rcases @routeOutput_cases s uri kind payload signature fresh with
    ⟨hd, h⟩ | ⟨e, he, rfl, hk, h⟩ | ⟨hu, h⟩
  · rw [h]
    by_cases hf : kind = .federationOut
    · rw [if_pos hf]
      cases hv : fresh uri with
      | error e => simp [Except.map, hf]
      | ok u => simp [Except.map, hd, eq_comm]
    · rw [if_neg hf]
      simp [Except.map, hd, hf, eq_comm]
  · rw [h]
    constructor
    · intro h
      cases h
    · rintro ⟨hd, -⟩
      exact absurd (congrArg Endpoint.kind (SkinSurface.output_unique he hd rfl)) hk
  · rw [h]
    constructor
    · intro h
      cases h
    · rintro ⟨hd, -⟩
      exact absurd rfl (hu _ hd)

end

/-! ### The egress enforcer -/

inductive EgressError where
  | unauthorizedEgress (uri : String)
deriving DecidableEq

structure StubEgressEnforce where
  declaredOutputUris : List String

def StubEgressEnforce.fromSurface (surface : SkinSurface) : StubEgressEnforce :=
  ⟨surface.output.map Endpoint.uri⟩

def StubEgressEnforce.checkOutbound (e : StubEgressEnforce) (targetUri : String) :
    Except EgressError Unit :=
  if e.declaredOutputUris.any (· = targetUri) then .ok ()
  else .error (.unauthorizedEgress targetUri)

theorem checkOutbound_eq_ok {s : SkinSurface} {uri : String} :
    (StubEgressEnforce.fromSurface s).checkOutbound uri = .ok () ↔ ∃ e ∈ s.output, e.uri = uri := by
  simp only [StubEgressEnforce.fromSurface, StubEgressEnforce.checkOutbound, List.any_map]
  split
  · rename_i h
    simpa using h
  · rename_i h
    simpa using h

/-- On every surface that can be built, the two checks on the way out agree. A uri passes the
enforcer just when the gate, with peers that are all fresh, lets it out as some kind, which is then
one kind only and not that of an intake; with other peers the gate lets out no more than that, no
revoked peer, and nothing at all to where deltas come in. -/
theorem egress_iff_routable {s : SkinSurface} {uri : String} {payload signature : Bytes} :
    ((StubEgressEnforce.fromSurface s).checkOutbound uri = .ok () ↔
      ∃ kind env, routeOutput s uri kind payload signature stubPeerFreshness = .ok env) ∧
    (∀ fresh kind env, routeOutput s uri kind payload signature fresh = .ok env →
      (StubEgressEnforce.fromSurface s).checkOutbound uri = .ok () ∧ kind ≠ .intake ∧
      s.isDeclaredIntake uri = false ∧
      ∀ fresh' kind' env', routeOutput s uri kind' payload signature fresh' = .ok env' →
        kind' = kind ∧ env' = env) ∧
    (∀ revoked kind env,
      routeOutput s uri kind payload signature (revokedPeerFreshness revoked) = .ok env →
      kind = .federationOut → uri ∉ revoked) := by
  refine ⟨?_, ?_, ?_⟩
  · rw [checkOutbound_eq_ok]
    constructor
    · rintro ⟨e, he, rfl⟩
      exact ⟨e.kind, _, routeOutput_eq_ok.2 ⟨he, fun _ => rfl, rfl⟩⟩
    · rintro ⟨kind, env, h⟩
      exact ⟨_, (routeOutput_eq_ok.1 h).1, rfl⟩
  · intro fresh kind env h
    obtain ⟨hd, -, rfl⟩ := routeOutput_eq_ok.1 h
    refine ⟨checkOutbound_eq_ok.2 ⟨_, hd, rfl⟩, s.output_kind _ hd, ?_, ?_⟩
    · cases hi : s.isDeclaredIntake uri with
      | false => rfl
      | true => exact absurd rfl (SkinSurface.intake_not_output hi _ hd)
    · intro fresh' kind' env' h'
      obtain ⟨hd', -, rfl⟩ := routeOutput_eq_ok.1 h'
      have hkind : kind' = kind := congrArg Endpoint.kind (SkinSurface.output_unique hd' hd rfl)
      exact ⟨hkind, by rw [hkind]⟩
  · intro revoked kind env h hfed hmem
    obtain ⟨-, hfresh, -⟩ := routeOutput_eq_ok.1 h
    rw [revokedPeerFreshness, if_pos hmem] at hfresh
    exact absurd (hfresh hfed) (by simp)

end Myco.Skin
