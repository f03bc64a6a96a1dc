import Mathlib.Algebra.Order.BigOperators.Group.List
import Myco.Canonical.Length
import Myco.Canonical.Overflow
import Myco.Federation.Relays

/-!
# Chains of wrappers

What `validate_federation_inner` is for, said of the chain itself. `Down` says which event stands
how many wrappers down an event. A chain is well formed (`WellFormedChain`) when it ends within the
cap in an event that is no wrapper and holds allowed types only; what is wrong with any other chain
is a `Violation`, and the violations of a chain have an order from the outside in.

The validation decides just this on every event, unless it comes to a wrapper in which a length
stands that overflows the decoder (`validation_exact_iff`).
-/

namespace Myco.Federation

open Myco.Lib Myco.Canonical Myco.Schema Myco.Substrate Myco.Consensus

variable {env : Env}

/-! ### Chains -/

/-- A wrapper with this content embeds this event. -/
def Embeds (content : Bytes) (nodeType : String) (inner : Bytes) : Prop :=
  ∃ m, decode content = .ok (.map m) ∧
    OrdMap.get "peer_event_node_type" m = some (.string nodeType) ∧
    OrdMap.get "peer_event_content_canonical_bytes" m = some (.bytes inner)

/-- The event that stands so many wrappers down an event. -/
inductive Down (nodeType : String) (content : Bytes) : Nat → String → Bytes → Prop
  | top : Down nodeType content 0 nodeType content
  | inner {d : Nat} {ty ty' : String} {c c' : Bytes} : Down nodeType content d ty c →
      startsWith federationReceivedPrefix ty → Embeds c ty' c' →
      Down nodeType content (d + 1) ty' c'

/-- The inner types down to this depth are allowed. -/
def AllowedTo (nodeType : String) (content : Bytes) (d : Nat) : Prop :=
  ∀ k ty c, k < d → Down nodeType content (k + 1) ty c → isFederationSafeNodeType ty

/-- The chain ends within the cap, and what it holds is allowed. -/
def WellFormedChain (nodeType : String) (content : Bytes) : Prop :=
  ∃ d ty c, Down nodeType content d ty c ∧ ¬ startsWith federationReceivedPrefix ty ∧
    d ≤ maxFederationRecursionDepth ∧ AllowedTo nodeType content d

/-- What can be wrong with a chain, and where. -/
inductive Violation
  | bannedInnerType (depth : Nat) (innerNodeType : String)
  | depthExceeded (attemptedDepth : Nat)
  | malformedWrapper (depth : Nat)
deriving DecidableEq

/-- The violation that a rejection reports. -/
def FederationRecursionReject.violation : FederationRecursionReject → Violation
  | .bannedInnerType depth innerNodeType => .bannedInnerType depth innerNodeType
  | .depthExceeded attemptedDepth => .depthExceeded attemptedDepth
  | .malformedWrapper depth _ => .malformedWrapper depth

/-- From the outside in: at each depth first the type, then the depth, then the content. -/
def Violation.place : Violation → Nat
  | .bannedInnerType depth _ => 3 * depth
  | .depthExceeded attemptedDepth => 3 * attemptedDepth + 1
  | .malformedWrapper depth => 3 * depth + 2

/-- The chain has this violation. -/
def Violated (nodeType : String) (content : Bytes) : Violation → Prop
  | .bannedInnerType depth ty =>
    0 < depth ∧ (∃ c, Down nodeType content depth ty c) ∧ ¬ isFederationSafeNodeType ty
  | .depthExceeded d => maxFederationRecursionDepth < d ∧ ∃ ty c, Down nodeType content d ty c
  | .malformedWrapper d => ∃ ty c, Down nodeType content d ty c ∧
    startsWith federationReceivedPrefix ty ∧ ¬ ∃ ty' c', Embeds c ty' c'

/-- The first of the chain's violations. -/
def FirstViolated (nodeType : String) (content : Bytes) (v : Violation) : Prop :=
  Violated nodeType content v ∧ ∀ w, Violated nodeType content w → v.place ≤ w.place

/-- The walk comes to this wrapper: it stands within the cap, below allowed types only. -/
def ComesTo (nodeType : String) (content : Bytes) (d : Nat) (c : Bytes) : Prop :=
  ∃ ty, Down nodeType content d ty c ∧ startsWith federationReceivedPrefix ty ∧
    d ≤ maxFederationRecursionDepth ∧ AllowedTo nodeType content d

section

variable {nodeType ty ty' : String} {content c c' : Bytes} {d d' left depth : Nat}

/-! ### A chain is determined by its event -/

theorem Embeds.unique {ty₁ ty₂ : String} {c₁ c₂ : Bytes} (h₁ : Embeds c ty₁ c₁)
    (h₂ : Embeds c ty₂ c₂) : ty₁ = ty₂ ∧ c₁ = c₂ := by
  obtain ⟨m, hm, htype, hcontent⟩ := h₁
  obtain ⟨m', hm', htype', hcontent'⟩ := h₂
  cases hm.symm.trans hm'
  cases htype.symm.trans htype'
  cases hcontent.symm.trans hcontent'
  exact ⟨rfl, rfl⟩

theorem Down.unique {ty₁ ty₂ : String} {c₁ c₂ : Bytes} (h₁ : Down nodeType content d ty₁ c₁)
    (h₂ : Down nodeType content d ty₂ c₂) : ty₁ = ty₂ ∧ c₁ = c₂ := by
  induction h₁ generalizing ty₂ c₂ with
  | top =>
    cases h₂
    exact ⟨rfl, rfl⟩
  | inner _ _ he ih =>
    cases h₂ with
    | inner hd _ he' =>
      obtain ⟨rfl, rfl⟩ := ih hd
      exact he.unique he'

/-- Above an event there is a wrapper at every depth. -/
theorem Down.above (h : Down nodeType content d' ty' c') (hd : d < d') :
    ∃ ty c, Down nodeType content d ty c ∧ startsWith federationReceivedPrefix ty ∧
      ∃ ty'' c'', Embeds c ty'' c'' := by
  induction h with
  | top => exact absurd hd (Nat.not_lt_zero d)
  | @inner k ty ty' c c' hdown hw he ih =>
    rcases Nat.lt_succ_iff_lt_or_eq.1 hd with hlt | rfl
    · exact ih hlt
    · exact ⟨ty, c, hdown, hw, ty', c', he⟩

theorem Embeds.length_le (h : Embeds c ty' c') : c'.length ≤ c.length := by
  obtain ⟨m, hm, -, hcontent⟩ := h
  have hsize := size_le_of_decode hm
  have hentry := List.le_sum_of_mem (List.mem_map_of_mem
    (f := fun e : String × Value => keySize e.1 + e.2.size) (OrdMap.mem_of_get hcontent))
  rw [Value.size, entriesSize_eq] at hsize
  rw [Value.size] at hentry
  have : c'.length ≤ prefixedSize c'.length := Nat.le_add_left _ _
  omega

theorem Down.length_le (h : Down nodeType content d ty c) : c.length ≤ content.length := by
  induction h with
  | top => exact le_rfl
  | inner _ _ he ih => exact he.length_le.trans ih

/-! ### The walk -/

theorem AllowedTo.of_succ (h : AllowedTo nodeType content (d + 1)) :
    AllowedTo nodeType content d :=
  fun k ty c hk => h k ty c (Nat.lt_succ_of_lt hk)

theorem AllowedTo.succ (h : AllowedTo nodeType content d)
    (hd : Down nodeType content (d + 1) ty c) (hs : isFederationSafeNodeType ty) :
    AllowedTo nodeType content (d + 1) := by
  intro k ty' c' hk hd'
  rcases Nat.lt_succ_iff_lt_or_eq.1 hk with hlt | rfl
  · exact h k ty' c' hlt hd'
  · exact (hd.unique hd').1 ▸ hs

theorem bytes?_eq_some {v : Value} {b : Bytes} : v.bytes? = some b ↔ v = .bytes b := by
  cases v <;> simp [Value.bytes?]

theorem embeds_iff {m : List (String × Value)} (h : decode c = .ok (.map m)) :
    Embeds c ty' c' ↔ mapGetString m "peer_event_node_type" = .ok ty' ∧
      mapGetBytes m "peer_event_content_canonical_bytes" = .ok c' := by
  unfold Embeds mapGetString mapGetBytes
  simp only [mapGet_eq_ok, Value.string?_eq, bytes?_eq_some, exists_eq_right, h]
  constructor
  · rintro ⟨m', hm, hget⟩
    cases hm
    exact hget
  · exact fun hget => ⟨m, rfl, hget⟩

/-- Reading a wrapper gives the event in it, or says that it is malformed, or panics with the
decoder. -/
theorem readWrapper_cases (env : Env) (c : Bytes) (depth : Nat) :
    (∃ ty' c', Embeds c ty' c' ∧ readWrapper env c depth = .ok (ty', c')) ∨
    ((¬ ∃ ty' c', Embeds c ty' c') ∧
      ∃ reason, readWrapper env c depth = .error (.err (.malformedWrapper depth reason))) ∨
    (decode c = .error .panic ∧ readWrapper env c depth = .error .panic) := by
  unfold readWrapper
  cases hdec : decode c with
  | error f =>
    have hnone : ¬ ∃ ty' c', Embeds c ty' c' := by
      rintro ⟨_, _, m, hm, -⟩
      cases hdec.symm.trans hm
    cases f with
    | err e => exact .inr (.inl ⟨hnone, _, rfl⟩)
    | panic => exact .inr (.inr ⟨rfl, rfl⟩)
    | stack => exact absurd hdec decode_ne_stack
  | ok v =>
    cases v with
    | map m =>
      dsimp only
      rw [ok_bind]
      cases htype : mapGetString m "peer_event_node_type" with
      | error e =>
        refine .inr (.inl ⟨?_, _, rfl⟩)
        rintro ⟨ty, c', he⟩
        cases htype.symm.trans ((embeds_iff hdec).1 he).1
      | ok ty =>
        cases hcontent : mapGetBytes m "peer_event_content_canonical_bytes" with
        | error e =>
          refine .inr (.inl ⟨?_, _, rfl⟩)
          rintro ⟨ty', c', he⟩
          cases hcontent.symm.trans ((embeds_iff hdec).1 he).2
        | ok c' => exact .inl ⟨ty, c', (embeds_iff hdec).2 ⟨htype, hcontent⟩, rfl⟩
    | _ =>
      refine .inr (.inl ⟨?_, _, rfl⟩)
      rintro ⟨_, _, m, hm, -⟩
      cases hdec.symm.trans hm

/-- Down allowed types the validation comes to the event at hand. -/
theorem validate_walk (h : Down nodeType content d ty c) (ha : AllowedTo nodeType content d)
    (hl : d + left = maxFederationRecursionDepth + 1) :
    validateFederationInner env nodeType content 0 = validateLevels env left ty c d := by
  induction h generalizing left with
  | top =>
    rw [validateFederationInner, Nat.sub_zero, ← hl, Nat.zero_add]
  | @inner k ty ty' c c' hdown hw he ih =>
    rw [@ih (left + 1) ha.of_succ (by omega), validateLevels, if_neg (not_not.2 hw)]
    rcases readWrapper_cases env c k with ⟨ty₂, c₂, he', hr⟩ | ⟨hnone, -⟩ | ⟨hp, -⟩
    · obtain ⟨rfl, rfl⟩ := he.unique he'
      have hs := ha k ty' c' (Nat.lt_succ_self k) (.inner hdown hw he)
      rw [hr]
      simp only [hs, Bool.not_true, Bool.false_eq_true, if_false]
    · exact absurd ⟨ty', c', he⟩ hnone
    · obtain ⟨m, hm, -⟩ := he
      cases hp.symm.trans hm

/-- The walk ends past the cap, or at an event that is no wrapper, or at a wrapper that embeds no
event of an allowed type. -/
theorem walk_ends (h : Down nodeType content d ty c) (ha : AllowedTo nodeType content d)
    (hl : d + left = maxFederationRecursionDepth + 1) :
    ∃ d' ty' c', Down nodeType content d' ty' c' ∧ AllowedTo nodeType content d' ∧
      (d' = maxFederationRecursionDepth + 1 ∨ d' ≤ maxFederationRecursionDepth ∧
        (startsWith federationReceivedPrefix ty' →
          ∀ ty'' c'', Embeds c' ty'' c'' → ¬ isFederationSafeNodeType ty'')) := by
  induction left generalizing d ty c with
  | zero => exact ⟨d, ty, c, h, ha, .inl (by omega)⟩
  | succ left ih =>
    by_cases hend : startsWith federationReceivedPrefix ty →
        ∀ ty' c', Embeds c ty' c' → ¬ isFederationSafeNodeType ty'
    · exact ⟨d, ty, c, h, ha, .inr ⟨by omega, hend⟩⟩
    · push Not at hend
      obtain ⟨hw, ty', c', he, hs⟩ := hend
      exact ih (.inner h hw he) (ha.succ (.inner h hw he) hs) (by omega)

/-! ### What the validation decides -/

/-- On a chain of which the walk has come this far, whatever is wrong is wrong further in. -/
theorem Violated.further {v : Violation} (h : Down nodeType content d ty c)
    (ha : AllowedTo nodeType content d) (hv : Violated nodeType content v) :
    match v with
    | .bannedInnerType depth _ => d < depth
    | .depthExceeded attemptedDepth => maxFederationRecursionDepth < attemptedDepth
    | .malformedWrapper depth => d ≤ depth ∧ (depth = d → ¬ ∃ ty' c', Embeds c ty' c') := by
  cases v with
  | bannedInnerType depth ty' =>
    obtain ⟨hpos, ⟨c', hd⟩, hs⟩ := hv
    refine Nat.lt_of_not_le fun hle => hs ?_
    obtain ⟨k, rfl⟩ := Nat.exists_eq_succ_of_ne_zero hpos.ne'
    exact ha k ty' c' hle hd
  | depthExceeded attemptedDepth => exact hv.1
  | malformedWrapper depth =>
    obtain ⟨ty', c', hd, -, hnone⟩ := hv
    constructor
    · refine Nat.le_of_not_lt fun hlt => hnone ?_
      obtain ⟨ty₂, c₂, hd₂, -, he⟩ := h.above hlt
      exact (hd₂.unique hd).2 ▸ he
    · rintro rfl
      exact (hd.unique h).2 ▸ hnone

/-- A chain that is well formed does not go on where the walk ends otherwise. -/
theorem WellFormedChain.ends (hwf : WellFormedChain nodeType content)
    (h : Down nodeType content d ty c) (hw : startsWith federationReceivedPrefix ty) :
    d ≤ maxFederationRecursionDepth ∧ ∃ ty' c', Embeds c ty' c' ∧ isFederationSafeNodeType ty' := by
  obtain ⟨n, ty₁, c₁, hn, hleaf, hle, hallowed⟩ := hwf
  have hlt : d < n := by
    refine Nat.lt_of_not_le fun hle' => hleaf ?_
    rcases Nat.lt_or_eq_of_le hle' with hlt | rfl
    · obtain ⟨ty₂, c₂, hd₂, hw₂, -⟩ := h.above hlt
      exact (hn.unique hd₂).1 ▸ hw₂
    · exact (h.unique hn).1 ▸ hw
  obtain ⟨ty₂, c₂, hd₂, -, ty', c', he⟩ := hn.above hlt
  obtain ⟨rfl, rfl⟩ := h.unique hd₂
  exact ⟨by omega, ty', c', he, hallowed d ty' c' hlt (.inner h hw he)⟩

/-- The validation lets an event pass just if its chain is well formed, and reports of any other
the violation that comes first. -/
def ExactOn (env : Env) (nodeType : String) (content : Bytes) : Prop :=
  (validateFederationInner env nodeType content 0 = .ok () ↔ WellFormedChain nodeType content) ∧
  (validateFederationInner env nodeType content 0 ≠ .ok () →
    ∃ r, validateFederationInner env nodeType content 0 = .error (.err r) ∧
      FirstViolated nodeType content r.violation)

theorem WellFormedChain.le (hwf : WellFormedChain nodeType content)
    (h : Down nodeType content d ty c) : d ≤ maxFederationRecursionDepth := by
  obtain ⟨n, ty₁, c₁, hn, hleaf, hle, -⟩ := hwf
  refine (Nat.le_of_not_lt fun hlt => hleaf ?_).trans hle
  obtain ⟨ty₂, c₂, hd₂, hw₂, -⟩ := h.above hlt
  exact (hn.unique hd₂).1 ▸ hw₂

theorem validateLevels_wrapper (hw : startsWith federationReceivedPrefix ty) :
    validateLevels env (left + 1) ty c d =
      match readWrapper env c d with
      | .error e => .error e
      | .ok (innerNodeType, innerContent) =>
        if !isFederationSafeNodeType innerNodeType then
          .error (.err (.bannedInnerType (d + 1) innerNodeType))
        else validateLevels env left innerNodeType innerContent (d + 1) :=
  if_neg (not_not.2 hw)

theorem exactOn_of_error {r : FederationRecursionReject}
    (h : validateFederationInner env nodeType content 0 = .error (.err r))
    (hwf : ¬ WellFormedChain nodeType content)
    (hfirst : FirstViolated nodeType content r.violation) : ExactOn env nodeType content := by
  refine ⟨iff_of_false (fun hok => ?_) hwf, fun _ => ⟨r, h, hfirst⟩⟩
  rw [h] at hok
  cases hok

/-- Where the decoder returns on every wrapper that the walk comes to, the validation is exact. -/
theorem exactOn_of_returns
    (h : ∀ d c, ComesTo nodeType content d c → decode c ≠ .error .panic) :
    ExactOn env nodeType content := by
  have htop : AllowedTo nodeType content 0 := fun k _ _ hk => absurd hk (Nat.not_lt_zero k)
  obtain ⟨d, ty, c, hd, ha, hend⟩ := walk_ends .top htop (Nat.zero_add _)
  rcases hend with rfl | ⟨hle, hend⟩
  · -- past the cap
    have hwalk : validateFederationInner env nodeType content 0 =
        .error (.err (.depthExceeded (maxFederationRecursionDepth + 1))) :=
      @validate_walk _ _ _ _ _ _ 0 hd ha rfl
    refine exactOn_of_error hwalk (fun hwf => ?_) ⟨⟨Nat.lt_succ_self _, ty, c, hd⟩, ?_⟩
    · exact absurd (hwf.le hd) (Nat.not_succ_le_self _)
    · intro w hw
      have := hw.further hd ha
      cases w <;> simp only [FederationRecursionReject.violation, Violation.place] at this ⊢ <;>
        omega
  obtain ⟨left, hl⟩ : ∃ left, d + (left + 1) = maxFederationRecursionDepth + 1 :=
    ⟨maxFederationRecursionDepth - d, by omega⟩
  have hwalk := @validate_walk env _ _ _ _ _ _ hd ha hl
  by_cases hw : startsWith federationReceivedPrefix ty
  · rw [validateLevels_wrapper hw] at hwalk
    rcases readWrapper_cases env c d with ⟨ty', c', he, hr⟩ | ⟨hnone, reason, hr⟩ | ⟨hp, -⟩
    · -- an inner type that is not allowed
      have hs := hend hw ty' c' he
      rw [hr] at hwalk
      simp only [hs, Bool.not_false, if_true] at hwalk
      refine exactOn_of_error hwalk (fun hwf => ?_)
        ⟨⟨Nat.succ_pos d, ⟨c', .inner hd hw he⟩, hs⟩, fun w hviolated => ?_⟩
      · obtain ⟨-, ty₂, c₂, he₂, hs₂⟩ := hwf.ends hd hw
        exact hend hw ty₂ c₂ he₂ hs₂
      · have := hviolated.further hd ha
        cases w with
        | malformedWrapper depth =>
          obtain ⟨hle', hmal⟩ := this
          have hne : depth ≠ d := fun heq => hmal heq ⟨ty', c', he⟩
          simp only [FederationRecursionReject.violation, Violation.place]
          omega
        | _ =>
          simp only [FederationRecursionReject.violation, Violation.place] at this ⊢
          omega
    · -- a wrapper that is malformed
      rw [hr] at hwalk
      refine exactOn_of_error hwalk (fun hwf => ?_) ⟨⟨ty, c, hd, hw, hnone⟩, fun w hviolated => ?_⟩
      · obtain ⟨-, ty₂, c₂, he₂, -⟩ := hwf.ends hd hw
        exact hnone ⟨ty₂, c₂, he₂⟩
      · have := hviolated.further hd ha
        cases w <;> simp only [FederationRecursionReject.violation, Violation.place] at this ⊢ <;>
          omega
    · exact absurd hp (h d c ⟨ty, hd, hw, hle, ha⟩)
  · -- an event that is no wrapper
    rw [validateLevels, if_pos hw] at hwalk
    exact ⟨iff_of_true hwalk ⟨d, ty, c, hd, hw, hle, ha⟩, fun hne => absurd hwalk hne⟩

theorem not_exactOn_of_panic (hc : ComesTo nodeType content d c)
    (hp : decode c = .error .panic) : ¬ ExactOn env nodeType content := by
  obtain ⟨ty, hd, hw, hle, ha⟩ := hc
  obtain ⟨left, hl⟩ : ∃ left, d + (left + 1) = maxFederationRecursionDepth + 1 :=
    ⟨maxFederationRecursionDepth - d, by omega⟩
  have hwalk := @validate_walk env _ _ _ _ _ _ hd ha hl
  have hread : readWrapper env c d = .error .panic := by
    rw [readWrapper, hp]
    rfl
  rw [validateLevels_wrapper hw, hread] at hwalk
  intro h
  obtain ⟨r, hr, -⟩ := h.2 fun hok => by
    rw [hwalk] at hok
    cases hok
  rw [hwalk] at hr
  cases hr

theorem decode_panics_iff (hc : c.length < 2 ^ 64) :
    decode c = .error .panic ↔ ¬ ∀ i, Awaits c i → ¬ Overflows c i := by
  rw [← decode_returns_iff c hc]
  constructor
  · intro hp
    rw [hp]
    rintro (⟨v, hv⟩ | ⟨e, he⟩)
    · cases hv
    · cases he
  · intro h
    cases hd : decode c with
    | ok v => exact absurd (.inl ⟨v, hd⟩) h
    | error f =>
      cases f with
      | err e => exact absurd (.inr ⟨e, hd⟩) h
      | panic => rfl
      | stack => exact absurd hd decode_ne_stack

/-- The validation is exact on an event just if at no wrapper that the walk comes to the decoder
meets a length that overflows. -/
theorem validation_exact_iff (env : Env) (nodeType : String) (content : Bytes)
    (hmem : content.length < 2 ^ 64) :
    ExactOn env nodeType content ↔
      ∀ d c, ComesTo nodeType content d c → ∀ i, Awaits c i → ¬ Overflows c i := by
  have hlength : ∀ {d c}, ComesTo nodeType content d c → c.length < 2 ^ 64 := by
    rintro d c ⟨ty, hd, -⟩
    exact hd.length_le.trans_lt hmem
  constructor
  · intro h d c hc
    by_contra hno
    exact not_exactOn_of_panic hc ((decode_panics_iff (hlength hc)).2 hno) h
  · intro h
    exact exactOn_of_returns fun d c hc hp =>
      (decode_panics_iff (hlength hc)).1 hp (h d c hc)

end

/-! ### A wrapper in a wrapper -/

section

variable {nodeType ty : String} {content c : Bytes} {d k : Nat}

/-- Down an event that relays have wrapped stand such events. -/
theorem Relayed.down (h : Relayed k nodeType content) (hd : Down nodeType content d ty c) :
    ∃ j, Relayed j ty c := by
  induction hd with
  | top => exact ⟨k, h⟩
  | inner hdown hw he ih =>
    obtain ⟨j, hj⟩ := ih
    cases hj with
    | own hown => exact absurd hw hown
    | wrapped hsafe hmem hinner =>
      rcases readWrapper_cases smallEnv _ 0 with ⟨ty₂, c₂, he', hr⟩ | ⟨hnone, -⟩ | ⟨-, hr⟩
      · obtain ⟨rfl, rfl⟩ := he.unique he'
        rw [readWrapper_encode hmem] at hr
        cases hr
        exact ⟨_, hinner⟩
      · exact absurd ⟨_, _, he⟩ hnone
      · rw [readWrapper_encode hmem] at hr
        cases hr

/-- The decoder returns on a wrapper that a relay has made. -/
theorem Relayed.decodes (h : Relayed k ty c) (hw : startsWith federationReceivedPrefix ty) :
    decode c ≠ .error .panic := by
  cases h with
  | own hown => exact absurd hw hown
  | @wrapped j env' id ev hsafe hmem hinner =>
    intro hp
    have hr : readWrapper smallEnv (encodeFederationReceived env' id ev) 0 =
        .ok (ev.nodeType, ev.contentCanonicalBytes) := readWrapper_encode hmem
    rw [readWrapper, hp] at hr
    cases hr

end

def leafEvent : EventForFederation := ⟨[], "raw_material:leaf", 3, [1]⟩

def relayedLeaf : EventForFederation :=
  ⟨[], federationReceivedNodeType (.replicate 1), 4,
    encodeFederationReceived smallEnv (.replicate 1) leafEvent⟩

theorem relayedLeaf_relayed : Relayed 2 (federationReceivedNodeType (.replicate 2))
    (encodeFederationReceived smallEnv (.replicate 2) relayedLeaf) := by
  have hleaf : Relayed 1 (federationReceivedNodeType (.replicate 1))
      (encodeFederationReceived smallEnv (.replicate 1) leafEvent) :=
    @Relayed.wrapped 0 smallEnv _ leafEvent (by decide) (by decide +kernel) (.own (by decide))
  exact @Relayed.wrapped 1 smallEnv _ relayedLeaf (by decide +kernel) (by decide +kernel) hleaf

/-- A leaf that two substrates have relayed. -/
theorem validation_exact_relayed : ExactOn smallEnv (federationReceivedNodeType (.replicate 2))
    (encodeFederationReceived smallEnv (.replicate 2) relayedLeaf) := by
  refine (validation_exact_iff smallEnv _ _ (by decide +kernel)).2 fun d c hc => ?_
  obtain ⟨ty, hd, hw, -⟩ := hc
  obtain ⟨j, hj⟩ := relayedLeaf_relayed.down hd
  have hlen : c.length < 2 ^ 64 := hd.length_le.trans_lt (by decide +kernel)
  exact not_not.1 (mt (decode_panics_iff hlen).2 (hj.decodes hw))

/-- A wrapper that announces `2^64 - 1` bytes of content. -/
def hugeWrapper : Bytes := [0x21, 0xff, 0xff, 0xff, 0xff, 0xff, 0xff, 0xff, 0xff, 0xff, 0x01]

theorem huge_wrapper_panics :
    validateFederationInner smallEnv "federation_received:peer" hugeWrapper 0 = .error .panic ∧
    ¬ ExactOn smallEnv "federation_received:peer" hugeWrapper := by
  have hc : ComesTo "federation_received:peer" hugeWrapper 0 hugeWrapper :=
    ⟨_, .top, by decide, Nat.zero_le _, fun k _ _ hk => absurd hk (Nat.not_lt_zero k)⟩
  refine ⟨?_, not_exactOn_of_panic hc rfl⟩
  rw [validateFederationInner, Nat.sub_zero, validateLevels_wrapper (by decide),
    show readWrapper smallEnv hugeWrapper 0 = .error .panic from rfl]

end Myco.Federation
