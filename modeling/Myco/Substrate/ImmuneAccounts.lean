import Myco.Substrate.Tips

/-!
# What the immune accounts add up to

An alarm raised within a second of its detector's last node is not written: `emit_immune_sporocarp`
counts it, and the next node of the detector says how many it counted. `Accounts` relates what the
detector has written, and what it still holds, to the calls it took. One call keeps it
(`Raised.accounts`), so a run does; the count is a `u64` that saturates, and a call that finds it
full is the only one that is lost.

The clock is whatever it is: `monotonicClock` is what `wall_clock.rs` makes of the readings of the
system, and it stands still at its last value.
-/

namespace Myco.Substrate

open Myco.Lib Myco.Canonical Myco.Schema

variable {env : Env}

/-! ### The clock -/

/-- `i64::saturating_add`. -/
def saturatingAddI64 (a b : Int64) : Int64 :=
  Int64.ofInt (max (-2 ^ 63) (min (2 ^ 63 - 1) (a.toInt + b.toInt)))

/-- `monotonic_unix_ns`, after the system has answered and `last` has been loaded. -/
def monotonicUnixNs (observed last : Int64) : Int64 :=
  if observed > last then observed else saturatingAddI64 last 1

/-- One reading after the other; `LAST_OBSERVED_UNIX_NS` starts at 0. -/
def monotonicClock (observed : Nat → Int64) : Nat → Int64
  | 0 => monotonicUnixNs (observed 0) 0
  | n + 1 => monotonicUnixNs (observed (n + 1)) (monotonicClock observed n)

/-! ### Calls, and what they leave -/

/-- The arguments of a call. -/
structure Alarm where
  detectorId : String
  detectorName : String
  evidence : String

/-- The call, whatever it answers. -/
def Raised (s : ServerState env) (a : Alarm) (t : ServerState env) : Prop :=
  ∃ r, (emitImmuneSporocarp a.detectorId a.detectorName a.evidence :
    Handler env NodeHash).exec s = some (r, t)

def suppressedSince (n : DagNode) : Nat :=
  (((decodeMap? n.content).bind (uint? · "suppressed_since_last_emission")).getD 0).toNat

def stamp? (n : DagNode) : Option Int64 :=
  (decodeMap? n.content).bind (timestamp? · "timestamp_unix_ns")

/-- What the detector has written since `s`. -/
def emitted (d : String) (s t : ServerState env) : List DagNode :=
  (t.nodes.drop s.nodes.length).filter fun n => n.nodeType = immunePrefix ++ d

/-- What it still has to say. -/
def held (d : String) (s : ServerState env) : Nat :=
  ((OrdMap.get d s.immuneEmissionState).map fun e => e.suppressed.toNat).getD 0

def accounted (d : String) (s t : ServerState env) : Nat :=
  ((emitted d s t).map fun n => 1 + suppressedSince n).sum + held d t

/-- It is stamped a second after the other, or later. -/
def SecondApart (m n : DagNode) : Prop :=
  ∃ x y, stamp? m = some x ∧ stamp? n = some y ∧
    x.toInt + immuneEmissionRateLimitNs.toInt ≤ y.toInt

/-- The call is suppressed, and the count is full. -/
def Lost (s : ServerState env) (a : Alarm) : Prop :=
  ∃ p, OrdMap.get a.detectorId s.immuneEmissionState = some p ∧
    saturatingSubI64 (env.clock s.readings) p.at_ < immuneEmissionRateLimitNs ∧
    p.suppressed.toNat = 2 ^ 64 - 1

/-! ### One call -/

theorem secondApart_of_sub {x y : Int64}
    (h : ¬ saturatingSubI64 y x < immuneEmissionRateLimitNs) :
    x.toInt + immuneEmissionRateLimitNs.toInt ≤ y.toInt := by
  rw [Int64.lt_iff_toInt_lt, saturatingSubI64,
    Int64.toInt_ofInt_of_le (le_max_left _ _) (by omega)] at h
  have hlimit : immuneEmissionRateLimitNs.toInt = 1000000000 := by decide
  omega

/-- A call that is let through writes a node that says what was held. -/
structure Written (s : ServerState env) (a : Alarm) (n : DagNode) (t : ServerState env) : Prop where
  nodes : t.nodes = s.nodes ++ [n]
  kind : n.nodeType = immunePrefix ++ a.detectorId
  reports : suppressedSince n = held a.detectorId s
  stamped : stamp? n = some (env.clock s.readings)
  table : t.immuneEmissionState = OrdMap.insert utf8 a.detectorId
    ⟨env.clock s.readings, n.hash, 0⟩ s.immuneEmissionState

theorem exec_insertNode_table {what : String} {c : Insertion} {s t : ServerState env}
    {r : Except SubstrateError NodeHash} (h : (insertNode what c).exec s = some (r, t)) :
    t.immuneEmissionState = s.immuneEmissionState ∧ t.readings = s.readings := by
  rw [exec_insertNode] at h
  split at h
  · cases h
    exact ⟨rfl, rfl⟩
  · cases h

theorem emitFresh_written {a : Alarm} {s t : ServerState env} {k : UInt64} {at_ : Int64}
    {r : Except SubstrateError NodeHash}
    (he : (emitFresh a.detectorId a.detectorName a.evidence at_ k :
      Handler env NodeHash).exec s = some (r, t)) (hs : ¬ Collided t) :
    ∃ n, t.nodes = s.nodes ++ [n] ∧ n.nodeType = immunePrefix ++ a.detectorId ∧
      suppressedSince n = k.toNat ∧ stamp? n = some at_ ∧
      t.immuneEmissionState = OrdMap.insert utf8 a.detectorId ⟨at_, n.hash, 0⟩
        s.immuneEmissionState := by
  rw [emitFresh, Prog.exec_get_bind] at he
  have hwf : ∀ e ∈ [("detector_id", Value.string a.detectorId),
      ("detector_name", .string a.detectorName), ("evidence", .string a.evidence),
      ("timestamp_unix_ns", .timestamp at_)] ++
      entryIf "suppressed_since_last_emission" .uint (if k > 0 then some k else none), e.2.WF := by
    intro e hm
    rw [List.mem_append, mem_entryIf] at hm
    rcases hm with hm | ⟨n, -, rfl⟩
    · revert e
      simp [Value.WF]
    · trivial
  have hne : immunePrefix ++ a.detectorId ≠ "" :=
    @ne_empty_of_startsWith _ genesisPrefix _ startsWith_append (by decide)
  rcases Prog.exec_bind_eq_some.1 he with ⟨e, h1, -⟩ | ⟨hash, u, h1, h2⟩
  · obtain ⟨hr, -⟩ := (insertNode_tip h1 hne (List.append_nil _).symm (by simp)).holds hs
    cases hr
  · cases h2
    obtain ⟨hr, happ⟩ := (insertNode_tip h1 hne (List.append_nil _).symm (by simp)).holds hs
    cases hr
    have hmap := decodeMap?_cbEncode happ.content hwf
    refine ⟨_, happ.nodes, rfl, ?_, ?_, ?_⟩
    · refine congrArg UInt64.toNat ?_
      show ((decodeMap? (cbEncode _)).bind _).getD 0 = k
      rw [hmap, Option.bind_some, uint?, get_mapOf]
      simp only [List.reverse_append, OrdMap.get_append, get_entryIf, if_pos]
      by_cases hk : 0 < k
      · simp [hk]
      · have hzero : k = 0 := by simpa using hk
        simp [hzero, OrdMap.get_cons]
    · show (decodeMap? (cbEncode _)).bind _ = _
      rw [hmap, Option.bind_some, timestamp?, get_mapOf]
      simp [OrdMap.get_append, get_entryIf, OrdMap.get_cons]
    · show OrdMap.insert utf8 a.detectorId _ u.immuneEmissionState = _
      rw [(exec_insertNode_table h1).1]

/-- A call that is suppressed is counted. -/
structure Counted (s : ServerState env) (a : Alarm) (p : ImmuneEmission) (t : ServerState env) :
    Prop where
  prior : OrdMap.get a.detectorId s.immuneEmissionState = some p
  soon : saturatingSubI64 (env.clock s.readings) p.at_ < immuneEmissionRateLimitNs
  nodes : t.nodes = s.nodes
  table : t.immuneEmissionState = OrdMap.insert utf8 a.detectorId
    { p with suppressed := saturatingAdd p.suppressed 1 } s.immuneEmissionState

theorem Raised.cases {a : Alarm} {s t : ServerState env} (h : Raised s a t) (hs : ¬ Collided t) :
    (∃ p, Counted s a p t) ∨ ∃ n, Written s a n t ∧
      ∀ p, OrdMap.get a.detectorId s.immuneEmissionState = some p →
        ¬ saturatingSubI64 (env.clock s.readings) p.at_ < immuneEmissionRateLimitNs := by
  obtain ⟨r, he⟩ := h
  rw [emitImmuneSporocarp, readClock] at he
  simp only [bind_assoc, Prog.exec_get_bind, Prog.exec_modify_bind, pure_bind] at he
  cases hp : OrdMap.get a.detectorId s.immuneEmissionState with
  | none =>
    simp only [hp] at he
    obtain ⟨n, hn, hk, hsup, hst, htable⟩ := emitFresh_written he hs
    refine .inr ⟨n, ⟨hn, hk, ?_, hst, htable⟩, fun p h => by cases h⟩
    rw [hsup, held, hp]
    rfl
  | some p =>
    simp only [hp] at he
    split at he
    · rename_i hsoon
      cases he
      exact .inl ⟨p, hp, hsoon, rfl, rfl⟩
    · rename_i hlate
      obtain ⟨n, hn, hk, hsup, hst, htable⟩ := emitFresh_written he hs
      refine .inr ⟨n, ⟨hn, hk, ?_, hst, htable⟩, fun q h => by cases h; exact hlate⟩
      rw [hsup, held, hp]
      rfl

/-! ### What a call does to the accounts of a detector -/

section

variable {d : String} {s u v : ServerState env} {a : Alarm} {n : DagNode} {p : ImmuneEmission}

theorem emitted_append (hg : s.nodes <+: u.nodes) (hn : v.nodes = u.nodes ++ [n]) :
    emitted d s v = emitted d s u ++ if n.nodeType = immunePrefix ++ d then [n] else [] := by
  rw [emitted, hn, List.drop_append_of_le_length hg.length_le, List.filter_append]
  congr 1
  split <;> simp [*]

theorem Counted.emitted_eq (h : Counted u a p v) : emitted d s v = emitted d s u := by
  rw [emitted, h.nodes]
  rfl

theorem Counted.held_self (h : Counted u a p v) :
    held a.detectorId v = (saturatingAdd p.suppressed 1).toNat := by
  rw [held, h.table, OrdMap.get_insert utf8_injective, if_pos rfl]
  rfl

theorem Counted.held_other (h : Counted u a p v) (hd : d ≠ a.detectorId) :
    held d v = held d u := by
  rw [held, h.table, OrdMap.get_insert utf8_injective, if_neg hd]
  rfl

theorem Written.held_self (h : Written u a n v) : held a.detectorId v = 0 := by
  rw [held, h.table, OrdMap.get_insert utf8_injective, if_pos rfl]
  rfl

theorem Written.held_other (h : Written u a n v) (hd : d ≠ a.detectorId) :
    held d v = held d u := by
  rw [held, h.table, OrdMap.get_insert utf8_injective, if_neg hd]
  rfl

theorem Written.emitted_self (h : Written u a n v) (hg : s.nodes <+: u.nodes) :
    emitted a.detectorId s v = emitted a.detectorId s u ++ [n] := by
  rw [emitted_append hg h.nodes, if_pos h.kind]

theorem Written.emitted_other (h : Written u a n v) (hg : s.nodes <+: u.nodes)
    (hd : d ≠ a.detectorId) : emitted d s v = emitted d s u := by
  rw [emitted_append hg h.nodes, if_neg, List.append_nil]
  rw [h.kind, String.append_right_inj]
  exact fun h => hd h.symm

theorem toNat_saturatingAdd_one {k : UInt64} :
    (saturatingAdd k 1).toNat = if k.toNat = 2 ^ 64 - 1 then k.toNat else k.toNat + 1 := by
  have hk : k.toNat < 2 ^ 64 := k.toNat_lt
  have hone : (1 : UInt64).toNat = 1 := rfl
  rw [saturatingAdd_toNat, hone]
  split
  · omega
  · omega

end

/-- The detector's nodes and the table agree on when it last wrote, and its nodes are apart. -/
structure Spaced (d : String) (s u : ServerState env) : Prop where
  grown : s.nodes <+: u.nodes
  last : (emitted d s u).getLast?.map stamp? =
    (OrdMap.get d u.immuneEmissionState).map fun e => some e.at_
  apart : (emitted d s u).IsChain SecondApart

section

variable {d : String} {s u v : ServerState env} {a : Alarm}

theorem Raised.spaced (h : Raised u a v) (hs : ¬ Collided v) (hu : Spaced d s u) :
    Spaced d s v := by
  rcases h.cases hs with ⟨p, hc⟩ | ⟨n, hw, hlate⟩
  · refine ⟨hc.nodes ▸ hu.grown, ?_, hc.emitted_eq ▸ hu.apart⟩
    rw [hc.emitted_eq, hu.last, hc.table, OrdMap.get_insert utf8_injective]
    split
    · rename_i hd
      rw [hd, hc.prior]
      rfl
    · rfl
  · have hgrown : s.nodes <+: v.nodes := hw.nodes ▸ hu.grown.trans (List.prefix_append _ _)
    by_cases hd : d = a.detectorId
    · subst hd
      refine ⟨hgrown, ?_, ?_⟩
      · rw [hw.emitted_self hu.grown, hw.table, OrdMap.get_insert utf8_injective, if_pos rfl,
          List.getLast?_concat]
        exact congrArg some hw.stamped
      · rw [hw.emitted_self hu.grown]
        refine hu.apart.append (.singleton _) ?_
        intro m hm n' hn'
        cases hn'
        have hlast := hu.last
        rw [hm] at hlast
        obtain ⟨p, hp, hstamp⟩ := Option.map_eq_some_iff.1 hlast.symm
        exact ⟨p.at_, _, hstamp.symm, hw.stamped, secondApart_of_sub (hlate p hp)⟩
    · refine ⟨hgrown, ?_, ?_⟩
      · rw [hw.emitted_other hu.grown hd, hu.last, hw.table, OrdMap.get_insert utf8_injective,
          if_neg hd]
      · rw [hw.emitted_other hu.grown hd]
        exact hu.apart

/-- A call for the detector is accounted for, unless it is lost. -/
theorem Raised.accounted (h : Raised u a v) (hs : ¬ Collided v) (hg : s.nodes <+: u.nodes) :
    (d ≠ a.detectorId ∧ accounted d s v = accounted d s u) ∨
    (d = a.detectorId ∧ Lost u a ∧ accounted d s v = accounted d s u) ∨
    (d = a.detectorId ∧ ¬ Lost u a ∧ accounted d s v = accounted d s u + 1) := by
  by_cases hd : d = a.detectorId
  · subst hd
    refine .inr ?_
    rcases h.cases hs with ⟨p, hc⟩ | ⟨n, hw, hlate⟩
    · have hheld : held a.detectorId u = p.suppressed.toNat := by rw [held, hc.prior]; rfl
      unfold Substrate.accounted
      rw [hc.emitted_eq, hc.held_self, hheld, toNat_saturatingAdd_one]
      split
      · rename_i hfull
        exact .inl ⟨rfl, ⟨p, hc.prior, hc.soon, hfull⟩, rfl⟩
      · rename_i hfull
        refine .inr ⟨rfl, ?_, rfl⟩
        rintro ⟨q, hq, -, hfull'⟩
        cases hc.prior.symm.trans hq
        exact hfull hfull'
    · refine .inr ⟨rfl, fun ⟨p, hp, hsoon, _⟩ => hlate p hp hsoon, ?_⟩
      unfold Substrate.accounted
      rw [hw.emitted_self hg, hw.held_self, List.map_append, List.sum_append, List.map_singleton,
        List.sum_singleton, hw.reports]
      omega
  · refine .inl ⟨hd, ?_⟩
    unfold Substrate.accounted
    rcases h.cases hs with ⟨p, hc⟩ | ⟨n, hw, -⟩
    · rw [hc.emitted_eq, hc.held_other hd]
    · rw [hw.emitted_other hg hd, hw.held_other hd]

end

/-! ### A run of calls -/

theorem Raised.unique (s : ServerState env) (a : Alarm) (t u : ServerState env) (h : Raised s a t)
    (h' : Raised s a u) : t = u := by
  obtain ⟨r, hr⟩ := h
  obtain ⟨r', hr'⟩ := h'
  cases hr.symm.trans hr'
  rfl

theorem Raised.stays {s t : ServerState env} {a : Alarm} (h : Raised s a t) (hs : Collided s) :
    Collided t := by
  obtain ⟨r, he⟩ := h
  exact (quiet_emitImmuneSporocarp s r t he).stays hs

theorem spaced_start {d : String} {s : ServerState env} (h : s.immuneEmissionState = []) :
    Spaced d s s := by
  have hnil : emitted d s s = [] := by rw [emitted, List.drop_length, List.filter_nil]
  refine ⟨List.prefix_refl _, ?_, ?_⟩
  · rw [hnil, h]
    rfl
  · rw [hnil]
    exact .nil

theorem accounted_start {d : String} {s : ServerState env} (h : s.immuneEmissionState = []) :
    accounted d s s = 0 := by
  rw [accounted, emitted, List.drop_length, List.filter_nil, held, h]
  rfl

/-- The accounts of a run never exceed its calls, and match them just if none was lost. -/
theorem run_accounted {d : String} {s t : ServerState env} {as : List Alarm}
    (h0 : s.immuneEmissionState = []) (h : Path Raised s as t) (hs : ¬ Collided t) :
    Spaced d s t ∧ accounted d s t ≤ as.countP (·.detectorId = d) ∧
    (accounted d s t = as.countP (·.detectorId = d) ↔
      Path.Always Raised (fun u a _ => a.detectorId = d → ¬ Lost u a) s as t) := by
  induction as using List.reverseRecOn generalizing t with
  | nil =>
    cases Path.nil_iff.1 h
    refine ⟨spaced_start h0, (accounted_start h0).le, iff_of_true (accounted_start h0) ?_⟩
    intro ys x zs u v hnil
    cases ys <;> cases hnil
  | append_singleton as a ih =>
    obtain ⟨u, hu, hlast⟩ := Path.append_iff.1 h
    have hstep : Raised u a t := Path.singleton_iff.1 hlast
    obtain ⟨hspaced, hle, hiff⟩ := ih hu fun hc => hs (hstep.stays hc)
    rw [Path.always_concat_iff Raised.unique hu hstep, List.countP_append, List.countP_singleton,
      ← hiff]
    refine ⟨hstep.spaced hs hspaced, ?_⟩
    rcases @Raised.accounted _ d _ _ _ _ hstep hs hspaced.grown with
      ⟨hd, heq⟩ | ⟨rfl, hlost, heq⟩ | ⟨rfl, hkept, heq⟩
    · have hne : ¬ a.detectorId = d := fun h => hd h.symm
      simp only [hne, decide_false, Bool.false_eq_true, if_false, heq, false_implies, and_true,
        Nat.add_zero, hle]
    · simp only [decide_true, if_true, heq, hlost, not_true, true_implies, and_false, iff_false]
      omega
    · simp only [decide_true, if_true, heq, hkept, not_false_iff, true_implies, and_true]
      omega

/-- A detector's nodes and its count account for every call but the lost ones, and its nodes are a
second apart. -/
theorem immune_accounts {d : String} {s t : ServerState env} {as : List Alarm}
    (h0 : s.immuneEmissionState = []) (h : Path Raised s as t) (hs : ¬ Collided t) :
    (accounted d s t = as.countP (·.detectorId = d) ↔
      Path.Always Raised (fun u a _ => a.detectorId = d → ¬ Lost u a) s as t) ∧
    (emitted d s t).IsChain SecondApart := by
  obtain ⟨hspaced, -, hiff⟩ := @run_accounted _ d _ _ _ h0 h hs
  exact ⟨hiff, hspaced.apart⟩

/-! ### A clock that has come to its end -/

section

/-- The system's clock shows the last moment there is. -/
def lastMoment : Env := { smallEnv with clock := monotonicClock fun _ => Int64.maxValue }

def breach : Alarm := ⟨"C5", "attestation_invalid", ""⟩

theorem lastMoment_clock (n : Nat) : lastMoment.clock n = Int64.maxValue := by
  show monotonicClock _ n = _
  induction n with
  | zero => decide
  | succ n ih => rw [monotonicClock, ih]; decide

theorem firstBreach : ∃ u, Raised (stateOf lastMoment []) breach u ∧ ¬ Collided u ∧
    (emitted breach.detectorId (stateOf lastMoment []) u).map suppressedSince = [0] ∧
    ∃ hash, OrdMap.get breach.detectorId u.immuneEmissionState =
      some ⟨Int64.maxValue, hash, 0⟩ := by
  have hrun : (((emitImmuneSporocarp breach.detectorId breach.detectorName breach.evidence :
      Handler lastMoment NodeHash).exec (stateOf lastMoment [])).any
        fun p => p.2.ledger.calls.length == 1) = true := by
    decide
  obtain ⟨⟨r, u⟩, he, hcalls⟩ := (Option.any_eq_true _ _).1 hrun
  have hraised : Raised (stateOf lastMoment []) breach u := ⟨r, he⟩
  obtain ⟨c, hc⟩ := List.length_eq_one_iff.1 (beq_iff_eq.1 hcalls)
  have hsound : ¬ Collided u := by
    rw [Collided, not_not, Ledger.Sound, hc]
    intro m hm n hn _
    cases List.mem_singleton.1 hm
    cases List.mem_singleton.1 hn
    exact ⟨rfl, rfl⟩
  rcases hraised.cases hsound with ⟨p, hcounted⟩ | ⟨n, hw, -⟩
  · cases hcounted.prior
  · refine ⟨u, hraised, hsound, ?_, n.hash, ?_⟩
    · rw [hw.emitted_self (List.prefix_refl _), List.map_append, List.map_singleton, hw.reports]
      rfl
    · rw [hw.table, OrdMap.get_insert utf8_injective, if_pos rfl, lastMoment_clock]

theorem breach_counted {u : ServerState lastMoment} {p : ImmuneEmission}
    (hp : OrdMap.get breach.detectorId u.immuneEmissionState = some p)
    (hat : p.at_ = Int64.maxValue) : ∃ v, Raised u breach v ∧ v.ledger = u.ledger ∧
      OrdMap.get breach.detectorId v.immuneEmissionState =
        some { p with suppressed := saturatingAdd p.suppressed 1 } := by
  have hsoon : saturatingSubI64 (lastMoment.clock u.readings) p.at_ <
      immuneEmissionRateLimitNs := by
    rw [lastMoment_clock, hat]
    decide
  have he : (emitImmuneSporocarp breach.detectorId breach.detectorName breach.evidence :
      Handler lastMoment NodeHash).exec u =
      some (.ok p.hash, { u with readings := u.readings + 1 }.recordImmune breach.detectorId
        { p with suppressed := saturatingAdd p.suppressed 1 }) := by
    rw [emitImmuneSporocarp, readClock]
    simp only [bind_assoc, Prog.exec_get_bind, Prog.exec_modify_bind, pure_bind, hp, hsoon, if_true]
    rfl
  exact ⟨_, ⟨_, he⟩, rfl, (OrdMap.get_insert utf8_injective).trans (if_pos rfl)⟩

theorem breach_run (k : Nat) {u : ServerState lastMoment} {p : ImmuneEmission}
    (hp : OrdMap.get breach.detectorId u.immuneEmissionState = some p)
    (hat : p.at_ = Int64.maxValue) : ∃ t, Path Raised u (List.replicate k breach) t ∧
      t.ledger = u.ledger ∧
      held breach.detectorId t = min (p.suppressed.toNat + k) (2 ^ 64 - 1) := by
  induction k generalizing u p with
  | zero =>
    refine ⟨u, .nil, rfl, ?_⟩
    have hlt : p.suppressed.toNat < 2 ^ 64 := p.suppressed.toNat_lt
    rw [held, hp]
    show p.suppressed.toNat = _
    omega
  | succ k ih =>
    obtain ⟨v, hv, hl, hpv⟩ := breach_counted hp hat
    obtain ⟨t, ht, hl', hheld⟩ := ih hpv hat
    refine ⟨t, .cons hv ht, hl'.trans hl, hheld.trans ?_⟩
    rw [toNat_saturatingAdd_one]
    split <;> omega

theorem breaches (k : Nat) : ∃ t,
    Path Raised (stateOf lastMoment []) (List.replicate (k + 1) breach) t ∧ ¬ Collided t ∧
    accounted breach.detectorId (stateOf lastMoment []) t =
      1 + min k (2 ^ 64 - 1) := by
  obtain ⟨u, hu, hsound, hfirst, hash, hp⟩ := firstBreach
  obtain ⟨t, ht, hl, hheld⟩ := breach_run k hp rfl
  have hn : t.nodes = u.nodes := congrArg Ledger.nodes hl
  have hsum : ((emitted breach.detectorId (stateOf lastMoment []) u).map
      fun n => 1 + suppressedSince n).sum = 1 := by
    rw [← Function.comp_def (1 + ·), ← List.map_map, hfirst]
    rfl
  refine ⟨t, .cons hu ht, by rwa [Collided, hl], ?_⟩
  rw [accounted, emitted, hn, ← emitted, hsum, hheld]
  show 1 + min (0 + k) _ = _
  rw [Nat.zero_add]

/-- After 2^64 calls that were suppressed, one is in no account. -/
theorem immune_accounts_full : ∃ as, ∃ t : ServerState lastMoment,
    Path Raised (stateOf lastMoment []) as t ∧ ¬ Collided t ∧
    accounted breach.detectorId (stateOf lastMoment []) t ≠
      as.countP (·.detectorId = breach.detectorId) := by
  obtain ⟨k, hk⟩ : ∃ k, k = 2 ^ 64 := ⟨_, rfl⟩
  obtain ⟨t, ht, hsound, hacc⟩ := breaches k
  refine ⟨_, t, ht, hsound, ?_⟩
  rw [hacc, List.countP_replicate, if_pos (decide_eq_true rfl)]
  omega

/-- Two calls within a second are one node and one that is held. -/
theorem immune_accounts_two : ∃ t : ServerState lastMoment,
    Path Raised (stateOf lastMoment []) [breach, breach] t ∧
    (accounted breach.detectorId (stateOf lastMoment []) t =
      [breach, breach].countP (·.detectorId = breach.detectorId) ↔
      Path.Always Raised (fun u a _ => a.detectorId = breach.detectorId → ¬ Lost u a)
        (stateOf lastMoment []) [breach, breach] t) ∧
    (emitted breach.detectorId (stateOf lastMoment []) t).IsChain SecondApart := by
  obtain ⟨u, hu, hsound, -, hash, hp⟩ := firstBreach
  obtain ⟨v, hv, hl, -⟩ := breach_counted hp rfl
  have hpath : Path Raised (stateOf lastMoment []) [breach, breach] v := .cons hu (.cons hv .nil)
  exact ⟨v, hpath, immune_accounts rfl hpath (by rwa [Collided, hl])⟩

end

end Myco.Substrate
