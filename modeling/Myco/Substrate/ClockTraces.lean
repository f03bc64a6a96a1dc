import Mathlib.Order.Bounds.Basic
import Myco.Canonical.Length
import Myco.Substrate.ImmuneAccounts

/-!
# Alarms under any clock

The system's clock may jump ahead and be set back, and the ratchet of `wall_clock.rs` then goes on
by a nanosecond a reading until the system has caught up. What the ratchet shows is the furthest of
the readings so far, each moved on by a nanosecond for every reading since (`clock_isGreatest`).

`AlarmsHeard` says of a trace of readings that no detector falls silent: of two calls in a row that
are a second apart by the system's clock, the later writes a node, or one did in the second before.
That is so just if the ratchet keeps up with the system (`heard_iff_keepsUp`).
-/

namespace Myco.Substrate

open Myco.Lib Myco.Canonical Myco.Schema

variable {env : Env} {observed : Nat → Int64}

/-! ### The ratchet -/

/-- What the ratchet has been told; it starts from the epoch. -/
def told (observed : Nat → Int64) : Nat → Int
  | 0 => 0
  | k + 1 => (observed k).toInt

/-- What the ratchet has been told at `k`, moved on by a nanosecond for every reading up to the
`n`-th, which ends at the last moment there is. -/
def movedOn (observed : Nat → Int64) (n k : Nat) : Int :=
  min (2 ^ 63 - 1) (told observed k + (n - k))

theorem toInt_saturatingAddI64_one {a : Int64} :
    (saturatingAddI64 a 1).toInt = min (2 ^ 63 - 1) (a.toInt + 1) := by
  have hlo := a.le_toInt
  have hone : (1 : Int64).toInt = 1 := by decide
  rw [saturatingAddI64, hone, max_eq_right (by omega),
    Int64.toInt_ofInt_of_le (by omega) (by omega)]

theorem toInt_monotonicUnixNs {o last : Int64} :
    (monotonicUnixNs o last).toInt = max o.toInt (min (2 ^ 63 - 1) (last.toInt + 1)) := by
  have ho := o.toInt_lt
  unfold monotonicUnixNs
  by_cases h : o > last
  · have := Int64.lt_iff_toInt_lt.1 h
    rw [if_pos h]
    omega
  · have := mt Int64.lt_iff_toInt_lt.2 h
    rw [if_neg h, toInt_saturatingAddI64_one]
    omega

theorem told_le {k : Nat} : told observed k ≤ 2 ^ 63 - 1 := by
  cases k with
  | zero => exact (by decide : (0 : Int) ≤ 2 ^ 63 - 1)
  | succ k =>
    have := (observed k).toInt_lt
    show (observed k).toInt ≤ _
    omega

theorem movedOn_succ {n k : Nat} :
    movedOn observed (n + 1) k = min (2 ^ 63 - 1) (movedOn observed n k + 1) := by
  unfold movedOn
  push_cast
  omega

theorem movedOn_self {n : Nat} : movedOn observed n n = told observed n := by
  have := @told_le observed n
  unfold movedOn
  omega

theorem isGreatest_succ {n : Nat} {last : Int}
    (h : IsGreatest (movedOn observed n '' Set.Iic n) last) :
    IsGreatest (movedOn observed (n + 1) '' Set.Iic (n + 1))
      (max (told observed (n + 1)) (min (2 ^ 63 - 1) (last + 1))) := by
  obtain ⟨⟨k, hk, rfl⟩, hle⟩ := h
  constructor
  · rcases max_choice (told observed (n + 1)) (min (2 ^ 63 - 1) (movedOn observed n k + 1)) with
      hm | hm
    · exact ⟨n + 1, Set.mem_Iic.2 (le_refl _), movedOn_self.trans hm.symm⟩
    · exact ⟨k, Set.mem_Iic.2 (Nat.le_succ_of_le hk), movedOn_succ.trans hm.symm⟩
  · rintro x ⟨l, hl, rfl⟩
    rcases Nat.le_succ_iff.1 (Set.mem_Iic.1 hl) with hl | rfl
    · have := hle ⟨l, Set.mem_Iic.2 hl, rfl⟩
      rw [movedOn_succ]
      omega
    · rw [movedOn_self]
      exact le_max_left _ _

/-- The ratchet shows the furthest of what it has been told, moved on. -/
theorem clock_isGreatest (n : Nat) :
    IsGreatest (movedOn observed (n + 1) '' Set.Iic (n + 1)) (monotonicClock observed n).toInt := by
  induction n with
  | zero =>
    have h0 : IsGreatest (movedOn observed 0 '' Set.Iic 0) 0 := by
      refine ⟨⟨0, Set.mem_Iic.2 (le_refl _), movedOn_self⟩, ?_⟩
      rintro x ⟨k, hk, rfl⟩
      rw [Nat.le_zero.1 (Set.mem_Iic.1 hk), movedOn_self]
      exact le_refl (0 : Int)
    rw [monotonicClock, toInt_monotonicUnixNs]
    exact isGreatest_succ h0
  | succ n ih =>
    rw [monotonicClock, toInt_monotonicUnixNs]
    exact isGreatest_succ ih

/-- By the `j`-th reading the ratchet has gone on by a second from where it was at the `i`-th: some
reading is a second past every reading up to the `i`-th. -/
def KeepsUp (observed : Nat → Int64) (i j : Nat) : Prop :=
  ∃ l ≤ j + 1, ∀ k ≤ i + 1,
    movedOn observed (i + 1) k + immuneEmissionRateLimitNs.toInt ≤ movedOn observed (j + 1) l

theorem keepsUp_iff {i j : Nat} : KeepsUp observed i j ↔
    (monotonicClock observed i).toInt + immuneEmissionRateLimitNs.toInt ≤
      (monotonicClock observed j).toInt := by
  obtain ⟨⟨k, hk, hki⟩, hi⟩ := @clock_isGreatest observed i
  obtain ⟨⟨l, hl, hlj⟩, hj⟩ := @clock_isGreatest observed j
  constructor
  · rintro ⟨l', hl', h⟩
    exact hki ▸ (h k hk).trans (hj ⟨l', hl', rfl⟩)
  · exact fun h => ⟨l, hl, fun k' hk' =>
      (Int.add_le_add_right (hi ⟨k', hk', rfl⟩) _).trans (h.trans hlj.ge)⟩

theorem monotonicClock_mono {i j : Nat} (h : i ≤ j) :
    (monotonicClock observed i).toInt ≤ (monotonicClock observed j).toInt := by
  induction h with
  | refl => exact le_refl _
  | @step j _ ih =>
    have := (monotonicClock observed j).toInt_lt
    rw [monotonicClock, toInt_monotonicUnixNs]
    omega

/-! ### Calls in a process -/

/-- The environment whose clock is the ratchet over these readings. -/
def ratcheted (env : Env) (observed : Nat → Int64) : Env :=
  { env with clock := monotonicClock observed }

/-- What happens in a process: a call, or anything else, which may read the clock but leaves alone
what the rate limit knows. -/
inductive Occurrence (env : Env) where
  | alarm (a : Alarm)
  | elsewhere (t : ServerState env)

inductive Occurs : ServerState env → Occurrence env → ServerState env → Prop
  | alarm {s t : ServerState env} {a : Alarm} (h : Raised s a t) : Occurs s (.alarm a) t
  | elsewhere {s t : ServerState env} (table : t.immuneEmissionState = s.immuneEmissionState)
      (readings : s.readings ≤ t.readings) (collided : Collided s → Collided t) :
      Occurs s (.elsewhere t) t

/-- The call writes a node. -/
def Wrote (s t : ServerState env) : Prop := ∃ n, t.nodes = s.nodes ++ [n]

/-- In the run from `s` to `v` a call of the detector wrote a node less than a second before this
reading of the system's clock. -/
def WroteWithin (observed : Nat → Int64) (d : String) (s : ServerState env)
    (xs : List (Occurrence env)) (v : ServerState env) (reading : Int) : Prop :=
  ∃ ys a zs w w', xs = ys ++ .alarm a :: zs ∧ Path Occurs s ys w ∧ Raised w a w' ∧
    Path Occurs w' zs v ∧ a.detectorId = d ∧ Wrote w w' ∧
    reading < (observed w.readings).toInt + immuneEmissionRateLimitNs.toInt ∧
    (observed w.readings).toInt ≤ reading

/-- The later of two calls of the detector that follow one another, a second apart by the system's
clock, writes a node, or an earlier one did within the second before. -/
def AlarmsHeard (env : Env) (observed : Nat → Int64) (d : String) : Prop :=
  ∀ (s u u' v v' : ServerState (ratcheted env observed)) (a b : Alarm)
    (xs ys : List (Occurrence (ratcheted env observed))),
    s.immuneEmissionState = [] → s.readings = 0 →
    Path Occurs s xs u → Raised u a u' → Path Occurs u' ys v → Raised v b v' → ¬ Collided v' →
    a.detectorId = d → b.detectorId = d → (∀ c, .alarm c ∈ ys → c.detectorId ≠ d) →
    (observed u.readings).toInt + immuneEmissionRateLimitNs.toInt ≤
      (observed v.readings).toInt →
    Wrote v v' ∨ WroteWithin observed d s (xs ++ .alarm a :: ys) v (observed v.readings).toInt

variable {s t u v : ServerState env} {a : Alarm}

theorem emitFresh_readings {at_ : Int64} {k : UInt64} {r : Except SubstrateError NodeHash}
    (he : (emitFresh a.detectorId a.detectorName a.evidence at_ k :
      Handler env NodeHash).exec s = some (r, t)) : t.readings = s.readings := by
  rw [emitFresh, Prog.exec_get_bind] at he
  rcases Prog.exec_bind_eq_some.1 he with ⟨e, h1, -⟩ | ⟨hash, w, h1, h2⟩
  · exact (exec_insertNode_table h1).2
  · cases h2
    exact (exec_insertNode_table h1).2

/-- A call reads the clock once. -/
theorem Raised.readings (h : Raised s a t) : t.readings = s.readings + 1 := by
  obtain ⟨r, he⟩ := h
  rw [emitImmuneSporocarp, readClock] at he
  simp only [bind_assoc, Prog.exec_get_bind, Prog.exec_modify_bind, pure_bind] at he
  cases hp : OrdMap.get a.detectorId s.immuneEmissionState with
  | none =>
    simp only [hp] at he
    exact emitFresh_readings he
  | some p =>
    simp only [hp] at he
    split at he
    · cases he
      rfl
    · exact emitFresh_readings he

theorem Occurs.stays {x : Occurrence env} (h : Occurs s x t) (hs : Collided s) : Collided t := by
  cases h with
  | alarm h => exact h.stays hs
  | elsewhere _ _ collided => exact collided hs

theorem not_collided {xs : List (Occurrence env)} (h : Path Occurs s xs t) (ht : ¬ Collided t) :
    ¬ Collided s := fun hs => ht (h.keeps (fun _ _ _ hx => hx.stays) hs)

theorem Occurs.readings_le {x : Occurrence env} (h : Occurs s x t) : s.readings ≤ t.readings := by
  cases h with
  | alarm h => exact h.readings ▸ Nat.le_succ _
  | elsewhere _ readings _ => exact readings

/-- What the rate limit knows was read from the clock. -/
def Stamped (s : ServerState env) : Prop :=
  ∀ d p, OrdMap.get d s.immuneEmissionState = some p → ∃ l < s.readings, p.at_ = env.clock l

theorem Raised.stamped (h : Raised s a t) (ht : ¬ Collided t) (hs : Stamped s) : Stamped t := by
  intro d p hp
  have hreadings := h.readings
  rcases h.cases ht with ⟨q, hc⟩ | ⟨n, hw, -⟩
  · rw [hc.table, OrdMap.get_insert utf8_injective] at hp
    split at hp
    · cases hp
      obtain ⟨l, hl, hat⟩ := hs _ _ hc.prior
      exact ⟨l, by omega, hat⟩
    · obtain ⟨l, hl, hat⟩ := hs _ _ hp
      exact ⟨l, by omega, hat⟩
  · rw [hw.table, OrdMap.get_insert utf8_injective] at hp
    split at hp
    · cases hp
      exact ⟨s.readings, by omega, rfl⟩
    · obtain ⟨l, hl, hat⟩ := hs _ _ hp
      exact ⟨l, by omega, hat⟩

theorem Occurs.stamped {x : Occurrence env} (h : Occurs s x t) (ht : ¬ Collided t)
    (hs : Stamped s) : Stamped t := by
  cases h with
  | alarm h => exact h.stamped ht hs
  | elsewhere table readings _ =>
    intro d p hp
    obtain ⟨l, hl, hat⟩ := hs d p (table ▸ hp)
    exact ⟨l, hl.trans_le readings, hat⟩

theorem run_stamped {xs : List (Occurrence env)} (h : Path Occurs s xs t) (ht : ¬ Collided t)
    (hs : s.immuneEmissionState = []) : Stamped t := by
  have hrun : Collided t ∨ Stamped t := by
    refine h.keeps (I := fun u => Collided u ∨ Stamped u) (fun u x v hx hu => ?_) (.inr ?_)
    · by_cases hv : Collided v
      · exact .inl hv
      · exact .inr (hx.stamped hv (hu.resolve_left fun hc => hv (hx.stays hc)))
    · intro d p hp
      rw [hs] at hp
      cases hp
  exact hrun.resolve_left ht

/-- The last call of a detector is known at its stamp. -/
theorem Raised.known (h : Raised s a t) (ht : ¬ Collided t) (hs : Stamped s) :
    ∃ p, OrdMap.get a.detectorId t.immuneEmissionState = some p ∧
      ∃ l ≤ s.readings, p.at_ = env.clock l := by
  rcases h.cases ht with ⟨q, hc⟩ | ⟨n, hw, -⟩
  · obtain ⟨l, hl, hat⟩ := hs _ _ hc.prior
    refine ⟨{ q with suppressed := saturatingAdd q.suppressed 1 }, ?_, l, hl.le, hat⟩
    rw [hc.table, OrdMap.get_insert utf8_injective, if_pos rfl]
  · refine ⟨⟨env.clock s.readings, n.hash, 0⟩, ?_, s.readings, le_refl _, rfl⟩
    rw [hw.table, OrdMap.get_insert utf8_injective, if_pos rfl]

/-- Nothing but its calls changes what is known of a detector. -/
theorem known_kept {d : String} {ys : List (Occurrence env)} (h : Path Occurs u ys v)
    (hv : ¬ Collided v) (hd : ∀ c, .alarm c ∈ ys → c.detectorId ≠ d) :
    OrdMap.get d v.immuneEmissionState = OrdMap.get d u.immuneEmissionState := by
  induction h with
  | nil => rfl
  | @cons s t v x xs hx hrest ih =>
    rw [ih hv fun c hc => hd c (List.mem_cons_of_mem _ hc)]
    have ht := not_collided hrest hv
    cases hx with
    | elsewhere table _ _ => rw [table]
    | alarm hr =>
      rename_i c
      have hne : ¬ d = c.detectorId := fun h => hd c List.mem_cons_self h.symm
      rcases hr.cases ht with ⟨q, hc⟩ | ⟨n, hw, -⟩
      · rw [hc.table, OrdMap.get_insert utf8_injective, if_neg hne]
      · rw [hw.table, OrdMap.get_insert utf8_injective, if_neg hne]

theorem soon_iff {x y : Int64} : saturatingSubI64 y x < immuneEmissionRateLimitNs ↔
    y.toInt < x.toInt + immuneEmissionRateLimitNs.toInt := by
  have hlimit : immuneEmissionRateLimitNs.toInt = 1000000000 := by decide
  rw [Int64.lt_iff_toInt_lt, saturatingSubI64,
    Int64.toInt_ofInt_of_le (le_max_left _ _) (by omega)]
  omega

/-- Where the ratchet keeps up, the later of two calls writes a node. -/
theorem wrote_of_keepsUp {s u u' v v' : ServerState (ratcheted env observed)} {a b : Alarm}
    {xs ys : List (Occurrence (ratcheted env observed))} (hs : s.immuneEmissionState = [])
    (hu : Path Occurs s xs u) (ha : Raised u a u') (hv : Path Occurs u' ys v) (hb : Raised v b v')
    (hsound : ¬ Collided v') (hab : a.detectorId = b.detectorId)
    (hys : ∀ c, .alarm c ∈ ys → c.detectorId ≠ b.detectorId)
    (hkeeps : KeepsUp observed u.readings v.readings) : Wrote v v' := by
  have hsv : ¬ Collided v := fun hc => hsound (hb.stays hc)
  have hsu' := not_collided hv hsv
  have hsu : ¬ Collided u := fun hc => hsu' (ha.stays hc)
  obtain ⟨p, hp, l, hl, hat⟩ := ha.known hsu' (run_stamped hu hsu hs)
  rw [hab, ← known_kept hv hsv hys] at hp
  rcases hb.cases hsound with ⟨q, hc⟩ | ⟨n, hw, -⟩
  · exfalso
    cases hp.symm.trans hc.prior
    have hsoon := soon_iff.1 hc.soon
    rw [hat] at hsoon
    have hmono := @monotonicClock_mono observed _ _ hl
    have hfar := keepsUp_iff.1 hkeeps
    have hlt : (monotonicClock observed v.readings).toInt <
        (monotonicClock observed l).toInt + immuneEmissionRateLimitNs.toInt := hsoon
    omega
  · exact ⟨n, hw.nodes⟩

/-! ### Silence -/

/-- The node of a first breach. -/
def breachEntries (at_ : Int64) : List (String × Value) :=
  [("detector_id", .string breach.detectorId), ("detector_name", .string breach.detectorName),
    ("evidence", .string breach.evidence), ("timestamp_unix_ns", .timestamp at_)]

theorem breachEntries_length (at_ : Int64) : (cbEncode (breachEntries at_)).length ≤ isizeMax := by
  have hkeys : ((breachEntries at_).map Prod.fst).Nodup := by
    show ["detector_id", "detector_name", "evidence", "timestamp_unix_ns"].Nodup
    decide
  have hkeySizes : keySize "detector_id" = 13 ∧ keySize "detector_name" = 15 ∧
      keySize "evidence" = 10 ∧ keySize "timestamp_unix_ns" = 19 := by decide
  have hvalues : (Value.string breach.detectorId).size + (Value.string breach.detectorName).size +
      (Value.string breach.evidence).size = 27 := by decide
  obtain ⟨h1, h2, h3, h4⟩ := hkeySizes
  have hcount := @lenVarint_length_le (breachEntries at_).length
  rw [cbEncode, encode_length encode_eq_contentOf, size_mapOf hkeys, isizeMax]
  simp only [breachEntries, List.map_cons, List.map_nil, List.sum_cons, List.sum_nil, h1, h2, h3,
    h4] at hcount ⊢
  have hstamp : (Value.timestamp at_).size = 9 := rfl
  omega

theorem emitFresh_first (hs : s.ledger = .new) (at_ : Int64) : ∃ r t c,
    (emitFresh breach.detectorId breach.detectorName breach.evidence at_ 0 :
      Handler env NodeHash).exec s = some (r, t) ∧ t.ledger = s.ledger.push c := by
  have hnone : entryIf "suppressed_since_last_emission" Value.uint
      (if (0 : UInt64) > 0 then some 0 else none) = [] := rfl
  rw [emitFresh, Prog.exec_get_bind]
  simp only [hnone, List.append_nil]
  rw [Prog.exec_bind, exec_insertNode, if_pos, Option.bind_some]
  · dsimp only
    cases Ledger.answer _ _ <;> exact ⟨_, _, _, rfl, rfl⟩
  · refine ⟨breachEntries_length at_, ?_⟩
    rw [hs]
    exact (by decide : 32 * (0 + 1) ≤ isizeMax)

/-- A call writes a node where nothing has been logged. -/
theorem raised_first (hs : s.ledger = .new) (hempty : s.immuneEmissionState = []) :
    ∃ t, Raised s breach t ∧ ¬ Collided t := by
  obtain ⟨r, t, c, he, hl⟩ := emitFresh_first
    (show ({ s with readings := s.readings + 1 } : ServerState env).ledger = .new from hs)
    (env.clock s.readings)
  refine ⟨t, ⟨r, ?_⟩, ?_⟩
  · rw [emitImmuneSporocarp, readClock]
    simp only [bind_assoc, Prog.exec_get_bind, Prog.exec_modify_bind, pure_bind, hempty,
      OrdMap.get_nil]
    simpa only [hempty] using he
  · rw [Collided, not_not, hl, show ({ s with readings := s.readings + 1 } :
      ServerState env).ledger = .new from hs]
    intro m hm n hn _
    cases List.mem_singleton.1 hm
    cases List.mem_singleton.1 hn
    exact ⟨rfl, rfl⟩

/-- A call that the ratchet has not gone on a second for is suppressed. -/
theorem raised_soon {p : ImmuneEmission}
    (hp : OrdMap.get a.detectorId s.immuneEmissionState = some p)
    (hsoon : saturatingSubI64 (env.clock s.readings) p.at_ < immuneEmissionRateLimitNs) :
    ∃ t, Raised s a t ∧ t.ledger = s.ledger := by
  refine ⟨{ s with readings := s.readings + 1 }.recordImmune a.detectorId
    { p with suppressed := saturatingAdd p.suppressed 1 }, ⟨.ok p.hash, ?_⟩, rfl⟩
  rw [emitImmuneSporocarp, readClock]
  simp only [bind_assoc, Prog.exec_get_bind, Prog.exec_modify_bind, pure_bind, hp, hsoon, if_true]
  rfl

/-- Where the ratchet falls behind, a detector whose first calls are a second apart is silent. -/
theorem not_heard {i j : Nat} (hij : i < j)
    (hobs : (observed i).toInt + immuneEmissionRateLimitNs.toInt ≤ (observed j).toInt)
    (hkeeps : ¬ KeepsUp observed i j) : ¬ AlarmsHeard env observed breach.detectorId := by
  intro h
  obtain ⟨s, hs⟩ : ∃ s : ServerState (ratcheted env observed), s = stateOf _ [] := ⟨_, rfl⟩
  obtain ⟨u, hu⟩ : ∃ u, u = { s with readings := i } := ⟨_, rfl⟩
  have hempty : u.immuneEmissionState = [] := by rw [hu, hs]; rfl
  have hread : u.readings = i := by rw [hu]
  obtain ⟨u', ha, hsound⟩ := raised_first (show u.ledger = .new by rw [hu, hs]; rfl) hempty
  obtain ⟨v, hv⟩ : ∃ v, v = { u' with readings := j } := ⟨_, rfl⟩
  have hprior : ∃ hash, OrdMap.get breach.detectorId v.immuneEmissionState =
      some ⟨monotonicClock observed i, hash, 0⟩ := by
    rcases ha.cases hsound with ⟨p, hc⟩ | ⟨n, hw, -⟩
    · have := hc.prior
      rw [hempty] at this
      cases this
    · refine ⟨n.hash, ?_⟩
      rw [hv]
      show OrdMap.get breach.detectorId u'.immuneEmissionState = _
      rw [hw.table, OrdMap.get_insert utf8_injective, if_pos rfl, hread]
      rfl
  obtain ⟨hash, hp⟩ := hprior
  have hsoon : saturatingSubI64 (monotonicClock observed v.readings) (monotonicClock observed i) <
      immuneEmissionRateLimitNs := by
    rw [hv]
    exact soon_iff.2 (lt_of_not_ge (mt keepsUp_iff.2 hkeeps))
  obtain ⟨v', hb, hl⟩ := raised_soon hp hsoon
  have hnodes : v'.nodes = v.nodes := congrArg Ledger.nodes hl
  have hlog : v'.ledger = u'.ledger := by rw [hl, hv]
  have hpre : Path Occurs s [.elsewhere u] u :=
    Path.singleton_iff.2 (.elsewhere (by rw [hu]) (by rw [hs]; exact Nat.zero_le _)
      fun hc => by rw [hu]; exact hc)
  have hmid : Path Occurs u' [.elsewhere v] v :=
    Path.singleton_iff.2 (.elsewhere (by rw [hv]) (by rw [hv, ha.readings, hread]; exact hij)
      fun hc => by rw [hv]; exact hc)
  have hlate : (observed u.readings).toInt + immuneEmissionRateLimitNs.toInt ≤
      (observed v.readings).toInt := by
    rw [hread, hv]
    exact hobs
  rcases h s u u' v v' breach breach _ _ (by rw [hs]; rfl) (by rw [hs]; rfl) hpre ha hmid hb
    (by rwa [Collided, hlog]) rfl rfl (fun c hc => by simp at hc) hlate with
    ⟨n, hn⟩ | ⟨xs, a, zs, w, w', hxs, hw, -, -, -, -, hwithin, -⟩
  · rw [hnodes] at hn
    exact absurd (congrArg List.length hn) (by simp)
  · -- the first of the calls is the only one before, and it is too long ago
    have hfirst : xs = [.elsewhere u] := by
      rcases xs with _ | ⟨x, _ | ⟨y, _ | ⟨z, xs⟩⟩⟩
      · cases hxs
      · cases hxs
        rfl
      · cases hxs
      · have := congrArg List.length hxs
        simp only [List.length_append, List.length_cons, List.length_nil] at this
        omega
    rw [hfirst] at hw
    have hwu : w = u := by
      cases Path.singleton_iff.1 hw
      rfl
    rw [hwu] at hwithin
    omega

/-- Every detector is heard just if the ratchet keeps up between any two readings of the system's
clock that are a second apart. -/
theorem heard_iff_keepsUp : (∀ d, AlarmsHeard env observed d) ↔
    ∀ i j, i < j → (observed i).toInt + immuneEmissionRateLimitNs.toInt ≤ (observed j).toInt →
      KeepsUp observed i j := by
  constructor
  · intro h i j hij hobs
    by_contra hkeeps
    exact not_heard hij hobs hkeeps (h breach.detectorId)
  · rintro h d s u u' v v' a b xs ys hs - hu ha hv hb hsound had hbd hys hlate
    have hlt : u.readings < v.readings := by
      have hle : u'.readings ≤ v.readings := hv.keeps (I := fun t => u'.readings ≤ t.readings)
        (fun t x t' hx ht => ht.trans hx.readings_le) (le_refl _)
      have := ha.readings
      omega
    exact .inl (wrote_of_keepsUp hs hu ha hv hb hsound (had.trans hbd.symm)
      (fun c hc => hbd ▸ hys c hc) (h _ _ hlt hlate))

/-- The clock jumps ahead by decades, is set right again, and goes on by two seconds a reading. -/
def jump : Nat → Int64
  | 0 => 4000000000000000000
  | n + 1 => Int64.ofInt (1700000000000000000 + 2000000000 * n)

/-- After the jump a detector is silent: of two calls that are two seconds apart the later is
suppressed. -/
theorem silent_after_jump : ¬ AlarmsHeard smallEnv jump breach.detectorId := by
  refine not_heard (show 1 < 2 by decide) (by decide) ?_
  rw [keepsUp_iff]
  decide

end Myco.Substrate
