import Myco.Tropism.Plays

/-!
# How idle cycles are paced

A batch of idle cycles is cut short before the post-cycle of a scan, so every multiple of the
interval that the counter reaches is reached by a real cycle, which scans (`rounds_scan`). A batch is
also kept shorter than the threshold of hunger. But a request seals a batch without a cycle, and so
does a tick whose cycle fails, and the next batch starts at zero: how far the counter moves between
two real cycles is bounded only as long as no idle cycle is counted after that (`rounds_pace`).
-/

namespace Myco.Tropism

open Myco.Lib Myco.Canonical Myco.Schema Myco.Substrate Myco.Federation Myco.Prune

variable {env : Env} {rt : Runtime}

/-! ### Scans -/

/-- The real cycles among some rounds. -/
def realCycles (xs : List (Event × Option (RealCycle rt))) : List (RealCycle rt) :=
  xs.filterMap Prod.snd

theorem realCycles_concat {xs : List (Event × Option (RealCycle rt))} {e : Event}
    {x : Option (RealCycle rt)} : realCycles (xs ++ [(e, x)]) = realCycles xs ++ x.toList := by
  cases x <;> simp [realCycles]

theorem shouldRunPruneScan_iff {c : UInt64} :
    shouldRunPruneScan c = true ↔ 0 < c.toNat ∧ 100 ∣ c.toNat := by
  rw [shouldRunPruneScan, Bool.and_eq_true, decide_eq_true_iff, beq_iff_eq, gt_iff_lt,
    UInt64.lt_iff_toNat_lt, ← UInt64.toNat_inj, UInt64.toNat_mod, Nat.dvd_iff_mod_eq_zero]
  rfl

/-- Every multiple that the counter has reached, coming from `start`, was reached by a real cycle
that has scanned; and no cycle that is pending is one. -/
structure Scans (start : UInt64) (xs : List (Event × Option (RealCycle rt))) (s : ServerState env) :
    Prop where
  reached : ∀ v : UInt64, start.toNat < v.toNat → v.toNat ≤ s.cycleCounter.toNat → 100 ∣ v.toNat →
    ∃ x ∈ realCycles xs, x.counter = v ∧ x.response.cycleNumber = v ∧ x.response.pruneScan.isSome
  pending : ∀ v : UInt64, s.cycleCounter.toNat < v.toNat →
    v.toNat ≤ s.cycleCounter.toNat + s.pendingSelfDrivenNoopCycles.toNat → ¬ 100 ∣ v.toNat
  short : s.pendingSelfDrivenNoopCycles.toNat ≤ 8

section

variable {start : UInt64} {xs : List (Event × Option (RealCycle rt))} {e : Event}
  {x : Option (RealCycle rt)} {h t h' : Host env rt}

/-- Sealing passes no multiple. -/
theorem Sealing.scans (hs : Sealing h t) (hi : Scans start xs h.server) :
    Scans start xs t.server := by
  refine ⟨fun v hv hle hd => hi.reached v hv ?_ hd, fun v hlt hle => ?_, ?_⟩
  · by_contra hnot
    rcases hs.counter with hc | hc
    · exact hnot (hc ▸ hle)
    · rw [hc, saturatingAdd_toNat] at hle
      exact hi.pending v (by omega) (by omega) hd
  · rw [hs.pending] at hle
    simp only [UInt64.toNat_zero] at hle
    omega
  · rw [hs.pending]
    simp

theorem Moves.scans (hm : Moves e h x h') (hi : Scans start xs h.server) :
    Scans start (xs ++ [(e, x)]) h'.server := by
  have hmore : ∀ {ys zs : List (RealCycle rt)} {v : UInt64}, (∃ x ∈ ys, x.counter = v ∧
      x.response.cycleNumber = v ∧ x.response.pruneScan.isSome = true) → ∃ x ∈ ys ++ zs,
        x.counter = v ∧ x.response.cycleNumber = v ∧ x.response.pruneScan.isSome = true :=
    fun ⟨x, hx, hv⟩ => ⟨x, List.mem_append_left _ hx, hv⟩
  cases hm with
  | stopped hc hp =>
    refine ⟨?_, ?_, ?_⟩
    · rw [realCycles_concat, hc]
      exact fun v h1 h2 h3 => hmore (hi.reached v h1 h2 h3)
    · rw [hc, hp]
      exact hi.pending
    · rw [hp]
      exact hi.short
  | counted hcount hc hp =>
    obtain ⟨-, -, -, hcap, hscan⟩ := hcount
    have hshort := hi.short
    have hcap : h.server.pendingSelfDrivenNoopCycles.toNat + 1 < 9 := by
      have := UInt64.lt_iff_toNat_lt.1 hcap
      rw [UInt64.toNat_add] at this
      have hnine : selfDrivenBatchMax.toNat = 9 := rfl
      have hone : (1 : UInt64).toNat = 1 := rfl
      omega
    have hpending : h'.server.pendingSelfDrivenNoopCycles.toNat =
        h.server.pendingSelfDrivenNoopCycles.toNat + 1 := by
      rw [hp, UInt64.toNat_add]
      have hone : (1 : UInt64).toNat = 1 := rfl
      omega
    refine ⟨?_, fun v hlt hle hd => ?_, by omega⟩
    · rw [realCycles_concat, hc]
      exact fun v h1 h2 h3 => hmore (hi.reached v h1 h2 h3)
    · rw [hc] at hlt hle
      by_cases hlast : v.toNat ≤ h.server.cycleCounter.toNat +
          h.server.pendingSelfDrivenNoopCycles.toNat
      · exact hi.pending v hlt hlast hd
      · -- this is the post-cycle that was asked about
        have hv : saturatingAdd (saturatingAdd h.server.cycleCounter
            h.server.pendingSelfDrivenNoopCycles) 1 = v := by
          have hlt64 := v.toNat_lt
          have hone : (1 : UInt64).toNat = 1 := rfl
          apply UInt64.toNat_inj.1
          rw [saturatingAdd_toNat, saturatingAdd_toNat]
          omega
        rw [hv, shouldRunPruneScan_iff] at hscan
        exact hscan ⟨by omega, hd⟩
  | sealed hs =>
    have ht := hs.scans hi
    refine ⟨?_, ht.pending, ht.short⟩
    rw [realCycles_concat]
    exact fun v h1 h2 h3 => hmore (ht.reached v h1 h2 h3)
  | cycled hs hp hc hscanned =>
    rename_i t a
    have ht := hs.scans hi
    have hone : (1 : UInt64).toNat = 1 := rfl
    have hzero : (0 : UInt64).toNat = 0 := rfl
    have hcounter : h'.server.cycleCounter.toNat =
        min (t.server.cycleCounter.toNat + 1) (2 ^ 64 - 1) := by rw [hc, saturatingAdd_toNat, hone]
    refine ⟨fun v h1 h2 h3 => ?_, fun v hlt hle => ?_, by rw [hp]; simp⟩
    · rw [realCycles_concat]
      by_cases hold : v.toNat ≤ t.server.cycleCounter.toNat
      · exact hmore (ht.reached v h1 hold h3)
      · -- the counter has just reached it
        have hnext : t.server.cycleCounter + 1 = v := by
          apply UInt64.toNat_inj.1
          rw [UInt64.toNat_add, hone]
          omega
        have hv : h'.server.cycleCounter = v := by
          apply UInt64.toNat_inj.1
          have := v.toNat_lt
          omega
        have hscan : shouldRunPruneScan (t.server.cycleCounter + 1) = true := by
          rw [hnext]
          exact shouldRunPruneScan_iff.2 ⟨by omega, h3⟩
        exact ⟨_, List.mem_append_right _ (List.mem_singleton.2 rfl), hv,
          hscanned.cycleNumber.trans hnext, hscanned.pruneScan hscan⟩
    · rw [hp, hzero] at hle
      omega

end

/-- Every multiple of the interval is reached by a real cycle that scans. -/
theorem rounds_scan {m m' : Machine env rt} {xs : List (Event × Option (RealCycle rt))}
    (hr : Rounds m xs m') (hp : m.host.server.pendingSelfDrivenNoopCycles = 0) :
    Scans m.host.server.cycleCounter xs m'.host.server := by
  refine hr.keeps_labels (I := fun xs u => Scans m.host.server.cycleCounter xs u.host.server)
    (fun ys x zs u v _ _ hround _ hi => hround.moves.scans hi)
    ⟨fun v h1 h2 => ?_, fun v h1 h2 => ?_, ?_⟩
  · omega
  · rw [hp, UInt64.toNat_zero] at h2
    omega
  · rw [hp]
    simp

/-! ### Strides -/

/-- What the counter stood at after the last real cycle, or at the start. -/
def lastCycle (start : UInt64) (xs : List (Event × Option (RealCycle rt))) : UInt64 :=
  ((realCycles xs).getLast?.map RealCycle.counter).getD start

/-- As long as no idle cycle is counted after others have been sealed. -/
structure Pace (start : UInt64) (xs : List (Event × Option (RealCycle rt))) (s : ServerState env) :
    Prop where
  strides : (start :: (realCycles xs).map RealCycle.counter).IsChain fun a b =>
    b.toNat ≤ a.toNat + 9
  near : s.cycleCounter.toNat ≤ (lastCycle start xs).toNat + 8
  fresh : s.pendingSelfDrivenNoopCycles ≠ 0 → s.cycleCounter = lastCycle start xs

section

variable {start : UInt64} {xs : List (Event × Option (RealCycle rt))} {e : Event}
  {h t h' : Host env rt}

theorem lastCycle_concat_none : lastCycle start (xs ++ [(e, none)]) = lastCycle start xs := by
  rw [lastCycle, realCycles_concat, Option.toList_none, List.append_nil, lastCycle]

theorem lastCycle_concat_some {c : RealCycle rt} :
    lastCycle start (xs ++ [(e, some c)]) = c.counter := by
  rw [lastCycle, realCycles_concat, Option.toList_some, List.getLast?_concat]
  rfl

theorem getLast?_counters :
    (start :: (realCycles xs).map RealCycle.counter).getLast? = some (lastCycle start xs) := by
  rw [List.getLast?_cons, List.getLast?_map, lastCycle]

theorem Sealing.pace (hs : Sealing h t) (hi : Pace start xs h.server)
    (hshort : h.server.pendingSelfDrivenNoopCycles.toNat ≤ 8) : Pace start xs t.server := by
  refine ⟨hi.strides, ?_, fun hne => absurd hs.pending hne⟩
  rcases hs.counter with hc | hc
  · rw [hc]
    exact hi.near
  · by_cases hp : h.server.pendingSelfDrivenNoopCycles = 0
    · have hnear := hi.near
      rw [hc, hp, saturatingAdd_toNat, UInt64.toNat_zero]
      omega
    · rw [hc, hi.fresh hp, saturatingAdd_toNat]
      omega

theorem Moves.pace {x : Option (RealCycle rt)} (hm : Moves e h x h') (hi : Pace start xs h.server)
    (hshort : h.server.pendingSelfDrivenNoopCycles.toNat ≤ 8)
    (hfresh : Idles e h.server → h.server.cycleCounter = lastCycle start xs) :
    Pace start (xs ++ [(e, x)]) h'.server := by
  have hnone : ∀ {s : ServerState env}, Pace start xs s → Pace start (xs ++ [(e, none)]) s := by
    intro s hs
    have hsame : realCycles (xs ++ [(e, none)]) = realCycles xs := by
      rw [realCycles_concat, Option.toList_none, List.append_nil]
    refine ⟨by rw [hsame]; exact hs.strides, ?_, ?_⟩
    · rw [lastCycle_concat_none]
      exact hs.near
    · rw [lastCycle_concat_none]
      exact hs.fresh
  cases hm with
  | stopped hc hp =>
    refine hnone ⟨hi.strides, ?_, ?_⟩
    · rw [hc]
      exact hi.near
    · rw [hc, hp]
      exact hi.fresh
  | counted hcount hc hp =>
    refine hnone ⟨hi.strides, ?_, fun _ => ?_⟩
    · rw [hc]
      exact hi.near
    · rw [hc]
      exact hfresh hcount
  | sealed hs => exact hnone (hs.pace hi hshort)
  | cycled hs hp hc hscanned =>
    rename_i t a
    have ht := hs.pace hi hshort
    refine ⟨?_, ?_, fun _ => by rw [lastCycle_concat_some]⟩
    · have hlist : start :: (realCycles (xs ++ [(e, some ⟨a, h'.server.cycleCounter⟩)])).map
          RealCycle.counter = (start :: (realCycles xs).map RealCycle.counter) ++
            [h'.server.cycleCounter] := by
        rw [realCycles_concat, Option.toList_some, List.map_append]
        rfl
      rw [hlist, List.isChain_append]
      refine ⟨ht.strides, .singleton _, fun a ha b hb => ?_⟩
      rw [getLast?_counters, Option.mem_some_iff] at ha
      cases ha
      cases hb
      have hnear := ht.near
      have hone : (1 : UInt64).toNat = 1 := rfl
      rw [hc, saturatingAdd_toNat]
      omega
    · rw [lastCycle_concat_some]
      exact Nat.le_add_right _ _

end

/-- No idle cycle is counted where the counter has moved since the last real cycle: none is, that
is, after others have been sealed by a request, by the end of the loop, or by a tick whose cycle has
failed. -/
def Unbroken (m : Machine env rt) (xs : List (Event × Option (RealCycle rt)))
    (m' : Machine env rt) : Prop :=
  ∀ ys x zs u v, xs = ys ++ x :: zs → Rounds m ys u → Round u x v → Rounds v zs m' →
    Idles x.1 u.host.server →
      u.host.server.cycleCounter = lastCycle m.host.server.cycleCounter ys

theorem rounds_pace {m m' : Machine env rt} {xs : List (Event × Option (RealCycle rt))}
    (hr : Rounds m xs m') (hp : m.host.server.pendingSelfDrivenNoopCycles = 0)
    (hu : Unbroken m xs m') : Pace m.host.server.cycleCounter xs m'.host.server := by
  refine hr.keeps_labels (I := fun xs u => Pace m.host.server.cycleCounter xs u.host.server)
    (fun ys x zs u v hxs hys hround hzs hi => ?_) ⟨.singleton _, ?_, fun hne => absurd hp hne⟩
  · exact hround.moves.pace hi (rounds_scan hys hp).short (hu ys x zs u v hxs hys hround hzs)
  · show _ ≤ m.host.server.cycleCounter.toNat + 8
    omega

/-- Every multiple of a hundred that the counter has reached was reached by a real cycle whose
post-cycle it is, and that has scanned; and between two real cycles, or the start and the first, the
counter has moved by nine at the most. -/
structure Paced (start : UInt64) (xs : List (Event × Option (RealCycle rt)))
    (m : Machine env rt) : Prop where
  reached : ∀ v : UInt64, start.toNat < v.toNat → v.toNat ≤ m.host.server.cycleCounter.toNat →
    100 ∣ v.toNat → ∃ x ∈ realCycles xs,
      x.counter = v ∧ x.response.cycleNumber = v ∧ x.response.pruneScan.isSome
  strides : (start :: (realCycles xs).map RealCycle.counter).IsChain fun a b =>
    b.toNat ≤ a.toNat + 9

theorem idle_batches_paced {files : BootFiles} {disk : Ledger env.blake3} {m : Machine env rt}
    {xs : List (Event × Option (RealCycle rt))} (hr : Rounds (.boot files disk) xs m)
    (hu : Unbroken (.boot files disk) xs m) :
    Paced (bootState files disk : ServerState env).cycleCounter xs m :=
  ⟨(rounds_scan hr rfl).reached, (rounds_pace hr rfl hu).strides⟩

/-! ### A first hundred cycles -/

section

variable {m m' t u : Machine env rt} {xs ys : List (Event × Option (RealCycle rt))}
  {x : Event × Option (RealCycle rt)}

theorem Rounds.unique (ht : Rounds m xs t) (hu : Rounds m xs u) (h : ∀ x ∈ xs, x.1 ≠ .other) :
    t = u := by
  induction ht with
  | nil => exact Path.nil_iff.1 hu
  | cons hround _ ih =>
    obtain ⟨v, hround', hu⟩ := Path.cons_iff.1 hu
    cases hround.unique hround' rfl (h _ List.mem_cons_self)
    exact ih hu fun x hx => h x (List.mem_cons_of_mem _ hx)

/-- A run stays unbroken in a round that counts no idle cycle, or counts the first ones since the last
real cycle. -/
theorem Unbroken.concat (hu : Unbroken m xs u) (hr : Rounds m xs u) (hxs : ∀ x ∈ xs, x.1 ≠ .other)
    (hx : Idles x.1 u.host.server →
      u.host.server.cycleCounter = lastCycle m.host.server.cycleCounter xs) :
    Unbroken m (xs ++ [x]) m' := by
  intro ys y zs v w heq hv hstep hw hidles
  rcases List.eq_nil_or_concat' zs with rfl | ⟨zs, z, rfl⟩
  · obtain ⟨rfl, hxy⟩ := List.append_inj' heq rfl
    cases List.singleton_inj.1 hxy
    cases Rounds.unique hr hv hxs
    exact hx hidles
  · have hsplit : xs ++ [x] = (ys ++ y :: zs) ++ [z] := by rw [heq, List.append_assoc]; rfl
    obtain ⟨rfl, -⟩ := List.append_inj' hsplit rfl
    obtain ⟨u', hu', -⟩ := Path.append_iff.1 hw
    cases Rounds.unique hr (hv.append (.cons hstep hu')) hxs
    exact hu ys y zs v w rfl hv hstep hu' hidles

/-- The input counts an idle cycle where the counter has moved since the last real cycle. -/
def breaks (last : UInt64) (h : Host env rt) : Input → Bool
  | .tick true => !isArchived h.server && decide (countsIdle h.server) &&
      h.server.cycleCounter != last
  | _ => false

/-- The rounds of inputs in a row, of which none breaks the stride. -/
def steadyPlays (last : UInt64) (h : Host env rt) :
    List Input → Option (List (Event × Option (RealCycle rt)) × Host env rt)
  | [] => some ([], h)
  | i :: is =>
    if breaks last h i then none
    else (play h i).bind fun (x, u) =>
      (steadyPlays ((x.2.map RealCycle.counter).getD last) u is).map fun (xs, h') => (x :: xs, h')

theorem lastCycle_concat {start : UInt64} : lastCycle start (xs ++ [x]) =
    (x.2.map RealCycle.counter).getD (lastCycle start xs) := by
  obtain ⟨e, c⟩ := x
  cases c with
  | none => exact lastCycle_concat_none
  | some c => exact lastCycle_concat_some

theorem counter_of_not_breaks {last : UInt64} {i : Input} {h : Host env rt}
    (hp : play m.host i = some (x, h)) (hb : ¬ breaks last m.host i)
    (hx : Idles x.1 m.host.server) : m.host.server.cycleCounter = last := by
  obtain ⟨hevent, hawake, hcounts⟩ := hx
  have hcomes := comesAs_of_play hp
  rw [hevent] at hcomes
  cases i with
  | request q => obtain ⟨_, heq⟩ := hcomes; cases heq
  | flush => cases hcomes
  | tick selfDriven =>
    cases hcomes
    by_contra hmoved
    exact hb (by simp [breaks, hawake, hcounts, hmoved])

/-- Inputs that do not break the stride leave the run unbroken. -/
theorem rounds_of_steadyPlays {start : Machine env rt} {is : List Input} {h : Host env rt}
    (hr : Rounds start xs m) (hu : Unbroken start xs m) (hxs : ∀ x ∈ xs, x.1 ≠ .other)
    (hp : steadyPlays (lastCycle start.host.server.cycleCounter xs) m.host is = some (ys, h)) :
    Rounds start (xs ++ ys) { m with host := h } ∧
      Unbroken start (xs ++ ys) { m with host := h } := by
  induction is generalizing m xs ys with
  | nil =>
    cases hp
    rw [List.append_nil]
    exact ⟨hr, hu⟩
  | cons i is ih =>
    rw [steadyPlays] at hp
    split at hp
    · cases hp
    · rename_i hbreaks
      obtain ⟨⟨x, v⟩, hx, hp⟩ := Option.bind_eq_some_iff.1 hp
      obtain ⟨⟨zs, w⟩, hzs, hp⟩ := Option.map_eq_some_iff.1 hp
      cases hp
      have hround := round_of_play hx
      have hother := (comesAs_of_play hx).ne_other
      have hxs' : ∀ y ∈ xs ++ [x], y.1 ≠ .other := by
        rw [List.forall_mem_append]
        exact ⟨hxs, fun y hy => List.mem_singleton.1 hy ▸ hother⟩
      rw [← lastCycle_concat] at hzs
      have hrest := ih (m := { m with host := v }) (hr.append (.cons hround .nil))
        (hu.concat hr hxs (counter_of_not_breaks hx hbreaks)) hxs' hzs
      rw [List.append_assoc] at hrest
      exact hrest

end

section

/-- A greeted substrate that has booted from a log with its genesis. -/
def wakened : Machine foldingEnv wholeNumbers :=
  ⟨⟨{ (bootState noFiles (genesisLedger foldingEnv) : ServerState foldingEnv) with
    handshakeComplete := true }, some .fresh⟩, genesisLedger foldingEnv⟩

theorem wakened_rounds :
    Rounds (.boot noFiles (genesisLedger foldingEnv)) [(.hello, none)] wakened := by
  have hid : (derivedState (genesisLedger foldingEnv).dag).substrateId.isSome = true := by
    decide +kernel
  have hquiet : ∀ n ∈ (genesisLedger foldingEnv).nodes, ¬ Watched vital.texts n.nodeType := by
    decide +kernel
  have hhydrates : Hydrates (genesisLedger foldingEnv).nodes
      (.fresh : DispatcherState wholeNumbers) :=
    replay_const (fun n hn w => replayNode_of_not_watched
      (fun hw => hquiet n hn (hw.mono (by decide))) w) _
  exact .cons (.hello (.hello rfl hid hhydrates)) .nil

/-- A cycle that is asked for, and ticks until the counter is at a hundred. -/
def firstHundred : List Input := .request .advance :: List.replicate 99 (.tick true)

theorem firstHundred_paced : ∃ xs, ∃ m : Machine foldingEnv wholeNumbers,
    Rounds (.boot noFiles (genesisLedger foldingEnv)) xs m ∧
    (realCycles xs).map RealCycle.counter = [1, 10, 19, 28, 37, 46, 55, 64, 73, 82, 91, 100] ∧
    m.host.server.cycleCounter = 100 ∧
    Paced (bootState noFiles (genesisLedger foldingEnv) : ServerState foldingEnv).cycleCounter xs
      m := by
  have h : (steadyPlays (@lastCycle wholeNumbers (Machine.boot noFiles (genesisLedger foldingEnv) :
      Machine foldingEnv wholeNumbers).host.server.cycleCounter [(.hello, none)]) wakened.host
      firstHundred).any (fun p =>
      decide ((realCycles p.1).map RealCycle.counter =
        [1, 10, 19, 28, 37, 46, 55, 64, 73, 82, 91, 100]) &&
      p.2.server.cycleCounter == 100) = true := by decide +kernel
  obtain ⟨⟨xs, u⟩, hplays, hp⟩ := (Option.any_eq_true _ _).1 h
  simp only [Bool.and_eq_true, decide_eq_true_eq, beq_iff_eq] at hp
  have hhello : Unbroken (.boot noFiles (genesisLedger foldingEnv)) [(.hello, none)] wakened := by
    intro ys x zs v w hxs _ _ _ hidles
    have hx : x ∈ [(Event.hello, (none : Option (RealCycle wholeNumbers)))] :=
      hxs ▸ List.mem_append_right _ List.mem_cons_self
    cases List.mem_singleton.1 hx
    cases hidles.1
  obtain ⟨hr, hu⟩ := rounds_of_steadyPlays wakened_rounds hhello (by simp) hplays
  exact ⟨_, _, hr, hp.1, hp.2, idle_batches_paced hr hu⟩

end

/-! ### A request between two batches -/

section

/-- A cycle, a batch that is sealed by a request that is not modelled, another batch, and the cycle
that comes then. -/
def interrupted : List Input :=
  .request .advance :: List.replicate 8 (.tick true) ++ .flush :: List.replicate 9 (.tick true)

/-- Between two real cycles the counter moves by seventeen. -/
theorem batches_in_a_row : ∃ xs m, Rounds (.boot noFiles .new) xs m ∧
    (realCycles xs).map RealCycle.counter = [1, 18] ∧
    ¬ Paced (bootState noFiles .new : ServerState smallEnv).cycleCounter xs
      (m : Machine smallEnv wholeNumbers) := by
  have h : (plays greeted.host interrupted).any
      (fun p => decide ((realCycles p.1).map RealCycle.counter = [1, 18])) = true := by
    decide +kernel
  obtain ⟨⟨xs, u⟩, hplays, hp⟩ := (Option.any_eq_true _ _).1 h
  rw [decide_eq_true_iff] at hp
  refine ⟨_, _, greeted_rounds.append (rounds_of_plays hplays), hp, fun hpaced => ?_⟩
  have hstrides : ((bootState noFiles .new : ServerState smallEnv).cycleCounter ::
      (realCycles xs).map RealCycle.counter).IsChain fun a b => b.toNat ≤ a.toNat + 9 :=
    hpaced.strides
  rw [hp] at hstrides
  exact absurd hstrides (by decide)

end

end Myco.Tropism
