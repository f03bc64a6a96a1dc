import Mathlib.Init

/-!
# Replaying a log

A log is replayed by applying its events in turn to a state. An event may fail, and it may have
changed the state by then, so applying one answers with a result and a state; a replay stops at
the first failure.

- `Replays`: a replay that does not fail, as a relation; it splits along `++`.
- `Replays.sim`: what one event preserves between two states, a replay preserves.
-/

namespace Myco.Lib

variable {ν σ τ ε ε' : Type}

def replay (apply : ν → σ → Except ε Unit × σ) : List ν → σ → Except ε Unit × σ
  | [], s => (.ok (), s)
  | n :: ns, s =>
    match apply n s with
    | (.error e, t) => (.error e, t)
    | (.ok (), t) => replay apply ns t

theorem replay_cons_error {apply : ν → σ → Except ε Unit × σ} {n : ν} {ns : List ν} {s t : σ}
    {e : ε}
    (h : apply n s = (.error e, t)) : replay apply (n :: ns) s = (.error e, t) := by
  rw [replay, h]

theorem replay_cons_ok {apply : ν → σ → Except ε Unit × σ} {n : ν} {ns : List ν} {s t : σ}
    (h : apply n s = (.ok (), t)) : replay apply (n :: ns) s = replay apply ns t := by
  rw [replay, h]

theorem replay_congr {apply apply' : ν → σ → Except ε Unit × σ} {ns : List ν}
    (h : ∀ n ∈ ns, ∀ s, apply n s = apply' n s) {s : σ} :
    replay apply ns s = replay apply' ns s := by
  induction ns generalizing s with
  | nil => rfl
  | cons n ns ih =>
    rw [List.forall_mem_cons] at h
    have hn := h.1 s
    rcases happ : apply n s with ⟨_ | _, t⟩
    · rw [replay_cons_error happ, replay_cons_error (hn.symm.trans happ)]
    · rw [replay_cons_ok happ, replay_cons_ok (hn.symm.trans happ)]
      exact ih h.2

/-- Events that do nothing replay to nothing. -/
theorem replay_const {apply : ν → σ → Except ε Unit × σ} {ns : List ν}
    (h : ∀ n ∈ ns, ∀ s, apply n s = (.ok (), s)) (s : σ) : replay apply ns s = (.ok (), s) := by
  induction ns with
  | nil => rfl
  | cons n ns ih =>
    rw [List.forall_mem_cons] at h
    rw [replay_cons_ok (h.1 s)]
    exact ih h.2

/-- Nor do they at the end of a log. -/
theorem replay_append_of_const {apply : ν → σ → Except ε Unit × σ} {xs ys : List ν}
    (h : ∀ s, replay apply ys s = (.ok (), s)) {s : σ} :
    replay apply (xs ++ ys) s = replay apply xs s := by
  induction xs generalizing s with
  | nil => exact h s
  | cons x xs ih =>
    rw [List.cons_append]
    rcases happ : apply x s with ⟨_ | _, t⟩
    · rw [replay_cons_error happ, replay_cons_error happ]
    · rw [replay_cons_ok happ, replay_cons_ok happ]
      exact ih

/-- The events take `s` to `s'` without a failure. -/
def Replays (apply : ν → σ → Except ε Unit × σ) (ns : List ν) (s s' : σ) : Prop :=
  replay apply ns s = (.ok (), s')

variable {apply : ν → σ → Except ε Unit × σ} {apply' : ν → τ → Except ε' Unit × τ}

theorem replays_nil {s s' : σ} : Replays apply [] s s' ↔ s = s' :=
  ⟨fun h => (Prod.mk.inj h).2, fun h => congrArg _ h⟩

theorem replays_cons {n : ν} {ns : List ν} {s s' : σ} :
    Replays apply (n :: ns) s s' ↔ ∃ t, apply n s = (.ok (), t) ∧ Replays apply ns t s' := by
  constructor
  · intro h
    rcases happ : apply n s with ⟨_ | _, t⟩
    · cases (replay_cons_error happ).symm.trans h
    · exact ⟨t, rfl, (replay_cons_ok happ).symm.trans h⟩
  · rintro ⟨t, happ, h⟩
    exact (replay_cons_ok happ).trans h

theorem replays_append {xs ys : List ν} {s s' : σ} :
    Replays apply (xs ++ ys) s s' ↔ ∃ t, Replays apply xs s t ∧ Replays apply ys t s' := by
  induction xs generalizing s with
  | nil => simp [replays_nil]
  | cons x xs ih =>
    simp only [List.cons_append, replays_cons, ih]
    constructor
    · rintro ⟨t, h1, u, h2, h3⟩
      exact ⟨u, ⟨t, h1, h2⟩, h3⟩
    · rintro ⟨u, ⟨t, h1, h2⟩, h3⟩
      exact ⟨t, h1, u, h2, h3⟩

theorem replays_singleton {n : ν} {s s' : σ} :
    Replays apply [n] s s' ↔ apply n s = (.ok (), s') := by
  simp [replays_cons, replays_nil]

/-- A replay has one result. -/
theorem Replays.unique {ns : List ν} {s t t' : σ} (h : Replays apply ns s t)
    (h' : Replays apply ns s t') : t = t' := by
  exact (Prod.mk.inj (h.symm.trans h')).2

/-- Two ways of applying events that agree on one event at a time, for related states, agree on a
log. -/
theorem Replays.sim {R : σ → τ → Prop} {ns : List ν}
    (step : ∀ n ∈ ns, ∀ s t s', R s t → apply n s = (.ok (), s') →
      ∃ t', apply' n t = (.ok (), t') ∧ R s' t')
    {s s' : σ} {t : τ} (hR : R s t) (h : Replays apply ns s s') :
    ∃ t', Replays apply' ns t t' ∧ R s' t' := by
  induction ns generalizing s t with
  | nil =>
    rw [replays_nil] at h
    exact ⟨t, replays_nil.2 rfl, h ▸ hR⟩
  | cons n ns ih =>
    obtain ⟨u, h1, h2⟩ := replays_cons.1 h
    obtain ⟨t1, h3, hR1⟩ := step n List.mem_cons_self s t u hR h1
    obtain ⟨t2, h4, hR2⟩ := ih (fun m hm => step m (List.mem_cons_of_mem _ hm)) hR1 h2
    exact ⟨t2, replays_cons.2 ⟨t1, h3, h4⟩, hR2⟩

theorem Replays.congr {apply' : ν → σ → Except ε Unit × σ} {ns : List ν}
    (h : ∀ n ∈ ns, ∀ s, apply n s = apply' n s) {s s' : σ} (hr : Replays apply ns s s') :
    Replays apply' ns s s' := by
  obtain ⟨t, ht, rfl⟩ : ∃ t, Replays apply' ns s t ∧ s' = t :=
    hr.sim (R := Eq) (fun n hn s t s' hst happ => ⟨s', by rw [← hst, ← h n hn, happ], rfl⟩) rfl
  exact ht

/-- What every event preserves, a replay preserves. -/
theorem Replays.inv {I : σ → Prop} {ns : List ν}
    (step : ∀ n ∈ ns, ∀ s s', I s → apply n s = (.ok (), s') → I s')
    {s s' : σ} (hI : I s) (h : Replays apply ns s s') : I s' := by
  induction ns generalizing s with
  | nil =>
    rw [replays_nil] at h
    exact h ▸ hI
  | cons n ns ih =>
    obtain ⟨u, h1, h2⟩ := replays_cons.1 h
    have hu := step n List.mem_cons_self s u hI h1
    exact ih (fun m hm => step m (List.mem_cons_of_mem _ hm)) hu h2

end Myco.Lib
