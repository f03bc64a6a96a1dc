import Mathlib.Data.List.Nodup
import Mathlib.Logic.Relation
import Myco.Canonical.RoundTrip

/-!
# The write-ahead log

`InMemoryWal` and `replay_pending` of `kernel/continuity/src/wal.rs`. The decider is any function
with a state of its own, which is what a `&mut dyn WalReplayDecider` is.

A replay walks over the sequence numbers that were pending when it began and looks each of them up
in the log as it then is. Numbers are given out once (`Numbered`), so every lookup finds the entry
it is meant for, and what the walk does to the log is `settled`.
-/

namespace Myco.Continuity

open Myco.Lib Myco.Canonical

/-! ### The code -/

inductive WalError
  | entryNotFound (sequence : UInt64)
  | alreadyCommitted (sequence : UInt64)
  | cannotRollbackCommitted (sequence : UInt64)
deriving DecidableEq, Repr

inductive WalEntryState
  | pending
  | committed
  | rolledBack
deriving DecidableEq, Repr

structure WalEntry where
  sequence : UInt64
  atCycle : UInt64
  payload : Bytes
  committedNodeHash : Option Hash32
  state : WalEntryState
deriving DecidableEq

structure InMemoryWal where
  entries : List WalEntry
  nextSequence : UInt64
deriving DecidableEq

/-- `iter_mut().find(p)`: changes the first entry with `p`. -/
def modifyFirst {α : Type} (p : α → Bool) (f : α → α) : List α → List α
  | [] => []
  | x :: xs => if p x then f x :: xs else x :: modifyFirst p f xs

namespace InMemoryWal

def new : InMemoryWal := ⟨[], 0⟩

/-- An entry takes a byte at least, so that a vector holds no more than `isize::MAX` of them; to
push one more panics. -/
def append (w : InMemoryWal) (atCycle : UInt64) (payload : Bytes) : Option (UInt64 × InMemoryWal) :=
  if w.entries.length < isizeMax then
    some (w.nextSequence,
      { entries := w.entries ++ [⟨w.nextSequence, atCycle, payload, none, .pending⟩]
        nextSequence := w.nextSequence + 1 })
  else none

def get (w : InMemoryWal) (sequence : UInt64) : Option WalEntry :=
  w.entries.find? (·.sequence = sequence)

/-- The entry that a lookup finds is changed. -/
def modify (w : InMemoryWal) (sequence : UInt64) (f : WalEntry → WalEntry) : InMemoryWal :=
  { w with entries := modifyFirst (·.sequence = sequence) f w.entries }

def commit (w : InMemoryWal) (sequence : UInt64) (nodeHash : Hash32) :
    Except WalError Unit × InMemoryWal :=
  match w.get sequence with
  | none => (.error (.entryNotFound sequence), w)
  | some entry =>
    match entry.state with
    | .pending => (.ok (), w.modify sequence fun e =>
        { e with state := .committed, committedNodeHash := some nodeHash })
    | .committed => (.error (.alreadyCommitted sequence), w)
    | .rolledBack => (.error (.cannotRollbackCommitted sequence), w)

def rollback (w : InMemoryWal) (sequence : UInt64) : Except WalError Unit × InMemoryWal :=
  match w.get sequence with
  | none => (.error (.entryNotFound sequence), w)
  | some entry =>
    match entry.state with
    | .pending => (.ok (), w.modify sequence fun e => { e with state := .rolledBack })
    | .committed => (.error (.cannotRollbackCommitted sequence), w)
    | .rolledBack => (.ok (), w)

def pendingEntries (w : InMemoryWal) : List WalEntry := w.entries.filter (·.state = .pending)

end InMemoryWal

inductive RecoveryAction
  | alreadyCommitted
  | replayCommit
  | replayRollback
  | deadLetter
deriving DecidableEq, Repr

structure RecoveryReport where
  sequence : UInt64
  action : RecoveryAction
  reason : String
deriving DecidableEq, Repr

/-- `WalReplayDecider::decide`: the report on an entry, and the decider after it. -/
abbrev Decider (σ : Type) := σ → WalEntry → RecoveryReport × σ

namespace InMemoryWal

/-- The results of `commit` and `rollback` are not looked at. -/
def carryOut (w : InMemoryWal) (entry : WalEntry) (sequence : UInt64) :
    RecoveryAction → InMemoryWal
  | .alreadyCommitted | .replayCommit =>
    (w.commit sequence (entry.committedNodeHash.getD (.replicate 0))).2
  | .replayRollback | .deadLetter => (w.rollback sequence).2

/-- A replay, as far as it has come. -/
structure Replaying (σ : Type) where
  wal : InMemoryWal
  reports : List RecoveryReport
  decider : σ

variable {σ : Type}

/-- One turn of the loop; `none` is `expect("pending entry exists")`. -/
def replayOne (decide : Decider σ) (r : Replaying σ) (sequence : UInt64) :
    Option (Replaying σ) := do
  let entry ← r.wal.get sequence
  let (report, decider) := decide r.decider entry
  some { wal := r.wal.carryOut entry sequence report.action
         reports := r.reports ++ [report]
         decider }

def replayPending (decide : Decider σ) (w : InMemoryWal) (decider : σ) : Option (Replaying σ) :=
  (w.pendingEntries.map WalEntry.sequence).foldlM (replayOne decide) ⟨w, [], decider⟩

end InMemoryWal

/-! ### What a replay is to do -/

section

variable {σ : Type}

/-- The decider, asked about one entry after the other. -/
def consult (decide : Decider σ) : σ → List WalEntry → List RecoveryReport × σ
  | d, [] => ([], d)
  | d, e :: es =>
    let (report, d) := decide d e
    let (reports, d) := consult decide d es
    (report :: reports, d)

/-- The actions that commit. -/
def RecoveryAction.Commits (a : RecoveryAction) : Prop := a = .alreadyCommitted ∨ a = .replayCommit

instance (a : RecoveryAction) : Decidable a.Commits := inferInstanceAs (Decidable (_ ∨ _))

/-- What a pending entry becomes. -/
def WalEntry.settle (e : WalEntry) (a : RecoveryAction) : WalEntry :=
  if a.Commits then
    { e with
      state := .committed
      committedNodeHash := some (e.committedNodeHash.getD (.replicate 0)) }
  else { e with state := .rolledBack }

/-- The log after a replay: each pending entry is settled by what the decider says of it. -/
def settled (decide : Decider σ) : σ → List WalEntry → List WalEntry
  | _, [] => []
  | d, e :: es =>
    if e.state = .pending then e.settle (decide d e).1.action :: settled decide (decide d e).2 es
    else e :: settled decide d es

/-- What is pending of these entries. -/
def pendingOf (es : List WalEntry) : List WalEntry := es.filter (·.state = .pending)

variable {decide : Decider σ} {d : σ} {e : WalEntry} {es : List WalEntry}

theorem pendingOf_cons_of_pending (h : e.state = .pending) :
    pendingOf (e :: es) = e :: pendingOf es := List.filter_cons_of_pos (decide_eq_true h)

theorem pendingOf_cons_of_ne (h : e.state ≠ .pending) : pendingOf (e :: es) = pendingOf es :=
  List.filter_cons_of_neg (by simpa using h)

theorem settled_cons_of_pending (h : e.state = .pending) :
    settled decide d (e :: es) =
      e.settle (decide d e).1.action :: settled decide (decide d e).2 es := if_pos h

theorem settled_cons_of_ne (h : e.state ≠ .pending) :
    settled decide d (e :: es) = e :: settled decide d es := if_neg h

@[simp] theorem settle_sequence {a : RecoveryAction} : (e.settle a).sequence = e.sequence := by
  unfold WalEntry.settle
  split <;> rfl

theorem settle_state {a : RecoveryAction} :
    (e.settle a).state = if a.Commits then .committed else .rolledBack := by
  unfold WalEntry.settle
  split <;> rfl

theorem settle_ne_pending {a : RecoveryAction} : (e.settle a).state ≠ .pending := by
  rw [settle_state]
  split <;> simp

/-- A replay keeps the numbers and their order. -/
theorem settled_sequences :
    (settled decide d es).map WalEntry.sequence = es.map WalEntry.sequence := by
  induction es generalizing d with
  | nil => rfl
  | cons e es ih =>
    by_cases h : e.state = .pending
    · rw [settled_cons_of_pending h, List.map_cons, List.map_cons, settle_sequence, ih]
    · rw [settled_cons_of_ne h, List.map_cons, List.map_cons, ih]

theorem settled_ne_pending : ∀ e ∈ settled decide d es, e.state ≠ .pending := by
  induction es generalizing d with
  | nil => exact fun _ h => absurd h List.not_mem_nil
  | cons e es ih =>
    by_cases h : e.state = .pending
    · rw [settled_cons_of_pending h, List.forall_mem_cons]
      exact ⟨settle_ne_pending, ih⟩
    · rw [settled_cons_of_ne h, List.forall_mem_cons]
      exact ⟨h, ih⟩

/-- What was settled before stays as it is. -/
theorem mem_settled_of_ne (he : e ∈ es) (h : e.state ≠ .pending) : e ∈ settled decide d es := by
  induction es generalizing d with
  | nil => cases he
  | cons e' es ih =>
    rcases List.mem_cons.1 he with rfl | he
    · rw [settled_cons_of_ne h]
      exact List.mem_cons_self
    · by_cases h' : e'.state = .pending
      · rw [settled_cons_of_pending h']
        exact List.mem_cons_of_mem _ (ih he)
      · rw [settled_cons_of_ne h']
        exact List.mem_cons_of_mem _ (ih he)

/-- The reports go to the pending entries in their order. -/
theorem mem_settled_of_report {k : Nat} {r : RecoveryReport} (he : (pendingOf es)[k]? = some e)
    (hr : (consult decide d (pendingOf es)).1[k]? = some r) :
    e.settle r.action ∈ settled decide d es := by
  induction es generalizing d k with
  | nil => cases he
  | cons e' es ih =>
    by_cases h' : e'.state = .pending
    · rw [pendingOf_cons_of_pending h'] at he hr
      rw [settled_cons_of_pending h']
      cases k with
      | zero =>
        obtain rfl := Option.some.inj he
        obtain rfl := Option.some.inj hr
        exact List.mem_cons_self
      | succ k => exact List.mem_cons_of_mem _ (ih he hr)
    · rw [pendingOf_cons_of_ne h'] at he hr
      rw [settled_cons_of_ne h']
      exact List.mem_cons_of_mem _ (ih he hr)

end

/-! ### Looking an entry up -/

section

variable {w : InMemoryWal} {e e' : WalEntry} {pre es : List WalEntry} {next : UInt64}
  {f : WalEntry → WalEntry} {sequence : UInt64}

theorem modifyFirst_append {α : Type} {p : α → Bool} {f : α → α} {xs ys : List α} {x : α}
    (h : ∀ y ∈ xs, p y = false) (hx : p x = true) :
    modifyFirst p f (xs ++ x :: ys) = xs ++ f x :: ys := by
  induction xs with
  | nil => exact if_pos hx
  | cons y xs ih =>
    rw [List.forall_mem_cons] at h
    rw [List.cons_append, modifyFirst, h.1, ih h.2]
    rfl

theorem map_modifyFirst {α β : Type} {p : α → Bool} {f : α → α} {key : α → β} {xs : List α}
    (h : ∀ x, key (f x) = key x) : (modifyFirst p f xs).map key = xs.map key := by
  induction xs with
  | nil => rfl
  | cons x xs ih =>
    rw [modifyFirst]
    split
    · rw [List.map_cons, List.map_cons, h]
    · rw [List.map_cons, List.map_cons, ih]

/-- Nothing before an entry has its number. -/
theorem sequence_ne_of_nodup (h : ((pre ++ e :: es).map WalEntry.sequence).Nodup) :
    ∀ y ∈ pre, Decidable.decide (y.sequence = e.sequence) = false := by
  intro y hy
  rw [List.map_append, List.map_cons] at h
  have hne := (List.nodup_append.1 h).2.2 _ (List.mem_map_of_mem hy) _ List.mem_cons_self
  exact decide_eq_false hne

theorem get_append (h : ((pre ++ e :: es).map WalEntry.sequence).Nodup) :
    (⟨pre ++ e :: es, next⟩ : InMemoryWal).get e.sequence = some e := by
  have hpre : pre.find? (·.sequence = e.sequence) = none :=
    List.find?_eq_none.2 fun y hy => by simpa using sequence_ne_of_nodup h y hy
  unfold InMemoryWal.get
  rw [List.find?_append, hpre, Option.none_or]
  exact List.find?_cons_of_pos (decide_eq_true rfl)

theorem get_of_mem (h : (w.entries.map WalEntry.sequence).Nodup) (he : e ∈ w.entries) :
    w.get e.sequence = some e := by
  obtain ⟨pre, es, hes⟩ := List.append_of_mem he
  obtain ⟨entries, next⟩ := w
  obtain rfl : entries = pre ++ e :: es := hes
  exact get_append h

theorem modify_append (h : ((pre ++ e :: es).map WalEntry.sequence).Nodup) :
    (⟨pre ++ e :: es, next⟩ : InMemoryWal).modify e.sequence f = ⟨pre ++ f e :: es, next⟩ :=
  congrArg (InMemoryWal.mk · next)
    (modifyFirst_append (sequence_ne_of_nodup h) (decide_eq_true rfl))

theorem commit_pending {nodeHash : Hash32} (hget : w.get sequence = some e)
    (he : e.state = .pending) :
    w.commit sequence nodeHash = (.ok (), w.modify sequence fun e =>
      { e with state := .committed, committedNodeHash := some nodeHash }) := by
  unfold InMemoryWal.commit
  rw [hget]
  dsimp only
  rw [he]

theorem rollback_pending (hget : w.get sequence = some e) (he : e.state = .pending) :
    w.rollback sequence = (.ok (), w.modify sequence fun e => { e with state := .rolledBack }) := by
  unfold InMemoryWal.rollback
  rw [hget]
  dsimp only
  rw [he]

/-- What is decided of a pending entry is done to it, and to no other. -/
theorem carryOut_append {a : RecoveryAction}
    (h : ((pre ++ e :: es).map WalEntry.sequence).Nodup) (he : e.state = .pending) :
    (⟨pre ++ e :: es, next⟩ : InMemoryWal).carryOut e e.sequence a =
      ⟨pre ++ e.settle a :: es, next⟩ := by
  have hget : (⟨pre ++ e :: es, next⟩ : InMemoryWal).get e.sequence = some e := get_append h
  cases a with
  | alreadyCommitted | replayCommit =>
    unfold InMemoryWal.carryOut
    rw [commit_pending hget he, modify_append h]
    rfl
  | replayRollback | deadLetter =>
    unfold InMemoryWal.carryOut
    rw [rollback_pending hget he, modify_append h]
    rfl

end

/-! ### The walk -/

section

open InMemoryWal

variable {σ : Type} {decide : Decider σ} {d : σ} {w : InMemoryWal}

/-- The walk over what is left of the log: the part it has passed is settled. -/
theorem replay_rest {pre es : List WalEntry} {next : UInt64} {reports : List RecoveryReport}
    (h : ((pre ++ es).map WalEntry.sequence).Nodup) :
    ((pendingOf es).map WalEntry.sequence).foldlM (replayOne decide)
        ⟨⟨pre ++ es, next⟩, reports, d⟩ =
      some ⟨⟨pre ++ settled decide d es, next⟩, reports ++ (consult decide d (pendingOf es)).1,
        (consult decide d (pendingOf es)).2⟩ := by
  induction es generalizing pre d reports with
  | nil => simp [pendingOf, settled, consult]
  | cons e es ih =>
    by_cases he : e.state = .pending
    · have hnext : ((pre ++ [e.settle (decide d e).1.action] ++ es).map
          WalEntry.sequence).Nodup := by simpa using h
      have hone : replayOne decide ⟨⟨pre ++ e :: es, next⟩, reports, d⟩ e.sequence =
          some ⟨⟨pre ++ e.settle (decide d e).1.action :: es, next⟩,
            reports ++ [(decide d e).1], (decide d e).2⟩ := by
        unfold replayOne
        dsimp only
        rw [get_append h, Option.bind_eq_bind, Option.bind_some, carryOut_append h he]
      have hrest := @ih (decide d e).2 _ (reports ++ [(decide d e).1]) hnext
      rw [pendingOf_cons_of_pending he, settled_cons_of_pending he, List.map_cons,
        List.foldlM_cons, hone, Option.bind_eq_bind, Option.bind_some]
      simpa [consult] using hrest
    · have hnext : ((pre ++ [e] ++ es).map WalEntry.sequence).Nodup := by simpa using h
      have hrest := @ih d _ reports hnext
      rw [pendingOf_cons_of_ne he, settled_cons_of_ne he]
      simpa using hrest

theorem replayPending_eq (h : (w.entries.map WalEntry.sequence).Nodup) :
    w.replayPending decide d = some ⟨⟨settled decide d w.entries, w.nextSequence⟩,
      (consult decide d w.pendingEntries).1, (consult decide d w.pendingEntries).2⟩ :=
  @replay_rest σ decide d [] w.entries w.nextSequence [] h

end

/-! ### Runs -/

section

variable {w w' : InMemoryWal}

/-- One call on the log. -/
inductive WalStep : InMemoryWal → InMemoryWal → Prop
  | append {w w' : InMemoryWal} {atCycle sequence : UInt64} {payload : Bytes} :
      w.append atCycle payload = some (sequence, w') → WalStep w w'
  | commit {w : InMemoryWal} (sequence : UInt64) (nodeHash : Hash32) :
      WalStep w (w.commit sequence nodeHash).2
  | rollback {w : InMemoryWal} (sequence : UInt64) : WalStep w (w.rollback sequence).2
  | replay {w : InMemoryWal} {σ : Type} {decide : Decider σ} {d : σ}
      {r : InMemoryWal.Replaying σ} : w.replayPending decide d = some r → WalStep w r.wal

def WalReachable (w : InMemoryWal) : Prop := Relation.ReflTransGen WalStep .new w

/-- The numbers are given out one after the other, from zero. -/
structure Numbered (w : InMemoryWal) : Prop where
  sequences : w.entries.map (·.sequence.toNat) = List.range w.entries.length
  next : w.nextSequence.toNat = w.entries.length
  bounded : w.entries.length ≤ isizeMax

theorem numbered_new : Numbered .new := ⟨rfl, rfl, Nat.zero_le _⟩

/-- What keeps the numbers of the entries keeps the log numbered. -/
theorem Numbered.of_sequences (h : Numbered w)
    (hseq : w'.entries.map WalEntry.sequence = w.entries.map WalEntry.sequence)
    (hnext : w'.nextSequence = w.nextSequence) : Numbered w' := by
  have hlen : w'.entries.length = w.entries.length := by simpa using congrArg List.length hseq
  have hnat : w'.entries.map (·.sequence.toNat) = w.entries.map (·.sequence.toNat) := by
    have := congrArg (List.map UInt64.toNat) hseq
    rwa [List.map_map, List.map_map] at this
  refine ⟨?_, ?_, ?_⟩
  · rw [hnat, hlen, h.sequences]
  · rw [hnext, hlen, h.next]
  · rw [hlen]
    exact h.bounded

theorem Numbered.ascending (h : Numbered w) :
    (w.entries.map WalEntry.sequence).Pairwise (· < ·) := by
  have hrange : (w.entries.map (·.sequence.toNat)).Pairwise (· < ·) := by
    rw [h.sequences]
    exact List.pairwise_lt_range
  rw [List.pairwise_map] at hrange ⊢
  exact hrange.imp UInt64.lt_iff_toNat_lt.2

theorem Numbered.nodup (h : Numbered w) : (w.entries.map WalEntry.sequence).Nodup :=
  h.ascending.imp fun hlt heq => absurd (heq ▸ hlt) (UInt64.lt_irrefl _)

theorem modify_sequences {sequence : UInt64} {f : WalEntry → WalEntry}
    (hf : ∀ e, (f e).sequence = e.sequence) :
    (w.modify sequence f).entries.map WalEntry.sequence = w.entries.map WalEntry.sequence :=
  map_modifyFirst hf

theorem Numbered.modify {sequence : UInt64} {f : WalEntry → WalEntry} (h : Numbered w)
    (hf : ∀ e, (f e).sequence = e.sequence) : Numbered (w.modify sequence f) :=
  h.of_sequences (modify_sequences hf) rfl

theorem Numbered.append {atCycle sequence : UInt64} {payload : Bytes} (h : Numbered w)
    (ha : w.append atCycle payload = some (sequence, w')) : Numbered w' := by
  unfold InMemoryWal.append at ha
  split at ha
  · rename_i hlt
    obtain ⟨-, rfl⟩ := Prod.mk.inj (Option.some.inj ha)
    have hsmall : w.entries.length < 2 ^ 63 - 1 := hlt
    refine ⟨?_, ?_, ?_⟩
    · simp [h.sequences, h.next, List.range_succ]
    · have hnext := h.next
      simp only [List.length_append, List.length_cons, List.length_nil]
      rw [UInt64.toNat_add, hnext]
      show (w.entries.length + 1) % 2 ^ 64 = _
      omega
    · simp only [List.length_append, List.length_cons, List.length_nil]
      omega
  · cases ha

theorem Numbered.step (h : Numbered w) (hstep : WalStep w w') : Numbered w' := by
  cases hstep with
  | append ha => exact h.append ha
  | commit sequence nodeHash =>
    unfold InMemoryWal.commit
    split
    · exact h
    · split
      · exact h.modify fun _ => rfl
      · exact h
      · exact h
  | rollback sequence =>
    unfold InMemoryWal.rollback
    split
    · exact h
    · split
      · exact h.modify fun _ => rfl
      · exact h
      · exact h
  | replay hr =>
    rw [replayPending_eq h.nodup] at hr
    obtain rfl := Option.some.inj hr
    exact h.of_sequences settled_sequences rfl

theorem WalReachable.numbered (h : WalReachable w) : Numbered w := by
  induction h with
  | refl => exact numbered_new
  | tail _ hstep ih => exact ih.step hstep

end

/-! ### Recovery -/

/-- What a replay of `w` with this decider comes to. -/
structure Recovered {σ : Type} (decide : Decider σ) (w : InMemoryWal) (d : σ)
    (r : InMemoryWal.Replaying σ) : Prop where
  /-- the numbers of the entries, which the replay keeps -/
  ascending : (w.entries.map WalEntry.sequence).Pairwise (· < ·)
  sequences : r.wal.entries.map WalEntry.sequence = w.entries.map WalEntry.sequence
  next : r.wal.nextSequence = w.nextSequence
  /-- the decider is asked about each pending entry in turn, and about no other -/
  consulted : (r.reports, r.decider) = consult decide d w.pendingEntries
  nonePending : ∀ e ∈ r.wal.entries, e.state ≠ .pending
  /-- the entry that a report is about, after the replay -/
  outcome : ∀ (k : Nat) (e : WalEntry) (report : RecoveryReport),
    w.pendingEntries[k]? = some e → r.reports[k]? = some report →
      ∃ e', r.wal.get e.sequence = some e' ∧ e'.sequence = e.sequence ∧ e'.atCycle = e.atCycle ∧
        e'.payload = e.payload ∧
        (e'.state = .committed ↔
          report.action = .alreadyCommitted ∨ report.action = .replayCommit) ∧
        (e'.state = .rolledBack ↔
          report.action = .replayRollback ∨ report.action = .deadLetter)
  kept : ∀ e ∈ w.entries, e.state ≠ .pending →
    w.get e.sequence = some e ∧ r.wal.get e.sequence = some e
  /-- a second replay asks about nothing, whoever decides -/
  again : ∀ {τ : Type} (decide' : Decider τ) (d' : τ),
    r.wal.replayPending decide' d' = some ⟨r.wal, [], d'⟩

theorem settle_outcome {e : WalEntry} {a : RecoveryAction} :
    ((e.settle a).state = .committed ↔ a = .alreadyCommitted ∨ a = .replayCommit) ∧
      ((e.settle a).state = .rolledBack ↔ a = .replayRollback ∨ a = .deadLetter) := by
  rw [settle_state]
  cases a <;> decide

/-- A log in which nothing is pending. -/
theorem replayPending_none {σ : Type} {decide : Decider σ} {w : InMemoryWal} {d : σ}
    (h : ∀ e ∈ w.entries, e.state ≠ .pending) : w.replayPending decide d = some ⟨w, [], d⟩ := by
  have hnone : w.pendingEntries = [] :=
    List.filter_eq_nil_iff.2 fun e he => by simpa using h e he
  unfold InMemoryWal.replayPending
  rw [hnone]
  rfl

/-- A replay asks about every pending entry once, in the order of their numbers, settles each by
the answer, and leaves nothing to a second one. -/
theorem replayPending_recovers {σ : Type} (decide : Decider σ) (d : σ) {w : InMemoryWal}
    (h : WalReachable w) : ∃ r, w.replayPending decide d = some r ∧ Recovered decide w d r := by
  have hnum := h.numbered
  refine ⟨_, replayPending_eq hnum.nodup, ?_⟩
  have hnodup : ((settled decide d w.entries).map WalEntry.sequence).Nodup := by
    rw [settled_sequences]
    exact hnum.nodup
  constructor
  · exact hnum.ascending
  · exact settled_sequences
  · rfl
  · rfl
  · exact settled_ne_pending
  · intro k e report he hr
    refine ⟨e.settle report.action, ?_, settle_sequence, ?_, ?_, settle_outcome⟩
    · rw [← @settle_sequence e report.action]
      exact get_of_mem hnodup (mem_settled_of_report he hr)
    · unfold WalEntry.settle
      split <;> rfl
    · unfold WalEntry.settle
      split <;> rfl
  · intro e he hne
    exact ⟨get_of_mem hnum.nodup he, get_of_mem hnodup (mem_settled_of_ne he hne)⟩
  · exact fun _ _ => replayPending_none settled_ne_pending

/-- Two entries, the first of which has been committed. -/
def halfCommitted : InMemoryWal :=
  ⟨[⟨0, 10, [1], some (.replicate 7), .committed⟩, ⟨1, 11, [2], none, .pending⟩], 2⟩

/-- A decider that counts how often it is asked. -/
def commitAll : Decider Nat := fun n e => (⟨e.sequence, .replayCommit, "effects present"⟩, n + 1)

theorem walReachable_halfCommitted : WalReachable halfCommitted := by
  have h1 : WalStep .new ⟨[⟨0, 10, [1], none, .pending⟩], 1⟩ :=
    WalStep.append (show InMemoryWal.append .new 10 [1] = some (0, _) from rfl)
  have h2 : WalStep ⟨[⟨0, 10, [1], none, .pending⟩], 1⟩
      ⟨[⟨0, 10, [1], none, .pending⟩, ⟨1, 11, [2], none, .pending⟩], 2⟩ :=
    WalStep.append (show InMemoryWal.append _ 11 [2] = some (1, _) from rfl)
  exact ((Relation.ReflTransGen.single h1).tail h2).tail (.commit 0 (.replicate 7))

theorem replayPending_recovers_halfCommitted :
    ∃ r, halfCommitted.replayPending commitAll 0 = some r ∧ Recovered commitAll halfCommitted 0 r :=
  replayPending_recovers commitAll 0 walReachable_halfCommitted

example : halfCommitted.replayPending commitAll 0 =
    some ⟨⟨[⟨0, 10, [1], some (.replicate 7), .committed⟩,
      ⟨1, 11, [2], some (.replicate 0), .committed⟩], 2⟩, [⟨1, .replayCommit, "effects present"⟩],
      1⟩ := rfl

end Myco.Continuity
