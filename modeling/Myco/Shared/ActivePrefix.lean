import Mathlib.Data.List.Infix
import Mathlib.Data.List.Induction
import Mathlib.Data.List.TakeDrop

/-!
# The active prefix and the archived tail

`ActivePrefix` of `kernel/shared/src/active_prefix.rs`. Whether an entry is currently valid may
change from one call to the next, so each call comes with what is valid at that time; an assertion
that fails is `none`.

Nothing is lost, and the newest `k` entries are active (`Held`). An entry that is still valid when
it leaves the window is archived later than newer ones that were not, so `iter_archived` is in
order if and only if no sweep comes upon such an entry (`archived_in_order_iff`).
-/

namespace Myco.Shared

variable {α : Type}

/-! ### The code -/

structure ActivePrefix (α : Type) where
  active : List α
  activeExtraValid : List α
  archived : List α
  k : Nat
deriving DecidableEq

namespace ActivePrefix

def new (k : Nat) : Option (ActivePrefix α) := if 0 < k then some ⟨[], [], [], k⟩ else none

/-- The oldest active entry goes where its validity says. -/
def evict (valid : α → Bool) (p : ActivePrefix α) : Option (ActivePrefix α) :=
  match p.active with
  | [] => none
  | evicted :: active =>
    if valid evicted then
      some { p with active, activeExtraValid := p.activeExtraValid ++ [evicted] }
    else some { p with active, archived := p.archived ++ [evicted] }

def insert (timestamp : α → Int64) (valid : α → Bool) (p : ActivePrefix α) (entry : α) :
    Option (ActivePrefix α) :=
  if (p.active.getLast?.all fun last => timestamp last ≤ timestamp entry) then
    let p := { p with active := p.active ++ [entry] }
    if p.k < p.active.length then p.evict valid else some p
  else none

def iterActive (p : ActivePrefix α) : List α := p.active ++ p.activeExtraValid

def iterArchived (p : ActivePrefix α) : List α := p.archived

/-- `for entry in self.active_extra_valid.drain(..)` -/
def reArchiveInvalidated (valid : α → Bool) (p : ActivePrefix α) : ActivePrefix α :=
  p.activeExtraValid.foldl
    (fun p entry =>
      if valid entry then { p with activeExtraValid := p.activeExtraValid ++ [entry] }
      else { p with archived := p.archived ++ [entry] })
    { p with activeExtraValid := [] }

end ActivePrefix

/-! ### Runs -/

/-- A call, with what is valid when it is made. -/
inductive PrefixCall (α : Type)
  | insert (valid : α → Bool) (entry : α)
  | sweep (valid : α → Bool)

def PrefixCall.valid : PrefixCall α → α → Bool
  | .insert valid _ => valid
  | .sweep valid => valid

def PrefixCall.apply (timestamp : α → Int64) (p : ActivePrefix α) :
    PrefixCall α → Option (ActivePrefix α)
  | .insert valid entry => p.insert timestamp valid entry
  | .sweep valid => some (p.reArchiveInvalidated valid)

/-- The calls on a new container, in a row. -/
def runPrefix (timestamp : α → Int64) (k : Nat) (calls : List (PrefixCall α)) :
    Option (ActivePrefix α) := do
  let p ← ActivePrefix.new k
  calls.foldlM (PrefixCall.apply timestamp) p

/-- What the calls insert. -/
def inserted (calls : List (PrefixCall α)) : List α :=
  calls.filterMap fun
    | .insert _ entry => some entry
    | .sweep _ => none

/-- The oldest first. -/
def Chronological (timestamp : α → Int64) (entries : List α) : Prop :=
  entries.Pairwise fun a b => timestamp a ≤ timestamp b

instance (timestamp : α → Int64) (entries : List α) : Decidable (Chronological timestamp entries) :=
  inferInstanceAs (Decidable (List.Pairwise _ entries))

/-! ### One call -/

section

variable {timestamp : α → Int64} {valid : α → Bool} {k : Nat} {p q : ActivePrefix α} {entry : α}
  {ins : List α}

theorem sweep_fold {extra keep archived : List α} {p : ActivePrefix α} :
    extra.foldl (fun p entry =>
        if valid entry then { p with activeExtraValid := p.activeExtraValid ++ [entry] }
        else { p with archived := p.archived ++ [entry] })
        { p with activeExtraValid := keep, archived } =
      { p with
        activeExtraValid := keep ++ extra.filter valid
        archived := archived ++ extra.filter fun e => !valid e } := by
  induction extra generalizing keep archived with
  | nil => simp
  | cons e extra ih =>
    rw [List.foldl_cons]
    cases h : valid e with
    | true =>
      rw [if_pos rfl, ih]
      simp [h]
    | false =>
      rw [if_neg Bool.false_ne_true, ih]
      simp [h]

theorem reArchiveInvalidated_eq :
    p.reArchiveInvalidated valid =
      { p with
        activeExtraValid := p.activeExtraValid.filter valid
        archived := p.archived ++ p.activeExtraValid.filter fun e => !valid e } :=
  @sweep_fold α valid p.activeExtraValid [] p.archived p

/-- The container after these insertions: the newest `k` are active, and what is older is in the
other two parts. -/
structure Held (k : Nat) (ins : List α) (p : ActivePrefix α) : Prop where
  cap : p.k = k
  active : p.active = ins.drop (ins.length - k)
  rest : (p.activeExtraValid ++ p.archived).Perm (ins.take (ins.length - k))
  extra : p.activeExtraValid.Sublist (ins.take (ins.length - k))

theorem held_new : Held k [] (⟨[], [], [], k⟩ : ActivePrefix α) :=
  ⟨rfl, by simp, by simp, by simp⟩

/-- None lost, none twice. -/
theorem Held.conserves (h : Held k ins p) :
    (p.active ++ p.activeExtraValid ++ p.archived).Perm ins := by
  rw [List.append_assoc, h.active]
  refine (List.Perm.append_left _ h.rest).trans ?_
  exact List.perm_append_comm.trans (List.Perm.of_eq (List.take_append_drop _ _))

theorem Held.sweep (h : Held k ins p) : Held k ins (p.reArchiveInvalidated valid) := by
  rw [reArchiveInvalidated_eq]
  refine ⟨h.cap, h.active, ?_, (List.filter_sublist).trans h.extra⟩
  refine List.Perm.trans ?_ h.rest
  have hfilter : (p.activeExtraValid.filter valid ++
      p.activeExtraValid.filter fun e => !valid e).Perm p.activeExtraValid :=
    List.filter_append_perm valid _
  refine List.Perm.trans ?_ (hfilter.append_right _)
  rw [List.append_assoc]
  exact List.Perm.append_left _ List.perm_append_comm

theorem Held.split {x : α} {newer : List α} (h : Held k ins p)
    (hactive : p.active ++ [entry] = x :: newer) :
    ins ++ [entry] = ins.take (ins.length - k) ++ [x] ++ newer := by
  rw [List.append_assoc, List.singleton_append, ← hactive, h.active, ← List.append_assoc,
    List.take_append_drop]

/-- The oldest active entry leaves the window of `k`, which has one entry more. -/
theorem Held.evicted {x : α} {newer : List α} (h : Held k ins p) (hk : k ≤ ins.length)
    (hactive : p.active ++ [entry] = x :: newer) :
    Held k (ins ++ [entry])
        { p with active := newer, activeExtraValid := p.activeExtraValid ++ [x] } ∧
      Held k (ins ++ [entry]) { p with active := newer, archived := p.archived ++ [x] } := by
  have hsplit := h.split hactive
  have hlen : (ins ++ [entry]).length - k = (ins.take (ins.length - k) ++ [x]).length := by
    simp only [List.length_append, List.length_singleton, List.length_take]
    omega
  have hdrop : (ins ++ [entry]).drop ((ins ++ [entry]).length - k) = newer := by
    rw [hlen, hsplit, List.drop_left]
  have htake : (ins ++ [entry]).take ((ins ++ [entry]).length - k) =
      ins.take (ins.length - k) ++ [x] := by
    rw [hlen, hsplit, List.take_left]
  constructor
  · refine ⟨h.cap, hdrop.symm, ?_, ?_⟩
    · rw [htake, List.append_assoc]
      refine List.Perm.trans ?_ (h.rest.append_right _)
      rw [List.append_assoc]
      exact List.Perm.append_left _ List.perm_append_comm
    · rw [htake]
      exact h.extra.append_right _
  · refine ⟨h.cap, hdrop.symm, ?_, ?_⟩
    · rw [htake, ← List.append_assoc]
      exact h.rest.append_right _
    · rw [htake]
      exact h.extra.trans (List.sublist_append_left _ _)

/-- The window is not full yet. -/
theorem Held.pushed (h : Held k ins p) (hk : ins.length < k) :
    Held k (ins ++ [entry]) { p with active := p.active ++ [entry] } := by
  have hnone : ins.length - k = 0 := by omega
  have hnext : (ins ++ [entry]).length - k = 0 := by
    rw [List.length_append, List.length_singleton]
    omega
  have hrest := h.rest
  have hextra := h.extra
  rw [hnone] at hrest hextra
  refine ⟨h.cap, ?_, ?_, ?_⟩
  · rw [hnext, h.active, hnone]
    rfl
  · rw [hnext]
    exact hrest
  · rw [hnext]
    exact hextra

theorem Held.length_active (h : Held k ins p) : p.active.length = min k ins.length := by
  rw [h.active, List.length_drop]
  omega

/-- What is archived is older than the window. -/
theorem Held.archived_le {x : α} {newer : List α} (h : Held k ins p)
    (hactive : p.active ++ [entry] = x :: newer) (hord : Chronological timestamp (ins ++ [entry])) :
    ∀ a ∈ p.archived, timestamp a ≤ timestamp x := by
  intro a ha
  rw [h.split hactive] at hord
  have hmem : a ∈ ins.take (ins.length - k) :=
    h.rest.subset (List.mem_append.2 (.inr ha))
  exact (List.pairwise_append.1 (List.pairwise_append.1 hord).1).2.2 a hmem x (by simp)

theorem chronological_concat {entries : List α} {x : α} (h : Chronological timestamp entries)
    (hx : ∀ a ∈ entries, timestamp a ≤ timestamp x) : Chronological timestamp (entries ++ [x]) := by
  refine List.pairwise_append.2 ⟨h, List.pairwise_singleton _ _, ?_⟩
  intro a ha b hb
  obtain rfl := List.mem_singleton.1 hb
  exact hx a ha

/-- An insertion in order does not panic, and archives in order. -/
theorem Held.insert (h : Held k ins p)
    (hord : Chronological timestamp (ins ++ [entry])) :
    ∃ q, p.insert timestamp valid entry = some q ∧ Held k (ins ++ [entry]) q ∧
      (Chronological timestamp p.archived → Chronological timestamp q.archived) := by
  have hlast : (p.active.getLast?.all fun last => timestamp last ≤ timestamp entry) = true := by
    cases hl : p.active.getLast? with
    | none => rfl
    | some last =>
      have hmem : last ∈ ins := by
        have := List.mem_of_getLast? hl
        rw [h.active] at this
        exact List.mem_of_mem_drop this
      exact decide_eq_true ((List.pairwise_append.1 hord).2.2 last hmem entry (by simp))
  have hlen : (p.active ++ [entry]).length = min k ins.length + 1 := by
    rw [List.length_append, h.length_active]
    rfl
  unfold ActivePrefix.insert
  rw [if_pos hlast]
  dsimp only
  by_cases hfull : k ≤ ins.length
  · rw [if_pos (by rw [h.cap, hlen]; omega)]
    obtain ⟨x, newer, hactive⟩ : ∃ x newer, p.active ++ [entry] = x :: newer :=
      List.exists_cons_of_ne_nil (by simp)
    obtain ⟨hextra, harchived⟩ := h.evicted hfull hactive
    unfold ActivePrefix.evict
    dsimp only
    rw [hactive]
    dsimp only
    cases valid x with
    | true => exact ⟨_, rfl, hextra, id⟩
    | false =>
      exact ⟨_, rfl, harchived, fun hc => chronological_concat hc (h.archived_le hactive hord)⟩
  · rw [if_neg (by rw [h.cap, hlen]; omega)]
    exact ⟨_, rfl, h.pushed (by omega), id⟩

/-- Nothing that a sweep archives is older than what is archived already. -/
def TimelySweep (timestamp : α → Int64) (valid : α → Bool) (p : ActivePrefix α) : Prop :=
  ∀ a ∈ p.archived, ∀ e ∈ p.activeExtraValid, valid e = false → timestamp a ≤ timestamp e

theorem Held.chronological_sweep (h : Held k ins p) (hord : Chronological timestamp ins)
    (hc : Chronological timestamp p.archived) :
    Chronological timestamp (p.reArchiveInvalidated valid).archived ↔
      TimelySweep timestamp valid p := by
  have hextra : Chronological timestamp (p.activeExtraValid.filter fun e => !valid e) :=
    hord.sublist (List.filter_sublist.trans (h.extra.trans (List.take_sublist _ _)))
  rw [reArchiveInvalidated_eq]
  unfold Chronological TimelySweep
  rw [List.pairwise_append]
  constructor
  · rintro ⟨-, -, hle⟩ a ha e he hinvalid
    exact hle a ha e (List.mem_filter.2 ⟨he, by simpa using hinvalid⟩)
  · intro htimely
    refine ⟨hc, hextra, ?_⟩
    intro a ha e he
    obtain ⟨he, hinvalid⟩ := List.mem_filter.1 he
    exact htimely a ha e he (by simpa using hinvalid)

end

/-! ### Any number of calls -/

section

variable {timestamp : α → Int64} {k : Nat} {calls : List (PrefixCall α)} {c : PrefixCall α}

/-- Every sweep of the run is timely, where the run has come by then. -/
def Timely (timestamp : α → Int64) (k : Nat) (calls : List (PrefixCall α)) : Prop :=
  ∀ before valid p, before ++ [.sweep valid] <+: calls →
    runPrefix timestamp k before = some p → TimelySweep timestamp valid p

theorem Timely.init (h : Timely timestamp k (calls ++ [c])) : Timely timestamp k calls :=
  fun before valid p hpre hp => h before valid p (hpre.trans (List.prefix_append _ _)) hp

theorem runPrefix_concat {p : ActivePrefix α} (h : runPrefix timestamp k calls = some p) :
    runPrefix timestamp k (calls ++ [c]) = c.apply timestamp p := by
  unfold runPrefix at h ⊢
  obtain ⟨p0, hp0, hp⟩ := Option.bind_eq_some_iff.1 h
  rw [hp0, Option.bind_eq_bind, Option.bind_some, List.foldlM_append, hp, Option.bind_eq_bind,
    Option.bind_some, List.foldlM_cons]
  exact Option.bind_fun_some _

theorem inserted_concat :
    inserted (calls ++ [c]) = inserted calls ++ inserted [c] := List.filterMap_append

theorem Chronological.init {xs ys : List α} (h : Chronological timestamp (xs ++ ys)) :
    Chronological timestamp xs := (List.pairwise_append.1 h).1

/-- A run of ordered insertions and any sweeps does not panic, loses nothing and keeps the newest
entries active; if its sweeps are timely, the archive is in order. -/
theorem run_held (hk : 0 < k) (hord : Chronological timestamp (inserted calls)) :
    ∃ p, runPrefix timestamp k calls = some p ∧ Held k (inserted calls) p ∧
      (Timely timestamp k calls → Chronological timestamp p.archived) := by
  induction calls using List.reverseRecOn with
  | nil =>
    refine ⟨⟨[], [], [], k⟩, ?_, held_new, fun _ => List.Pairwise.nil⟩
    show (ActivePrefix.new k).bind _ = _
    rw [ActivePrefix.new, if_pos hk]
    rfl
  | append_singleton calls c ih =>
    rw [inserted_concat] at hord ⊢
    obtain ⟨p, hp, hheld, hchron⟩ := ih hord.init
    cases c with
    | insert valid entry =>
      obtain ⟨q, hq, hheld', hnext⟩ := @Held.insert _ _ valid _ _ _ _ hheld hord
      exact ⟨q, (runPrefix_concat hp).trans hq, hheld', fun ht => hnext (hchron ht.init)⟩
    | sweep valid =>
      have hins : inserted calls ++ inserted [PrefixCall.sweep valid] = inserted calls :=
        List.append_nil _
      rw [hins]
      refine ⟨_, runPrefix_concat hp, hheld.sweep, fun ht => ?_⟩
      exact (hheld.chronological_sweep hord.init (hchron ht.init)).2
        (ht calls valid p (List.prefix_refl _) hp)

/-- What is promised of the container after these calls. -/
structure Kept (timestamp : α → Int64) (k : Nat) (calls : List (PrefixCall α))
    (p : ActivePrefix α) : Prop where
  conserved : (p.iterActive ++ p.iterArchived).Perm (inserted calls)
  active : p.active =
    (inserted calls).drop ((inserted calls).length - min k (inserted calls).length)
  chronological : Chronological timestamp p.iterArchived

theorem Held.kept {p : ActivePrefix α} (h : Held k (inserted calls) p)
    (hc : Chronological timestamp p.archived) : Kept timestamp k calls p := by
  refine ⟨h.conserves, ?_, hc⟩
  rw [h.active]
  congr 1
  omega

theorem inserted_before {before : List (PrefixCall α)} (h : before <+: calls) :
    inserted before <+: inserted calls := h.filterMap _

/-- The promise holds after each call of a run if and only if no sweep of the run archives an entry
that is older than an archived one. -/
theorem archived_in_order_iff (hk : 0 < k) (hord : Chronological timestamp (inserted calls)) :
    (∀ before, before <+: calls →
      ∃ p, runPrefix timestamp k before = some p ∧ Kept timestamp k before p) ↔
        Timely timestamp k calls := by
  constructor
  · intro h before valid p hpre hp
    have hpre' : before <+: calls := (List.prefix_append _ _).trans hpre
    have hord' : Chronological timestamp (inserted before) :=
      hord.sublist (inserted_before hpre').sublist
    obtain ⟨p', hp', hheld, -⟩ := run_held hk hord'
    obtain rfl := Option.some.inj (hp.symm.trans hp')
    obtain ⟨q, hq, hkept⟩ := h before hpre'
    obtain rfl := Option.some.inj (hp.symm.trans hq)
    obtain ⟨r, hr, hswept⟩ := h _ hpre
    rw [runPrefix_concat hp] at hr
    obtain rfl := Option.some.inj hr
    exact (hheld.chronological_sweep hord' hkept.chronological).1 hswept.chronological
  · intro h before hpre
    obtain ⟨p, hp, hheld, hchron⟩ := run_held hk (hord.sublist (inserted_before hpre).sublist)
    exact ⟨p, hp, hheld.kept (hchron fun b v q hb hq => h b v q (hb.trans hpre) hq)⟩

end

/-- Validity only expires. -/
def Expires (calls : List (PrefixCall α)) : Prop :=
  calls.Pairwise fun c d => ∀ e, d.valid e = true → c.valid e = true

/-- Three entries, of which the second has never been valid. -/
def threeInserted : List (PrefixCall Int64) :=
  [.insert (fun e => e ≠ 1) 0, .insert (fun e => e ≠ 1) 1, .insert (fun e => e ≠ 1) 2]

/-- The first entry, which is still valid when it leaves the window, expires before the second leaves
it, and is swept. -/
def sweptBetween : List (PrefixCall Int64) :=
  [.insert (fun _ => true) 0, .insert (fun _ => true) 1, .sweep fun e => e ≠ 0,
    .insert (fun e => e ≠ 0) 2]

theorem archived_in_order_swept : Timely id 1 sweptBetween ∧ ∀ before, before <+: sweptBetween →
    ∃ p, runPrefix id 1 before = some p ∧ Kept id 1 before p := by
  have htimely : Timely id 1 sweptBetween := by
    rintro before valid p ⟨rest, hrest⟩ hp
    rcases before with _ | ⟨a, _ | ⟨b, _ | ⟨c, _ | ⟨d, before⟩⟩⟩⟩ <;>
      simp [sweptBetween] at hrest
    -- at its one sweep nothing is archived yet
    obtain ⟨rfl, rfl, rfl, -⟩ := hrest
    cases hp
    nofun
  exact ⟨htimely, (archived_in_order_iff Nat.one_pos (by decide)).2 htimely⟩

/-- The first entry is valid when it leaves the window, and no longer when the second, which was
not, has been archived. -/
theorem archived_out_of_order :
    ¬ ∀ (k : Nat) (calls : List (PrefixCall Int64)), 0 < k →
      Chronological id (inserted calls) → Expires calls →
        ∃ p, runPrefix id k calls = some p ∧ Kept id k calls p := by
  intro h
  obtain ⟨p, hp, hkept⟩ := h 1 (threeInserted ++ [.sweep fun e => e = 2]) Nat.one_pos (by decide)
    (by simp [Expires, threeInserted, PrefixCall.valid])
  have hrun : runPrefix id 1 (threeInserted ++ [.sweep fun e => e = 2]) =
      some ⟨[2], [], [1, 0], 1⟩ := rfl
  obtain rfl := Option.some.inj (hrun.symm.trans hp)
  exact absurd hkept.chronological (by decide)

end Myco.Shared
