import Myco.Prune.Rules

/-!
# What the rules select

One predicate a rule says which nodes it is after: `Orphaned`, `StaleAxis`, `Falsified`,
`Superseded`, `Duplicated`, `Detached`. Each `mem_detect*` lemma reads a candidate back: it is the
part of a node that is there, and the predicate holds of that node.

The predicates of different rules look at different types of nodes, `Orphaned` and `Detached`
excepted (`StaleAxis.apart`, `Falsified.apart`, `Duplicated.apart`).
-/

namespace Myco.Prune

open Myco.Lib Myco.Canonical Myco.Schema Myco.Substrate

variable {blake3 : Bytes → NodeHash} {dag : Dag} {ctx : PruneScanCtx} {t : UInt64}
  {c : PruneCandidate} {n : DagNode}

/-! ### Predicates -/

/-- Unprotected, no tip, past grace, and no node's parent. -/
def Orphaned (dag : Dag) (tip : Option NodeHash) (t : UInt64) (n : DagNode) : Prop :=
  orphanGraceCycles < t ∧ n.createdAtCycle ≤ saturatingSub t orphanGraceCycles ∧
    ¬ isP10InvariantProtected n.nodeType ∧ some n.hash ≠ tip ∧ n.hash ∉ referenced dag

instance (dag : Dag) (tip : Option NodeHash) (t : UInt64) (n : DagNode) :
    Decidable (Orphaned dag tip t n) := inferInstanceAs (Decidable (_ ∧ _))

/-- Registers an axis that nothing has touched since the window. -/
def StaleAxis (dag : Dag) (t : UInt64) (n : DagNode) : Prop :=
  staleAxisGraceCycles < t ∧ ∃ name, stripPrefix axisRegisteredPrefix n.nodeType = some name ∧
    ∀ m ∈ dag.iterInInsertionOrder, touchedAxis m = some name →
      m.createdAtCycle ≤ saturatingSub t staleAxisGraceCycles

/-- Some of `rs` is later than `n`, and even the latest of them is past the grace itself. -/
def Replaced (dag : Dag) (grace t : UInt64) (n : DagNode) (rs : DagNode → Prop) : Prop :=
  grace < t ∧ (∃ r ∈ dag.iterInInsertionOrder, rs r ∧ n.createdAtCycle < r.createdAtCycle) ∧
    ∀ r ∈ dag.iterInInsertionOrder, rs r → grace < saturatingSub t r.createdAtCycle

/-- `f` is a failure of the evolution that `n` says has succeeded. -/
def FailureOf (n f : DagNode) : Prop :=
  ∃ op, stripPrefix evolutionSucceededPrefix n.nodeType = some op ∧
    stripPrefix evolutionFailedPrefix f.nodeType = some op

def Falsified (dag : Dag) (t : UInt64) (n : DagNode) : Prop :=
  Replaced dag erroneousGraceCycles t n (FailureOf n)

def Superseded (dag : Dag) (t : UInt64) (n : DagNode) : Prop :=
  startsWith forgedUnderstandingPrefix n.nodeType ∧
    Replaced dag plateSupersededGraceCycles t n fun p => n.hash ∈ supersedes p

/-- Of the same type and content, in scope. -/
def SameContent (n m : DagNode) : Prop :=
  redundantInScope n.nodeType ∧ m.nodeType = n.nodeType ∧ m.content = n.content

/-- The first of several nodes with the same content. -/
def Duplicated (dag : Dag) (t : UInt64) (n : DagNode) : Prop :=
  redundantGraceCycles < t ∧ n.createdAtCycle ≤ saturatingSub t redundantGraceCycles ∧
    ∃ xs ys, dag.iterInInsertionOrder = xs ++ n :: ys ∧ (∀ m ∈ xs, ¬ SameContent n m) ∧
      ∃ m ∈ ys, SameContent n m

/-- `b` is a parent of `a`, or a parent of a parent, and so on. -/
def Reaches (dag : Dag) (a b : NodeHash) : Prop := Relation.ReflTransGen (Edge (parentsOf dag)) a b

/-- Some node's parent, but not reached from `roots`. -/
def Detached (dag : Dag) (roots : List NodeHash) (n : DagNode) : Prop :=
  n.hash ∈ referenced dag ∧ ∀ r ∈ roots, ¬ Reaches dag r n.hash

/-! ### The types they look at -/

theorem StaleAxis.type (h : StaleAxis dag t n) : startsWith axisRegisteredPrefix n.nodeType := by
  obtain ⟨-, name, hname, -⟩ := h
  exact startsWith_of_stripPrefix hname

theorem Falsified.type (h : Falsified dag t n) :
    startsWith evolutionSucceededPrefix n.nodeType := by
  obtain ⟨-, ⟨f, -, ⟨op, hop, -⟩, -⟩, -⟩ := h
  exact startsWith_of_stripPrefix hop

theorem Duplicated.type (h : Duplicated dag t n) : redundantInScope n.nodeType := by
  obtain ⟨-, -, xs, ys, -, -, m, -, hm, -⟩ := h
  exact hm

theorem not_redundantInScope {p nodeType : String} (h : startsWith p nodeType)
    (hp : Apart p rawMaterialPrefix ∧ Apart p sporocarpPrefix) : ¬ redundantInScope nodeType :=
  fun hs => hs.elim (not_startsWith h hp.1) (not_startsWith h hp.2)

theorem StaleAxis.apart (h : StaleAxis dag t n) :
    ¬ Falsified dag t n ∧ ¬ Duplicated dag t n ∧ ¬ Superseded dag t n := by
  refine ⟨fun hf => ?_, fun hd => ?_, fun hs => ?_⟩
  · exact not_startsWith h.type (by decide) hf.type
  · exact not_redundantInScope h.type (by decide) hd.type
  · exact not_startsWith h.type (by decide) hs.1

theorem Falsified.apart (h : Falsified dag t n) :
    ¬ Duplicated dag t n ∧ ¬ Superseded dag t n := by
  refine ⟨fun hd => ?_, fun hs => ?_⟩
  · exact not_redundantInScope h.type (by decide) hd.type
  · exact not_startsWith h.type (by decide) hs.1

theorem Duplicated.apart (h : Duplicated dag t n) : ¬ Superseded dag t n :=
  fun hs => not_redundantInScope hs.1 (by decide) h.type

/-! ### Reading a candidate back -/

/-- `c` declares `n` dead. -/
def PruneCandidate.Of (c : PruneCandidate) (n : DagNode) : Prop :=
  c.partHash = n.hash ∧ c.partNodeType = n.nodeType

theorem mem_detectOrphan (h : c ∈ detectOrphanPastGrace dag ctx t) :
    ∃ n ∈ dag.iterInInsertionOrder, c.Of n ∧ Orphaned dag ctx.tip t n ∧
      c.replacedByHash = none := by
  unfold detectOrphanPastGrace at h
  split at h
  · cases h
  · rename_i ht
    obtain ⟨n, hn, hc⟩ := List.mem_filterMap.1 h
    split at hc
    · rename_i hcond
      cases hc
      exact ⟨n, hn, ⟨rfl, rfl⟩, ⟨UInt64.not_le.1 ht, hcond⟩, rfl⟩
    · cases hc

theorem le_laterTouch (entry : Option UInt64) (n : DagNode) :
    n.createdAtCycle.toNat ≤ (laterTouch entry n).toNat := by
  unfold laterTouch
  split
  · exact Nat.le_refl _
  · exact UInt64.le_iff_toNat_le.1 (UInt64.not_lt.1 ‹_›)

theorem laterTouch_mono (v : UInt64) (n : DagNode) :
    v.toNat ≤ (laterTouch (some v) n).toNat := by
  unfold laterTouch
  rw [Option.getD_some]
  split
  · exact Nat.le_of_lt (UInt64.lt_iff_toNat_lt.1 ‹_›)
  · exact Nat.le_refl _

theorem mem_detectStaleAxis (h : c ∈ detectStaleAxisPastWindow dag ctx t) :
    ∃ n ∈ dag.iterInInsertionOrder, c.Of n ∧ StaleAxis dag t n ∧
      isPruneEligible n.nodeType n.hash ctx ∧ c.replacedByHash = none := by
  unfold detectStaleAxisPastWindow at h
  split at h
  · cases h
  · rename_i ht
    obtain ⟨n, hn, hc⟩ := List.mem_filterMap.1 h
    obtain ⟨name, hname, hc⟩ := Option.bind_eq_some_iff.1 hc
    dsimp only at hc
    split at hc
    · rename_i hcond
      cases hc
      refine ⟨n, hn, ⟨rfl, rfl⟩, ⟨UInt64.not_le.1 ht, name, hname, fun m hm hk => ?_⟩,
        hcond.2, rfl⟩
      obtain ⟨c, hlast⟩ : ∃ c, lastTouch dag name = some c := by
        rw [← Option.ne_none_iff_exists']
        exact fun hc => buildIndex_eq_none_iff.1 hc m hm hk
      have hle := le_buildIndex hlast le_laterTouch laterTouch_mono m hm hk
      have hcond := hcond.1
      rw [hlast, Option.getD_some, UInt64.le_iff_toNat_le] at hcond
      exact UInt64.le_iff_toNat_le.2 (Nat.le_trans hle hcond)
    · cases hc

theorem le_laterReplacement {entry : Option (UInt64 × NodeHash)} {cycle : UInt64}
    {hash : NodeHash} : cycle.toNat ≤ (laterReplacement entry cycle hash).1.toNat := by
  unfold laterReplacement
  split
  · exact Nat.le_refl _
  · exact Nat.le_of_lt (UInt64.lt_iff_toNat_lt.1 (UInt64.not_le.1 ‹_›))

theorem laterReplacement_mono {v : UInt64 × NodeHash} {cycle : UInt64} {hash : NodeHash} :
    v.1.toNat ≤ (laterReplacement (some v) cycle hash).1.toNat := by
  unfold laterReplacement
  rw [Option.getD_some]
  split
  · exact UInt64.le_iff_toNat_le.1 ‹_›
  · exact Nat.le_refl _

section

variable {ν κ : Type} [DecidableEq κ] {key : ν → Option κ} {d : ν → DagNode} {ns : List ν}
  {k : κ} {cycle : UInt64} {hash : NodeHash}

/-- The entry of an index of replacements is the latest of them. -/
theorem laterReplacement_spec
    (h : buildIndex key (fun entry e => laterReplacement entry (d e).createdAtCycle
      (d e).hash) ns k = some (cycle, hash)) :
    (∃ e ∈ ns, key e = some k ∧ (d e).createdAtCycle = cycle ∧ (d e).hash = hash) ∧
    ∀ e ∈ ns, key e = some k → (d e).createdAtCycle.toNat ≤ cycle.toNat := by
  constructor
  · have hrec : ∃ e ∈ ns, key e = some k ∧
        ((d e).createdAtCycle, (d e).hash) = (cycle, hash) := by
      refine buildIndex_rec (P := fun v => ∃ e ∈ ns, key e = some k ∧
        ((d e).createdAtCycle, (d e).hash) = v) (fun e he hk => ⟨e, he, hk, ?_⟩)
        (fun e he hk v hv => ?_) h
      · rw [laterReplacement, if_pos]
        show (0 : UInt64) ≤ _
        rw [UInt64.le_iff_toNat_le]
        exact Nat.zero_le _
      · rw [laterReplacement, Option.getD_some]
        split
        · exact ⟨e, he, hk, rfl⟩
        · exact hv
    obtain ⟨e, he, hk, heq⟩ := hrec
    exact ⟨e, he, hk, congrArg Prod.fst heq, congrArg Prod.snd heq⟩
  · intro e he hk
    exact le_buildIndex (f := fun e => (d e).createdAtCycle.toNat)
      (g := fun v : UInt64 × NodeHash => v.1.toNat) h (fun _ _ => le_laterReplacement)
      (fun _ _ => laterReplacement_mono) e he hk

end

/-- What is past grace stays past grace for anything earlier. -/
theorem grace_of_le {grace t a b : UInt64} (h : grace < saturatingSub t b)
    (hab : a.toNat ≤ b.toNat) : grace < saturatingSub t a := by
  rw [UInt64.lt_iff_toNat_lt, saturatingSub_toNat] at h ⊢
  omega

theorem mem_detectFailedEvolution (h : c ∈ detectSupersededByFailedEvolution dag ctx t) :
    ∃ n ∈ dag.iterInInsertionOrder, c.Of n ∧ isPruneEligible n.nodeType n.hash ctx ∧
      Falsified dag t n ∧ ∃ f ∈ dag.iterInInsertionOrder, FailureOf n f ∧
        n.createdAtCycle < f.createdAtCycle ∧ c.replacedByHash = some f.hash := by
  unfold detectSupersededByFailedEvolution at h
  split at h
  · cases h
  · rename_i ht
    obtain ⟨n, hn, hc⟩ := List.mem_filterMap.1 h
    obtain ⟨op, hop, hc⟩ := Option.bind_eq_some_iff.1 hc
    obtain ⟨⟨cycle, hash⟩, hlast, hc⟩ := Option.bind_eq_some_iff.1 hc
    dsimp only at hc
    split at hc
    · rename_i hcond
      cases hc
      obtain ⟨⟨f, hf, hk, rfl, rfl⟩, hmax⟩ := laterReplacement_spec (d := id) hlast
      have hfail : FailureOf n f := ⟨op, hop, hk⟩
      refine ⟨n, hn, ⟨rfl, rfl⟩, hcond.2.2, ⟨UInt64.not_le.1 ht, ⟨f, hf, hfail, hcond.1⟩, ?_⟩,
        f, hf, hfail, hcond.1, rfl⟩
      rintro g hg ⟨op', hop', hk'⟩
      cases hop.symm.trans hop'
      exact grace_of_le hcond.2.1 (hmax g hg hk')
    · cases hc

theorem mem_supersessions {h : NodeHash} {p : DagNode} :
    (h, p) ∈ supersessions dag ↔ p ∈ dag.iterInInsertionOrder ∧ h ∈ supersedes p := by
  simp [supersessions, and_comm]

theorem mem_detectSupersededPlate (h : c ∈ detectForgedUnderstandingSuperseded dag ctx t) :
    ∃ n ∈ dag.iterInInsertionOrder, c.Of n ∧ isPruneEligible n.nodeType n.hash ctx ∧
      Superseded dag t n ∧ ∃ p ∈ dag.iterInInsertionOrder, n.hash ∈ supersedes p ∧
        n.createdAtCycle < p.createdAtCycle ∧ c.replacedByHash = some p.hash := by
  unfold detectForgedUnderstandingSuperseded at h
  split at h
  · cases h
  · rename_i ht
    obtain ⟨n, hn, hc⟩ := List.mem_filterMap.1 h
    split at hc
    · rename_i hpre
      obtain ⟨⟨cycle, hash⟩, hlast, hc⟩ := Option.bind_eq_some_iff.1 hc
      dsimp only at hc
      split at hc
      · rename_i hcond
        cases hc
        obtain ⟨⟨⟨k, p⟩, hp, hk, rfl, rfl⟩, hmax⟩ := laterReplacement_spec (d := Prod.snd) hlast
        cases hk
        rw [mem_supersessions] at hp
        refine ⟨n, hn, ⟨rfl, rfl⟩, hcond.2.2, ⟨hpre, UInt64.not_le.1 ht,
          ⟨p, hp.1, hp.2, hcond.1⟩, fun q hq hs => ?_⟩, p, hp.1, hp.2, hcond.1, rfl⟩
        exact grace_of_le hcond.2.1 (hmax (n.hash, q) (mem_supersessions.2 ⟨hq, hs⟩) rfl)
      · cases hc
    · cases hc

/-! ### Duplicates -/

/-- `e` begins its group, and a survivor is a later member. -/
structure DuplicateGroup.Begins (g : DuplicateGroup) (es : List (DagNode × Nat))
    (k : String × Bytes) (e : DagNode × Nat) : Prop where
  split : ∃ xs ys, es = xs ++ e :: ys ∧ (∀ d ∈ xs, duplicateKey d ≠ some k) ∧
    ∀ h, g.survivorHash = some h → ∃ d ∈ ys, duplicateKey d = some k ∧ d.1.hash = h
  key : duplicateKey e = some k
  first : g.firstHash = e.1.hash ∧ g.firstType = e.1.nodeType ∧ g.firstCycle = e.1.createdAtCycle
  survives : g.survivorHash ≠ some g.firstHash

theorem begins_of_buildIndex {es : List (DagNode × Nat)} {k : String × Bytes} {g : DuplicateGroup}
    (h : buildIndex duplicateKey joinGroup es k = some g) : ∃ e, g.Begins es k e := by
  induction es using List.reverseRecOn generalizing g with
  | nil => cases h
  | append_singleton es d ih =>
    rw [buildIndex_append] at h
    split at h
    · rename_i hk
      cases hg : buildIndex duplicateKey joinGroup es k with
      | none =>
        rw [hg] at h
        cases h
        exact ⟨d, ⟨es, [], rfl, buildIndex_eq_none_iff.1 hg, by simp [joinGroup]⟩, hk,
          ⟨rfl, rfl, rfl⟩, by simp [joinGroup]⟩
      | some g' =>
        obtain ⟨e, ⟨xs, ys, rfl, hxs, hys⟩, hke, hf, hne⟩ := ih hg
        rw [hg] at h
        cases h
        refine ⟨e, ⟨xs, ys ++ [d], by simp, hxs, fun h hs => ?_⟩, hke, ?_, ?_⟩
        · unfold joinGroup at hs
          dsimp only at hs
          split at hs
          · cases hs
            exact ⟨d, by simp, hk, rfl⟩
          · obtain ⟨d', hd', h⟩ := hys h hs
            exact ⟨d', by simp [hd'], h⟩
        · unfold joinGroup
          dsimp only
          split
          · exact hf
          · exact hf
        · unfold joinGroup
          dsimp only
          split
          · rename_i hcond
            exact fun hc => hcond.2 (Option.some.inj hc)
          · exact hne
    · obtain ⟨e, ⟨xs, ys, rfl, hxs, hys⟩, hke, hf, hne⟩ := ih h
      refine ⟨e, ⟨xs, ys ++ [d], by simp, hxs, fun h hs => ?_⟩, hke, hf, hne⟩
      obtain ⟨d', hd', h⟩ := hys h hs
      exact ⟨d', by simp [hd'], h⟩

theorem duplicateKey_eq_some {e : DagNode × Nat} {k : String × Bytes} :
    duplicateKey e = some k ↔ redundantInScope e.1.nodeType ∧ (e.1.nodeType, e.1.content) = k := by
  unfold duplicateKey
  split
  · simp [*]
  · simp [*]

theorem sameContent_of_key {e d : DagNode × Nat} {k : String × Bytes}
    (he : duplicateKey e = some k) (hd : duplicateKey d = some k) : SameContent e.1 d.1 := by
  rw [duplicateKey_eq_some] at he hd
  obtain ⟨h1, rfl⟩ := he
  exact ⟨h1, congrArg Prod.fst hd.2, congrArg Prod.snd hd.2⟩

theorem key_of_sameContent {e d : DagNode × Nat} {k : String × Bytes}
    (he : duplicateKey e = some k) (h : SameContent e.1 d.1) : duplicateKey d = some k := by
  rw [duplicateKey_eq_some] at he ⊢
  obtain ⟨-, rfl⟩ := he
  exact ⟨h.2.1 ▸ h.1, Prod.ext h.2.1 h.2.2⟩

theorem mem_detectDuplicate (h : c ∈ detectDuplicateContentSubsumed dag ctx t) :
    ∃ n ∈ dag.iterInInsertionOrder, c.Of n ∧ isPruneEligible n.nodeType n.hash ctx ∧
      Duplicated dag t n ∧ ∃ m ∈ dag.iterInInsertionOrder, SameContent n m ∧ m.hash ≠ n.hash ∧
        c.replacedByHash = some m.hash := by
  unfold detectDuplicateContentSubsumed at h
  split at h
  · cases h
  · rename_i ht
    obtain ⟨g, hg, rfl⟩ := List.mem_map.1 h
    rw [List.mem_insertionSort, List.mem_filter, decide_eq_true_eq] at hg
    obtain ⟨hg, hsome, hcut, hel⟩ := hg
    obtain ⟨k, hk⟩ := mem_indexValues.1 hg
    obtain ⟨e, ⟨xs, ys, hes, hxs, hys⟩, hke, ⟨h1, h2, h3⟩, hne⟩ := begins_of_buildIndex hk
    obtain ⟨survivor, hs⟩ := Option.isSome_iff_exists.1 hsome
    obtain ⟨d, hd, hkd, rfl⟩ := hys _ hs
    have hsplit : dag.iterInInsertionOrder =
        xs.map Prod.fst ++ e.1 :: ys.map Prod.fst := by
      rw [← List.map_cons, ← List.map_append, ← hes, List.zipIdx_map_fst]
    have hmem : ∀ d ∈ ys, d.1 ∈ dag.iterInInsertionOrder := by
      intro d hd
      rw [hsplit]
      exact List.mem_append_right _ (List.mem_cons_of_mem _ (List.mem_map_of_mem hd))
    rw [h1, h2] at hel
    refine ⟨e.1, by simp [hsplit], ⟨h1, h2⟩, hel, ⟨UInt64.not_le.1 ht, h3 ▸ hcut,
      xs.map Prod.fst, ys.map Prod.fst, hsplit, ?_, d.1, List.mem_map_of_mem hd,
      sameContent_of_key hke hkd⟩, d.1, hmem d hd, sameContent_of_key hke hkd, ?_, hs⟩
    · rintro m hm hsame
      obtain ⟨d', hd', rfl⟩ := List.mem_map.1 hm
      exact hxs d' hd' (key_of_sameContent hke hsame)
    · rw [← h1]
      exact fun hc => hne (hs.trans (congrArg some hc))

/-! ### Detached nodes -/

/-- The walk marks what its roots reach. -/
theorem mem_reachableFrom {l : Ledger blake3} {roots : List NodeHash} {h : NodeHash} :
    h ∈ reachableFrom l.dag roots ↔ ∃ r ∈ roots, Reaches l.dag r h := by
  refine mem_reachable_iff (List.subset_append_left roots (referenced l.dag)) ?_
    (by rw [List.length_append])
  intro x _ p hp
  refine List.mem_append_right _ ?_
  unfold parentsOf at hp
  cases hx : l.dag.get x with
  | none =>
    rw [hx] at hp
    cases hp
  | some n =>
    rw [hx] at hp
    exact List.mem_flatMap.2 ⟨n, (l.get_eq_some.1 hx).1, hp⟩

theorem mem_detectUnreachable {l : Ledger blake3}
    (h : c ∈ detectUnreachableFromLiveRoots l.dag ctx t) :
    ∃ n ∈ l.nodes, c.Of n ∧ isPruneEligible n.nodeType n.hash ctx ∧
      orphanGraceCycles < t ∧ n.createdAtCycle ≤ saturatingSub t orphanGraceCycles ∧
      Detached l.dag (liveRoots l.dag (saturatingSub t orphanGraceCycles)) n ∧
      c.replacedByHash = none := by
  unfold detectUnreachableFromLiveRoots at h
  split at h
  · cases h
  · rename_i ht
    obtain ⟨n, hn, hc⟩ := List.mem_filterMap.1 h
    split at hc
    · rename_i hcond
      cases hc
      refine ⟨n, hn, ⟨rfl, rfl⟩, hcond.2.2.2, UInt64.not_le.1 ht, hcond.1, ⟨hcond.2.1, ?_⟩, rfl⟩
      exact fun r hr hreach => hcond.2.2.1 (mem_reachableFrom.2 ⟨r, hr, hreach⟩)
    · cases hc

end Myco.Prune
