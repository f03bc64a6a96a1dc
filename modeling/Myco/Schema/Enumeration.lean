import Myco.Schema.Dag

/-!
# What an insertion records, and what a co-sign enumerates

`insert_node` and `enumerate_since` of `kernel/schema/src/dag.rs`, from the side of those who call
them.

- `insertNode_records_iff`: an accepted insertion can be looked up as it was asked for, unless a
  node with its parents and its content was there under another type or cycle. The test for
  duplicates does not compare these two.
- `enumerateSince_ofNodes`: what comes after a node, in the order of insertion.
- `cosigned_ofNodes`: successive enumerations, each since the tip at the one before, make up the
  whole order.
-/

namespace Myco.Schema

open Myco.Lib Myco.Canonical

variable {blake3 : Bytes → NodeHash} {ns : List DagNode}

/-! ### What an insertion records -/

/-- The node was asked for by the call. -/
def DagNode.Records (n : DagNode) (c : Insertion) : Prop :=
  n.parentHashes = c.parentHashes ∧ n.nodeType = c.nodeType ∧
    n.createdAtCycle = c.createdAtCycle ∧ n.content = c.content

/-- No node stands in for the call: one with its parents and content has its type and cycle. -/
def NoStandIn (d : Dag) (c : Insertion) : Prop :=
  ∀ k n, d.get k = some n → n.parentHashes = c.parentHashes → n.content = c.content →
    n.nodeType = c.nodeType ∧ n.createdAtCycle = c.createdAtCycle

/-- A node that is found in place of the call's own has the hash that the call asks for. -/
theorem Recorded.hash_eq (h : Recorded blake3 ns) {n : DagNode} (hn : n ∈ ns) {c : Insertion}
    (hp : n.parentHashes = c.parentHashes) (hc : n.content = c.content) :
    n.hash = (c.node blake3).hash := by
  rw [h.hashed n hn, hp, hc]
  rfl

theorem insertNode_records_iff (blake3 : Bytes → NodeHash) (calls : List Insertion)
    (c : Insertion) (h : NodeHash)
    (hok : (insertNode blake3 (insertAll blake3 calls) c).1 = .ok h) :
    (∃ n, (insertNode blake3 (insertAll blake3 calls) c).2.get h = some n ∧ n.Records c) ↔
      NoStandIn (insertAll blake3 calls) c := by
  obtain ⟨ns, hr, hd⟩ := insertAll_recorded blake3 calls
  rw [hd] at hok ⊢
  unfold NoStandIn
  rcases insertNode_cases hr c with ⟨e, -, he⟩ | ⟨m, hm, hkey, hp, hc, he⟩ | ⟨hr', he⟩
  · rw [he] at hok
    cases hok
  · -- the call found `m`, and `m` is all there is under that hash
    rw [he] at hok ⊢
    cases hok
    have hget : (Dag.ofNodes ns).get m.hash = some m := hr.get_eq_some.2 ⟨hm, rfl⟩
    constructor
    · rintro ⟨n, hn, -, ht, hcyc, -⟩ k n' hn' hp' hc'
      obtain ⟨hmem, -⟩ := hr.get_eq_some.1 hn'
      have hsame : n'.hash = m.hash := (hr.hash_eq hmem hp' hc').trans hkey.symm
      cases eq_of_key_eq hr.nodup hmem hm hsame
      rw [hget] at hn
      cases hn
      exact ⟨ht, hcyc⟩
    · intro hall
      obtain ⟨ht, hcyc⟩ := hall m.hash m hget hp hc
      exact ⟨m, hget, hp, ht, hcyc, hc⟩
  · rw [he] at hok ⊢
    cases hok
    constructor
    · rintro - k n hn hp hc
      obtain ⟨hmem, -⟩ := hr.get_eq_some.1 hn
      have hfresh := (recorded_append_node.1 hr').2.2.2
      exact absurd (List.mem_map.2 ⟨n, hmem, hr.hash_eq hmem hp hc⟩) hfresh
    · rintro -
      exact ⟨c.node blake3, hr'.get_eq_some.2 ⟨by simp, rfl⟩, rfl, rfl, rfl, rfl⟩

/-- A delta that follows a genesis with the same content is accepted and not recorded. -/
theorem delta_swallowed :
    ∃ h, (insertNode (fun b => .replicate (UInt8.ofNat b.length))
        (insertAll (fun b => .replicate (UInt8.ofNat b.length)) [⟨[], "genesis", 0, []⟩])
        ⟨[], "delta", 5, []⟩).1 = .ok h ∧
      ¬ ∃ n, (insertNode (fun b => .replicate (UInt8.ofNat b.length))
        (insertAll (fun b => .replicate (UInt8.ofNat b.length)) [⟨[], "genesis", 0, []⟩])
        ⟨[], "delta", 5, []⟩).2.get h = some n ∧ n.Records ⟨[], "delta", 5, []⟩ := by
  refine ⟨.replicate 8, rfl, ?_⟩
  rintro ⟨n, hn, -, ht, -⟩
  have hgenesis : n = ⟨.replicate 8, [], "genesis", 0, []⟩ := (Option.some.inj hn).symm
  rw [hgenesis] at ht
  exact absurd ht (by decide)

/-- A genesis that is inserted twice is recorded. -/
theorem genesis_recorded :
    ∃ n, (insertNode (fun b => .replicate (UInt8.ofNat b.length))
        (insertAll (fun b => .replicate (UInt8.ofNat b.length)) [⟨[], "genesis", 0, []⟩])
        ⟨[], "genesis", 0, []⟩).2.get (.replicate 8) = some n ∧
      n.Records ⟨[], "genesis", 0, []⟩ := by
  refine (insertNode_records_iff _ [⟨[], "genesis", 0, []⟩] _ _ rfl).2 ?_
  intro k n hn _ _
  by_cases hk : k = .replicate 8
  · subst hk
    cases hn
    exact ⟨rfl, rfl⟩
  · exfalso
    obtain ⟨ns, hr, hd⟩ := insertAll_recorded (fun b => .replicate (UInt8.ofNat b.length))
      [⟨[], "genesis", 0, []⟩]
    rw [hd] at hn
    have horder : ns.map DagNode.hash = [.replicate 8] := (congrArg Dag.insertionOrder hd).symm
    obtain ⟨hmem, rfl⟩ := hr.get_eq_some.1 hn
    have := List.mem_map_of_mem (f := DagNode.hash) hmem
    rw [horder] at this
    exact hk (List.mem_singleton.1 this)

/-! ### What a co-sign enumerates -/

theorem enumerateSince_none (d : Dag) : d.enumerateSince none = .ok d.insertionOrder := rfl

/-- What comes after a node. -/
theorem enumerateSince_some {d : Dag} {xs ys : List NodeHash} {t : NodeHash}
    (h : d.insertionOrder = xs ++ t :: ys) (hd : d.insertionOrder.Nodup) :
    d.enumerateSince (some t) = .ok ys := by
  have hxs : t ∉ xs := by
    rw [h] at hd
    exact fun hm => (List.nodup_append.1 hd).2.2 t hm t List.mem_cons_self rfl
  have hidx : d.insertionOrder.findIdx? (· = t) = some xs.length := by
    rw [h, List.findIdx?_append]
    have hnone : xs.findIdx? (· = t) = none := by
      rw [List.findIdx?_eq_none_iff]
      intro x hx
      exact decide_eq_false fun he => hxs (he ▸ hx)
    rw [hnone]
    simp [List.findIdx?_cons]
  have hdrop : d.insertionOrder.drop (xs.length + 1) = ys := by
    rw [h, ← List.singleton_append, ← List.append_assoc]
    exact List.drop_left' (by simp)
  rw [Dag.enumerateSince]
  simp only [hidx, hdrop]

/-- The DAG after further calls. -/
def Dag.insertMore (blake3 : Bytes → NodeHash) (d : Dag) (calls : List Insertion) : Dag :=
  calls.foldl (fun d c => (insertNode blake3 d c).2) d

/-- Further calls add nodes at the end. -/
theorem insertMore_ofNodes (h : Recorded blake3 ns) (calls : List Insertion) :
    ∃ ms, Recorded blake3 (ns ++ ms) ∧
      (Dag.ofNodes ns).insertMore blake3 calls = .ofNodes (ns ++ ms) := by
  induction calls generalizing ns with
  | nil => exact ⟨[], by simpa using h, by rw [List.append_nil]; rfl⟩
  | cons c calls ih =>
    have hstep : (Dag.ofNodes ns).insertMore blake3 (c :: calls) =
        (insertNode blake3 (.ofNodes ns) c).2.insertMore blake3 calls := rfl
    rcases insertNode_cases h c with ⟨e, -, he⟩ | ⟨n, -, -, -, -, he⟩ | ⟨hr, he⟩
    · rw [hstep, he]
      exact ih h
    · rw [hstep, he]
      exact ih h
    · rw [hstep, he]
      obtain ⟨ms, hr', hm⟩ := ih hr
      refine ⟨c.node blake3 :: ms, ?_, ?_⟩
      · rwa [List.append_assoc, List.singleton_append] at hr'
      · rwa [List.append_assoc, List.singleton_append] at hm

/-- The co-signs of a run: after each batch of calls, everything since the tip at the co-sign
before. -/
def cosigned (blake3 : Bytes → NodeHash) (d : Dag) (prevTip : Option NodeHash) :
    List (List Insertion) → Except DagError (List NodeHash)
  | [] => .ok []
  | calls :: rest => do
    let d := d.insertMore blake3 calls
    let hashes ← d.enumerateSince prevTip
    let later ← cosigned blake3 d d.tip rest
    .ok (hashes ++ later)

/-- Since the tip of a history, what has been added to it. -/
theorem enumerateSince_tip {ms : List DagNode} (h : Recorded blake3 (ns ++ ms)) :
    (Dag.ofNodes (ns ++ ms)).enumerateSince (Dag.ofNodes ns).tip =
      .ok (ms.map DagNode.hash) := by
  have horder : (Dag.ofNodes (ns ++ ms)).insertionOrder =
      ns.map DagNode.hash ++ ms.map DagNode.hash := List.map_append
  rcases List.eq_nil_or_concat ns with rfl | ⟨xs, x, rfl⟩
  · exact congrArg Except.ok horder
  · have htip : (Dag.ofNodes (xs.concat x)).tip = some x.hash := by
      show ((xs.concat x).map DagNode.hash).getLast? = some x.hash
      simp
    rw [htip]
    have hsplit : ((Dag.ofNodes (xs.concat x ++ ms)).insertionOrder) =
        xs.map DagNode.hash ++ x.hash :: ms.map DagNode.hash := by
      rw [horder]
      simp
    exact enumerateSince_some hsplit h.nodup

/-- Successive co-signs enumerate, one after the other, what the run has added. -/
theorem cosigned_ofNodes (h : Recorded blake3 ns) (batches : List (List Insertion)) :
    ∃ ms, (Dag.ofNodes ns).insertMore blake3 batches.flatten = .ofNodes (ns ++ ms) ∧
      cosigned blake3 (.ofNodes ns) (Dag.ofNodes ns).tip batches = .ok (ms.map DagNode.hash) := by
  induction batches generalizing ns with
  | nil => exact ⟨[], by rw [List.append_nil]; rfl, rfl⟩
  | cons calls rest ih =>
    obtain ⟨ms, hr, hm⟩ := insertMore_ofNodes h calls
    obtain ⟨ks, hk, hlater⟩ := ih hr
    refine ⟨ms ++ ks, ?_, ?_⟩
    · have hsplit : (Dag.ofNodes ns).insertMore blake3 (calls :: rest).flatten =
          ((Dag.ofNodes ns).insertMore blake3 calls).insertMore blake3 rest.flatten := by
        rw [Dag.insertMore, List.flatten_cons, List.foldl_append]
        rfl
      rw [hsplit, hm, hk, List.append_assoc]
    · rw [cosigned, hm, enumerateSince_tip hr]
      show (cosigned blake3 (.ofNodes (ns ++ ms)) (Dag.ofNodes (ns ++ ms)).tip rest).bind _ = _
      rw [hlater, List.map_append]
      rfl

/-- Whatever is inserted in whatever order: the nodes up to one of them and what is enumerated
since are the whole order, parents stand before their children in it, and the co-signs of a run
add up. -/
theorem enumeration_complete (blake3 : Bytes → NodeHash) :
    (∀ calls t, t ∈ (insertAll blake3 calls).nodes →
      ∃ upTo since, (insertAll blake3 calls).insertionOrder = upTo ++ [t] ++ since ∧
        (insertAll blake3 calls).enumerateSince (some t) = .ok since ∧
        ∀ before h after, since = before ++ h :: after →
          ∀ n, (insertAll blake3 calls).get h = some n →
            ∀ ph ∈ n.parentHashes, ph ∈ upTo ++ [t] ∨ ph ∈ before) ∧
    ∀ batches : List (List Insertion),
      cosigned blake3 Dag.new none batches =
        (insertAll blake3 batches.flatten).enumerateSince none := by
  constructor
  · intro calls t ht
    obtain ⟨ns, hr, hd⟩ := insertAll_recorded blake3 calls
    have hinv := hr.inv
    rw [hd] at ht ⊢
    obtain ⟨xs, ys, hxs⟩ := List.append_of_mem ((hinv.keys t).2 ht)
    refine ⟨xs, ys, by rw [hxs]; simp, enumerateSince_some hxs hinv.nodup, ?_⟩
    intro before h after hys n hn ph hph
    have hsplit : (Dag.ofNodes ns).insertionOrder = (xs ++ [t] ++ before) ++ h :: after := by
      rw [hxs, hys]
      simp
    exact List.mem_append.1 (hinv.earlier _ h after hsplit n hn ph hph)
  · intro batches
    obtain ⟨ms, hm, hc⟩ := cosigned_ofNodes (@recorded_nil blake3) batches
    have hall : insertAll blake3 batches.flatten = .ofNodes ([] ++ ms) := hm
    rw [hall, enumerateSince_none]
    exact hc

/-- What has been added since a genesis. -/
theorem enumeration_since_genesis :
    ∃ upTo since, (insertAll (fun b => .replicate (UInt8.ofNat b.length))
        [⟨[], "genesis", 0, []⟩, ⟨[.replicate 8], "delta", 1, []⟩]).insertionOrder =
          upTo ++ [.replicate 8] ++ since ∧
      (insertAll (fun b => .replicate (UInt8.ofNat b.length))
        [⟨[], "genesis", 0, []⟩, ⟨[.replicate 8], "delta", 1, []⟩]).enumerateSince
          (some (.replicate 8)) = .ok since := by
  obtain ⟨upTo, since, h1, h2, -⟩ := (enumeration_complete
    (fun b => .replicate (UInt8.ofNat b.length))).1
      [⟨[], "genesis", 0, []⟩, ⟨[.replicate 8], "delta", 1, []⟩] (.replicate 8) (by decide)
  exact ⟨upTo, since, h1, h2⟩

end Myco.Schema
