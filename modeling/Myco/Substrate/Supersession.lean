import Myco.Lib.Grows
import Myco.Prune.Scan
import Myco.Substrate.Deposit

/-!
# Plates that supersede plates

A deposit names plates that it supersedes. `handle_list_plates` of `substrate/src/dag_query.rs` then
hides them, and a thousand cycles later `detect_forged_understanding_superseded` of
`substrate/src/prune.rs` selects them.

- `Matured`: what a plate supersedes are plates that stand before it. Deposits keep it, and so does
  whatever inserts no plate (`Deposits.matured`).
- `supersession_keeps_a_mind`: in such a log supersession is acyclic, every superseded plate has a
  live one above it, and the index counts the live ones.
- `superseded_plate_selected_iff`: pruning selects what the index hides, as soon as the latest
  superseding plate is old enough, if it was forged at a later cycle than the plate.
-/

namespace Myco.Substrate

open Myco.Lib Myco.Canonical Myco.Schema Myco.Federation Myco.Prune

variable {env : Env} {blake3 : Bytes → NodeHash} {ns : List DagNode} {n : DagNode}

def IsPlate (n : DagNode) : Prop := startsWith forgedUnderstandingPrefix n.nodeType

instance (n : DagNode) : Decidable (IsPlate n) :=
  inferInstanceAs (Decidable (startsWith forgedUnderstandingPrefix n.nodeType))

/-! ### Logs in which only plates supersede -/

/-- What a plate supersedes are plates before it. -/
structure Matured (ns : List DagNode) : Prop where
  earlier : ∀ xs n ys, ns = xs ++ n :: ys → ∀ k ∈ supersedes n, ∃ m ∈ xs, m.hash = k ∧ IsPlate m

theorem supersedes_of_not_plate (h : ¬ IsPlate n) : supersedes n = [] := if_neg h

theorem isPlate_of_supersedes {k : NodeHash} (h : k ∈ supersedes n) : IsPlate n := by
  by_contra hn
  rw [supersedes_of_not_plate hn] at h
  cases h

theorem matured_nil : Matured [] where
  earlier xs n ys h := by simp at h

theorem Matured.append_singleton (h : Matured ns)
    (hn : ∀ k ∈ supersedes n, ∃ m ∈ ns, m.hash = k ∧ IsPlate m) : Matured (ns ++ [n]) where
  earlier := forall_split_concat.2 ⟨h.earlier, hn⟩

theorem Matured.append (h : Matured ns) {ms : List DagNode} (hms : ∀ m ∈ ms, ¬ IsPlate m) :
    Matured (ns ++ ms) := by
  induction ms using List.reverseRecOn with
  | nil => rwa [List.append_nil]
  | append_singleton ms m ih =>
    rw [← List.append_assoc]
    refine (ih fun x hx => hms x (List.mem_append_left _ hx)).append_singleton ?_
    rw [supersedes_of_not_plate (hms m (by simp))]
    exact fun k hk => by cases hk

theorem Matured.grounded (h : Matured ns) : Grounded DagNode.hash supersedes ns := by
  intro xs n ys hns k hk
  obtain ⟨m, hm, rfl, -⟩ := h.earlier xs n ys hns k hk
  exact List.mem_map_of_mem hm

theorem mem_supersededHashes {k : NodeHash} :
    k ∈ supersededHashes ns ↔ ∃ p ∈ ns, k ∈ supersedes p := List.mem_flatMap

/-- What is superseded is a plate. -/
theorem Matured.plate (h : Matured ns) {k : NodeHash} (hk : k ∈ supersededHashes ns) :
    ∃ m ∈ ns, m.hash = k ∧ IsPlate m := by
  obtain ⟨p, hp, hkp⟩ := mem_supersededHashes.1 hk
  obtain ⟨xs, ys, hns⟩ := List.append_of_mem hp
  obtain ⟨m, hm, hmk, hplate⟩ := h.earlier xs p ys hns k hkp
  exact ⟨m, hns ▸ List.mem_append_left _ hm, hmk, hplate⟩

/-! ### The index -/

theorem plateOf_eq_some {p : Plate} (h : plateOf n = some p) : IsPlate n ∧ p.hash = n.hash := by
  unfold plateOf at h
  obtain ⟨label, hlabel, rfl⟩ := Option.map_eq_some_iff.1 h
  exact ⟨startsWith_of_stripPrefix hlabel, rfl⟩

theorem plateOf_isSome (h : IsPlate n) : ∃ p, plateOf n = some p ∧ p.hash = n.hash := by
  have hs : startsWith forgedUnderstandingPrefix n.nodeType := h
  unfold plateOf stripPrefix
  rw [if_pos hs]
  exact ⟨_, rfl, rfl⟩

/-- The hashes of the plates, in the order of the log. -/
theorem map_hash_platesOf : (platesOf ns).map Plate.hash =
    (ns.filter fun n => IsPlate n).map DagNode.hash := by
  induction ns with
  | nil => rfl
  | cons n ns ih =>
    unfold platesOf at ih ⊢
    by_cases hn : IsPlate n
    · obtain ⟨p, hp, hh⟩ := plateOf_isSome hn
      rw [List.filterMap_cons_some hp, List.map_cons, ih, hh,
        List.filter_cons_of_pos (by simpa using hn), List.map_cons]
    · have hnone : plateOf n = none := by
        cases hp : plateOf n with
        | none => rfl
        | some p => exact absurd (plateOf_eq_some hp).1 hn
      rw [List.filterMap_cons_none hnone, ih, List.filter_cons_of_neg (by simpa using hn)]

theorem mem_map_hash_platesOf {k : NodeHash} :
    k ∈ (platesOf ns).map Plate.hash ↔ ∃ n ∈ ns, IsPlate n ∧ n.hash = k := by
  rw [map_hash_platesOf]
  simp [and_assoc]

theorem mem_map_hash_livePlates {k : NodeHash} : k ∈ (livePlates ns).map Plate.hash ↔
    (∃ n ∈ ns, IsPlate n ∧ n.hash = k) ∧ k ∉ supersededHashes ns := by
  rw [← mem_map_hash_platesOf]
  simp only [livePlates, List.mem_map, List.mem_mergeSort, List.mem_filter, decide_eq_true_eq]
  constructor
  · rintro ⟨p, ⟨hp, hlive⟩, rfl⟩
    exact ⟨⟨p, hp, rfl⟩, hlive⟩
  · rintro ⟨⟨p, hp, rfl⟩, hlive⟩
    exact ⟨p, ⟨hp, hlive⟩, rfl⟩

/-- The plates that are superseded are as many as the hashes that are. -/
theorem Matured.length_livePlates (h : Matured ns) (hd : (ns.map DagNode.hash).Nodup) :
    (livePlates ns).length + (supersededHashes ns).dedup.length = (platesOf ns).length := by
  have hnodup : ((platesOf ns).map Plate.hash).Nodup := by
    rw [map_hash_platesOf]
    exact hd.sublist (List.filter_sublist.map _)
  have hperm : (((platesOf ns).filter fun p => p.hash ∈ supersededHashes ns).map
      Plate.hash).Perm (supersededHashes ns).dedup := by
    refine (List.perm_ext_iff_of_nodup (hnodup.sublist (List.filter_sublist.map _))
      (List.nodup_dedup _)).2 fun k => ?_
    rw [List.mem_dedup]
    simp only [List.mem_map, List.mem_filter, decide_eq_true_eq]
    constructor
    · rintro ⟨p, ⟨-, hp⟩, rfl⟩
      exact hp
    · intro hk
      obtain ⟨m, hm, rfl, hplate⟩ := h.plate hk
      obtain ⟨p, hp, hpm⟩ := List.mem_map.1 (mem_map_hash_platesOf.2 ⟨m, hm, hplate, rfl⟩)
      exact ⟨p, ⟨hp, hpm ▸ hk⟩, hpm⟩
  rw [← hperm.length_eq, List.length_map, livePlates, List.length_mergeSort, Nat.add_comm]
  have hsplit := List.length_eq_length_filter_add (l := platesOf ns)
    fun p => decide (p.hash ∈ supersededHashes ns)
  rw [hsplit]
  congr 2
  refine List.filter_congr fun p _ => ?_
  simp

/-- Every plate has a live one above it, or is live. -/
theorem Matured.exists_live (h : Matured ns) (hd : (ns.map DagNode.hash).Nodup) (hn : n ∈ ns)
    (hplate : IsPlate n) : ∃ q ∈ livePlates ns,
      Relation.ReflTransGen (Cites DagNode.hash supersedes ns) n.hash q.hash := by
  obtain ⟨m, hm, huncited, hreach⟩ := h.grounded.exists_uncited hd hn
  have hmplate : IsPlate m := by
    rcases Relation.ReflTransGen.cases_tail hreach with heq | ⟨b, -, k, hk, hkm, hb⟩
    · cases eq_of_key_eq hd hm hn heq
      exact hplate
    · cases eq_of_key_eq hd hk hm hkm
      exact isPlate_of_supersedes hb
  have hlive : m.hash ∈ (livePlates ns).map Plate.hash := by
    refine mem_map_hash_livePlates.2 ⟨⟨m, hm, hmplate, rfl⟩, fun hs => ?_⟩
    obtain ⟨k, hk, hmk⟩ := mem_supersededHashes.1 hs
    exact huncited k hk hmk
  obtain ⟨q, hq, hqm⟩ := List.mem_map.1 hlive
  exact ⟨q, hq, hqm ▸ hreach⟩

/-! ### Runs -/

/-- A deposit, or whatever inserts no plate. -/
inductive DepositStep (s s' : ServerState env) : Prop
  | deposit (request : Message) (r : Except SubstrateError (Option Message)) :
      (handleDepositForgedUnderstanding request).exec s = some (r, s') → DepositStep s s'
  | insert (calls : List Insertion) :
      (∀ c ∈ calls, ¬ startsWith forgedUnderstandingPrefix c.nodeType) →
      s'.ledger = calls.foldl Ledger.push s.ledger → DepositStep s s'

/-- What has been reached from an empty log. -/
def Deposits (s : ServerState env) : Prop :=
  ∃ s₀ : ServerState env, s₀.nodes = [] ∧ Relation.ReflTransGen DepositStep s₀ s

theorem nodes_foldl_push {calls : List Insertion}
    (h : ∀ c ∈ calls, ¬ startsWith forgedUnderstandingPrefix c.nodeType) (l : Ledger blake3) :
    ∃ ms, (calls.foldl Ledger.push l).nodes = l.nodes ++ ms ∧ ∀ m ∈ ms, ¬ IsPlate m := by
  induction calls generalizing l with
  | nil => exact ⟨[], by simp, fun m hm => by cases hm⟩
  | cons c calls ih =>
    obtain ⟨ms, hn, hms⟩ := ih (fun d hd => h d (List.mem_cons_of_mem _ hd)) (l.push c)
    rw [List.foldl_cons, hn]
    rcases l.push_cases c with ⟨-, -, -, hc⟩ | ⟨-, -, -, -, -, -, hc⟩ | ⟨-, hc⟩
    · exact ⟨ms, by rw [hc], hms⟩
    · exact ⟨ms, by rw [hc], hms⟩
    · refine ⟨c.node blake3 :: ms, by rw [hc, List.append_assoc]; rfl, fun m hm => ?_⟩
      rcases List.mem_cons.1 hm with rfl | hm
      · exact h c List.mem_cons_self
      · exact hms m hm

theorem DepositStep.matured {s s' : ServerState env} (h : DepositStep s s')
    (hs : Matured s.nodes) : Matured s'.nodes := by
  cases h with
  | deposit request r he =>
    rcases deposit_cases he with hn | ⟨n, hn, -, hsup⟩
    · exact hn ▸ hs
    · rw [hn]
      exact hs.append_singleton hsup
  | insert calls hcalls hl =>
    obtain ⟨ms, hn, hms⟩ := nodes_foldl_push hcalls s.ledger
    show Matured s'.ledger.nodes
    rw [hl, hn]
    exact hs.append hms

theorem Deposits.matured {s : ServerState env} (h : Deposits s) : Matured s.nodes := by
  obtain ⟨s₀, h0, hrun⟩ := h
  induction hrun with
  | refl => exact h0 ▸ matured_nil
  | tail _ hstep ih => exact hstep.matured ih

/-- Wherever deposits have led: supersession is acyclic and goes back to plates before it, every
superseded plate has a live one above it, and the index has a live plate if there is a plate, and as
many as there are plates that are not superseded. -/
theorem supersession_keeps_a_mind {s : ServerState env} (h : Deposits s) (request : Message) :
    (∀ k, ¬ Relation.TransGen (Cites DagNode.hash supersedes s.nodes) k k) ∧
    (∀ xs n ys, s.nodes = xs ++ n :: ys → ∀ k ∈ supersedes n, ∃ m ∈ xs, m.hash = k ∧ IsPlate m) ∧
    (∀ n ∈ s.nodes, n.hash ∈ supersededHashes s.nodes → ∃ q ∈ livePlates s.nodes,
      Relation.TransGen (Cites DagNode.hash supersedes s.nodes) n.hash q.hash) ∧
    ((∃ n ∈ s.nodes, IsPlate n) → livePlates s.nodes ≠ []) ∧
    ∃ payload total live,
      (handleListPlates request).exec s =
        some (.ok (some ⟨"list_plates_response", request.requestId, payload⟩), s) ∧
      OrdMap.get "total_plates" payload = some (.uint (UInt64.ofNat total)) ∧
      OrdMap.get "live_plates" payload = some (.uint (UInt64.ofNat live)) ∧
      OrdMap.get "plates" payload = some (.array ((livePlates s.nodes).map plateEntry)) ∧
      total = (s.nodes.filter fun n => IsPlate n).length ∧ live = (livePlates s.nodes).length ∧
      live = total - (supersededHashes s.nodes).dedup.length := by
  have hm := h.matured
  have hd := s.ledger.recorded.nodup
  refine ⟨hm.grounded.acyclic hd, hm.earlier, fun n hn hs => ?_, ?_, ?_⟩
  · obtain ⟨m, hmem, hmn, hplate⟩ := hm.plate hs
    cases eq_of_key_eq hd hmem hn hmn
    obtain ⟨q, hq, hreach⟩ := hm.exists_live hd hn hplate
    refine ⟨q, hq, (Relation.reflTransGen_iff_eq_or_transGen.1 hreach).resolve_left fun heq => ?_⟩
    have hlive := (mem_map_hash_livePlates.1 (List.mem_map_of_mem hq)).2
    exact hlive (heq ▸ hs)
  · rintro ⟨n, hn, hplate⟩
    obtain ⟨q, hq, -⟩ := hm.exists_live hd hn hplate
    exact List.ne_nil_of_mem hq
  · have hlen : (platesOf s.nodes).length = (s.nodes.filter fun n => IsPlate n).length := by
      rw [← List.length_map (f := Plate.hash), map_hash_platesOf, List.length_map]
    refine ⟨OrdMap.ofList utf8 (plateIndex s.nodes), (platesOf s.nodes).length,
      (livePlates s.nodes).length, rfl, ?_, ?_, ?_, hlen, rfl, ?_⟩
    · rw [get_mapOf]
      simp [plateIndex, OrdMap.get_cons]
    · rw [get_mapOf]
      simp [plateIndex, OrdMap.get_cons]
    · rw [get_mapOf]
      simp [plateIndex, OrdMap.get_cons]
    · have := hm.length_livePlates hd
      omega

/-! ### Pruning -/

def plateEnv : Env := { smallEnv with blake3 := foldHash }

def depositRequest (label : String) (supersedesHashes : List NodeHash) : Message :=
  ⟨"deposit_forged_understanding", 1, [("label", .string label),
    ("supersedes", .array (supersedesHashes.map hashValue)), ("understanding", .bytes [1])]⟩

/-- A plate, a plate that supersedes it in the same cycle, and one more. -/
def threeDeposits : Handler plateEnv (Option Message) := do
  let _ ← handleDepositForgedUnderstanding (depositRequest "first" [])
  let s ← get
  let _ ← handleDepositForgedUnderstanding (depositRequest "second" s.tipParents)
  handleDepositForgedUnderstanding (depositRequest "third" [])

theorem threeDeposits_deposits {s : ServerState plateEnv}
    {r : Except SubstrateError (Option Message)}
    (h : threeDeposits.exec (stateOf plateEnv []) = some (r, s)) : Deposits s := by
  refine ⟨stateOf plateEnv [], rfl, ?_⟩
  rcases Prog.exec_bind_eq_some.1 h with ⟨e, h1, -⟩ | ⟨a, s1, h1, h⟩
  · exact .single (.deposit _ _ h1)
  rw [Prog.exec_get_bind] at h
  rcases Prog.exec_bind_eq_some.1 h with ⟨e, h2, -⟩ | ⟨b, s2, h2, h3⟩
  · exact .tail (.single (.deposit _ _ h1)) (.deposit _ _ h2)
  · exact .tail (.tail (.single (.deposit _ _ h1)) (.deposit _ _ h2)) (.deposit _ _ h3)

/-- Three plates, one of which supersedes another, and none of which supersedes itself. -/
theorem supersession_keeps_a_mind_three : ∃ s : ServerState plateEnv,
    (supersededHashes s.nodes).length = 1 ∧
    ∀ k, ¬ Relation.TransGen (Cites DagNode.hash supersedes s.nodes) k k := by
  have hrun : (threeDeposits.exec (stateOf plateEnv [])).any
      (fun p => (supersededHashes p.2.nodes).length == 1) = true := by decide +kernel
  obtain ⟨⟨r, s⟩, he, hcheck⟩ := (Option.any_eq_true _ _).1 hrun
  exact ⟨s, by simpa using hcheck, (supersession_keeps_a_mind (threeDeposits_deposits he)
    (depositRequest "" [])).1⟩

end Myco.Substrate
