import Myco.Lib.StableSort
import Myco.Substrate.Supersession

/-!
# The order of the plate index

`handle_list_plates` says of its list: sorted by value, descending, value-less last, ties in the
order of insertion. The sort key takes a missing value for 0, so a plate without a value and one of
value 0 tie, and keep the order of the log.
-/

namespace Myco.Substrate

open Myco.Lib Myco.Canonical Myco.Schema Myco.Federation Myco.Prune

variable {env : Env} {ns : List DagNode}

/-- `a` was inserted before `b`. -/
def Before (ns : List DagNode) (a b : NodeHash) : Prop := [a, b].Sublist (ns.map DagNode.hash)

/-- `a` may stand before `b` in a list that is ordered as documented. -/
structure InOrder (ns : List DagNode) (a b : Plate) : Prop where
  descending : ∀ v w, a.value = some v → b.value = some w → w ≤ v
  tied : a.value = b.value → Before ns a.hash b.hash
  valuelessLast : a.value = none → b.value = none

/-- The list as documented: the live plates, each once, in order. -/
structure Documented (ns : List DagNode) (listed : List Plate) : Prop where
  live : ∀ p, p ∈ listed ↔
    ∃ n ∈ ns, IsPlate n ∧ plateOf n = some p ∧ n.hash ∉ supersededHashes ns
  once : (listed.map Plate.hash).Nodup
  inOrder : listed.Pairwise (InOrder ns)

/-- The live plates in the order of the log. -/
def liveInOrder (ns : List DagNode) : List Plate :=
  (platesOf ns).filter fun p => p.hash ∉ supersededHashes ns

/-- The comparison of the sort. -/
def atLeast (a b : Plate) : Bool := b.value.getD 0 ≤ a.value.getD 0

theorem livePlates_eq : livePlates ns = (liveInOrder ns).mergeSort atLeast := rfl

theorem atLeast_iff {a b : Plate} :
    atLeast a b ↔ (b.value.getD 0).toNat ≤ (a.value.getD 0).toNat := by
  simp [atLeast, UInt64.le_iff_toNat_le]

theorem atLeast_trans (a b c : Plate) (hab : atLeast a b) (hbc : atLeast b c) :
    atLeast a c := by
  rw [atLeast_iff] at *
  omega

theorem atLeast_total (a b : Plate) : atLeast a b || atLeast b a := by
  rw [Bool.or_eq_true, atLeast_iff, atLeast_iff]
  omega

/-! ### Which plates are listed -/

theorem mem_livePlates {p : Plate} : p ∈ livePlates ns ↔
    ∃ n ∈ ns, IsPlate n ∧ plateOf n = some p ∧ n.hash ∉ supersededHashes ns := by
  rw [livePlates_eq, List.mem_mergeSort, liveInOrder, List.mem_filter, decide_eq_true_eq,
    platesOf, List.mem_filterMap]
  constructor
  · rintro ⟨⟨n, hn, hp⟩, hlive⟩
    obtain ⟨hplate, hh⟩ := plateOf_eq_some hp
    exact ⟨n, hn, hplate, hp, hh ▸ hlive⟩
  · rintro ⟨n, hn, -, hp, hlive⟩
    exact ⟨⟨n, hn, hp⟩, (plateOf_eq_some hp).2 ▸ hlive⟩

theorem map_hash_platesOf_sublist :
    ((platesOf ns).map Plate.hash).Sublist (ns.map DagNode.hash) := by
  rw [map_hash_platesOf]
  exact List.filter_sublist.map _

theorem liveInOrder_sublist : ((liveInOrder ns).map Plate.hash).Sublist (ns.map DagNode.hash) :=
  (List.filter_sublist.map _).trans map_hash_platesOf_sublist

theorem nodup_livePlates (hd : (ns.map DagNode.hash).Nodup) :
    ((livePlates ns).map Plate.hash).Nodup := by
  have hperm := (List.mergeSort_perm (liveInOrder ns) atLeast).map Plate.hash
  exact hperm.nodup_iff.2 (hd.sublist liveInOrder_sublist)

/-! ### The order -/

/-- No live plate without a value was inserted before a live plate of value 0. -/
def ZerosFirst (ns : List DagNode) : Prop :=
  (liveInOrder ns).Pairwise fun a b => a.value = none → b.value ≠ some 0

/-- A plate stands before one with a smaller key as it should. -/
theorem inOrder_of_not_atLeast {a b : Plate} (h : ¬ atLeast b a) : InOrder ns a b := by
  rw [atLeast_iff] at h
  refine ⟨fun v w ha hb => ?_, fun hab => ?_, fun ha => ?_⟩
  · rw [ha, hb] at h
    exact UInt64.le_iff_toNat_le.2 (by simpa using (Nat.lt_of_not_le h).le)
  · exact absurd (le_of_eq (by rw [hab])) h
  · rw [ha] at h
    exact absurd (Nat.zero_le _) h

/-- Of two plates that tie, inserted in this order, only the pair of no value and 0 is wrong. -/
theorem inOrder_of_tied {a b : Plate} (hab : atLeast a b) (hba : atLeast b a)
    (hbefore : Before ns a.hash b.hash) :
    InOrder ns a b ↔ (a.value = none → b.value ≠ some 0) := by
  rw [atLeast_iff] at hab hba
  have hkey : a.value.getD 0 = b.value.getD 0 := UInt64.toNat_inj.1 (Nat.le_antisymm hba hab)
  constructor
  · intro h ha hb
    rw [h.valuelessLast ha] at hb
    cases hb
  · intro h
    refine ⟨fun v w ha hb => ?_, fun _ => hbefore, fun ha => ?_⟩
    · rw [ha, hb] at hab
      exact UInt64.le_iff_toNat_le.2 hab
    · cases hb : b.value with
      | none => rfl
      | some w =>
        rw [ha, hb] at hkey
        exact absurd (hb.trans (congrArg some hkey.symm)) (h ha)

theorem livePlates_inOrder_iff :
    (livePlates ns).Pairwise (InOrder ns) ↔ ZerosFirst ns := by
  rw [livePlates_eq, pairwise_mergeSort_iff atLeast_trans atLeast_total]
  simp only [ZerosFirst, List.pairwise_iff_forall_sublist]
  constructor
  · rintro ⟨htie, -⟩ a b hsub ha hb
    have hbefore : Before ns a.hash b.hash := (hsub.map Plate.hash).trans liveInOrder_sublist
    have hab : atLeast a b := by simp [atLeast_iff, ha, hb]
    have hba : atLeast b a := by simp [atLeast_iff, ha, hb]
    exact (inOrder_of_tied hab hba hbefore).1 (htie hsub hab hba) ha hb
  · intro h
    refine ⟨fun {a b} hsub hab hba => ?_, fun a _ b _ => inOrder_of_not_atLeast⟩
    exact (inOrder_of_tied hab hba ((hsub.map Plate.hash).trans liveInOrder_sublist)).2 (h hsub)

/-! ### The call -/

def decodePanics (content : Bytes) : Bool :=
  match decode content with
  | .error .panic => true
  | _ => false

/-- The decoder, which reads the content of every plate, returns on each. -/
def Readable (ns : List DagNode) : Prop := ∀ n ∈ ns, IsPlate n → ¬ decodePanics n.content

instance : Decidable (Readable ns) := List.decidableBAll _ _

/-- `handle_list_plates` with the panic of the decoder, which is not caught. -/
def callListPlates (request : Message) : Handler env (Option Message) := do
  let s ← get
  if Readable s.nodes then handleListPlates request else Prog.halt

theorem callListPlates_exec {s : ServerState env} {request : Message} {r}
    (h : (callListPlates request).exec s = some r) : Readable s.nodes ∧
      r = (.ok (some ⟨"list_plates_response", request.requestId,
        OrdMap.ofList utf8 (plateIndex s.nodes)⟩), s) := by
  unfold callListPlates at h
  rw [Prog.exec_get_bind] at h
  by_cases hr : Readable s.nodes
  · rw [if_pos hr] at h
    exact ⟨hr, (Option.some.inj h).symm⟩
  · rw [if_neg hr] at h
    cases h

theorem get_plateIndex :
    OrdMap.get "plates" (OrdMap.ofList utf8 (plateIndex ns)) =
      some (.array ((livePlates ns).map plateEntry)) := by
  rw [get_mapOf]
  simp [plateIndex, OrdMap.get_cons]

theorem plateEntry_injective : Function.Injective plateEntry := by
  intro p q h
  have hget : ∀ key, OrdMap.get key
      ([("hash", hashValue p.hash), ("label", .string p.label)] ++
        entryIf "value" .uint p.value).reverse =
      OrdMap.get key ([("hash", hashValue q.hash), ("label", .string q.label)] ++
        entryIf "value" .uint q.value).reverse := fun key => by
    rw [← get_mapOf, ← get_mapOf, Value.map.inj h]
  have hhash := hget "hash"
  have hlabel := hget "label"
  have hvalue := hget "value"
  obtain ⟨ph, pl, pv⟩ := p
  obtain ⟨qh, ql, qv⟩ := q
  have hbytes : ph = qh := by
    simp only [entryIf, hashValue] at hhash
    cases pv <;> cases qv <;> exact Hash32.ext (by simpa [OrdMap.get_cons] using hhash)
  subst hbytes
  cases pv <;> cases qv <;> simp_all [entryIf, OrdMap.get_cons]

/-- What a call answers is a list as documented. -/
def AnswersAsDocumented (s : ServerState env) (request : Message) : Prop :=
  ∃ payload listed,
    (callListPlates request).exec s =
      some (.ok (some ⟨"list_plates_response", request.requestId, payload⟩), s) ∧
    OrdMap.get "plates" payload = some (.array (listed.map plateEntry)) ∧
    Documented s.nodes listed

theorem AnswersAsDocumented.inOrder {s : ServerState env} {request : Message}
    (h : AnswersAsDocumented s request) : Readable s.nodes ∧ ZerosFirst s.nodes := by
  obtain ⟨payload, listed, hexec, hget, hdoc⟩ := h
  obtain ⟨hr, hresult⟩ := callListPlates_exec hexec
  cases hresult
  rw [get_plateIndex] at hget
  have heq := plateEntry_injective.list_map (Value.array.inj (Option.some.inj hget))
  exact ⟨hr, livePlates_inOrder_iff.1 (heq ▸ hdoc.inOrder)⟩

/-- A call lists the live plates as documented just when the decoder can read the plates and no
live plate without a value was inserted before a live plate of value 0. -/
theorem plates_listed_as_documented_iff (s : ServerState env) (request : Message) :
    AnswersAsDocumented s request ↔ Readable s.nodes ∧ ZerosFirst s.nodes := by
  refine ⟨AnswersAsDocumented.inOrder, ?_⟩
  rintro ⟨hr, hz⟩
  refine ⟨_, livePlates s.nodes, ?_, get_plateIndex, fun p => mem_livePlates,
    nodup_livePlates s.ledger.recorded.nodup, livePlates_inOrder_iff.2 hz⟩
  unfold callListPlates
  rw [Prog.exec_get_bind, if_pos hr]
  rfl

/-! ### A plate of value 0 behind one without -/

/-- A plate without a value is deposited, then one of value 0. -/
def valuelessThenZero : Handler plateEnv (Option Message) := do
  let _ ← handleDepositForgedUnderstanding (depositRequest "valueless" [])
  handleDepositForgedUnderstanding ⟨"deposit_forged_understanding", 2,
    [("label", .string "worthless"), ("understanding", .bytes [2]), ("value", .uint 0)]⟩

theorem valueless_listed_before_zero : ∃ s : ServerState plateEnv, Deposits s ∧
    ∀ request, ¬ AnswersAsDocumented s request := by
  have hrun : (valuelessThenZero.exec (stateOf plateEnv [])).any
      (fun p => (liveInOrder p.2.nodes).map Plate.value == [none, some 0]) = true := by
    decide +kernel
  obtain ⟨⟨r, s⟩, he, hcheck⟩ := (Option.any_eq_true _ _).1 hrun
  have hvalues : (liveInOrder s.nodes).map Plate.value = [none, some 0] := by simpa using hcheck
  refine ⟨s, ⟨stateOf plateEnv [], rfl, ?_⟩, fun request h => ?_⟩
  · rcases Prog.exec_bind_eq_some.1 he with ⟨e, h1, -⟩ | ⟨a, s1, h1, h2⟩
    · exact .single (.deposit _ _ h1)
    · exact .tail (.single (.deposit _ _ h1)) (.deposit _ _ h2)
  · have hz := h.inOrder.2
    have hpair : ([none, some 0] : List (Option UInt64)).Pairwise
        fun v w => v = none → w ≠ some 0 := by
      rw [← hvalues, List.pairwise_map]
      exact hz
    simp at hpair

end Myco.Substrate
