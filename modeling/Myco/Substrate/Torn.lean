import Myco.Substrate.ServerState

/-!
# An event that cannot be read

`apply_event_with_dag` answers an event that it cannot read with an error. The other families read
all they need before they write, so that an error leaves the state alone; `apply_genesis` writes
the substrate's id and only then reads the time (`applyEventWithDag_unchanged_iff`).
-/

namespace Myco.Substrate

open Myco.Lib Myco.Canonical Myco.Schema

/-- A genesis event for a state without an id: its id can be read and its time cannot. -/
def TornGenesis (node : DagNode) (s : DerivedState) : Prop :=
  startsWith genesisPrefix node.nodeType ∧ s.substrateId = none ∧
    ∃ map id, decode node.content = .ok (.map map) ∧
      OrdMap.get "substrate_id" map = some (.bytes id) ∧ id.length = 32 ∧
      ∀ t, OrdMap.get "genesis_time_unix_ns" map ≠ some (.timestamp t)

theorem decodeEventMap_eq_ok {node : DagNode} {map : List (String × Value)} :
    decodeEventMap node = .ok map ↔ decode node.content = .ok (.map map) := by
  unfold decodeEventMap
  cases hd : decode node.content with
  | error e => simp [bind, Except.bind, Except.mapError]
  | ok v => cases v <;> simp [bind, Except.bind, Except.mapError]

theorem bytes32Field_eq_ok {node : DagNode} {map : List (String × Value)} {field : String}
    {id : Hash32} :
    bytes32Field node map field = .ok id ↔ OrdMap.get field map = some (.bytes id.bytes) := by
  unfold bytes32Field canonicalField mapGetBytes mapGet
  cases hget : OrdMap.get field map with
  | none => simp [bind, Except.bind, Except.mapError]
  | some v =>
    cases v
    case bytes b =>
      by_cases hlen : b.length = 32
      · simp only [Value.bytes?, Except.mapError, bind, Except.bind, dif_pos hlen]
        constructor
        · intro h
          cases h
          rfl
        · intro h
          cases h
          rfl
      · simp only [Value.bytes?, Except.mapError, bind, Except.bind, dif_neg hlen]
        constructor
        · intro h
          cases h
        · intro h
          cases h
          exact absurd id.length_eq hlen
    all_goals simp [Value.bytes?, bind, Except.bind, Except.mapError]

theorem timestampField_eq_error {node : DagNode} {map : List (String × Value)} {field : String} :
    (∃ e, timestampField node map field = .error (.err e)) ↔
      ∀ t, OrdMap.get field map ≠ some (.timestamp t) := by
  unfold timestampField
  cases OrdMap.get field map with
  | none => simp [fieldError]
  | some v => cases v <;> simp [fieldError]

/-! ### One family -/

/-- What is read before it is written leaves nothing behind. -/
theorem afterReading_error {α : Type} {x : Reading α} {s : DerivedState}
    {update : α → DerivedState} {e : Fault DerivedStateError}
    (h : (afterReading x s update).1 = .error e) : (afterReading x s update).2 = s := by
  cases x with
  | error e' => rfl
  | ok a => cases h

/-- A genesis event leaves its id behind when it is the time that cannot be read. -/
theorem applyGenesis_unchanged_iff {node : DagNode} {s : DerivedState}
    (hn : startsWith genesisPrefix node.nodeType) :
    (∀ e, (applyGenesis node s).1 = .error (.err e) → (applyGenesis node s).2 = s) ↔
      ¬ TornGenesis node s := by
  unfold applyGenesis
  cases hid : s.substrateId with
  | some id =>
    rw [if_pos Option.isSome_some]
    refine ⟨fun _ h => ?_, fun _ _ _ => rfl⟩
    rw [h.2.1] at hid
    cases hid
  | none =>
    rw [if_neg (by simp)]
    cases hr : (do
      let map ← decodeEventMap node
      let id ← bytes32Field node map "substrate_id"
      .ok (map, id) : Reading (List (String × Value) × Hash32)) with
    | error f =>
      refine ⟨fun _ h => ?_, fun _ _ _ => rfl⟩
      obtain ⟨-, -, map, b, hd, hget, hlen, -⟩ := h
      rw [decodeEventMap_eq_ok.2 hd] at hr
      have hfield : bytes32Field node map "substrate_id" = .ok ⟨b, hlen⟩ :=
        bytes32Field_eq_ok.2 hget
      simp only [bind, Except.bind, hfield] at hr
      cases hr
    | ok r =>
      obtain ⟨map, id⟩ := r
      dsimp only
      have hread : decode node.content = .ok (.map map) ∧
          OrdMap.get "substrate_id" map = some (.bytes id.bytes) := by
        cases hd : decodeEventMap node with
        | error e =>
          rw [hd] at hr
          cases hr
        | ok m =>
          cases hf : bytes32Field node m "substrate_id" with
          | error e =>
            simp only [hd, bind, Except.bind, hf] at hr
            cases hr
          | ok i =>
            simp only [hd, bind, Except.bind, hf] at hr
            cases hr
            exact ⟨decodeEventMap_eq_ok.1 hd, bytes32Field_eq_ok.1 hf⟩
      have htorn : TornGenesis node s ↔
          ∀ t, OrdMap.get "genesis_time_unix_ns" map ≠ some (.timestamp t) := by
        constructor
        · rintro ⟨-, -, map', -, hd', -, -, ht⟩
          cases hread.1.symm.trans hd'
          exact ht
        · exact fun ht => ⟨hn, hid, map, id.bytes, hread.1, hread.2, id.length_eq, ht⟩
      rw [htorn, ← @timestampField_eq_error node]
      cases htime : timestampField node map "genesis_time_unix_ns" with
      | ok t =>
        refine ⟨?_, fun _ e he => ?_⟩
        · rintro - ⟨e, he⟩
          cases he
        · cases he
      | error f =>
        constructor
        · rintro h ⟨e, he⟩
          cases he
          -- the state left behind has an id
          have hs := congrArg DerivedState.substrateId (h e rfl)
          rw [hid] at hs
          cases hs
        · intro h e he
          cases he
          exact absurd ⟨e, rfl⟩ h

/-! ### Every family -/

theorem family_eq_genesis {nt : String} : family nt = .genesis ↔ startsWith genesisPrefix nt := by
  unfold family
  split_ifs <;> simp_all

/-- An event that is refused leaves the state as it was, unless it is a genesis event that is torn
between its id and its time. -/
theorem applyEventWithDag_unchanged_iff (dag : Option Dag) (node : DagNode) (s : DerivedState) :
    (∀ e, (applyEventWithDag dag node s).1 = .error (.err e) →
      (applyEventWithDag dag node s).2 = s) ↔ ¬ TornGenesis node s := by
  by_cases hg : startsWith genesisPrefix node.nodeType
  · rw [applyEventWithDag, family_eq_genesis.2 hg]
    exact applyGenesis_unchanged_iff hg
  · refine ⟨fun _ h => hg h.1, fun _ e he => ?_⟩
    unfold applyEventWithDag at he ⊢
    cases hf : family node.nodeType with
    | genesis => exact absurd (family_eq_genesis.1 hf) hg
    | cycleAdvanced | absorption | migrationStarted | successorChainUpdated
    | successionConfigDeclared =>
      rw [hf] at he
      exact afterReading_error he
    | migrationEnded =>
      rw [hf] at he
      cases he
    | pureRecord => rfl

/-- A genesis event with the id of 32 zeros and no time. -/
def timelessGenesis : DagNode :=
  ⟨.replicate 0, [], "genesis_event:00", 0,
    cbEncode [("substrate_id", .bytes (List.replicate 32 0))]⟩

theorem timelessGenesis_changes :
    ¬ ∀ e, (applyEventWithDag none timelessGenesis .empty).1 = .error (.err e) →
      (applyEventWithDag none timelessGenesis .empty).2 = .empty := by
  intro h
  have hid : (applyEventWithDag none timelessGenesis .empty).2 ≠ .empty := by decide
  exact hid (h (.eventField "genesis_event:00" "genesis_time_unix_ns" .missing) rfl)

end Myco.Substrate
