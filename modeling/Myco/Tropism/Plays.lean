import Myco.Tropism.Rounds

/-!
# Rounds that are played

What a greeted substrate is given, request by request and tick by tick, determines its rounds: they
are computed (`plays`), and there are no others with these events (`Round.unique`). So a run can be
followed on concrete input.
-/

namespace Myco.Tropism

open Myco.Lib Myco.Canonical Myco.Schema Myco.Substrate Myco.Federation Myco.Prune

variable {env : Env} {rt : Runtime}

/-- What comes to a greeted substrate. -/
inductive Input where
  | request (q : Request)
  | tick (selfDriven : Bool)
  | flush

/-- An event that an input can be. -/
def Input.ComesAs : Input → Event → Prop
  | .request q, e => ∃ answer, e = .request q answer
  | .tick selfDriven, e => e = .tick selfDriven
  | .flush, e => e = .flush

theorem Input.ComesAs.ne_other {i : Input} {e : Event} (h : i.ComesAs e) : e ≠ .other := by
  rintro rfl
  cases i with
  | request q => obtain ⟨_, h⟩ := h; cases h
  | tick selfDriven => cases h
  | flush => cases h

/-- The round of an input. -/
def play (h : Host env rt) : Input → Option ((Event × Option (RealCycle rt)) × Host env rt)
  | .flush => (flushPendingSelfDriven.exec h).map fun p => ((.flush, none), p.2)
  | .tick selfDriven =>
    if h.server.handshakeComplete then
      match (tick selfDriven).exec h with
      | some (.ok answer, h') =>
        some ((.tick selfDriven, answer.map (⟨·, h'.server.cycleCounter⟩)), h')
      | _ => none
    else none
  | .request q =>
    if h.server.handshakeComplete then
      match flushPendingSelfDriven.exec h with
      | some (.ok _, u) =>
        match q with
        | .advance => (advance.exec u).map fun p => ((.request .advance (p.1.map fun _ => ⟨⟩),
            p.1.toOption.map (⟨·, p.2.server.cycleCounter⟩)), p.2)
        | q => (q.run.exec u).map fun p => ((.request q p.1, none), p.2)
      | _ => none
    else none

/-- The rounds of inputs in a row. -/
def plays (h : Host env rt) :
    List Input → Option (List (Event × Option (RealCycle rt)) × Host env rt)
  | [] => some ([], h)
  | i :: is => (play h i).bind fun (x, u) => (plays u is).map fun (xs, h') => (x :: xs, h')

section

variable {m t u : Machine env rt} {h h' : Host env rt} {x : Event × Option (RealCycle rt)}
  {xs : List (Event × Option (RealCycle rt))} {i : Input} {is : List Input}

theorem round_of_play (hp : play m.host i = some (x, h)) : Round m x { m with host := h } := by
  cases i with
  | flush =>
    obtain ⟨⟨r, h'⟩, he, hx⟩ := Option.map_eq_some_iff.1 hp
    cases hx
    exact .flush he
  | tick selfDriven =>
    rw [play] at hp
    split at hp
    · rename_i hg
      split at hp
      · rename_i answer h' he
        cases hp
        exact .tick hg he
      · cases hp
    · cases hp
  | request q =>
    rw [play] at hp
    split at hp
    · rename_i hg
      split at hp
      · rename_i v hf
        split at hp
        · obtain ⟨⟨r, h'⟩, he, hx⟩ := Option.map_eq_some_iff.1 hp
          cases hx
          exact .advance hg hf he
        · rename_i hq
          obtain ⟨⟨r, h'⟩, he, hx⟩ := Option.map_eq_some_iff.1 hp
          cases hx
          exact .request hq hg hf he
      · cases hp
    · cases hp

theorem rounds_of_plays (hp : plays m.host is = some (xs, h)) :
    Rounds m xs { m with host := h } := by
  induction is generalizing m xs with
  | nil =>
    cases hp
    exact .nil
  | cons i is ih =>
    obtain ⟨⟨x, v⟩, hx, hp⟩ := Option.bind_eq_some_iff.1 hp
    obtain ⟨⟨ys, w⟩, hys, hp⟩ := Option.map_eq_some_iff.1 hp
    cases hp
    exact .cons (round_of_play hx) (ih (m := { m with host := v }) hys)

/-- An event that is modelled leaves one state to end in. -/
theorem Round.unique {y : Event × Option (RealCycle rt)} (ht : Round m x t) (hu : Round m y u)
    (hxy : x.1 = y.1) (hx : x.1 ≠ .other) : t = u := by
  cases ht with
  | advance hg hf ha =>
    cases hu with
    | advance hg' hf' ha' =>
      rw [hf] at hf'
      cases hf'
      rw [ha] at ha'
      cases ha'
      rfl
    | request hq _ _ _ =>
      cases hxy
      exact absurd rfl hq
    | _ => cases hxy
  | request hq hg hf he =>
    cases hu with
    | advance _ _ _ =>
      cases hxy
      exact absurd rfl hq
    | request hq' hg' hf' he' =>
      cases hxy
      rw [hf] at hf'
      cases hf'
      rw [he] at he'
      cases he'
      rfl
    | _ => cases hxy
  | flush hf =>
    cases hu with
    | flush hf' =>
      rw [hf] at hf'
      cases hf'
      rfl
    | _ => cases hxy
  | tick hg he =>
    cases hu with
    | tick hg' he' =>
      cases hxy
      rw [he] at he'
      cases he'
      rfl
    | _ => cases hxy
  | other _ => exact absurd rfl hx
  | workerExit hs =>
    cases hu with
    | workerExit hs' =>
      cases hs
      cases hs'
      rfl
    | _ => cases hxy
  | hello hs =>
    cases hu with
    | hello hs' =>
      cases hs with
      | hello _ _ hw =>
        cases hs' with
        | hello _ _ hw' =>
          rw [hw.unique hw']
    | _ => cases hxy

/-- The event of a round that is played is what is given. -/
theorem comesAs_of_play (hp : play h i = some (x, h')) : i.ComesAs x.1 := by
  cases i with
  | flush =>
    obtain ⟨p, -, heq⟩ := Option.map_eq_some_iff.1 hp
    cases heq
    rfl
  | tick selfDriven =>
    rw [play] at hp
    split at hp
    · split at hp
      · cases hp
        rfl
      · cases hp
    · cases hp
  | request q =>
    rw [play] at hp
    split at hp
    · split at hp
      · split at hp
        · obtain ⟨p, -, heq⟩ := Option.map_eq_some_iff.1 hp
          cases heq
          exact ⟨_, rfl⟩
        · obtain ⟨p, -, heq⟩ := Option.map_eq_some_iff.1 hp
          cases heq
          exact ⟨_, rfl⟩
      · cases hp
    · cases hp

theorem comesAs_of_plays (hp : plays h is = some (xs, h')) (hmem : x ∈ xs) :
    ∃ i ∈ is, i.ComesAs x.1 := by
  induction is generalizing h xs with
  | nil =>
    cases hp
    cases hmem
  | cons i is ih =>
    obtain ⟨⟨y, v⟩, hy, hp⟩ := Option.bind_eq_some_iff.1 hp
    obtain ⟨⟨ys, w⟩, hys, hp⟩ := Option.map_eq_some_iff.1 hp
    cases hp
    rcases List.mem_cons.1 hmem with rfl | hmem
    · exact ⟨i, List.mem_cons_self, comesAs_of_play hy⟩
    · obtain ⟨k, hk, hcomes⟩ := ih hys hmem
      exact ⟨k, List.mem_cons_of_mem _ hk, hcomes⟩

end

/-! ### A first hour -/

section

def sapRegistration : Message :=
  ⟨"register_axis", 1, OrdMap.ofList utf8 [("name", .string "sap"), ("axis_class", .string "decay"),
    ("fruiting_threshold_repr", .string "10"), ("initial_value_repr", .string "0"),
    ("decay_rate_per_cycle_repr", .string "0"), ("is_mortality_signal", .bool false),
    ("update_rule_kind", .string "decay")]⟩

/-- A cycle that is asked for, two idle ones and the end of a loop, another idle one that the
registration of an axis seals, and a tick that runs a cycle, as there is an axis now. -/
def firstHour : List Input :=
  [.request .advance, .tick true, .tick true, .flush, .tick true,
    .request (.registerAxis sapRegistration), .tick true]

/-- The counter stands at five, after four nodes that advance it, and an axis has been counted. -/
def livedOn (h : Host foldingEnv wholeNumbers) : Bool :=
  h.server.cycleCounter == 5 && h.server.axisRegisterCount == 1 &&
    (h.server.nodes.filter (·.nodeType = cycleAdvancedType)).length == 4

theorem firstHour_rounds : ∃ xs, ∃ m : Machine foldingEnv wholeNumbers,
    Rounds (.boot noFiles .new) xs m ∧ ¬ HostCollided m.host ∧ livedOn m.host = true ∧
    ∀ x ∈ xs, ∀ q answer, x.1 = .request q answer → .request q ∈ firstHour := by
  have h : (plays (greetedIn foldingEnv).host firstHour).any
      (fun p => decide p.2.server.ledger.Sound && livedOn p.2) = true := by decide +kernel
  obtain ⟨⟨xs, u⟩, hplays, hp⟩ := (Option.any_eq_true _ _).1 h
  rw [Bool.and_eq_true, decide_eq_true_iff] at hp
  obtain ⟨hsound, hlived⟩ := hp
  refine ⟨_, _, (greetedIn_rounds (greetedIn_run (by decide +kernel) (by decide +kernel))).append
    (rounds_of_plays hplays), not_not.2 hsound, hlived, fun x hx q answer hq => ?_⟩
  rcases List.mem_append.1 hx with hx | hx
  · simp only [List.mem_cons, List.not_mem_nil, or_false] at hx
    rcases hx with rfl | rfl <;> cases hq
  · obtain ⟨i, hi, hcomes⟩ := comesAs_of_plays hplays hx
    rw [hq] at hcomes
    cases i with
    | request q' =>
      obtain ⟨_, heq⟩ := hcomes
      cases heq
      exact hi
    | tick _ => cases hcomes
    | flush => cases hcomes

end

end Myco.Tropism
