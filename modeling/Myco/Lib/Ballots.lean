import Mathlib.Data.Finset.Card

/-!
# Counting ballots by voter

A ballot is anything that names its voter. `voters` are those with a good ballot in a list, and
`firstOfEach` keeps the first ballot of each voter: as many ballots as there are voters, and the
same ones (`voters_firstOfEach`).
-/

namespace Myco.Lib

variable {α ι : Type} [DecidableEq ι]

/-- Who has cast one of these ballots. -/
def voters (voter : α → ι) (ballots : List α) : Finset ι := (ballots.map voter).toFinset

/-- `if seen.insert(voter(ballot)) { out.push(ballot) }`, ballot after ballot. -/
def firstOfEach (voter : α → ι) : List ι → List α → List α
  | _, [] => []
  | seen, b :: bs =>
    if voter b ∈ seen then firstOfEach voter seen bs
    else b :: firstOfEach voter (voter b :: seen) bs

variable {voter : α → ι} {bs cs : List α} {i : ι}

theorem mem_voters : i ∈ voters voter bs ↔ ∃ b ∈ bs, voter b = i := by
  rw [voters, List.mem_toFinset, List.mem_map]

theorem voters_mono (h : bs ⊆ cs) : voters voter bs ⊆ voters voter cs := by
  intro i hi
  obtain ⟨b, hb, rfl⟩ := mem_voters.1 hi
  exact mem_voters.2 ⟨b, h hb, rfl⟩

theorem mem_of_mem_firstOfEach {seen : List ι} {b : α} (h : b ∈ firstOfEach voter seen bs) :
    b ∈ bs := by
  induction bs generalizing seen with
  | nil => exact h
  | cons c bs ih =>
    rw [firstOfEach] at h
    split at h
    · exact List.mem_cons_of_mem _ (ih h)
    · rcases List.mem_cons.1 h with rfl | h
      · exact List.mem_cons_self
      · exact List.mem_cons_of_mem _ (ih h)

/-- Whoever has cast a ballot has the first one kept, unless seen before. -/
theorem exists_mem_firstOfEach {seen : List ι} {b : α} (hb : b ∈ bs) (hs : voter b ∉ seen) :
    ∃ c ∈ firstOfEach voter seen bs, voter c = voter b := by
  induction bs generalizing seen with
  | nil => cases hb
  | cons c bs ih =>
    rw [firstOfEach]
    split
    · rename_i hc
      rcases List.mem_cons.1 hb with rfl | hb
      · exact absurd hc hs
      · exact ih hb hs
    · by_cases hv : voter b = voter c
      · exact ⟨c, List.mem_cons_self, hv.symm⟩
      · have hb : b ∈ bs := (List.mem_cons.1 hb).resolve_left fun h => hv (h ▸ rfl)
        have hs : voter b ∉ voter c :: seen := by simp [hv, hs]
        obtain ⟨d, hd, he⟩ := ih hb hs
        exact ⟨d, List.mem_cons_of_mem _ hd, he⟩

theorem voters_firstOfEach : voters voter (firstOfEach voter [] bs) = voters voter bs := by
  ext i
  constructor
  · exact fun h => voters_mono (fun _ => mem_of_mem_firstOfEach) h
  · intro h
    obtain ⟨b, hb, rfl⟩ := mem_voters.1 h
    exact mem_voters.2 (exists_mem_firstOfEach hb List.not_mem_nil)

end Myco.Lib
