import Mathlib.Data.List.Basic
import Mathlib.Data.List.Induction

/-!
# Programs that may fail, and their counted loops

Rules for computations in `Except`: what a successful `bind` went through, and what a loop that
runs its body a fixed number of times did. A run of a loop is described by a `Path`: the labels
its steps carry, one a step, from the first state to the last.
-/

namespace Myco.Lib

variable {ε σ ℓ α β : Type}

theorem bind_eq_ok {x : Except ε α} {f : α → Except ε β} {b : β} :
    (x >>= f) = .ok b ↔ ∃ a, x = .ok a ∧ f a = .ok b := by
  cases x <;> simp [bind, Except.bind]

@[simp] theorem ok_bind {a : α} {f : α → Except ε β} : (Except.ok a >>= f) = f a := rfl

@[simp] theorem error_bind {e : ε} {f : α → Except ε β} :
    ((Except.error e : Except ε α) >>= f) = .error e := rfl

theorem bind_eq_error {x : Except ε α} {f : α → Except ε β} {e : ε} :
    (x >>= f) = .error e ↔ x = .error e ∨ ∃ a, x = .ok a ∧ f a = .error e := by
  cases x <;> simp [bind, Except.bind]

theorem bind_ne_error {x : Except ε α} {f : α → Except ε β} {e : ε} (hx : x ≠ .error e)
    (hf : ∀ a, x = .ok a → f a ≠ .error e) : (x >>= f) ≠ .error e := by
  cases x with
  | error e' => exact fun h => hx (by simpa using h)
  | ok a => exact hf a rfl

theorem toOption_eq_some {x : Except ε α} {a : α} : x.toOption = some a ↔ x = .ok a := by
  cases x <;> simp [Except.toOption]

theorem mapError_eq_ok {ε' : Type} {f : ε → ε'} {x : Except ε α} {a : α} :
    x.mapError f = .ok a ↔ x = .ok a := by
  cases x <;> simp [Except.mapError]

/-- A check of every element that passes has passed each of them. -/
theorem forM_eq_ok {xs : List α} {f : α → Except ε Unit} (h : xs.forM f = .ok ()) :
    ∀ x ∈ xs, f x = .ok () := by
  induction xs with
  | nil => exact fun x hx => by cases hx
  | cons x xs ih =>
    obtain ⟨u, hx, hxs⟩ := bind_eq_ok.1 h
    intro y hy
    rcases List.mem_cons.1 hy with rfl | hy
    · exact hx
    · exact ih hxs y hy

/-! ### Labelled paths -/

/-- Steps of `R` in a row, with their labels. -/
inductive Path (R : σ → ℓ → σ → Prop) : σ → List ℓ → σ → Prop
  | nil {s : σ} : Path R s [] s
  | cons {s s' s'' : σ} {x : ℓ} {xs : List ℓ} :
      R s x s' → Path R s' xs s'' → Path R s (x :: xs) s''

variable {R : σ → ℓ → σ → Prop}

theorem Path.nil_iff {s s' : σ} : Path R s [] s' ↔ s = s' := by
  constructor
  · intro h; cases h; rfl
  · rintro rfl; exact .nil

theorem Path.cons_iff {s s'' : σ} {x : ℓ} {xs : List ℓ} :
    Path R s (x :: xs) s'' ↔ ∃ s', R s x s' ∧ Path R s' xs s'' := by
  constructor
  · intro h
    cases h with
    | cons h1 h2 => exact ⟨_, h1, h2⟩
  · rintro ⟨s', h1, h2⟩
    exact .cons h1 h2

theorem Path.append {s t u : σ} {xs ys : List ℓ} (h : Path R s xs t) (h' : Path R t ys u) :
    Path R s (xs ++ ys) u := by
  induction h with
  | nil => exact h'
  | cons h1 _ ih => exact .cons h1 (ih h')

theorem Path.append_iff {s u : σ} {xs ys : List ℓ} :
    Path R s (xs ++ ys) u ↔ ∃ t, Path R s xs t ∧ Path R t ys u := by
  constructor
  · intro h
    induction xs generalizing s with
    | nil => exact ⟨s, .nil, h⟩
    | cons x xs ih =>
      obtain ⟨s', h1, h2⟩ := Path.cons_iff.1 h
      obtain ⟨t, h3, h4⟩ := ih h2
      exact ⟨t, .cons h1 h3, h4⟩
  · rintro ⟨t, h, h'⟩
    exact h.append h'

theorem Path.singleton_iff {s t : σ} {x : ℓ} : Path R s [x] t ↔ R s x t := by
  simp only [Path.cons_iff, Path.nil_iff, exists_eq_right]

theorem Path.mono {S : σ → ℓ → σ → Prop} {s t : σ} {xs : List ℓ} (h : Path R s xs t)
    (hRS : ∀ s x s', R s x s' → S s x s') : Path S s xs t := by
  induction h with
  | nil => exact .nil
  | cons h1 _ ih => exact .cons (hRS _ _ _ h1) ih

/-- What every step keeps, a path keeps. -/
theorem Path.keeps {I : σ → Prop} {s t : σ} {xs : List ℓ} (h : Path R s xs t)
    (hI : ∀ s x s', R s x s' → I s → I s') (hs : I s) : I t := by
  induction h with
  | nil => exact hs
  | cons h1 _ ih => exact ih (hI _ _ _ h1 hs)

/-- Somewhere on the path a step meets `C`. -/
def Path.Meets (R : σ → ℓ → σ → Prop) (C : σ → ℓ → Prop) (s : σ) (xs : List ℓ) : Prop :=
  ∃ ys x zs u, xs = ys ++ x :: zs ∧ Path R s ys u ∧ C u x

/-- What every step keeps that does not meet `C`, a path keeps until it meets `C`. -/
theorem Path.keeps_or {I : σ → Prop} {C : σ → ℓ → Prop} {s t : σ} {xs : List ℓ} (h : Path R s xs t)
    (hI : ∀ ys u x v, Path R s ys u → R u x v → I u → I v ∨ C u x) (hs : I s) :
    I t ∨ Path.Meets R C s xs := by
  induction h with
  | nil => exact .inl hs
  | @cons s s' t x xs h1 _ ih =>
    rcases hI [] s x s' .nil h1 hs with hs' | hc
    · rcases ih (fun ys u y v hu => hI (x :: ys) u y v (.cons h1 hu)) hs' with ht | hmeets
      · exact .inl ht
      · obtain ⟨ys, y, zs, u, rfl, hu, hc⟩ := hmeets
        exact .inr ⟨x :: ys, y, zs, u, rfl, .cons h1 hu, hc⟩
    · exact .inr ⟨[], x, xs, s, rfl, .nil, hc⟩

/-- Every step on the path has `P`. -/
def Path.Always (R P : σ → ℓ → σ → Prop) (s : σ) (xs : List ℓ) (t : σ) : Prop :=
  ∀ ys x zs u v, xs = ys ++ x :: zs → Path R s ys u → R u x v → Path R v zs t → P u x v

/-- What the steps that have `P` keep holds wherever a path of such steps has come to. -/
theorem Path.Always.keeps {P : σ → ℓ → σ → Prop} {I : σ → Prop} {s t u : σ} {ys zs : List ℓ}
    (h : Path.Always R P s (ys ++ zs) t) (hI : ∀ u x v, R u x v → I u → P u x v → I v) (hs : I s)
    (hu : Path R s ys u) (ht : Path R u zs t) : I u := by
  induction ys using List.reverseRecOn generalizing u zs with
  | nil => exact Path.nil_iff.1 hu ▸ hs
  | append_singleton ys x ih =>
    obtain ⟨v, hv, hstep⟩ := Path.append_iff.1 hu
    have hxs : (ys ++ [x]) ++ zs = ys ++ x :: zs := by rw [List.append_assoc]; rfl
    rw [hxs] at h
    have hstep' : R v x u := Path.singleton_iff.1 hstep
    exact hI v x u hstep' (ih h hv (.cons hstep' ht)) (h ys x zs v u rfl hv hstep' ht)

theorem Path.Always.nil {P : σ → ℓ → σ → Prop} {s t : σ} : Path.Always R P s [] t :=
  fun ys x zs _ _ h => absurd h (by cases ys <;> exact nofun)

/-- The only step that a label allows has `P`, and so do the steps after it. -/
theorem Path.Always.cons {P : σ → ℓ → σ → Prop} {s s' t : σ} {x : ℓ} {xs : List ℓ} (hx : P s x s')
    (hs : ∀ u, R s x u → u = s') (h : Path.Always R P s' xs t) : Path.Always R P s (x :: xs) t := by
  intro ys y zs u v hxs hu hstep ht
  rcases ys with _ | ⟨z, ys⟩
  · obtain ⟨rfl, rfl⟩ := List.cons_eq_cons.1 hxs
    cases Path.nil_iff.1 hu
    cases hs v hstep
    exact hx
  · obtain ⟨rfl, rfl⟩ := List.cons_eq_cons.1 hxs
    obtain ⟨w, hw, hu⟩ := Path.cons_iff.1 hu
    cases hs w hw
    exact h ys y zs u v rfl hu hstep ht

/-- What every step keeps, given the labels up to it, holds of a path and its labels. -/
theorem Path.keeps_labels {I : List ℓ → σ → Prop} {s t : σ} {xs : List ℓ} (h : Path R s xs t)
    (hI : ∀ ys x zs u v, xs = ys ++ x :: zs → Path R s ys u → R u x v → Path R v zs t → I ys u →
      I (ys ++ [x]) v) (hs : I [] s) : I xs t := by
  have hprefix : ∀ ys zs u, xs = ys ++ zs → Path R s ys u → Path R u zs t → I ys u := by
    intro ys
    induction ys using List.reverseRecOn with
    | nil =>
      intro zs u _ hu _
      exact Path.nil_iff.1 hu ▸ hs
    | append_singleton ys x ih =>
      intro zs u hxs hu ht
      obtain ⟨v, hv, hstep⟩ := Path.append_iff.1 hu
      have hstep' : R v x u := Path.singleton_iff.1 hstep
      rw [List.append_assoc] at hxs
      exact hI ys x zs v u hxs hv hstep' ht (ih (x :: zs) v hxs hv (.cons hstep' ht))
  exact hprefix xs [] t (List.append_nil _).symm h .nil

/-- Where a label leads to one state only, so do labels in a row. -/
theorem Path.unique (hR : ∀ s x t u, R s x t → R s x u → t = u) {s t u : σ} {xs : List ℓ}
    (h : Path R s xs t) (h' : Path R s xs u) : t = u := by
  induction h with
  | nil => exact Path.nil_iff.1 h'
  | cons h1 _ ih =>
    obtain ⟨v, h2, h3⟩ := Path.cons_iff.1 h'
    cases hR _ _ _ _ h1 h2
    exact ih h3

theorem Path.always_concat_iff {P : σ → ℓ → σ → Prop} (hR : ∀ s x t u, R s x t → R s x u → t = u)
    {s t u : σ} {xs : List ℓ} {x : ℓ} (h : Path R s xs u) (hx : R u x t) :
    Path.Always R P s (xs ++ [x]) t ↔ Path.Always R P s xs u ∧ P u x t := by
  constructor
  · intro ha
    refine ⟨fun ys y zs v w hxs hv hstep hw => ?_, ha xs x [] u t rfl h hx .nil⟩
    refine ha ys y (zs ++ [x]) v w (by rw [hxs, List.append_assoc]; rfl) hv hstep ?_
    exact hw.append (Path.singleton_iff.2 hx)
  · rintro ⟨ha, hlast⟩ ys y zs v w hxs hv hstep hw
    rcases List.eq_nil_or_concat' zs with rfl | ⟨zs, z, rfl⟩
    · obtain ⟨rfl, hxy⟩ := List.append_inj' hxs rfl
      cases List.singleton_inj.1 hxy
      cases Path.unique hR h hv
      cases Path.nil_iff.1 hw
      exact hlast
    · have hsplit : xs ++ [x] = (ys ++ y :: zs) ++ [z] := by rw [hxs, List.append_assoc]; rfl
      obtain ⟨rfl, hxz⟩ := List.append_inj' hsplit rfl
      obtain ⟨u', hu', -⟩ := Path.append_iff.1 hw
      cases Path.unique hR h (hv.append (.cons hstep hu'))
      exact ha ys y zs v w rfl hv hstep hu'

/-- Where a step from `I` has `P` just if it has `Q`, and then keeps `I`, the steps of a path all
have `P` just if they all have `Q`. -/
theorem Path.always_iff {P Q : σ → ℓ → σ → Prop} {I : σ → Prop} {s t : σ} {xs : List ℓ} (hs : I s)
    (hPQ : ∀ u x v, R u x v → I u → (P u x v ↔ Q u x v))
    (hI : ∀ u x v, R u x v → I u → P u x v → I v) :
    Path.Always R P s xs t ↔ Path.Always R Q s xs t := by
  constructor
  · intro h ys x zs u v hxs hu hstep ht
    have hIu : I u := (hxs ▸ h).keeps hI hs hu (.cons hstep ht)
    exact (hPQ u x v hstep hIu).1 (h ys x zs u v hxs hu hstep ht)
  · intro h ys x zs u v hxs hu hstep ht
    have hIQ : ∀ u x v, R u x v → I u → Q u x v → I v := fun u x v hr hi hq =>
      hI u x v hr hi ((hPQ u x v hr hi).2 hq)
    have hIu : I u := (hxs ▸ h).keeps hIQ hs hu (.cons hstep ht)
    exact (hPQ u x v hstep hIu).2 (h ys x zs u v hxs hu hstep ht)

/-! ### Counted loops -/

/-- Runs `body` on the state `n` times, stopping at the first failure. -/
def iterM (body : σ → Except ε σ) : Nat → σ → Except ε σ
  | 0, s => .ok s
  | n + 1, s => body s >>= iterM body n

variable {body : σ → Except ε σ}

/-- A loop that ends well went along a path, one label a turn. -/
theorem path_of_iterM (h : ∀ s s', body s = .ok s' → ∃ x, R s x s') {n : Nat} {s s' : σ}
    (hr : iterM body n s = .ok s') : ∃ xs : List ℓ, xs.length = n ∧ Path R s xs s' := by
  induction n generalizing s with
  | zero => cases hr; exact ⟨[], rfl, .nil⟩
  | succ n ih =>
    obtain ⟨t, h1, h2⟩ := bind_eq_ok.1 hr
    obtain ⟨x, hx⟩ := h s t h1
    obtain ⟨xs, hl, hp⟩ := ih h2
    exact ⟨x :: xs, by simp [hl], .cons hx hp⟩

/-- A loop whose body can follow a path reaches its end. -/
theorem iterM_of_path {xs : List ℓ} {s s' : σ} (hp : Path R s xs s')
    (h : ∀ s x s', x ∈ xs → R s x s' → body s = .ok s') : iterM body xs.length s = .ok s' := by
  induction hp with
  | nil => rfl
  | cons h1 h2 ih =>
    rw [List.length_cons, iterM, h _ _ _ List.mem_cons_self h1, ok_bind]
    exact ih fun s x s' hx => h s x s' (List.mem_cons_of_mem _ hx)

/-- A failure the body never has from a state satisfying `I` is not a failure of the loop. -/
theorem iterM_ne_error {I : σ → Prop} {e : ε} (h : ∀ s, I s → body s ≠ .error e)
    (hI : ∀ s s', I s → body s = .ok s' → I s') {n : Nat} {s : σ} (hs : I s) :
    iterM body n s ≠ .error e := by
  induction n generalizing s with
  | zero => exact fun hc => by cases hc
  | succ n ih =>
    exact bind_ne_error (h s hs) fun s' hb => ih (hI s s' hs hb)

/-- A loop that fails has gone some turns and failed at the next. -/
theorem iterM_eq_error {e : ε} {n : Nat} {s : σ} : iterM body n s = .error e ↔
    ∃ k s', k < n ∧ iterM body k s = .ok s' ∧ body s' = .error e := by
  induction n generalizing s with
  | zero =>
    constructor
    · intro h
      cases h
    · rintro ⟨k, -, hk, -⟩
      omega
  | succ n ih =>
    rw [iterM]
    cases hs : body s with
    | error e' =>
      rw [error_bind]
      constructor
      · exact fun h => ⟨0, s, by omega, rfl, hs.trans h⟩
      · rintro ⟨k, s', -, hk, he⟩
        cases k with
        | zero =>
          cases hk
          exact hs.symm.trans he
        | succ k =>
          rw [iterM, hs] at hk
          cases hk
    | ok t =>
      rw [ok_bind, ih]
      constructor
      · rintro ⟨k, s', hkn, hk, he⟩
        exact ⟨k + 1, s', by omega, by rw [iterM, hs, ok_bind, hk], he⟩
      · rintro ⟨k, s', hkn, hk, he⟩
        cases k with
        | zero =>
          cases hk
          rw [hs] at he
          cases he
        | succ k =>
          rw [iterM, hs, ok_bind] at hk
          exact ⟨k, s', by omega, hk, he⟩

end Myco.Lib
