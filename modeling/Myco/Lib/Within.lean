import Mathlib.Order.Defs.Unbundled
import Myco.Lib.Loop

/-!
# Programs over a state, and what they leave related

`Prog σ ε` is the monad of programs that keep a state of type `σ`, may fail with an `ε` (which
undoes nothing), and may stop for good. `exec` runs one from a state.

- `Within R m`: whatever `m` does, it takes a state to one that `R` relates it to. For a preorder
  `R` this composes along the program (`within_bind`, `within_attempt`, `within_forM`).
- `follows_mapM`: a loop whose turns each take a step of `R`, or fail and take none, follows a
  `Path`.
- `Unless bad P`: `P`, unless something bad has happened; a preorder if `P` is one, so a program
  can be followed up to a bad event.
- `Does bad R m`: short of a bad event `m` ends well and takes a state to one that `R` relates it
  to; for any `R`, composed along the program (`does_bind`).
-/

namespace Myco.Lib

abbrev Prog (σ ε : Type) := ExceptT ε (StateT σ Option)

namespace Prog

variable {σ ε ε' α β : Type}

/-- The result and the state that `m` leaves, unless it stops. -/
def exec (m : Prog σ ε α) (s : σ) : Option (Except ε α × σ) := m.run.run s

/-- Stops for good. -/
def halt : Prog σ ε α := ExceptT.mk fun _ => none

/-- Runs `m` and answers with its result, whichever it is. -/
def attempt (m : Prog σ ε α) : Prog σ ε' (Except ε α) := ExceptT.lift m.run

/-- Runs `m` on a part of the state. -/
def zoom {τ : Type} (part : τ → σ) (put : τ → σ → τ) (m : Prog σ ε α) : Prog τ ε α :=
  ExceptT.mk fun t => (m.exec (part t)).map fun p => (p.1, put t p.2)

variable {m : Prog σ ε α} {f : α → Prog σ ε β} {s : σ}

@[simp] theorem exec_pure {a : α} : (pure a : Prog σ ε α).exec s = some (.ok a, s) := rfl

@[simp] theorem exec_throw {e : ε} : (throw e : Prog σ ε α).exec s = some (.error e, s) := rfl

@[simp] theorem exec_get : (get : Prog σ ε σ).exec s = some (.ok s, s) := rfl

@[simp] theorem exec_modify {g : σ → σ} :
    (modify g : Prog σ ε PUnit).exec s = some (.ok ⟨⟩, g s) := rfl

@[simp] theorem exec_halt : (halt : Prog σ ε α).exec s = none := rfl

theorem exec_bind : (m >>= f).exec s =
    (m.exec s).bind fun p =>
      match p.1 with
      | .error e => some (.error e, p.2)
      | .ok a => (f a).exec p.2 := by
  unfold exec
  show (m.run s).bind _ = _
  cases hm : m.run s with
  | none =>
    have : m.run.run s = none := hm
    simp [this]
  | some p =>
    have : m.run.run s = some p := hm
    obtain ⟨r, t⟩ := p
    cases r <;> simp [this, ExceptT.bindCont] <;> rfl

@[simp] theorem exec_get_bind {g : σ → Prog σ ε β} : (get >>= g).exec s = (g s).exec s := by
  rw [exec_bind, exec_get, Option.bind_some]

@[simp] theorem exec_modify_bind {g : σ → σ} {k : PUnit → Prog σ ε β} :
    (modify g >>= k).exec s = (k ⟨⟩).exec (g s) := by
  rw [exec_bind, exec_modify, Option.bind_some]

theorem exec_bind_eq_some {r : Except ε β} {s' : σ} :
    (m >>= f).exec s = some (r, s') ↔
      (∃ e, m.exec s = some (.error e, s') ∧ r = .error e) ∨
      ∃ a t, m.exec s = some (.ok a, t) ∧ (f a).exec t = some (r, s') := by
  rw [exec_bind]
  cases hm : m.exec s with
  | none => simp
  | some p =>
    obtain ⟨x, t⟩ := p
    cases x with
    | error e =>
      constructor
      · intro h
        cases h
        exact .inl ⟨e, rfl, rfl⟩
      · rintro (⟨e', h, rfl⟩ | ⟨a, u, h, -⟩)
        · cases h
          rfl
        · cases h
    | ok a =>
      constructor
      · exact fun h => .inr ⟨a, t, rfl, h⟩
      · rintro (⟨e', h, -⟩ | ⟨a', u, h, h'⟩)
        · cases h
        · cases h
          exact h'

theorem exec_attempt :
    (attempt m : Prog σ ε' (Except ε α)).exec s = (m.exec s).map fun p => (.ok p.1, p.2) := by
  unfold exec attempt
  show (m.run s).bind _ = Option.map _ (m.run s)
  cases m.run s <;> rfl

theorem exec_attempt_eq_some {r : Except ε' (Except ε α)} {s' : σ} :
    (attempt m : Prog σ ε' (Except ε α)).exec s = some (r, s') ↔
      ∃ x, m.exec s = some (x, s') ∧ r = .ok x := by
  rw [exec_attempt, Option.map_eq_some_iff]
  constructor
  · rintro ⟨⟨x, t⟩, hm, h⟩
    cases h
    exact ⟨x, hm, rfl⟩
  · rintro ⟨x, hm, rfl⟩
    exact ⟨(x, s'), hm, rfl⟩

theorem exec_zoom_eq_some {τ : Type} {part : τ → σ} {put : τ → σ → τ} {t t' : τ}
    {r : Except ε α} : (zoom part put m).exec t = some (r, t') ↔
      ∃ s', m.exec (part t) = some (r, s') ∧ t' = put t s' := by
  show ((m.exec (part t)).map fun p => (p.1, put t p.2)) = _ ↔ _
  rw [Option.map_eq_some_iff]
  constructor
  · rintro ⟨⟨x, s'⟩, hm, h⟩
    cases h
    exact ⟨s', hm, rfl⟩
  · rintro ⟨s', hm, rfl⟩
    exact ⟨(r, s'), hm, rfl⟩

end Prog

/-! ### What a program leaves related -/

section Within

variable {σ ε ε' α β : Type} {R S : σ → σ → Prop}

def Within (R : σ → σ → Prop) (m : Prog σ ε α) : Prop :=
  ∀ s r s', m.exec s = some (r, s') → R s s'

theorem Within.mono {m : Prog σ ε α} (h : Within R m) (hRS : ∀ s s', R s s' → S s s') :
    Within S m :=
  fun s r s' he => hRS s s' (h s r s' he)

theorem within_modify {g : σ → σ} (h : ∀ s, R s (g s)) :
    Within R (modify g : Prog σ ε PUnit) := by
  intro s r s' he
  cases he
  exact h s

theorem within_ite {c : Prop} [Decidable c] {m n : Prog σ ε α} (hm : Within R m)
    (hn : Within R n) : Within R (if c then m else n) := by
  split
  · exact hm
  · exact hn

theorem within_halt : Within R (Prog.halt : Prog σ ε α) := by
  intro s r s' he
  cases he

theorem within_attempt {m : Prog σ ε α} (h : Within R m) :
    Within R (m.attempt : Prog σ ε' (Except ε α)) := by
  intro s r s' he
  obtain ⟨x, hm, -⟩ := Prog.exec_attempt_eq_some.1 he
  exact h s x s' hm

theorem within_zoom {τ : Type} {T : τ → τ → Prop} {part : τ → σ} {put : τ → σ → τ}
    {m : Prog σ ε α} (h : Within R m) (hput : ∀ t s', R (part t) s' → T t (put t s')) :
    Within T (m.zoom part put) := by
  intro t r t' he
  obtain ⟨s', hm, rfl⟩ := Prog.exec_zoom_eq_some.1 he
  exact hput t s' (h _ _ _ hm)

variable [IsPreorder σ R]

theorem within_pure {a : α} : Within R (pure a : Prog σ ε α) := by
  intro s r s' he
  cases he
  exact Std.Refl.refl s

theorem within_throw {e : ε} : Within R (throw e : Prog σ ε α) := by
  intro s r s' he
  cases he
  exact Std.Refl.refl s

theorem within_ofExcept {x : Except ε α} :
    Within R (ExceptT.mk (pure x) : Prog σ ε α) := by
  cases x with
  | ok a => exact within_pure
  | error e => exact within_throw

theorem within_get : Within R (get : Prog σ ε σ) := by
  intro s r s' he
  cases he
  exact Std.Refl.refl s

theorem within_bind {m : Prog σ ε α} {f : α → Prog σ ε β} (hm : Within R m)
    (hf : ∀ a, Within R (f a)) : Within R (m >>= f) := by
  intro s r s' he
  rcases Prog.exec_bind_eq_some.1 he with ⟨e, h1, -⟩ | ⟨a, t, h1, h2⟩
  · exact hm s _ s' h1
  · exact IsTrans.trans s t s' (hm s _ t h1) (hf a t r s' h2)

theorem within_map {m : Prog σ ε α} {g : α → β} (h : Within R m) : Within R (g <$> m) := by
  rw [map_eq_pure_bind]
  exact within_bind h fun _ => within_pure

theorem within_forM {xs : List β} {f : β → Prog σ ε PUnit} (h : ∀ x ∈ xs, Within R (f x)) :
    Within R (xs.forM f) := by
  induction xs with
  | nil => exact within_pure
  | cons x xs ih =>
    rw [List.forall_mem_cons] at h
    exact within_bind h.1 fun _ => ih h.2

theorem within_mapM {xs : List β} {f : β → Prog σ ε α} (h : ∀ x ∈ xs, Within R (f x)) :
    Within R (xs.mapM f) := by
  induction xs with
  | nil => exact within_pure
  | cons x xs ih =>
    rw [List.forall_mem_cons] at h
    rw [List.mapM_cons]
    exact within_bind h.1 fun _ => within_bind (ih h.2) fun _ => within_pure

end Within

/-! ### Programs that do not fail -/

section Succeeds

variable {σ ε ε' α β : Type}

/-- Whenever the program ends, it ends well. -/
def Succeeds (m : Prog σ ε α) : Prop := ∀ s r t, m.exec s = some (r, t) → ∃ a, r = .ok a

theorem succeeds_pure {a : α} : Succeeds (pure a : Prog σ ε α) := by
  intro s r t h
  cases h
  exact ⟨a, rfl⟩

theorem succeeds_get : Succeeds (get : Prog σ ε σ) := by
  intro s r t h
  cases h
  exact ⟨s, rfl⟩

theorem succeeds_modify {g : σ → σ} : Succeeds (modify g : Prog σ ε PUnit) := by
  intro s r t h
  cases h
  exact ⟨⟨⟩, rfl⟩

theorem succeeds_attempt {m : Prog σ ε α} : Succeeds (m.attempt : Prog σ ε' (Except ε α)) := by
  intro s r t h
  obtain ⟨x, -, rfl⟩ := Prog.exec_attempt_eq_some.1 h
  exact ⟨x, rfl⟩

theorem succeeds_bind {m : Prog σ ε α} {f : α → Prog σ ε β} (hm : Succeeds m)
    (hf : ∀ a, Succeeds (f a)) : Succeeds (m >>= f) := by
  intro s r t h
  rcases Prog.exec_bind_eq_some.1 h with ⟨e, h1, -⟩ | ⟨a, u, -, h2⟩
  · obtain ⟨a, ha⟩ := hm s _ t h1
    cases ha
  · exact hf a u r t h2

theorem succeeds_forM {xs : List β} {f : β → Prog σ ε PUnit} (h : ∀ x ∈ xs, Succeeds (f x)) :
    Succeeds (xs.forM f) := by
  induction xs with
  | nil => exact succeeds_pure
  | cons x xs ih =>
    rw [List.forall_mem_cons] at h
    exact succeeds_bind h.1 fun _ => ih h.2

/-- Whatever a program does that does not fail, what follows it does its part. -/
theorem Succeeds.within_bind {R S T : σ → σ → Prop} {m : Prog σ ε α} {f : α → Prog σ ε β}
    (hs : Succeeds m) (hm : Within R m) (hf : ∀ a, Within S (f a))
    (hT : ∀ s t u, R s t → S t u → T s u) : Within T (m >>= f) := by
  intro s r u he
  rcases Prog.exec_bind_eq_some.1 he with ⟨e, h1, -⟩ | ⟨a, t, h1, h2⟩
  · obtain ⟨a, ha⟩ := hs s _ u h1
    cases ha
  · exact hT s t u (hm s _ t h1) (hf a t r u h2)

/-- What follows a program that does not fail is run. -/
theorem Succeeds.exec_bind {m : Prog σ ε α} {f : α → Prog σ ε β} {s t : σ} {r : Except ε β}
    (hm : Succeeds m) (h : (m >>= f).exec s = some (r, t)) :
    ∃ a u, m.exec s = some (.ok a, u) ∧ (f a).exec u = some (r, t) := by
  rcases Prog.exec_bind_eq_some.1 h with ⟨e, h1, -⟩ | ⟨a, u, h1, h2⟩
  · obtain ⟨a, ha⟩ := hm s _ t h1
    cases ha
  · exact ⟨a, u, h1, h2⟩

end Succeeds

/-! ### What a loop follows -/

section Follows

variable {σ τ ε ℓ α β : Type} {view : σ → τ} {R : τ → ℓ → τ → Prop}

/-- One step of `R`, seen through `view`, or a failure and no step. -/
def Follows (view : σ → τ) (R : τ → ℓ → τ → Prop) (x : ℓ) (m : Prog σ ε β) : Prop :=
  ∀ s r s', m.exec s = some (r, s') →
    (∃ e, r = .error e ∧ view s' = view s) ∨ (∃ b, r = .ok b ∧ R (view s) x (view s'))

theorem follows_mapM {f : α → Prog σ ε β} {label : α → ℓ} {xs : List α}
    (h : ∀ x ∈ xs, Follows view R (label x) (f x)) {s s' : σ} {r : Except ε (List β)}
    (he : (xs.mapM f).exec s = some (r, s')) :
    (∃ bs, r = .ok bs ∧ Path R (view s) (xs.map label) (view s')) ∨
    (∃ e ls, r = .error e ∧ ls <+: xs.map label ∧ Path R (view s) ls (view s')) := by
  induction xs generalizing s r with
  | nil =>
    cases he
    exact .inl ⟨[], rfl, .nil⟩
  | cons x xs ih =>
    rw [List.forall_mem_cons] at h
    rw [List.mapM_cons] at he
    rcases Prog.exec_bind_eq_some.1 he with ⟨e, h1, rfl⟩ | ⟨b, t, h1, h2⟩
    · rcases h.1 _ _ _ h1 with ⟨e', -, hv⟩ | ⟨b, hb, -⟩
      · exact .inr ⟨e, [], rfl, List.nil_prefix, hv ▸ .nil⟩
      · cases hb
    · rcases h.1 _ _ _ h1 with ⟨e', hb, -⟩ | ⟨b', hb, hstep⟩
      · cases hb
      rcases Prog.exec_bind_eq_some.1 h2 with ⟨e, h3, rfl⟩ | ⟨bs, u, h3, h4⟩
      · rcases ih h.2 h3 with ⟨bs, hb, -⟩ | ⟨e', ls, he', hls, hp⟩
        · cases hb
        · exact .inr ⟨e, label x :: ls, rfl, List.cons_prefix_cons.2 ⟨rfl, hls⟩, .cons hstep hp⟩
      · cases h4
        rcases ih h.2 h3 with ⟨bs', hb, hp⟩ | ⟨e', ls, he', -, -⟩
        · exact .inl ⟨b :: bs, rfl, .cons hstep hp⟩
        · cases he'

end Follows

/-! ### Up to a bad event -/

section Unless

variable {σ : Type} {bad : σ → Prop} {P Q : σ → σ → Prop}

/-- Bad stays bad, and short of it `P` holds. -/
structure Unless (bad : σ → Prop) (P : σ → σ → Prop) (s s' : σ) : Prop where
  stays : bad s → bad s'
  holds : ¬ bad s' → P s s'

theorem Unless.imp {s s' : σ} (h : Unless bad P s s') (hPQ : P s s' → Q s s') :
    Unless bad Q s s' :=
  ⟨h.stays, fun hb => hPQ (h.holds hb)⟩

theorem Unless.trans {s t u : σ} (h : Unless bad P s t) (h' : Unless bad Q t u)
    {T : σ → σ → Prop} (hT : P s t → Q t u → T s u) : Unless bad T s u where
  stays hb := h'.stays (h.stays hb)
  holds hb := hT (h.holds fun hc => hb (h'.stays hc)) (h'.holds hb)

instance [IsPreorder σ P] : IsPreorder σ (Unless bad P) where
  refl s := ⟨id, fun _ => Std.Refl.refl s⟩
  trans _ _ _ h h' := h.trans h' (IsTrans.trans _ _ _)

end Unless

/-! ### Doing something, up to a bad event -/

section Does

variable {σ τ ε ε' α β : Type} {bad : σ → Prop} {R S T : σ → σ → Prop}

/-- Short of something bad, the program ends well and relates the states. -/
def Does (bad : σ → Prop) (R : σ → σ → Prop) (m : Prog σ ε α) : Prop :=
  ∀ s r s', m.exec s = some (r, s') → Unless bad (fun s s' => (∃ a, r = .ok a) ∧ R s s') s s'

theorem Does.mono {m : Prog σ ε α} (h : Does bad R m) (hRS : ∀ s s', R s s' → S s s') :
    Does bad S m :=
  fun s r s' he => (h s r s' he).imp fun ⟨hr, hR⟩ => ⟨hr, hRS s s' hR⟩

theorem Does.within {m : Prog σ ε α} (h : Does bad R m) : Within (Unless bad R) m :=
  fun s r s' he => (h s r s' he).imp And.right

/-- What does not fail does whatever it stays within. -/
theorem Succeeds.does {m : Prog σ ε α} (hs : Succeeds m) (h : Within (Unless bad R) m) :
    Does bad R m := by
  intro s r s' he
  have ha := hs s r s' he
  exact (h s r s' he).imp fun hR => ⟨ha, hR⟩

theorem does_pure {a : α} (h : ∀ s, R s s) : Does bad R (pure a : Prog σ ε α) := by
  intro s r s' he
  cases he
  exact ⟨id, fun _ => ⟨⟨a, rfl⟩, h s⟩⟩

theorem does_modify {g : σ → σ} (hbad : ∀ s, bad s → bad (g s)) (h : ∀ s, R s (g s)) :
    Does bad R (modify g : Prog σ ε PUnit) := by
  intro s r s' he
  cases he
  exact ⟨hbad s, fun _ => ⟨⟨_, rfl⟩, h s⟩⟩

theorem does_attempt {m : Prog σ ε α} (h : Within (Unless bad R) m) :
    Does bad R (m.attempt : Prog σ ε' (Except ε α)) := by
  intro s r s' he
  obtain ⟨x, hm, rfl⟩ := Prog.exec_attempt_eq_some.1 he
  exact (h s x s' hm).imp fun hR => ⟨⟨x, rfl⟩, hR⟩

theorem does_bind {m : Prog σ ε α} {f : α → Prog σ ε β} (hm : Does bad R m)
    (hf : ∀ a, Does bad S (f a)) (hT : ∀ s t u, R s t → S t u → T s u) :
    Does bad T (m >>= f) := by
  intro s r u he
  rcases Prog.exec_bind_eq_some.1 he with ⟨e, h1, -⟩ | ⟨a, t, h1, h2⟩
  · exact (hm s _ u h1).imp fun ⟨⟨a, ha⟩, _⟩ => by cases ha
  · exact (hm s _ t h1).trans (hf a t r u h2) fun ⟨_, hR⟩ ⟨hr, hS⟩ => ⟨hr, hT s t u hR hS⟩

/-- What follows a program that ends well need not end well itself. -/
theorem Does.bind_within {m : Prog σ ε α} {f : α → Prog σ ε β} (hm : Does bad R m)
    (hf : ∀ a, Within (Unless bad S) (f a)) (hT : ∀ s t u, R s t → S t u → T s u) :
    Within (Unless bad T) (m >>= f) := by
  intro s r u he
  rcases Prog.exec_bind_eq_some.1 he with ⟨e, h1, -⟩ | ⟨a, t, h1, h2⟩
  · exact (hm s _ u h1).imp fun ⟨⟨a, ha⟩, _⟩ => by cases ha
  · exact (hm s _ t h1).trans (hf a t r u h2) fun ⟨_, hR⟩ hS => hT s t u hR hS

/-- What follows depends on the state, and so may what it does. -/
theorem does_get_bind {k : σ → Prog σ ε β} {Q : σ → σ → σ → Prop}
    (h : ∀ s, Does bad (Q s) (k s)) (hR : ∀ s s', Q s s s' → R s s') :
    Does bad R (get >>= k) := by
  intro s r s' he
  rw [Prog.exec_get_bind] at he
  exact (h s s r s' he).imp fun ⟨hr, hQ⟩ => ⟨hr, hR s s' hQ⟩

theorem does_zoom {bad' : τ → Prop} {Q : τ → τ → Prop} {part : τ → σ} {put : τ → σ → τ}
    {m : Prog σ ε α} (h : Does bad R m) (hbad : ∀ t, bad' t ↔ bad (part t))
    (hpart : ∀ t s, part (put t s) = s) (hput : ∀ t s', R (part t) s' → Q t (put t s')) :
    Does bad' Q (m.zoom part put) := by
  intro t r t' he
  obtain ⟨s', hm, rfl⟩ := Prog.exec_zoom_eq_some.1 he
  have hu := h _ _ _ hm
  refine ⟨fun hb => ?_, fun hb => ?_⟩
  · rw [hbad, hpart]
    exact hu.stays ((hbad t).1 hb)
  · rw [hbad, hpart] at hb
    obtain ⟨hr, hR⟩ := hu.holds hb
    exact ⟨hr, hput t s' hR⟩

end Does

end Myco.Lib
