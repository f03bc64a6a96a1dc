import Mathlib.Data.Nat.Bitwise
import Myco.Lib.Bytes

/-!
# Seven-bit variable-length numbers

A number as groups of seven bits, least significant first, one a byte: every byte but the last
has its top bit set. A number has one shortest spelling, `emit n`; a spelling padded with zero
groups has the same `lebValue`. Spellings are prefix-free, and `readLeb` finds the one that
starts at an offset.
-/

namespace Myco.Lib

/-- A spelling: continuation bytes, then one byte with its top bit clear. -/
def IsLeb : Bytes → Prop
  | [] => False
  | x :: xs => if x < 0x80 then xs = [] else IsLeb xs

/-- The number a spelling stands for. -/
def lebValue : Bytes → Nat
  | [] => 0
  | x :: xs => x.toNat % 128 + 128 * lebValue xs

def emitAux : Nat → Nat → Bytes
  | 0, n => [UInt8.ofNat n]
  | k + 1, n =>
    if n < 128 then [UInt8.ofNat n] else UInt8.ofNat (n % 128 + 128) :: emitAux k (n / 128)

/-- The shortest spelling of `n`. -/
def emit (n : Nat) : Bytes := emitAux n n

theorem emitAux_eq {k n : Nat} (h : n ≤ k) : emitAux k n = emit n := by
  unfold emit
  induction n using Nat.strongRecOn generalizing k with
  | ind n ih =>
    match k, n with
    | 0, n => simp_all
    | k + 1, 0 => rfl
    | k + 1, n + 1 =>
      simp only [emitAux]
      split
      · rfl
      · rw [ih ((n + 1) / 128) (by omega) (k := k) (by omega),
          ih ((n + 1) / 128) (by omega) (k := n) (by omega)]

theorem emit_eq {n : Nat} :
    emit n = if n < 128 then [UInt8.ofNat n]
      else UInt8.ofNat (n % 128 + 128) :: emit (n / 128) := by
  cases n with
  | zero => rfl
  | succ n =>
    rw [← emitAux_eq (k := n) (n := (n + 1) / 128) (by omega)]
    rfl

theorem emit_of_lt {n : Nat} (h : n < 128) : emit n = [UInt8.ofNat n] := by
  rw [emit_eq, if_pos h]

theorem emit_of_ge {n : Nat} (h : 128 ≤ n) :
    emit n = UInt8.ofNat (n % 128 + 128) :: emit (n / 128) := by
  rw [emit_eq, if_neg (by omega)]

theorem isLeb_cons_of_lt {x : UInt8} {xs : Bytes} (h : x.toNat < 128) :
    IsLeb (x :: xs) ↔ xs = [] := by
  have : x < 0x80 := UInt8.lt_iff_toNat_lt.2 h
  simp [IsLeb, this]

theorem isLeb_cons_of_ge {x : UInt8} {xs : Bytes} (h : 128 ≤ x.toNat) :
    IsLeb (x :: xs) ↔ IsLeb xs := by
  have : ¬ x < 0x80 := fun hx => by
    have := UInt8.lt_iff_toNat_lt.1 hx
    simp at this
    omega
  simp [IsLeb, this]

theorem isLeb_emit {n : Nat} : IsLeb (emit n) := by
  induction n using Nat.strongRecOn with
  | ind n ih =>
    by_cases h : n < 128
    · rw [emit_of_lt h, isLeb_cons_of_lt (by simp only [UInt8.toNat_ofNat']; omega)]
    · rw [emit_of_ge (by omega), isLeb_cons_of_ge (by simp only [UInt8.toNat_ofNat']; omega)]
      exact ih _ (by omega)

@[simp] theorem lebValue_emit {n : Nat} : lebValue (emit n) = n := by
  induction n using Nat.strongRecOn with
  | ind n ih =>
    by_cases h : n < 128
    · rw [emit_of_lt h]
      simp only [lebValue, UInt8.toNat_ofNat']
      omega
    · rw [emit_of_ge (by omega), lebValue, ih _ (by omega)]
      simp only [UInt8.toNat_ofNat']
      omega

theorem emit_length_le {n k : Nat} (h : n < 128 ^ (k + 1)) : (emit n).length ≤ k + 1 := by
  induction k generalizing n with
  | zero => rw [emit_of_lt (by simpa using h)]; rfl
  | succ k ih =>
    by_cases hn : n < 128
    · rw [emit_of_lt hn]; simp
    · have hd : n / 128 < 128 ^ (k + 1) := by
        rw [Nat.div_lt_iff_lt_mul (by decide), ← Nat.pow_succ]
        exact h
      rw [emit_of_ge (by omega), List.length_cons]
      have := ih hd
      omega

theorem lebValue_lt {s : Bytes} : lebValue s < 128 ^ s.length := by
  induction s with
  | nil => decide
  | cons x xs ih =>
    rw [lebValue, List.length_cons, Nat.pow_succ]
    omega

/-- No spelling of a number is shorter than the emitted one. -/
theorem IsLeb.emit_length_le {s : Bytes} (h : IsLeb s) :
    (emit (lebValue s)).length ≤ s.length := by
  cases s with
  | nil => exact h.elim
  | cons x xs => exact Lib.emit_length_le lebValue_lt

theorem emit_length_mono {m n : Nat} (h : m ≤ n) : (emit m).length ≤ (emit n).length := by
  have hlt : n < 128 ^ (emit n).length := by simpa using lebValue_lt (s := emit n)
  cases hs : emit n with
  | nil => exact absurd (hs ▸ isLeb_emit : IsLeb []) id
  | cons x xs =>
    rw [hs] at hlt
    exact emit_length_le (h.trans_lt hlt)

theorem IsLeb.ne_nil {s : Bytes} (h : IsLeb s) : s ≠ [] := by
  rintro rfl
  exact h

theorem IsLeb.length_pos {s : Bytes} (h : IsLeb s) : 0 < s.length :=
  List.length_pos_iff.2 h.ne_nil

/-- No spelling is a proper prefix of another. -/
theorem IsLeb.prefix_free {s t r q : Bytes} (hs : IsLeb s) (ht : IsLeb t)
    (h : s ++ r = t ++ q) : s = t ∧ r = q := by
  induction s generalizing t with
  | nil => exact hs.elim
  | cons x xs ih =>
    cases t with
    | nil => exact ht.elim
    | cons y ys =>
      simp only [List.cons_append, List.cons.injEq] at h
      obtain ⟨rfl, h⟩ := h
      by_cases hx : x.toNat < 128
      · rw [isLeb_cons_of_lt hx] at hs ht
        subst hs ht
        exact ⟨rfl, by simpa using h⟩
      · rw [isLeb_cons_of_ge (by omega)] at hs ht
        obtain ⟨rfl, rfl⟩ := ih hs ht h
        exact ⟨rfl, rfl⟩

/-! ### The bit tricks of a reader and a writer -/

theorem toNat_and_0x7f {x : UInt8} : (x &&& 0x7f).toNat = x.toNat % 128 := by
  rw [UInt8.toNat_and, show (0x7f : UInt8).toNat = 2 ^ 7 - 1 from rfl,
    Nat.and_two_pow_sub_one_eq_mod]

theorem toNat_or_0x80 {x : UInt8} (h : x.toNat < 128) : (x ||| 0x80).toNat = x.toNat + 128 := by
  have := Nat.two_pow_add_eq_or_of_lt (i := 7) h 1
  rw [UInt8.toNat_or, show (0x80 : UInt8).toNat = 2 ^ 7 * 1 from rfl, Nat.or_comm]
  omega

theorem or_0x80_and_0x7f {n : Nat} : (n &&& 0x7f) ||| 0x80 = n % 128 + 128 := by
  have hand : n &&& 0x7f = n % 2 ^ 7 := Nat.and_two_pow_sub_one_eq_mod n 7
  have := Nat.two_pow_add_eq_or_of_lt (i := 7) (Nat.mod_lt n (by decide)) 1
  rw [hand, show 0x80 = 2 ^ 7 * 1 from rfl, Nat.or_comm]
  omega

theorem and_0x80_eq_zero_iff {n : Nat} (h : n < 256) : n &&& 0x80 = 0 ↔ n < 128 := by
  rw [show 0x80 = 2 ^ 7 from rfl, Nat.and_two_pow, Nat.testBit_eq_decide_div_mod_eq]
  by_cases h7 : n / 2 ^ 7 % 2 = 1
  · simp only [h7, decide_true, Bool.toNat_true]
    omega
  · simp only [h7, decide_false, Bool.toNat_false, Nat.zero_mul, true_iff]
    omega

/-- Adding the next group above the ones read so far. -/
theorem or_shiftLeft {acc s x : Nat} (h : acc < 2 ^ s) : acc ||| x <<< s = acc + 2 ^ s * x := by
  rw [Nat.shiftLeft_eq, Nat.or_comm, Nat.mul_comm, ← Nat.two_pow_add_eq_or_of_lt h]
  omega

/-! ### Writing with unbounded integers -/

/-- The writer's loop on an unbounded integer: the low seven bits, then the rest. The first
number bounds the rounds. -/
def emitLoop : Nat → Nat → Bytes
  | 0, n => [UInt8.ofNat n]
  | k + 1, n =>
    if n ≥ 0x80 then UInt8.ofNat ((n &&& 0x7f) ||| 0x80) :: emitLoop k (n >>> 7)
    else [UInt8.ofNat n]

theorem emitLoop_eq {k n : Nat} (h : n ≤ k) : emitLoop k n = emit n := by
  induction k generalizing n with
  | zero =>
    obtain rfl : n = 0 := by omega
    rfl
  | succ k ih =>
    simp only [emitLoop]
    split
    · rename_i hn
      rw [ih (by rw [Nat.shiftRight_eq_div_pow]; omega), emit_of_ge hn, or_0x80_and_0x7f,
        Nat.shiftRight_eq_div_pow]
    · rename_i hn
      rw [emit_of_lt (by omega)]

/-! ### Reading one at an offset -/

/-- The spelling of at most `k` bytes at offset `i`. -/
def readLeb (b : Bytes) : Nat → Nat → Option Bytes
  | 0, _ => none
  | k + 1, i =>
    match b[i]? with
    | none => none
    | some x => if x < 0x80 then some [x] else (readLeb b k (i + 1)).map (x :: ·)

theorem readLeb_sound {b s : Bytes} {k i : Nat} (h : readLeb b k i = some s) :
    At b i s ∧ IsLeb s ∧ s.length ≤ k := by
  induction k generalizing i s with
  | zero => cases h
  | succ k ih =>
    simp only [readLeb] at h
    split at h
    · cases h
    · rename_i x hx
      split at h
      · rename_i hlt
        cases h
        exact ⟨At.cons_iff.2 ⟨hx, At.nil⟩, by simp [IsLeb, hlt], by simp⟩
      · rename_i hge
        obtain ⟨t, ht, rfl⟩ := Option.map_eq_some_iff.1 h
        obtain ⟨hat, hl, hlen⟩ := ih ht
        exact ⟨At.cons_iff.2 ⟨hx, hat⟩, by simpa [IsLeb, hge] using hl, by simpa using hlen⟩

theorem readLeb_complete {b s : Bytes} {k i : Nat} (hat : At b i s) (hl : IsLeb s)
    (hk : s.length ≤ k) : readLeb b k i = some s := by
  induction k generalizing i s with
  | zero => exact (hl.ne_nil (List.length_eq_zero_iff.1 (by omega))).elim
  | succ k ih =>
    cases s with
    | nil => exact hl.elim
    | cons x xs =>
      obtain ⟨hx, hxs⟩ := At.cons_iff.1 hat
      simp only [readLeb, hx]
      split
      · rename_i hlt
        simp only [IsLeb, hlt, if_true] at hl
        rw [hl]
      · rename_i hge
        simp only [IsLeb, hge, if_false] at hl
        rw [ih hxs hl (by simpa using hk)]
        rfl

/-! ### Spellings as a type -/

/-- A spelling of a number, perhaps longer than it need be. -/
structure Leb where
  bytes : Bytes
  isLeb : IsLeb bytes

namespace Leb

@[ext] theorem ext {a b : Leb} (h : a.bytes = b.bytes) : a = b := by
  cases a; cases b; cases h; rfl

def value (l : Leb) : Nat := lebValue l.bytes

/-- The shortest spelling of `n`. -/
def ofNat (n : Nat) : Leb := ⟨emit n, isLeb_emit⟩

@[simp] theorem bytes_ofNat {n : Nat} : (ofNat n).bytes = emit n := rfl

@[simp] theorem value_ofNat {n : Nat} : (ofNat n).value = n := lebValue_emit

end Leb

end Myco.Lib
