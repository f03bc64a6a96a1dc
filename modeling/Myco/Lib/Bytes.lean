import Mathlib.Data.List.Induction
import Mathlib.Data.List.Lex
import Mathlib.Data.List.Sort
import Mathlib.Tactic.Ring

/-!
# Byte strings

Byte strings as lists of bytes, ordered lexicographically, with what a codec needs of them:
slices, fixed-width big-endian numbers, and UTF-8 text.

- `At b i s`: the bytes `s` stand at offset `i` of `b`. A cursor-passing reader is specified by
  which bytes it finds at its cursor and how far it moves, so `At` splits along `++`.
- `beBytes w n` / `beNat`: `w` bytes, most significant first, and the number they spell.
- `utf8` / `utf8?`: the UTF-8 bytes of a text and the text that bytes spell, if any.
-/

namespace Myco.Lib

/-- Bytes in their numeric order. -/
instance byteLinearOrder : LinearOrder UInt8 where
  le_refl a := UInt8.le_refl a
  le_trans _ _ _ := UInt8.le_trans
  le_antisymm _ _ := UInt8.le_antisymm
  le_total := UInt8.le_total
  toDecidableLE := inferInstance
  lt_iff_le_not_ge a b := by
    rw [UInt8.le_iff_toNat_le, UInt8.le_iff_toNat_le, UInt8.lt_iff_toNat_lt]
    omega

abbrev Bytes := List UInt8

theorem nil_le {b : Bytes} : ([] : Bytes) ≤ b := by
  cases b with
  | nil => exact le_refl _
  | cons y ys => exact le_of_lt (List.nil_lt_cons y ys)

theorem cons_le_cons_iff {x y : UInt8} {xs ys : Bytes} :
    (x :: xs : Bytes) ≤ y :: ys ↔ x < y ∨ x = y ∧ xs ≤ ys := by
  rw [le_iff_lt_or_eq, le_iff_lt_or_eq, List.cons.injEq, and_or_left, ← or_assoc]
  exact or_congr List.cons_lt_cons_iff Iff.rfl

/-! ### Slices and cursors -/

/-- The bytes from offset `i` up to offset `j`. -/
def slice (b : Bytes) (i j : Nat) : Bytes := (b.drop i).take (j - i)

/-- The bytes `s` stand in `b` at offset `i`. -/
def At (b : Bytes) (i : Nat) (s : Bytes) : Prop := s <+: b.drop i

theorem At.append_iff {b s t : Bytes} {i : Nat} :
    At b i (s ++ t) ↔ At b i s ∧ At b (i + s.length) t := by
  unfold At
  constructor
  · rintro ⟨r, hr⟩
    refine ⟨⟨t ++ r, by rw [← hr, List.append_assoc]⟩, ⟨r, ?_⟩⟩
    rw [← List.drop_drop, ← hr, List.append_assoc, List.drop_left]
  · rintro ⟨⟨r, hr⟩, ⟨q, hq⟩⟩
    rw [← List.drop_drop, ← hr, List.drop_left] at hq
    exact ⟨q, by rw [← hr, ← hq, List.append_assoc]⟩

theorem At.cons_iff {b t : Bytes} {i : Nat} {x : UInt8} :
    At b i (x :: t) ↔ b[i]? = some x ∧ At b (i + 1) t := by
  rw [show x :: t = [x] ++ t from rfl, At.append_iff]
  refine and_congr ?_ Iff.rfl
  unfold At
  rw [← List.head?_drop]
  cases b.drop i with
  | nil => simp
  | cons y ys => simp [eq_comm]

@[simp] theorem At.nil {b : Bytes} {i : Nat} : At b i [] := List.nil_prefix

theorem At.length_le {b s : Bytes} {i : Nat} (h : At b i s) (hi : i ≤ b.length) :
    i + s.length ≤ b.length := by
  have := List.IsPrefix.length_le h
  rw [List.length_drop] at this
  omega

theorem At.lt_length {b s : Bytes} {i : Nat} (h : At b i s) (hs : 0 < s.length) :
    i < b.length := by
  have := List.IsPrefix.length_le h
  rw [List.length_drop] at this
  omega

theorem At.getElem? {b t : Bytes} {i : Nat} {x : UInt8} (h : At b i (x :: t)) :
    b[i]? = some x := (At.cons_iff.1 h).1

theorem At.slice {b s : Bytes} {i : Nat} (h : At b i s) : slice b i (i + s.length) = s := by
  unfold Myco.Lib.slice
  rw [Nat.add_sub_cancel_left]
  exact (List.prefix_iff_eq_take.1 h).symm

theorem At.slice_self {b : Bytes} {i j : Nat} : At b i (Lib.slice b i j) :=
  List.take_prefix _ _

theorem slice_length {b : Bytes} {i j : Nat} (hi : i ≤ j) (hj : j ≤ b.length) :
    (slice b i j).length = j - i := by
  simp only [slice, List.length_take, List.length_drop]
  omega

theorem At.of_eq {b : Bytes} : At b 0 b := by simp [At]

/-- What fills `b` from its start to its end is `b` itself. -/
theorem At.eq_of_length {b s : Bytes} (h : At b 0 s) (hl : s.length = b.length) : s = b := by
  unfold At at h
  rw [List.drop_zero] at h
  exact h.eq_of_length hl

/-! ### Fixed-width big-endian numbers -/

/-- The last `w` base-256 digits of `n`, most significant first. -/
def beBytes : Nat → Nat → Bytes
  | 0, _ => []
  | w + 1, n => beBytes w (n / 256) ++ [UInt8.ofNat n]

/-- The number that big-endian bytes spell. -/
def beNat (b : Bytes) : Nat := b.foldl (fun acc x => acc * 256 + x.toNat) 0

@[simp] theorem beBytes_length {w n : Nat} : (beBytes w n).length = w := by
  induction w generalizing n with
  | zero => rfl
  | succ w ih => simp [beBytes, ih]

theorem beNat_append_singleton {b : Bytes} {x : UInt8} :
    beNat (b ++ [x]) = beNat b * 256 + x.toNat := by
  simp [beNat, List.foldl_append]

theorem beNat_beBytes {w n : Nat} (h : n < 256 ^ w) : beNat (beBytes w n) = n := by
  induction w generalizing n with
  | zero => simp only [Nat.pow_zero] at h; simp [beBytes, beNat]; omega
  | succ w ih =>
    have hd : n / 256 < 256 ^ w := by
      rw [Nat.div_lt_iff_lt_mul (by decide)]
      rw [Nat.pow_succ] at h
      exact h
    rw [beBytes, beNat_append_singleton, ih hd]
    simp only [UInt8.toNat_ofNat']
    omega

theorem beNat_lt {b : Bytes} : beNat b < 256 ^ b.length := by
  induction b using List.reverseRecOn with
  | nil => simp [beNat]
  | append_singleton xs x ih =>
    rw [beNat_append_singleton, List.length_append, List.length_singleton, Nat.pow_succ]
    have := x.toNat_lt
    omega

theorem beBytes_beNat {b : Bytes} : beBytes b.length (beNat b) = b := by
  induction b using List.reverseRecOn with
  | nil => rfl
  | append_singleton xs x ih =>
    have hx := x.toNat_lt
    rw [beNat_append_singleton, List.length_append, List.length_singleton, beBytes]
    rw [show (beNat xs * 256 + x.toNat) / 256 = beNat xs by omega, ih]
    congr 2
    apply UInt8.toNat_inj.1
    simp only [UInt8.toNat_ofNat']
    omega

/-- `u64::to_be_bytes`. -/
def u64Be (u : UInt64) : Bytes := beBytes 8 u.toNat

/-- `u64::from_be_bytes`. -/
def u64OfBe (b : Bytes) : UInt64 := UInt64.ofNat (beNat b)

/-- `i64::to_be_bytes`: two's complement. -/
def i64Be (i : Int64) : Bytes := u64Be i.toUInt64

/-- `i64::from_be_bytes`. -/
def i64OfBe (b : Bytes) : Int64 := (u64OfBe b).toInt64

@[simp] theorem u64Be_length {u : UInt64} : (u64Be u).length = 8 := beBytes_length

@[simp] theorem i64Be_length {i : Int64} : (i64Be i).length = 8 := u64Be_length

@[simp] theorem u64OfBe_u64Be {u : UInt64} : u64OfBe (u64Be u) = u := by
  rw [u64OfBe, u64Be, beNat_beBytes (by have := u.toNat_lt; omega), UInt64.ofNat_toNat]

@[simp] theorem i64OfBe_i64Be {i : Int64} : i64OfBe (i64Be i) = i := by
  rw [i64OfBe, i64Be, u64OfBe_u64Be, Int64.toInt64_toUInt64]

theorem toNat_u64OfBe {b : Bytes} (h : b.length = 8) : (u64OfBe b).toNat = beNat b := by
  have hlt := beNat_lt (b := b)
  rw [h] at hlt
  exact UInt64.toNat_ofNat_of_lt' hlt

theorem u64Be_u64OfBe {b : Bytes} (h : b.length = 8) : u64Be (u64OfBe b) = b := by
  rw [u64Be, toNat_u64OfBe h, ← h, beBytes_beNat]

theorem i64Be_i64OfBe {b : Bytes} (h : b.length = 8) : i64Be (i64OfBe b) = b := by
  rw [i64Be, i64OfBe, UInt64.toUInt64_toInt64, u64Be_u64OfBe h]

theorem toInt_toInt64 {u : UInt64} :
    u.toInt64.toInt = if u.toNat < 2 ^ 63 then (u.toNat : Int) else u.toNat - 2 ^ 64 := by
  rw [← Int64.toInt_toBitVec, BitVec.toInt_eq_toNat_cond]
  have h : u.toInt64.toBitVec.toNat = u.toNat := rfl
  rw [h]
  split <;> split <;> omega

/-- The two's complement of a signed number. -/
theorem toNat_toUInt64 {i : Int64} : (i.toUInt64.toNat : Int) = i.toInt % 2 ^ 64 := by
  have h := toInt_toInt64 (u := i.toUInt64)
  rw [Int64.toInt64_toUInt64] at h
  have := i.toUInt64.toNat_lt
  rw [h]
  split <;> omega

/-! ### UTF-8 text -/

/-- The UTF-8 bytes of a text. -/
def utf8 (s : String) : Bytes := s.toByteArray.data.toList

/-- The text that the bytes spell, when they are valid UTF-8. -/
def utf8? (b : Bytes) : Option String := String.fromUTF8? ⟨b.toArray⟩

@[simp] theorem utf8?_utf8 {s : String} : utf8? (utf8 s) = some s := by
  have h : (⟨(utf8 s).toArray⟩ : ByteArray) = s.toByteArray := by simp [utf8]
  simp only [utf8?, h, String.fromUTF8?]
  rw [dif_pos s.isValidUTF8]
  rfl

theorem utf8_of_utf8? {b : Bytes} {s : String} (h : utf8? b = some s) : utf8 s = b := by
  unfold utf8? String.fromUTF8? at h
  split at h
  · cases h; simp [utf8, String.fromUTF8]
  · cases h

theorem utf8_injective : Function.Injective utf8 := by
  intro s t h
  have := congrArg utf8? h
  simpa using this

@[simp] theorem utf8_inj {s t : String} : utf8 s = utf8 t ↔ s = t := utf8_injective.eq_iff

theorem utf8_append {s t : String} : utf8 (s ++ t) = utf8 s ++ utf8 t := by
  simp [utf8, String.toByteArray_append]

/-! ### Prefixes of texts -/

/-- `s` begins with the text `p`. -/
def startsWith (p s : String) : Prop := utf8 p <+: utf8 s

instance (p s : String) : Decidable (startsWith p s) := inferInstanceAs (Decidable (_ <+: _))

/-- Neither text begins with the other. -/
def Apart (p q : String) : Prop := ¬ startsWith p q ∧ ¬ startsWith q p

instance (p q : String) : Decidable (Apart p q) := inferInstanceAs (Decidable (_ ∧ _))

theorem startsWith_append {p s : String} : startsWith p (p ++ s) := by
  rw [startsWith, utf8_append]
  exact List.prefix_append _ _

/-- What a text begins with is a text before the rest of it. -/
theorem eq_append_of_startsWith {p s : String} (h : startsWith p s) : ∃ r, s = p ++ r := by
  obtain ⟨rest, hrest⟩ := h
  have hbytes : p.toList.utf8Encode ++ ⟨rest.toArray⟩ = s.toList.utf8Encode := by
    rw [String.utf8Encode_toList, String.utf8Encode_toList]
    refine ByteArray.ext (Array.toList_inj.1 ?_)
    simpa [utf8] using hrest
  obtain ⟨cs, hcs⟩ := List.isPrefix_of_utf8Encode_append_eq_utf8Encode _ hbytes
  exact ⟨String.ofList cs, String.ext (by simp [hcs])⟩

theorem startsWith_iff {p s : String} : startsWith p s ↔ ∃ r, s = p ++ r :=
  ⟨eq_append_of_startsWith, fun ⟨_, h⟩ => h ▸ startsWith_append⟩

/-- What follows `p` in a text that begins with it. -/
def stripPrefix (p s : String) : Option String :=
  if startsWith p s then some (String.ofList (s.toList.drop p.toList.length)) else none

theorem stripPrefix_isSome {p s : String} : (stripPrefix p s).isSome ↔ startsWith p s := by
  unfold stripPrefix
  split <;> simp [*]

theorem startsWith_of_stripPrefix {p s rest : String} (h : stripPrefix p s = some rest) :
    startsWith p s := stripPrefix_isSome.1 (by rw [h]; rfl)

@[simp] theorem stripPrefix_append {p s : String} : stripPrefix p (p ++ s) = some s := by
  rw [stripPrefix, if_pos startsWith_append, String.toList_append, List.drop_left,
    String.ofList_toList]

theorem stripPrefix_eq_some {p s rest : String} : stripPrefix p s = some rest ↔ s = p ++ rest := by
  constructor
  · intro h
    obtain ⟨r, rfl⟩ := eq_append_of_startsWith (startsWith_of_stripPrefix h)
    rw [stripPrefix_append] at h
    cases h
    rfl
  · rintro rfl
    exact stripPrefix_append

theorem not_startsWith {p q s : String} (h : startsWith p s) (hpq : Apart p q) :
    ¬ startsWith q s := by
  intro hq
  rcases List.prefix_or_prefix_of_prefix h hq with h1 | h1
  · exact hpq.1 h1
  · exact hpq.2 h1

theorem stripPrefix_eq_none {p q s : String} (h : startsWith p s) (hpq : Apart p q) :
    stripPrefix q s = none := by
  rw [← Option.not_isSome_iff_eq_none, stripPrefix_isSome]
  exact not_startsWith h hpq

theorem ne_empty_of_startsWith {p q s : String} (h : startsWith p s) (hpq : Apart p q) :
    s ≠ "" := by
  rintro rfl
  have hnil : utf8 p = [] := List.prefix_nil.1 h
  refine hpq.1 ?_
  rw [startsWith, hnil]
  exact List.nil_prefix

theorem ne_of_startsWith {p q s : String} (h : startsWith p s) (hpq : Apart p q) : s ≠ q := by
  rintro rfl
  exact hpq.1 h

end Myco.Lib
