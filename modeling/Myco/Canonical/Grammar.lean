import Myco.Canonical.Value
import Myco.Lib.Leb128

/-!
# The grammar of canonical bytes

`Tlv` is a byte string taken apart: a tree that keeps every varint as it was spelled and every
map entry in the order it stands. `Tlv.bytes` puts the tree back together. A decoder differs from
another in how it reads a varint, so what makes a tree acceptable is stated for a reading
`rd : Leb → Option Nat`: `Tlv.Ok rd` asks that every varint is read as the number of things that
follow it and that the keys of every map ascend strictly, as the raw bytes they are spelled with.

No two acceptable trees spell the same bytes (`Tlv.unique`).
-/

namespace Myco.Canonical

open Myco.Lib

/-- A map key: its length varint and its text. -/
structure Key where
  len : Leb
  text : String

/-- The length of a key's text is read right. -/
def Key.Ok (rd : Leb → Option Nat) (k : Key) : Prop := rd k.len = some (utf8 k.text).length

/-- A key as it stands in the input, tag and length included. -/
def keyBytes (k : Key) : Bytes := Tag.string.byte :: (k.len.bytes ++ utf8 k.text)

inductive Tlv where
  | null
  | bool (b : Bool)
  | int (i : Int64)
  | uint (u : UInt64)
  | string (len : Leb) (s : String)
  | bytes (len : Leb) (b : Bytes)
  | array (count : Leb) (items : List Tlv)
  | map (count : Leb) (entries : List (Key × Tlv))
  | timestamp (ts : Int64)
  | hash (h : Hash32)

/-- Induction over a tree, through the items of its arrays and the entries of its maps. -/
theorem Tlv.induction {P : Tlv → Prop} (null : P .null) (bool : ∀ b, P (.bool b))
    (int : ∀ i, P (.int i)) (uint : ∀ u, P (.uint u)) (string : ∀ l s, P (.string l s))
    (bytes : ∀ l b, P (.bytes l b)) (array : ∀ n items, (∀ t ∈ items, P t) → P (.array n items))
    (map : ∀ n entries, (∀ e ∈ entries, P e.2) → P (.map n entries))
    (timestamp : ∀ ts, P (.timestamp ts)) (hash : ∀ h, P (.hash h)) (t : Tlv) : P t :=
  Tlv.rec (motive_1 := P) (motive_2 := fun ts => ∀ t ∈ ts, P t)
    (motive_3 := fun es => ∀ e ∈ es, P e.2) (motive_4 := fun e => P e.2)
    null bool int uint string bytes array map timestamp hash
    (fun t ht => by cases ht) (fun _ _ h1 h2 => List.forall_mem_cons.2 ⟨h1, h2⟩)
    (fun e he => by cases he) (fun _ _ h1 h2 => List.forall_mem_cons.2 ⟨h1, h2⟩)
    (fun _ _ h => h) t

/-! ### Spelling a tree -/

mutual

def Tlv.bytesOf : Tlv → Bytes
  | .null => [Tag.null.byte]
  | .bool b => [Tag.bool.byte, if b then 0x01 else 0x00]
  | .int i => Tag.int.byte :: i64Be i
  | .uint u => Tag.uint.byte :: u64Be u
  | .string len s => keyBytes ⟨len, s⟩
  | .bytes len b => Tag.bytes.byte :: (len.bytes ++ b)
  | .array n items => Tag.array.byte :: (n.bytes ++ bytesOfItems items)
  | .map n entries => Tag.map.byte :: (n.bytes ++ bytesOfEntries entries)
  | .timestamp ts => Tag.timestamp.byte :: i64Be ts
  | .hash h => Tag.hash.byte :: h.bytes

def bytesOfItems : List Tlv → Bytes
  | [] => []
  | t :: ts => t.bytesOf ++ bytesOfItems ts

def bytesOfEntries : List (Key × Tlv) → Bytes
  | [] => []
  | (k, t) :: es => keyBytes k ++ (t.bytesOf ++ bytesOfEntries es)

end

def Tlv.tag : Tlv → Tag
  | .null => .null
  | .bool _ => .bool
  | .int _ => .int
  | .uint _ => .uint
  | .string _ _ => .string
  | .bytes _ _ => .bytes
  | .array _ _ => .array
  | .map _ _ => .map
  | .timestamp _ => .timestamp
  | .hash _ => .hash

/-- A tree is spelled tag first. -/
theorem Tlv.bytesOf_eq (t : Tlv) : t.bytesOf = t.tag.byte :: t.bytesOf.tail := by
  cases t <;> simp [bytesOf, tag, keyBytes]

theorem Tlv.bytesOf_length_pos (t : Tlv) : 0 < t.bytesOf.length := by
  rw [t.bytesOf_eq, List.length_cons]
  omega

theorem bytesOfItems_length_mem {ts : List Tlv} {t : Tlv} (h : t ∈ ts) :
    t.bytesOf.length ≤ (bytesOfItems ts).length := by
  induction ts with
  | nil => cases h
  | cons u us ih =>
    simp only [bytesOfItems, List.length_append]
    rcases List.mem_cons.1 h with rfl | h
    · omega
    · have := ih h; omega

theorem bytesOfEntries_length_mem {es : List (Key × Tlv)} {e : Key × Tlv} (h : e ∈ es) :
    (keyBytes e.1).length + e.2.bytesOf.length ≤ (bytesOfEntries es).length := by
  induction es with
  | nil => cases h
  | cons d ds ih =>
    simp only [bytesOfEntries, List.length_append]
    rcases List.mem_cons.1 h with rfl | h
    · omega
    · have := ih h; omega

/-- An item takes at least one byte, so a count never exceeds the bytes it announces. -/
theorem length_le_bytesOfItems (ts : List Tlv) : ts.length ≤ (bytesOfItems ts).length := by
  induction ts with
  | nil => simp
  | cons t ts ih =>
    have := t.bytesOf_length_pos
    simp only [bytesOfItems, List.length_cons, List.length_append]
    omega

theorem length_le_bytesOfEntries (es : List (Key × Tlv)) :
    es.length ≤ (bytesOfEntries es).length := by
  induction es with
  | nil => simp
  | cons e es ih =>
    have := e.2.bytesOf_length_pos
    simp only [bytesOfEntries, List.length_cons, List.length_append]
    omega

/-! ### Acceptable trees -/

/-- Keys ascend strictly in the bytes they are spelled with. -/
abbrev KeysAscend (es : List (Key × Tlv)) : Prop := OrdMap.Sorted keyBytes es

section

variable (rd : Leb → Option Nat)

mutual

/-- Every varint is read as the number of what follows it, and the keys of every map ascend. -/
def Tlv.Ok : Tlv → Prop
  | .string len s => rd len = some (utf8 s).length
  | .bytes len b => rd len = some b.length
  | .array n items => rd n = some items.length ∧ OkItems items
  | .map n entries => rd n = some entries.length ∧ KeysAscend entries ∧ OkEntries entries
  | _ => True

def OkItems : List Tlv → Prop
  | [] => True
  | t :: ts => t.Ok ∧ OkItems ts

def OkEntries : List (Key × Tlv) → Prop
  | [] => True
  | (k, t) :: es => k.Ok rd ∧ t.Ok ∧ OkEntries es

end

end

variable {rd : Leb → Option Nat}

theorem okItems_iff {ts : List Tlv} : OkItems rd ts ↔ ∀ t ∈ ts, t.Ok rd := by
  induction ts with
  | nil => simp [OkItems]
  | cons t ts ih => simp [OkItems, ih]

theorem okEntries_iff {es : List (Key × Tlv)} :
    OkEntries rd es ↔ ∀ e ∈ es, e.1.Ok rd ∧ e.2.Ok rd := by
  induction es with
  | nil => simp [OkEntries]
  | cons e es ih => simp [OkEntries, ih, and_assoc]

theorem keyBytes_unique {k k' : Key} {r r' : Bytes} (hk : k.Ok rd) (hk' : k'.Ok rd)
    (h : keyBytes k ++ r = keyBytes k' ++ r') : k = k' ∧ r = r' := by
  obtain ⟨l, s⟩ := k
  obtain ⟨l', s'⟩ := k'
  simp only [Key.Ok] at hk hk'
  simp only [keyBytes, List.cons_append, List.append_assoc, List.cons.injEq, true_and] at h
  obtain ⟨hl, h1⟩ := l.isLeb.prefix_free l'.isLeb h
  obtain rfl := Leb.ext hl
  obtain ⟨hs, hr⟩ := List.append_inj h1 (Option.some.inj (hk.symm.trans hk'))
  exact ⟨by rw [utf8_injective hs], hr⟩

/-- `t` is told from every acceptable tree by its bytes. -/
def Tlv.Unique (rd : Leb → Option Nat) (t : Tlv) : Prop :=
  ∀ {t' : Tlv} {r r' : Bytes}, t.Ok rd → t'.Ok rd → t.bytesOf ++ r = t'.bytesOf ++ r' →
    t = t' ∧ r = r'

theorem bytesOfItems_unique {ts ts' : List Tlv} {r r' : Bytes} (ih : ∀ t ∈ ts, t.Unique rd)
    (hok : ∀ t ∈ ts, t.Ok rd) (hok' : ∀ t ∈ ts', t.Ok rd) (hl : ts.length = ts'.length)
    (h : bytesOfItems ts ++ r = bytesOfItems ts' ++ r') : ts = ts' ∧ r = r' := by
  induction ts generalizing ts' with
  | nil =>
    cases ts' with
    | nil => exact ⟨rfl, h⟩
    | cons t' ts' => cases hl
  | cons t ts ihts =>
    cases ts' with
    | nil => cases hl
    | cons t' ts' =>
      rw [List.forall_mem_cons] at ih hok hok'
      simp only [bytesOfItems, List.append_assoc] at h
      obtain ⟨rfl, h1⟩ := ih.1 hok.1 hok'.1 h
      obtain ⟨rfl, h2⟩ := ihts ih.2 hok.2 hok'.2 (by simpa using hl) h1
      exact ⟨rfl, h2⟩

theorem bytesOfEntries_unique {es es' : List (Key × Tlv)} {r r' : Bytes}
    (ih : ∀ e ∈ es, e.2.Unique rd) (hok : ∀ e ∈ es, e.1.Ok rd ∧ e.2.Ok rd)
    (hok' : ∀ e ∈ es', e.1.Ok rd ∧ e.2.Ok rd) (hl : es.length = es'.length)
    (h : bytesOfEntries es ++ r = bytesOfEntries es' ++ r') : es = es' ∧ r = r' := by
  induction es generalizing es' with
  | nil =>
    cases es' with
    | nil => exact ⟨rfl, h⟩
    | cons e' es' => cases hl
  | cons e es ihes =>
    cases es' with
    | nil => cases hl
    | cons e' es' =>
      obtain ⟨k, t⟩ := e
      obtain ⟨k', t'⟩ := e'
      rw [List.forall_mem_cons] at ih hok hok'
      simp only [bytesOfEntries, List.append_assoc] at h
      obtain ⟨hk, h1⟩ := keyBytes_unique hok.1.1 hok'.1.1 h
      obtain ⟨ht, h2⟩ := ih.1 hok.1.2 hok'.1.2 h1
      simp only at hk ht
      subst hk ht
      obtain ⟨rfl, h3⟩ := ihes ih.2 hok.2 hok'.2 (by simpa using hl) h2
      exact ⟨rfl, h3⟩

theorem Tlv.tag_eq_of_append {t t' : Tlv} {r r' : Bytes}
    (h : t.bytesOf ++ r = t'.bytesOf ++ r') : t.tag = t'.tag := by
  rw [t.bytesOf_eq, t'.bytesOf_eq] at h
  exact Tag.byte_injective (List.cons.inj h).1

/-- Acceptable trees are spelled unambiguously, whatever follows them. -/
theorem Tlv.unique (t : Tlv) : t.Unique rd := by
  intro t' r r' hok hok' h
  have htag := Tlv.tag_eq_of_append h
  induction t using Tlv.induction generalizing t' r r' with
  | null => cases t' <;> cases htag; exact ⟨rfl, by simpa [bytesOf] using h⟩
  | bool b =>
    cases t' <;> cases htag
    rename_i b'
    simp only [bytesOf, List.cons_append, List.nil_append, List.cons.injEq, true_and] at h
    obtain ⟨hb, rfl⟩ := h
    cases b <;> cases b' <;> simp_all
  | int i =>
    cases t' <;> cases htag
    simp only [bytesOf, List.cons_append, List.cons.injEq, true_and] at h
    obtain ⟨hi, hr⟩ := List.append_inj h (by simp)
    exact ⟨by rw [← i64OfBe_i64Be (i := i), hi, i64OfBe_i64Be], hr⟩
  | uint u =>
    cases t' <;> cases htag
    simp only [bytesOf, List.cons_append, List.cons.injEq, true_and] at h
    obtain ⟨hu, hr⟩ := List.append_inj h (by simp)
    exact ⟨by rw [← u64OfBe_u64Be (u := u), hu, u64OfBe_u64Be], hr⟩
  | string l s =>
    cases t' <;> cases htag
    rename_i l' s'
    obtain ⟨hk, hr⟩ := @keyBytes_unique _ ⟨l, s⟩ ⟨l', s'⟩ _ _ hok hok' h
    cases hk
    exact ⟨rfl, hr⟩
  | bytes l b =>
    cases t' <;> cases htag
    rename_i l' b'
    simp only [Ok] at hok hok'
    simp only [bytesOf, List.cons_append, List.append_assoc, List.cons.injEq, true_and] at h
    obtain ⟨hl, h1⟩ := l.isLeb.prefix_free l'.isLeb h
    obtain rfl := Leb.ext hl
    obtain ⟨rfl, hr⟩ := List.append_inj h1 (Option.some.inj (hok.symm.trans hok'))
    exact ⟨rfl, hr⟩
  | array n items ih =>
    cases t' <;> cases htag
    rename_i n' items'
    simp only [Ok, okItems_iff] at hok hok'
    simp only [bytesOf, List.cons_append, List.append_assoc, List.cons.injEq, true_and] at h
    obtain ⟨hn, h1⟩ := n.isLeb.prefix_free n'.isLeb h
    obtain rfl := Leb.ext hn
    have hl := Option.some.inj (hok.1.symm.trans hok'.1)
    obtain ⟨rfl, hr⟩ := bytesOfItems_unique
      (fun t ht _ _ _ h1 h2 h3 => ih t ht h1 h2 h3 (tag_eq_of_append h3)) hok.2 hok'.2 hl h1
    exact ⟨rfl, hr⟩
  | map n entries ih =>
    cases t' <;> cases htag
    rename_i n' entries'
    simp only [Ok, okEntries_iff] at hok hok'
    simp only [bytesOf, List.cons_append, List.append_assoc, List.cons.injEq, true_and] at h
    obtain ⟨hn, h1⟩ := n.isLeb.prefix_free n'.isLeb h
    obtain rfl := Leb.ext hn
    have hl := Option.some.inj (hok.1.symm.trans hok'.1)
    obtain ⟨rfl, hr⟩ := bytesOfEntries_unique
      (fun e he _ _ _ h1 h2 h3 => ih e he h1 h2 h3 (tag_eq_of_append h3)) hok.2.2 hok'.2.2 hl h1
    exact ⟨rfl, hr⟩
  | timestamp ts =>
    cases t' <;> cases htag
    simp only [bytesOf, List.cons_append, List.cons.injEq, true_and] at h
    obtain ⟨hi, hr⟩ := List.append_inj h (by simp)
    exact ⟨by rw [← i64OfBe_i64Be (i := ts), hi, i64OfBe_i64Be], hr⟩
  | hash x =>
    cases t' <;> cases htag
    rename_i x'
    simp only [bytesOf, List.cons_append, List.cons.injEq, true_and] at h
    obtain ⟨hx, hr⟩ := List.append_inj h (by rw [x.length_eq, x'.length_eq])
    exact ⟨by rw [Hash32.ext hx], hr⟩

/-- `b` spells the acceptable tree `t`, and nothing more. -/
def Spells (rd : Leb → Option Nat) (b : Bytes) (t : Tlv) : Prop := t.bytesOf = b ∧ t.Ok rd

theorem Spells.unique {b : Bytes} {t t' : Tlv} (h : Spells rd b t) (h' : Spells rd b t') :
    t = t' :=
  (t.unique h.2 h'.2 (congrArg (· ++ []) (h.1.trans h'.1.symm))).1

/-! ### What holds of every varint -/

section

variable (p : Leb → Prop)

mutual

/-- Every varint of the tree satisfies `p`. -/
def Tlv.Every : Tlv → Prop
  | .string len _ => p len
  | .bytes len _ => p len
  | .array n items => p n ∧ EveryItems items
  | .map n entries => p n ∧ EveryEntries entries
  | _ => True

def EveryItems : List Tlv → Prop
  | [] => True
  | t :: ts => t.Every ∧ EveryItems ts

def EveryEntries : List (Key × Tlv) → Prop
  | [] => True
  | (k, t) :: es => p k.len ∧ t.Every ∧ EveryEntries es

end

end

variable {p q : Leb → Prop}

theorem everyItems_iff {ts : List Tlv} : EveryItems p ts ↔ ∀ t ∈ ts, t.Every p := by
  induction ts with
  | nil => simp [EveryItems]
  | cons t ts ih => simp [EveryItems, ih]

theorem everyEntries_iff {es : List (Key × Tlv)} :
    EveryEntries p es ↔ ∀ e ∈ es, p e.1.len ∧ e.2.Every p := by
  induction es with
  | nil => simp [EveryEntries]
  | cons e es ih => simp [EveryEntries, ih, and_assoc]

theorem Tlv.Every.imp {t : Tlv} (h : t.Every p) (hpq : ∀ l, p l → q l) : t.Every q := by
  induction t using Tlv.induction with
  | string l s => exact hpq l h
  | bytes l b => exact hpq l h
  | array n items ih =>
    simp only [Every, everyItems_iff] at h ⊢
    exact ⟨hpq n h.1, fun t ht => ih t ht (h.2 t ht)⟩
  | map n entries ih =>
    simp only [Every, everyEntries_iff] at h ⊢
    exact ⟨hpq n h.1, fun e he => ⟨hpq _ (h.2 e he).1, ih e he (h.2 e he).2⟩⟩
  | _ => trivial

theorem Tlv.Every.and {t : Tlv} (hp : t.Every p) (hq : t.Every q) :
    t.Every (fun l => p l ∧ q l) := by
  induction t using Tlv.induction with
  | string l s => exact ⟨hp, hq⟩
  | bytes l b => exact ⟨hp, hq⟩
  | array n items ih =>
    simp only [Every, everyItems_iff] at hp hq ⊢
    exact ⟨⟨hp.1, hq.1⟩, fun t ht => ih t ht (hp.2 t ht) (hq.2 t ht)⟩
  | map n entries ih =>
    simp only [Every, everyEntries_iff] at hp hq ⊢
    exact ⟨⟨hp.1, hq.1⟩, fun e he =>
      ⟨⟨(hp.2 e he).1, (hq.2 e he).1⟩, ih e he (hp.2 e he).2 (hq.2 e he).2⟩⟩
  | _ => trivial

/-- A tree acceptable to one reading is acceptable to another that reads its varints alike. -/
theorem Tlv.Ok.of_reading {rd' : Leb → Option Nat} {t : Tlv} (hok : t.Ok rd)
    (h : t.Every (fun l => ∀ n, rd l = some n → rd' l = some n)) : t.Ok rd' := by
  induction t using Tlv.induction with
  | string l s => exact h _ hok
  | bytes l b => exact h _ hok
  | array n items ih =>
    simp only [Ok, okItems_iff, Every, everyItems_iff] at hok h ⊢
    exact ⟨h.1 _ hok.1, fun t ht => ih t ht (hok.2 t ht) (h.2 t ht)⟩
  | map n entries ih =>
    simp only [Ok, okEntries_iff, Every, everyEntries_iff] at hok h ⊢
    refine ⟨h.1 _ hok.1, hok.2.1, fun e he => ⟨?_, ih e he (hok.2.2 e he).2 (h.2 e he).2⟩⟩
    exact (h.2 e he).1 _ (hok.2.2 e he).1
  | _ => trivial

/-- No varint announces more than the whole input holds. -/
theorem Tlv.Ok.every_le {t : Tlv} {N : Nat} (hok : t.Ok rd) (hN : t.bytesOf.length ≤ N) :
    t.Every (fun l => ∃ n, rd l = some n ∧ n ≤ N) := by
  induction t using Tlv.induction with
  | string l s =>
    simp only [bytesOf, keyBytes, List.length_cons, List.length_append] at hN
    exact ⟨_, hok, by omega⟩
  | bytes l b =>
    simp only [bytesOf, List.length_cons, List.length_append] at hN
    exact ⟨_, hok, by omega⟩
  | array n items ih =>
    simp only [Ok, okItems_iff] at hok
    simp only [bytesOf, List.length_cons, List.length_append] at hN
    simp only [Every, everyItems_iff]
    have hl := length_le_bytesOfItems items
    refine ⟨⟨_, hok.1, by omega⟩, fun t ht => ih t ht (hok.2 t ht) ?_⟩
    have := bytesOfItems_length_mem ht
    omega
  | map n entries ih =>
    simp only [Ok, okEntries_iff] at hok
    simp only [bytesOf, List.length_cons, List.length_append] at hN
    simp only [Every, everyEntries_iff]
    have hl := length_le_bytesOfEntries entries
    refine ⟨⟨_, hok.1, by omega⟩, fun e he => ?_⟩
    have hm := bytesOfEntries_length_mem he
    refine ⟨⟨_, (hok.2.2 e he).1, ?_⟩, ih e he (hok.2.2 e he).2 (by omega)⟩
    simp only [keyBytes, List.length_cons, List.length_append] at hm
    omega
  | _ => trivial

end Myco.Canonical
