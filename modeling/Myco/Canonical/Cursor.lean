import Myco.Canonical.Grammar
import Myco.Lib.Loop

/-!
# Decoders with a cursor

The Rust and the Python decoder go over the input the same way: a cursor passes over a tag, then
over the payload its arm expects. The pieces they share are here, with the error each of them
raises, the varint it reads and the values it builds as parameters.

`Reads` says that all a decoder accepts is an acceptable tree standing at the cursor, `Accepts`
that it accepts every such tree up to a size; both fix its value by a function `val` of the tree.
`ArmSpec` says both of the arm of one tag, and a decoder whose arms meet it reads and accepts
trees (`onTag_reads`, `onTag_accepts`). The loops over the items of an array and the entries of a
map go along paths of `ItemStep` and `EntryStep`, and a path is a list of trees standing one after
the other.
-/

namespace Myco.Canonical

open Myco.Lib

variable {ε α β κ : Type}

/-! ### The pieces of a decoder -/

/-- Hands the bytes from the cursor up to `stop` to `make`, if the input reaches that far. -/
def takeTo (b : Bytes) (short : ε) (make : Bytes → Except ε α) (cursor stop : Nat) :
    Except ε (α × Nat) :=
  if stop > b.length then .error short
  else do
    let v ← make (slice b cursor stop)
    .ok (v, stop)

/-- A payload preceded by its length; `add` is how the cursor and the length are added up. -/
def takeSized (b : Bytes) (read : Nat → Except ε (Nat × Nat)) (add : Nat → Nat → Except ε Nat)
    (short : ε) (make : Bytes → Except ε α) (cursor : Nat) : Except ε (α × Nat) := do
  let (length, cursor) ← read cursor
  let stop ← add cursor length
  takeTo b short make cursor stop

def takeBool (b : Bytes) (short : ε) (bad : UInt8 → ε) (make : Bool → α) (cursor : Nat) :
    Except ε (α × Nat) :=
  match b[cursor]? with
  | none => .error short
  | some x =>
    if x ≠ 0x00 ∧ x ≠ 0x01 then .error (bad x) else .ok (make (x == 0x01), cursor + 1)

/-- One turn of an array loop: the items so far and the cursor. -/
def pushItem (dec : Nat → Except ε (α × Nat)) (s : List α × Nat) : Except ε (List α × Nat) := do
  let (item, c3) ← dec s.2
  .ok (s.1 ++ [item], c3)

/-- One turn of a map loop: what it has gathered, the last key's bytes and the cursor. `keyOf`
is the text of a key, or the error for a key that is not a text. -/
def putEntry (dec : Nat → Except ε (α × Nat)) (b : Bytes) (keyOf : α → Except ε κ)
    (order : ε) (add : β → κ → α → β) (s : β × Option Bytes × Nat) :
    Except ε (β × Option Bytes × Nat) := do
  let (entries, prevKeyBytes, keyStart) := s
  let (keyValue, keyEnd) ← dec keyStart
  let key ← keyOf keyValue
  let keyCanonical := slice b keyStart keyEnd
  if prevKeyBytes.any (fun prev => keyCanonical ≤ prev) then .error order
  else do
    let (val, c3) ← dec keyEnd
    .ok (add entries key val, some keyCanonical, c3)

/-- Goes by the tag at the offset to its arm, with the cursor past the tag. -/
def onTag (b : Bytes) (truncated : ε) (unknown : UInt8 → ε)
    (arm : Tag → Nat → Except ε (α × Nat)) (offset : Nat) : Except ε (α × Nat) :=
  match b[offset]? with
  | none => .error truncated
  | some tag =>
    match Tag.ofByte? tag with
    | some t => arm t (offset + 1)
    | none => .error (unknown tag)

/-! ### What they accept -/

section

variable (rd : Leb → Option Nat) (val : Tlv → α) (b : Bytes)

/-- Whatever `dec` accepts is an acceptable tree at the cursor. -/
def Reads (dec : Nat → Except ε (α × Nat)) : Prop :=
  ∀ i v j, dec i = .ok (v, j) →
    ∃ t : Tlv, At b i t.bytesOf ∧ t.Ok rd ∧ v = val t ∧ j = i + t.bytesOf.length

/-- `dec` accepts every acceptable tree of at most `n` bytes, in an input whose offsets fit a
`usize`. -/
def Accepts (n : Nat) (dec : Nat → Except ε (α × Nat)) : Prop :=
  b.length < 2 ^ 64 → ∀ (t : Tlv) i, At b i t.bytesOf → t.Ok rd → t.bytesOf.length ≤ n →
    dec i = .ok (val t, i + t.bytesOf.length)

/-- `read` reads the varint at the cursor the way `rd` does. -/
def ReadsVarint (read : Nat → Except ε (Nat × Nat)) : Prop :=
  ∀ i n j, read i = .ok (n, j) ↔
    ∃ l : Leb, At b i l.bytes ∧ rd l = some n ∧ j = i + l.bytes.length

/-- The bytes of a tree after its tag. -/
def Tlv.payload (t : Tlv) : Bytes := t.bytesOf.tail

/-- The arm of `tag` reads and accepts the payloads of acceptable trees with that tag, the latter
up to `n` bytes. -/
structure ArmSpec (n : Nat) (tag : Tag) (arm : Nat → Except ε (α × Nat)) : Prop where
  reads : ∀ i v j, arm i = .ok (v, j) → ∃ t : Tlv, t.tag = tag ∧ At b i t.payload ∧ t.Ok rd ∧
    v = val t ∧ j = i + t.payload.length
  accepts : b.length < 2 ^ 64 → ∀ (t : Tlv) i, t.tag = tag → i ≤ b.length →
    At b i t.payload → t.Ok rd → t.payload.length ≤ n → arm i = .ok (val t, i + t.payload.length)

end

variable {rd : Leb → Option Nat} {val : Tlv → α} {b : Bytes}

theorem Tlv.bytesOf_eq_payload (t : Tlv) : t.bytesOf = t.tag.byte :: t.payload := t.bytesOf_eq

theorem Tlv.bytesOf_length (t : Tlv) : t.bytesOf.length = t.payload.length + 1 := by
  rw [t.bytesOf_eq_payload, List.length_cons]

theorem onTag_reads {n : Nat} {truncated : ε} {unknown : UInt8 → ε}
    {arm : Tag → Nat → Except ε (α × Nat)} (h : ∀ tag, ArmSpec rd val b n tag (arm tag)) :
    Reads rd val b (onTag b truncated unknown arm) := by
  intro i v j hd
  unfold onTag at hd
  split at hd
  · cases hd
  · rename_i byte hb
    split at hd
    · rename_i tag htag
      obtain ⟨t, rfl, hat, hok, hv, hj⟩ := (h tag).reads _ _ _ hd
      refine ⟨t, ?_, hok, hv, ?_⟩
      · rw [t.bytesOf_eq_payload, At.cons_iff, ← Tag.byte_of_ofByte? htag]
        exact ⟨hb, hat⟩
      · rw [t.bytesOf_length]
        omega
    · cases hd

theorem onTag_accepts {n : Nat} {truncated : ε} {unknown : UInt8 → ε}
    {arm : Tag → Nat → Except ε (α × Nat)} (h : ∀ tag, ArmSpec rd val b n tag (arm tag)) :
    Accepts rd val b (n + 1) (onTag b truncated unknown arm) := by
  intro hb t i hat hok hl
  have hi := hat.lt_length t.bytesOf_length_pos
  rw [t.bytesOf_length] at hl ⊢
  rw [t.bytesOf_eq_payload, At.cons_iff] at hat
  simp only [onTag, hat.1, Tag.ofByte?_byte]
  rw [(h t.tag).accepts hb t (i + 1) rfl hi hat.2 hok (by omega)]
  congr 2
  omega

/-! ### Arms without items -/

theorem takeTo_iff {short : ε} {make : Bytes → Except ε α} {i n j : Nat} {v : α} :
    takeTo b short make i (i + n) = .ok (v, j) ↔
      ∃ raw : Bytes, raw.length = n ∧ At b i raw ∧ make raw = .ok v ∧ j = i + n ∧
        i + n ≤ b.length := by
  unfold takeTo
  constructor
  · intro h
    split at h
    · cases h
    · rename_i hle
      obtain ⟨v', h1, h2⟩ := bind_eq_ok.1 h
      cases h2
      exact ⟨_, by rw [slice_length (by omega) (by omega)]; omega, At.slice_self, h1, rfl, by omega⟩
  · rintro ⟨raw, rfl, hat, hm, rfl, hle⟩
    rw [if_neg (by omega), hat.slice, hm]
    rfl

section

variable {read : Nat → Except ε (Nat × Nat)} {add : Nat → Nat → Except ε Nat} {short : ε}
  {make : Bytes → Except ε α} {i j : Nat} {v : α}

theorem takeSized_reads (hread : ReadsVarint rd b read)
    (hadd : ∀ i n s, add i n = .ok s → s = i + n)
    (h : takeSized b read add short make i = .ok (v, j)) :
    ∃ (l : Leb) (raw : Bytes), At b i (l.bytes ++ raw) ∧ rd l = some raw.length ∧
      make raw = .ok v ∧ j = i + (l.bytes ++ raw).length := by
  obtain ⟨⟨n, c⟩, h1, h⟩ := bind_eq_ok.1 h
  obtain ⟨l, hl, hn, rfl⟩ := (hread _ _ _).1 h1
  obtain ⟨stop, h2, h⟩ := bind_eq_ok.1 h
  obtain rfl := hadd _ _ _ h2
  obtain ⟨raw, rfl, hat, hm, rfl, hle⟩ := takeTo_iff.1 h
  exact ⟨l, raw, At.append_iff.2 ⟨hl, hat⟩, hn, hm, by rw [List.length_append, Nat.add_assoc]⟩

theorem takeSized_accepts (hread : ReadsVarint rd b read)
    (hadd : ∀ i n, i + n ≤ b.length → add i n = .ok (i + n)) {l : Leb} {raw : Bytes}
    (hi : i ≤ b.length) (hat : At b i (l.bytes ++ raw)) (hl : rd l = some raw.length)
    (hm : make raw = .ok v) :
    takeSized b read add short make i = .ok (v, i + (l.bytes ++ raw).length) := by
  have hle := hat.length_le hi
  obtain ⟨h1, h2⟩ := At.append_iff.1 hat
  rw [List.length_append, ← Nat.add_assoc] at hle ⊢
  unfold takeSized
  rw [(hread _ _ _).2 ⟨l, h1, hl, rfl⟩, ok_bind]
  simp only
  rw [hadd _ _ hle, ok_bind]
  exact takeTo_iff.2 ⟨raw, rfl, h2, hm, rfl, hle⟩

end

theorem armSpec_null {n : Nat} : ArmSpec (ε := ε) rd val b n .null (fun c => .ok (val .null, c)) where
  reads i v j h := by
    cases h
    exact ⟨.null, rfl, At.nil, trivial, rfl, rfl⟩
  accepts hb t i ht _ _ _ _ := by
    cases t <;> cases ht
    rfl

theorem armSpec_bool {n : Nat} {short : ε} {bad : UInt8 → ε} {make : Bool → α}
    (hm : ∀ x, make x = val (.bool x)) :
    ArmSpec rd val b n .bool (takeBool b short bad make) where
  reads i v j h := by
    unfold takeBool at h
    split at h
    · cases h
    · rename_i x hx
      split at h
      · cases h
      · rename_i hbit
        cases h
        refine ⟨.bool (x == 0x01), rfl, At.cons_iff.2 ⟨?_, At.nil⟩, trivial, hm _, rfl⟩
        rw [hx]
        by_cases h1 : x = 0x01
        · simp [h1]
        · have h0 : x = 0x00 := by
            by_contra h0
            exact hbit ⟨h0, h1⟩
          simp [h0]
  accepts hb t i ht hi hat hok hn := by
    cases t <;> cases ht
    rename_i x
    have hx : b[i]? = some (if x then 0x01 else 0x00) := hat.getElem?
    simp only [takeBool, hx]
    cases x <;> simp [hm] <;> rfl

/-- The tree that a payload of fixed width spells. -/
def Tlv.ofFixed (tag : Tag) (raw : Bytes) : Tlv :=
  match tag with
  | .int => .int (i64OfBe raw)
  | .uint => .uint (u64OfBe raw)
  | .timestamp => .timestamp (i64OfBe raw)
  | .hash => if h : raw.length = 32 then .hash ⟨raw, h⟩ else .null
  | _ => .null

/-- The width of a payload of fixed width. -/
def Tag.width? : Tag → Option Nat
  | .int => some 8
  | .uint => some 8
  | .timestamp => some 8
  | .hash => some 32
  | _ => none

theorem Tlv.ofFixed_spec {tag : Tag} {raw : Bytes} (h : tag.width? = some raw.length) :
    (ofFixed tag raw).tag = tag ∧ (ofFixed tag raw).payload = raw ∧ (ofFixed tag raw).Ok rd := by
  cases tag <;> simp only [Tag.width?, Option.some.injEq, reduceCtorEq] at h
  · exact ⟨rfl, i64Be_i64OfBe h.symm, trivial⟩
  · exact ⟨rfl, u64Be_u64OfBe h.symm, trivial⟩
  · exact ⟨rfl, i64Be_i64OfBe h.symm, trivial⟩
  · simp only [ofFixed, dif_pos h.symm]
    exact ⟨rfl, rfl, trivial⟩

theorem Tlv.ofFixed_payload {t : Tlv} {n : Nat} (h : t.tag.width? = some n) :
    t.payload.length = n ∧ ofFixed t.tag t.payload = t := by
  cases t <;> simp only [tag, Tag.width?, Option.some.injEq, reduceCtorEq] at h <;> subst h
  · simp [payload, bytesOf, ofFixed, tag]
  · simp [payload, bytesOf, ofFixed, tag]
  · simp [payload, bytesOf, ofFixed, tag]
  · rename_i x
    simp [payload, bytesOf, ofFixed, tag, x.length_eq]

theorem armSpec_fixed {m n : Nat} {tag : Tag} {short : ε} {make : Bytes → Except ε α}
    (hw : tag.width? = some n)
    (hm : ∀ raw, raw.length = n → make raw = .ok (val (Tlv.ofFixed tag raw))) :
    ArmSpec rd val b m tag (fun c => takeTo b short make c (c + n)) where
  reads i v j h := by
    obtain ⟨raw, rfl, hat, hv, rfl, -⟩ := takeTo_iff.1 h
    obtain ⟨h1, h2, h3⟩ := @Tlv.ofFixed_spec rd _ _ hw
    rw [hm raw rfl] at hv
    exact ⟨_, h1, h2.symm ▸ hat, h3, (Except.ok.inj hv).symm, by rw [h2]⟩
  accepts hb t i ht hi hat _ _ := by
    subst ht
    obtain ⟨h1, h2⟩ := Tlv.ofFixed_payload hw
    have hle := hat.length_le hi
    rw [h1] at hle ⊢
    refine takeTo_iff.2 ⟨t.payload, h1, hat, ?_, rfl, hle⟩
    rw [hm _ h1, h2]

section

variable {read : Nat → Except ε (Nat × Nat)} {add : Nat → Nat → Except ε Nat}
  (hread : ReadsVarint rd b read) (hadd : ∀ i n s, add i n = .ok s → s = i + n)
  (hadd' : b.length < 2 ^ 64 → ∀ i n, i + n ≤ b.length → add i n = .ok (i + n)) {short : ε}

include hread hadd hadd'

theorem armSpec_bytes {n : Nat} {make : Bytes → Except ε α}
    (hm : ∀ l raw, make raw = .ok (val (.bytes l raw))) :
    ArmSpec rd val b n .bytes (takeSized b read add short make) where
  reads i v j h := by
    obtain ⟨l, raw, hat, hl, hv, rfl⟩ := takeSized_reads hread hadd h
    rw [hm l] at hv
    exact ⟨.bytes l raw, rfl, hat, hl, (Except.ok.inj hv).symm, rfl⟩
  accepts hb t i ht hi hat hok hn := by
    cases t <;> cases ht
    exact takeSized_accepts hread (hadd' hb) hi hat hok (hm _ _)

theorem armSpec_string {n : Nat} {make : Bytes → Except ε α} {str : String → α}
    (hm : ∀ raw v, make raw = .ok v ↔ ∃ s, raw = utf8 s ∧ v = str s)
    (hval : ∀ l s, val (.string l s) = str s) :
    ArmSpec rd val b n .string (takeSized b read add short make) where
  reads i v j h := by
    obtain ⟨l, raw, hat, hl, hv, rfl⟩ := takeSized_reads hread hadd h
    obtain ⟨s, rfl, rfl⟩ := (hm _ _).1 hv
    exact ⟨.string l s, rfl, hat, hl, (hval l s).symm, rfl⟩
  accepts hb t i ht hi hat hok hn := by
    cases t <;> cases ht
    exact takeSized_accepts hread (hadd' hb) hi hat hok ((hm _ _).2 ⟨_, rfl, hval _ _⟩)

end

/-! ### Items -/

/-- One turn of an array loop over the tree `t`. -/
def ItemStep (rd : Leb → Option Nat) (val : Tlv → α) (b : Bytes) (s : List α × Nat) (t : Tlv)
    (s' : List α × Nat) : Prop :=
  At b s.2 t.bytesOf ∧ t.Ok rd ∧ s' = (s.1 ++ [val t], s.2 + t.bytesOf.length)

theorem path_items_iff {ts : List Tlv} {s s' : List α × Nat} :
    Path (ItemStep rd val b) s ts s' ↔
      At b s.2 (bytesOfItems ts) ∧ (∀ t ∈ ts, t.Ok rd) ∧
        s' = (s.1 ++ ts.map val, s.2 + (bytesOfItems ts).length) := by
  induction ts generalizing s with
  | nil => simp [Path.nil_iff, bytesOfItems, eq_comm]
  | cons t ts ih =>
    simp only [Path.cons_iff, ItemStep, ih, bytesOfItems, At.append_iff, List.forall_mem_cons,
      List.map_cons, List.length_append]
    constructor
    · rintro ⟨_, ⟨h1, h2, rfl⟩, h3, h4, rfl⟩
      exact ⟨⟨h1, h3⟩, ⟨h2, h4⟩, by simp [Nat.add_assoc]⟩
    · rintro ⟨⟨h1, h3⟩, ⟨h2, h4⟩, rfl⟩
      exact ⟨_, ⟨h1, h2, rfl⟩, h3, h4, by simp [Nat.add_assoc]⟩

variable {dec : Nat → Except ε (α × Nat)}

theorem itemStep_of_pushItem (hdec : Reads rd val b dec) {s s' : List α × Nat}
    (h : pushItem dec s = .ok s') : ∃ t, ItemStep rd val b s t s' := by
  obtain ⟨⟨item, c3⟩, h1, h2⟩ := bind_eq_ok.1 h
  cases h2
  obtain ⟨t, ht, hok, rfl, rfl⟩ := hdec _ _ _ h1
  exact ⟨t, ht, hok, rfl⟩

/-- The array loop reads a row of acceptable trees. -/
theorem items_reads (hdec : Reads rd val b dec) {n i j : Nat} {items : List α}
    (h : iterM (pushItem dec) n ([], i) = .ok (items, j)) :
    ∃ ts : List Tlv, ts.length = n ∧ At b i (bytesOfItems ts) ∧ (∀ t ∈ ts, t.Ok rd) ∧
      items = ts.map val ∧ j = i + (bytesOfItems ts).length := by
  obtain ⟨ts, hl, hp⟩ := path_of_iterM (fun _ _ => itemStep_of_pushItem hdec) h
  obtain ⟨hat, hok, heq⟩ := path_items_iff.1 hp
  cases heq
  exact ⟨ts, hl, hat, hok, rfl, rfl⟩

theorem items_accepts {n : Nat} (hdec : Accepts rd val b n dec) (hb : b.length < 2 ^ 64)
    {ts : List Tlv} {i : Nat} (hat : At b i (bytesOfItems ts)) (hok : ∀ t ∈ ts, t.Ok rd)
    (hn : (bytesOfItems ts).length ≤ n) :
    iterM (pushItem dec) ts.length ([], i) = .ok (ts.map val, i + (bytesOfItems ts).length) := by
  refine iterM_of_path (path_items_iff.2 ⟨hat, hok, rfl⟩) ?_
  rintro s t s' ht ⟨h1, h2, rfl⟩
  have := bytesOfItems_length_mem ht
  rw [pushItem, hdec hb t _ h1 h2 (by omega), ok_bind]

/-! ### Entries -/

/-- One turn of a map loop over the entry `e`. -/
def EntryStep (rd : Leb → Option Nat) (put : β → Key × Tlv → β) (b : Bytes)
    (s : β × Option Bytes × Nat) (e : Key × Tlv) (s' : β × Option Bytes × Nat) : Prop :=
  At b s.2.2 (keyBytes e.1) ∧ At b (s.2.2 + (keyBytes e.1).length) e.2.bytesOf ∧
    e.1.Ok rd ∧ e.2.Ok rd ∧ (∀ p ∈ s.2.1, p < keyBytes e.1) ∧
    s' = (put s.1 e, some (keyBytes e.1), s.2.2 + (keyBytes e.1).length + e.2.bytesOf.length)

section

variable {put : β → Key × Tlv → β}

theorem entries_of_path {es : List (Key × Tlv)} {s s' : β × Option Bytes × Nat}
    (h : Path (EntryStep rd put b) s es s') :
    At b s.2.2 (bytesOfEntries es) ∧ (∀ e ∈ es, e.1.Ok rd ∧ e.2.Ok rd) ∧ KeysAscend es ∧
      (∀ p ∈ s.2.1, ∀ e ∈ es, p < keyBytes e.1) ∧ s'.1 = es.foldl put s.1 ∧
      s'.2.2 = s.2.2 + (bytesOfEntries es).length := by
  induction h with
  | nil => simp [bytesOfEntries]
  | @cons s s' s'' e es h _ ih =>
    obtain ⟨h1, h2, h3, h4, h5, rfl⟩ := h
    obtain ⟨i1, i2, i3, i4, i5, i6⟩ := ih
    have hlt : ∀ d ∈ es, keyBytes e.1 < keyBytes d.1 := i4 _ rfl
    refine ⟨?_, List.forall_mem_cons.2 ⟨⟨h3, h4⟩, i2⟩, OrdMap.sorted_cons.2 ⟨hlt, i3⟩, ?_, i5, ?_⟩
    · exact At.append_iff.2 ⟨h1, At.append_iff.2 ⟨h2, i1⟩⟩
    · intro p hp d hd
      rcases List.mem_cons.1 hd with rfl | hd
      · exact h5 p hp
      · exact lt_trans (h5 p hp) (hlt d hd)
    · rw [i6]
      simp only [bytesOfEntries, List.length_append]
      omega

theorem path_of_entries {es : List (Key × Tlv)} {acc : β} {prev : Option Bytes} {i : Nat}
    (hat : At b i (bytesOfEntries es)) (hok : ∀ e ∈ es, e.1.Ok rd ∧ e.2.Ok rd)
    (hs : KeysAscend es) (hp : ∀ p ∈ prev, ∀ e ∈ es, p < keyBytes e.1) :
    ∃ last, Path (EntryStep rd put b) (acc, prev, i) es
      (es.foldl put acc, last, i + (bytesOfEntries es).length) := by
  induction es generalizing acc prev i with
  | nil => exact ⟨prev, .nil⟩
  | cons e es ih =>
    simp only [bytesOfEntries, At.append_iff] at hat
    obtain ⟨h1, h2, h3⟩ := hat
    obtain ⟨hlt, hs⟩ := OrdMap.sorted_cons.1 hs
    rw [List.forall_mem_cons] at hok
    obtain ⟨last, hl⟩ := ih h3 hok.2 hs
      (fun p (hp : p ∈ some (keyBytes e.1)) => by cases hp; exact hlt)
    refine ⟨last, .cons ⟨h1, h2, hok.1.1, hok.1.2, fun p h => hp p h e List.mem_cons_self, rfl⟩ ?_⟩
    simp only [bytesOfEntries, List.length_append, List.foldl_cons, ← Nat.add_assoc]
    exact hl

end

section

variable {keyOf : α → Except ε κ} {str : String → κ} {order : ε} {add : β → κ → α → β}

/-- What a turn of the loop does with an entry of the tree. -/
def putTree (val : Tlv → α) (str : String → κ) (add : β → κ → α → β) (m : β) (e : Key × Tlv) : β :=
  add m (str e.1.text) (val e.2)

variable (hkey : ∀ t k, keyOf (val t) = .ok k ↔ ∃ l s, t = .string l s ∧ k = str s)

include hkey

theorem entryStep_of_putEntry (hdec : Reads rd val b dec) {s s' : β × Option Bytes × Nat}
    (h : putEntry dec b keyOf order add s = .ok s') :
    ∃ e, EntryStep rd (putTree val str add) b s e s' := by
  obtain ⟨acc, prev, c⟩ := s
  obtain ⟨⟨kv, ke⟩, h1, h2⟩ := bind_eq_ok.1 h
  obtain ⟨tk, hk, hkok, rfl, rfl⟩ := hdec _ _ _ h1
  obtain ⟨key, h3, h4⟩ := bind_eq_ok.1 h2
  obtain ⟨len, s, rfl, rfl⟩ := (hkey _ _).1 h3
  simp only at h4
  split at h4
  · cases h4
  · rename_i hord
    obtain ⟨⟨v, c3⟩, h5, h6⟩ := bind_eq_ok.1 h4
    cases h6
    obtain ⟨t, ht, hok, rfl, rfl⟩ := hdec _ _ _ h5
    rw [hk.slice] at hord ⊢
    refine ⟨(⟨len, s⟩, t), hk, ht, hkok, hok, ?_, rfl⟩
    intro p hp
    cases hp
    have hlt : ¬ (Tlv.string len s).bytesOf ≤ p := by simpa using hord
    exact not_le.1 hlt

/-- The map loop reads a row of entries with ascending keys. -/
theorem entries_reads (hdec : Reads rd val b dec) {n i j : Nat} {acc m : β} {last : Option Bytes}
    (h : iterM (putEntry dec b keyOf order add) n (acc, none, i) = .ok (m, last, j)) :
    ∃ es : List (Key × Tlv), es.length = n ∧ At b i (bytesOfEntries es) ∧ KeysAscend es ∧
      (∀ e ∈ es, e.1.Ok rd ∧ e.2.Ok rd) ∧ m = es.foldl (putTree val str add) acc ∧
      j = i + (bytesOfEntries es).length := by
  obtain ⟨es, hl, hp⟩ := path_of_iterM (fun _ _ => entryStep_of_putEntry hkey hdec) h
  obtain ⟨hat, hok, hs, -, hacc, hcur⟩ := entries_of_path hp
  exact ⟨es, hl, hat, hs, hok, hacc, hcur⟩

/-- The loop can follow an entry that stands in the input. -/
theorem putEntry_of_entryStep {n : Nat} (hdec : Accepts rd val b n dec) (hb : b.length < 2 ^ 64)
    {es : List (Key × Tlv)} (hn : (bytesOfEntries es).length ≤ n) {e : Key × Tlv} (he : e ∈ es)
    {s s' : β × Option Bytes × Nat} (h : EntryStep rd (putTree val str add) b s e s') :
    putEntry dec b keyOf order add s = .ok s' := by
  obtain ⟨acc, prev, c⟩ := s
  obtain ⟨⟨len, s⟩, t⟩ := e
  obtain ⟨h1, h2, h3, h4, h5, rfl⟩ := h
  have hlen := bytesOfEntries_length_mem he
  simp only at h1 h2 h5 hlen
  have hd : dec c = .ok (val (.string len s), c + (keyBytes ⟨len, s⟩).length) :=
    hdec hb (.string len s) c h1 h3 (Nat.le_trans (Nat.le_add_right _ _) (hlen.trans hn))
  have hord : ¬ prev.any (fun prev => decide (keyBytes ⟨len, s⟩ ≤ prev)) = true := by
    cases prev with
    | none => simp
    | some p => simpa using not_le.2 (h5 p rfl)
  simp only [putEntry, hd, ok_bind, (hkey _ _).2 ⟨len, s, rfl, rfl⟩, h1.slice]
  rw [if_neg hord, hdec hb t _ h2 h4 (by omega), ok_bind]
  rfl

theorem entries_accepts {n : Nat} (hdec : Accepts rd val b n dec) (hb : b.length < 2 ^ 64)
    {es : List (Key × Tlv)} {i : Nat} {acc : β} (hat : At b i (bytesOfEntries es))
    (hok : ∀ e ∈ es, e.1.Ok rd ∧ e.2.Ok rd) (hs : KeysAscend es)
    (hn : (bytesOfEntries es).length ≤ n) :
    ∃ last, iterM (putEntry dec b keyOf order add) es.length (acc, none, i)
      = .ok (es.foldl (putTree val str add) acc, last, i + (bytesOfEntries es).length) := by
  obtain ⟨last, hp⟩ := path_of_entries hat hok hs
    (fun p (hp : p ∈ (none : Option Bytes)) => by cases hp)
  exact ⟨last, iterM_of_path hp fun _ _ _ he hstep => putEntry_of_entryStep hkey hdec hb hn he hstep⟩

end

/-! ### Failures they do not have -/

section

variable {e : ε}

theorem takeTo_ne_error {short : ε} {make : Bytes → Except ε α} {i j : Nat} (hs : short ≠ e)
    (hm : ∀ raw, make raw ≠ .error e) : takeTo b short make i j ≠ .error e := by
  unfold takeTo
  split
  · simpa using hs
  · exact bind_ne_error (hm _) fun _ _ h => by cases h

theorem takeBool_ne_error {short : ε} {bad : UInt8 → ε} {make : Bool → α} {i : Nat}
    (hs : short ≠ e) (hb : ∀ x, bad x ≠ e) : takeBool b short bad make i ≠ .error e := by
  unfold takeBool
  split
  · simpa using hs
  · split
    · simpa using hb _
    · exact fun h => by cases h

theorem takeSized_ne_error {read : Nat → Except ε (Nat × Nat)} {add : Nat → Nat → Except ε Nat}
    {short : ε} {make : Bytes → Except ε α} {i : Nat} (hr : ∀ i, read i ≠ .error e)
    (ha : ∀ i n, add i n ≠ .error e) (hs : short ≠ e) (hm : ∀ raw, make raw ≠ .error e) :
    takeSized b read add short make i ≠ .error e :=
  bind_ne_error (hr _) fun _ _ => bind_ne_error (ha _ _) fun _ _ => takeTo_ne_error hs hm

/-- A decoder that reads trees moves its cursor forward, inside the input. -/
theorem Reads.cursor_lt (h : Reads rd val b dec) {i j : Nat} {v : α} (hi : i ≤ b.length)
    (hd : dec i = .ok (v, j)) : i < j ∧ j ≤ b.length := by
  obtain ⟨t, hat, -, -, rfl⟩ := h _ _ _ hd
  have := t.bytesOf_length_pos
  have := hat.length_le hi
  omega

theorem ReadsVarint.cursor_lt {read : Nat → Except ε (Nat × Nat)} (h : ReadsVarint rd b read)
    {i n j : Nat} (hi : i ≤ b.length) (hr : read i = .ok (n, j)) : i < j ∧ j ≤ b.length := by
  obtain ⟨l, hat, -, rfl⟩ := (h _ _ _).1 hr
  have := l.isLeb.length_pos
  have := hat.length_le hi
  omega

theorem items_ne_error (hr : Reads rd val b dec) {i n : Nat} {acc : List α} (hi : i ≤ b.length)
    (hdec : ∀ c, i ≤ c → c ≤ b.length → dec c ≠ .error e) :
    iterM (pushItem dec) n (acc, i) ≠ .error e := by
  refine iterM_ne_error (I := fun s => i ≤ s.2 ∧ s.2 ≤ b.length) ?_ ?_ ⟨le_refl i, hi⟩
  · exact fun s hs => bind_ne_error (hdec _ hs.1 hs.2) fun _ _ h => by cases h
  · intro s s' hs hstep
    obtain ⟨t, hat, -, rfl⟩ := itemStep_of_pushItem hr hstep
    exact ⟨Nat.le_trans hs.1 (Nat.le_add_right _ _), hat.length_le hs.2⟩

theorem entries_ne_error (hr : Reads rd val b dec) {keyOf : α → Except ε κ} {str : String → κ}
    (hkey : ∀ t k, keyOf (val t) = .ok k ↔ ∃ l s, t = .string l s ∧ k = str s)
    (hko : ∀ v, keyOf v ≠ .error e) {order : ε} (ho : order ≠ e) {add : β → κ → α → β} {i n : Nat}
    {acc : β} {prev : Option Bytes} (hi : i ≤ b.length)
    (hdec : ∀ c, i ≤ c → c ≤ b.length → dec c ≠ .error e) :
    iterM (putEntry dec b keyOf order add) n (acc, prev, i) ≠ .error e := by
  refine iterM_ne_error (I := fun s => i ≤ s.2.2 ∧ s.2.2 ≤ b.length) ?_ ?_ ⟨le_refl i, hi⟩
  · rintro ⟨acc, prev, c⟩ hs
    refine bind_ne_error (hdec _ hs.1 hs.2) fun ⟨kv, ke⟩ hk => bind_ne_error (hko _) fun _ _ => ?_
    have hke := hr.cursor_lt hs.2 hk
    have hle := hs.1
    simp only at hke hle ⊢
    split
    · simpa using ho
    · exact bind_ne_error (hdec _ (by omega) hke.2) fun _ _ h => by cases h
  · intro s s' hs hstep
    obtain ⟨d, h1, h2, -, -, -, rfl⟩ := entryStep_of_putEntry hkey hr hstep
    have hle := h2.length_le (h1.length_le hs.2)
    have hge := hs.1
    simp only
    exact ⟨by omega, hle⟩

end

end Myco.Canonical
