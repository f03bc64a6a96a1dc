import Myco.Canonical.RoundTrip

/-!
# Where the Rust decoder overflows

`decode_into` of `kernel/shared/src/canonical_bytes.rs` adds the length of a string or of a byte
string to its cursor before it compares the sum with the input. `Awaits` says at which offsets of
an input the decoder comes to look for a value: at the start, and behind the acceptable items and
entries of an array or a map whose count its guard lets pass. `Overflows` says that a length
stands there whose sum with its cursor exceeds a `usize`. The decoder returns just if the two never
meet (`decode_returns_iff`).
-/

namespace Myco.Canonical

open Myco.Lib

variable {b : Bytes} {i n c : Nat}

/-! ### What stands in an input -/

/-- A tag at `i` and behind it a varint that is read as `n`; the rest of the value is at `c`. -/
def Sized (b : Bytes) (tag : Tag) (i n c : Nat) : Prop :=
  ∃ len : Leb, At b i (tag.byte :: len.bytes) ∧ u64Varint len = some n ∧
    c = i + 1 + len.bytes.length

/-- A count that the guard lets pass. -/
def Opens (b : Bytes) (tag : Tag) (i n c : Nat) : Prop :=
  Sized b tag i n c ∧ n ≤ b.length - c

/-- A length that with the cursor behind it exceeds a `usize`. -/
def Overflows (b : Bytes) (i : Nat) : Prop :=
  ∃ tag n c, (tag = .string ∨ tag = .bytes) ∧ Sized b tag i n c ∧ 2 ^ 64 ≤ c + n

/-- The entries stand at `c` with ascending keys. -/
def Entries (b : Bytes) (c : Nat) (es : List (Key × Tlv)) : Prop :=
  At b c (bytesOfEntries es) ∧ (∀ e ∈ es, e.1.Ok u64Varint ∧ e.2.Ok u64Varint) ∧ KeysAscend es

/-- The offsets at which the decoder looks for a value. -/
inductive Awaits (b : Bytes) : Nat → Prop
  | start : Awaits b 0
  | item {i n c : Nat} {ts : List Tlv} : Awaits b i → Opens b .array i n c → ts.length < n →
      At b c (bytesOfItems ts) → (∀ t ∈ ts, t.Ok u64Varint) →
      Awaits b (c + (bytesOfItems ts).length)
  | key {i n c : Nat} {es : List (Key × Tlv)} : Awaits b i → Opens b .map i n c →
      es.length < n → Entries b c es → Awaits b (c + (bytesOfEntries es).length)
  | value {i n c : Nat} {es : List (Key × Tlv)} {k : Key} : Awaits b i → Opens b .map i n c →
      es.length < n → Entries b c es → At b (c + (bytesOfEntries es).length) (keyBytes k) →
      k.Ok u64Varint → (∀ e ∈ es, keyBytes e.1 < keyBytes k) →
      Awaits b (c + (bytesOfEntries es).length + (keyBytes k).length)

theorem Sized.getElem? {tag : Tag} (h : Sized b tag i n c) : b[i]? = some tag.byte := by
  obtain ⟨len, hat, -⟩ := h
  exact hat.getElem?

theorem Sized.lt {tag : Tag} (h : Sized b tag i n c) : i < c ∧ c ≤ b.length := by
  obtain ⟨len, hat, -, rfl⟩ := h
  have hi : i < b.length := hat.lt_length (by simp)
  have := hat.length_le (Nat.le_of_lt hi)
  rw [List.length_cons] at this
  omega

theorem sized_iff {tag : Tag} (htag : b[i]? = some tag.byte) :
    Sized b tag i n c ↔ readLength b (i + 1) = .ok (n, c) := by
  rw [readLength_reads]
  constructor
  · rintro ⟨len, hat, hlen, rfl⟩
    exact ⟨len, (At.cons_iff.1 hat).2, hlen, rfl⟩
  · rintro ⟨len, hat, hlen, rfl⟩
    exact ⟨len, At.cons_iff.2 ⟨htag, hat⟩, hlen, rfl⟩

/-! ### An overflow stops the decoder -/

theorem decodeInto_at {tag : Tag} (h : b[i]? = some tag.byte) (frames : Nat) :
    decodeInto b (frames + 1) i = decodeArm (decodeInto b frames) b tag (i + 1) := by
  rw [decodeInto, onTag]
  simp only [h, Tag.ofByte?_byte]

/-- Whatever stack is left at `i`, if it suffices for the rest of the input, the decoder panics. -/
def Panics (b : Bytes) (i : Nat) : Prop :=
  ∀ frames, b.length < frames + i → decodeInto b frames i = .error .panic

theorem panics_of_arm {tag : Tag} (htag : b[i]? = some tag.byte)
    (h : ∀ frames, b.length ≤ frames + i →
      decodeArm (decodeInto b frames) b tag (i + 1) = .error .panic) : Panics b i := by
  intro frames hf
  have hi : i < b.length := (List.getElem?_eq_some_iff.1 htag).1
  cases frames with
  | zero => omega
  | succ frames =>
    rw [decodeInto_at htag]
    exact h frames (by omega)

theorem Overflows.panics (h : Overflows b i) : Panics b i := by
  obtain ⟨tag, n, c, htag, hs, hover⟩ := h
  have hread := (sized_iff hs.getElem?).1 hs
  have hadd : addUsize c n = .error .panic := if_neg (by omega)
  refine panics_of_arm hs.getElem? fun frames _ => ?_
  rcases htag with rfl | rfl
  · rw [decodeArm, takeSized, hread, ok_bind]
    simp only [hadd, error_bind]
  · rw [decodeArm, takeSized, hread, ok_bind]
    simp only [hadd, error_bind]

theorem decodeArray_opens (h : Opens b .array i n c) (dec : Nat → Decoded (Value × Nat)) :
    decodeArm dec b .array (i + 1) = iterM (pushItem dec) n ([], c) >>= fun s =>
      .ok (.array s.1, s.2) := by
  rw [decodeArm, decodeArray, (sized_iff h.1.getElem?).1 h.1, ok_bind]
  simp only
  rw [guardCount_eq_ok.2 h.2, ok_bind]

theorem decodeMap_opens (h : Opens b .map i n c) (dec : Nat → Decoded (Value × Nat)) :
    decodeArm dec b .map (i + 1) =
      iterM (putEntry dec b keyString (invalid .mapOrder) insertEntry) n ([], none, c) >>= fun s =>
        .ok (.map s.1, s.2.2) := by
  rw [decodeArm, decodeMap, (sized_iff h.1.getElem?).1 h.1, ok_bind]
  simp only
  rw [guardCount_eq_ok.2 h.2, ok_bind]

section

variable {β : Type} {put : β → Key × Tlv → β} {es : List (Key × Tlv)}
  {s s' : β × Option Bytes × Nat}

/-- The last key of a path is one of its keys or the one from before, and no key is above it. -/
theorem last_of_path (h : Path (EntryStep u64Varint put b) s es s') :
    (∀ p ∈ s'.2.1, p ∈ s.2.1 ∨ ∃ e ∈ es, p = keyBytes e.1) ∧
    (∀ q ∈ s.2.1, ∃ p ∈ s'.2.1, q ≤ p) ∧ ∀ e ∈ es, ∃ p ∈ s'.2.1, keyBytes e.1 ≤ p := by
  induction h with
  | nil => exact ⟨fun p hp => .inl hp, fun q hq => ⟨q, hq, le_refl q⟩, fun e he => by cases he⟩
  | @cons s t u e es hstep _ ih =>
    obtain ⟨-, -, -, -, hprev, rfl⟩ := hstep
    obtain ⟨hfrom, habove, hall⟩ := ih
    obtain ⟨p, hp, hle⟩ := habove _ rfl
    refine ⟨fun q hq => .inr ?_, fun q hq => ⟨p, hp, le_trans (le_of_lt (hprev q hq)) hle⟩, ?_⟩
    · rcases hfrom q hq with hq | ⟨d, hd, rfl⟩
      · exact ⟨e, List.mem_cons_self, (Option.mem_some.1 hq).symm⟩
      · exact ⟨d, List.mem_cons_of_mem _ hd, rfl⟩
    · intro d hd
      rcases List.mem_cons.1 hd with rfl | hd
      · exact ⟨p, hp, hle⟩
      · exact hall d hd

end

/-- The decoder comes behind the entries that stand at `c`, and remembers a key of theirs. -/
theorem entries_read (hb : b.length < 2 ^ 64) {es : List (Key × Tlv)} (h : Entries b c es)
    (frames : Nat) (hf : (bytesOfEntries es).length ≤ frames) :
    ∃ m last, (∀ p ∈ last, ∃ e ∈ es, p = keyBytes e.1) ∧
      iterM (putEntry (decodeInto b frames) b keyString (invalid .mapOrder) insertEntry) es.length
        ([], none, c) = .ok (m, last, c + (bytesOfEntries es).length) := by
  obtain ⟨hat, hok, hs⟩ := h
  have hpath : ∃ last, Path (EntryStep u64Varint (putTree Tlv.value (fun s => s) insertEntry) b)
      ([], none, c) es
      (es.foldl (putTree Tlv.value (fun s => s) insertEntry) [], last,
        c + (bytesOfEntries es).length) :=
    path_of_entries hat hok hs (fun p (hp : p ∈ (none : Option Bytes)) => by cases hp)
  obtain ⟨last, hp⟩ := hpath
  refine ⟨_, last, fun p hp' => ?_, iterM_of_path hp ?_⟩
  · rcases (last_of_path hp).1 p hp' with hn | he
    · cases hn
    · exact he
  · intro s e s' he hstep
    exact putEntry_of_entryStep (fun _ _ => keyString_iff) (decodeInto_spec frames).2 hb hf he hstep

/-- A panic behind some items is a panic of the array. -/
theorem Panics.of_item (hb : b.length < 2 ^ 64) {ts : List Tlv} (h : Opens b .array i n c)
    (hts : ts.length < n) (hat : At b c (bytesOfItems ts)) (hok : ∀ t ∈ ts, t.Ok u64Varint)
    (hp : Panics b (c + (bytesOfItems ts).length)) : Panics b i := by
  have hc := h.1.lt
  have hlen := hat.length_le hc.2
  refine panics_of_arm h.1.getElem? fun frames hf => ?_
  have hloop : iterM (pushItem (decodeInto b frames)) n ([], c) = .error .panic := by
    refine iterM_eq_error.2 ⟨ts.length, _, hts,
      items_accepts (decodeInto_spec frames).2 hb hat hok (by omega), ?_⟩
    rw [pushItem, hp frames (by omega), error_bind]
  rw [decodeArray_opens h, hloop, error_bind]

/-- A panic behind some entries, at a key or behind it, is a panic of the map. -/
theorem Panics.of_entry (hb : b.length < 2 ^ 64) {es : List (Key × Tlv)} (h : Opens b .map i n c)
    (hes : es.length < n) (hent : Entries b c es)
    (hp : Panics b (c + (bytesOfEntries es).length) ∨
      ∃ k, At b (c + (bytesOfEntries es).length) (keyBytes k) ∧ k.Ok u64Varint ∧
        (∀ e ∈ es, keyBytes e.1 < keyBytes k) ∧
        Panics b (c + (bytesOfEntries es).length + (keyBytes k).length)) : Panics b i := by
  have hc := h.1.lt
  have hlen := hent.1.length_le hc.2
  refine panics_of_arm h.1.getElem? fun frames hf => ?_
  obtain ⟨m, last, hlast, hread⟩ := entries_read hb hent frames (by omega)
  have hloop : iterM (putEntry (decodeInto b frames) b keyString (invalid .mapOrder) insertEntry) n
      ([], none, c) = .error .panic := by
    refine iterM_eq_error.2 ⟨es.length, _, hes, hread, ?_⟩
    rcases hp with hp | ⟨⟨len, s⟩, hk, hkok, habove, hp⟩
    · simp only [putEntry, hp frames (by omega), error_bind]
    · have hklen := hk.length_le (by omega)
      have hd := (decodeInto_spec frames).2 hb (.string len s) _ hk hkok (by
        show (keyBytes ⟨len, s⟩).length ≤ frames
        omega)
      have hord : ¬ last.any (fun prev => decide (keyBytes ⟨len, s⟩ ≤ prev)) = true := by
        cases last with
        | none => simp
        | some p =>
          obtain ⟨e, he, rfl⟩ := hlast p rfl
          simpa using not_le.2 (habove e he)
      have hkey : keyString (Tlv.value (.string len s)) = .ok s := rfl
      have hslice : slice b (c + (bytesOfEntries es).length)
          (c + (bytesOfEntries es).length + (Tlv.string len s).bytesOf.length) =
            keyBytes ⟨len, s⟩ := hk.slice
      have hval : decodeInto b frames (c + (bytesOfEntries es).length +
          (Tlv.string len s).bytesOf.length) = .error .panic := hp frames (by
        show b.length < frames + (_ + (keyBytes ⟨len, s⟩).length)
        omega)
      simp only [putEntry, hd, ok_bind, hkey, hslice]
      rw [if_neg hord, hval, error_bind]
  rw [decodeMap_opens h, hloop, error_bind]

/-- Wherever the decoder looks for a value, a panic there stops it. -/
theorem Awaits.decode_panics (hb : b.length < 2 ^ 64) (h : Awaits b i) (hp : Panics b i) :
    decode b = .error .panic := by
  induction h with
  | start =>
    unfold decode
    rw [hp (b.length + 1) (by omega), error_bind]
  | item _ hopens hts hat hok ih => exact ih (hp.of_item hb hopens hts hat hok)
  | key _ hopens hes hent ih => exact ih (.of_entry hb hopens hes hent (.inl hp))
  | value _ hopens hes hent hk hkok habove ih =>
    exact ih (.of_entry hb hopens hes hent (.inr ⟨_, hk, hkok, habove, hp⟩))

/-! ### Nothing else does -/

theorem readLength_ne_panic : readLength b i ≠ .error .panic := by
  suffices h : ∀ k i result shift, readVarintLoop b k i result shift ≠ .error .panic from
    bind_ne_error (h _ _ _ _) fun _ _ h => by cases h
  intro k
  induction k with
  | zero => exact fun _ _ _ h => by cases h
  | succ k ih =>
    intro i result shift
    rw [readVarintLoop]
    split
    · exact fun h => by cases h
    · simp only
      split
      · exact fun h => by cases h
      · exact ih _ _ _

theorem takeTo_ne_panic {short : Fault CanonicalBytesError} {make : Bytes → Decoded Value}
    {i w : Nat} (hs : short ≠ .panic) (hm : ∀ raw, raw.length = w → make raw ≠ .error .panic) :
    takeTo b short make i (i + w) ≠ .error .panic := by
  unfold takeTo
  split
  · simpa using hs
  · refine bind_ne_error (hm _ ?_) fun _ _ h => by cases h
    rw [slice_length (by omega) (by omega)]
    omega

/-- A sized payload panics in the addition only. -/
theorem overflows_of_takeSized {tag : Tag} (htag : tag = .string ∨ tag = .bytes)
    (hget : b[i]? = some tag.byte) {make : Bytes → Decoded Value}
    (hm : ∀ raw, make raw ≠ .error .panic)
    (h : takeSized b (readLength b) addUsize (invalid (.payloadTruncated tag)) make (i + 1) =
      .error .panic) : Overflows b i := by
  rcases bind_eq_error.1 h with hr | ⟨⟨n, c⟩, hr, h⟩
  · exact absurd hr readLength_ne_panic
  · by_cases hfit : c + n < 2 ^ 64
    · have hadd : addUsize c n = .ok (c + n) := if_pos hfit
      simp only [hadd, ok_bind] at h
      exact absurd h (takeTo_ne_panic (fun h => by cases h) fun raw _ => hm raw)
    · exact ⟨tag, n, c, htag, (sized_iff hget).2 hr, by omega⟩

theorem stringOfUtf8_ne_panic (raw : Bytes) : stringOfUtf8 raw ≠ .error .panic := by
  unfold stringOfUtf8
  split <;> exact fun h => by cases h

/-- An item that panics stands behind items that were read. -/
theorem item_of_panic {dec : Nat → Decoded (Value × Nat)} (hr : Reads u64Varint Tlv.value b dec)
    (h : iterM (pushItem dec) n ([], c) = .error .panic) :
    ∃ ts : List Tlv, ts.length < n ∧ At b c (bytesOfItems ts) ∧ (∀ t ∈ ts, t.Ok u64Varint) ∧
      dec (c + (bytesOfItems ts).length) = .error .panic := by
  obtain ⟨k, ⟨items, j⟩, hk, hrun, hbody⟩ := iterM_eq_error.1 h
  obtain ⟨ts, rfl, hat, hok, -, rfl⟩ := items_reads hr hrun
  refine ⟨ts, hk, hat, hok, ?_⟩
  rcases bind_eq_error.1 hbody with hd | ⟨r, -, hr⟩
  · exact hd
  · cases hr

theorem keyString_ne_panic {v : Value} : keyString v ≠ .error .panic := by
  cases v <;> exact fun h => by cases h

/-- A key or a value that panics stands behind entries that were read. -/
theorem entry_of_panic {dec : Nat → Decoded (Value × Nat)} (hr : Reads u64Varint Tlv.value b dec)
    (h : iterM (putEntry dec b keyString (invalid .mapOrder) insertEntry) n ([], none, c) =
      .error .panic) :
    ∃ es : List (Key × Tlv), es.length < n ∧ Entries b c es ∧
      (dec (c + (bytesOfEntries es).length) = .error .panic ∨
        ∃ k, At b (c + (bytesOfEntries es).length) (keyBytes k) ∧ k.Ok u64Varint ∧
          (∀ e ∈ es, keyBytes e.1 < keyBytes k) ∧
          dec (c + (bytesOfEntries es).length + (keyBytes k).length) = .error .panic) := by
  obtain ⟨k, ⟨m, last, j⟩, hk, hrun, hbody⟩ := iterM_eq_error.1 h
  obtain ⟨es, rfl, hp⟩ := path_of_iterM
    (fun _ _ => entryStep_of_putEntry (fun _ _ => keyString_iff) hr) hrun
  obtain ⟨hat, hok, hs, -, -, hj⟩ := entries_of_path hp
  simp only at hat hj
  subst hj
  refine ⟨es, hk, ⟨hat, hok, hs⟩, ?_⟩
  rcases bind_eq_error.1 hbody with hd | ⟨⟨kv, ke⟩, hd, hrest⟩
  · exact .inl hd
  obtain ⟨t, hkat, hkok, rfl, rfl⟩ := hr _ _ _ hd
  rcases bind_eq_error.1 hrest with hks | ⟨key, hks, hrest⟩
  · exact absurd hks keyString_ne_panic
  obtain ⟨len, text, rfl, rfl⟩ := keyString_iff.1 hks
  simp only at hrest
  split at hrest
  · cases hrest
  rename_i hord
  rw [hkat.slice] at hord
  refine .inr ⟨⟨len, key⟩, hkat, hkok, fun e he => ?_, ?_⟩
  · obtain ⟨p, hp', hle⟩ := (last_of_path hp).2.2 e he
    cases hp'
    have hlt : ¬ (Tlv.string len key).bytesOf ≤ p := by simpa using hord
    exact lt_of_le_of_lt hle (not_le.1 hlt)
  · rcases bind_eq_error.1 hrest with hv | ⟨r, -, hr⟩
    · exact hv
    · cases hr

theorem opens_of_guard {tag : Tag} (hget : b[i]? = some tag.byte)
    (hr : readLength b (i + 1) = .ok (n, c)) (hg : guardCount tag n (b.length - c) = .ok ()) :
    Opens b tag i n c := ⟨(sized_iff hget).2 hr, guardCount_eq_ok.1 hg⟩

theorem guardCount_ne_panic {container : Tag} {count remaining : Nat} :
    guardCount container count remaining ≠ .error .panic := by
  unfold guardCount
  split <;> exact fun h => by cases h

/-- A container that panics has let its count pass, and panics in its loop. -/
theorem loop_of_panic {α : Type} {tag : Tag} (loop : Nat → Nat → Decoded α)
    {make : α → Value × Nat} (hget : b[i]? = some tag.byte)
    (h : (do
      let (count, cursor) ← readLength b (i + 1)
      guardCount tag count (b.length - cursor)
      let s ← loop count cursor
      .ok (make s) : Decoded (Value × Nat)) = .error .panic) :
    ∃ n c, Opens b tag i n c ∧ loop n c = .error .panic := by
  rcases bind_eq_error.1 h with hr | ⟨⟨n, c⟩, hr, h⟩
  · exact absurd hr readLength_ne_panic
  rcases bind_eq_error.1 h with hg | ⟨u, hg, h⟩
  · exact absurd hg guardCount_ne_panic
  rcases bind_eq_error.1 h with hl | ⟨x, -, hx⟩
  · exact ⟨n, c, opens_of_guard hget hr hg, hl⟩
  · cases hx

/-- A panic of the decoder at `i` comes from an overflow at `i` or further on. -/
theorem overflows_of_panic {frames : Nat} (ha : Awaits b i)
    (h : decodeInto b frames i = .error .panic) : ∃ j, Awaits b j ∧ Overflows b j := by
  induction frames generalizing i with
  | zero => cases h
  | succ frames ih =>
    cases hbyte : b[i]? with
    | none =>
      rw [decodeInto, onTag] at h
      simp only [hbyte] at h
      cases h
    | some byte =>
      cases htag : Tag.ofByte? byte with
      | none =>
        rw [decodeInto, onTag] at h
        simp only [hbyte, htag] at h
        cases h
      | some tag =>
        have hget : b[i]? = some tag.byte := by rw [hbyte, Tag.byte_of_ofByte? htag]
        have hr : Reads u64Varint Tlv.value b (decodeInto b frames) := (decodeInto_spec frames).1
        rw [decodeInto_at hget] at h
        cases tag with
        | null => cases h
        | bool => exact absurd h (takeBool_ne_error (fun h => by cases h) fun _ h => by cases h)
        | int | uint | timestamp =>
          simp only [decodeArm] at h
          exact absurd h (takeTo_ne_panic (fun h => by cases h) fun _ _ h => by cases h)
        | hash =>
          simp only [decodeArm] at h
          refine absurd h (takeTo_ne_panic (fun h => by cases h) fun raw hlen => ?_)
          unfold hashOfSlice
          rw [dif_pos hlen]
          exact fun h => by cases h
        | string =>
          exact ⟨i, ha, overflows_of_takeSized (.inl rfl) hget stringOfUtf8_ne_panic h⟩
        | bytes =>
          exact ⟨i, ha, overflows_of_takeSized (.inr rfl) hget (fun _ h => by cases h) h⟩
        | array =>
          obtain ⟨n, c, hopens, hloop⟩ := loop_of_panic
            (fun n c => iterM (pushItem (decodeInto b frames)) n ([], c)) hget h
          obtain ⟨ts, hlt, hat, hok, hd⟩ := item_of_panic hr hloop
          exact ih (.item ha hopens hlt hat hok) hd
        | map =>
          obtain ⟨n, c, hopens, hloop⟩ := loop_of_panic (fun n c => iterM
            (putEntry (decodeInto b frames) b keyString (invalid .mapOrder) insertEntry) n
              ([], none, c)) hget h
          obtain ⟨es, hlt, hent, hd | ⟨k, hk, hkok, habove, hd⟩⟩ := entry_of_panic hr hloop
          · exact ih (.key ha hopens hlt hent) hd
          · exact ih (.value ha hopens hlt hent hk hkok habove) hd

/-- The decoder returns just if, wherever it looks for a value, no length stands that overflows
with the cursor behind it. -/
theorem decode_returns_iff (b : Bytes) (hb : b.length < 2 ^ 64) :
    ((∃ v, decode b = .ok v) ∨ ∃ e, decode b = .error (.err e)) ↔
      ∀ i, Awaits b i → ¬ Overflows b i := by
  constructor
  · intro h i ha ho
    have hp := ha.decode_panics hb ho.panics
    rw [hp] at h
    rcases h with ⟨v, hv⟩ | ⟨e, he⟩
    · cases hv
    · cases he
  · intro h
    cases hd : decode b with
    | ok v => exact .inl ⟨v, rfl⟩
    | error f =>
      cases f with
      | err e => exact .inr ⟨e, rfl⟩
      | stack => exact absurd hd decode_ne_stack
      | panic =>
        exfalso
        rcases bind_eq_error.1 hd with hi | ⟨⟨v, c⟩, -, hlast⟩
        · obtain ⟨j, ha, ho⟩ := overflows_of_panic .start hi
          exact h j ha ho
        · simp only at hlast
          split at hlast <;> cases hlast

/-- A string of `2^64 - 1` bytes is announced. -/
theorem decode_huge_string :
    ¬ ((∃ v, decode [0x20, 0xff, 0xff, 0xff, 0xff, 0xff, 0xff, 0xff, 0xff, 0xff, 0x01] = .ok v) ∨
      ∃ e, decode [0x20, 0xff, 0xff, 0xff, 0xff, 0xff, 0xff, 0xff, 0xff, 0xff, 0x01] =
        .error (.err e)) := by
  have hp : decode [0x20, 0xff, 0xff, 0xff, 0xff, 0xff, 0xff, 0xff, 0xff, 0xff, 0x01] =
      .error .panic := rfl
  rw [hp]
  rintro (⟨v, hv⟩ | ⟨e, he⟩)
  · cases hv
  · cases he

/-- No byte of the input goes on, so every length in it is small. -/
theorem decode_returns_nested :
    (∃ v, decode nestedInput = .ok v) ∨ ∃ e, decode nestedInput = .error (.err e) := by
  refine (decode_returns_iff nestedInput (by decide)).2 fun i _ ho => ?_
  obtain ⟨tag, n, c, -, hs, hover⟩ := ho
  have hsmall : ∀ i < nestedInput.length, (readLength nestedInput (i + 1)).toOption.all
      (fun p => p.1 < 128) := by decide
  have hread := (sized_iff hs.getElem?).1 hs
  obtain ⟨hi, hc⟩ := hs.lt
  have hn := hsmall i (hi.trans_le hc)
  rw [hread] at hn
  have hn : n < 128 := of_decide_eq_true hn
  have hlen : nestedInput.length = 12 := rfl
  omega

end Myco.Canonical
