import Mathlib.Algebra.Order.BigOperators.Group.List
import Myco.Bridge.Timing

/-!
# Reading all frames of a connection

What the successive `read_fed_frame`s on a connection return, whichever way its bytes arrive. A
read that times out inside a frame has dropped what came of it, so that the messages are returned as
they were sent exactly where every timeout falls between two frames (`reads_exactly_iff`).
-/

namespace Myco.Bridge

open Myco.Lib Myco.Canonical Myco.Substrate

/-! ### The sizes of messages -/

section

variable {hmac : Hmac} {key : Hash32} {m : Message} {body : Bytes}

theorem fromBodyMap_ok {map : List (String × Value)} (h : fromBodyMap map = .ok m) :
    bodyEntries m ⊆ map := by
  obtain ⟨version, hv, h⟩ := bind_eq_ok.1 h
  split at h
  · cases h
  rename_i hversion
  obtain ⟨messageType, ht, h⟩ := bind_eq_ok.1 h
  obtain ⟨requestId, hr, h⟩ := bind_eq_ok.1 h
  obtain ⟨payload, hp, h⟩ := bind_eq_ok.1 h
  cases h
  rw [mapError_eq_ok] at hv ht hr hp
  obtain ⟨v, hgetv, hv⟩ := mapGet_eq_ok.1 hv
  obtain ⟨t, hgett, ht⟩ := mapGet_eq_ok.1 ht
  obtain ⟨i, hgeti, hr⟩ := mapGet_eq_ok.1 hr
  obtain ⟨p, hgetp, hp⟩ := mapGet_eq_ok.1 hp
  rw [Value.uint?_eq] at hv hr
  rw [Value.string?_eq] at ht
  rw [Value.map?_eq] at hp
  subst hv ht hr hp
  rw [not_not.1 hversion] at hgetv
  intro e he
  simp only [bodyEntries, List.mem_cons, List.not_mem_nil, or_false] at he
  rcases he with rfl | rfl | rfl | rfl
  · exact OrdMap.mem_of_get hgetv
  · exact OrdMap.mem_of_get hgett
  · exact OrdMap.mem_of_get hgeti
  · exact OrdMap.mem_of_get hgetp

theorem size_bodyEntries_le {map : List (String × Value)} (h : bodyEntries m ⊆ map) :
    (mapOf (bodyEntries m)).size ≤ (Value.map map).size := by
  obtain ⟨es, hperm, hsub⟩ := List.subperm_of_subset bodyEntries_keys.of_map h
  have hcount : 1 ≤ (lenVarint map.length).length := lenVarint_length_pos
  have hsum := (hsub.map fun e => keySize e.1 + e.2.size).sum_le_sum fun _ _ => Nat.zero_le _
  rw [(hperm.map _).sum_nat] at hsum
  rw [size_mapOf bodyEntries_keys, Value.size, entriesSize_eq,
    lenVarint_of_lt (show (bodyEntries m).length < 128 by show 4 < 128; decide)]
  omega

/-- No frame that is decoded to a message is shorter than the one it is written as. -/
theorem encodeFrameBody_le (h : decodeFrameBody hmac key body = .ok m) :
    (encodeFrameBody hmac key m).length ≤ body.length := by
  rw [encodeFrameBody_length]
  rw [decodeFrameBody] at h
  split at h
  · cases h
  rename_i hlong
  dsimp only at h
  split at h
  · cases h
  rw [fromBodyCanonicalBytes] at h
  split at h
  · cases h
  · rename_i map hdec
    have hsize := size_le_of_decode hdec
    have hentries := size_bodyEntries_le (fromBodyMap_ok (mapError_eq_ok.1 h))
    rw [List.length_drop] at hsize
    omega
  · cases h

end

/-! ### Cuts between frames -/

/-- Each of these segments but the last ends where a frame ends, and together they are the frames. -/
def Cut (frames : List Bytes) (s : Bytes) : List Bytes → Prop
  | [] => s = frames.flatten
  | s' :: ss => ∃ i, s = (frames.take i).flatten ∧ Cut (frames.drop i) s' ss

/-- Every timeout falls between two frames. -/
def TimeoutsBetween (frames : List Bytes) (arrivals : List Arrival) : Prop :=
  ∀ before kind after, arrivals = before ++ .failure kind :: after → kind ≠ .interrupted →
    ∃ i, arrived before = (frames.take i).flatten

section

variable {frames : List Bytes} {f s : Bytes} {ss : List Bytes} {arrivals : List Arrival}

theorem arrived_eq : arrived arrivals = ready arrivals ++ (later arrivals).flatten := by
  induction arrivals with
  | nil => rfl
  | cons a arrivals ih =>
    cases a with
    | chunk b bs => rw [arrived, ready, later, ih, List.append_assoc]
    | failure kind =>
      rw [arrived, ready, later]
      split
      · exact ih
      · rw [ih, List.flatten_cons, List.nil_append]

theorem Cut.cons (h : Cut frames s ss) : Cut (f :: frames) (f ++ s) ss := by
  cases ss with
  | nil => rw [Cut, List.flatten_cons, show s = frames.flatten from h]
  | cons s' ss =>
    obtain ⟨i, rfl, hcut⟩ := h
    exact ⟨i + 1, by rw [List.take_succ_cons, List.flatten_cons], hcut⟩

theorem Cut.inv (h : Cut frames s ss) (hs : s ≠ []) :
    ∃ f frames' s', frames = f :: frames' ∧ s = f ++ s' ∧ Cut frames' s' ss := by
  cases frames with
  | nil =>
    cases ss with
    | nil => exact absurd h hs
    | cons s' ss =>
      obtain ⟨i, rfl, -⟩ := h
      exact absurd (by rw [List.take_nil, List.flatten_nil]) hs
  | cons f frames =>
    cases ss with
    | nil => exact ⟨f, frames, frames.flatten, rfl, h, rfl⟩
    | cons s' ss =>
      obtain ⟨i, rfl, hcut⟩ := h
      cases i with
      | zero => exact absurd rfl hs
      | succ i =>
        refine ⟨f, frames, (frames.take i).flatten, rfl, ?_, i, rfl, hcut⟩
        rw [List.take_succ_cons, List.flatten_cons]

theorem cut_nil (h : s ++ ss.flatten = []) : Cut [] s ss := by
  induction ss generalizing s with
  | nil => simpa [Cut] using h
  | cons s' ss ih =>
    obtain ⟨rfl, h⟩ := List.append_eq_nil_iff.1 h
    exact ⟨0, rfl, ih h⟩

/-- What comes after whole frames ends with one exactly where all of it does. -/
theorem append_take_iff {i : Nat} {x : Bytes} :
    (∃ k, (frames.take i).flatten ++ x = (frames.take k).flatten) ↔
      ∃ j, x = ((frames.drop i).take j).flatten := by
  constructor
  · rintro ⟨k, hk⟩
    by_cases hik : i ≤ k
    · obtain ⟨j, rfl⟩ := Nat.exists_eq_add_of_le hik
      rw [List.take_add, List.flatten_append] at hk
      exact ⟨j, List.append_cancel_left hk⟩
    · have hle : (frames.take k).flatten.length ≤ (frames.take i).flatten.length :=
        (List.take_sublist_take_left (by omega)).flatten.length_le
      have hlen := congrArg List.length hk
      rw [List.length_append] at hlen
      exact ⟨0, List.eq_nil_of_length_eq_zero (by omega)⟩
  · rintro ⟨j, rfl⟩
    exact ⟨i + j, by rw [List.take_add, List.flatten_append]⟩

theorem cut_iff {read : Bytes} (h : read ++ arrived arrivals = frames.flatten) :
    (∀ before kind after, arrivals = before ++ .failure kind :: after → kind ≠ .interrupted →
      ∃ i, read ++ arrived before = (frames.take i).flatten) ↔
      Cut frames (read ++ ready arrivals) (later arrivals) := by
  induction arrivals generalizing read frames with
  | nil =>
    refine ⟨fun _ => h, fun _ before kind after heq => ?_⟩
    simp at heq
  | cons a arrivals ih =>
    cases a with
    | chunk b bs =>
      rw [append_ready_chunk, later, ← ih (by rw [List.append_assoc]; exact h)]
      constructor
      · intro H before kind after heq hk
        obtain ⟨i, hi⟩ := H (.chunk b bs :: before) kind after (by rw [heq]; rfl) hk
        exact ⟨i, by rw [List.append_assoc]; exact hi⟩
      · intro H before kind after heq hk
        rcases List.cons_eq_append_iff.1 heq with ⟨rfl, hnil⟩ | ⟨before, rfl, hrest'⟩
        · cases hnil
        · obtain ⟨i, hi⟩ := H before kind after hrest' hk
          exact ⟨i, by rw [← hi, List.append_assoc]; rfl⟩
    | failure kind =>
      by_cases hint : kind = .interrupted
      · rw [ready, if_pos hint, later, if_pos hint, ← ih h]
        constructor
        · intro H before kind' after heq hk
          exact H (.failure kind :: before) kind' after (by rw [heq]; rfl) hk
        · intro H before kind' after heq hk
          rcases List.cons_eq_append_iff.1 heq with ⟨rfl, hnil⟩ | ⟨before, rfl, hrest'⟩
          · cases hnil
            exact absurd hint hk
          · exact H before kind' after hrest' hk
      · rw [ready, if_neg hint, later, if_neg hint, List.append_nil]
        -- the timeout ends the segment, and what follows is cut as the frames after it are
        have hrest : ∀ {i}, read = (frames.take i).flatten →
            [] ++ arrived arrivals = (frames.drop i).flatten := by
          intro i hi
          rw [← List.take_append_drop i frames, List.flatten_append, ← hi] at h
          exact List.append_cancel_left h
        constructor
        · intro H
          obtain ⟨i, hi⟩ := H [] kind arrivals rfl hint
          rw [arrived, List.append_nil] at hi
          refine ⟨i, hi, (ih (hrest hi)).1 fun before kind' after heq hk => ?_⟩
          obtain ⟨k, hk'⟩ := H (.failure kind :: before) kind' after (by rw [heq]; rfl) hk
          rw [hi] at hk'
          exact append_take_iff.1 ⟨k, hk'⟩
        · rintro ⟨i, hi, hcut⟩ before kind' after heq hk
          rcases List.cons_eq_append_iff.1 heq with ⟨rfl, -⟩ | ⟨before, rfl, hrest'⟩
          · exact ⟨i, by rw [arrived, List.append_nil, hi]⟩
          · rw [hi]
            exact append_take_iff.2 ((ih (hrest hi)).2 hcut before kind' after hrest' hk)

/-- In terms of what arrives between timeouts. -/
theorem timeoutsBetween_iff (h : arrived arrivals = frames.flatten) :
    TimeoutsBetween frames arrivals ↔ Cut frames (ready arrivals) (later arrivals) :=
  @cut_iff _ _ [] h

end

/-! ### Successive reads -/

/-- What `n` successive reads return. -/
def reads (hmac : Hmac) (key : Hash32) :
    Nat → List Arrival → List (Except (Fault BridgeError) (Option Message))
  | 0, _ => []
  | n + 1, arrivals =>
    (readFedFrame hmac key arrivals).1 :: reads hmac key n (readFedFrame hmac key arrivals).2

def message? : Except (Fault BridgeError) (Option Message) → Option Message
  | .ok m => m
  | .error _ => none

def returned (rs : List (Except (Fault BridgeError) (Option Message))) : List Message :=
  rs.filterMap message?

theorem returned_some {m : Message} {rs : List (Except (Fault BridgeError) (Option Message))} :
    returned (.ok (some m) :: rs) = m :: returned rs := rfl

theorem returned_none {rs : List (Except (Fault BridgeError) (Option Message))} :
    returned (.ok none :: rs) = returned rs := rfl

/-- The frames that `write_fed_frame` writes for these messages. -/
def Written (hmac : Hmac) (key : Hash32) (msgs : List Message) (frames : List Bytes) : Prop :=
  List.Forall₂ (fun m f => WellFormed m ∧ writeFrame (encodeFrameBody hmac key m) = .ok f) msgs
    frames

/-- No read fails, and the messages are returned in order, each of them once. -/
def ReadsExactly (hmac : Hmac) (key : Hash32) (msgs : List Message) (arrivals : List Arrival) :
    Prop :=
  (∀ n, (∀ r ∈ reads hmac key n arrivals, ∃ m?, r = .ok m?) ∧
      returned (reads hmac key n arrivals) <+: msgs) ∧
    ∃ n, returned (reads hmac key n arrivals) = msgs

/-- The bytes of a message on the wire. -/
def frameSize (hmac : Hmac) (key : Hash32) (m : Message) : Nat :=
  4 + (encodeFrameBody hmac key m).length

section

variable {hmac : Hmac} {key : Hash32} {m : Message} {msgs : List Message} {f : Bytes}
  {frames : List Bytes} {arrivals rest : List Arrival}
  {r : Except (Fault BridgeError) (Option Message)}

theorem writeFrame_frames (hwf : WellFormed m)
    (h : writeFrame (encodeFrameBody hmac key m) = .ok f) :
    ∃ lengthBytes body, f = lengthBytes ++ body ∧ Frames lengthBytes body ∧
      decodeFrameBody hmac key body = .ok m ∧ f.length = frameSize hmac key m := by
  rw [writeFrame] at h
  split at h
  · cases h
  · rename_i hmax
    cases h
    have hle : (encodeFrameBody hmac key m).length ≤ maxFrameBodySize := by omega
    refine ⟨_, _, rfl, ⟨beBytes_length, beNat_beBytes ?_, hle⟩, decodeFrameBody_encode hwf hle, ?_⟩
    · rw [maxFrameBodySize] at hle
      omega
    · rw [List.length_append, beBytes_length, frameSize]

theorem Written.frame_ne_nil (hw : Written hmac key msgs frames) : ∀ f ∈ frames, f ≠ [] := by
  induction hw with
  | nil => simp
  | cons h _ ih =>
    intro f hf
    rcases List.mem_cons.1 hf with rfl | hf
    · obtain ⟨_, _, -, -, -, hlen⟩ := writeFrame_frames h.1 h.2
      rintro rfl
      rw [frameSize, List.length_nil] at hlen
      omega
    · exact ih f hf

theorem Written.length_flatten (hw : Written hmac key msgs frames) :
    frames.flatten.length = (msgs.map (frameSize hmac key)).sum := by
  induction hw with
  | nil => rfl
  | cons h _ ih =>
    obtain ⟨_, _, -, -, -, hlen⟩ := writeFrame_frames h.1 h.2
    rw [List.flatten_cons, List.length_append, List.map_cons, List.sum_cons, ih, hlen]

theorem drop_of_take_flatten (hne : ∀ f ∈ frames, f ≠ []) {i : Nat}
    (h : (frames.take i).flatten = []) : frames.drop i = frames := by
  cases i with
  | zero => rfl
  | succ i =>
    cases frames with
    | nil => rfl
    | cons f frames =>
      rw [List.take_succ_cons, List.flatten_cons] at h
      exact absurd (List.append_eq_nil_iff.1 h).1 (hne f List.mem_cons_self)

/-! ### Reading frames whole -/

/-- A read returns the next message, or nothing, and what it leaves is cut between frames. -/
theorem cut_step (ht : OnlyTimeouts arrivals) (hw : Written hmac key msgs frames)
    (hc : Cut frames (ready arrivals) (later arrivals))
    (h : readFedFrame hmac key arrivals = (r, rest)) :
    OnlyTimeouts rest ∧ ∃ msgs' frames', Written hmac key msgs' frames' ∧
      Cut frames' (ready rest) (later rest) ∧
      ((∃ m, r = .ok (some m) ∧ msgs = m :: msgs' ∧ later rest = later arrivals) ∨
        (r = .ok none ∧ msgs = msgs' ∧
          (msgs = [] ∨ (later rest).length < (later arrivals).length))) := by
  by_cases hs : ready arrivals = []
  · rcases readFedFrame_cases ht h with ⟨lengthBytes, body, s, hf, hready, -, -⟩ |
      ⟨rfl, s, ss, hl, hleft⟩ | ⟨rfl, -, hl, rfl⟩ | ⟨-, hne⟩
    · rw [hs] at hready
      have := congrArg List.length hready
      rw [List.length_append, List.length_append, hf.1, List.length_nil] at this
      omega
    · rw [hs, hl] at hc
      obtain ⟨i, hi, hcut⟩ := hc
      rw [drop_of_take_flatten hw.frame_ne_nil hi.symm] at hcut
      refine ⟨hleft.onlyTimeouts ht, msgs, frames, hw, ?_, .inr ⟨rfl, rfl, .inr ?_⟩⟩
      · rw [hleft.ready_eq, hleft.later_eq]
        exact hcut
      · rw [hleft.later_eq, hl]
        exact Nat.lt_succ_self _
    · rw [hs, hl] at hc
      refine ⟨fun _ hk => (List.not_mem_nil hk).elim, msgs, frames, hw, hc,
        .inr ⟨rfl, rfl, .inl ?_⟩⟩
      cases hw with
      | nil => rfl
      | cons h hw =>
        rw [Cut, List.flatten_cons] at hc
        exact absurd (List.append_eq_nil_iff.1 hc.symm).1
          (Written.frame_ne_nil (.cons h hw) _ List.mem_cons_self)
    · exact absurd hs hne
  · obtain ⟨f, frames', s, rfl, hready, hcut⟩ := hc.inv hs
    cases hw with
    | cons hm hw =>
      obtain ⟨lengthBytes, body, rfl, hf, hdec, -⟩ := writeFrame_frames hm.1 hm.2
      obtain ⟨rest', heq, hleft⟩ := @readFedFrame_whole hmac key _ _ _ _ hf hready
      obtain ⟨rfl, rfl⟩ := Prod.mk.inj (h.symm.trans heq)
      refine ⟨hleft.onlyTimeouts ht, _, frames', hw, ?_, .inl ⟨_, by rw [hdec]; rfl, rfl,
        hleft.later_eq⟩⟩
      rw [hleft.ready_eq, hleft.later_eq]
      exact hcut

theorem reads_succ {n : Nat} (h : readFedFrame hmac key arrivals = (r, rest)) :
    reads hmac key (n + 1) arrivals = r :: reads hmac key n rest := by
  rw [reads, h]

theorem reads_of_cut {n : Nat} (ht : OnlyTimeouts arrivals) (hw : Written hmac key msgs frames)
    (hc : Cut frames (ready arrivals) (later arrivals)) :
    (∀ r ∈ reads hmac key n arrivals, ∃ m?, r = .ok m?) ∧
      returned (reads hmac key n arrivals) <+: msgs := by
  induction n generalizing arrivals msgs frames with
  | zero => exact ⟨fun r hr => (List.not_mem_nil hr).elim, List.nil_prefix⟩
  | succ n ih =>
    obtain ⟨⟨r, rest⟩, hread⟩ : ∃ p, readFedFrame hmac key arrivals = p := ⟨_, rfl⟩
    obtain ⟨ht', msgs', frames', hw', hc', hr⟩ := cut_step ht hw hc hread
    obtain ⟨hok, hpre⟩ := ih ht' hw' hc'
    rw [reads_succ hread, List.forall_mem_cons]
    rcases hr with ⟨m, rfl, rfl, -⟩ | ⟨rfl, rfl, -⟩
    · rw [returned_some, List.cons_prefix_cons]
      exact ⟨⟨⟨_, rfl⟩, hok⟩, rfl, hpre⟩
    · rw [returned_none]
      exact ⟨⟨⟨_, rfl⟩, hok⟩, hpre⟩

/-- Enough reads return all of the messages. -/
theorem reads_all_of_cut {k : Nat} (hk : msgs.length + (later arrivals).length ≤ k)
    (ht : OnlyTimeouts arrivals) (hw : Written hmac key msgs frames)
    (hc : Cut frames (ready arrivals) (later arrivals)) :
    ∃ n, returned (reads hmac key n arrivals) = msgs := by
  induction k generalizing arrivals msgs frames with
  | zero => exact ⟨0, (List.eq_nil_of_length_eq_zero (by omega)).symm⟩
  | succ k ih =>
    by_cases hnil : msgs = []
    · exact ⟨0, hnil.symm⟩
    obtain ⟨⟨r, rest⟩, hread⟩ : ∃ p, readFedFrame hmac key arrivals = p := ⟨_, rfl⟩
    obtain ⟨ht', msgs', frames', hw', hc', hr⟩ := cut_step ht hw hc hread
    rcases hr with ⟨m, rfl, rfl, hl⟩ | ⟨rfl, rfl, hlt⟩
    · rw [List.length_cons, ← hl] at hk
      obtain ⟨n, hn⟩ := ih (by omega) ht' hw' hc'
      exact ⟨n + 1, by rw [reads_succ hread, returned_some, hn]⟩
    · have hlt := hlt.resolve_left hnil
      obtain ⟨n, hn⟩ := ih (by omega) ht' hw' hc'
      exact ⟨n + 1, by rw [reads_succ hread, returned_none, hn]⟩

/-! ### Counting bytes -/

/-- The bytes that a reader can still get. -/
def remaining (arrivals : List Arrival) : Nat :=
  (ready arrivals).length + (later arrivals).flatten.length

/-- A read takes the bytes of what it returns, at least. -/
theorem remaining_step {m? : Option Message} (ht : OnlyTimeouts arrivals)
    (h : readFedFrame hmac key arrivals = (.ok m?, rest)) :
    OnlyTimeouts rest ∧
      (m?.toList.map (frameSize hmac key)).sum + remaining rest ≤ remaining arrivals := by
  rcases readFedFrame_cases ht h with ⟨lengthBytes, body, s, hf, hready, hr, hleft⟩ |
    ⟨hr, s, ss, hl, hleft⟩ | ⟨hr, -, -, rfl⟩ | ⟨⟨e, hr⟩, -⟩
  · cases hdec : decodeFrameBody hmac key body with
    | error e =>
      rw [hdec] at hr
      cases hr
    | ok m =>
      rw [hdec] at hr
      cases hr
      have hle := encodeFrameBody_le hdec
      refine ⟨hleft.onlyTimeouts ht, ?_⟩
      rw [remaining, remaining, hleft.ready_eq, hleft.later_eq, hready, List.length_append,
        List.length_append, hf.1]
      simp only [Option.toList_some, List.map_singleton, List.sum_singleton, frameSize]
      omega
  · cases hr
    refine ⟨hleft.onlyTimeouts ht, ?_⟩
    rw [remaining, remaining, hleft.ready_eq, hleft.later_eq, hl, List.flatten_cons,
      List.length_append]
    simp
  · cases hr
    exact ⟨fun _ hk => (List.not_mem_nil hk).elim, by simp [remaining, ready, later]⟩
  · cases hr

theorem returned_size_le {n : Nat} (ht : OnlyTimeouts arrivals)
    (hok : ∀ r ∈ reads hmac key n arrivals, ∃ m?, r = .ok m?) :
    ((returned (reads hmac key n arrivals)).map (frameSize hmac key)).sum ≤ remaining arrivals := by
  induction n generalizing arrivals with
  | zero => exact Nat.zero_le _
  | succ n ih =>
    obtain ⟨⟨r, rest⟩, hread⟩ : ∃ p, readFedFrame hmac key arrivals = p := ⟨_, rfl⟩
    rw [reads_succ hread] at hok ⊢
    rw [List.forall_mem_cons] at hok
    obtain ⟨⟨m?, rfl⟩, hok⟩ := hok
    obtain ⟨ht', hle⟩ := remaining_step ht hread
    have hrest := ih ht' hok
    cases m? with
    | none => exact hrest.trans (by simpa using hle)
    | some m =>
      simp only [Option.toList_some, List.map_singleton, List.sum_singleton] at hle
      rw [returned_some, List.map_cons, List.sum_cons]
      omega

/-- Reads that return all of the messages drop no byte. -/
theorem cut_of_reads {n : Nat} (ht : OnlyTimeouts arrivals) (hw : Written hmac key msgs frames)
    (hbytes : ready arrivals ++ (later arrivals).flatten = frames.flatten)
    (hok : ∀ r ∈ reads hmac key n arrivals, ∃ m?, r = .ok m?)
    (hall : returned (reads hmac key n arrivals) = msgs) :
    Cut frames (ready arrivals) (later arrivals) := by
  induction n generalizing arrivals msgs frames with
  | zero =>
    cases hall
    cases hw
    exact cut_nil hbytes
  | succ n ih =>
    have htotal : remaining arrivals = (msgs.map (frameSize hmac key)).sum := by
      rw [remaining, ← List.length_append, hbytes, hw.length_flatten]
    obtain ⟨⟨r, rest⟩, hread⟩ : ∃ p, readFedFrame hmac key arrivals = p := ⟨_, rfl⟩
    rw [reads_succ hread] at hok hall
    rw [List.forall_mem_cons] at hok
    obtain ⟨⟨m?, rfl⟩, hok⟩ := hok
    obtain ⟨ht', -⟩ := remaining_step ht hread
    have hsize := returned_size_le ht' hok
    rcases readFedFrame_cases ht hread with ⟨lengthBytes, body, s, hf, hready, hr, hleft⟩ |
      ⟨hr, s, ss, hl, hleft⟩ | ⟨-, hs, hl, -⟩ | ⟨⟨e, hr⟩, -⟩
    · cases hdec : decodeFrameBody hmac key body with
      | error e =>
        rw [hdec] at hr
        cases hr
      | ok m =>
        rw [hdec] at hr
        cases hr
        rw [returned_some] at hall
        subst hall
        cases hw with
        | cons hm hw =>
          rename_i f frames
          obtain ⟨-, -, -, -, -, hlen⟩ := writeFrame_frames hm.1 hm.2
          have hle := encodeFrameBody_le hdec
          rw [List.map_cons, List.sum_cons, remaining, hready] at htotal
          rw [remaining, hleft.ready_eq, hleft.later_eq] at hsize
          rw [hready, List.append_assoc, List.flatten_cons] at hbytes
          -- the frame that was read is as long as the one that was sent
          have hsame : (lengthBytes ++ body).length = f.length := by
            rw [List.length_append, List.length_append] at htotal
            rw [List.length_append, hlen]
            rw [frameSize] at htotal ⊢
            have h4 := hf.1
            omega
          obtain ⟨hfirst, hothers⟩ := List.append_inj hbytes hsame
          rw [hready, hfirst]
          refine Cut.cons ?_
          rw [← hleft.ready_eq, ← hleft.later_eq] at hothers ⊢
          exact ih ht' hw hothers hok rfl
    · cases hr
      rw [returned_none] at hall
      have hs : ready arrivals = [] := by
        rw [hall, ← htotal, remaining, remaining, hleft.ready_eq, hleft.later_eq, hl,
          List.flatten_cons, List.length_append] at hsize
        exact List.eq_nil_of_length_eq_zero (by omega)
      rw [hs, hl] at hbytes ⊢
      refine ⟨0, rfl, ?_⟩
      rw [← hleft.ready_eq, ← hleft.later_eq] at hbytes ⊢
      exact ih ht' hw hbytes hok hall
    · rw [hs, hl] at hbytes ⊢
      exact hbytes
    · cases hr

/-- The messages are returned as they were sent, whichever way the bytes arrive, exactly where every
timeout falls between two frames. -/
theorem reads_exactly_iff (hw : Written hmac key msgs frames)
    (hbytes : arrived arrivals = frames.flatten) (ht : OnlyTimeouts arrivals) :
    ReadsExactly hmac key msgs arrivals ↔ TimeoutsBetween frames arrivals := by
  rw [timeoutsBetween_iff hbytes]
  constructor
  · rintro ⟨hok, n, hall⟩
    exact cut_of_reads ht hw (arrived_eq ▸ hbytes) (hok n).1 hall
  · intro hc
    exact ⟨fun n => reads_of_cut ht hw hc, reads_all_of_cut (Nat.le_refl _) ht hw hc⟩

end

/-! ### A request for events -/

section

def request : Message :=
  { messageType := "fed_request_events_since", requestId := 1, payload := [("max_events", .uint 10)] }

def requestFrame : Bytes :=
  beBytes 4 (encodeFrameBody noHmac (.replicate 0) request).length ++
    encodeFrameBody noHmac (.replicate 0) request

theorem request_written : Written noHmac (.replicate 0) [request] [requestFrame] := by
  refine .cons ⟨?_, if_neg (by decide +kernel)⟩ .nil
  simp [WellFormed, request, Value.WF, wfEntries_iff, OrdMap.Sorted]

theorem request_read_after_timeout : ReadsExactly noHmac (.replicate 0) [request]
    (.failure .timedOut :: unread requestFrame []) := by
  refine (reads_exactly_iff request_written ?_ ?_).2 ?_
  · decide +kernel
  · intro kind hk
    rcases List.mem_cons.1 hk with h | hk
    · cases h
      rfl
    · exact (List.not_mem_nil (failure_mem_unread.1 hk)).elim
  · intro before kind after h _
    rcases List.cons_eq_append_iff.1 h with ⟨rfl, -⟩ | ⟨before, rfl, hrest⟩
    · exact ⟨0, rfl⟩
    · have hmem : .failure kind ∈ unread requestFrame [] := by
        rw [hrest]
        exact List.mem_append_right _ List.mem_cons_self
      exact (List.not_mem_nil (failure_mem_unread.1 hmem)).elim

/-- A timeout after three bytes of a frame. -/
def slowRequest : List Arrival :=
  unread (requestFrame.take 3) (.failure .timedOut :: unread (requestFrame.drop 3) [])

theorem slow_request_lost : Written noHmac (.replicate 0) [request] [requestFrame] ∧
    arrived slowRequest = requestFrame ∧ OnlyTimeouts slowRequest ∧
    ¬ ReadsExactly noHmac (.replicate 0) [request] slowRequest := by
  refine ⟨request_written, by decide +kernel, ?_, fun h => ?_⟩
  · intro kind hk
    rcases List.mem_cons.1 (failure_mem_unread.1 hk) with h | hk
    · cases h
      rfl
    · exact (List.not_mem_nil (failure_mem_unread.1 hk)).elim
  · have hfail : (reads noHmac (.replicate 0) 2 slowRequest).any
        (fun r => r.toOption.isNone) = true := by decide +kernel
    obtain ⟨r, hr, hnone⟩ := List.any_eq_true.1 hfail
    obtain ⟨m?, rfl⟩ := (h.1 2).1 r hr
    simp [Except.toOption] at hnone

end

end Myco.Bridge
