import Myco.Bridge.Frames

/-!
# Frames and timeouts

What one `read_fed_frame` makes of what arrives. How the bytes are chunked makes no difference: a
read sees the bytes up to the next timeout (`ready`), takes a frame where they begin with one, and
drops them where they are too few (`readFedFrame_cases`).
-/

namespace Myco.Bridge

open Myco.Lib Myco.Canonical Myco.Substrate

/-! ### Between timeouts -/

/-- All bytes of these arrivals. -/
def arrived : List Arrival → Bytes
  | [] => []
  | .chunk b bs :: rest => b :: bs ++ arrived rest
  | .failure _ :: rest => arrived rest

/-- The bytes before the next timeout. An interrupted `read` is made again at once. -/
def ready : List Arrival → Bytes
  | [] => []
  | .chunk b bs :: rest => b :: bs ++ ready rest
  | .failure kind :: rest => if kind = .interrupted then ready rest else []

/-- The bytes after the next timeout, up to each further one. -/
def later : List Arrival → List Bytes
  | [] => []
  | .chunk _ _ :: rest => later rest
  | .failure kind :: rest => if kind = .interrupted then later rest else ready rest :: later rest

/-- No `read` fails for another reason than that nothing has come in time. -/
def OnlyTimeouts (arrivals : List Arrival) : Prop :=
  ∀ kind, .failure kind ∈ arrivals → kind.isTimeout

/-- Of the arrivals are left the bytes `s` before the next timeout and `ss` after it. -/
structure Leaves (arrivals rest : List Arrival) (s : Bytes) (ss : List Bytes) : Prop where
  ready_eq : ready rest = s
  later_eq : later rest = ss
  subset : ∀ kind, .failure kind ∈ rest → .failure kind ∈ arrivals

section

variable {n : Nat} {read bs s : Bytes} {arrivals rest : List Arrival} {ss : List Bytes}

theorem Leaves.onlyTimeouts (h : Leaves arrivals rest s ss) (ht : OnlyTimeouts arrivals) :
    OnlyTimeouts rest := fun kind hk => ht kind (h.subset kind hk)

theorem Leaves.trans {arrivals' : List Arrival} {s' : Bytes} {ss' : List Bytes}
    (h : Leaves arrivals arrivals' s' ss') (h' : Leaves arrivals' rest s ss) :
    Leaves arrivals rest s ss :=
  ⟨h'.ready_eq, h'.later_eq, fun kind hk => h.subset kind (h'.subset kind hk)⟩

theorem Leaves.cons {a : Arrival} (h : Leaves arrivals rest s ss) :
    Leaves (a :: arrivals) rest s ss :=
  ⟨h.ready_eq, h.later_eq, fun kind hk => List.mem_cons_of_mem _ (h.subset kind hk)⟩

theorem failure_mem_unread {kind : ErrorKind} :
    .failure kind ∈ unread bs rest ↔ .failure kind ∈ rest := by
  cases bs <;> simp [unread]

theorem unread_leaves : Leaves rest (unread bs rest) (bs ++ ready rest) (later rest) := by
  cases bs with
  | nil => exact ⟨rfl, rfl, fun _ hk => hk⟩
  | cons b bs => exact ⟨rfl, rfl, fun kind => failure_mem_unread.1⟩

/-! ### One read -/

theorem readLoop_chunk {b : UInt8} (h : read.length < n) :
    readLoop n read (.chunk b bs :: rest) =
      if (read ++ b :: bs).length < n then readLoop n (read ++ b :: bs) rest
      else (.ok (some ((read ++ b :: bs).take n)), unread ((read ++ b :: bs).drop n) rest) := by
  have htake : read ++ (b :: bs).take (n - read.length) = (read ++ b :: bs).take n := by
    rw [List.take_append, List.take_of_length_le h.le]
  have hdrop : (b :: bs).drop (n - read.length) = (read ++ b :: bs).drop n := by
    rw [List.drop_append, List.drop_eq_nil_of_le h.le, List.nil_append]
  rw [readLoop]
  simp only [hdrop]
  rw [← List.length_append, htake, List.length_take]
  by_cases hlt : (read ++ b :: bs).length < n
  · rw [if_pos (by omega), if_pos hlt, List.take_of_length_le hlt.le]
  · rw [if_neg (by omega), if_neg hlt]

theorem append_ready_chunk {b : UInt8} :
    read ++ ready (.chunk b bs :: rest) = read ++ b :: bs ++ ready rest := by
  rw [ready, List.append_assoc]

/-- A chunk after which bytes are still missing is read whole. -/
theorem readLoop_chunk_short {b : UInt8} (h : (read ++ b :: bs ++ ready rest).length < n) :
    readLoop n read (.chunk b bs :: rest) = readLoop n (read ++ b :: bs) rest := by
  rw [List.length_append] at h
  have hread : read.length < n := by
    rw [List.length_append] at h
    omega
  rw [readLoop_chunk hread, if_pos (by omega)]

theorem readLoop_enough (h : read.length < n) (hn : n ≤ (read ++ ready arrivals).length) :
    ∃ rest, readLoop n read arrivals = (.ok (some ((read ++ ready arrivals).take n)), rest) ∧
      Leaves arrivals rest ((read ++ ready arrivals).drop n) (later arrivals) := by
  induction arrivals generalizing read with
  | nil =>
    rw [ready, List.append_nil] at hn
    omega
  | cons a arrivals ih =>
    cases a with
    | chunk b bs =>
      rw [append_ready_chunk] at hn ⊢
      rw [readLoop_chunk h, later]
      split
      · rename_i hlt
        obtain ⟨rest, heq, hl⟩ := ih hlt hn
        exact ⟨rest, heq, hl.cons⟩
      · rename_i hge
        have hn' : n ≤ (read ++ b :: bs).length := by omega
        rw [List.take_append_of_le_length hn', List.drop_append_of_le_length hn']
        exact ⟨_, rfl, unread_leaves.cons⟩
    | failure kind =>
      rw [ready] at hn ⊢
      rw [readLoop, later]
      split
      · rename_i hk
        rw [if_pos hk] at hn
        obtain ⟨rest, heq, hl⟩ := ih h hn
        exact ⟨rest, heq, hl.cons⟩
      · rename_i hk
        rw [if_neg hk, List.append_nil] at hn
        omega

theorem readLoop_eof (h : (read ++ ready arrivals).length < n) (hl : later arrivals = []) :
    readLoop n read arrivals =
      (if (read ++ ready arrivals).isEmpty then .ok none
        else .error (.subprocess s!"truncated read: got {
          (read ++ ready arrivals).length} of {n} bytes before EOF"), []) := by
  induction arrivals generalizing read with
  | nil => rw [ready, List.append_nil, readLoop]
  | cons a arrivals ih =>
    cases a with
    | chunk b bs =>
      rw [append_ready_chunk] at h ⊢
      rw [readLoop_chunk_short h]
      exact ih h hl
    | failure kind =>
      rw [later] at hl
      split at hl
      · rename_i hk
        rw [ready, if_pos hk] at h ⊢
        rw [readLoop, if_pos hk]
        exact ih h hl
      · cases hl

theorem readLoop_timeout (h : (read ++ ready arrivals).length < n) (hl : later arrivals = s :: ss) :
    ∃ kind rest, readLoop n read arrivals = (.error (.io kind), rest) ∧
      .failure kind ∈ arrivals ∧ Leaves arrivals rest s ss := by
  induction arrivals generalizing read with
  | nil => cases hl
  | cons a arrivals ih =>
    cases a with
    | chunk b bs =>
      rw [append_ready_chunk] at h
      rw [readLoop_chunk_short h]
      obtain ⟨kind, rest, heq, hmem, hleft⟩ := ih h hl
      exact ⟨kind, rest, heq, List.mem_cons_of_mem _ hmem, hleft.cons⟩
    | failure kind =>
      rw [later] at hl
      rw [readLoop]
      split at hl
      · rename_i hk
        rw [ready, if_pos hk] at h
        rw [if_pos hk]
        obtain ⟨kind', rest, heq, hmem, hleft⟩ := ih h hl
        exact ⟨kind', rest, heq, List.mem_cons_of_mem _ hmem, hleft.cons⟩
      · rename_i hk
        rw [if_neg hk]
        obtain ⟨rfl, rfl⟩ := List.cons.inj hl
        exact ⟨kind, arrivals, rfl, List.mem_cons_self, rfl, rfl, fun _ => List.mem_cons_of_mem _⟩

theorem readExactOrEof_enough (hn : n ≤ (ready arrivals).length) :
    ∃ rest, readExactOrEof n arrivals = (.ok (some ((ready arrivals).take n)), rest) ∧
      Leaves arrivals rest ((ready arrivals).drop n) (later arrivals) := by
  rw [readExactOrEof]
  split
  · rename_i h0
    subst h0
    exact ⟨arrivals, rfl, rfl, rfl, fun _ hk => hk⟩
  · rename_i h0
    exact @readLoop_enough n [] _ (Nat.pos_of_ne_zero h0) hn

theorem readExactOrEof_eof (h : (ready arrivals).length < n) (hl : later arrivals = []) :
    readExactOrEof n arrivals =
      (if (ready arrivals).isEmpty then .ok none
        else .error (.subprocess s!"truncated read: got {
          (ready arrivals).length} of {n} bytes before EOF"), []) := by
  rw [readExactOrEof, if_neg (by omega)]
  exact @readLoop_eof n [] _ h hl

theorem readExactOrEof_timeout (h : (ready arrivals).length < n) (hl : later arrivals = s :: ss) :
    ∃ kind rest, readExactOrEof n arrivals = (.error (.io kind), rest) ∧
      .failure kind ∈ arrivals ∧ Leaves arrivals rest s ss := by
  rw [readExactOrEof, if_neg (by omega)]
  exact @readLoop_timeout n [] _ _ _ h hl

end

/-! ### One frame -/

section

variable {hmac : Hmac} {key : Hash32} {lengthBytes body s : Bytes} {arrivals : List Arrival}
  {ss : List Bytes}

/-- The bytes `lengthBytes` tell the length of the body, and it is one that a frame may have. -/
def Frames (lengthBytes body : Bytes) : Prop :=
  lengthBytes.length = 4 ∧ beNat lengthBytes = body.length ∧ body.length ≤ maxFrameBodySize

theorem readFrame_whole (hf : Frames lengthBytes body)
    (h : ready arrivals = lengthBytes ++ body ++ s) :
    ∃ rest, readFrame arrivals = (.ok (some body), rest) ∧
      Leaves arrivals rest s (later arrivals) := by
  obtain ⟨h4, hlen, hmax⟩ := hf
  obtain ⟨rest, heq, hleft⟩ := @readExactOrEof_enough 4 arrivals
    (by rw [h, List.length_append, List.length_append]; omega)
  have hready : ready rest = body ++ s := by
    rw [hleft.ready_eq, h, List.append_assoc, List.drop_left' h4]
  obtain ⟨rest', heq', hleft'⟩ := @readExactOrEof_enough body.length rest
    (by rw [hready, List.length_append]; omega)
  rw [hready, List.take_left, List.drop_left, hleft.later_eq] at *
  rw [readFrame, heq, h, List.append_assoc, List.take_left' h4]
  simp only [hlen]
  rw [if_neg (by omega), heq']
  exact ⟨rest', rfl, hleft.trans hleft'⟩

theorem readFrame_error {e : BridgeError} {rest : List Arrival}
    (h : readExactOrEof 4 arrivals = (.error e, rest)) : readFrame arrivals = (.error e, rest) := by
  rw [readFrame, h]

theorem readFrame_body_error {e : BridgeError} {rest rest' : List Arrival}
    (h : readExactOrEof 4 arrivals = (.ok (some lengthBytes), rest'))
    (hmax : ¬ beNat lengthBytes > maxFrameBodySize)
    (hbody : readExactOrEof (beNat lengthBytes) rest' = (.error e, rest)) :
    readFrame arrivals = (.error e, rest) := by
  rw [readFrame, h]
  simp only [hmax, if_false, hbody]

theorem readFrame_body_none {rest rest' : List Arrival}
    (h : readExactOrEof 4 arrivals = (.ok (some lengthBytes), rest'))
    (hmax : ¬ beNat lengthBytes > maxFrameBodySize)
    (hbody : readExactOrEof (beNat lengthBytes) rest' = (.ok none, rest)) :
    readFrame arrivals =
      (.error (.subprocess "EOF after length prefix; no body bytes"), rest) := by
  rw [readFrame, h]
  simp only [hmax, if_false, hbody]

theorem readFedFrame_whole (hf : Frames lengthBytes body)
    (h : ready arrivals = lengthBytes ++ body ++ s) :
    ∃ rest, readFedFrame hmac key arrivals = ((decodeFrameBody hmac key body).map some, rest) ∧
      Leaves arrivals rest s (later arrivals) := by
  obtain ⟨rest, heq, hleft⟩ := readFrame_whole hf h
  refine ⟨rest, ?_, hleft⟩
  rw [readFedFrame, heq]

theorem readFedFrame_timeout {kind : ErrorKind} {rest : List Arrival} (hk : kind.isTimeout)
    (h : readFrame arrivals = (.error (.io kind), rest)) :
    readFedFrame hmac key arrivals = (.ok none, rest) := by
  rw [readFedFrame, h]
  simp only [hk, if_true]

theorem readFedFrame_subprocess {what : String} {rest : List Arrival}
    (h : readFrame arrivals = (.error (.subprocess what), rest)) :
    readFedFrame hmac key arrivals = (.error (.err (.subprocess what)), rest) := by
  rw [readFedFrame, h]

/-- What a read makes of the bytes before the next timeout: they begin with a frame, or they are too
few for one, or it fails. -/
theorem readFedFrame_cases {r : Except (Fault BridgeError) (Option Message)} {rest : List Arrival}
    (ht : OnlyTimeouts arrivals) (h : readFedFrame hmac key arrivals = (r, rest)) :
    (∃ lengthBytes body s, Frames lengthBytes body ∧ ready arrivals = lengthBytes ++ body ++ s ∧
        r = (decodeFrameBody hmac key body).map some ∧ Leaves arrivals rest s (later arrivals)) ∨
      (r = .ok none ∧ ∃ s ss, later arrivals = s :: ss ∧ Leaves arrivals rest s ss) ∨
      (r = .ok none ∧ ready arrivals = [] ∧ later arrivals = [] ∧ rest = []) ∨
      ((∃ e, r = .error e) ∧ ready arrivals ≠ []) := by
  by_cases hwhole : ∃ lengthBytes body s, Frames lengthBytes body ∧
      ready arrivals = lengthBytes ++ body ++ s
  · obtain ⟨lengthBytes, body, s, hf, hready⟩ := hwhole
    obtain ⟨rest', heq, hleft⟩ := readFedFrame_whole hf hready
    obtain ⟨rfl, rfl⟩ := Prod.mk.inj (h.symm.trans heq)
    exact .inl ⟨lengthBytes, body, s, hf, hready, rfl, hleft⟩
  refine .inr ?_
  by_cases h4 : (ready arrivals).length < 4
  · cases hl : later arrivals with
    | nil =>
      have heq := readExactOrEof_eof h4 hl
      by_cases hempty : ready arrivals = []
      · rw [readFedFrame, readFrame, heq, hempty] at h
        obtain ⟨rfl, rfl⟩ := Prod.mk.inj h
        exact .inr (.inl ⟨rfl, hempty, rfl, rfl⟩)
      · rw [if_neg (by simpa using hempty)] at heq
        rw [readFedFrame_subprocess (readFrame_error heq)] at h
        exact .inr (.inr ⟨⟨_, (Prod.mk.inj h).1.symm⟩, hempty⟩)
    | cons s ss =>
      obtain ⟨kind, rest', heq, hmem, hleft⟩ := readExactOrEof_timeout h4 hl
      rw [readFedFrame_timeout (ht kind hmem) (readFrame_error heq)] at h
      obtain ⟨rfl, rfl⟩ := Prod.mk.inj h
      exact .inl ⟨rfl, s, ss, rfl, hleft⟩
  · have hne : ready arrivals ≠ [] := fun hnil => h4 (by rw [hnil]; decide)
    obtain ⟨rest₁, heq, hleft⟩ := readExactOrEof_enough (Nat.le_of_not_lt h4)
    by_cases hmax : beNat ((ready arrivals).take 4) > maxFrameBodySize
    · rw [readFedFrame, readFrame, heq] at h
      simp only [hmax, if_true] at h
      exact .inr (.inr ⟨⟨_, (Prod.mk.inj h).1.symm⟩, hne⟩)
    -- the length has been read, and the body is what is missing
    have hshort : (ready rest₁).length < beNat ((ready arrivals).take 4) := by
      by_contra hge
      rw [hleft.ready_eq] at hge
      refine hwhole ⟨(ready arrivals).take 4,
        ((ready arrivals).drop 4).take (beNat ((ready arrivals).take 4)),
        ((ready arrivals).drop 4).drop (beNat ((ready arrivals).take 4)), ⟨?_, ?_, ?_⟩, ?_⟩
      · rw [List.length_take]
        omega
      · rw [List.length_take]
        omega
      · rw [List.length_take]
        omega
      · rw [List.append_assoc, List.take_append_drop, List.take_append_drop]
    cases hl : later arrivals with
    | nil =>
      have heof := readExactOrEof_eof hshort (hleft.later_eq.trans hl)
      by_cases hempty : (ready rest₁).isEmpty
      · rw [if_pos hempty] at heof
        rw [readFedFrame_subprocess (readFrame_body_none heq hmax heof)] at h
        exact .inr (.inr ⟨⟨_, (Prod.mk.inj h).1.symm⟩, hne⟩)
      · rw [if_neg hempty] at heof
        rw [readFedFrame_subprocess (readFrame_body_error heq hmax heof)] at h
        exact .inr (.inr ⟨⟨_, (Prod.mk.inj h).1.symm⟩, hne⟩)
    | cons s ss =>
      obtain ⟨kind, rest', heq', hmem, hleft'⟩ :=
        readExactOrEof_timeout hshort (hleft.later_eq.trans hl)
      rw [readFedFrame_timeout (ht kind (hleft.subset kind hmem))
        (readFrame_body_error heq hmax heq')] at h
      obtain ⟨rfl, rfl⟩ := Prod.mk.inj h
      exact .inl ⟨rfl, s, ss, rfl, hleft.trans hleft'⟩

end

end Myco.Bridge
