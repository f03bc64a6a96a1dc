import Myco.Lib.Grows
import Myco.Operator.SubstrateClient

/-!
# Requests, timers and answers in any order

A `SubstrateClient` and a substrate that answers every request it is sent with one frame, when it
likes; the pipe hands the bytes over in chunks that end anywhere. `Occurs` is what such a session
is for the waiters: requests, timers, and one answer a request.

An answer whose waiter is gone fails all others. So an answer settles its own request and no other
as long as none comes late while a request waits (`answers_settle_own_iff`).
-/

namespace Myco.Operator

open Myco.Lib Myco.Canonical Myco.Bridge

/-! ### Sessions -/

/-- The client, the requests that the substrate has not answered, and the bytes on the pipe. -/
structure Session where
  client : SubstrateClient := {}
  owed : List Int := []
  pipe : Bytes := []

inductive Exchange (hmac : Hmac) (key : Hash32) : Session → List Happened → Session → Prop
  | request {s : Session} {key' : Hash32} {messageType : Ts.Str}
      {payload : List (Ts.Str × Ts.Value)} {requestId : Int} {wire : Bytes} {c : SubstrateClient}
      (h : s.client.sendRequest hmac key' messageType payload = (.ok (requestId, wire), c)) :
      Exchange hmac key s [.sent requestId] { s with client := c, owed := requestId :: s.owed }
  | refused {s : Session} {key' : Hash32} {messageType : Ts.Str}
      {payload : List (Ts.Str × Ts.Value)} {e : ClientError} {c : SubstrateClient}
      (h : s.client.sendRequest hmac key' messageType payload = (.error e, c)) :
      Exchange hmac key s [.refused e] { s with client := c }
  -- a timer that was cleared does not run
  | timer {s : Session} {requestId : Int} {messageType : Ts.Str} (elapsedMs : Nat)
      (h : (requestId, messageType) ∈ s.client.pendingResponses) :
      Exchange hmac key s
        [.timedOut requestId (s.client.onTimer requestId messageType elapsedMs).1]
        { s with client := (s.client.onTimer requestId messageType elapsedMs).2 }
  | answer {s : Session} {frame wire : Bytes} {m : Message} (howed : m.target ∈ s.owed)
      (hm : decodeFrameBody hmac key frame = .ok m) (hw : encodeFrame frame = .ok wire) :
      Exchange hmac key s []
        { s with owed := s.owed.erase m.target, pipe := s.pipe ++ wire }
  | data {s : Session} {chunk ahead : Bytes} (h : s.pipe = chunk ++ ahead) :
      Exchange hmac key s (s.client.onData hmac key chunk).1
        { s with client := (s.client.onData hmac key chunk).2, pipe := ahead }

/-! ### What has happened -/

def timedOutIn (hs : List Happened) : List Int :=
  hs.filterMap fun
    | .timedOut k _ => some k
    | _ => none

def answeredIn (hs : List Happened) : List Int :=
  hs.filterMap fun
    | .arrived m _ => some m.target
    | _ => none

/-- The request was sent, and neither its timer ran nor its answer came. -/
def Waits (hs : List Happened) (k : Int) : Prop :=
  .sent k ∈ hs ∧ k ∉ timedOutIn hs ∧ k ∉ answeredIn hs

/-- An answer that comes before the timer of its request settles it, which nothing has done
before, and no answer settles another request. -/
def OwnAnswers (hs : List Happened) : Prop :=
  ∀ pre m ss post, hs = pre ++ .arrived m ss :: post →
    (m.target ∉ timedOutIn pre →
      ss = [(m.target, m.outcome)] ∧ ∀ h ∈ pre, ∀ r, (m.target, r) ∉ h.settled) ∧
    ∀ k r, (k, r) ∈ ss → .sent k ∈ pre → k = m.target

/-- No answer comes after the timer of its request while another request waits. -/
def NoneLate (hs : List Happened) : Prop :=
  ∀ pre m ss post, hs = pre ++ .arrived m ss :: post →
    m.target ∈ timedOutIn pre → ∀ k, ¬ Waits pre k

/-- What arrives answers a request, for the first time. -/
def OneAnswer (hs : List Happened) : Prop :=
  ∀ pre m ss post, hs = pre ++ .arrived m ss :: post →
    .sent m.target ∈ pre ∧ m.target ∉ answeredIn pre

/-! ### Snoc -/

section

variable {hs : List Happened} {h : Happened} {k : Int}

/-- Of what arrived, `P`. -/
def OnArrival (P : List Happened → Message → List Settlement → Prop) (pre : List Happened)
    (h : Happened) : Prop :=
  ∀ m ss, h = .arrived m ss → P pre m ss

theorem forall_arrival_iff {P : List Happened → Message → List Settlement → Prop} :
    (∀ pre m ss post, hs = pre ++ .arrived m ss :: post → P pre m ss) ↔
      ∀ pre h post, hs = pre ++ h :: post → OnArrival P pre h :=
  ⟨fun h pre _ post he m ss hm => h pre m ss post (hm ▸ he),
    fun h pre m ss post he => h pre _ post he m ss rfl⟩

theorem oneAnswer_concat : OneAnswer (hs ++ [h]) ↔ OneAnswer hs ∧
    OnArrival (fun pre m _ => .sent m.target ∈ pre ∧ m.target ∉ answeredIn pre) hs h := by
  unfold OneAnswer
  rw [forall_arrival_iff, forall_split_concat, ← forall_arrival_iff]

theorem noneLate_concat : NoneLate (hs ++ [h]) ↔ NoneLate hs ∧
    OnArrival (fun pre m _ => m.target ∈ timedOutIn pre → ∀ k, ¬ Waits pre k) hs h := by
  unfold NoneLate
  rw [forall_arrival_iff, forall_split_concat, ← forall_arrival_iff]

@[simp] theorem timedOutIn_concat {ss : List Settlement} {t : Int} :
    timedOutIn (hs ++ [.timedOut t ss]) = timedOutIn hs ++ [t] := by
  simp only [timedOutIn, List.filterMap_append]
  rfl

@[simp] theorem answeredIn_concat {m : Message} {ss : List Settlement} :
    answeredIn (hs ++ [.arrived m ss]) = answeredIn hs ++ [m.target] := by
  simp only [answeredIn, List.filterMap_append]
  rfl

theorem timedOutIn_other (ht : ∀ t ss, h ≠ .timedOut t ss) :
    timedOutIn (hs ++ [h]) = timedOutIn hs := by
  unfold timedOutIn
  rw [List.filterMap_append]
  cases h with
  | timedOut t ss => exact absurd rfl (ht t ss)
  | sent | refused | arrived | failed => exact List.append_nil _

theorem answeredIn_other (ht : ∀ m ss, h ≠ .arrived m ss) :
    answeredIn (hs ++ [h]) = answeredIn hs := by
  unfold answeredIn
  rw [List.filterMap_append]
  cases h with
  | arrived m ss => exact absurd rfl (ht m ss)
  | sent | refused | timedOut | failed => exact List.append_nil _

theorem sent_of_answered (ha : OneAnswer hs) (hk : k ∈ answeredIn hs) : .sent k ∈ hs := by
  obtain ⟨g, hg, hgk⟩ := List.mem_filterMap.1 hk
  cases g with
  | arrived m ss =>
    obtain rfl := Option.some.inj hgk
    obtain ⟨pre, post, rfl⟩ := List.append_of_mem hg
    exact List.mem_append_left _ (ha pre m ss post rfl).1
  | sent | refused | timedOut | failed => cases hgk

theorem sent_mem_concat : .sent k ∈ hs ++ [h] ↔ .sent k ∈ hs ∨ h = .sent k := by
  rw [List.mem_append, List.mem_singleton, eq_comm (a := h)]

end

/-! ### What occurs to the waiters -/

/-- One happening; what the reader holds does not matter. -/
inductive Occurs : SubstrateClient → Happened → SubstrateClient → Prop
  | sent {c : SubstrateClient} (messageType : Ts.Str) (q : FrameReader) :
      Occurs c (.sent c.nextRequestId)
        { { c with nextRequestId := c.nextRequestId + 1 }.registerWaiter c.nextRequestId
          messageType with reader := q }
  | thrown {c : SubstrateClient} (e : ClientError) (q : FrameReader) :
      Occurs c (.refused e) { c with reader := q }
  | unsent {c : SubstrateClient} (e : ClientError) (q : FrameReader) :
      Occurs c (.refused e) { c with nextRequestId := c.nextRequestId + 1, reader := q }
  | unwritten {c : SubstrateClient} (messageType : Ts.Str) (e : ClientError) (q : FrameReader) :
      Occurs c (.refused e)
        { { c with nextRequestId := c.nextRequestId + 1 }.registerWaiter c.nextRequestId
          messageType with reader := q }
  | timer {c : SubstrateClient} {k : Int} {r : Except ClientError Message} (q : FrameReader)
      (hk : k ∈ c.pendingIds) :
      Occurs c (.timedOut k [(k, r)]) { c.deleteWaiter k with reader := q }
  | arrived {c : SubstrateClient} (m : Message) (q : FrameReader) :
      Occurs c (.arrived m (c.routeIncoming m).1) { (c.routeIncoming m).2 with reader := q }

section

variable {c d : SubstrateClient} {hs : List Happened} {h : Happened} {k : Int}

/-- Every id that is known of is below the next one, and nothing that waits has been settled. -/
structure Ids (hs : List Happened) (c : SubstrateClient) : Prop where
  pending : ∀ k ∈ c.pendingIds, k < c.nextRequestId
  sent : ∀ k, .sent k ∈ hs → k < c.nextRequestId
  settled : ∀ h ∈ hs, ∀ k r, (k, r) ∈ h.settled → k < c.nextRequestId ∧ k ∉ c.pendingIds
  timedOut : ∀ k ∈ timedOutIn hs, k < c.nextRequestId

theorem Ids.register {messageType : Ts.Str} {q : FrameReader} (hi : Ids hs c)
    (hh : h.settled = []) (ht : ∀ t ss, h ≠ .timedOut t ss)
    (hsent : ∀ k, h = .sent k → k = c.nextRequestId) (hd : d =
      { c with nextRequestId := c.nextRequestId + 1 }.registerWaiter c.nextRequestId messageType) :
    Ids (hs ++ [h]) { d with reader := q } := by
  have hnext : d.nextRequestId = c.nextRequestId + 1 := hd ▸ rfl
  have hpend : ∀ k, k ∈ d.pendingIds ↔ k ∈ c.pendingIds ∨ k = c.nextRequestId := fun k => by
    rw [hd, SubstrateClient.mem_pendingIds_registerWaiter]
    rfl
  refine ⟨fun k hk => ?_, fun k hk => ?_, fun g hg k r hr => ?_, fun k hk => ?_⟩
  · show k < d.nextRequestId
    rcases (hpend k).1 hk with hk | rfl
    · have := hi.pending k hk
      omega
    · omega
  · show k < d.nextRequestId
    rcases sent_mem_concat.1 hk with hk | hk
    · have := hi.sent k hk
      omega
    · have := hsent k hk
      omega
  · rcases List.mem_append.1 hg with hg | hg
    · obtain ⟨h1, h2⟩ := hi.settled g hg k r hr
      refine ⟨show k < d.nextRequestId by omega, fun hk => ?_⟩
      rcases (hpend k).1 hk with hk | rfl
      · exact h2 hk
      · omega
    · rw [List.mem_singleton.1 hg, hh] at hr
      cases hr
  · rw [timedOutIn_other ht] at hk
    have := hi.timedOut k hk
    show k < d.nextRequestId
    omega

/-- A happening that registers no waiter: the ids stay, and what it settles waited before. -/
theorem Ids.settle (hi : Ids hs c) (hnext : c.nextRequestId ≤ d.nextRequestId)
    (hpend : ∀ k ∈ d.pendingIds, k ∈ c.pendingIds) (hsent : ∀ k, h ≠ .sent k)
    (hsettled : ∀ k r, (k, r) ∈ h.settled → k ∈ c.pendingIds ∧ k ∉ d.pendingIds)
    (ht : ∀ t ss, h = .timedOut t ss → t ∈ c.pendingIds) : Ids (hs ++ [h]) d := by
  refine ⟨fun k hk => ?_, fun k hk => ?_, fun g hg k r hr => ?_, fun k hk => ?_⟩
  · have := hi.pending k (hpend k hk)
    omega
  · rcases sent_mem_concat.1 hk with hk | hk
    · have := hi.sent k hk
      omega
    · exact absurd hk (hsent k)
  · rcases List.mem_append.1 hg with hg | hg
    · obtain ⟨h1, h2⟩ := hi.settled g hg k r hr
      exact ⟨by omega, fun hk => h2 (hpend k hk)⟩
    · rw [List.mem_singleton.1 hg] at hr
      obtain ⟨h1, h2⟩ := hsettled k r hr
      have := hi.pending k h1
      exact ⟨by omega, h2⟩
  · by_cases htimer : ∃ t ss, h = .timedOut t ss
    · obtain ⟨t, ss, rfl⟩ := htimer
      rw [timedOutIn_concat] at hk
      rcases List.mem_append.1 hk with hk | hk
      · have := hi.timedOut k hk
        omega
      · have := hi.pending t (ht t ss rfl)
        rw [List.mem_singleton.1 hk]
        omega
    · rw [timedOutIn_other fun t ss he => htimer ⟨t, ss, he⟩] at hk
      have := hi.timedOut k hk
      omega

theorem settled_routeIncoming {m : Message} {r : Except ClientError Message}
    (hk : (k, r) ∈ (c.routeIncoming m).1) :
    k ∈ c.pendingIds ∧ k ∉ (c.routeIncoming m).2.pendingIds := by
  by_cases ht : m.target ∈ c.pendingIds
  · rw [SubstrateClient.routeIncoming_pending ht] at hk ⊢
    obtain ⟨rfl, -⟩ := Prod.mk.inj (List.mem_singleton.1 hk)
    exact ⟨ht, fun h => (SubstrateClient.mem_pendingIds_deleteWaiter.1 h).2 rfl⟩
  · rw [SubstrateClient.routeIncoming_late ht] at hk ⊢
    obtain ⟨k', hk', he⟩ := List.mem_map.1 hk
    obtain ⟨rfl, -⟩ := Prod.mk.inj he
    exact ⟨hk', List.not_mem_nil⟩

theorem pendingIds_routeIncoming {m : Message} (hk : k ∈ (c.routeIncoming m).2.pendingIds) :
    k ∈ c.pendingIds := by
  by_cases ht : m.target ∈ c.pendingIds
  · rw [SubstrateClient.routeIncoming_pending ht] at hk
    exact (SubstrateClient.mem_pendingIds_deleteWaiter.1 hk).1
  · rw [SubstrateClient.routeIncoming_late ht] at hk
    cases hk

theorem nextRequestId_routeIncoming {m : Message} :
    (c.routeIncoming m).2.nextRequestId = c.nextRequestId := by
  by_cases ht : m.target ∈ c.pendingIds
  · rw [SubstrateClient.routeIncoming_pending ht]
    rfl
  · rw [SubstrateClient.routeIncoming_late ht]
    rfl

theorem Ids.step (hi : Ids hs c) (ho : Occurs c h d) : Ids (hs ++ [h]) d := by
  cases ho with
  | sent mt q =>
    exact hi.register rfl (by rintro _ _ ⟨⟩) (fun k hk => (Happened.sent.inj hk).symm) rfl
  | thrown e q =>
    exact hi.settle (Int.le_refl _) (fun _ hk => hk) (by rintro _ ⟨⟩) (by rintro _ _ ⟨⟩)
      (by rintro _ _ ⟨⟩)
  | unsent e q =>
    refine hi.settle ?_ (fun _ hk => hk) (by rintro _ ⟨⟩) (by rintro _ _ ⟨⟩) (by rintro _ _ ⟨⟩)
    show c.nextRequestId ≤ c.nextRequestId + 1
    omega
  | unwritten mt e q => exact hi.register rfl (by rintro _ _ ⟨⟩) (by rintro _ ⟨⟩) rfl
  | @timer t _ q hk =>
    refine hi.settle (Int.le_refl _)
      (fun k hk => (SubstrateClient.mem_pendingIds_deleteWaiter.1 hk).1) (by rintro _ ⟨⟩) ?_ ?_
    · intro k r hr
      obtain ⟨rfl, -⟩ := Prod.mk.inj (List.mem_singleton.1 hr)
      exact ⟨hk, fun h => (SubstrateClient.mem_pendingIds_deleteWaiter.1 h).2 rfl⟩
    · intro t ss he
      cases he
      exact hk
  | arrived m q =>
    exact hi.settle (Int.le_of_eq nextRequestId_routeIncoming.symm)
      (fun k hk => pendingIds_routeIncoming hk) (by rintro _ ⟨⟩)
      (fun k r hr => settled_routeIncoming hr) (by rintro _ _ ⟨⟩)

/-- What a path of one more happening goes through. -/
theorem path_concat (hp : Path Occurs {} (hs ++ [h]) d) :
    ∃ c, Path Occurs {} hs c ∧ Occurs c h d := by
  obtain ⟨c, h1, h2⟩ := Path.append_iff.1 hp
  exact ⟨c, h1, Path.singleton_iff.1 h2⟩

theorem ids_of_path (hp : Path Occurs {} hs c) : Ids hs c := by
  induction hs using List.reverseRecOn generalizing c with
  | nil =>
    obtain rfl := Path.nil_iff.1 hp
    exact ⟨by rintro _ ⟨⟩, by rintro _ ⟨⟩, by rintro _ ⟨⟩, by rintro _ ⟨⟩⟩
  | append_singleton hs h ih =>
    obtain ⟨b, hb, ho⟩ := path_concat hp
    exact (ih hb).step ho

/-- A request that was sent waits just as long as neither its timer nor its answer has come. -/
def Held (hs : List Happened) (c : SubstrateClient) : Prop :=
  ∀ k, .sent k ∈ hs → (k ∈ c.pendingIds ↔ k ∉ timedOutIn hs ∧ k ∉ answeredIn hs)

theorem Held.register {messageType : Ts.Str} {q : FrameReader} (hh : Held hs c) (hi : Ids hs c)
    (ha : OneAnswer hs) (ht : ∀ t ss, h ≠ .timedOut t ss) (hm : ∀ m ss, h ≠ .arrived m ss)
    (hsent : ∀ k, h = .sent k → k = c.nextRequestId) (hd : d =
      { c with nextRequestId := c.nextRequestId + 1 }.registerWaiter c.nextRequestId messageType) :
    Held (hs ++ [h]) { d with reader := q } := by
  intro k hk
  have hpend : k ∈ d.pendingIds ↔ k ∈ c.pendingIds ∨ k = c.nextRequestId := by
    rw [hd, SubstrateClient.mem_pendingIds_registerWaiter]
    rfl
  rw [timedOutIn_other ht, answeredIn_other hm]
  show k ∈ d.pendingIds ↔ _
  rw [hpend]
  rcases sent_mem_concat.1 hk with hk | hk
  · have hlt := hi.sent k hk
    rw [or_iff_left (by omega)]
    exact hh k hk
  · obtain rfl := hsent k hk
    refine ⟨fun _ => ⟨fun hto => ?_, fun han => ?_⟩, fun _ => .inr rfl⟩
    · exact absurd (hi.timedOut _ hto) (Int.lt_irrefl _)
    · exact absurd (hi.sent _ (sent_of_answered ha han)) (Int.lt_irrefl _)

theorem Held.step (hh : Held hs c) (hi : Ids hs c) (ha : OneAnswer (hs ++ [h]))
    (hn : NoneLate (hs ++ [h])) (ho : Occurs c h d) : Held (hs ++ [h]) d := by
  obtain ⟨ha', hfirst⟩ := oneAnswer_concat.1 ha
  obtain ⟨-, hlate⟩ := noneLate_concat.1 hn
  cases ho with
  | sent mt q =>
    exact hh.register hi ha' (by rintro _ _ ⟨⟩) (by rintro _ _ ⟨⟩)
      (fun k hk => (Happened.sent.inj hk).symm) rfl
  | unwritten mt e q =>
    exact hh.register hi ha' (by rintro _ _ ⟨⟩) (by rintro _ _ ⟨⟩) (by rintro _ ⟨⟩) rfl
  | thrown e q | unsent e q =>
    intro k hk
    rw [timedOutIn_other (by rintro _ _ ⟨⟩), answeredIn_other (by rintro _ _ ⟨⟩)]
    rcases sent_mem_concat.1 hk with hk | ⟨⟨⟩⟩
    exact hh k hk
  | @timer t _ q ht =>
    intro k hk
    rcases sent_mem_concat.1 hk with hk | ⟨⟨⟩⟩
    rw [timedOutIn_concat, answeredIn_other (by rintro _ _ ⟨⟩), List.mem_append,
      List.mem_singleton]
    show k ∈ (c.deleteWaiter t).pendingIds ↔ _
    rw [SubstrateClient.mem_pendingIds_deleteWaiter, hh k hk]
    tauto
  | arrived m q =>
    intro k hk
    rcases sent_mem_concat.1 hk with hk | ⟨⟨⟩⟩
    rw [answeredIn_concat, timedOutIn_other (by rintro _ _ ⟨⟩), List.mem_append,
      List.mem_singleton]
    show k ∈ (c.routeIncoming m).2.pendingIds ↔ _
    obtain ⟨hsent, hno⟩ := hfirst m _ rfl
    by_cases ht : m.target ∈ c.pendingIds
    · rw [SubstrateClient.routeIncoming_pending ht]
      dsimp only
      rw [SubstrateClient.mem_pendingIds_deleteWaiter, hh k hk]
      tauto
    · -- the answer is late, so no request was waiting
      have hto : m.target ∈ timedOutIn hs := by
        by_contra hc
        exact ht ((hh _ hsent).2 ⟨hc, hno⟩)
      have hw : ¬ Waits hs k := hlate m _ rfl hto k
      rw [SubstrateClient.routeIncoming_late ht]
      refine ⟨fun h => absurd h List.not_mem_nil, fun ⟨h1, h2⟩ => absurd ⟨hk, h1, fun h => ?_⟩ hw⟩
      exact h2 (.inl h)

theorem held_of_path (hp : Path Occurs {} hs c) (ha : OneAnswer hs) (hn : NoneLate hs) :
    Held hs c := by
  induction hs using List.reverseRecOn generalizing c with
  | nil => rintro _ ⟨⟩
  | append_singleton hs h ih =>
    obtain ⟨b, hb, ho⟩ := path_concat hp
    exact (ih hb (oneAnswer_concat.1 ha).1 (noneLate_concat.1 hn).1).step (ids_of_path hb) ha hn ho

/-- While no answer has come late, a request that waits has its waiter. -/
theorem Waits.pending (hw : Waits hs k) (hh : Held hs c) : k ∈ c.pendingIds :=
  (hh k hw.1).2 hw.2

theorem ownAnswers_concat : OwnAnswers (hs ++ [h]) ↔ OwnAnswers hs ∧ OnArrival (fun pre m ss =>
    (m.target ∉ timedOutIn pre →
      ss = [(m.target, m.outcome)] ∧ ∀ h ∈ pre, ∀ r, (m.target, r) ∉ h.settled) ∧
    ∀ k r, (k, r) ∈ ss → .sent k ∈ pre → k = m.target) hs h := by
  unfold OwnAnswers
  rw [forall_arrival_iff, forall_split_concat, ← forall_arrival_iff]

/-- One arrival settles its own request and no other just if it is not late while one waits. -/
theorem ownAnswer_iff {m : Message} {q : FrameReader} {ss : List Settlement} (hh : Held hs c)
    (hi : Ids hs c) (hsent : .sent m.target ∈ hs) (hno : m.target ∉ answeredIn hs)
    (hss : ss = ({ c with reader := q }.routeIncoming m).1) :
    ((m.target ∉ timedOutIn hs →
      ss = [(m.target, m.outcome)] ∧ ∀ h ∈ hs, ∀ r, (m.target, r) ∉ h.settled) ∧
    ∀ k r, (k, r) ∈ ss → .sent k ∈ hs → k = m.target) ↔
      (m.target ∈ timedOutIn hs → ∀ k, ¬ Waits hs k) := by
  by_cases ht : m.target ∈ c.pendingIds
  · obtain ⟨hto, -⟩ := (hh _ hsent).1 ht
    have hroute : ss = [(m.target, m.outcome)] :=
      hss.trans (congrArg Prod.fst (SubstrateClient.routeIncoming_pending (c := { c with reader := q }) ht))
    refine ⟨fun _ h => absurd h hto, fun _ => ⟨fun _ => ⟨hroute, fun h hh r hr => ?_⟩, ?_⟩⟩
    · exact (hi.settled h hh _ r hr).2 ht
    · intro k r hr _
      rw [hroute] at hr
      exact (Prod.mk.inj (List.mem_singleton.1 hr)).1
  · have hto : m.target ∈ timedOutIn hs := by
      by_contra hc
      exact ht ((hh _ hsent).2 ⟨hc, hno⟩)
    have hroute : ss = c.pendingIds.map (·, .error m.unsolicited) :=
      hss.trans (congrArg Prod.fst (SubstrateClient.routeIncoming_late (c := { c with reader := q }) ht))
    refine ⟨fun h _ k hw => ?_, fun h => ⟨fun hc => absurd hto hc, fun k r hr hk => ?_⟩⟩
    · have hk := h.2 k (.error m.unsolicited) (by
        rw [hroute]
        exact List.mem_map.2 ⟨k, hw.pending hh, rfl⟩) hw.1
      exact hw.2.1 (hk ▸ hto)
    · rw [hroute] at hr
      obtain ⟨k', hk', he⟩ := List.mem_map.1 hr
      obtain ⟨rfl, -⟩ := Prod.mk.inj he
      exact absurd ⟨hk, (hh k' hk).1 hk'⟩ (h hto k')

theorem ownAnswers_iff (hp : Path Occurs {} hs c) (ha : OneAnswer hs) :
    OwnAnswers hs ↔ NoneLate hs := by
  induction hs using List.reverseRecOn generalizing c with
  | nil => exact ⟨fun _ => by rintro (_ | _) _ _ _ ⟨⟩, fun _ => by rintro (_ | _) _ _ _ ⟨⟩⟩
  | append_singleton hs h ih =>
    obtain ⟨b, hb, ho⟩ := path_concat hp
    obtain ⟨ha', hfirst⟩ := oneAnswer_concat.1 ha
    rw [ownAnswers_concat, noneLate_concat, ih hb ha']
    refine and_congr_right fun hn => forall_congr' fun m => forall_congr' fun ss =>
      forall_congr' fun hm => ?_
    obtain ⟨hsent, hno⟩ := hfirst m ss hm
    refine ownAnswer_iff (q := b.reader) (held_of_path hb ha' hn) (ids_of_path hb) hsent hno ?_
    subst hm
    cases ho
    rfl

end

/-! ### From the bytes to what occurs -/

section

variable {hmac : Hmac} {key : Hash32} {c : SubstrateClient} {owed : List Int} {pipe : Bytes}
  {frames : List (Bytes × Message)} {hs : List Happened} {s s' : Session}

/-- The bytes of a frame on the wire. -/
def wireOf (frame : Bytes) : Bytes := beBytes 4 frame.length ++ frame

/-- The frames on the way to the client, each with the message it decodes to: they and the answers
that are still owed are the requests that no answer has come to. -/
structure Carries (hmac : Hmac) (key : Hash32) (frames : List (Bytes × Message))
    (hs : List Happened) (s : Session) : Prop where
  occurs : ∃ q, Path Occurs {} hs { s.client with reader := q }
  bytes : s.client.reader.flatten ++ s.pipe = frames.flatMap fun f => wireOf f.1
  decoded : ∀ f ∈ frames, f.1.length ≤ maxFrameBodySize ∧ decodeFrameBody hmac key f.1 = .ok f.2
  once : (frames.map (·.2.target) ++ s.owed).Nodup
  unanswered : ∀ k ∈ frames.map (·.2.target) ++ s.owed, .sent k ∈ hs ∧ k ∉ answeredIn hs
  answers : OneAnswer hs

theorem Carries.start : Carries hmac key [] [] {} :=
  ⟨⟨[], .nil⟩, rfl, by rintro _ ⟨⟩, .nil, by rintro _ ⟨⟩, by rintro (_ | _) _ _ _ ⟨⟩⟩

theorem Carries.ids (hc : Carries hmac key frames hs s) : Ids hs s.client := by
  obtain ⟨q, hq⟩ := hc.occurs
  have hi := ids_of_path hq
  exact ⟨hi.pending, hi.sent, hi.settled, hi.timedOut⟩

/-- A happening other than a request or an arrival. -/
theorem Carries.other {h : Happened} (hc : Carries hmac key frames hs s)
    (ho : ∀ q, Occurs { s.client with reader := q } h { c with reader := q })
    (hm : ∀ m ss, h ≠ .arrived m ss) (hr : c.reader = s.client.reader) :
    Carries hmac key frames (hs ++ [h]) { s with client := c } := by
  obtain ⟨q, hq⟩ := hc.occurs
  refine ⟨⟨q, hq.append (Path.singleton_iff.2 (ho q))⟩, hr ▸ hc.bytes, hc.decoded, hc.once, ?_,
    oneAnswer_concat.2 ⟨hc.answers, fun m ss he => absurd he (hm m ss)⟩⟩
  intro k hk
  rw [answeredIn_other hm]
  obtain ⟨h1, h2⟩ := hc.unanswered k hk
  exact ⟨List.mem_append_left _ h1, h2⟩

theorem Carries.request {messageType : Ts.Str} (hc : Carries hmac key frames hs s)
    (hd : c = { s.client with nextRequestId := s.client.nextRequestId + 1 }.registerWaiter
      s.client.nextRequestId messageType) :
    Carries hmac key frames (hs ++ [.sent s.client.nextRequestId])
      { s with client := c, owed := s.client.nextRequestId :: s.owed } := by
  obtain ⟨q, hq⟩ := hc.occurs
  have ho : Occurs { s.client with reader := q } (.sent s.client.nextRequestId)
      { c with reader := q } := by
    rw [hd]
    exact .sent (c := { s.client with reader := q }) messageType q
  have hfresh : ∀ k, .sent k ∈ hs → k ≠ s.client.nextRequestId := fun k hk => by
    have := hc.ids.sent k hk
    omega
  refine ⟨⟨q, hq.append (Path.singleton_iff.2 ho)⟩, hd ▸ hc.bytes, hc.decoded, ?_, ?_,
    oneAnswer_concat.2 ⟨hc.answers, by rintro _ _ ⟨⟩⟩⟩
  · refine (List.perm_middle.nodup_iff).2 (List.nodup_cons.2 ⟨fun hk => ?_, hc.once⟩)
    exact hfresh _ (hc.unanswered _ hk).1 rfl
  · intro k hk
    rw [answeredIn_other (by rintro _ _ ⟨⟩)]
    rcases List.mem_cons.1 (List.perm_middle.mem_iff.1 hk) with rfl | hk
    · refine ⟨List.mem_append_right _ (List.mem_singleton_self _), fun han => ?_⟩
      exact hfresh _ (sent_of_answered hc.answers han) rfl
    · obtain ⟨h1, h2⟩ := hc.unanswered k hk
      exact ⟨List.mem_append_left _ h1, h2⟩

theorem Carries.answer {frame wire : Bytes} {m : Message} (hc : Carries hmac key frames hs s)
    (howed : m.target ∈ s.owed) (hm : decodeFrameBody hmac key frame = .ok m)
    (hw : encodeFrame frame = .ok wire) :
    Carries hmac key (frames ++ [(frame, m)]) hs
      { s with owed := s.owed.erase m.target, pipe := s.pipe ++ wire } := by
  have hlen : frame.length ≤ maxFrameBodySize := by
    by_contra hlt
    rw [encodeFrame, if_pos (Nat.lt_of_not_le hlt)] at hw
    cases hw
  rw [encodeFrame_eq hlen] at hw
  cases hw
  have hperm : ((frames ++ [(frame, m)]).map (·.2.target) ++ s.owed.erase m.target).Perm
      (frames.map (·.2.target) ++ s.owed) := by
    rw [List.map_append, List.append_assoc]
    exact (List.perm_cons_erase howed).symm.append_left _
  refine ⟨hc.occurs, ?_, ?_, hperm.nodup_iff.2 hc.once,
    fun k hk => hc.unanswered k (hperm.mem_iff.1 hk), hc.answers⟩
  · rw [List.flatMap_append, List.flatMap_singleton, ← List.append_assoc, hc.bytes]
    rfl
  · intro f hf
    rcases List.mem_append.1 hf with hf | hf
    · exact hc.decoded f hf
    · rw [List.mem_singleton.1 hf]
      exact ⟨hlen, hm⟩

/-- The message of the first frame is routed. -/
theorem Carries.arrived {f : Bytes × Message} {reader : FrameReader}
    (hc : Carries hmac key (f :: frames) hs s)
    (hr : reader.flatten ++ s.pipe = frames.flatMap fun f => wireOf f.1) :
    Carries hmac key frames
      (hs ++ [.arrived f.2 ({ s.client with reader }.routeIncoming f.2).1])
      { s with client := ({ s.client with reader }.routeIncoming f.2).2 } := by
  obtain ⟨q, hq⟩ := hc.occurs
  have hreader : ({ s.client with reader }.routeIncoming f.2).2.reader = reader :=
    SubstrateClient.reader_routeIncoming
  have hsame : ({ s.client with reader := q }.routeIncoming f.2).1 =
      ({ s.client with reader }.routeIncoming f.2).1 ∧
      { ({ s.client with reader := q }.routeIncoming f.2).2 with reader := q } =
      { ({ s.client with reader }.routeIncoming f.2).2 with reader := q } := by
    by_cases ht : f.2.target ∈ s.client.pendingIds
    · rw [SubstrateClient.routeIncoming_pending (c := { s.client with reader }) ht,
        SubstrateClient.routeIncoming_pending (c := { s.client with reader := q }) ht]
      exact ⟨rfl, rfl⟩
    · rw [SubstrateClient.routeIncoming_late (c := { s.client with reader }) ht,
        SubstrateClient.routeIncoming_late (c := { s.client with reader := q }) ht]
      exact ⟨rfl, rfl⟩
  have hfirst := hc.unanswered f.2.target (by
    rw [List.map_cons, List.cons_append]
    exact List.mem_cons_self)
  have honce := hc.once
  rw [List.map_cons, List.cons_append, List.nodup_cons] at honce
  refine ⟨⟨q, hq.append (Path.singleton_iff.2 ?_)⟩, ?_,
    fun g hg => hc.decoded g (List.mem_cons_of_mem _ hg), honce.2, fun k hk => ?_,
    oneAnswer_concat.2 ⟨hc.answers, fun m ss he => ?_⟩⟩
  · rw [← hsame.1, ← hsame.2]
    exact .arrived (c := { s.client with reader := q }) f.2 q
  · rw [hreader]
    exact hr
  · obtain ⟨h1, h2⟩ := hc.unanswered k (List.mem_cons_of_mem _ hk)
    refine ⟨List.mem_append_left _ h1, ?_⟩
    rw [answeredIn_concat, List.mem_append, List.mem_singleton]
    rintro (h3 | rfl)
    · exact h2 h3
    · exact honce.1 hk
  · cases he
    exact hfirst

theorem Carries.regroup {reader : FrameReader} (hc : Carries hmac key frames hs s)
    (hr : reader.flatten = s.client.reader.flatten) :
    Carries hmac key frames hs { s with client := { s.client with reader } } :=
  ⟨hc.occurs, by rw [hr]; exact hc.bytes, hc.decoded, hc.once, hc.unanswered, hc.answers⟩

/-- The loop of the listener routes the frames that are all there, in order. -/
theorem Carries.drain {n : Nat} (hc : Carries hmac key frames hs s)
    (hn : s.client.reader.flatten.length ≤ n) :
    ∃ frames', Carries hmac key frames' (hs ++ (s.client.drain hmac key n).1)
      { s with client := (s.client.drain hmac key n).2 } := by
  induction n generalizing frames hs s with
  | zero =>
    refine ⟨frames, ?_⟩
    rw [SubstrateClient.drain, List.append_nil]
    exact hc
  | succ n ih =>
    have hb := hc.bytes
    cases frames with
    | nil =>
      refine ⟨[], ?_⟩
      rw [SubstrateClient.drain, tryReadFrame_empty (List.append_eq_nil_iff.1 hb).1]
      dsimp only
      rw [List.append_nil]
      exact hc
    | cons f frames =>
      obtain ⟨hlen, hdec⟩ := hc.decoded f List.mem_cons_self
      rw [List.flatMap_cons] at hb
      rcases Nat.lt_or_ge s.client.reader.flatten.length (4 + f.1.length) with hlt | hge
      · obtain ⟨reader, hread, hflat⟩ := tryReadFrame_short hlen hb hlt
        refine ⟨f :: frames, ?_⟩
        rw [SubstrateClient.drain, hread]
        dsimp only
        rw [List.append_nil]
        exact hc.regroup hflat
      · have hwire : (wireOf f.1).length = 4 + f.1.length := by
          rw [wireOf, List.length_append, beBytes_length]
        have hsplit : s.client.reader.flatten =
            wireOf f.1 ++ s.client.reader.flatten.drop (wireOf f.1).length := by
          have htake := congrArg (List.take (wireOf f.1).length) hb
          rw [List.take_append_of_le_length (by omega), List.take_left' rfl] at htake
          exact (List.take_append_drop _ _).symm.trans (by rw [htake])
        obtain ⟨reader, hread, hflat⟩ := tryReadFrame_whole hlen hsplit
        have hrest : reader.flatten ++ s.pipe = frames.flatMap fun f => wireOf f.1 := by
          have hdrop := congrArg (List.drop (wireOf f.1).length) hb
          rw [List.drop_append_of_le_length (by omega), List.drop_left' rfl] at hdrop
          rw [hflat, hdrop]
        have hstep := hc.arrived hrest
        have hless : reader.flatten.length ≤ n := by
          rw [hflat, List.length_drop]
          omega
        have hreader : ({ s.client with reader }.routeIncoming f.2).2.reader = reader :=
          SubstrateClient.reader_routeIncoming
        obtain ⟨frames', hfin⟩ := ih hstep (by rw [hreader]; exact hless)
        refine ⟨frames', ?_⟩
        rw [SubstrateClient.drain, hread]
        dsimp only
        rw [hdec]
        dsimp only
        rw [List.append_assoc] at hfin
        exact hfin

theorem Carries.step {now : List Happened} (hc : Carries hmac key frames hs s)
    (hstep : Exchange hmac key s now s') : ∃ frames', Carries hmac key frames' (hs ++ now) s' := by
  cases hstep with
  | request h =>
    rcases SubstrateClient.sendRequest_cases _ _ _ _ h with
      ⟨e, -, ⟨⟩, -⟩ | ⟨e, ⟨⟩, -⟩ | ⟨⟨e, ⟨⟩⟩ | ⟨wire, hr⟩, hd⟩
    cases hr
    exact ⟨frames, hc.request hd⟩
  | refused h =>
    rcases SubstrateClient.sendRequest_cases _ _ _ _ h with ⟨e, -, -, hd⟩ | ⟨e, -, hd⟩ | ⟨-, hd⟩
    · subst hd
      exact ⟨frames, hc.other (fun q => .thrown _ q) (by rintro _ _ ⟨⟩) rfl⟩
    · subst hd
      exact ⟨frames, hc.other (fun q => .unsent (c := { s.client with reader := q }) _ q)
        (by rintro _ _ ⟨⟩) rfl⟩
    · subst hd
      exact ⟨frames, hc.other (fun q => .unwritten (c := { s.client with reader := q }) _ _ q)
        (by rintro _ _ ⟨⟩) rfl⟩
  | timer elapsedMs h =>
    have hk := List.mem_map_of_mem (f := Prod.fst) h
    rw [SubstrateClient.onTimer_pending hk]
    exact ⟨frames, hc.other (fun q => .timer (c := { s.client with reader := q }) q hk)
      (by rintro _ _ ⟨⟩) rfl⟩
  | answer howed hm hw =>
    rw [List.append_nil]
    exact ⟨_, hc.answer howed hm hw⟩
  | @data chunk ahead h =>
    have hpush : Carries hmac key frames hs
        { s with client := { s.client with reader := s.client.reader.push chunk }, pipe := ahead } := by
      refine ⟨hc.occurs, ?_, hc.decoded, hc.once, hc.unanswered, hc.answers⟩
      show (s.client.reader.push chunk).flatten ++ ahead = _
      rw [push_flatten, List.append_assoc, ← h]
      exact hc.bytes
    exact hpush.drain (Nat.le_refl _)

theorem carries_of_path {hss : List (List Happened)} (hp : Path (Exchange hmac key) {} hss s) :
    ∃ frames, Carries hmac key frames hss.flatten s := by
  induction hss using List.reverseRecOn generalizing s with
  | nil =>
    obtain rfl := Path.nil_iff.1 hp
    exact ⟨[], .start⟩
  | append_singleton hss now ih =>
    obtain ⟨t, ht, hstep⟩ := Path.append_iff.1 hp
    obtain ⟨frames, hc⟩ := ih ht
    rw [List.flatten_append, List.flatten_singleton]
    exact hc.step (Path.singleton_iff.1 hstep)

/-- In every session, each answer that comes before the timer of its request settles it, and none
settles another request, just if no answer comes after the timer of its request while another
request waits. -/
theorem answers_settle_own_iff {hss : List (List Happened)}
    (hp : Path (Exchange hmac key) {} hss s) : OwnAnswers hss.flatten ↔ NoneLate hss.flatten := by
  obtain ⟨frames, hc⟩ := carries_of_path hp
  obtain ⟨q, hq⟩ := hc.occurs
  exact ownAnswers_iff hq hc.answers

end

/-! ### A late answer -/

/-- The substrate's answer to the first of two snapshots, of a gradient without axes. -/
def snapshotAnswer : Bytes :=
  Myco.Bridge.encodeFrameBody noHmac (.replicate 0)
    { messageType := "snapshot_response", requestId := 1, payload := [("values", .map [])] }

theorem snapshotAnswer_decodes : ∃ m, decodeFrameBody noHmac (.replicate 0) snapshotAnswer = .ok m ∧
    m.target = 1 ∧ snapshotAnswer.length ≤ maxFrameBodySize := by
  have h : (decodeFrameBody noHmac (.replicate 0) snapshotAnswer).toOption.any (fun m =>
      m.target = 1 ∧ snapshotAnswer.length ≤ maxFrameBodySize) = true := by decide
  obtain ⟨m, hm, hp⟩ := (Option.any_eq_true _ _).1 h
  exact ⟨m, toOption_eq_some.1 hm, of_decide_eq_true hp⟩

/-- A whole frame in one chunk is routed. -/
theorem onData_whole {hmac : Hmac} {key : Hash32} {c : SubstrateClient} {frame : Bytes}
    {m : Message} (hc : c.reader = []) (hlen : frame.length ≤ maxFrameBodySize)
    (hm : decodeFrameBody hmac key frame = .ok m) :
    (c.onData hmac key (wireOf frame)).1 = [.arrived m (c.routeIncoming m).1] := by
  have hflat : (c.reader.push (wireOf frame)).flatten = wireOf frame := by
    rw [push_flatten, hc]
    rfl
  obtain ⟨n, hn⟩ : ∃ n, (c.reader.push (wireOf frame)).flatten.length = n + 1 :=
    ⟨3 + frame.length, by rw [hflat, wireOf, List.length_append, beBytes_length]; omega⟩
  obtain ⟨reader, hread, hrest⟩ := tryReadFrame_whole hlen (hflat.trans (List.append_nil _).symm)
  have hroute : ({ c with reader }.routeIncoming m).1 = (c.routeIncoming m).1 := by
    by_cases ht : m.target ∈ c.pendingIds
    · rw [SubstrateClient.routeIncoming_pending ht,
        SubstrateClient.routeIncoming_pending (c := { c with reader }) ht]
    · rw [SubstrateClient.routeIncoming_late ht,
        SubstrateClient.routeIncoming_late (c := { c with reader }) ht]
      rfl
  unfold SubstrateClient.onData
  rw [hn, SubstrateClient.drain, hread]
  dsimp only
  rw [hm]
  dsimp only
  cases n with
  | zero => rw [hroute]; rfl
  | succ n =>
    rw [SubstrateClient.drain, SubstrateClient.reader_routeIncoming, tryReadFrame_empty hrest, hroute]

theorem snapshot_written (c : SubstrateClient) (hf : c.fatalError = none)
    (hk : c.nextRequestId = 1 ∨ c.nextRequestId = 2) : ∃ wire,
    c.sendRequest noHmac (.replicate 0) (Ts.units "snapshot") [] = (.ok (c.nextRequestId, wire),
      { c with nextRequestId := c.nextRequestId + 1 }.registerWaiter c.nextRequestId
        (Ts.units "snapshot")) := by
  have h : ∀ k : Int, k = 1 ∨ k = 2 → ∃ frame, encodeFrameBody noHmac (.replicate 0)
      { messageType := Ts.units "snapshot", requestId := k, payload := [] } = .ok frame ∧
      frame.length ≤ maxFrameBodySize := by
    intro k hk
    have hb : (encodeFrameBody noHmac (.replicate 0)
        { messageType := Ts.units "snapshot", requestId := k, payload := [] }).toOption.any
        (fun frame => frame.length ≤ maxFrameBodySize) = true := by
      rcases hk with rfl | rfl <;> decide
    obtain ⟨frame, hm, hp⟩ := (Option.any_eq_true _ _).1 hb
    exact ⟨frame, toOption_eq_some.1 hm, of_decide_eq_true hp⟩
  obtain ⟨frame, hframe, hlen⟩ := h _ hk
  refine ⟨beBytes 4 frame.length ++ frame, ?_⟩
  unfold SubstrateClient.sendRequest
  rw [hf]
  dsimp only
  rw [hframe]
  dsimp only
  unfold SubstrateClient.writeFrame SubstrateClient.registerWaiter
  dsimp only
  rw [encodeFrame_eq hlen]
  rfl

/-- Two snapshots are asked for, and the timer of the first has run. -/
def secondWaits : SubstrateClient :=
  { nextRequestId := 3, pendingResponses := [(2, Ts.units "snapshot")] }

/-- The timer of the first of two requests runs; then its answer comes and rejects the second. -/
theorem exists_late : ∃ hss s, Path (Exchange noHmac (.replicate 0)) {} hss s ∧
    ¬ OwnAnswers hss.flatten := by
  obtain ⟨m, hm, htarget, hlen⟩ := snapshotAnswer_decodes
  obtain ⟨w1, h1⟩ := snapshot_written {} rfl (.inl rfl)
  obtain ⟨w2, h2⟩ := snapshot_written
    { nextRequestId := 2, pendingResponses := [(1, Ts.units "snapshot")] } rfl (.inr rfl)
  have hlate : m.target ∉ secondWaits.pendingIds := by
    rw [htarget]
    decide
  have hdata := onData_whole (c := secondWaits) rfl hlen hm
  rw [SubstrateClient.routeIncoming_late hlate] at hdata
  have hpath : Path (Exchange noHmac (.replicate 0)) {}
      [[.sent 1], [.sent 2], [.timedOut 1 _], [],
        (secondWaits.onData noHmac (.replicate 0) (wireOf snapshotAnswer)).1] _ :=
    .cons (.request h1) <| .cons (.request h2) <| .cons (.timer 60000 List.mem_cons_self) <|
    .cons (.answer (by rw [htarget]; decide) hm (encodeFrame_eq hlen)) <|
    .cons (.data (List.append_nil _).symm) .nil
  refine ⟨_, _, hpath, fun hown => ?_⟩
  rw [hdata] at hown
  have hk := (hown [.sent 1, .sent 2, .timedOut 1 _] m _ [] rfl).2 2 _ List.mem_cons_self
    (by simp)
  rw [htarget] at hk
  exact absurd hk (by decide)

theorem late_answer_rejects_another : ∃ hss s, Path (Exchange noHmac (.replicate 0)) {} hss s ∧
    ¬ OwnAnswers hss.flatten :=
  exists_late

theorem answers_settle_own_late : ∃ hss s, Path (Exchange noHmac (.replicate 0)) {} hss s ∧
    ¬ NoneLate hss.flatten := by
  obtain ⟨hss, s, hp, hown⟩ := exists_late
  exact ⟨hss, s, hp, fun h => hown ((answers_settle_own_iff hp).2 h)⟩

end Myco.Operator
