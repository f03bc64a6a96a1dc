import Myco.Tropism.Rulings
import Myco.Tropism.Run

/-!
# The marks that migrations leave

Five types of event tell of migrations and evolutions: these are the `Mark`s of a log. What the
substrate knows of a migration is in the last of them (`openMark`), and its `account` is both, the
marks and the operation in flight. Barring a collision every function of the substrate changes the
account by what it is meant to write, and nothing else does (`keepsAccount_*`, `does_*`).
-/

namespace Myco.Tropism

open Myco.Lib Myco.Canonical Myco.Schema Myco.Substrate Myco.Prune

variable {env : Env} {rt : Runtime}

/-! ### Marks -/

inductive Mark where
  | started (op : String)
  | committed (op : String)
  | rolledBack (op : String)
  | evolved (op : String) (succeeded : Bool)
deriving DecidableEq

def Mark.ofType? (nodeType : String) : Option Mark :=
  ((stripPrefix migrationStartedPrefix nodeType).map .started).or <|
  ((stripPrefix migrationCommittedPrefix nodeType).map .committed).or <|
  ((stripPrefix migrationRolledBackPrefix nodeType).map .rolledBack).or <|
  ((stripPrefix evolutionSucceededPrefix nodeType).map (.evolved · true)).or <|
  (stripPrefix evolutionFailedPrefix nodeType).map (.evolved · false)

def Mark.nodeType : Mark → String
  | .started op => migrationStartedPrefix ++ op
  | .committed op => migrationCommittedPrefix ++ op
  | .rolledBack op => migrationRolledBackPrefix ++ op
  | .evolved op succeeded => evolutionNodeType succeeded op

def marks (nodes : List DagNode) : List Mark := nodes.filterMap fun n => Mark.ofType? n.nodeType

/-- What is looked at here. -/
def migrations : Watch where
  texts := cultivationTexts ++ [migrationStartedPrefix, migrationCommittedPrefix,
    migrationRolledBackPrefix, evolutionSucceededPrefix, evolutionFailedPrefix]
  View := Option CandidateState
  see := Settings.migrationCandidate
  uncommon := by decide
  cultivation := by decide

theorem Mark.ofType?_nodeType (mark : Mark) : Mark.ofType? mark.nodeType = some mark := by
  have hnone : ∀ {p q op : String}, Apart p q → stripPrefix q (p ++ op) = none := fun h =>
    stripPrefix_eq_none startsWith_append h
  cases mark with
  | started op => simp [ofType?, nodeType]
  | committed op =>
    simp [ofType?, nodeType, hnone (p := migrationCommittedPrefix) (q := migrationStartedPrefix)
      (by decide)]
  | rolledBack op =>
    simp [ofType?, nodeType, hnone (p := migrationRolledBackPrefix) (q := migrationStartedPrefix)
      (by decide), hnone (p := migrationRolledBackPrefix) (q := migrationCommittedPrefix)
      (by decide)]
  | evolved op succeeded =>
    cases succeeded
    · simp [ofType?, nodeType, evolutionNodeType,
        hnone (p := evolutionFailedPrefix) (q := migrationStartedPrefix) (by decide),
        hnone (p := evolutionFailedPrefix) (q := migrationCommittedPrefix) (by decide),
        hnone (p := evolutionFailedPrefix) (q := migrationRolledBackPrefix) (by decide),
        hnone (p := evolutionFailedPrefix) (q := evolutionSucceededPrefix) (by decide)]
    · simp [ofType?, nodeType, evolutionNodeType,
        hnone (p := evolutionSucceededPrefix) (q := migrationStartedPrefix) (by decide),
        hnone (p := evolutionSucceededPrefix) (q := migrationCommittedPrefix) (by decide),
        hnone (p := evolutionSucceededPrefix) (q := migrationRolledBackPrefix) (by decide)]

theorem Mark.ofType?_eq_none {nodeType : String} (h : ¬ Watched migrations.texts nodeType) :
    Mark.ofType? nodeType = none := by
  have hnone : ∀ {p : String}, p ∈ migrations.texts → stripPrefix p nodeType = none := by
    intro p hp
    rw [← Option.not_isSome_iff_eq_none, stripPrefix_isSome]
    exact fun hs => h ⟨p, hp, hs⟩
  simp [ofType?, hnone (p := migrationStartedPrefix) (by decide),
    hnone (p := migrationCommittedPrefix) (by decide),
    hnone (p := migrationRolledBackPrefix) (by decide),
    hnone (p := evolutionSucceededPrefix) (by decide),
    hnone (p := evolutionFailedPrefix) (by decide)]

theorem marks_append {ns ms : List DagNode} : marks (ns ++ ms) = marks ns ++ marks ms :=
  List.filterMap_append

/-- What the event says of the operation in flight, of which there was `o` before. -/
def openMark : Option String → Mark → Option String
  | _, .started op => some op
  | _, .committed _ => none
  | _, .rolledBack _ => none
  | o, .evolved _ _ => o

/-- The operation of the window that the marks leave open. -/
def openOf (ms : List Mark) : Option String := ms.foldl openMark none

theorem openOf_append {ms ns : List Mark} : openOf (ms ++ ns) = ns.foldl openMark (openOf ms) :=
  List.foldl_append

/-- An event that starts a migration of another operation than its type says. -/
def astray (n : DagNode) : Bool :=
  match Mark.ofType? n.nodeType, readMigrationStarted n with
  | some (.started op), .ok c => c.opName ≠ op
  | _, _ => false

/-! ### Accounts -/

structure Account where
  marks : List Mark
  inFlight : Option String
  strays : List DagNode

def account (h : Host env rt) : Account :=
  ⟨marks h.server.nodes, h.server.migrationCandidate.map CandidateState.opName,
    h.server.nodes.filter astray⟩

def Account.write (ms : List Mark) (a : Account) : Account := { a with marks := a.marks ++ ms }

/-- Writes these marks, and then nothing is in flight. -/
def Account.close (ms : List Mark) (a : Account) : Account := ⟨a.marks ++ ms, none, a.strays⟩

/-- Changes the account in this way. -/
def Accounts (f : Account → Account) (h h' : Host env rt) : Prop := account h' = f (account h)

abbrev SameAccount : Host env rt → Host env rt → Prop := Accounts id

instance : IsPreorder (Host env rt) SameAccount where
  refl _ := rfl
  trans _ _ _ h h' := Eq.trans h' h

/-- Two of the messages that the substrate has hashed have collided. -/
def HostCollided (h : Host env rt) : Prop := Collided h.server

theorem astray_of_ne {n : DagNode} (h : ∀ op, Mark.ofType? n.nodeType ≠ some (.started op)) :
    astray n = false := by
  unfold astray
  split
  · rename_i op c hm _
    exact absurd hm (h op)
  · rfl

theorem astray_of_none {n : DagNode} (h : Mark.ofType? n.nodeType = none) : astray n = false :=
  astray_of_ne fun op => by simp [h]

theorem account_of_aside {h h' : Host env rt} (ha : Aside migrations h.server h'.server) :
    account h' = account h := by
  obtain ⟨ns, hn, hns⟩ := ha.nodes
  have hnone : ∀ n ∈ ns, Mark.ofType? n.nodeType = none := fun n hm =>
    Mark.ofType?_eq_none (hns n hm)
  have hnil : marks ns = [] := List.filterMap_eq_nil_iff.2 hnone
  have hfaithful : ns.filter astray = [] := List.filter_eq_nil_iff.2 fun n hm => by
    rw [astray_of_none (hnone n hm)]
    exact Bool.false_ne_true
  have hcand : h'.server.migrationCandidate = h.server.migrationCandidate := ha.see
  rw [account, account, hn, marks_append, hnil, List.filter_append, hfaithful, List.append_nil,
    List.append_nil, hcand]

/-! ### What leaves the account as it is -/

section

variable {α : Type} {m : Op env rt α} {nodeType what : String} {content : Bytes}

theorem unless_of_spares (hm : Within (Spares migrations) m) :
    Within (Unless HostCollided SameAccount) m :=
  hm.mono fun _ _ ha => ⟨ha.collided, fun _ => account_of_aside ha⟩

theorem does_immune {detectorId detectorName evidence : String} :
    Does HostCollided SameAccount (immune detectorId detectorName evidence : Op env rt PUnit) :=
  turns_immune.succeeds.does (unless_of_spares spares_immune)

theorem does_emitCycleValidated {op reason : String} {cycle : UInt64} {b : Bool} :
    Does HostCollided SameAccount (emitCycleValidated op cycle b reason : Op env rt PUnit) :=
  turns_emitCycleValidated.succeeds.does <| unless_of_spares <|
    (leaves_emit (not_watched (p := migrationCycleValidatedPrefix) startsWith_append
      (by decide))).mono fun _ _ => Leaves.spares

theorem does_tellWorker {t : MessageType} {complaint : String} :
    Does HostCollided SameAccount (tellWorker t complaint : Op env rt PUnit) := by
  refine Succeeds.does ?_ (unless_of_spares spares_tellWorker)
  refine succeeds_bind succeeds_attempt fun x => ?_
  cases x with
  | ok _ => exact succeeds_pure
  | error _ => exact turns_immune.succeeds

theorem does_insertEvent {R : Host env rt → Host env rt → Prop} (ht : nodeType ≠ "")
    (hR : ∀ (h : Host env rt) s, Appends ⟨h.server.tipParents, nodeType, h.server.cycleCounter,
      content⟩ h.server s → R h { h with server := s }) :
    Does HostCollided R (insertEvent what nodeType content : Op env rt NodeHash) := by
  intro h r h' he
  obtain ⟨s, h1, rfl⟩ := exec_onServer.1 he
  rw [Prog.exec_get_bind] at h1
  have hb := insertNode_tip h1 ht (List.append_nil _).symm (by simp)
  refine ⟨hb.stays, fun hc => ?_⟩
  obtain ⟨hr, ha⟩ := hb.holds hc
  exact ⟨⟨_, hr⟩, hR h s ha⟩

theorem account_of_appends {h : Host env rt} {s : ServerState env} {c : Insertion}
    (ha : Appends c h.server s) (hc : astray (c.node env.blake3) = false) :
    account { h with server := s } = (account h).write (Mark.ofType? c.nodeType).toList := by
  have hcand : s.migrationCandidate = h.server.migrationCandidate :=
    congrArg (fun u => u.2.2.2) ha.unlogged
  have hmark : marks [c.node env.blake3] = (Mark.ofType? c.nodeType).toList := by
    cases hm : Mark.ofType? c.nodeType <;> simp [marks, Insertion.node, hm]
  rw [Account.write, account, account, ha.nodes, marks_append, hmark, hcand, List.filter_append]
  simp [hc]

/-- An event that is no mark is inserted, or something has collided. -/
theorem does_insertPlain {p : String} (hp : ∀ w ∈ migrations.texts, Apart p w)
    (h : startsWith p nodeType) :
    Does HostCollided SameAccount (insertEvent what nodeType content : Op env rt NodeHash) :=
  does_insertEvent (ne_empty_of_startsWith h (hp migrationStartedPrefix (by decide)))
    fun h0 s ha => by
    have hm : Mark.ofType? nodeType = none := Mark.ofType?_eq_none (not_watched h hp)
    show account _ = account h0
    rw [account_of_appends ha (astray_of_none hm), hm]
    simp [Account.write]

theorem Mark.nodeType_ne (mark : Mark) : mark.nodeType ≠ "" := by
  intro h
  have hm := mark.ofType?_nodeType
  rw [h] at hm
  exact absurd hm (by simp [ofType?_eq_none (show ¬ Watched migrations.texts "" by decide)])

/-- An event that ends a window, or tells of an evolution, is not astray. -/
theorem Mark.not_astray {mark : Mark} (hm : ∀ op, mark ≠ .started op) {n : DagNode}
    (ht : n.nodeType = mark.nodeType) : astray n = false :=
  astray_of_ne fun op h => by
    rw [ht, mark.ofType?_nodeType] at h
    exact hm op (Option.some.inj h)

theorem does_insertMark (mark : Mark) (hm : ∀ op, mark ≠ .started op) :
    Does HostCollided (Accounts (.write [mark]))
      (insertEvent what mark.nodeType content : Op env rt NodeHash) :=
  does_insertEvent mark.nodeType_ne fun h s ha => by
    rw [Accounts, account_of_appends ha (mark.not_astray hm rfl), mark.ofType?_nodeType]
    rfl

theorem does_emitMark (mark : Mark) (hm : ∀ op, mark ≠ .started op) :
    Does HostCollided (Accounts (.write [mark])) (emit mark.nodeType content : Op env rt PUnit) := by
  refine does_bind (does_attempt (R := Accounts (.write [mark])) ?_)
    (fun _ => does_pure (R := Eq) fun _ => rfl) fun s t u h1 h2 => h2 ▸ h1
  intro h r h' he
  obtain ⟨s, h1, rfl⟩ := exec_onServer.1 he
  have hb := emitSubstrateEvent_tip mark.nodeType_ne h1
  refine ⟨hb.stays, fun hc => ?_⟩
  rw [Accounts, account_of_appends (hb.holds hc) (mark.not_astray hm rfl), mark.ofType?_nodeType]
  rfl

theorem does_clearCandidate : Does HostCollided
    (Accounts fun a => { a with inFlight := none }) (clearCandidate : Op env rt PUnit) := by
  intro h r h' he
  obtain ⟨s, h1, rfl⟩ := exec_onServer.1 he
  cases h1
  exact ⟨id, fun _ => ⟨⟨_, rfl⟩, rfl⟩⟩

end

/-! ### Ending a migration -/

section

variable {α : Type} {f g : Account → Account}

theorem does_bind_accounts {β : Type} {m : Op env rt α} {k : α → Op env rt β}
    (hm : Does HostCollided (Accounts f) m) (hk : ∀ a, Does HostCollided (Accounts g) (k a)) :
    Does HostCollided (Accounts fun a => g (f a)) (m >>= k) :=
  does_bind hm hk fun s t u h1 h2 => by rw [Accounts, h2, h1]

theorem does_rollBack {op reason complaint : String} {cycle : UInt64} :
    Does HostCollided (Accounts (.close [.rolledBack op, .evolved op false]))
      (rollBack op reason complaint cycle : Op env rt PUnit) := by
  refine Does.mono (does_bind_accounts does_tellWorker fun _ =>
    does_bind_accounts (does_emitMark (.rolledBack op) nofun) fun _ =>
    does_bind_accounts (does_emitMark (.evolved op false) nofun) fun _ => does_clearCandidate)
    fun h h' ha => ?_
  rw [Accounts, ha]
  simp [Account.write, Account.close]

theorem does_commitMigration {candidate : CandidateState} {cycle : UInt64} :
    Does HostCollided (Accounts (.close [.committed candidate.opName,
      .evolved candidate.opName true])) (commitMigration candidate cycle : Op env rt PUnit) := by
  refine Does.mono (does_bind_accounts does_emitCycleValidated fun _ =>
    does_bind_accounts does_tellWorker fun _ =>
    does_bind_accounts (does_emitMark (.committed candidate.opName) nofun) fun _ =>
    does_bind_accounts (does_emitMark (.evolved candidate.opName true) nofun) fun _ =>
    does_clearCandidate) fun h h' ha => ?_
  rw [Accounts, ha]
  simp [Account.write, Account.close]

end

end Myco.Tropism
