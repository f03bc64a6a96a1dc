import Myco.Tropism.Replay

/-!
# Runs of a substrate

A `Machine` is a substrate, its worker and the log on disk. A `Step` serves a request, seals the idle
cycles, as it does before every request, ticks, saves the log, greets the worker, or starts the
substrate again from the log on disk; whatever else a substrate does is aside of what these look at
(`vital`). A run is a path of steps.

A crash is a restart without a save before it, a shutdown is a flush, a save and a restart. Timeouts
are left out: a worker answers or exits.
-/

namespace Myco.Tropism

open Myco.Lib Myco.Canonical Myco.Schema Myco.Substrate Myco.Federation Myco.Prune

variable {env : Env} {rt : Runtime}

/-! ### Requests -/

/-- The requests that declare, change or advance something. -/
inductive Request where
  | registerAxis (message : Message)
  | perturb (message : Message)
  | perturbFromRaw (message : Message)
  | advance
  | submitMutation (message : Message)

/-- `dispatch(..)`, of which only the success is kept. -/
def Request.run : Request → Op env rt PUnit
  | .registerAxis m => Tropism.registerAxis m >>= fun _ => pure ⟨⟩
  | .perturb m => Tropism.perturb m >>= fun _ => pure ⟨⟩
  | .perturbFromRaw m => perturbAxisFromRawMaterial m >>= fun _ => pure ⟨⟩
  | .advance => Tropism.advance >>= fun _ => pure ⟨⟩
  | .submitMutation m => handleSubmitMutationRequest m >>= fun _ => pure ⟨⟩

/-! ### What else there is -/

/-- All that the steps look at. -/
def vital : Watch where
  texts := cultivationTexts ++ replayedTexts ++ migrationTexts ++
    [backupEncryptionStatusDeclaredPrefix, federationPeerRevokedPrefix, successorChainUpdatedPrefix,
      successionConfigDeclaredType]
  View := (UInt64 × Option CandidateState × UInt64 × UInt64 × Bool) × List Hash32 ×
    Option String × Option OwnerObjective × List SuccessorEntry × Option SuccessionConfig ×
    CultivationState
  see s := ((s.cycleCounter, s.migrationCandidate, s.pendingSelfDrivenNoopCycles,
    s.axisRegisterCount, s.handshakeComplete), s.party.2.1, s.backupEncryptionStatus,
    s.ownerObjective, s.successorChain, s.successionConfig, s.cultivationState)
  uncommon := by decide
  cultivation := by decide

/-- Sees no more than `V` does. -/
structure Watch.Narrower (W V : Watch) : Prop where
  texts : ∀ w ∈ W.texts, w ∈ V.texts
  see : ∀ s s', V.see s = V.see s' → W.see s = W.see s'

theorem Aside.of_narrower {W V : Watch} (hW : W.Narrower V) {s s' : ServerState env}
    (h : Aside V s s') : Aside W s s' := by
  obtain ⟨ns, hn, hns⟩ := h.nodes
  exact ⟨⟨ns, hn, fun n hm hw => hns n hm (hw.mono hW.texts)⟩, hW.see _ _ h.see, h.collided⟩

theorem replayed_narrower : replayed.Narrower vital where
  texts := by decide
  see s s' h := by
    simp only [vital, Prod.mk.injEq] at h
    simp only [replayed, h]

/-! ### Machines -/

structure Machine (env : Env) (rt : Runtime) where
  host : Host env rt
  /-- `dag.cb` -/
  disk : Ledger env.blake3

inductive Event where
  | request (q : Request) (answer : Except SubstrateError PUnit)
  | flush
  | tick (selfDriven : Bool)
  | other
  | save
  | workerExit
  | hello
  | restart (files : BootFiles)

inductive Step : Machine env rt → Event → Machine env rt → Prop
  | request {m : Machine env rt} {q : Request} {answer : Except SubstrateError PUnit}
      {h : Host env rt} : m.host.server.handshakeComplete = true →
      m.host.server.pendingSelfDrivenNoopCycles = 0 → q.run.exec m.host = some (answer, h) →
      Step m (.request q answer) { m with host := h }
  | flush {m : Machine env rt} {r : Except SubstrateError PUnit} {h : Host env rt} :
      flushPendingSelfDriven.exec m.host = some (r, h) → Step m .flush { m with host := h }
  | tick {m : Machine env rt} {selfDriven : Bool} {r : Except SubstrateError PUnit}
      {h : Host env rt} : m.host.server.handshakeComplete = true →
      (autonomousTick selfDriven).exec m.host = some (r, h) →
      Step m (.tick selfDriven) { m with host := h }
  | other {m : Machine env rt} {s : ServerState env} : Aside vital m.host.server s →
      Step m .other { m with host := { m.host with server := s } }
  | save {m : Machine env rt} : Step m .save { m with disk := m.host.server.ledger }
  | workerExit {m : Machine env rt} :
      Step m .workerExit { m with host := { m.host with python := none } }
  | hello {m : Machine env rt} {w : DispatcherState rt} :
      m.host.server.handshakeComplete = false →
      (derivedState m.host.server.ledger.dag).substrateId.isSome →
      Hydrates m.host.server.nodes w →
      Step m .hello { m with host :=
        ⟨{ m.host.server with handshakeComplete := true }, some w⟩ }
  | restart {m : Machine env rt} {files : BootFiles} :
      Step m (.restart files) ⟨⟨bootState files m.disk, none⟩, m.disk⟩

abbrev Run : Machine env rt → List Event → Machine env rt → Prop := Path Step

/-- A substrate that has only just booted. -/
def Machine.boot (files : BootFiles) (disk : Ledger env.blake3) : Machine env rt :=
  ⟨⟨bootState files disk, none⟩, disk⟩

/-! ### A run -/

section

def noFiles : BootFiles := ⟨.replicate 0, false, .empty, 0⟩

def genesisLedger (env : Env) : Ledger env.blake3 :=
  Ledger.new.push ⟨[], genesisEventNodeType (.replicate 1), 0, encodeGenesisEvent (.replicate 1) 0 0⟩

def bornState (env : Env) : ServerState env :=
  { (bootState noFiles .new : ServerState env) with ledger := genesisLedger env }

/-- A new substrate with its genesis, and the worker that it has greeted. -/
def greetedIn (env : Env) : Machine env wholeNumbers :=
  ⟨⟨{ bornState env with handshakeComplete := true }, some .fresh⟩, .new⟩

abbrev greeted : Machine smallEnv wholeNumbers := greetedIn smallEnv

theorem greetedIn_run {env : Env}
    (hid : (derivedState (genesisLedger env).dag).substrateId.isSome = true)
    (hquiet : ∀ n ∈ (genesisLedger env).nodes, ¬ Watched vital.texts n.nodeType) :
    Run (.boot noFiles .new) [.other, .hello] (greetedIn env) := by
  have hother : Aside vital (bootState noFiles .new) (bornState env) := by
    refine ⟨⟨(genesisLedger env).nodes, ?_, hquiet⟩, rfl, fun hc => absurd ?_ hc⟩
    · rfl
    · exact fun m hm => absurd hm List.not_mem_nil
  have hhydrates : Hydrates (genesisLedger env).nodes (.fresh : DispatcherState wholeNumbers) :=
    replay_const (fun n hn w => replayNode_of_not_watched
      (fun hw => hquiet n hn (hw.mono (by decide))) w) _
  exact .cons (.other hother) (.cons (.hello rfl hid hhydrates) .nil)

theorem greeted_run : Run (.boot noFiles .new) [.other, .hello] greeted :=
  greetedIn_run (by decide) (by decide)

/-- Hashes collide less here. -/
def foldingEnv : Env := { smallEnv with blake3 := foldHash }

/-- A mutation that says whether it is a migration. -/
def mutationIn (migrationMode : Bool) (mutationType : String) (content : Bytes) : Message :=
  ⟨"submit_mutation", 1, OrdMap.ofList utf8 [("mutation_type", .string mutationType),
    ("content_canonical_bytes", .bytes content), ("touched_fields", .array []),
    ("touched_files", .array []), ("touched_meta_structures", .array []),
    ("migration_mode", .bool migrationMode)]⟩

end

end Myco.Tropism
