import Myco.Lib.Files
import Myco.Schema.Ledger
import Myco.Substrate.AtRest

/-!
# The file of the DAG, from one boot to the next

`save_dag` and `load_dag` of `persistence/dag_io.rs`, and what `run_loop` of `server/mod.rs` makes
of the three answers of `load_dag`: the DAG that was loaded; an empty DAG when there is no file or
its format version is another one; an empty DAG, with the file moved aside, when it cannot be
loaded.

`log_kept`: whatever a boot finds, the file keeps the log or the bytes are kept under another name,
except for the bytes of another format version, which the next save replaces. On Windows that
holds of runs whose saves fit the length of a blob.
-/

namespace Myco.Substrate

open Myco.Lib Myco.Canonical Myco.Schema

/-! ### The file -/

def dagFilename : String := "dag.cb"

def dagTmpFilename : String := dagFilename ++ ".tmp"

/-- `dag.cb.quarantined_{secs}`. -/
def dagQuarantineFilename (secs : Nat) : String := "dag.cb.quarantined_" ++ toString secs

inductive DagFileError where
  | io
  | atRest (e : AtRestError)
  | dagLoad (e : DagError)

/-- How a save goes where it meets the world: the salt, and after how many bytes writing the
temporary file fails, if it does. -/
structure Saving where
  salt : Bytes
  tornAfter : Option Nat

/-- The sealed bytes of a DAG. -/
def sealDag (platform : Platform) (salt : Bytes) (dag : Dag) : Except (Fault DagFileError) Bytes :=
  match dag.toCanonicalBytes with
  | none => .error .panic
  | some bytes => (sealForAtRest platform salt bytes).mapError (.map .atRest)

def saveDag (platform : Platform) (saving : Saving) (dag : Dag) (dir : Files String) :
    Except (Fault DagFileError) Nat × Files String :=
  match sealDag platform saving.salt dag with
  | .error e => (.error e, dir)
  | .ok sealedBytes =>
    match saving.tornAfter with
    | some k => (.error (.err .io), dir.write dagTmpFilename (sealedBytes.take k))
    | none => (.ok sealedBytes.length,
        (dir.write dagTmpFilename sealedBytes).rename dagTmpFilename dagFilename)

variable (blake3 : Bytes → NodeHash)

/-- Unsealed and decoded. -/
def dagOfBytes (platform : Platform) (bytes : Bytes) :
    Except (Fault DagFileError) (Option Dag) := do
  let plaintext ← (unsealFromAtRest platform bytes).mapError (.map .atRest)
  (fromCanonicalBytes blake3 plaintext).mapError (.map .dagLoad)

/-- `readable`: the file opens and is read to its end. -/
def loadDag (platform : Platform) (readable : Bool) (dir : Files String) :
    Except (Fault DagFileError) (Option Dag) :=
  match dir dagFilename with
  | none => .ok none
  | some bytes => if readable then dagOfBytes blake3 platform bytes else .error (.err .io)

/-! ### The process and its directory -/

/-- The directory, and the DAG of the process that runs on it, if one does. -/
structure Site where
  dir : Files String
  running : Option Dag

/-- The DAG that `run_loop` starts with; what stops the loader but an error stops the process. -/
def bootDag (platform : Platform) (secs : Nat) (readable : Bool) (dir : Files String) : Site :=
  match loadDag blake3 platform readable dir with
  | .ok (some d) => ⟨dir, some d⟩
  | .ok none => ⟨dir, some .new⟩
  | .error (.err _) => ⟨dir.rename dagFilename (dagQuarantineFilename secs), some .new⟩
  | .error .panic => ⟨dir, none⟩
  | .error .stack => ⟨dir, none⟩

/-- What happens to the DAG and its file after a boot: insertions and saves in any order, and more
boots, each wherever the process before it stopped. -/
inductive SiteOp where
  | insert (c : Insertion)
  | save (saving : Saving)
  | reboot (secs : Nat)

/-- A save that returns an error leaves the process running. -/
def Site.save (platform : Platform) (saving : Saving) (s : Site) (d : Dag) : Site :=
  match saveDag platform saving d s.dir with
  | (.ok _, dir) => ⟨dir, some d⟩
  | (.error (.err _), dir) => ⟨dir, some d⟩
  | (.error .panic, dir) => ⟨dir, none⟩
  | (.error .stack, dir) => ⟨dir, none⟩

def Site.step (platform : Platform) (s : Site) : SiteOp → Site
  | .insert c => { s with running := s.running.map fun d => (insertNode blake3 d c).2 }
  | .save saving =>
    match s.running with
    | none => s
    | some d => s.save platform saving d
  | .reboot secs => bootDag blake3 platform secs true s.dir

def Site.run (platform : Platform) (s : Site) (ops : List SiteOp) : Site :=
  ops.foldl (Site.step blake3 platform) s

/-! ### What is saved is loaded -/

variable {blake3} {platform : Platform} {ns : List DagNode}

/-- On Windows, the bytes to seal fit the length of a blob. -/
def SaveFits (platform : Platform) (d : Dag) : Prop :=
  platform.isSome → ∀ bytes, d.toCanonicalBytes = some bytes → bytes.length < 2 ^ 32

/-- `d` was built by insertions, and its log begins with `order`. -/
def ExtendsLog (blake3 : Bytes → NodeHash) (order : List NodeHash) (d : Dag) : Prop :=
  ∃ ns, Recorded blake3 ns ∧ d = .ofNodes ns ∧ order <+: ns.map DagNode.hash

theorem toCanonicalBytes_ne_nil {d : Dag} {bytes : Bytes} (h : d.toCanonicalBytes = some bytes) :
    bytes ≠ [] := by
  obtain ⟨nodes, -, h2⟩ := Option.bind_eq_some_iff.1 h
  obtain ⟨bs, h3, h4, -⟩ := encode_within (v := rootValue nodes)
  cases Except.ok.inj ((toOption_eq_some.1 h2).symm.trans h3)
  exact List.ne_nil_of_length_pos h4

theorem sealDag_eq_ok {salt out : Bytes} {d : Dag} :
    sealDag platform salt d = .ok out ↔
      ∃ bytes, d.toCanonicalBytes = some bytes ∧ sealForAtRest platform salt bytes = .ok out := by
  unfold sealDag
  split
  · rename_i h
    simp [h]
  · rename_i bytes h
    simp [h, mapError_eq_ok]

theorem dagOfBytes_sealDag {salt out : Bytes} (hr : Recorded blake3 ns)
    (h : sealDag platform salt (.ofNodes ns) = .ok out) (hfits : SaveFits platform (.ofNodes ns)) :
    dagOfBytes blake3 platform out = .ok (some (.ofNodes ns)) := by
  obtain ⟨bytes, hbytes, hseal⟩ := sealDag_eq_ok.1 h
  have hlen : platform.isSome → bytes.length < 2 ^ 32 := fun hp => hfits hp _ hbytes
  have hload := load_stored hr hbytes (length_le_of_seal hseal hlen)
  simp [dagOfBytes, unseal_seal hseal hlen (toCanonicalBytes_ne_nil hbytes), hload,
    Except.mapError]

theorem dagOfBytes_extendsLog {bytes : Bytes} {d : Dag}
    (h : dagOfBytes blake3 platform bytes = .ok (some d)) :
    ExtendsLog blake3 d.insertionOrder d := by
  obtain ⟨plaintext, -, h2⟩ := bind_eq_ok.1 h
  obtain ⟨ns, hr, rfl, -⟩ := loaded (mapError_eq_ok.1 h2)
  exact ⟨ns, hr, rfl, List.prefix_refl _⟩

theorem ExtendsLog.insert {order : List NodeHash} {d : Dag} (h : ExtendsLog blake3 order d)
    (c : Insertion) : ExtendsLog blake3 order (insertNode blake3 d c).2 := by
  obtain ⟨ns, hr, rfl, hp⟩ := h
  rcases insertNode_cases hr c with ⟨e, -, he⟩ | ⟨n, -, -, -, -, he⟩ | ⟨hr', he⟩
  · exact ⟨ns, hr, by rw [he], hp⟩
  · exact ⟨ns, hr, by rw [he], hp⟩
  · refine ⟨_, hr', by rw [he], hp.trans ?_⟩
    rw [List.map_append]
    exact List.prefix_append _ _

theorem extendsLog_new : ExtendsLog blake3 [] .new := ⟨[], recorded_nil, rfl, List.nil_prefix⟩

/-! ### One step -/

theorem dagTmp_ne : dagTmpFilename ≠ dagFilename := by decide

theorem dagQuarantine_ne {secs : Nat} : dagQuarantineFilename secs ≠ dagFilename ∧
    dagQuarantineFilename secs ≠ dagTmpFilename := by
  have hprefix : "dag.cb.quarantined_".length = 19 := by decide
  have hlen : (dagQuarantineFilename secs).length = 19 + (toString secs).length :=
    (@String.length_append "dag.cb.quarantined_" (toString secs)).trans
      (congrArg (· + (toString secs).length) hprefix)
  have h1 : dagFilename.length = 6 := by decide
  have h2 : dagTmpFilename.length = 10 := by decide
  constructor <;> intro h <;> rw [h] at hlen <;> omega

def SiteOp.Fits (platform : Platform) (s : Site) : SiteOp → Prop
  | .save _ => ∀ d, s.running = some d → SaveFits platform d
  | _ => True

/-- The process continues the log `order`, if there is one to continue, and so does the file, which
is missing only when there is none. -/
structure Continues (blake3 : Bytes → NodeHash) (platform : Platform)
    (order : Option (List NodeHash)) (s : Site) : Prop where
  running : ∀ d, s.running = some d → ExtendsLog blake3 (order.getD []) d
  onDisk : s.dir dagFilename = none ∧ order = none ∨ ∃ now d, s.dir dagFilename = some now ∧
    dagOfBytes blake3 platform now = .ok (some d) ∧ ExtendsLog blake3 (order.getD []) d

variable {order : Option (List NodeHash)}

/-- A save replaces the file by the whole DAG or leaves it; it touches no name but its own two. -/
theorem save_cases {saving : Saving} {s : Site} {d : Dag} :
    (∀ name, name ≠ dagFilename → name ≠ dagTmpFilename →
      (s.save platform saving d).dir name = s.dir name) ∧
    (∀ d', (s.save platform saving d).running = some d' → d' = d) ∧
    ((s.save platform saving d).dir dagFilename = s.dir dagFilename ∨
      ∃ out, sealDag platform saving.salt d = .ok out ∧
        (s.save platform saving d).dir dagFilename = some out) := by
  unfold Site.save saveDag
  cases hs : sealDag platform saving.salt d with
  | error e => cases e <;> simp [eq_comm]
  | ok out =>
    cases saving.tornAfter with
    | some k => simp +contextual [dagTmp_ne.symm, eq_comm]
    | none =>
      refine ⟨fun name h1 h2 => ?_, by simp [eq_comm], .inr ⟨out, rfl, ?_⟩⟩
      · show (s.dir.write dagTmpFilename out).rename dagTmpFilename dagFilename name = _
        rw [Files.rename_of_ne h2 h1, Files.write_of_ne h2]
      · show (s.dir.write dagTmpFilename out).rename dagTmpFilename dagFilename dagFilename = _
        have hwrite : s.dir.write dagTmpFilename out dagTmpFilename = some out := Files.write_same
        exact Files.rename_target hwrite

theorem Continues.step {s : Site} (h : Continues blake3 platform order s) {op : SiteOp}
    (hop : op.Fits platform s) : Continues blake3 platform order (s.step blake3 platform op) ∧
      ∀ name, name ≠ dagFilename → name ≠ dagTmpFilename →
        (s.step blake3 platform op).dir name = s.dir name := by
  cases op with
  | insert c =>
    refine ⟨⟨fun d hd => ?_, h.onDisk⟩, fun _ _ _ => rfl⟩
    obtain ⟨d', hd', rfl⟩ := Option.map_eq_some_iff.1 hd
    exact (h.running d' hd').insert c
  | save saving =>
    rw [Site.step]
    cases hd : s.running with
    | none => exact ⟨h, fun _ _ _ => rfl⟩
    | some d =>
      obtain ⟨hnames, hrun, hfile⟩ := @save_cases platform saving s d
      obtain ⟨ns, hr, rfl, hp⟩ := h.running d hd
      refine ⟨⟨fun d' hd' => ?_, ?_⟩, hnames⟩
      · rw [hrun d' hd']
        exact ⟨ns, hr, rfl, hp⟩
      · rcases hfile with hfile | ⟨out, hout, hfile⟩
        · rw [hfile]
          exact h.onDisk
        · exact .inr ⟨out, _, hfile, dagOfBytes_sealDag hr hout (hop _ hd), ns, hr, rfl, hp⟩
  | reboot secs =>
    rw [Site.step, bootDag, loadDag]
    rcases h.onDisk with ⟨hnone, hnil⟩ | ⟨now, d, hnow, hload, hext⟩
    · rw [hnone]
      refine ⟨⟨fun d hd => ?_, .inl ⟨hnone, hnil⟩⟩, fun _ _ _ => rfl⟩
      cases hd
      exact hnil ▸ extendsLog_new
    · simp only [hnow, if_true, hload]
      refine ⟨⟨fun d' hd' => ?_, .inr ⟨now, d, hnow, hload, hext⟩⟩, by simp⟩
      cases hd'
      exact hext

/-! ### Runs -/

/-- Every save of the run fits. -/
def SavesFit (blake3 : Bytes → NodeHash) (platform : Platform) : List SiteOp → Site → Prop
  | [], _ => True
  | op :: ops, s => op.Fits platform s ∧ SavesFit blake3 platform ops (s.step blake3 platform op)

theorem Continues.run {ops : List SiteOp} {s : Site} (h : Continues blake3 platform order s)
    (hfit : SavesFit blake3 platform ops s) :
    Continues blake3 platform order (s.run blake3 platform ops) ∧
      ∀ name, name ≠ dagFilename → name ≠ dagTmpFilename →
        (s.run blake3 platform ops).dir name = s.dir name := by
  induction ops generalizing s with
  | nil => exact ⟨h, fun _ _ _ => rfl⟩
  | cons op ops ih =>
    obtain ⟨hop, hops⟩ := hfit
    obtain ⟨h1, h2⟩ := h.step hop
    obtain ⟨h3, h4⟩ := ih h1 hops
    exact ⟨h3, fun name hd ht => (h4 name hd ht).trans (h2 name hd ht)⟩

/-- A file that stops the loader stops every boot. -/
theorem run_of_stopped {content : Bytes} {ops : List SiteOp} {s : Site} {f : Fault DagFileError}
    (hf : ∀ e, f ≠ .err e) (hload : dagOfBytes blake3 platform content = .error f)
    (hrun : s.running = none) (hfile : s.dir dagFilename = some content) :
    (s.run blake3 platform ops).dir dagFilename = some content := by
  induction ops generalizing s with
  | nil => exact hfile
  | cons op ops ih =>
    have hsame : s.step blake3 platform op = s := by
      obtain ⟨dir, running⟩ := s
      cases hrun
      cases op with
      | insert c => rfl
      | save saving => rfl
      | reboot secs =>
        have hfile' : dir dagFilename = some content := hfile
        simp only [Site.step, bootDag, loadDag, hfile', if_true, hload]
        cases f with
        | err e => exact absurd rfl (hf e)
        | panic => rfl
        | stack => rfl
    show ((s.step blake3 platform op).run blake3 platform ops).dir dagFilename = _
    rw [hsame]
    exact ih hrun hfile

/-- The bytes `now` are `content`, or a DAG whose log begins with the one in `content`. -/
def KeepsOrder (blake3 : Bytes → NodeHash) (platform : Platform) (content now : Bytes) : Prop :=
  now = content ∨ ∃ d d', dagOfBytes blake3 platform content = .ok (some d) ∧
    dagOfBytes blake3 platform now = .ok (some d') ∧ d.insertionOrder <+: d'.insertionOrder

/-- The file keeps the log of `content`, or `content` is kept in a quarantine file. -/
def Kept (blake3 : Bytes → NodeHash) (platform : Platform) (content : Bytes)
    (dir : Files String) : Prop :=
  (∃ now, dir dagFilename = some now ∧ KeepsOrder blake3 platform content now) ∨
    ∃ secs, dir (dagQuarantineFilename secs) = some content

/-- Every boot on `content`, and whatever follows it, keeps it. -/
def BootKeeps (blake3 : Bytes → NodeHash) (platform : Platform) (content : Bytes) : Prop :=
  ∀ dir secs readable ops, dir dagFilename = some content →
    SavesFit blake3 platform ops (bootDag blake3 platform secs readable dir) →
      Kept blake3 platform content
        ((bootDag blake3 platform secs readable dir).run blake3 platform ops).dir

/-- Unsealed, `content` is a map whose format version is another one than the loader's. -/
def OtherVersion (platform : Platform) (content : Bytes) : Prop :=
  ∃ plaintext map version, unsealFromAtRest platform content = .ok plaintext ∧
    decode plaintext = .ok (.map map) ∧ mapGetUint map "format_version" = .ok version ∧
      version ≠ dagFormatVersion

theorem otherVersion_iff {content : Bytes} : OtherVersion platform content ↔
    dagOfBytes blake3 platform content = .ok none := by
  constructor
  · rintro ⟨plaintext, map, version, h1, h2, h3, h4⟩
    simp [dagOfBytes, h1, fromCanonicalBytes, storedArray, decodeRoot, h2, h3, h4, fieldOf,
      Except.mapError]
  · intro h
    obtain ⟨plaintext, h1, h2⟩ := bind_eq_ok.1 h
    obtain ⟨stored, h3, h4⟩ := bind_eq_ok.1 (mapError_eq_ok.1 h2)
    cases stored with
    | some nodes =>
      obtain ⟨d, -, hd⟩ := bind_eq_ok.1 h4
      cases hd
    | none =>
      obtain ⟨root, h5, h6⟩ := bind_eq_ok.1 h3
      cases root with
      | map map =>
        simp only [ok_bind] at h6
        obtain ⟨version, h7, h8⟩ := bind_eq_ok.1 h6
        refine ⟨plaintext, map, version, mapError_eq_ok.1 h1, mapError_eq_ok.1 h5,
          mapError_eq_ok.1 h7, fun heq => ?_⟩
        rw [if_neg (not_not_intro heq)] at h8
        obtain ⟨nodes, -, hn⟩ := bind_eq_ok.1 h8
        cases hn
      | _ => simp at h6

theorem kept_of_loadable {content : Bytes} (h : ¬ OtherVersion platform content) :
    BootKeeps blake3 platform content := by
  intro dir secs readable ops hdir hfit
  -- a file that cannot be loaded is moved aside, and nothing moves it back
  have hquarantined : SavesFit blake3 platform ops
      ⟨dir.rename dagFilename (dagQuarantineFilename secs), some .new⟩ →
      Kept blake3 platform content (Site.run blake3 platform
        ⟨dir.rename dagFilename (dagQuarantineFilename secs), some .new⟩ ops).dir := by
    intro hfit
    have hstart : Continues blake3 platform none
        ⟨dir.rename dagFilename (dagQuarantineFilename secs), some .new⟩ := by
      refine ⟨fun d hd => ?_, .inl ⟨Files.rename_source dagQuarantine_ne.1.symm, rfl⟩⟩
      cases hd
      exact extendsLog_new
    refine .inr ⟨secs, ?_⟩
    rw [(hstart.run hfit).2 _ dagQuarantine_ne.1 dagQuarantine_ne.2]
    exact Files.rename_target hdir
  unfold bootDag loadDag at hfit ⊢
  simp only [hdir] at hfit ⊢
  cases readable with
  | false => exact hquarantined hfit
  | true =>
    simp only [if_true] at hfit ⊢
    cases hload : dagOfBytes blake3 platform content with
    | ok loaded =>
      simp only [hload] at hfit ⊢
      cases loaded with
      | none => exact absurd (otherVersion_iff.2 hload) h
      | some d =>
        have hext := dagOfBytes_extendsLog hload
        have hstart : Continues blake3 platform (some d.insertionOrder) ⟨dir, some d⟩ := by
          refine ⟨fun d' hd => ?_, .inr ⟨content, d, hdir, hload, hext⟩⟩
          cases hd
          exact hext
        rcases (hstart.run hfit).1.onDisk with ⟨-, hnone⟩ | ⟨now, _, hnow, hload', ns, -, rfl, hp⟩
        · cases hnone
        · exact .inl ⟨now, hnow, .inr ⟨d, _, hload, hload', hp⟩⟩
    | error f =>
      simp only [hload] at hfit ⊢
      cases f with
      | err e => exact hquarantined hfit
      | panic =>
        exact .inl ⟨content, run_of_stopped (fun _ h => by cases h) hload rfl hdir, .inl rfl⟩
      | stack =>
        exact .inl ⟨content, run_of_stopped (fun _ h => by cases h) hload rfl hdir, .inl rfl⟩

/-! ### A file of another version -/

/-- A directory with nothing but the file. -/
def onlyDagFile (content : Bytes) : Files String :=
  fun name => if name = dagFilename then some content else none

theorem bootDag_otherVersion {content : Bytes} (h : OtherVersion platform content) (secs : Nat) :
    bootDag blake3 platform secs true (onlyDagFile content) =
      ⟨onlyDagFile content, some .new⟩ := by
  have hload : dagOfBytes blake3 platform content = .ok none := otherVersion_iff.1 h
  have hfile : onlyDagFile content dagFilename = some content := if_pos rfl
  simp only [bootDag, loadDag, hfile, if_true, hload]

/-- The first save replaces it, and nothing else holds it. -/
theorem lost_of_save {content salt out : Bytes} {calls : List Insertion}
    (h : OtherVersion platform content)
    (hseal : sealDag platform salt (insertAll blake3 calls) = .ok out)
    (hfits : SaveFits platform (insertAll blake3 calls)) :
    ¬ Kept blake3 platform content (Site.save platform ⟨salt, none⟩
      ⟨onlyDagFile content, some (insertAll blake3 calls)⟩ (insertAll blake3 calls)).dir := by
  have hother : dagOfBytes blake3 platform content = .ok none := otherVersion_iff.1 h
  have hloads : dagOfBytes blake3 platform out = .ok (some (insertAll blake3 calls)) := by
    obtain ⟨ns, hr, hd⟩ := insertAll_recorded blake3 calls
    rw [hd] at hseal hfits ⊢
    exact dagOfBytes_sealDag hr hseal hfits
  have hdir : (Site.save platform ⟨salt, none⟩
      ⟨onlyDagFile content, some (insertAll blake3 calls)⟩ (insertAll blake3 calls)).dir =
      ((onlyDagFile content).write dagTmpFilename out).rename dagTmpFilename dagFilename := by
    simp only [Site.save, saveDag, hseal]
  rw [hdir]
  rintro (⟨now, hnow, hkeeps⟩ | ⟨secs, hsecs⟩)
  · have hout : (onlyDagFile content).write dagTmpFilename out dagTmpFilename = some out :=
      Files.write_same
    cases Option.some.inj (hnow.symm.trans (Files.rename_target hout))
    rcases hkeeps with rfl | ⟨d, _, hd, -⟩
    · rw [hother] at hloads
      cases hloads
    · rw [hother] at hd
      cases hd
  · rw [Files.rename_of_ne dagQuarantine_ne.2 dagQuarantine_ne.1,
      Files.write_of_ne dagQuarantine_ne.2, onlyDagFile, if_neg dagQuarantine_ne.1] at hsecs
    cases hsecs

theorem saveFits_of_lt {d : Dag} (h : ∀ b ∈ d.toCanonicalBytes, b.length < 2 ^ 16) :
    SaveFits platform d :=
  fun _ b hb => (h b hb).trans (by decide)

theorem lost_of_otherVersion {content : Bytes} (h : OtherVersion platform content) :
    ¬ BootKeeps blake3 platform content := by
  intro hkeeps
  have hshort : ∀ b ∈ (insertAll blake3 []).toCanonicalBytes, b.length < 2 ^ 16 := by
    show ∀ b ∈ Dag.new.toCanonicalBytes, b.length < 2 ^ 16
    decide
  obtain ⟨bytes, hbytes⟩ := toCanonicalBytes_total (@recorded_nil blake3)
  obtain ⟨salt, out, hout⟩ := exists_seal (hshort bytes hbytes)
  have hseal : sealDag platform salt (insertAll blake3 []) = .ok out :=
    sealDag_eq_ok.2 ⟨bytes, hbytes, hout⟩
  have hrun := hkeeps (onlyDagFile content) 0 true [.save ⟨salt, none⟩] (if_pos rfl)
  rw [bootDag_otherVersion h] at hrun
  refine lost_of_save h hseal (saveFits_of_lt hshort) (hrun ⟨fun d hd => ?_, trivial⟩)
  cases hd
  exact saveFits_of_lt hshort

/-- A boot on a file, and whatever follows it, keeps what the file holds if and only if that is not
of another format version. -/
theorem log_kept (blake3 : Bytes → NodeHash) (platform : Platform) (content : Bytes) :
    BootKeeps blake3 platform content ↔ ¬ OtherVersion platform content :=
  ⟨fun h hother => lost_of_otherVersion hother h, kept_of_loadable⟩

/-- The log of a later version: one node. -/
def laterLogEntries : List (String × Value) :=
  [("format_version", .uint 2),
    ("nodes", .array [nodeValue (Insertion.node lengthHash ⟨[], "genesis_event:00", 0, []⟩)])]

def laterLog : Value := mapOf laterLogEntries

def laterLogPlain : Bytes := (encode laterLog).toOption.getD []

def laterLogFile : Bytes := (sealForAtRest none [] laterLogPlain).toOption.getD []

theorem laterLogFile_otherVersion : OtherVersion none laterLogFile := by
  have hshort : laterLogPlain.length < 2 ^ 16 := by decide +kernel
  obtain ⟨plain, hplain⟩ := encode_total laterLog
  have hlog : laterLogPlain = plain := by rw [laterLogPlain, hplain]; rfl
  obtain ⟨salt, out, hseal⟩ := @exists_seal none laterLogPlain hshort
  have hfile : laterLogFile = out := by
    have hsalt : sealForAtRest none [] laterLogPlain = .ok out := hseal
    rw [laterLogFile, hsalt]
    rfl
  have hne : laterLogPlain ≠ [] := by decide
  have hunseal := unseal_seal hseal (fun h => by cases h) hne
  have hwf : laterLog.WF := by
    refine mapOf_wf ?_
    simp [laterLogEntries, Value.WF, wfItems_iff, nodeValue_wf]
  rw [hlog] at hshort
  have hmem : plain.length ≤ isizeMax := by
    simp only [isizeMax]
    omega
  refine ⟨laterLogPlain, OrdMap.ofList utf8 laterLogEntries, 2, hfile ▸ hunseal, ?_, ?_, by decide⟩
  · rw [hlog]
    exact decode_of_encode hwf hplain hmem
  · simp [mapGetUint, mapGet, get_mapOf, laterLogEntries, OrdMap.get_cons, Value.uint?]

/-- The first node of a new log. -/
def newGenesis : Insertion := ⟨[], "genesis_event:01", 0, []⟩

/-- A boot on it, a first node, and a save. -/
theorem later_log_lost :
    ¬ Kept lengthHash none laterLogFile
      ((bootDag lengthHash none 0 true (onlyDagFile laterLogFile)).run lengthHash none
        [.insert newGenesis, .save ⟨[], none⟩]).dir := by
  have hshort : ∀ b ∈ (insertAll lengthHash [newGenesis]).toCanonicalBytes,
      b.length < 2 ^ 16 := by decide +kernel
  obtain ⟨ns, hr, hd⟩ := insertAll_recorded lengthHash [newGenesis]
  obtain ⟨bytes, hbytes⟩ := toCanonicalBytes_total hr
  rw [← hd] at hbytes
  obtain ⟨salt, out, hout⟩ := @exists_seal none bytes (hshort bytes hbytes)
  have hplain : sealForAtRest none [] bytes = .ok out := hout
  have hrun : (Site.run lengthHash none ⟨onlyDagFile laterLogFile, some .new⟩
      [.insert newGenesis, .save ⟨[], none⟩]) = Site.save none ⟨[], none⟩
        ⟨onlyDagFile laterLogFile, some (insertAll lengthHash [newGenesis])⟩
        (insertAll lengthHash [newGenesis]) := by
    simp only [Site.run, List.foldl_cons, List.foldl_nil, Site.step, Option.map_some, insertAll]
  rw [bootDag_otherVersion laterLogFile_otherVersion, hrun]
  exact lost_of_save laterLogFile_otherVersion (sealDag_eq_ok.2 ⟨bytes, hbytes, hplain⟩)
    (saveFits_of_lt hshort)

end Myco.Substrate
