import StigmergicMesh.Library.Dict
import StigmergicMesh.Library.Run
import Mathlib.Algebra.Order.Floor.Ring
import Mathlib.Data.Rat.Floor
import Mathlib.Logic.Function.Basic

/-!
# Saving and loading checkpoints

`CheckpointManager` writes a snapshot to two places, the file `snapshot_latest.json` and a Redis
key, each as well as it can, and loads from the Redis key first. Which of the writes fail, and what
a failed write leaves in its file, are inputs; so is what `model_dump_json` and
`model_validate_json` do, as a `Codec`.

`saves_load_iff` says after which saves a load gives the snapshot back: a Redis key that still
holds another snapshot shadows the file.
-/

namespace StigmergicMesh.Checkpoint

structure MatrixSnapshot (K : Type*) where
  timestamp : K
  version : String
  nodeMetrics : Dict String (Dict String K)
  entropyRate : K
  totalRoutedRequests : Int

/-- What is in a file: text, or bytes that are not UTF-8. -/
inductive Contents where
  | text (s : String)
  | undecodable

/-- `snapshot_latest.json`, and the archive files by the number in their names. -/
structure Disk where
  latest : Option Contents
  archive : Int → Option Contents

/-- The key of the latest checkpoint, as text, and the stream. -/
structure RedisStore where
  latest : Option String
  stream : List String

structure Stores where
  disk : Disk
  redis : RedisStore

/-- `model_dump_json` and `model_validate_json`, which may raise. -/
structure Codec (K : Type*) where
  dump : MatrixSnapshot K → String
  parse : String → Option (MatrixSnapshot K)

/-- The snapshot is read as it was written, and its text is not empty. -/
def Codec.Inverts {K : Type*} (codec : Codec K) (s : MatrixSnapshot K) : Prop :=
  codec.parse (codec.dump s) = some s ∧ codec.dump s ≠ ""

/-- The attributes of a manager that saving and loading read: whether it has a Redis client. The
storage path is that of the `Disk`. -/
structure CheckpointManager where
  redis : Bool

/-- How `_save_to_disk` goes: without an exception, or what raises `OSError` and what the failed
write has left in its file, if it has touched it. -/
inductive DiskOutcome where
  | makedirsFails
  | latestFails (left : Option Contents)
  | archiveFails (left : Option Contents)
  | written

/-- How `_save_to_redis` goes: a command that raises has been executed or not. -/
inductive RedisOutcome where
  | setFails
  | setRaises
  | xaddFails
  | xaddRaises
  | stored

/-- `SET` has been executed. -/
def RedisOutcome.Executed : RedisOutcome → Prop
  | .setFails => False
  | _ => True

structure Save (K : Type*) where
  snapshot : MatrixSnapshot K
  disk : DiskOutcome
  redis : RedisOutcome

/-- Where `save_checkpoint` says the snapshot is: the path of the latest file, or the Redis key. -/
inductive Location where
  | disk
  | redis

/-! ## Saving -/

namespace Disk

/-- A write to a file, `none` if the file is not touched. -/
def writeLatest (c : Option Contents) (d : Disk) : Disk := { d with latest := c.or d.latest }

def writeArchive (epoch : Int) (c : Option Contents) (d : Disk) : Disk :=
  { d with archive := Function.update d.archive epoch (c.or (d.archive epoch)) }

/-- `_save_to_disk`. -/
def save (epoch : Int) (data : String) (d : Disk) : DiskOutcome → Bool × Disk
  | .makedirsFails => (false, d)
  | .latestFails left => (false, d.writeLatest left)
  | .archiveFails left =>
    (false, (d.writeLatest (some (.text data))).writeArchive epoch left)
  | .written =>
    (true, (d.writeLatest (some (.text data))).writeArchive epoch (some (.text data)))

end Disk

namespace RedisStore

def set (data : String) (r : RedisStore) : RedisStore := { r with latest := some data }

def xadd (data : String) (r : RedisStore) : RedisStore := { r with stream := r.stream ++ [data] }

/-- `_save_to_redis` with a client. -/
def save (data : String) (r : RedisStore) : RedisOutcome → Bool × RedisStore
  | .setFails => (false, r)
  | .setRaises => (false, r.set data)
  | .xaddFails => (false, r.set data)
  | .xaddRaises => (false, (r.set data).xadd data)
  | .stored => (true, (r.set data).xadd data)

end RedisStore

section Saving

variable {K : Type*} [Field K] [LinearOrder K] [FloorRing K]

/-- `int(timestamp)`. -/
def epoch (timestamp : K) : Int := if 0 ≤ timestamp then ⌊timestamp⌋ else ⌈timestamp⌉

namespace CheckpointManager

/-- `save_checkpoint`. -/
def saveCheckpoint (m : CheckpointManager) (codec : Codec K) (save : Save K) (st : Stores) :
    Location × Stores :=
  let data := codec.dump save.snapshot
  let disk := st.disk.save (epoch save.snapshot.timestamp) data save.disk
  let redis := if m.redis then st.redis.save data save.redis else (false, st.redis)
  (if disk.1 then .disk else .redis, ⟨disk.2, redis.2⟩)

end CheckpointManager

end Saving

/-! ## Loading -/

section Loading

variable {K : Type*}

/-- What `GET` and `model_validate_json` give; the value of a missing or empty key is falsy. -/
def RedisStore.snapshot (codec : Codec K) (r : RedisStore) : Option (MatrixSnapshot K) :=
  match r.latest with
  | none => none
  | some raw => if raw = "" then none else codec.parse raw

/-- What `_read_snapshot_file` gives. -/
def Contents.snapshot (codec : Codec K) : Contents → Option (MatrixSnapshot K)
  | .text s => codec.parse s
  | .undecodable => none

def Disk.snapshot (codec : Codec K) (d : Disk) : Option (MatrixSnapshot K) :=
  d.latest.bind (Contents.snapshot codec)

/-- `load_latest_checkpoint`; `reachable` says whether Redis answers. -/
def CheckpointManager.loadLatestCheckpoint (m : CheckpointManager) (codec : Codec K)
    (reachable : Bool) (st : Stores) : Option (MatrixSnapshot K) :=
  if m.redis && reachable then (st.redis.snapshot codec).or (st.disk.snapshot codec)
  else st.disk.snapshot codec

end Loading

/-! ## A saved checkpoint is loaded -/

section Saved

variable {K : Type*} [Field K] [LinearOrder K] [FloorRing K]

namespace CheckpointManager

/-- After the save, with both backends reachable, a load gives the snapshot. -/
def LoadsSaved (m : CheckpointManager) (codec : Codec K) (st : Stores) (save : Save K) : Prop :=
  m.loadLatestCheckpoint codec true (m.saveCheckpoint codec save st).2 = some save.snapshot

/-- The file holds the snapshot after the save: it was written, or what it held or was left with
reads as the snapshot. -/
def FileHolds (codec : Codec K) (d : Disk) (s : MatrixSnapshot K) : DiskOutcome → Prop
  | .makedirsFails => d.snapshot codec = some s
  | .latestFails left => (d.writeLatest left).snapshot codec = some s
  | _ => True

/-- The snapshot is in the Redis key: `SET` was executed, or it was there. Or the key holds
nothing to load, and the file has it. -/
def Unshadowed (m : CheckpointManager) (codec : Codec K) (st : Stores) (save : Save K) : Prop :=
  (m.redis = true ∧ (save.redis.Executed ∨ st.redis.snapshot codec = some save.snapshot)) ∨
    (m.redis = true → ¬save.redis.Executed ∧ st.redis.snapshot codec = none) ∧
      FileHolds codec st.disk save.snapshot save.disk

/-- A manager saving one snapshot after the other. -/
def step (m : CheckpointManager) (codec : Codec K) (st : Stores) (save : Save K) :
    Option Stores :=
  some (m.saveCheckpoint codec save st).2

omit [Field K] [LinearOrder K] [FloorRing K] in
theorem snapshot_save_disk {codec : Codec K} {s : MatrixSnapshot K} (hs : codec.Inverts s)
    (epoch : Int) (d : Disk) (o : DiskOutcome) :
    (d.save epoch (codec.dump s) o).2.snapshot codec = some s ↔ FileHolds codec d s o := by
  cases o <;>
    simp [Disk.save, Disk.writeArchive, Disk.writeLatest, Disk.snapshot, Contents.snapshot,
      FileHolds, hs.1]

omit [Field K] [LinearOrder K] [FloorRing K] in
theorem snapshot_save_redis {codec : Codec K} {s : MatrixSnapshot K} (hs : codec.Inverts s)
    (r : RedisStore) (o : RedisOutcome) :
    (o.Executed → (r.save (codec.dump s) o).2.snapshot codec = some s) ∧
      (¬o.Executed → (r.save (codec.dump s) o).2 = r) := by
  cases o <;>
    simp [RedisStore.save, RedisStore.set, RedisStore.xadd, RedisStore.snapshot,
      RedisOutcome.Executed, hs.1, hs.2]

theorem loadsSaved_iff (m : CheckpointManager) {codec : Codec K} {save : Save K}
    (hs : codec.Inverts save.snapshot) (st : Stores) :
    m.LoadsSaved codec st save ↔ m.Unshadowed codec st save := by
  have hdisk := snapshot_save_disk hs (epoch save.snapshot.timestamp) st.disk save.disk
  obtain ⟨hset, hkept⟩ := snapshot_save_redis hs st.redis save.redis
  cases hm : m.redis with
  | false =>
    simpa [LoadsSaved, Unshadowed, loadLatestCheckpoint, saveCheckpoint, hm] using hdisk
  | true =>
    by_cases hexecuted : save.redis.Executed
    · simp [LoadsSaved, Unshadowed, loadLatestCheckpoint, saveCheckpoint, hm, hset hexecuted,
        hexecuted]
    · -- The key still holds what it held, and shadows the file if that is a snapshot.
      cases hold : st.redis.snapshot codec with
      | none =>
        simpa [LoadsSaved, Unshadowed, loadLatestCheckpoint, saveCheckpoint, hm,
          hkept hexecuted, hexecuted, hold] using hdisk
      | some old =>
        simp [LoadsSaved, Unshadowed, loadLatestCheckpoint, saveCheckpoint, hm,
          hkept hexecuted, hexecuted, hold]

/-- In every sequence of saves, each is loaded back exactly if each leaves its snapshot where the
load looks. -/
theorem saves_load_iff (m : CheckpointManager) (codec : Codec K) (st : Stores)
    (saves : List (Save K)) (hsaves : ∀ save ∈ saves, codec.Inverts save.snapshot) :
    Run.EachStep (m.step codec) (m.LoadsSaved codec) st saves ↔
      Run.EachStep (m.step codec) (m.Unshadowed codec) st saves := by
  refine Run.EachStep.congr (m.step codec) fun pre save post st' hes _ => ?_
  exact m.loadsSaved_iff (hsaves save (by simp [hes])) st'

end CheckpointManager

end Saved

/-! ## Two saves -/

def sampleSnapshot (timestamp : ℚ) : MatrixSnapshot ℚ := ⟨timestamp, "1.0", Dict.empty, 0, 0⟩

/-- What `model_dump_json` makes of a sample snapshot, given what it makes of its time. -/
def snapshotText (timestamp : String) : String :=
  "\x7b\"timestamp\":" ++ timestamp ++ ",\"version\":\"1.0\",\"node_metrics\":\x7b\x7d," ++
    "\"entropy_rate\":0.0,\"total_routed_requests\":0\x7d"

def earlyText : String := snapshotText "100.0"

def lateText : String := snapshotText "160.0"

theorem earlyText_ne_lateText : lateText ≠ earlyText := by
  simp only [earlyText, lateText, snapshotText, ne_eq, String.append_right_inj,
    String.append_left_inj]
  decide

def sampleCodec : Codec ℚ where
  dump := fun s => if s.timestamp = 100 then earlyText else lateText
  parse := fun text =>
    if text = earlyText then some (sampleSnapshot 100)
    else if text = lateText then some (sampleSnapshot 160)
    else none

theorem snapshotText_ne_empty (timestamp : String) : snapshotText timestamp ≠ "" := by
  rw [snapshotText, ne_eq, String.append_eq_empty_iff]
  exact fun h => absurd h.2 (by decide)

theorem sampleCodec_inverts :
    sampleCodec.Inverts (sampleSnapshot 100) ∧ sampleCodec.Inverts (sampleSnapshot 160) := by
  have hearly : earlyText ≠ "" := snapshotText_ne_empty "100.0"
  have hlate : lateText ≠ "" := snapshotText_ne_empty "160.0"
  constructor <;> constructor <;>
    simp [sampleCodec, sampleSnapshot, earlyText_ne_lateText, hearly, hlate]

def sampleManager : CheckpointManager := ⟨true⟩

def emptyStores : Stores := ⟨⟨none, fun _ => none⟩, ⟨none, []⟩⟩

/-- The disk is full at the second save. -/
def fullDiskSaves : List (Save ℚ) :=
  [⟨sampleSnapshot 100, .written, .stored⟩, ⟨sampleSnapshot 160, .latestFails none, .stored⟩]

theorem saves_load_iff_fullDisk :
    Run.EachStep (sampleManager.step sampleCodec) (sampleManager.LoadsSaved sampleCodec)
      emptyStores fullDiskSaves := by
  refine (sampleManager.saves_load_iff sampleCodec emptyStores fullDiskSaves ?_).mpr ?_
  · obtain ⟨hearly, hlate⟩ := sampleCodec_inverts
    simp [fullDiskSaves, hearly, hlate]
  · simp [fullDiskSaves, Run.eachStep_cons, CheckpointManager.Unshadowed, sampleManager,
      RedisOutcome.Executed]

/-- Redis does not take the second save, and a load gives the first. -/
theorem stale_key_shadows_file :
    ¬Run.EachStep (sampleManager.step sampleCodec) (sampleManager.LoadsSaved sampleCodec)
      emptyStores [⟨sampleSnapshot 100, .written, .stored⟩,
        ⟨sampleSnapshot 160, .written, .setFails⟩] := by
  intro h
  have hsecond := h [⟨sampleSnapshot 100, .written, .stored⟩]
    ⟨sampleSnapshot 160, .written, .setFails⟩ [] _ rfl rfl
  rw [sampleManager.loadsSaved_iff sampleCodec_inverts.2] at hsecond
  have hkey := (CheckpointManager.snapshot_save_redis sampleCodec_inverts.1 emptyStores.redis
    .stored).1 trivial
  rcases hsecond with ⟨-, hset | hheld⟩ | ⟨hnothing, -⟩
  · exact hset
  · have hsame : sampleSnapshot 100 = sampleSnapshot 160 :=
      Option.some.inj (hkey.symm.trans hheld)
    simp [sampleSnapshot] at hsame
  · have hmissing : some (sampleSnapshot 100) = none := hkey.symm.trans (hnothing rfl).2
    cases hmissing

end StigmergicMesh.Checkpoint
