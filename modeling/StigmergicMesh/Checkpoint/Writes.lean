import StigmergicMesh.Checkpoint.Restored
import StigmergicMesh.Library.Run

/-!
# A save, write by write

The writes of a save one at a time, each of which may raise: what raises on disk skips the rest of
the disk, what raises in Redis skips the rest of Redis. With nothing in between they make up
`save_checkpoint`. A slot that is read between two writes holds what it held, or the snapshot.
-/

namespace StigmergicMesh.Checkpoint

/-- The writes of a save, in their order. -/
inductive Write where
  | latest
  | archive
  | set
  | xadd
  deriving DecidableEq

/-- How a write goes. One that raises has left its file with some contents if it touched it, and
its command has been executed or not. -/
inductive WriteOutcome where
  | done
  | fileRaises (left : Option Contents)
  | commandRaises (executed : Bool)

/-- A save in progress, with the writes that are left. -/
structure Saving (K : Type*) where
  snapshot : MatrixSnapshot K
  writes : List Write

/-- The writes of `_save_to_disk`, and those of `_save_to_redis` if there is a client. -/
def CheckpointManager.writes (m : CheckpointManager) : List Write :=
  [.latest, .archive] ++ if m.redis then [.set, .xadd] else []

/-- The writes that are still made after one. -/
def WriteOutcome.remaining : WriteOutcome → List Write → List Write
  | .done, ws => ws
  | .fileRaises _, ws => ws.filter fun w => w = .set ∨ w = .xadd
  | .commandRaises _, _ => []

section Definitions

variable {K : Type*} [Field K] [LinearOrder K] [FloorRing K]

/-- The effect of a write. -/
def Write.perform (codec : Codec K) (s : MatrixSnapshot K) (st : Stores) :
    Write → WriteOutcome → Option Stores
  | .latest, .done =>
    some { st with disk := st.disk.writeLatest (some (.text (codec.dump s))) }
  | .latest, .fileRaises left => some { st with disk := st.disk.writeLatest left }
  | .archive, .done =>
    some { st with
      disk := st.disk.writeArchive (epoch s.timestamp) (some (.text (codec.dump s))) }
  | .archive, .fileRaises left =>
    some { st with disk := st.disk.writeArchive (epoch s.timestamp) left }
  | .set, .done => some { st with redis := st.redis.set (codec.dump s) }
  | .set, .commandRaises executed =>
    some { st with redis := if executed then st.redis.set (codec.dump s) else st.redis }
  | .xadd, .done => some { st with redis := st.redis.xadd (codec.dump s) }
  | .xadd, .commandRaises executed =>
    some { st with redis := if executed then st.redis.xadd (codec.dump s) else st.redis }
  | _, _ => none

/-- One write of a save. -/
def Saving.step (codec : Codec K) (x : Saving K × Stores) (outcome : WriteOutcome) :
    Option (Saving K × Stores) :=
  match x.1.writes with
  | [] => none
  | w :: ws =>
    (w.perform codec x.1.snapshot x.2 outcome).map
      (⟨x.1.snapshot, outcome.remaining ws⟩, ·)

/-- How the writes of a save go that goes as `disk` and `redis` say. -/
def CheckpointManager.outcomes (m : CheckpointManager) (disk : DiskOutcome)
    (redis : RedisOutcome) : List WriteOutcome :=
  (match disk with
    | .makedirsFails => [.fileRaises none]
    | .latestFails left => [.fileRaises left]
    | .archiveFails left => [.done, .fileRaises left]
    | .written => [.done, .done]) ++
  if m.redis then
    match redis with
    | .setFails => [.commandRaises false]
    | .setRaises => [.commandRaises true]
    | .xaddFails => [.done, .commandRaises false]
    | .xaddRaises => [.done, .commandRaises true]
    | .stored => [.done, .done]
  else []

/-- The writes with nothing in between are `save_checkpoint`, however it goes. -/
theorem writes_alone (m : CheckpointManager) (codec : Codec K) (save : Save K) (st : Stores) :
    Run.execAll (Saving.step codec) (⟨save.snapshot, m.writes⟩, st)
        (m.outcomes save.disk save.redis) =
      some (⟨save.snapshot, []⟩, (m.saveCheckpoint codec save st).2) := by
  obtain ⟨s, disk, redis⟩ := save
  obtain ⟨_ | _⟩ := m
  · cases disk <;> rfl
  · cases disk <;> cases redis <;> rfl

end Definitions

/-! ## What a reader finds -/

section Readers

variable {K : Type*}

/-- What a load finds in the two slots. -/
def Stores.Holds (codec : Codec K) (st : Stores) (s : MatrixSnapshot K) : Prop :=
  st.disk.snapshot codec = some s ∨ st.redis.snapshot codec = some s

theorem holds_of_load {m : CheckpointManager} {codec : Codec K} {reachable : Bool} {st : Stores}
    {s : MatrixSnapshot K} (h : m.loadLatestCheckpoint codec reachable st = some s) :
    st.Holds codec s := by
  unfold CheckpointManager.loadLatestCheckpoint at h
  split_ifs at h
  · exact (Option.or_eq_some_iff.mp h).elim Or.inr fun hdisk => Or.inl hdisk.2
  · exact Or.inl h

/-- What a failed write leaves in its file cannot be read, unless it is the snapshot. -/
def WriteOutcome.Tears (codec : Codec K) (s : MatrixSnapshot K) (outcome : WriteOutcome) :
    Prop :=
  match outcome with
  | .fileRaises (some c) => c.snapshot codec = none ∨ c.snapshot codec = some s
  | _ => True

variable [Field K] [LinearOrder K] [FloorRing K]

/-- After a write a slot holds what it held, nothing, or the snapshot. -/
theorem Write.holds_perform {codec : Codec K} {s : MatrixSnapshot K} (hs : codec.Inverts s)
    {w : Write} {outcome : WriteOutcome} (ht : outcome.Tears codec s) {st st' : Stores}
    (h : w.perform codec s st outcome = some st') {u : MatrixSnapshot K}
    (hu : st'.Holds codec u) : u = s ∨ st.Holds codec u := by
  have hset : (st.redis.set (codec.dump s)).snapshot codec = some s := by
    simp [RedisStore.snapshot, RedisStore.set, hs.1, hs.2]
  cases w with
  | latest =>
    cases outcome with
    | done =>
      cases h
      exact hu.imp (fun hfile => Option.some.inj (hfile.symm.trans hs.1)) Or.inr
    | fileRaises left =>
      cases h
      cases left with
      | none => exact Or.inr hu
      | some c =>
        rcases hu with hfile | hkey
        · rcases ht with hnone | hsome
          · cases hfile.symm.trans hnone
          · exact Or.inl (Option.some.inj (hfile.symm.trans hsome))
        · exact Or.inr (Or.inr hkey)
    | commandRaises => cases h
  | archive => cases outcome <;> cases h <;> exact Or.inr hu
  | set =>
    have after : Stores.Holds codec { st with redis := st.redis.set (codec.dump s) } u →
        u = s ∨ st.Holds codec u := fun hu =>
      hu.elim (fun hfile => Or.inr (Or.inl hfile))
        fun hkey => Or.inl (Option.some.inj (hkey.symm.trans hset))
    cases outcome with
    | done =>
      cases h
      exact after hu
    | fileRaises => cases h
    | commandRaises executed =>
      cases h
      cases executed with
      | false => exact Or.inr hu
      | true => exact after hu
  | xadd =>
    cases outcome with
    | done =>
      cases h
      exact Or.inr hu
    | fileRaises => cases h
    | commandRaises executed => cases h; cases executed <;> exact Or.inr hu

/-- A write without a failure gives its slot the snapshot, and the other slot keeps what it has. -/
theorem Write.perform_done {codec : Codec K} {s : MatrixSnapshot K} (hs : codec.Inverts s)
    {w : Write} {st st' : Stores} (h : w.perform codec s st .done = some st') :
    st'.disk.snapshot codec = (if w = .latest then some s else st.disk.snapshot codec) ∧
      st'.redis.snapshot codec = if w = .set then some s else st.redis.snapshot codec := by
  cases w with
  | latest =>
    cases h
    exact ⟨hs.1, rfl⟩
  | archive | xadd =>
    cases h
    exact ⟨rfl, rfl⟩
  | set =>
    cases h
    exact ⟨rfl, by simp [RedisStore.snapshot, RedisStore.set, hs.1, hs.2]⟩

end Readers

end StigmergicMesh.Checkpoint
