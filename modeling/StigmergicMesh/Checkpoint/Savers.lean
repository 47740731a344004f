import StigmergicMesh.Library.Tasks
import StigmergicMesh.Checkpoint.Storage

/-!
# Savers side by side

The periodic loop and the shutdown save, with the creation of a snapshot and each of the four
writes as a step of its own; no write fails, and the clock does not go back. The loop is cancelled
after the shutdown save, so it may stop anywhere.

Each of them writes what it created some steps earlier. `InOrder` forbids to write a slot while
another saver has an older snapshot to write to it; under it neither slot goes back in time.
-/

namespace StigmergicMesh.Checkpoint

variable {K : Type*} [Field K] [LinearOrder K]

structure Shared (K : Type*) where
  stores : Stores
  clock : K

/-- What `create_snapshot` finds, beside the time. -/
structure Capture (K : Type*) where
  nodeMetrics : Dict String (Dict String K)
  entropyRate : K
  totalRoutedRequests : Int

def Capture.at (c : Capture K) (timestamp : K) : MatrixSnapshot K :=
  ⟨timestamp, "1.0", c.nodeMetrics, c.entropyRate, c.totalRoutedRequests⟩

/-- `start_periodic_checkpointing`, or `_shutdown_checkpoint`. -/
inductive Saver where
  | periodic
  | shutdown

/-- Where a saver is; from its creation on it holds the snapshot. -/
inductive Point (K : Type*) where
  | start (saver : Saver)
  | created (saver : Saver) (s : MatrixSnapshot K)
  | latestWritten (saver : Saver) (s : MatrixSnapshot K)
  | archived (saver : Saver) (s : MatrixSnapshot K)
  | keySet (saver : Saver) (s : MatrixSnapshot K)
  | saved (s : MatrixSnapshot K)

/-- Where a saver is after its last write: the loop sleeps and starts again. -/
def Saver.next (s : MatrixSnapshot K) : Saver → Point K
  | .periodic => .start .periodic
  | .shutdown => .saved s

namespace Shared

def writeLatest (data : String) (x : Shared K) : Shared K :=
  { x with stores.disk := x.stores.disk.writeLatest (some (.text data)) }

def writeArchive (epoch : Int) (data : String) (x : Shared K) : Shared K :=
  { x with stores.disk := x.stores.disk.writeArchive epoch (some (.text data)) }

def set (data : String) (x : Shared K) : Shared K :=
  { x with stores.redis := x.stores.redis.set data }

def xadd (data : String) (x : Shared K) : Shared K :=
  { x with stores.redis := x.stores.redis.xadd data }

/-- The clock moves on. -/
def tick (now : K) (x : Shared K) : Option (Shared K) :=
  if x.clock ≤ now then some { x with clock := now } else none

end Shared

variable [FloorRing K]

/-- One step of a saver. -/
def resume (codec : Codec K) (c : Capture K) (x : Shared K) :
    Point K → Option (Shared K × Point K)
  | .start saver => some (x, .created saver (c.at x.clock))
  | .created saver s => some (x.writeLatest (codec.dump s), .latestWritten saver s)
  | .latestWritten saver s =>
    some (x.writeArchive (epoch s.timestamp) (codec.dump s), .archived saver s)
  | .archived saver s => some (x.set (codec.dump s), .keySet saver s)
  | .keySet saver s => some (x.xadd (codec.dump s), saver.next s)
  | .saved _ => none

/-- The external events are the readings of the clock. -/
def program (codec : Codec K) : Tasks.Program (Shared K) Saver (Capture K) K (Point K) where
  entry := .start
  resume := resume codec
  external := Shared.tick

abbrev Event (K : Type*) := Tasks.Event Nat Saver (Capture K) K

abbrev State (K : Type*) := Tasks.State Nat (Shared K) (Point K)

/-- The writes with nothing in between are `save_checkpoint` without failures. -/
theorem save_alone (codec : Codec K) (x : Shared K) (saver : Saver) (s : MatrixSnapshot K)
    (c : Capture K) :
    Run.execAll (program codec).alone (x, .created saver s) (List.replicate 4 c) =
      some ({ x with stores :=
        (CheckpointManager.saveCheckpoint ⟨true⟩ codec ⟨s, .written, .stored⟩ x.stores).2 },
        saver.next s) := rfl

/-! ## Slots that never go back -/

/-- The slot holds a snapshot from `t` or later. -/
def AtLeast (t : K) (slot : Option (MatrixSnapshot K)) : Prop :=
  ∃ u, slot = some u ∧ t ≤ u.timestamp

/-- What the slot holds, if it is a snapshot, is from `t` or earlier. -/
def AtMost (t : K) (slot : Option (MatrixSnapshot K)) : Prop :=
  ∀ u, slot = some u → u.timestamp ≤ t

/-- No slot has gone back in time. -/
def Forward (codec : Codec K) (x y : Stores) : Prop :=
  (∀ u, x.disk.snapshot codec = some u → AtLeast u.timestamp (y.disk.snapshot codec)) ∧
    ∀ u, x.redis.snapshot codec = some u → AtLeast u.timestamp (y.redis.snapshot codec)

/-- No step of the run takes a slot back in time, and a shutdown save that is over has left both
slots at its snapshot or later. -/
structure NeverBack (codec : Codec K) (x₀ : Shared K) (es : List (Event K)) (s : State K) :
    Prop where
  forward : Run.EachStep (program codec).step (fun s e => ∀ t, (program codec).step s e = some t →
    Forward codec s.shared.stores t.shared.stores) (.start x₀) es
  final : ∀ tid u, s.task tid = some (.saved u) →
    AtLeast u.timestamp (s.shared.stores.disk.snapshot codec) ∧
      AtLeast u.timestamp (s.shared.stores.redis.snapshot codec)

/-! ## The order of the writes -/

/-- The snapshot that a saver has yet to write to the file. -/
def Point.fileDue : Point K → Option (MatrixSnapshot K)
  | .created _ s => some s
  | _ => none

/-- The snapshot that a saver has yet to write to the key. -/
def Point.keyDue : Point K → Option (MatrixSnapshot K)
  | .created _ s => some s
  | .latestWritten _ s => some s
  | .archived _ s => some s
  | _ => none

/-- No saver has an older snapshot to write to the slot that the step writes. -/
structure InOrder (s : State K) (e : Event K) : Prop where
  file : ∀ tid c saver u, e = .resume tid c → s.task tid = some (.created saver u) →
    ∀ tid' p v, s.task tid' = some p → p.fileDue = some v → u.timestamp ≤ v.timestamp
  key : ∀ tid c saver u, e = .resume tid c → s.task tid = some (.archived saver u) →
    ∀ tid' p v, s.task tid' = some p → p.keyDue = some v → u.timestamp ≤ v.timestamp

/-- A snapshot that the step creates is read as it was written. -/
def Readable (codec : Codec K) (s : State K) (e : Event K) : Prop :=
  ∀ tid c saver, e = .resume tid c → s.task tid = some (.start saver) →
    codec.Inverts (c.at s.shared.clock)

/-! ## One step -/

/-- The snapshot that a saver has written to the file. -/
def Point.fileDone : Point K → Option (MatrixSnapshot K)
  | .latestWritten _ s => some s
  | .archived _ s => some s
  | .keySet _ s => some s
  | .saved s => some s
  | _ => none

/-- The snapshot that a saver has written to the key. -/
def Point.keyDone : Point K → Option (MatrixSnapshot K)
  | .keySet _ s => some s
  | .saved s => some s
  | _ => none

/-- Where the slots are, seen from a saver: not after what it has yet to write to them, not before
what it has written. -/
structure Placed (codec : Codec K) (x : Shared K) (p : Point K) : Prop where
  readable : ∀ u, p.keyDue = some u → codec.Inverts u ∧ u.timestamp ≤ x.clock
  fileDue : ∀ u, p.fileDue = some u → AtMost u.timestamp (x.stores.disk.snapshot codec)
  keyDue : ∀ u, p.keyDue = some u → AtMost u.timestamp (x.stores.redis.snapshot codec)
  fileDone : ∀ u, p.fileDone = some u → AtLeast u.timestamp (x.stores.disk.snapshot codec)
  keyDone : ∀ u, p.keyDone = some u → AtLeast u.timestamp (x.stores.redis.snapshot codec)

omit [FloorRing K] [Field K] in
theorem AtLeast.trans {t : K} {slot slot' : Option (MatrixSnapshot K)} (h : AtLeast t slot)
    (hforward : ∀ u, slot = some u → AtLeast u.timestamp slot') : AtLeast t slot' := by
  obtain ⟨u, hu, htu⟩ := h
  obtain ⟨v, hv, huv⟩ := hforward u hu
  exact ⟨v, hv, htu.trans huv⟩

omit [FloorRing K] [Field K] in
theorem AtLeast.refl (slot : Option (MatrixSnapshot K)) :
    ∀ u, slot = some u → AtLeast u.timestamp slot :=
  fun u hu => ⟨u, hu, le_rfl⟩

omit [FloorRing K] [Field K] in
theorem AtMost.of_eq_some {t : K} {u : MatrixSnapshot K} {slot : Option (MatrixSnapshot K)}
    (hu : slot = some u) (ht : u.timestamp ≤ t) : AtMost t slot := by
  intro v hv
  obtain rfl : u = v := Option.some.inj (hu.symm.trans hv)
  exact ht

omit [FloorRing K] [Field K] in
/-- A write of a snapshot that is not older than the slot. -/
theorem AtMost.atLeast {u : MatrixSnapshot K} {slot slot' : Option (MatrixSnapshot K)}
    (h : AtMost u.timestamp slot) (hu : slot' = some u) :
    ∀ v, slot = some v → AtLeast v.timestamp slot' :=
  fun v hv => ⟨u, hu, h v hv⟩

omit [FloorRing K] [LinearOrder K] [Field K] in
theorem snapshot_writeLatest {codec : Codec K} {u : MatrixSnapshot K} (hu : codec.Inverts u)
    (x : Shared K) : (x.writeLatest (codec.dump u)).stores.disk.snapshot codec = some u := by
  simp [Shared.writeLatest, Disk.writeLatest, Disk.snapshot, Contents.snapshot, hu.1]

omit [FloorRing K] [LinearOrder K] [Field K] in
theorem snapshot_set {codec : Codec K} {u : MatrixSnapshot K} (hu : codec.Inverts u)
    (x : Shared K) : (x.set (codec.dump u)).stores.redis.snapshot codec = some u := by
  simp [Shared.set, RedisStore.set, RedisStore.snapshot, hu.1, hu.2]

/-- What a step does to the slots. -/
theorem resume_slots {codec : Codec K} {c : Capture K} {x y : Shared K} {p q : Point K}
    (hread : ∀ u, p.keyDue = some u → codec.Inverts u)
    (h : resume codec c x p = some (y, q)) :
    y.clock = x.clock ∧
      (y.stores.disk.snapshot codec = x.stores.disk.snapshot codec ∨
        ∃ saver u, p = .created saver u ∧ y.stores.disk.snapshot codec = some u) ∧
      (y.stores.redis.snapshot codec = x.stores.redis.snapshot codec ∨
        ∃ saver u, p = .archived saver u ∧ y.stores.redis.snapshot codec = some u) := by
  cases p with
  | created saver u =>
    cases h
    exact ⟨rfl, Or.inr ⟨saver, u, rfl, snapshot_writeLatest (hread u rfl) x⟩, Or.inl rfl⟩
  | archived saver u =>
    cases h
    exact ⟨rfl, Or.inl rfl, Or.inr ⟨saver, u, rfl, snapshot_set (hread u rfl) x⟩⟩
  | start saver | latestWritten saver u | keySet saver u =>
    cases h
    exact ⟨rfl, Or.inl rfl, Or.inl rfl⟩
  | saved u => cases h

/-- A step of a saver that is placed well takes no slot back. -/
theorem Placed.forward {codec : Codec K} {c : Capture K} {x y : Shared K} {p q : Point K}
    (hp : Placed codec x p) (h : resume codec c x p = some (y, q)) :
    Forward codec x.stores y.stores := by
  obtain ⟨-, hfile, hkey⟩ := resume_slots (fun u hu => (hp.readable u hu).1) h
  constructor
  · rcases hfile with hsame | ⟨saver, u, rfl, hu⟩
    · exact hsame ▸ AtLeast.refl _
    · exact (hp.fileDue u rfl).atLeast hu
  · rcases hkey with hsame | ⟨saver, u, rfl, hu⟩
    · exact hsame ▸ AtLeast.refl _
    · exact (hp.keyDue u rfl).atLeast hu

/-- Where a saver finds the slots after its own step. -/
theorem Placed.resume {codec : Codec K} {c : Capture K} {x y : Shared K} {p q : Point K}
    (hp : Placed codec x p) (hfile : AtMost x.clock (x.stores.disk.snapshot codec))
    (hkey : AtMost x.clock (x.stores.redis.snapshot codec))
    (hread : ∀ saver, p = .start saver → codec.Inverts (c.at x.clock))
    (h : Checkpoint.resume codec c x p = some (y, q)) : Placed codec y q := by
  cases p with
  | start saver =>
    cases h
    refine ⟨?_, ?_, ?_, by simp [Point.fileDone], by simp [Point.keyDone]⟩
    · rintro u ⟨⟩
      exact ⟨hread saver rfl, le_rfl⟩
    · rintro u ⟨⟩
      exact hfile
    · rintro u ⟨⟩
      exact hkey
  | created saver u =>
    cases h
    refine ⟨hp.readable, by simp [Point.fileDue], hp.keyDue, ?_, by simp [Point.keyDone]⟩
    rintro v ⟨⟩
    exact ⟨u, snapshot_writeLatest (hp.readable u rfl).1 x, le_rfl⟩
  | latestWritten saver u =>
    cases h
    exact ⟨hp.readable, by simp [Point.fileDue], hp.keyDue, hp.fileDone, by simp [Point.keyDone]⟩
  | archived saver u =>
    cases h
    refine ⟨by simp [Point.keyDue], by simp [Point.fileDue], by simp [Point.keyDue],
      hp.fileDone, ?_⟩
    rintro v ⟨⟩
    exact ⟨u, snapshot_set (hp.readable u rfl).1 x, le_rfl⟩
  | keySet saver u =>
    cases saver <;> cases h
    · constructor <;> rintro v ⟨⟩
    · exact ⟨by simp [Point.keyDue, Saver.next], by simp [Point.fileDue, Saver.next],
        by simp [Point.keyDue, Saver.next], hp.fileDone, hp.keyDone⟩
  | saved u => cases h

/-- What is placed well stays so when another saver writes in order. -/
theorem Placed.stable {codec : Codec K} {c : Capture K} {x y : Shared K} {p q : Point K}
    {r : Point K} (hr : Placed codec x r) (hp : Placed codec x p)
    (h : Checkpoint.resume codec c x p = some (y, q))
    (hfile : ∀ saver u, p = .created saver u → ∀ v, r.fileDue = some v →
      u.timestamp ≤ v.timestamp)
    (hkey : ∀ saver u, p = .archived saver u → ∀ v, r.keyDue = some v →
      u.timestamp ≤ v.timestamp) : Placed codec y r := by
  obtain ⟨hclock, hdisk, hredis⟩ := resume_slots (fun u hu => (hp.readable u hu).1) h
  obtain ⟨hfileForward, hkeyForward⟩ := hp.forward h
  refine ⟨fun u hu => hclock ▸ hr.readable u hu, fun v hv => ?_, fun v hv => ?_,
    fun v hv => (hr.fileDone v hv).trans hfileForward,
    fun v hv => (hr.keyDone v hv).trans hkeyForward⟩
  · rcases hdisk with hsame | ⟨saver, u, rfl, hu⟩
    · exact hsame ▸ hr.fileDue v hv
    · exact AtMost.of_eq_some hu (hfile saver u rfl v hv)
  · rcases hredis with hsame | ⟨saver, u, rfl, hu⟩
    · exact hsame ▸ hr.keyDue v hv
    · exact AtMost.of_eq_some hu (hkey saver u rfl v hv)

/-! ## Every run -/

omit [FloorRing K] [Field K] in
theorem AtMost.mono {t t' : K} {slot : Option (MatrixSnapshot K)} (h : AtMost t slot)
    (ht : t ≤ t') : AtMost t' slot :=
  fun u hu => (h u hu).trans ht

omit [FloorRing K] [Field K] in
theorem tick_spec {x y : Shared K} {now : K} (h : x.tick now = some y) :
    y.stores = x.stores ∧ x.clock ≤ y.clock := by
  unfold Shared.tick at h
  split at h <;> cases h
  exact ⟨rfl, ‹_›⟩

/-- No slot holds anything from the future. -/
def Present (codec : Codec K) (x : Shared K) : Prop :=
  AtMost x.clock (x.stores.disk.snapshot codec) ∧ AtMost x.clock (x.stores.redis.snapshot codec)

theorem saverOutline (codec : Codec K) {x₀ : Shared K} (h₀ : Present codec x₀) :
    (program codec).Outline (τ := Nat) x₀ (fun s e => Readable codec s e ∧ InOrder s e)
      (fun _ x => Present codec x) (fun _ _ x p => Placed codec x p) := by
  constructor
  · exact h₀
  · intro es s tid saver hs hann he
    refine ⟨hann.1, ?_⟩
    constructor <;> rintro v ⟨⟩
  · intro es s tid c p x q hs hann he hp hx
    have hplaced := hann.2 tid p hp
    obtain ⟨hclock, hdisk, hredis⟩ := resume_slots (fun u hu => (hplaced.readable u hu).1) hx
    refine ⟨⟨?_, ?_⟩, hplaced.resume hann.1.1 hann.1.2 ?_ hx⟩
    · rcases hdisk with hsame | ⟨saver, u, rfl, hu⟩
      · exact hsame ▸ hclock ▸ hann.1.1
      · exact AtMost.of_eq_some hu (hclock ▸ (hplaced.readable u rfl).2)
    · rcases hredis with hsame | ⟨saver, u, rfl, hu⟩
      · exact hsame ▸ hclock ▸ hann.1.2
      · exact AtMost.of_eq_some hu (hclock ▸ (hplaced.readable u rfl).2)
    · rintro saver rfl
      exact he.1 tid c saver rfl hp
  · intro es s now x hs hann he hx
    obtain ⟨hstores, hclock⟩ := tick_spec hx
    simp only [Present, hstores]
    exact ⟨hann.1.1.mono hclock, hann.1.2.mono hclock⟩
  · intro es s e t tid r hs hann he hstep hne hr hplaced
    obtain ⟨tid', saver, rfl, -, rfl⟩ | ⟨tid', c, p, x, q, rfl, hp, hx, rfl⟩ |
      ⟨now, x, rfl, hx, rfl⟩ := (program codec).step_cases hstep
    · exact hplaced
    · refine hplaced.stable (hann.2 tid' p hp) hx ?_ ?_
      · rintro saver u rfl v hv
        exact he.2.file tid' c saver u rfl hp tid r v hr hv
      · rintro saver u rfl v hv
        exact he.2.key tid' c saver u rfl hp tid r v hr hv
    · obtain ⟨hstores, hclock⟩ := tick_spec hx
      refine ⟨fun u hu => ?_, hstores ▸ hplaced.fileDue, hstores ▸ hplaced.keyDue,
        hstores ▸ hplaced.fileDone, hstores ▸ hplaced.keyDone⟩
      obtain ⟨hread, hle⟩ := hplaced.readable u hu
      exact ⟨hread, hle.trans hclock⟩

/-- In every run whose writes are in order the slots never go back in time. -/
theorem checkpoints_never_go_back (codec : Codec K) (x₀ : Shared K) (h₀ : Present codec x₀)
    (es : List (Event K)) (s : State K)
    (hrun : Run.execAll (program codec).step (.start x₀) es = some s)
    (hread : Run.EachStep (program codec).step (Readable codec) (.start x₀) es)
    (horder : Run.EachStep (program codec).step InOrder (.start x₀) es) :
    NeverBack codec x₀ es s := by
  have houtline := saverOutline codec h₀
  have hG : Run.EachStep (program codec).step (fun s e => Readable codec s e ∧ InOrder s e)
      (.start x₀) es := fun pre e post s hes hs =>
    ⟨hread pre e post s hes hs, horder pre e post s hes hs⟩
  constructor
  · refine houtline.eachStep (program codec) hG fun es s e hs hann he t hstep => ?_
    obtain ⟨tid', saver, rfl, -, rfl⟩ | ⟨tid', c, p, x, q, rfl, hp, hx, rfl⟩ |
      ⟨now, x, rfl, hx, rfl⟩ := (program codec).step_cases hstep
    · exact ⟨AtLeast.refl _, AtLeast.refl _⟩
    · exact (hann.2 tid' p hp).forward hx
    · obtain ⟨hstores, -⟩ := tick_spec hx
      exact hstores ▸ ⟨AtLeast.refl _, AtLeast.refl _⟩
  · intro tid u hu
    have hplaced := (houtline.run (program codec) hrun hG).2 tid _ hu
    exact ⟨hplaced.fileDone u rfl, hplaced.keyDone u rfl⟩

/-! ## The loop and the shutdown -/

/-- Nothing is stored, and it is 100. -/
def sampleStart : Shared ℚ := ⟨emptyStores, 100⟩

def sampleCapture : Capture ℚ := ⟨Dict.empty, 0, 0⟩

/-- The loop saves a snapshot; the shutdown saves one at 160 while the loop sleeps. -/
def sleepingRun : List (Event ℚ) :=
  [.spawn 0 .periodic] ++ List.replicate 5 (.resume 0 sampleCapture) ++
    [.external 160, .spawn 1 .shutdown] ++ List.replicate 5 (.resume 1 sampleCapture)

omit [Field K] [FloorRing K] in
/-- What has to be checked of a step of a saver. -/
theorem orderly_resume {codec : Codec K} {s : State K} {tid : Nat} {c : Capture K} {p : Point K}
    (hp : s.task tid = some p)
    (hread : ∀ saver, p = .start saver → codec.Inverts (c.at s.shared.clock))
    (hfile : ∀ saver u, p = .created saver u → ∀ tid' q v, s.task tid' = some q →
      q.fileDue = some v → u.timestamp ≤ v.timestamp)
    (hkey : ∀ saver u, p = .archived saver u → ∀ tid' q v, s.task tid' = some q →
      q.keyDue = some v → u.timestamp ≤ v.timestamp) :
    Readable codec s (.resume tid c) ∧ InOrder s (.resume tid c) := by
  have hpoint : ∀ tid' c' q, (.resume tid c : Event K) = .resume tid' c' →
      s.task tid' = some q → p = q := by
    rintro tid' c' q ⟨⟩ hq
    exact Option.some.inj (hp.symm.trans hq)
  constructor
  · rintro tid' c' saver ⟨⟩ hq
    exact hread saver (hpoint tid c _ rfl hq)
  · exact ⟨fun tid' c' saver u he hq => hfile saver u (hpoint tid' c' _ he hq),
      fun tid' c' saver u he hq => hkey saver u (hpoint tid' c' _ he hq)⟩

/-- A step that creates no snapshot and writes no slot. -/
def Point.Quiet : Point K → Prop
  | .latestWritten _ _ => True
  | .keySet _ _ => True
  | _ => False

omit [Field K] [FloorRing K] in
theorem orderly_quiet {codec : Codec K} {s : State K} {tid : Nat} {c : Capture K} {p : Point K}
    (hp : s.task tid = some p) (hquiet : p.Quiet) :
    Readable codec s (.resume tid c) ∧ InOrder s (.resume tid c) := by
  refine orderly_resume hp ?_ ?_ ?_
  · rintro saver rfl
    exact hquiet.elim
  · rintro saver u rfl
    exact hquiet.elim
  · rintro saver u rfl
    exact hquiet.elim

omit [Field K] [FloorRing K] in
theorem orderly_of_ne_resume {codec : Codec K} {s : State K} {e : Event K}
    (he : ∀ tid c, e ≠ .resume tid c) : Readable codec s e ∧ InOrder s e :=
  ⟨fun tid c _ h => absurd h (he tid c), fun tid c _ _ h => absurd h (he tid c),
    fun tid c _ _ h => absurd h (he tid c)⟩

theorem orderly_sleepingRun :
    Run.EachStep (program sampleCodec).step (fun s e => Readable sampleCodec s e ∧ InOrder s e)
      (.start sampleStart) sleepingRun := by
  simp only [sleepingRun, List.replicate, List.cons_append, List.nil_append]
  refine Run.EachStep.cons _ (orderly_of_ne_resume (by simp)) rfl ?_
  refine Run.EachStep.cons _ (orderly_resume rfl ?_ nofun nofun) rfl ?_
  · exact fun _ _ => sampleCodec_inverts.1
  refine Run.EachStep.cons _ (orderly_resume rfl nofun ?_ nofun) rfl ?_
  · rintro saver u ⟨⟩ (_ | tid) q v ⟨⟩ ⟨⟩
    exact le_rfl
  refine Run.EachStep.cons _ (orderly_quiet rfl trivial) rfl ?_
  refine Run.EachStep.cons _ (orderly_resume rfl nofun nofun ?_) rfl ?_
  · rintro saver u ⟨⟩ (_ | tid) q v ⟨⟩ ⟨⟩
    exact le_rfl
  refine Run.EachStep.cons _ (orderly_quiet rfl trivial) rfl ?_
  refine Run.EachStep.cons _ (orderly_of_ne_resume (by simp)) rfl ?_
  refine Run.EachStep.cons _ (orderly_of_ne_resume (by simp)) rfl ?_
  refine Run.EachStep.cons _ (orderly_resume rfl ?_ nofun nofun) rfl ?_
  · exact fun _ _ => sampleCodec_inverts.2
  -- The loop sleeps, so the shutdown save is the only one with something to write.
  refine Run.EachStep.cons _ (orderly_resume rfl nofun ?_ nofun) rfl ?_
  · rintro saver u ⟨⟩ (_ | _ | tid) q v ⟨⟩ ⟨⟩
    exact le_rfl
  refine Run.EachStep.cons _ (orderly_quiet rfl trivial) rfl ?_
  refine Run.EachStep.cons _ (orderly_resume rfl nofun nofun ?_) rfl ?_
  · rintro saver u ⟨⟩ (_ | _ | tid) q v ⟨⟩ ⟨⟩
    exact le_rfl
  exact Run.EachStep.cons _ (orderly_quiet rfl trivial) rfl (Run.eachStep_nil _)

theorem checkpoints_never_go_back_sleepingRun :
    ∃ s, Run.execAll (program sampleCodec).step (.start sampleStart) sleepingRun = some s ∧
      NeverBack sampleCodec sampleStart sleepingRun s := by
  have hempty : Present sampleCodec sampleStart := ⟨by rintro u ⟨⟩, by rintro u ⟨⟩⟩
  exact ⟨_, rfl, checkpoints_never_go_back sampleCodec sampleStart hempty sleepingRun _ rfl
    (fun pre e post s hes hs => (orderly_sleepingRun pre e post s hes hs).1)
    (fun pre e post s hes hs => (orderly_sleepingRun pre e post s hes hs).2)⟩

/-- The loop has created its snapshot when the shutdown comes, and writes the file after it. -/
def lateWriteRun : List (Event ℚ) :=
  [.spawn 0 .periodic, .resume 0 sampleCapture, .external 160, .spawn 1 .shutdown] ++
    List.replicate 5 (.resume 1 sampleCapture) ++ [.resume 0 sampleCapture]

theorem shutdown_snapshot_overwritten :
    ∃ s, Run.execAll (program sampleCodec).step (.start sampleStart) lateWriteRun = some s ∧
      ¬NeverBack sampleCodec sampleStart lateWriteRun s := by
  refine ⟨_, rfl, fun h => ?_⟩
  obtain ⟨⟨u, hu, hlate⟩, -⟩ := h.final 1 (sampleSnapshot 160) rfl
  have hfile : some (sampleSnapshot 100) = some u :=
    (snapshot_writeLatest sampleCodec_inverts.1 _).symm.trans hu
  obtain rfl := Option.some.inj hfile
  norm_num [sampleSnapshot] at hlate

end StigmergicMesh.Checkpoint
