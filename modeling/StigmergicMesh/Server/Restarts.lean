import StigmergicMesh.Server.Process

/-!
# Restarts

A process that shuts down while its periodic loop sleeps leaves the rows of its field in the file
and in the Redis key, so the next process starts with them. Along any history of processes, killed
or shut down at any point, the stores hold nothing but rows in range, and every process is
available.
-/

namespace StigmergicMesh.Server

open Checkpoint (CheckpointManager Codec Contents MatrixSnapshot Saver Saving Stores WriteOutcome)

variable {K : Type*} [Field K] [LinearOrder K] [Transcendental K]

/-! ## Snapshots of the field -/

/-- The node metrics of a snapshot of the field. -/
def metricsOf (f : InMemoryField K) : Dict String (Dict String K) :=
  .ofList (f.nodeIds.zip (f.state.map Row.metrics))

/-- What is in a slot shows the field. -/
def Shows (codec : Codec K) (f : InMemoryField K) (slot : Option (MatrixSnapshot K)) : Prop :=
  ∃ u, slot = some u ∧ codec.Inverts u ∧ u.nodeMetrics = metricsOf f

theorem of_create {d : Deployment K} {s : Process K} {time : K} {total : Int} {save : Saving K}
    (h : d.create s time total = some save) :
    save.snapshot.nodeMetrics = metricsOf s.field ∧
      ∃ m, d.manager = some m ∧ save.writes = m.writes := by
  obtain ⟨m, hm, h⟩ := Option.bind_eq_some_iff.mp h
  cases h
  exact ⟨rfl, m, hm, rfl⟩

/-- A field that is hydrated with the metrics of another one has the rows of the nodes of both from
there, and keeps its other rows. -/
theorem rowOf_hydrate {a b : InMemoryField K} (ha : a.Indexed) (hb : b.Indexed)
    (hne : a.nodeIds ≠ []) {s : MatrixSnapshot K} (hs : s.nodeMetrics = metricsOf a) {n : String}
    (hn : n ∈ b.nodeIds) :
    (b.hydrateFromSnapshot Except.ok s.toSnapshot).2.rowOf n =
      if n ∈ a.nodeIds then a.rowOf n else b.rowOf n := by
  obtain ⟨s', m, hs', hm, hget⟩ :=
    Checkpoint.createSnapshot_nodeMetrics (fun x => x) ha hne none s.timestamp 0
  obtain rfl := Except.ok.inj hs'
  have hsame : s.toSnapshot.nodeMetrics = .ok m := by
    rw [← hm, MatrixSnapshot.toSnapshot, hs]
    rfl
  rw [(hb.hydrateFromSnapshot hsame).2 n, hget]
  obtain ⟨r, hr⟩ := Option.isSome_iff_exists.mp ((hb.rowOf_isSome n).mpr hn)
  split_ifs with hna
  · obtain ⟨r', hr'⟩ := Option.isSome_iff_exists.mp ((ha.rowOf_isSome n).mpr hna)
    rw [hr, hr']
    exact congrArg some (Checkpoint.overlay_traces r' r)
  · have hnone : a.rowOf n = none := by
      rwa [← Option.not_isSome_iff_eq_none, ha.rowOf_isSome]
    rw [hnone]
    rfl

/-- A field is warmed up from a checkpoint of another one. -/
theorem rowOf_warmup {a b : InMemoryField K} (ha : a.Indexed) (hb : b.Indexed)
    (hne : a.nodeIds ≠ []) {m : CheckpointManager} {codec : Codec K} {reachable : Bool}
    {st : Stores} (h : Shows codec a (m.loadLatestCheckpoint codec reachable st)) {n : String}
    (hn : n ∈ b.nodeIds) :
    (Checkpoint.warmupCheckpoint m codec reachable st b).rowOf n =
      if n ∈ a.nodeIds then a.rowOf n else b.rowOf n := by
  obtain ⟨u, hu, -, hshows⟩ := h
  simp only [Checkpoint.warmupCheckpoint, hu]
  exact rowOf_hydrate ha hb hne hshows hn

/-! ## Shutting down -/

variable [FloorRing K]

/-- The snapshot that a step creates. -/
def Deployment.created (d : Deployment K) (s : Process K) :
    ProcessEvent K → Option (MatrixSnapshot K)
  | .wake time total => (d.create s time total).map Saving.snapshot
  | .stop time total => (d.create s time total).map Saving.snapshot
  | _ => none

def ProcessEvent.isStop : ProcessEvent K → Bool
  | .stop .. => true
  | _ => false

/-- No write fails. -/
def ProcessEvent.unfailing : ProcessEvent K → Bool
  | .write _ .done => true
  | .write .. => false
  | _ => true

/-- Snapshots can be read back, the loop sleeps when the process shuts down, and from then on no
write fails. -/
def Deployment.Orderly (d : Deployment K) (s : Process K) (e : ProcessEvent K) : Prop :=
  (∀ u ∈ d.created s e, d.codec.Inverts u) ∧ (e.isStop = true → s.loop.isNone = true) ∧
    (s.shutdown.isSome = true → e.unfailing = true)

/-- The process shuts down, and `final` is the save that it does: each saver has a snapshot that
shows the field, and so do the slots that `final` has written. -/
structure Stopping (d : Deployment K) (s : Process K) (final : Saving K) : Prop where
  manager : ∃ m, d.manager = some m
  saves : ∀ saver save, s.saving saver = some save →
    d.codec.Inverts save.snapshot ∧ save.snapshot.nodeMetrics = metricsOf s.field
  file : .latest ∉ final.writes → Shows d.codec s.field (s.stores.disk.snapshot d.codec)
  key : ∀ m ∈ d.manager, m.redis = true → .set ∉ final.writes →
    Shows d.codec s.field (s.stores.redis.snapshot d.codec)

variable {d : Deployment K}

omit [Transcendental K] in
/-- A write of a snapshot that shows the field. -/
theorem Shows.perform {f : InMemoryField K} {codec : Codec K} {u : MatrixSnapshot K}
    (hu : codec.Inverts u) (hshows : u.nodeMetrics = metricsOf f) {w : Checkpoint.Write}
    {st st' : Stores} (h : w.perform codec u st .done = some st') :
    (w = .latest ∨ Shows codec f (st.disk.snapshot codec) →
        Shows codec f (st'.disk.snapshot codec)) ∧
      (w = .set ∨ Shows codec f (st.redis.snapshot codec) →
        Shows codec f (st'.redis.snapshot codec)) := by
  obtain ⟨hdisk, hredis⟩ := Checkpoint.Write.perform_done hu h
  rw [hdisk, hredis]
  constructor
  · rintro hold
    split_ifs with hw
    · exact ⟨u, rfl, hu, hshows⟩
    · exact hold.resolve_left hw
  · rintro hold
    split_ifs with hw
    · exact ⟨u, rfl, hu, hshows⟩
    · exact hold.resolve_left hw

/-- One step of a process that shuts down. -/
theorem stopping_step {s t : Process K} {e : ProcessEvent K} (h : d.step s e = some t)
    (horderly : d.Orderly s e) (hs : ∀ final, s.shutdown = some final → Stopping d s final) :
    ∀ final, t.shutdown = some final → Stopping d t final := by
  intro final hfinal
  obtain ⟨hcreated, hstop, hwrite⟩ := horderly
  cases Deployment.moves_of_step h with
  | serve hnone => cases hnone.symm.trans hfinal
  | @wake time total save hasleep hcreate =>
    have hstopping := hs final hfinal
    refine { hstopping with saves := fun saver save' hsave => ?_ }
    cases saver with
    | periodic =>
      obtain rfl := Option.some.inj hsave
      exact ⟨hcreated _ (by simp [Deployment.created, hcreate]), (of_create hcreate).1⟩
    | shutdown => exact hstopping.saves .shutdown save' hsave
  | @stop time total save hnone hcreate =>
    obtain rfl := Option.some.inj hfinal
    obtain ⟨hshows, m, hm, hwrites⟩ := of_create hcreate
    refine ⟨⟨m, hm⟩, fun saver save' hsave => ?_, fun hlatest => ?_,
      fun m' hm' hredis hset => ?_⟩
    · cases saver with
      | periodic =>
        have hasleep : s.loop = none := Option.isNone_iff_eq_none.mp (hstop rfl)
        cases hasleep.symm.trans hsave
      | shutdown =>
        obtain rfl := Option.some.inj hsave
        exact ⟨hcreated _ (by simp [Deployment.created, hcreate]), hshows⟩
    · rw [hwrites] at hlatest
      exact absurd (by simp [CheckpointManager.writes]) hlatest
    · obtain rfl := Option.some.inj (hm.symm.trans hm')
      rw [hwrites] at hset
      exact absurd (by simp [CheckpointManager.writes, hredis]) hset
  | @write saver outcome u w ws st hsaving hst =>
    have hstopping : ∃ final₀, s.shutdown = some final₀ := by
      cases saver with
      | periodic => exact ⟨final, hfinal⟩
      | shutdown => exact ⟨_, hsaving⟩
    obtain ⟨final₀, hfinal₀⟩ := hstopping
    have hstopping := hs final₀ hfinal₀
    obtain ⟨hinverts, hshows⟩ := hstopping.saves saver _ hsaving
    have hdone : outcome = .done := by
      have hunfailing := hwrite (by rw [hfinal₀]; rfl)
      cases outcome with
      | done => rfl
      | fileRaises | commandRaises => cases hunfailing
    subst hdone
    obtain ⟨hfile, hkey⟩ := Shows.perform hinverts hshows hst
    cases saver with
    | periodic =>
      obtain rfl := Option.some.inj (hfinal₀.symm.trans hfinal)
      refine ⟨hstopping.manager, fun saver save' hsave => ?_,
        fun hlatest => hfile (Or.inr (hstopping.file hlatest)),
        fun m hm hredis hset => hkey (Or.inr (hstopping.key m hm hredis hset))⟩
      cases saver with
      | periodic =>
        have hsave : (if ws.isEmpty then none else some ⟨u, ws⟩) = some save' := hsave
        split_ifs at hsave
        obtain rfl := Option.some.inj hsave
        exact ⟨hinverts, hshows⟩
      | shutdown => exact hstopping.saves .shutdown save' hsave
    | shutdown =>
      obtain rfl := Option.some.inj hfinal
      obtain rfl := Option.some.inj (hsaving.symm.trans hfinal₀)
      refine ⟨hstopping.manager, fun saver save' hsave => ?_,
        fun (hlatest : Checkpoint.Write.latest ∉ ws) => hfile ?_,
        fun m hm hredis (hset : Checkpoint.Write.set ∉ ws) => hkey ?_⟩
      · cases saver with
        | periodic => exact hstopping.saves .periodic save' hsave
        | shutdown =>
          obtain rfl := Option.some.inj hsave
          exact ⟨hinverts, hshows⟩
      · by_cases hw : w = .latest
        · exact Or.inl hw
        · exact Or.inr (hstopping.file (by simpa [Ne.symm hw] using hlatest))
      · by_cases hw : w = .set
        · exact Or.inl hw
        · exact Or.inr (hstopping.key m hm hredis (by simpa [Ne.symm hw] using hset))

omit [FloorRing K] in
/-- Requests and evaporations rewrite rows in place. -/
theorem rowsOnly_ingress_run {platform : Platform K} {config : Config K} {x : Shared K}
    {es : List (IngressEvent K)} {s : IngressState K}
    (hrun : Run.execAll (ingress platform config).step (.start x) es = some s) :
    x.field.RowsOnly s.shared.field := by
  refine Run.execAll_invariant (ingress platform config).step
    (P := fun s => x.field.RowsOnly s.shared.field) (.refl _) ?_ hrun
  intro s e t hs hstep
  obtain ⟨tid, r, rfl, -, rfl⟩ | ⟨tid, i, p, y, q, rfl, -, hy, rfl⟩ | ⟨rate, y, rfl, hy, rfl⟩ :=
    (ingress platform config).step_cases hstep
  · exact hs
  · obtain ⟨ds, -, hfield, -⟩ := resume_deposits hy
    have hfield : y.field = s.shared.field.run (ds.map depositOp) := hfield
    exact hs.trans (hfield ▸ rowsOnly_run_deposits s.shared.field ds)
  · obtain rfl := Option.some.inj hy
    exact hs.trans (s.shared.field.applyEvaporation_rowsOnly rate)

theorem rowsOnly_run {p s : Process K} {x : Shared K} {st : Stores} (hp : p = .start x st)
    {es : List (ProcessEvent K)} (hrun : Run.execAll d.step p es = some s) :
    x.field.RowsOnly s.field := by
  subst hp
  exact rowsOnly_ingress_run (d.ingressProjection.execAll_trace hrun)

omit [Transcendental K] [FloorRing K] in
/-- What is loaded after a shutdown shows the field. -/
theorem Stopping.load {platform : Platform K} {codec : Codec K} {log : K → K} {b : Boot K}
    {st : Stores} {p s : Process K} {u : MatrixSnapshot K} (h : Stopping d s ⟨u, []⟩)
    (hboot : boot platform codec log b st = .ok (d, p)) (m : CheckpointManager)
    (hredis : m.redis = true → d.config.redis = true) (reachable : Bool) :
    Shows codec s.field (m.loadLatestCheckpoint codec reachable s.stores) := by
  obtain ⟨config, x, -, rfl, -⟩ := of_boot hboot
  obtain ⟨v, hv, hshows⟩ := h.file (by simp)
  unfold CheckpointManager.loadLatestCheckpoint
  split_ifs with hreads
  · obtain ⟨m', hm'⟩ := h.manager
    have hredis' : m'.redis = true := by
      have hm' : (if b.checkpoints then some _ else none) = some m' := hm'
      split_ifs at hm'
      obtain rfl := Option.some.inj hm'
      exact hredis (Bool.and_eq_true_iff.mp hreads).1
    obtain ⟨w, hw, hshows⟩ := h.key m' hm' hredis' (by simp)
    exact ⟨w, Option.or_eq_some_iff.mpr (Or.inl hw), hshows⟩
  · exact ⟨v, hv, hshows⟩

theorem stopping_run {platform : Platform K} {codec : Codec K} {log : K → K} {b : Boot K}
    {st : Stores} {p : Process K} (hboot : boot platform codec log b st = .ok (d, p))
    {es : List (ProcessEvent K)} {s : Process K} (hrun : Run.execAll d.step p es = some s)
    (horderly : Run.EachStep d.step d.Orderly p es) {final : Saving K}
    (hfinal : s.shutdown = some final) : Stopping d s final := by
  refine Run.EachStep.induction d.step
    (P := fun _ s => ∀ final, s.shutdown = some final → Stopping d s final) ?_
    (fun es s e t _ hs hG hstep => stopping_step hstep hG hs) es s hrun horderly final hfinal
  obtain ⟨x, rfl, -⟩ := started_of_boot hboot
  exact fun final hfinal => by cases hfinal

/-- A process has the rows of a field for the nodes of both, and for its other nodes those that it
has without checkpoints. -/
def TakesOver (platform : Platform K) (codec : Codec K) (log : K → K) (b : Boot K) (st : Stores)
    (f : InMemoryField K) (p : Process K) : Prop :=
  ∃ d cold, boot platform codec log { b with checkpoints := false } st = .ok (d, cold) ∧
    p.field.nodeIds = cold.field.nodeIds ∧
    ∀ n ∈ p.field.nodeIds, p.field.rowOf n =
      if n ∈ f.nodeIds then f.rowOf n else cold.field.rowOf n

omit [FloorRing K] in
/-- What boots from a checkpoint that shows a field. -/
theorem takesOver_of_boot {platform : Platform K} {codec : Codec K} {log : K → K} {b : Boot K}
    {st : Stores} {p : Process K} (hboot : boot platform codec log b st = .ok (d, p))
    (hcheckpoints : b.checkpoints = true) {f : InMemoryField K} (hf : f.Indexed)
    (hne : f.nodeIds ≠ [])
    (hshows : Shows codec f (CheckpointManager.loadLatestCheckpoint ⟨d.config.redis⟩ codec
      b.reachable st)) : TakesOver platform codec log b st f p := by
  obtain ⟨config, x, hx, rfl, rfl⟩ := of_boot hboot
  have hcold := ((b.cold_rowsOnly x).consistent (started_of_lifespan hx).consistent).indexed
  rw [if_pos hcheckpoints]
  refine ⟨⟨platform, config, none, codec, log⟩, .start { x with field := b.cold x } st, ?_, ?_,
    fun n hn => ?_⟩
  · simp [boot, hx, Boot.cold]
  · exact (warmup_rowsOnly ..).nodeIds
  · exact rowOf_warmup hf hcold hne hshows ((warmup_rowsOnly ..).nodeIds ▸ hn)

theorem indexed_of_run {platform : Platform K} {codec : Codec K} {log : K → K} {b : Boot K}
    {st : Stores} {p : Process K} (hboot : boot platform codec log b st = .ok (d, p))
    {es : List (ProcessEvent K)} {s : Process K} (hrun : Run.execAll d.step p es = some s) :
    s.field.Indexed ∧ s.field.nodeIds ≠ [] := by
  obtain ⟨x, hx, hstarted⟩ := started_of_boot hboot
  have hrows := rowsOnly_run hx hrun
  exact ⟨(hrows.consistent hstarted.consistent).indexed, hrows.nodeIds ▸ hstarted.nodeIds⟩

/-- A process whose loop sleeps when it shuts down, and whose last writes do not fail, hands over
its field: the next process with checkpoints has the row of each node that both have, and of its
other nodes the row it would have had without checkpoints. -/
theorem restart_keeps_rows (platform : Platform K) (codec : Codec K) (log : K → K)
    (first second : Boot K) (st : Stores) (d : Deployment K) (p : Process K)
    (hboot : boot platform codec log first st = .ok (d, p)) (es : List (ProcessEvent K))
    (s : Process K) (hrun : Run.execAll d.step p es = some s)
    (horderly : Run.EachStep d.step d.Orderly p es) (u : MatrixSnapshot K)
    (hsaved : s.shutdown = some ⟨u, []⟩) (d' : Deployment K) (p' : Process K)
    (hboot' : boot platform codec log second s.stores = .ok (d', p'))
    (hcheckpoints : second.checkpoints = true)
    (hredis : d'.config.redis = true → d.config.redis = true) :
    TakesOver platform codec log second s.stores s.field p' := by
  obtain ⟨hindexed, hne⟩ := indexed_of_run hboot hrun
  exact takesOver_of_boot hboot' hcheckpoints hindexed hne
    ((stopping_run hboot hrun horderly hsaved).load hboot _ hredis second.reachable)

/-! ## Migration -/

/-- `cmd_export` with a manager for its arguments: the file it writes, if there is a checkpoint;
`indent` is `json.dumps(json.loads(data), indent=2)`. -/
def cmdExport (m : CheckpointManager) (codec : Codec K) (indent : String → String)
    (reachable : Bool) (st : Stores) : Option Contents :=
  (m.loadLatestCheckpoint codec reachable st).map fun u => .text (indent (codec.dump u))

omit [Transcendental K] in
/-- A saved checkpoint is loaded from either store. -/
theorem load_saved {m m' : CheckpointManager} (hredis : m'.redis = true → m.redis = true)
    {codec : Codec K} {u : MatrixSnapshot K} (hu : codec.Inverts u) (reachable : Bool)
    (st : Stores) :
    m'.loadLatestCheckpoint codec reachable (m.saveCheckpoint codec ⟨u, .written, .stored⟩ st).2 =
      some u := by
  have hdisk := (CheckpointManager.snapshot_save_disk hu (Checkpoint.epoch u.timestamp) st.disk
    .written).mpr trivial
  have hkey := (CheckpointManager.snapshot_save_redis hu st.redis .stored).1 trivial
  unfold CheckpointManager.loadLatestCheckpoint
  split_ifs with hreads
  · have hclient := hredis (Bool.and_eq_true_iff.mp hreads).1
    simp [CheckpointManager.saveCheckpoint, hclient, hkey]
  · exact hdisk

/-- The checkpoint of one mesh, exported from its stores and imported into those of another one,
hands over the field too. -/
theorem migration_keeps_rows (platform : Platform K) (codec : Codec K) (log : K → K)
    (first second : Boot K) (st : Stores) (d : Deployment K) (p : Process K)
    (hboot : boot platform codec log first st = .ok (d, p)) (es : List (ProcessEvent K))
    (s : Process K) (hrun : Run.execAll d.step p es = some s)
    (horderly : Run.EachStep d.step d.Orderly p es) (u : MatrixSnapshot K)
    (hsaved : s.shutdown = some ⟨u, []⟩) (exporter importer : CheckpointManager)
    (hexporter : exporter.redis = true → d.config.redis = true) (indent : String → String)
    (hindent : ∀ u, codec.Inverts u → codec.parse (indent (codec.dump u)) = some u)
    (reachable : Bool) (file : Contents)
    (hexport : cmdExport exporter codec indent reachable s.stores = some file)
    (target target' : Stores) (location : Checkpoint.Location)
    (himport : Checkpoint.cmdImport importer codec file .written .stored target =
      some (location, target')) (d' : Deployment K) (p' : Process K)
    (hboot' : boot platform codec log second target' = .ok (d', p'))
    (hcheckpoints : second.checkpoints = true)
    (himporter : d'.config.redis = true → importer.redis = true) :
    TakesOver platform codec log second target' s.field p' := by
  obtain ⟨hindexed, hne⟩ := indexed_of_run hboot hrun
  obtain ⟨v, hv, hinverts, hshows⟩ :=
    (stopping_run hboot hrun horderly hsaved).load hboot exporter hexporter reachable
  simp only [cmdExport, hv, Option.map_some, Option.some.injEq] at hexport
  subst hexport
  simp only [Checkpoint.cmdImport, Checkpoint.Contents.snapshot, hindent v hinverts,
    Option.some.injEq] at himport
  refine takesOver_of_boot hboot' hcheckpoints hindexed hne ⟨v, ?_, hinverts, hshows⟩
  obtain ⟨-, rfl⟩ := Prod.mk.inj himport
  exact load_saved himporter hinverts second.reachable target

/-! ## Histories of processes -/

/-- What a failed write leaves in its file cannot be read, unless it is the snapshot. -/
def ProcessEvent.Tears (codec : Codec K) (s : Process K) : ProcessEvent K → Prop
  | .write saver outcome => ∀ save ∈ s.saving saver, outcome.Tears codec save.snapshot
  | _ => True

/-- The random generator draws the index of a node, workers answer in their own name and measure
nothing negative, snapshots can be read back, and files that were not written to their end
cannot. -/
def Deployment.Expected (d : Deployment K) (s : Process K) (e : ProcessEvent K) : Prop :=
  (∀ i ∈ e.served?, ValidDraw s.ingress i ∧ CarriesNodeId s.ingress i ∧ Measured i) ∧
    (∀ u ∈ d.created s e, d.codec.Inverts u) ∧ e.Tears d.codec s

/-- All traces of a checkpoint are in range. -/
def SnapshotInRange (u : MatrixSnapshot K) : Prop :=
  ∀ e ∈ u.nodeMetrics.entries, (Checkpoint.tracesOf e.2).InRange

/-- Nothing but traces in range can be loaded. -/
def StoresInRange (codec : Codec K) (st : Stores) : Prop :=
  ∀ u, st.Holds codec u → SnapshotInRange u

/-- The savers of a process write, and its stores hold, nothing but traces in range. -/
structure Ranged (codec : Codec K) (s : Process K) : Prop where
  saves : ∀ saver save, s.saving saver = some save →
    codec.Inverts save.snapshot ∧ SnapshotInRange save.snapshot
  stores : StoresInRange codec s.stores

omit [Transcendental K] [FloorRing K] in
theorem snapshotInRange_of_rows {f : InMemoryField K} (hrows : ∀ r ∈ f.state, r.InRange)
    {u : MatrixSnapshot K} (hu : u.nodeMetrics = metricsOf f) : SnapshotInRange u := by
  rintro ⟨n, metrics⟩ he
  rw [hu] at he
  have hget := (Dict.get?_eq_some_iff _ n metrics).mpr he
  obtain ⟨-, hmem⟩ := List.of_mem_zip (Dict.mem_of_get?_ofList hget)
  obtain ⟨r, hr, rfl⟩ := List.mem_map.mp hmem
  have hin := hrows r hr
  exact ⟨fun v hv => Option.some.inj hv ▸ ⟨hin.V_nonneg, hin.V_le_one⟩,
    fun l hl => Option.some.inj hl ▸ hin.L_nonneg, fun x hx => Option.some.inj hx ▸ hin.S_nonneg,
    fun c hc => Option.some.inj hc ▸ ⟨hin.C_nonneg, hin.C_le_one⟩⟩

/-- One step of a process whose rows are in range. -/
theorem ranged_step {s t : Process K} {e : ProcessEvent K} (h : d.step s e = some t)
    (hrows : ∀ r ∈ s.field.state, r.InRange) (he : d.Expected s e) (hs : Ranged d.codec s) :
    Ranged d.codec t := by
  obtain ⟨-, hcreated, htears⟩ := he
  cases Deployment.moves_of_step h with
  | serve => exact ⟨hs.saves, hs.stores⟩
  | @wake time total save hasleep hcreate =>
    refine ⟨fun saver save' hsave => ?_, hs.stores⟩
    cases saver with
    | periodic =>
      obtain rfl := Option.some.inj hsave
      exact ⟨hcreated _ (by simp [Deployment.created, hcreate]),
        snapshotInRange_of_rows hrows (of_create hcreate).1⟩
    | shutdown => exact hs.saves .shutdown save' hsave
  | @stop time total save hnone hcreate =>
    refine ⟨fun saver save' hsave => ?_, hs.stores⟩
    cases saver with
    | periodic => exact hs.saves .periodic save' hsave
    | shutdown =>
      obtain rfl := Option.some.inj hsave
      exact ⟨hcreated _ (by simp [Deployment.created, hcreate]),
        snapshotInRange_of_rows hrows (of_create hcreate).1⟩
  | @write saver outcome u w ws st hsaving hst =>
    obtain ⟨hinverts, hrange⟩ := hs.saves saver _ hsaving
    refine ⟨fun saver' save' hsave => ?_, fun v hv => ?_⟩
    · cases saver <;> cases saver'
      · have hsave : (if (outcome.remaining ws).isEmpty then none
            else some ⟨u, outcome.remaining ws⟩) = some save' := hsave
        split_ifs at hsave
        obtain rfl := Option.some.inj hsave
        exact ⟨hinverts, hrange⟩
      · exact hs.saves .shutdown save' hsave
      · exact hs.saves .periodic save' hsave
      · obtain rfl := Option.some.inj hsave
        exact ⟨hinverts, hrange⟩
    · rw [Process.stores_written] at hv
      obtain rfl | hold := Checkpoint.Write.holds_perform hinverts (htears _ hsaving) hst hv
      · exact hrange
      · exact hs.stores v hold

/-- A process: what it boots from, and what happens in it until it ends or is killed. -/
structure Generation (K : Type*) where
  start : Boot K
  events : List (ProcessEvent K)

section Generations

variable (platform : Platform K) (codec : Codec K) (log : K → K)

/-- The process at its end. -/
def Generation.run (st : Stores) (g : Generation K) : Option (Deployment K × Process K) :=
  match boot platform codec log g.start st with
  | .error _ => none
  | .ok (d, p) => (Run.execAll d.step p g.events).map (d, ·)

/-- The stores that the process leaves. -/
def Generation.leaves (st : Stores) (g : Generation K) : Option Stores :=
  (g.run platform codec log st).map fun last => last.2.stores

/-- The configuration is sound, and what happens is expected. -/
def Generation.Expected (st : Stores) (g : Generation K) : Prop :=
  g.start.settings.Sound ∧ ∀ d p, boot platform codec log g.start st = .ok (d, p) →
    Run.EachStep d.step d.Expected p g.events

end Generations

/-- A started server with a sound configuration and rows in range. -/
structure Fit (config : Config K) (x : Shared K) : Prop where
  started : Started config x
  sound : config.Sound
  scale : 0 ≤ x.field.saturationScale
  rows : ∀ r ∈ x.field.state, r.InRange

section Ordered

variable [IsStrictOrderedRing K]

/-- An expected run of a fit process. -/
theorem Fit.servesAll {x : Shared K} (h : Fit d.config x) {st : Stores}
    {es : List (ProcessEvent K)} {s : Process K}
    (hrun : Run.execAll d.step (.start x st) es = some s)
    (hexpected : Run.EachStep d.step d.Expected (.start x st) es) :
    ServesAll d.platform d.config s.ingress ∧ ∀ r ∈ s.field.state, r.InRange := by
  have hsees := d.ingressProjection.execAll_trace hrun
  have hserved : Run.EachStep (ingress d.platform d.config).step
      (fun s i => ValidDraw s i ∧ CarriesNodeId s i ∧ Measured i) (.start x)
      (d.ingressProjection.trace (.start x st) es) :=
    d.ingressProjection.eachStep_trace (fun hG _ hlabel => hG.1 _ hlabel) hrun hexpected
  have hmeasured := fun pre e post s hes hs => (hserved pre e post s hes hs).2.2
  exact ⟨servesAll_run h.started h.sound h.scale h.rows hsees
      (fun pre e post s hes hs => (hserved pre e post s hes hs).1)
      (fun pre e post s hes hs => (hserved pre e post s hes hs).2.1) hmeasured,
    inRange_run h.scale h.rows hsees hmeasured⟩

theorem Fit.ranged {x : Shared K} (h : Fit d.config x) {st : Stores}
    (hstores : StoresInRange d.codec st) {es : List (ProcessEvent K)} {s : Process K}
    (hrun : Run.execAll d.step (.start x st) es = some s)
    (hexpected : Run.EachStep d.step d.Expected (.start x st) es) : Ranged d.codec s := by
  refine Run.execAll_induction d.step
    (P := fun es s => Run.EachStep d.step d.Expected (.start x st) es → Ranged d.codec s)
    (fun _ => ⟨fun saver save hsave => (by cases saver <;> cases hsave), hstores⟩) ?_ es s hrun
    hexpected
  intro es s e t hs ih hstep hG
  exact ranged_step hstep (h.servesAll hs hG.init).2 (hG.last d.step hs) (ih hG.init)

omit [Transcendental K] [FloorRing K] in
/-- What boots from stores in range is fit. -/
theorem fit_of_boot {platform : Platform K} {codec : Codec K} {log : K → K} {b : Boot K}
    (hsettings : b.settings.Sound) {st : Stores} (hstores : StoresInRange codec st)
    {d : Deployment K} {p : Process K} (h : boot platform codec log b st = .ok (d, p)) :
    d.codec = codec ∧ ∃ x, p = .start x st ∧ Fit d.config x := by
  obtain ⟨x, hx, hstarted⟩ := started_of_boot h
  obtain ⟨config, x₀, hx₀, rfl, rfl⟩ := of_boot h
  obtain ⟨hsound, hscale, hrows⟩ := sound_of_lifespan hsettings hx₀
  have hcold : ∀ r ∈ (b.cold x₀).state, r.InRange := fun r hr =>
    (InMemoryField.run_inRange hscale hrows (fun op hop => by
      obtain ⟨rate, -, rfl⟩ := List.mem_map.mp hop
      trivial) r hr).1
  have hindexed := ((b.cold_rowsOnly x₀).consistent (started_of_lifespan hx₀).consistent).indexed
  obtain rfl : _ = x := congrArg (fun p => p.ingress.shared) hx
  refine ⟨rfl, _, rfl, hstarted, hsound, ?_, fun r hr => ?_⟩
  · have hsettings := (b.cold_rowsOnly x₀).settings.1
    split_ifs
    · rw [(warmup_rowsOnly ..).settings.1, hsettings]
      exact hscale
    · exact hsettings ▸ hscale
  · split_ifs at hr
    · unfold Checkpoint.warmupCheckpoint at hr
      split at hr
      · exact hcold r hr
      · rename_i u hload
        rcases Checkpoint.mem_hydrate_of_mem hindexed u hr with hold | ⟨e, he, r₀, hr₀, rfl⟩
        · exact hcold r hold
        · exact Checkpoint.InRange.overlay (hstores u (Checkpoint.holds_of_load hload) e he)
            (hcold r₀ (InMemoryField.mem_state_of_rowOf hr₀))
    · exact hcold r hr

/-- One process of a history. -/
theorem generation_fit {platform : Platform K} {codec : Codec K} {log : K → K} {g : Generation K}
    {st : Stores} (hstores : StoresInRange codec st)
    (hexpected : g.Expected platform codec log st) {d : Deployment K} {s : Process K}
    (hrun : g.run platform codec log st = some (d, s)) :
    ServesAll d.platform d.config s.ingress ∧ StoresInRange codec s.stores := by
  obtain ⟨hsettings, hevents⟩ := hexpected
  simp only [Generation.run] at hrun
  split at hrun
  · cases hrun
  · rename_i d' p hboot
    obtain ⟨s', hs, heq⟩ := Option.map_eq_some_iff.mp hrun
    obtain ⟨rfl, rfl⟩ := Prod.mk.inj heq
    obtain ⟨rfl, x, rfl, hfit⟩ := fit_of_boot hsettings hstores hboot
    have hevents := hevents _ _ hboot
    exact ⟨(hfit.servesAll hs hevents).1, (hfit.ranged hstores hs hevents).stores⟩

/-- Whatever processes have come before, each with its own configuration and killed or shut down
anywhere, the stores hold nothing but traces in range, and the process that runs now is available
all along. -/
theorem available_after_restarts (platform : Platform K) (codec : Codec K) (log : K → K)
    (st₀ : Stores) (hst₀ : StoresInRange codec st₀) (history : List (Generation K)) (st : Stores)
    (hhistory : Run.execAll (fun st g => g.leaves platform codec log st) st₀ history = some st)
    (hexpected : Run.EachStep (fun st g => g.leaves platform codec log st)
      (fun st g => g.Expected platform codec log st) st₀ history)
    (g : Generation K) (hg : g.Expected platform codec log st) (d : Deployment K) (s : Process K)
    (hrun : g.run platform codec log st = some (d, s)) :
    StoresInRange codec st ∧ ServesAll d.platform d.config s.ingress := by
  have hstores : StoresInRange codec st := by
    refine Run.EachStep.induction _ (P := fun _ st => StoresInRange codec st) hst₀ ?_ history st
      hhistory hexpected
    intro _ st g st' _ hst hG hstep
    obtain ⟨⟨d, s⟩, hs, rfl⟩ := Option.map_eq_some_iff.mp hstep
    exact (generation_fit hst hG hs).2
  exact ⟨hstores, (generation_fit hstores hg hrun).1⟩

end Ordered

/-! ## Two processes -/

section Sample

attribute [local instance] unitExp

deriving instance DecidableEq for Dict, Checkpoint.MatrixSnapshot, Checkpoint.Saving

instance (codec : Codec ℚ) (u : MatrixSnapshot ℚ) : Decidable (codec.Inverts u) :=
  inferInstanceAs (Decidable (_ ∧ _))

instance (d : Deployment ℚ) (s : Process ℚ) (e : ProcessEvent ℚ) : Decidable (d.Orderly s e) :=
  inferInstanceAs (Decidable ((∀ u ∈ d.created s e, d.codec.Inverts u) ∧ _ ∧ _))

/-- What the process of `answeredRun` saves when it shuts down. -/
def sampleCheckpoint : MatrixSnapshot ℚ :=
  ⟨200, "1.0", ⟨[("a", Row.metrics ⟨1, 3 / 10, 0, 1 / 2⟩)], by simp⟩, -1e-12, 1⟩

def sampleCheckpointText : String :=
  "\x7b\"timestamp\":200.0,\"version\":\"1.0\",\"node_metrics\":\x7b\"a\":\x7b\"V\":1.0," ++
    "\"L\":0.3,\"S\":0.0,\"C\":0.5\x7d\x7d,\"entropy_rate\":-1e-12,\"total_routed_requests\":1\x7d"

def indentedText : String :=
  "\x7b\n  \"timestamp\": 200.0,\n  \"version\": \"1.0\",\n  \"node_metrics\": \x7b\n" ++
    "    \"a\": \x7b\n      \"V\": 1.0,\n      \"L\": 0.3,\n      \"S\": 0.0,\n" ++
    "      \"C\": 0.5\n" ++
    "    \x7d\n  \x7d,\n  \"entropy_rate\": -1e-12,\n  \"total_routed_requests\": 1\n\x7d"

def sampleCodec : Codec ℚ where
  dump _ := sampleCheckpointText
  parse text :=
    if text = sampleCheckpointText ∨ text = indentedText then some sampleCheckpoint else none

def sampleBoot : Boot ℚ := ⟨sampleSettings, sampleSurroundings, true, [], true⟩

/-- Near one the logarithm is the distance from one. -/
def sampleDeployment : Deployment ℚ :=
  ⟨samplePlatform, sampleConfig, some ⟨true⟩, sampleCodec, (· - 1)⟩

/-- One request, and an orderly shutdown. -/
def sampleLife : List (ProcessEvent ℚ) :=
  answeredRun.map .serve ++ .stop 200 1 :: List.replicate 4 (.write .shutdown .done)

theorem boot_warm (st : Stores) : boot samplePlatform sampleCodec (· - 1) sampleBoot st =
    .ok (sampleDeployment, .start { sampleShared with
      field := Checkpoint.warmupCheckpoint ⟨true⟩ sampleCodec true st sampleShared.field } st) :=
  rfl

theorem boot_sample : boot samplePlatform sampleCodec (· - 1) sampleBoot Checkpoint.emptyStores =
    .ok (sampleDeployment, .start sampleShared Checkpoint.emptyStores) := rfl

theorem sampleLife_saves : ((Run.execAll sampleDeployment.step
    (.start sampleShared Checkpoint.emptyStores) sampleLife).bind Process.shutdown) =
      some ⟨sampleCheckpoint, []⟩ := by
  decide +kernel

theorem sampleLife_orderly : Run.EachStep sampleDeployment.step sampleDeployment.Orderly
    (.start sampleShared Checkpoint.emptyStores) sampleLife :=
  Run.eachStep_of_decide _ (by decide +kernel)

theorem restart_keeps_rows_sampleLife :
    ∃ s d p, Run.execAll sampleDeployment.step (.start sampleShared Checkpoint.emptyStores)
        sampleLife = some s ∧
      boot samplePlatform sampleCodec (· - 1) sampleBoot s.stores = .ok (d, p) ∧
      TakesOver samplePlatform sampleCodec (· - 1) sampleBoot s.stores s.field p := by
  obtain ⟨s, hs, hsaved⟩ := Option.bind_eq_some_iff.mp sampleLife_saves
  exact ⟨s, sampleDeployment, _, hs, rfl, restart_keeps_rows samplePlatform sampleCodec (· - 1)
    sampleBoot sampleBoot Checkpoint.emptyStores sampleDeployment _ boot_sample sampleLife s hs
    sampleLife_orderly sampleCheckpoint hsaved sampleDeployment _ rfl rfl id⟩

theorem parse_indentedText : sampleCodec.parse indentedText = some sampleCheckpoint := by
  simp [sampleCodec]

theorem eq_sampleCheckpoint {u : MatrixSnapshot ℚ} (hu : sampleCodec.Inverts u) :
    sampleCheckpoint = u := by
  simpa [sampleCodec] using hu.1

theorem migration_keeps_rows_sampleLife :
    ∃ s target d p, Run.execAll sampleDeployment.step (.start sampleShared Checkpoint.emptyStores)
        sampleLife = some s ∧
      boot samplePlatform sampleCodec (· - 1) sampleBoot target = .ok (d, p) ∧
      TakesOver samplePlatform sampleCodec (· - 1) sampleBoot target s.field p := by
  obtain ⟨s, hs, hsaved⟩ := Option.bind_eq_some_iff.mp sampleLife_saves
  obtain ⟨u, hu, -⟩ := (stopping_run boot_sample hs sampleLife_orderly hsaved).load boot_sample
    ⟨false⟩ (fun h => by cases h) true
  have hexport : cmdExport ⟨false⟩ sampleCodec (fun _ => indentedText) true s.stores =
      some (.text indentedText) := by
    rw [cmdExport, hu, Option.map_some]
  have himport : ∃ target, Checkpoint.cmdImport ⟨true⟩ sampleCodec (.text indentedText) .written
      .stored Checkpoint.emptyStores = some (.disk, target) := by
    simp only [Checkpoint.cmdImport, Checkpoint.Contents.snapshot, parse_indentedText]
    exact ⟨_, rfl⟩
  obtain ⟨target, htarget⟩ := himport
  exact ⟨s, target, sampleDeployment, _, hs, rfl, migration_keeps_rows samplePlatform sampleCodec
    (· - 1) sampleBoot sampleBoot Checkpoint.emptyStores sampleDeployment _ boot_sample sampleLife s
    hs sampleLife_orderly sampleCheckpoint hsaved ⟨false⟩ ⟨true⟩ (fun h => by cases h)
    (fun _ => indentedText)
    (fun u hu => eq_sampleCheckpoint hu ▸ parse_indentedText) true _ hexport
    Checkpoint.emptyStores target .disk htarget sampleDeployment _ rfl rfl fun _ => rfl⟩

instance (codec : Codec ℚ) (u : MatrixSnapshot ℚ) :
    (outcome : WriteOutcome) → Decidable (outcome.Tears codec u)
  | .done | .fileRaises none | .commandRaises _ => isTrue trivial
  | .fileRaises (some c) =>
    inferInstanceAs (Decidable (c.snapshot codec = none ∨ c.snapshot codec = some u))

instance (codec : Codec ℚ) (s : Process ℚ) :
    (e : ProcessEvent ℚ) → Decidable (e.Tears codec s)
  | .serve _ | .wake .. | .stop .. => isTrue trivial
  | .write saver outcome =>
    inferInstanceAs (Decidable (∀ save ∈ s.saving saver, outcome.Tears codec save.snapshot))

instance (d : Deployment ℚ) (s : Process ℚ) (e : ProcessEvent ℚ) : Decidable (d.Expected s e) :=
  inferInstanceAs (Decidable
    ((∀ i ∈ e.served?, ValidDraw s.ingress i ∧ CarriesNodeId s.ingress i ∧ Measured i) ∧
      (∀ u ∈ d.created s e, d.codec.Inverts u) ∧ e.Tears d.codec s))

theorem isSome_leaves_sampleLife : (Generation.leaves samplePlatform sampleCodec (· - 1)
    Checkpoint.emptyStores ⟨sampleBoot, sampleLife⟩).isSome = true := by
  decide +kernel

/-- What the process of `sampleLife` leaves to the next one. -/
def sampleStores : Stores := Option.get _ isSome_leaves_sampleLife

theorem available_after_restarts_sampleLife :
    ∃ d s, Generation.run samplePlatform sampleCodec (· - 1) sampleStores
        ⟨sampleBoot, answeredRun.map .serve⟩ = some (d, s) ∧
      ServesAll d.platform d.config s.ingress := by
  have hsound : sampleSettings.Sound :=
    ⟨fun w hw => (by cases hw), fun t ht => (by cases ht), fun k hk => (by cases hk)⟩
  have hrun : (Generation.run samplePlatform sampleCodec (· - 1) sampleStores
      ⟨sampleBoot, answeredRun.map .serve⟩).isSome = true := by decide +kernel
  obtain ⟨⟨d, s⟩, hs⟩ := Option.isSome_iff_exists.mp hrun
  refine ⟨d, s, hs, (available_after_restarts samplePlatform sampleCodec (· - 1)
    Checkpoint.emptyStores ?_ [⟨sampleBoot, sampleLife⟩] sampleStores ?_ ?_
    ⟨sampleBoot, answeredRun.map .serve⟩ ?_ d s hs).2⟩
  · rintro u (hfile | hkey)
    · cases hfile
    · cases hkey
  · exact congrArg (Option.bind · some) (Option.some_get isSome_leaves_sampleLife).symm
  · refine Run.EachStep.cons _ (t := sampleStores) ⟨hsound, fun d p hboot => ?_⟩
      (Option.some_get isSome_leaves_sampleLife).symm (Run.eachStep_nil _)
    obtain ⟨rfl, rfl⟩ := Prod.mk.inj (Except.ok.inj (boot_sample.symm.trans hboot))
    exact Run.eachStep_of_decide _ (by decide +kernel)
  · refine ⟨hsound, fun d p hboot => ?_⟩
    obtain ⟨rfl, rfl⟩ := Prod.mk.inj (Except.ok.inj ((boot_warm sampleStores).symm.trans hboot))
    exact Run.eachStep_of_decide _ (by decide +kernel)

end Sample

end StigmergicMesh.Server
