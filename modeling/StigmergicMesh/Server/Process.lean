import StigmergicMesh.Checkpoint.Writes
import StigmergicMesh.Library.Projection
import StigmergicMesh.Server.Startup

/-!
# The process and its checkpoints

The ingress server with the savers of its field: the periodic loop, which runs beside the requests,
and the save at shutdown, which begins when the requests and the decay engine have ended and may
still have the loop beside it. Each write is a step. The next process warms up from what is left.

A process can be killed anywhere: what is proved about a run is proved about each of its prefixes.
-/

namespace StigmergicMesh.Server

open Checkpoint (CheckpointManager Codec MatrixSnapshot Saver Saving Stores WriteOutcome)

variable {K : Type*}

/-! ## The process -/

/-- A process: its requests with what they share, the stores, the save that the periodic loop is in
if it does not sleep, and the one at shutdown once it has begun. -/
structure Process (K : Type*) where
  ingress : IngressState K
  stores : Stores
  loop : Option (Saving K)
  shutdown : Option (Saving K)

def Process.field (s : Process K) : InMemoryField K := s.ingress.shared.field

/-- What happens in a process: a step of the ingress server, the loop waking up or the process
shutting down, with the time and the number of requests of the snapshot, and a write. -/
inductive ProcessEvent (K : Type*) where
  | serve (e : IngressEvent K)
  | wake (time : K) (totalRoutedRequests : Int)
  | stop (time : K) (totalRoutedRequests : Int)
  | write (saver : Saver) (outcome : WriteOutcome)

/-- The step of the ingress server. -/
def ProcessEvent.served? : ProcessEvent K → Option (IngressEvent K)
  | .serve e => some e
  | _ => none

/-- How a process starts. -/
def Process.start (x : Shared K) (st : Stores) : Process K := ⟨.start x, st, none, none⟩

/-- The save that a saver is in. -/
def Process.saving (s : Process K) : Saver → Option (Saving K)
  | .periodic => s.loop
  | .shutdown => s.shutdown

/-- A saver has made a write; the loop goes to sleep after the last one. -/
def Process.written (s : Process K) (next : Saving K × Stores) : Saver → Process K
  | .periodic =>
    { s with
      stores := next.2
      loop := if next.1.writes.isEmpty then none else some next.1 }
  | .shutdown => { s with stores := next.2, shutdown := some next.1 }

@[simp] theorem Process.ingress_written (s : Process K) (next : Saving K × Stores) (saver : Saver) :
    (s.written next saver).ingress = s.ingress := by
  cases saver <;> rfl

@[simp] theorem Process.stores_written (s : Process K) (next : Saving K × Stores) (saver : Saver) :
    (s.written next saver).stores = next.2 := by
  cases saver <;> rfl

/-- What a process was started with: `manager` is there if checkpoints are enabled, and `log` is
NumPy's logarithm. -/
structure Deployment (K : Type*) where
  platform : Platform K
  config : Config K
  manager : Option CheckpointManager
  codec : Codec K
  log : K → K

section Program

variable [Field K] [LinearOrder K] [Transcendental K]

/-- `create_snapshot`, and the writes that follow. -/
def Deployment.create (d : Deployment K) (s : Process K) (time : K) (totalRoutedRequests : Int) :
    Option (Saving K) :=
  d.manager.bind fun m =>
    (Checkpoint.createSnapshot d.log (some s.field) d.config.router time
      totalRoutedRequests).toOption.map fun snapshot => ⟨snapshot, m.writes⟩

variable [FloorRing K]

/-- One step of a process. -/
def Deployment.step (d : Deployment K) (s : Process K) : ProcessEvent K → Option (Process K)
  | .serve e =>
    match s.shutdown with
    | some _ => none
    | none => ((ingress d.platform d.config).step s.ingress e).map fun i =>
        { s with ingress := i }
  | .wake time total =>
    match s.loop with
    | some _ => none
    | none => (d.create s time total).map fun save => { s with loop := some save }
  | .stop time total =>
    match s.shutdown with
    | some _ => none
    | none => (d.create s time total).map fun save => { s with shutdown := some save }
  | .write saver outcome =>
    (s.saving saver).bind fun save =>
      (Saving.step d.codec (save, s.stores) outcome).map (s.written · saver)

variable (d : Deployment K)

/-- What one step of a process can do. -/
inductive Deployment.Moves (s : Process K) : ProcessEvent K → Process K → Prop where
  | serve {e i} : s.shutdown = none →
      (ingress d.platform d.config).step s.ingress e = some i →
      Moves s (.serve e) { s with ingress := i }
  | wake {time total save} : s.loop = none → d.create s time total = some save →
      Moves s (.wake time total) { s with loop := some save }
  | stop {time total save} : s.shutdown = none → d.create s time total = some save →
      Moves s (.stop time total) { s with shutdown := some save }
  | write {saver outcome snapshot w ws st} :
      s.saving saver = some ⟨snapshot, w :: ws⟩ →
      w.perform d.codec snapshot s.stores outcome = some st →
      Moves s (.write saver outcome) (s.written (⟨snapshot, outcome.remaining ws⟩, st) saver)

variable {d}

theorem Deployment.moves_of_step {s t : Process K} {e : ProcessEvent K} (h : d.step s e = some t) :
    d.Moves s e t := by
  cases e with
  | serve e =>
    simp only [step] at h
    split at h
    · cases h
    · obtain ⟨i, hi, rfl⟩ := Option.map_eq_some_iff.mp h
      exact .serve ‹_› hi
  | wake time total =>
    simp only [step] at h
    split at h
    · cases h
    · obtain ⟨save, hsave, rfl⟩ := Option.map_eq_some_iff.mp h
      exact .wake ‹_› hsave
  | stop time total =>
    simp only [step] at h
    split at h
    · cases h
    · obtain ⟨save, hsave, rfl⟩ := Option.map_eq_some_iff.mp h
      exact .stop ‹_› hsave
  | write saver outcome =>
    obtain ⟨⟨snapshot, writes⟩, hsaving, h⟩ := Option.bind_eq_some_iff.mp h
    obtain ⟨next, hnext, rfl⟩ := Option.map_eq_some_iff.mp h
    cases writes with
    | nil => cases hnext
    | cons w ws =>
      obtain ⟨st, hst, rfl⟩ := Option.map_eq_some_iff.mp hnext
      exact .write hsaving hst

/-- A process shows the ingress server its own steps. -/
def Deployment.ingressProjection (d : Deployment K) :
    Run.Projection d.step ((ingress d.platform d.config).step (τ := Nat)) where
  view s := s.ingress
  label _ e := e.served?
  visible := by
    intro s e t e' h hlabel
    cases moves_of_step h with
    | serve _ hi =>
      obtain rfl := Option.some.inj hlabel
      exact hi
    | wake | stop | write => cases hlabel
  hidden := by
    intro s e t h hlabel
    cases moves_of_step h with
    | serve => cases hlabel
    | wake | stop => rfl
    | write => exact s.ingress_written _ _

end Program

/-! ## Startup -/

/-- What a process finds when it starts: its configuration, in which `checkpoints` may be enabled,
the evaporations while it starts up, and whether Redis answers then. -/
structure Boot (K : Type*) where
  settings : Settings K
  around : Surroundings
  checkpoints : Bool
  ticks : List K
  reachable : Bool

/-- The field of a server that has started, when it is warmed up. -/
def Boot.cold [Field K] [LinearOrder K] (b : Boot K) (x : Shared K) : InMemoryField K :=
  x.field.run (b.ticks.map .applyEvaporation)

/-- `lifespan` up to its `yield`, with `_warmup_checkpoint`. -/
def boot [Field K] [LinearOrder K] (platform : Platform K) (codec : Codec K) (log : K → K)
    (b : Boot K) (st : Stores) : Except StartupError (Deployment K × Process K) :=
  match lifespan platform.lower b.settings b.around with
  | .error e => .error e
  | .ok (config, x) =>
    if b.checkpoints then
      let manager : CheckpointManager := ⟨config.redis⟩
      .ok (⟨platform, config, some manager, codec, log⟩,
        .start { x with
          field := Checkpoint.warmupCheckpoint manager codec b.reachable st (b.cold x) } st)
    else .ok (⟨platform, config, none, codec, log⟩, .start { x with field := b.cold x } st)

/-! ## What boots -/

theorem warmup_rowsOnly (m : CheckpointManager) (codec : Codec K) (reachable : Bool) (st : Stores)
    (f : InMemoryField K) :
    f.RowsOnly (Checkpoint.warmupCheckpoint m codec reachable st f) := by
  unfold Checkpoint.warmupCheckpoint
  split
  · exact .refl f
  · exact f.hydrateFromSnapshot_rowsOnly ..

/-- A server stays started if only rows of its field change. -/
theorem Started.of_rowsOnly [Field K] {config : Config K} {x : Shared K} (h : Started config x)
    {f : InMemoryField K} (hrows : x.field.RowsOnly f) : Started config { x with field := f } := by
  obtain ⟨router, hrouter, hnamed, hids⟩ := h.router
  exact ⟨⟨router, hrouter, hnamed, hids.trans hrows.nodeIds.symm⟩, hrows.consistent h.consistent,
    hrows.nodeIds ▸ h.nodeIds⟩

section Boot

variable [Field K] [LinearOrder K]

theorem Boot.cold_rowsOnly (b : Boot K) (x : Shared K) : x.field.RowsOnly (b.cold x) := by
  have evaporations : ∀ (ticks : List K) (f : InMemoryField K),
      f.RowsOnly (f.run (ticks.map .applyEvaporation)) := by
    intro ticks
    induction ticks with
    | nil => exact .refl
    | cons rate ticks ih => exact fun f => (f.applyEvaporation_rowsOnly rate).trans (ih _)
  exact evaporations b.ticks x.field

/-- The server that started up, with a field that has evaporated and was warmed up. -/
theorem of_boot {platform : Platform K} {codec : Codec K} {log : K → K} {b : Boot K} {st : Stores}
    {d : Deployment K} {p : Process K} (h : boot platform codec log b st = .ok (d, p)) :
    ∃ config x, lifespan platform.lower b.settings b.around = .ok (config, x) ∧
      d = ⟨platform, config, if b.checkpoints then some ⟨config.redis⟩ else none, codec, log⟩ ∧
      p = .start { x with
        field := if b.checkpoints then
          Checkpoint.warmupCheckpoint ⟨config.redis⟩ codec b.reachable st (b.cold x)
        else b.cold x } st := by
  simp only [boot] at h
  split at h
  · cases h
  · rename_i config x hx
    refine ⟨config, x, hx, ?_⟩
    split_ifs at h ⊢ <;>
    · obtain ⟨rfl, rfl⟩ := Prod.mk.inj (Except.ok.inj h)
      exact ⟨rfl, rfl⟩

theorem started_of_boot {platform : Platform K} {codec : Codec K} {log : K → K} {b : Boot K}
    {st : Stores} {d : Deployment K} {p : Process K}
    (h : boot platform codec log b st = .ok (d, p)) :
    ∃ x, p = .start x st ∧ Started d.config x := by
  obtain ⟨config, x, hx, rfl, rfl⟩ := of_boot h
  refine ⟨_, rfl, (started_of_lifespan hx).of_rowsOnly ?_⟩
  have hcold := b.cold_rowsOnly x
  split_ifs
  · exact hcold.trans (warmup_rowsOnly ..)
  · exact hcold

end Boot

end StigmergicMesh.Server
