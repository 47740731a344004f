import StigmergicMesh.Library.Tasks
import StigmergicMesh.Registry.Worker

/-!
# The methods of the registry between their awaits

Any number of registrations, heartbeats and prunings of one registry in progress, over the
heartbeat keys in Redis, which also expire. A call suspends in its requests to Redis and in its
calls of the memory field; a request is served, then its reply is delivered. `served` says which
of the two comes next.
-/

namespace StigmergicMesh.Registry

variable {K : Type*} [Field K] [LinearOrder K]

/-- The registry and which heartbeat keys exist. -/
structure Shared (K : Type*) where
  registry : WorkerRegistry K
  keys : String → Bool

inductive Call where
  | registerWorker (cfg : NodeConfig)
  | sendHeartbeat (nodeId : String)
  | pruneUnhealthyWorkers

/-- Where a call is, with the locals it keeps. -/
inductive Point where
  | start (c : Call)
  /-- In the `PUBLISH` of `register_worker`. -/
  | publishing (cfg : NodeConfig) (nodeId : String)
  /-- In the `SETEX` of `register_worker`. -/
  | registering (cfg : NodeConfig) (nodeId : String) (served : Bool)
  /-- In `add_node`. -/
  | adding (cfg : NodeConfig) (nodeId : String) (served : Bool)
  | registered (nodeId : String)
  /-- In the `SETEX` of `send_heartbeat`. -/
  | refreshing (nodeId : String) (served : Bool)
  | refreshed (nodeId : String)
  | ignored (nodeId : String)
  /-- In the `EXISTS` for a node, with the nodes that come after it. -/
  | checking (nodeId : String) (rest : List String) (reply : Option Bool)
  /-- In `deposit_trace`. -/
  | punishing (nodeId : String) (rest : List String) (served : Bool)
  | pruned
  | raised (e : FieldError)

namespace Shared

/-- `EXISTS` of the heartbeat key. -/
def alive (x : Shared K) (n : String) : Bool := x.keys (heartbeatKey n)

omit [Field K] [LinearOrder K] in
@[simp] theorem alive_registry (x : Shared K) (r : WorkerRegistry K) :
    ({ x with registry := r } : Shared K).alive = x.alive := rfl

/-- `SETEX` of the heartbeat key. -/
def setex (x : Shared K) (n : String) : Shared K :=
  { x with keys := Function.update x.keys (heartbeatKey n) true }

/-- The key runs out; a key that is not there cannot. -/
def expire (n : String) (x : Shared K) : Option (Shared K) :=
  if x.alive n then some { x with keys := Function.update x.keys (heartbeatKey n) false } else none

end Shared

/-- The loop of `prune_unhealthy_workers` at its head. -/
def scan : List String → Point
  | [] => .pruned
  | n :: rest => .checking n rest none

/-- Where a call is that goes on at `p` unless an exception comes. -/
def Point.orRaise (result : Except FieldError Unit) (p : Point) : Point :=
  match result with
  | .error e => .raised e
  | .ok () => p

@[simp] theorem Point.orRaise_ok (u : Unit) (p : Point) : orRaise (.ok u) p = p := rfl

/-- One step of a call, with what the clock shows. -/
def resume (now : K) (x : Shared K) : Point → Option (Shared K × Point)
  | .start (.registerWorker cfg) =>
    match cfg.nodeId with
    | none => some (x, .raised (.keyError "node_id"))
    | some n => some (x, .publishing cfg n)
  | .start (.sendHeartbeat n) =>
    if n ∈ x.registry.known.keys then some (x, .refreshing n false) else some (x, .ignored n)
  | .start .pruneUnhealthyWorkers => some (x, scan x.registry.known.keys)
  | .publishing cfg n => some (x, .registering cfg n false)
  | .registering cfg n false => some (x.setex n, .registering cfg n true)
  | .registering cfg n true =>
    let y := { x with
      registry := x.registry.remember n (.array (cfg.tags.map .string)) cfg.toJson now }
    if n ∈ x.registry.field.nodeIds then some (y, .registered n) else some (y, .adding cfg n false)
  | .adding cfg n false =>
    some ({ x with registry.field := x.registry.field.addNode n cfg.tags }, .adding cfg n true)
  | .adding _ n true => some (x, .registered n)
  | .refreshing n false => some (x.setex n, .refreshing n true)
  | .refreshing n true =>
    let touched := x.registry.touch n now
    some ({ x with registry := touched.2 }, .orRaise touched.1 (.refreshed n))
  | .checking n rest none => some (x, .checking n rest (some (x.alive n)))
  | .checking _ rest (some true) => some (x, scan rest)
  | .checking n rest (some false) => some (x, .punishing n rest false)
  | .punishing n rest false =>
    let punished := x.registry.punish n
    some ({ x with registry := punished.2 }, .orRaise punished.1 (.punishing n rest true))
  | .punishing n rest true =>
    let forgotten := x.registry.forget n
    some ({ x with registry := forgotten.2 }, .orRaise forgotten.1 (scan rest))
  | _ => none

/-- The steps of `resume` by name, with what the call has found out at each. -/
inductive Step (now : K) (x : Shared K) : Point → Shared K → Point → Prop where
  | unnamed {cfg} : cfg.nodeId = none →
      Step now x (.start (.registerWorker cfg)) x (.raised (.keyError "node_id"))
  | announce {cfg n} : cfg.nodeId = some n →
      Step now x (.start (.registerWorker cfg)) x (.publishing cfg n)
  | announced {cfg n} : Step now x (.publishing cfg n) x (.registering cfg n false)
  | setex {cfg n} : Step now x (.registering cfg n false) (x.setex n) (.registering cfg n true)
  | remember {cfg n} : n ∈ x.registry.field.nodeIds →
      Step now x (.registering cfg n true)
        { x with
          registry := x.registry.remember n (.array (cfg.tags.map .string)) cfg.toJson now }
        (.registered n)
  | rememberNew {cfg n} : n ∉ x.registry.field.nodeIds →
      Step now x (.registering cfg n true)
        { x with
          registry := x.registry.remember n (.array (cfg.tags.map .string)) cfg.toJson now }
        (.adding cfg n false)
  | addNode {cfg n} :
      Step now x (.adding cfg n false)
        { x with registry.field := x.registry.field.addNode n cfg.tags } (.adding cfg n true)
  | added {cfg n} : Step now x (.adding cfg n true) x (.registered n)
  | heartbeat {n} : n ∈ x.registry.known.keys →
      Step now x (.start (.sendHeartbeat n)) x (.refreshing n false)
  | ignore {n} : n ∉ x.registry.known.keys →
      Step now x (.start (.sendHeartbeat n)) x (.ignored n)
  | refresh {n} : Step now x (.refreshing n false) (x.setex n) (.refreshing n true)
  | touch {n} :
      Step now x (.refreshing n true) { x with registry := (x.registry.touch n now).2 }
        (.orRaise (x.registry.touch n now).1 (.refreshed n))
  | prune : Step now x (.start .pruneUnhealthyWorkers) x (scan x.registry.known.keys)
  | check {n rest} :
      Step now x (.checking n rest none) x (.checking n rest (some (x.alive n)))
  | healthy {n rest} : Step now x (.checking n rest (some true)) x (scan rest)
  | unhealthy {n rest} :
      Step now x (.checking n rest (some false)) x (.punishing n rest false)
  | punish {n rest} :
      Step now x (.punishing n rest false) { x with registry := (x.registry.punish n).2 }
        (.orRaise (x.registry.punish n).1 (.punishing n rest true))
  | forget {n rest} :
      Step now x (.punishing n rest true) { x with registry := (x.registry.forget n).2 }
        (.orRaise (x.registry.forget n).1 (scan rest))

theorem step_of_resume {now : K} {x y : Shared K} {p q : Point}
    (h : resume now x p = some (y, q)) : Step now x p y q := by
  cases p with
  | start c =>
    cases c with
    | registerWorker cfg =>
      simp only [resume] at h
      split at h <;> cases h
      · exact .unnamed ‹_›
      · exact .announce ‹_›
    | sendHeartbeat n =>
      simp only [resume] at h
      split at h <;> cases h
      · exact .heartbeat ‹_›
      · exact .ignore ‹_›
    | pruneUnhealthyWorkers =>
      cases h
      exact .prune
  | publishing cfg n =>
    cases h
    exact .announced
  | registering cfg n served =>
    cases served <;> simp only [resume] at h
    · cases h
      exact .setex
    · split at h <;> cases h
      · exact .remember ‹_›
      · exact .rememberNew ‹_›
  | adding cfg n served =>
    cases served <;> cases h
    · exact .addNode
    · exact .added
  | refreshing n served =>
    cases served <;> cases h
    · exact .refresh
    · exact .touch
  | checking n rest reply =>
    rcases reply with _ | _ | _ <;> cases h
    · exact .check
    · exact .unhealthy
    · exact .healthy
  | punishing n rest served =>
    cases served <;> cases h
    · exact .punish
    · exact .forget
  | _ => cases h

/-- The heartbeat key of a node expires. -/
structure Expiry where
  nodeId : String

def program : Tasks.Program (Shared K) Call K Expiry Point where
  entry := .start
  resume := resume
  external := fun e => Shared.expire e.nodeId

abbrev Event (K : Type*) := Tasks.Event Nat Call K Expiry

abbrev State (K : Type*) := Tasks.State Nat (Shared K) Point

/-! ## A call with nothing in between -/

/-- How a call has ended. -/
def Point.result : Point → Option (Except FieldError Unit)
  | .registered _ | .refreshed _ | .ignored _ | .pruned => some (.ok ())
  | .raised e => some (.error e)
  | _ => none

/-- A method that runs on its own, and the keys it sets. -/
def Shared.exec (now : K) (x : Shared K) : Call → Except FieldError Unit × Shared K
  | .registerWorker cfg =>
    let r := x.registry.registerWorker now cfg
    (r.1, { (cfg.nodeId.elim x x.setex) with registry := r.2 })
  | .sendHeartbeat n =>
    let r := x.registry.sendHeartbeat now n
    (r.1, { (if n ∈ x.registry.known.keys then x.setex n else x) with registry := r.2 })
  | .pruneUnhealthyWorkers =>
    let r := x.registry.pruneUnhealthyWorkers x.alive
    (r.1, { x with registry := r.2 })

theorem Point.result_orRaise (result : Except FieldError Unit) {p : Point}
    (hp : p.result = some (.ok ())) : (Point.orRaise result p).result = some result := by
  cases result with
  | error e => rfl
  | ok u => exact hp

/-- The reply to the `EXISTS` for the next node. -/
theorem check_alone (now : K) (x : Shared K) (n : String) (ids : List String) (k : Nat) :
    Run.execAll program.alone (x, scan (n :: ids)) (List.replicate (k + 1) now) =
      Run.execAll program.alone (x, .checking n ids (some (x.alive n)))
        (List.replicate k now) := by
  simp [List.replicate_succ, Tasks.Program.alone, program, resume, scan]

/-- A node without its key is punished. -/
theorem punish_alone (now : K) {x : Shared K} {n : String} (hdead : x.alive n = false)
    (ids : List String) (k : Nat) :
    Run.execAll program.alone (x, scan (n :: ids)) (List.replicate (k + 3) now) =
      Run.execAll program.alone ({ x with registry := (x.registry.punish n).2 },
        .orRaise (x.registry.punish n).1 (.punishing n ids true)) (List.replicate k now) := by
  rw [check_alone, hdead]
  simp [List.replicate_succ, Tasks.Program.alone, program, resume]

/-- A node that has been punished is forgotten. -/
theorem forget_alone (now : K) {x : Shared K} {n : String} (hdead : x.alive n = false)
    {r : WorkerRegistry K} (hpunish : x.registry.punish n = (.ok (), r)) (ids : List String)
    (k : Nat) :
    Run.execAll program.alone (x, scan (n :: ids)) (List.replicate (k + 4) now) =
      Run.execAll program.alone ({ x with registry := (r.forget n).2 },
        .orRaise (r.forget n).1 (scan ids)) (List.replicate k now) := by
  rw [punish_alone now hdead, hpunish]
  simp [List.replicate_succ, Tasks.Program.alone, program, resume]

/-- The loop of a pruning on its own is the loop of the method. -/
theorem scan_alone (now : K) (ids : List String) (x : Shared K) :
    ∃ k p, Run.execAll program.alone (x, scan ids) (List.replicate k now) =
        some ({ x with registry := (WorkerRegistry.pruneNodes x.alive ids x.registry).2 }, p) ∧
      p.result = some (WorkerRegistry.pruneNodes x.alive ids x.registry).1 := by
  induction ids generalizing x with
  | nil => exact ⟨0, _, rfl, rfl⟩
  | cons n ids ih =>
    by_cases halive : x.alive n = true
    · obtain ⟨k, p, hrun, hp⟩ := ih x
      refine ⟨k + 2, p, ?_, by simpa [WorkerRegistry.pruneNodes, halive] using hp⟩
      rw [check_alone, halive]
      simpa [List.replicate_succ, Tasks.Program.alone, program, resume,
        WorkerRegistry.pruneNodes, halive] using hrun
    · have hdead : x.alive n = false := by simpa using halive
      cases hpunish : x.registry.punish n with
      | mk result r =>
        cases result with
        | error e =>
          refine ⟨3, .raised e, ?_, ?_⟩
          · refine (punish_alone now hdead ids 0).trans ?_
            simp [WorkerRegistry.pruneNodes, hdead, hpunish, Point.orRaise]
          · simp [WorkerRegistry.pruneNodes, hdead, hpunish, Point.result]
        | ok u =>
          have hforgotten := forget_alone now hdead hpunish ids
          cases hforget : r.forget n with
          | mk result t =>
            simp only [hforget] at hforgotten
            cases result with
            | error e =>
              refine ⟨4, .raised e, ?_, ?_⟩
              · refine (hforgotten 0).trans ?_
                simp [WorkerRegistry.pruneNodes, hdead, hpunish, hforget, Point.orRaise]
              · simp [WorkerRegistry.pruneNodes, hdead, hpunish, hforget, Point.result]
            | ok u =>
              obtain ⟨k, p, hrun, hp⟩ := ih { x with registry := t }
              refine ⟨k + 4, p, ?_, ?_⟩
              · rw [hforgotten, Point.orRaise_ok, hrun]
                simp [WorkerRegistry.pruneNodes, hdead, hpunish, hforget]
              · simpa [WorkerRegistry.pruneNodes, hdead, hpunish, hforget] using hp

/-- A call with nothing in between is the method. -/
theorem run_alone (now : K) {s : State K} {tid : Nat} (hfree : s.task tid = none) (c : Call) :
    ∃ k p, Run.execAll program.step s
        (.spawn tid c :: (List.replicate k now).map (.resume tid)) =
          some (s.move tid (s.shared.exec now c).2 p) ∧
      p.result = some (s.shared.exec now c).1 := by
  obtain ⟨x, tasks⟩ := s
  suffices h : ∃ k p, Run.execAll program.alone (x, .start c) (List.replicate k now) =
      some ((x.exec now c).2, p) ∧ p.result = some (x.exec now c).1 by
    obtain ⟨k, p, hrun, hp⟩ := h
    exact ⟨k, p, (program.execAll_alone hfree _ _).trans (congrArg (Option.map _) hrun), hp⟩
  cases c with
  | registerWorker cfg =>
    cases hid : cfg.nodeId with
    | none =>
      refine ⟨1, .raised (.keyError "node_id"), ?_, ?_⟩ <;>
        simp [Tasks.Program.alone, program, resume, Shared.exec, WorkerRegistry.registerWorker,
          hid, Point.result]
    | some n =>
      by_cases hn : n ∈ x.registry.field.nodeIds
      · refine ⟨4, .registered n, ?_, ?_⟩ <;>
          simp [List.replicate_succ, Tasks.Program.alone, program, resume, Shared.exec,
            WorkerRegistry.registerWorker, WorkerRegistry.track, hid, hn, Point.result,
            Shared.setex]
      · refine ⟨6, .registered n, ?_, ?_⟩ <;>
          simp [List.replicate_succ, Tasks.Program.alone, program, resume, Shared.exec,
            WorkerRegistry.registerWorker, WorkerRegistry.track, hid, hn, Point.result,
            Shared.setex]
  | sendHeartbeat n =>
    by_cases hn : n ∈ x.registry.known.keys
    · refine ⟨3, .orRaise (x.registry.touch n now).1 (.refreshed n), ?_, ?_⟩
      · simp [List.replicate_succ, Tasks.Program.alone, program, resume, Shared.exec,
          WorkerRegistry.sendHeartbeat, hn, Shared.setex]
      · simp only [Shared.exec, WorkerRegistry.sendHeartbeat, hn, if_true]
        exact Point.result_orRaise _ rfl
    · refine ⟨1, .ignored n, ?_, ?_⟩ <;>
        simp [Tasks.Program.alone, program, resume, Shared.exec, WorkerRegistry.sendHeartbeat, hn,
          Point.result]
  | pruneUnhealthyWorkers =>
    obtain ⟨k, p, hrun, hp⟩ := scan_alone now x.registry.known.keys x
    have hstart : Run.execAll program.alone (x, .start .pruneUnhealthyWorkers)
        (List.replicate (k + 1) now) =
          Run.execAll program.alone (x, scan x.registry.known.keys) (List.replicate k now) := by
      simp [List.replicate_succ, Tasks.Program.alone, program, resume]
    exact ⟨k + 1, p, hstart.trans hrun, hp⟩

end StigmergicMesh.Registry
