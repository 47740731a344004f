import StigmergicMesh.Redis.Coroutines
import Mathlib.Tactic.IntervalCases

/-!
# Whose hash a value was read from

The methods that read every node send one `HGETALL` per id, suspend, and pair the replies with
`node_ids` as they find them when they resume. If the ids then are a prefix of the ids asked for,
or extend them, every reply still meets its own id (`attributed_run`). After a `remove_node` in
between, the replies meet the ids that have moved up (`removal_shifts_rows`).
-/

namespace StigmergicMesh.Redis

variable {K : Type*} [Field K] [LinearOrder K] [Transcendental K]

/-- In the run the `HGETALL`s of task `tid` were served in the store `store`. -/
def ReadsServed (x₀ : Mesh K) (es : List (MeshEvent K)) (tid : Nat) (store : Store K) : Prop :=
  ∃ pre clock post s i nodeIds w, es = pre ++ .resume tid clock :: post ∧
    Run.execAll Mesh.program.step (.start x₀) pre = some s ∧
    s.task tid = some ⟨i, .sent (.hgetall nodeIds) w⟩ ∧ s.shared.store = store

/-- The call has read the hashes of the nodes, and holds or has returned what it made of them. -/
def Point.HasRead : Point K → Prop
  | .replied (.hgetall _) _ _ => True
  | .sent (.hset _) (.evaporated _ _) => True
  | .returned (.stateVector _ _) => True
  | .returned (.stateDict _) => True
  | _ => False

/-- What such a call has for a node is computed from the hash of that node in `store`: the reply,
the mapping it writes, the row or the entry it returns. -/
def Point.ComputedFrom (store : Store K) : Point K → Prop
  | .replied (.hgetall asked) a _ => a = .hashes (RedisField.readAll asked store)
  | .sent (.hset mappings) (.evaporated factor now) => ∀ m ∈ mappings, ∃ flags,
    m.2 = RedisField.evaporationUpdates flags factor now (store.hgetall (nodeKey m.1))
  | .returned (.stateVector nodeIds rows) => rows = nodeIds.map store.rowAt
  | .returned (.stateDict state) => ∀ n row, state.get? n = some row → row = store.rowAt n
  | _ => True

def Point.Attributed (served : Store K → Prop) (p : Point K) : Prop :=
  p.HasRead → ∃ store, served store ∧ p.ComputedFrom store

/-- What every call returns and writes for a node is computed from that node's hash, in the store
in which the call's reads were served. -/
def Attributed (x₀ : Mesh K) (es : List (MeshEvent K)) (s : MeshState K) : Prop :=
  ∀ tid c, s.task tid = some c → c.point.Attributed (ReadsServed x₀ es tid)

/-- The ids that the replies meet, against the ids they were read for. -/
def Wait.Matches (nodeIds asked : List String) : Wait K → Prop
  -- The matrix has a row for every id, so no id may be new.
  | .stateVector => nodeIds <+: asked
  | _ => nodeIds <+: asked ∨ asked <+: nodeIds

/-- A call that resumes with hashes finds `node_ids` as it asked for them, but for ids added or
removed at the end. -/
def Aligned (s : MeshState K) : MeshEvent K → Prop
  | .resume tid _ => ∀ i asked a w f locked,
    s.task tid = some ⟨i, .replied (.hgetall asked) a w⟩ →
      s.shared.client i = some (f, locked) → w.Matches f.nodeIds asked
  | _ => True

/-! ## Replies and ids -/

theorem eq_of_mem_zip_map {α β : Type*} {xs ys : List α} (h : xs <+: ys ∨ ys <+: xs) (g : α → β)
    {n : α} {z : β} (hmem : (n, z) ∈ xs.zip (ys.map g)) : z = g n := by
  obtain ⟨k, hk⟩ := List.mem_iff_getElem?.mp hmem
  obtain ⟨hx, hz⟩ := List.getElem?_zip_eq_some.mp hk
  rw [List.getElem?_map] at hz
  obtain ⟨y, hy, rfl⟩ := Option.map_eq_some_iff.mp hz
  have same : ∀ {as bs : List α} {a b : α}, as <+: bs → as[k]? = some a → bs[k]? = some b →
      a = b := by
    rintro as _ a b ⟨rest, rfl⟩ ha hb
    have hk := (List.getElem?_eq_some_iff.mp ha).1
    rw [List.getElem?_append_left hk, ha] at hb
    exact Option.some.inj hb
  rcases h with h | h
  · exact congrArg g (same h hx hy).symm
  · exact congrArg g (same h hy hx)

omit [LinearOrder K] [Transcendental K] in
theorem stateRows_of_prefix {nodeIds asked : List String} (h : nodeIds <+: asked)
    (store : Store K) :
    RedisField.stateRows nodeIds.length (RedisField.readAll asked store) =
      nodeIds.map store.rowAt := by
  obtain ⟨rest, rfl⟩ := h
  simp [RedisField.stateRows, RedisField.readAll, Store.rowAt, Function.comp_def]

omit [Transcendental K] in
/-- A resumed call whose ids match attributes what it has read. -/
theorem computedFrom_onReply {f : RedisField K} {asked : List String} {w : Wait K}
    (hmatch : w.Matches f.nodeIds asked) {store : Store K} {clock : Clock K} {locked : Bool}
    {t : Turn K}
    (ht : f.onReply clock locked (.hashes (RedisField.readAll asked store)) w = some t) :
    t.point.ComputedFrom store := by
  cases w with
  | stateVector =>
    cases ht
    exact stateRows_of_prefix hmatch store
  | stateDict =>
    cases ht
    intro n row hrow
    have hmem := Dict.mem_of_get?_ofList hrow
    rw [RedisField.readAll, List.map_map] at hmem
    exact eq_of_mem_zip_map hmatch _ hmem
  | evaporation factor now =>
    cases ht
    intro m hm
    obtain ⟨p, hp, rfl⟩ := List.mem_map.mp hm
    refine ⟨f.decay, ?_⟩
    rw [eq_of_mem_zip_map hmatch (fun n => store.hgetall (nodeKey n)) hp]
  | _ => cases ht

/-! ## Points before a reading -/

section Points

omit [Transcendental K]

/-- The replies to other requests than `HGETALL`s hold no hashes. -/
def Point.Plain (p : Point K) : Prop :=
  ∀ r a w, p = .replied r a w → (∀ asked, r ≠ .hgetall asked) → a = .done

/-- A point at which a call waits for nothing it has read, and holds nothing of the kind. -/
structure Point.Fresh (p : Point K) : Prop where
  not_hasRead : ¬p.HasRead
  not_replied : ∀ r a w, p ≠ .replied r a w

omit [Field K] [LinearOrder K] in
theorem Point.Fresh.plain {p : Point K} (h : p.Fresh) : p.Plain := fun r a w hp =>
  absurd hp (h.not_replied r a w)

theorem body_fresh (now : K) (f : RedisField K) (c : Call K) : (f.body now c).2.Fresh := by
  cases c with
  | getStateVector | exportStateDict | applyEvaporation rate | removeNode n =>
    exact ⟨id, by rintro r a w ⟨⟩⟩
  | depositTrace n t | addNode n tags =>
    simp only [RedisField.body]
    split <;> exact ⟨id, by rintro r a w ⟨⟩⟩
  | hydrateFromSnapshot snapshot =>
    simp only [RedisField.body]
    split
    · exact ⟨id, by rintro r a w ⟨⟩⟩
    · split <;> exact ⟨id, by rintro r a w ⟨⟩⟩

theorem acquire_fresh (clock : Clock K) (f : RedisField K) (c : Call K) :
    (f.acquire clock c).point.Fresh := by
  simp only [RedisField.acquire]
  split
  · exact body_fresh clock.now f c
  · exact ⟨id, by rintro r a w ⟨⟩⟩

theorem enter_fresh (clock : Clock K) (f : RedisField K) (locked : Bool) (c : Call K) :
    (f.enter clock locked c).point.Fresh := by
  simp only [RedisField.enter]
  split
  · exact body_fresh clock.now f c
  · split
    · exact ⟨id, by rintro r a w ⟨⟩⟩
    · exact acquire_fresh clock f c

theorem begin_fresh (clock : Clock K) (f : RedisField K) (locked : Bool) (c : Call K) :
    (f.begin clock locked c).point.Fresh := by
  cases c with
  | applyEvaporation | removeNode =>
    simp only [RedisField.begin]
    split
    all_goals first | exact enter_fresh .. | exact ⟨id, by rintro r a w ⟨⟩⟩
  | _ => exact enter_fresh ..

theorem onReply_done_fresh {clock : Clock K} {f : RedisField K} {locked : Bool} {w : Wait K}
    {t : Turn K} (ht : f.onReply clock locked .done w = some t) : t.point.Fresh := by
  cases w with
  | script c =>
    cases ht
    exact body_fresh _ _ c
  | removed n =>
    simp only [RedisField.onReply] at ht
    split at ht <;> cases ht <;> exact ⟨id, by rintro r a w ⟨⟩⟩
  | stateVector | stateDict | evaporation => cases ht
  | _ =>
    cases ht
    exact ⟨id, by rintro r a w ⟨⟩⟩

theorem onReply_hashes_plain {clock : Clock K} {f : RedisField K} {locked : Bool}
    {w : Wait K} {raws : List (NodeHash K)} {t : Turn K}
    (ht : f.onReply clock locked (.hashes raws) w = some t) : t.point.Plain := by
  cases w <;> cases ht <;> rintro r a w ⟨⟩

end Points

/-! ## Every run -/

section Runs

variable {x₀ : Mesh K} {es : List (MeshEvent K)} {tid : Nat}

theorem ReadsServed.snoc {store : Store K} (h : ReadsServed x₀ es tid store) (e : MeshEvent K) :
    ReadsServed x₀ (es ++ [e]) tid store := by
  obtain ⟨pre, clock, post, s, i, nodeIds, w, rfl, hs⟩ := h
  exact ⟨pre, clock, post ++ [e], s, i, nodeIds, w, by simp, hs⟩

theorem Point.Attributed.snoc {p : Point K} (h : p.Attributed (ReadsServed x₀ es tid))
    (e : MeshEvent K) : p.Attributed (ReadsServed x₀ (es ++ [e]) tid) := fun hp => by
  obtain ⟨store, hserved, hcomputed⟩ := h hp
  exact ⟨store, hserved.snoc e, hcomputed⟩

theorem resume_attributed {s : MeshState K} {clock : Clock K} {c d : Coroutine K} {y : Mesh K}
    (hrun : Run.execAll Mesh.program.step (.start x₀) es = some s) (htask : s.task tid = some c)
    (haligned : Aligned s (.resume tid clock)) (hplain : c.point.Plain)
    (hc : c.point.Attributed (ReadsServed x₀ es tid))
    (hstep : Mesh.resume clock s.shared c = some (y, d)) :
    d.point.Plain ∧ d.point.Attributed (ReadsServed x₀ (es ++ [.resume tid clock]) tid) := by
  have fresh : ∀ {p : Point K}, p.Fresh →
      p.Plain ∧ p.Attributed (ReadsServed x₀ (es ++ [.resume tid clock]) tid) := fun h =>
    ⟨h.plain, fun hp => absurd hp h.not_hasRead⟩
  obtain ⟨i, point⟩ := c
  obtain ⟨f, locked, hi, hpoint⟩ := Mesh.step_of_resume hstep
  generalize d.point = q at hpoint ⊢
  cases hpoint with
  | start => exact fresh (begin_fresh ..)
  | lock hfree => exact fresh (acquire_fresh ..)
  | @serve r w =>
    constructor
    · rintro r' a w' ⟨⟩ hr
      cases r with
      | hgetall asked => exact absurd rfl (hr asked)
      | _ => rfl
    · intro hread
      cases r with
      | hgetall asked =>
        exact ⟨s.shared.store, ⟨es, clock, [], s, i, asked, w, rfl, hrun, htask, rfl⟩, rfl⟩
      | _ => exact hread.elim
  | @deliver r a w t ht =>
    by_cases hr : ∃ asked, r = .hgetall asked
    · obtain ⟨asked, rfl⟩ := hr
      obtain ⟨store, hserved, rfl⟩ := hc trivial
      refine ⟨onReply_hashes_plain ht, fun _ => ⟨store, hserved.snoc _, ?_⟩⟩
      exact computedFrom_onReply (haligned i asked _ w f locked htask hi) ht
    · obtain rfl : a = .done := hplain r a w rfl fun asked he => hr ⟨asked, he⟩
      exact fresh (onReply_done_fresh ht)

/-- In every run in which the calls that resume with hashes find their ids aligned, each value
returned or written for a node is computed from that node's own hash. -/
theorem attributed_run (x₀ : Mesh K) (es : List (MeshEvent K)) (s : MeshState K)
    (hrun : Run.execAll Mesh.program.step (.start x₀) es = some s)
    (hsteps : Run.EachStep Mesh.program.step Aligned (.start x₀) es) : Attributed x₀ es s := by
  have houtline : Mesh.program.Outline (τ := Nat) x₀ Aligned (fun _ _ => True)
      (fun es tid _ c => c.point.Plain ∧ c.point.Attributed (ReadsServed x₀ es tid)) := by
    constructor
    · trivial
    · intro es s tid call hs hann he
      exact ⟨trivial, by rintro r a w ⟨⟩, fun h => h.elim⟩
    · intro es s tid clock c y d hs hann he hc hstep
      exact ⟨trivial, resume_attributed hs hc he (hann.2 tid c hc).1 (hann.2 tid c hc).2 hstep⟩
    · exact fun _ _ _ _ _ _ _ _ => trivial
    · intro es s e t tid c hs hann he hstep hne hc hJ
      exact ⟨hJ.1, hJ.2.snoc e⟩
  intro tid c hc
  exact ((houtline.run Mesh.program hrun hsteps).2 tid c hc).2

end Runs

/-- An initialised client over two nodes, the first of which has learned something. -/
noncomputable def twoNodes : Mesh ℝ where
  store := Store.hsetAll (fun _ => none)
    [("a", NodeHash.ofRow ⟨0.5, 2.0, 0.4, 0.5⟩ 100.0), ("b", NodeHash.ofRow Row.defaultState 100.0)]
  client i :=
    if i = 0 then
      some ({ RedisField.new ["a", "b"] 0.1 ⟨true, true⟩ 0.05 0.5 with initialized := true }, false)
    else none

noncomputable def stoppedClock : Clock ℝ := ⟨fun _ => 101.0, 101.0⟩

/-- `add_node` of a third node while `export_state_dict` waits for the first two. -/
noncomputable def additionRun : List (MeshEvent ℝ) :=
  [.spawn 0 (0, .exportStateDict), .resume 0 stoppedClock, .spawn 1 (0, .addNode "c" []),
    .resume 1 stoppedClock, .resume 0 stoppedClock, .resume 0 stoppedClock]

theorem attributed_run_additionRun :
    ∃ s, Run.execAll Mesh.program.step (.start twoNodes) additionRun = some s ∧
      Attributed twoNodes additionRun s := by
  refine ⟨_, rfl, attributed_run twoNodes additionRun _ rfl ?_⟩
  refine Run.EachStep.cons _ trivial rfl ?_
  refine Run.EachStep.cons _ ?_ rfl ?_
  · rintro i asked a w f locked ⟨⟩
  refine Run.EachStep.cons _ trivial rfl ?_
  refine Run.EachStep.cons _ ?_ rfl ?_
  · rintro i asked a w f locked ⟨⟩
  refine Run.EachStep.cons _ ?_ rfl ?_
  · rintro i asked a w f locked ⟨⟩
  refine Run.EachStep.cons _ ?_ rfl (Run.eachStep_nil _)
  rintro i asked a w f locked ⟨⟩ ⟨⟩
  exact Or.inr ⟨["c"], rfl⟩

/-! ## A removal in between -/

/-- `export_state_dict` reads both nodes, then `remove_node` removes the first. -/
noncomputable def removalRun : List (MeshEvent ℝ) :=
  [.spawn 0 (0, .exportStateDict), .resume 0 stoppedClock, .resume 0 stoppedClock,
    .spawn 1 (0, .removeNode "a"), .resume 1 stoppedClock, .resume 1 stoppedClock,
    .resume 1 stoppedClock, .resume 0 stoppedClock]

theorem readsServed_removalRun {store : Store ℝ}
    (h : ReadsServed twoNodes removalRun 0 store) : store = twoNodes.store := by
  obtain ⟨pre, clock, post, s, i, nodeIds, w, hes, hs, htask, rfl⟩ := h
  have hpre : pre = removalRun.take pre.length := by
    rw [hes]
    simp
  have hlen : pre.length < 8 := by
    have := congrArg List.length hes
    simp [removalRun] at this
    omega
  rw [hpre] at hs
  interval_cases pre.length <;> cases hs <;> first | rfl | cases htask

/-- The entry returned for the second node holds the values of the removed one. -/
theorem removal_shifts_rows :
    ∃ s, Run.execAll Mesh.program.step (.start twoNodes) removalRun = some s ∧
      ¬Attributed twoNodes removalRun s := by
  refine ⟨_, rfl, fun h => ?_⟩
  obtain ⟨store, hserved, hrows⟩ := h 0 _ rfl trivial
  have hb : twoNodes.store.rowAt "a" = store.rowAt "b" := hrows "b" _ rfl
  rw [readsServed_removalRun hserved] at hb
  have ha : twoNodes.store.rowAt "a" = ⟨0.5, 2.0, 0.4, 0.5⟩ := by
    simp [twoNodes, Store.hsetAll, Store.rowAt, Store.hgetall, Store.hset_nodeKey]
  have hb' : twoNodes.store.rowAt "b" = Row.defaultState := by
    simp [twoNodes, Store.hsetAll, Store.rowAt, Store.hgetall, Store.hset_nodeKey]
  have hL := congrArg Row.L (ha.symm.trans (hb.trans hb'))
  norm_num [Row.defaultState] at hL

end StigmergicMesh.Redis
