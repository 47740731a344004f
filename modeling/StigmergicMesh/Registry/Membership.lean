import StigmergicMesh.Registry.OverRedis
import StigmergicMesh.Registry.Windows

/-!
# Known nodes and node ids

The registry checks whether a node is tracked before it calls `add_node`, and other registrations
of the node can run in between. Over either backend the ids stay distinct, none of them goes away,
and a known node is among them once its registrations are over: `add_node` checks again, and
between that check and the new id nothing else runs.
-/

namespace StigmergicMesh.Registry

open Redis (RedisField Clock Turn)

variable {K : Type*} [Field K] [LinearOrder K]

/-! ## What stays consistent -/

section Definitions

/-- The call is a registration of `n` that has not ended. -/
def Point.Registers (n : String) : Point → Prop
  | .start (.registerWorker cfg) => cfg.nodeId = some n
  | .publishing _ m => m = n
  | .registering _ m _ => m = n
  | .adding _ m _ => m = n
  | _ => False

def RedisPoint.Registers (n : String) : RedisPoint K → Prop
  | .start (.registerWorker cfg) => cfg.nodeId = some n
  | .publishing _ m => m = n
  | .registering _ m _ => m = n
  | .adding m _ => m = n
  | _ => False

/-- The ids are distinct and those of before are still there, in their places; the known nodes are
tracked, but for those that are being registered. -/
structure MembershipKept (before after known : List String) (registering : String → Prop) :
    Prop where
  nodup : after.Nodup
  kept : before <+: after
  tracked : ∀ n ∈ known, ¬registering n → n ∈ after

/-- An initialised client whose ids are distinct and are those of its index. -/
structure Enlisted (f : RedisField K) : Prop where
  initialized : f.initialized = true
  nodup : f.nodeIds.Nodup
  index : ∀ n, (f.nodeIndex.get? n).isSome ↔ n ∈ f.nodeIds

/-- The calls of the field that the registry makes, after their bodies. -/
def Inner : Redis.Point K → Prop
  | .sent _ w => w = .added ∨ w = .deposited
  | .replied _ _ w => w = .added ∨ w = .deposited
  | .returned _ => True
  | .raised _ => True
  | _ => False

def RedisPoint.Inner : RedisPoint K → Prop
  | .adding _ p => Registry.Inner p
  | .punishing _ _ p => Registry.Inner p
  | _ => True

/-- The registry over Redis tracks what it knows. -/
structure RedisShared.Tracked (x : RedisShared K) : Prop where
  enlisted : Enlisted x.field
  known : ∀ n ∈ x.known.keys, n ∈ x.field.nodeIds

/-- So it does in a run, and its calls of the field are past their bodies. -/
def RedisState.Enrolled (s : RedisState K) : Prop :=
  s.shared.Tracked ∧ ∀ tid p, s.task tid = some p → p.Inner

end Definitions

/-! ## The Redis field -/

section RedisField

/-- A call of the field up to its first suspension: the body of `add_node` adds an id that is not
there, and that of `deposit_trace` none. -/
theorem Enlisted.begin {f : RedisField K} (h : Enlisted f) (clock : Clock K) (locked : Bool)
    {c : Redis.Call K} (hc : (∃ n tags, c = .addNode n tags) ∨ ∃ n t, c = .depositTrace n t) :
    Enlisted (f.begin clock locked c).field ∧
      f.nodeIds <+: (f.begin clock locked c).field.nodeIds ∧
      Inner (f.begin clock locked c).point ∧
      ∀ n tags, c = .addNode n tags → n ∈ (f.begin clock locked c).field.nodeIds := by
  obtain ⟨n, tags, rfl⟩ | ⟨n, t, rfl⟩ := hc
  · have hreaches : f.ReachesInit (.addNode n tags) := trivial
    rw [f.begin_of_initialized h.initialized clock locked hreaches]
    cases hi : f.nodeIndex.get? n with
    | some i =>
      simp only [RedisField.body, hi]
      refine ⟨h, List.prefix_refl _, trivial, ?_⟩
      rintro _ _ ⟨⟩
      exact (h.index n).mp (by rw [hi]; rfl)
    | none =>
      have hnew : n ∉ f.nodeIds := by
        rw [← h.index, hi]
        simp
      simp only [RedisField.body, hi]
      refine ⟨⟨h.initialized, ?_, fun m => ?_⟩, List.prefix_append _ _, Or.inl rfl, ?_⟩
      · exact h.nodup.append (List.nodup_singleton n) (by simpa using hnew)
      · rw [Dict.get?_set, List.mem_append, List.mem_singleton, ← h.index]
        by_cases hm : m = n <;> simp [hm]
      · rintro _ _ ⟨⟩
        simp
  · have hreaches : f.ReachesInit (.depositTrace n t) := trivial
    rw [f.begin_of_initialized h.initialized clock locked hreaches]
    simp only [RedisField.body]
    split
    · exact ⟨h, List.prefix_refl _, trivial, by simp⟩
    · exact ⟨h, List.prefix_refl _, Or.inr rfl, by simp⟩

/-- From there on a call of the field changes no id. -/
theorem inner_fieldStep [Transcendental K] {clock : Clock K} {x y : RedisShared K}
    {p q : Redis.Point K} (hp : Inner p) (h : x.fieldStep clock p = some (y, q)) :
    y.field = x.field ∧ y.known = x.known ∧ Inner q := by
  cases p with
  | start c => exact hp.elim
  | lock c => exact hp.elim
  | sent r w =>
    cases h
    exact ⟨rfl, rfl, hp⟩
  | replied r a w =>
    obtain ⟨t, ht, hnext⟩ := Option.map_eq_some_iff.mp h
    cases hnext
    rcases hp with rfl | rfl <;> cases a <;> cases ht <;> exact ⟨rfl, rfl, trivial⟩
  | returned result => cases h
  | raised e => cases h

end RedisField

section Continuations

omit [Field K] [LinearOrder K]

theorem inner_scanRedis (ids : List String) : (scanRedis (K := K) ids).Inner := by
  cases ids <;> exact trivial

theorem afterAdd_spec {x y : RedisShared K} {n : String} {p : Redis.Point K} {q : RedisPoint K}
    (hp : Inner p) (h : afterAdd x n p = (y, q)) : y = x ∧ q.Inner := by
  cases p <;> cases h <;> exact ⟨rfl, hp⟩

theorem afterDeposit_spec {x y : RedisShared K} {n : String} {rest : List String}
    {p : Redis.Point K} {q : RedisPoint K} (hp : Inner p)
    (h : afterDeposit x n rest p = (y, q)) :
    y.field = x.field ∧ (∀ m ∈ y.known.keys, m ∈ x.known.keys) ∧ q.Inner := by
  cases p with
  | returned result =>
    simp only [afterDeposit] at h
    split at h <;> cases h
    · exact ⟨rfl, fun m hm => (Dict.mem_keys_erase.mp hm).2, inner_scanRedis rest⟩
    · exact ⟨rfl, fun m hm => hm, trivial⟩
  | _ =>
    cases h
    exact ⟨rfl, fun m hm => hm, hp⟩

/-- A heartbeat makes nothing known. -/
theorem mem_keys_refreshed {known : Dict String (KnownNode K)} {n : String} {node : KnownNode K}
    (hnode : known.get? n = some node) (now : K) :
    ∀ m ∈ (known.set n { node with lastHeartbeat := now }).keys, m ∈ known.keys := by
  intro m hm
  rcases Dict.mem_keys_set.mp hm with rfl | hm
  · exact (Dict.mem_keys_iff _ _).mpr (by simp [hnode])
  · exact hm

end Continuations

/-! ## Steps over the Redis field -/

namespace RedisShared.Tracked

variable {x y : RedisShared K} (hx : x.Tracked)

include hx

omit [Field K] [LinearOrder K] in
/-- A step that leaves the field alone and makes nothing known. -/
theorem same (hfield : y.field = x.field) (hknown : ∀ m ∈ y.known.keys, m ∈ x.known.keys) :
    y.Tracked ∧ x.field.nodeIds <+: y.field.nodeIds :=
  ⟨⟨hfield ▸ hx.enlisted, fun m hm => hfield ▸ hx.known m (hknown m hm)⟩,
    hfield ▸ List.prefix_refl _⟩

/-- The step of `register_worker` that remembers the node, up to the first suspension of
`add_node` when it is called. -/
theorem register [Transcendental K] {clock : Clock K} {cfg : NodeConfig} {n : String}
    {q : RedisPoint K}
    (h : resumeRedis clock x (.registering cfg n true) = some (y, q)) :
    y.Tracked ∧ x.field.nodeIds <+: y.field.nodeIds ∧ q.Inner := by
  simp only [resumeRedis] at h
  split at h
  · rename_i hn
    cases h
    refine ⟨⟨hx.enlisted, fun m hm => ?_⟩, List.prefix_refl _, trivial⟩
    rcases Dict.mem_keys_set.mp hm with rfl | hm
    · exact hn
    · exact hx.known m hm
  · obtain ⟨henlisted, hprefix, hinner, hadded⟩ :=
      hx.enlisted.begin clock x.locked (c := .addNode n cfg.tags) (.inl ⟨n, cfg.tags, rfl⟩)
    obtain ⟨rfl, hpoint⟩ := afterAdd_spec hinner (Option.some.inj h)
    refine ⟨⟨henlisted, fun m hm => ?_⟩, hprefix, hpoint⟩
    rcases Dict.mem_keys_set.mp hm with rfl | hm
    · exact hadded m cfg.tags rfl
    · exact hprefix.subset (hx.known m hm)

/-- The step of a pass that finds a key gone, up to the first suspension of `deposit_trace`. -/
theorem startDeposit [Transcendental K] {clock : Clock K} {n : String} {rest : List String}
    {q : RedisPoint K} (h : resumeRedis clock x (.checking n rest (some false)) = some (y, q)) :
    y.Tracked ∧ x.field.nodeIds <+: y.field.nodeIds ∧ q.Inner := by
  obtain ⟨henlisted, hprefix, hinner, -⟩ := hx.enlisted.begin clock x.locked
    (c := .depositTrace n WorkerRegistry.pruneTrace) (.inr ⟨n, _, rfl⟩)
  obtain ⟨hfield, hknown, hpoint⟩ := afterDeposit_spec hinner (Option.some.inj h)
  refine ⟨⟨hfield ▸ henlisted, fun m hm => ?_⟩, hfield ▸ hprefix, hpoint⟩
  rw [hfield]
  exact hprefix.subset (hx.known m (hknown m hm))

/-- A step keeps the ids distinct and in their places, and tracks what it makes known. -/
theorem resume [Transcendental K] {clock : Clock K} {p q : RedisPoint K} (hp : p.Inner)
    (h : resumeRedis clock x p = some (y, q)) :
    y.Tracked ∧ x.field.nodeIds <+: y.field.nodeIds ∧ q.Inner := by
  have still : q.Inner → x.Tracked ∧ x.field.nodeIds <+: x.field.nodeIds ∧ q.Inner := fun hq =>
    ⟨hx, List.prefix_refl _, hq⟩
  cases p with
  | start c =>
    cases c with
    | registerWorker cfg =>
      simp only [resumeRedis] at h
      split at h <;> cases h <;> exact still trivial
    | sendHeartbeat n =>
      simp only [resumeRedis] at h
      split at h <;> cases h <;> exact still trivial
    | pruneUnhealthyWorkers =>
      cases h
      exact still (inner_scanRedis _)
  | publishing cfg n =>
    cases h
    exact still trivial
  | registering cfg n served =>
    cases served with
    | false =>
      cases h
      obtain ⟨htracked, hprefix⟩ := hx.same (y := x.setex n) rfl fun m hm => hm
      exact ⟨htracked, hprefix, trivial⟩
    | true => exact hx.register h
  | adding n p =>
    obtain ⟨⟨z, r⟩, hstep, hnext⟩ := Option.map_eq_some_iff.mp h
    obtain ⟨hfield, hknown, hinner⟩ := inner_fieldStep hp hstep
    obtain ⟨rfl, hpoint⟩ := afterAdd_spec hinner hnext
    obtain ⟨htracked, hprefix⟩ := hx.same hfield fun m hm => hknown ▸ hm
    exact ⟨htracked, hprefix, hpoint⟩
  | refreshing n served =>
    cases served with
    | false =>
      cases h
      obtain ⟨htracked, hprefix⟩ := hx.same (y := x.setex n) rfl fun m hm => hm
      exact ⟨htracked, hprefix, trivial⟩
    | true =>
      simp only [resumeRedis] at h
      split at h <;> cases h
      · exact still trivial
      · rename_i node hnode
        obtain ⟨htracked, hprefix⟩ := hx.same (y := { x with known := x.known.set n _ }) rfl
          (mem_keys_refreshed hnode clock.now)
        exact ⟨htracked, hprefix, trivial⟩
  | checking n rest reply =>
    rcases reply with _ | _ | _
    · cases h
      exact still trivial
    · exact hx.startDeposit h
    · cases h
      exact still (inner_scanRedis rest)
  | punishing n rest p =>
    obtain ⟨⟨z, r⟩, hstep, hnext⟩ := Option.map_eq_some_iff.mp h
    obtain ⟨hfield, hknown, hinner⟩ := inner_fieldStep hp hstep
    obtain ⟨hfield', hknown', hpoint⟩ := afterDeposit_spec hinner hnext
    obtain ⟨htracked, hprefix⟩ := hx.same (hfield'.trans hfield) fun m hm => hknown ▸ hknown' m hm
    exact ⟨htracked, hprefix, hpoint⟩
  | _ => cases h

end RedisShared.Tracked

theorem RedisState.Enrolled.step [Transcendental K] {s t : RedisState K} (h : s.Enrolled)
    {e : RedisEvent K} (hstep : redisProgram.step s e = some t) :
    t.Enrolled ∧ s.shared.field.nodeIds <+: t.shared.field.nodeIds := by
  obtain ⟨hx, hinner⟩ := h
  have others : ∀ {tid : Nat} {x : RedisShared K} {q : RedisPoint K}, q.Inner →
      ∀ tid' p, (s.move tid x q).task tid' = some p → p.Inner := by
    intro tid x q hq tid' p hp
    by_cases htid : tid' = tid
    · subst htid
      obtain rfl : q = p := by simpa using hp
      exact hq
    · rw [s.task_move_of_ne htid] at hp
      exact hinner tid' p hp
  obtain ⟨tid, call, rfl, -, rfl⟩ | ⟨tid, clock, p, x, q, rfl, hp, hx', rfl⟩ |
    ⟨event, x, rfl, hx', rfl⟩ := redisProgram.step_cases hstep
  · exact ⟨⟨hx, others trivial⟩, List.prefix_refl _⟩
  · obtain ⟨htracked, hprefix, hq⟩ := hx.resume (hinner tid p hp) hx'
    exact ⟨⟨htracked, others hq⟩, hprefix⟩
  · have hsame : x.field = s.shared.field ∧ x.known = s.shared.known := by
      simp only [redisProgram, RedisShared.expire] at hx'
      split at hx' <;> cases hx'
      exact ⟨rfl, rfl⟩
    refine ⟨⟨⟨hsame.1 ▸ hx.enlisted, fun n hn => ?_⟩, hinner⟩, hsame.1 ▸ List.prefix_refl _⟩
    rw [hsame.1]
    exact hx.known n (hsame.2 ▸ hn)

/-! ## Steps over the in-memory field -/

/-- No step takes an id away or moves it. -/
theorem nodeIds_prefix_step {s t : State K} {e : Event K} (hstep : program.step s e = some t) :
    s.shared.registry.field.nodeIds <+: t.shared.registry.field.nodeIds := by
  obtain ⟨tid, call, rfl, -, rfl⟩ | ⟨tid, now, p, x, q, rfl, -, hx, rfl⟩ |
    ⟨event, x, rfl, hx, rfl⟩ := program.step_cases hstep
  · exact List.prefix_refl _
  · show s.shared.registry.field.nodeIds <+: x.registry.field.nodeIds
    cases step_of_resume hx with
    | @addNode cfg m =>
      simp only [InMemoryField.addNode]
      split
      · exact List.prefix_refl _
      · exact List.prefix_append _ _
    | @touch m => rw [(s.shared.registry.touch_spec m now).1]
    | @forget m rest => rw [(s.shared.registry.forget_spec m).1]
    | @punish m rest =>
      have hrows : s.shared.registry.field.RowsOnly (s.shared.registry.punish m).2.field :=
        s.shared.registry.field.depositTrace_rowsOnly m _
      simp only
      rw [hrows.nodeIds]
    | _ => exact List.prefix_refl _
  · show s.shared.registry.field.nodeIds <+: x.registry.field.nodeIds
    rw [(expire_spec hx).1]

/-! ## Every run -/

/-- Over either backend, from any state of a run to any later one: the ids stay distinct and none
goes away, and every known node whose registrations are over is tracked. -/
theorem membership_kept [Transcendental K] :
    (∀ x₀ : Shared K, x₀.registry.Tracked → ∀ (es fs : List (Event K)) (s t : State K),
      Run.execAll program.step (.start x₀) es = some s → Run.execAll program.step s fs = some t →
        MembershipKept s.shared.registry.field.nodeIds t.shared.registry.field.nodeIds
          t.shared.registry.known.keys fun n => ∃ tid p, t.task tid = some p ∧ p.Registers n) ∧
    ∀ x₀ : RedisShared K, x₀.Tracked → ∀ (es fs : List (RedisEvent K)) (s t : RedisState K),
      Run.execAll redisProgram.step (.start x₀) es = some s →
        Run.execAll redisProgram.step s fs = some t →
          MembershipKept s.shared.field.nodeIds t.shared.field.nodeIds t.shared.known.keys
            fun n => ∃ tid p, t.task tid = some p ∧ p.Registers n := by
  constructor
  · intro x₀ h₀ es fs s t hs ht
    have henrolled : Enrolled t := enrolled_run h₀ (by rw [Run.execAll_append, hs]; exact ht)
    refine ⟨henrolled.1.nodup, ?_, fun n hn hover => ?_⟩
    · exact Run.execAll_invariant program.step
        (P := fun u => s.shared.registry.field.nodeIds <+: u.shared.registry.field.nodeIds)
        (List.prefix_refl _) (fun u e v hu hstep => hu.trans (nodeIds_prefix_step hstep)) ht
    · rcases henrolled.2 n hn with htracked | ⟨tid, cfg, hadding⟩
      · exact htracked
      · exact absurd ⟨tid, _, hadding, rfl⟩ hover
  · intro x₀ h₀ es fs s t hs ht
    have hs : RedisState.Enrolled s := Run.execAll_invariant redisProgram.step
      (P := RedisState.Enrolled) ⟨h₀, fun tid p hp => by cases hp⟩
      (fun u e v hu hstep => (RedisState.Enrolled.step hu hstep).1) hs
    have ht := Run.execAll_invariant redisProgram.step
      (P := fun u => RedisState.Enrolled u ∧ s.shared.field.nodeIds <+: u.shared.field.nodeIds)
      ⟨hs, List.prefix_refl _⟩ (fun u e v hu hstep =>
        let hnext := RedisState.Enrolled.step hu.1 hstep
        ⟨hnext.1, hu.2.trans hnext.2⟩) ht
    exact ⟨ht.1.1.enlisted.nodup, ht.2, fun n hn _ => ht.1.1.known n hn⟩

/-! ## Two registrations of one node -/

/-- Nothing is known and no node is tracked. -/
noncomputable def emptyShared : Shared ℝ :=
  ⟨⟨Dict.empty, ⟨[], Dict.enumerate [], [], 0.1, ⟨true, true⟩⟩⟩, fun _ => false⟩

noncomputable def emptyRedisShared : RedisShared ℝ :=
  { known := Dict.empty
    field := { RedisField.new [] 0.1 ⟨true, true⟩ 0.05 0.5 with initialized := true }
    locked := false
    store := fun _ => none
    keys := fun _ => false }

/-- Both registrations have set the key before the first of them remembers the node; then they go
on in the given order. -/
def twoRegistrations {ι : Type*} (input : ι) (order : List Nat) :
    List (Tasks.Event Nat Call ι Expiry) :=
  let register := Call.registerWorker ⟨some "a", some ["slm"], []⟩
  [.spawn 0 register, .spawn 1 register] ++
    ([0, 1, 0, 1, 0, 1] ++ order).map (fun tid => .resume tid input)

theorem membership_kept_twoRegistrations :
    (∃ t, Run.execAll program.step (.start emptyShared)
          (twoRegistrations 100.0 [0, 1, 0, 1]) = some t ∧
        t.shared.registry.field.nodeIds = ["a"] ∧
        MembershipKept [] t.shared.registry.field.nodeIds t.shared.registry.known.keys
          fun n => ∃ tid p, t.task tid = some p ∧ p.Registers n) ∧
      ∃ t, Run.execAll redisProgram.step (.start emptyRedisShared)
          (twoRegistrations ⟨fun _ => 100.0, 100.0⟩ [0, 1, 0, 0]) = some t ∧
        t.shared.field.nodeIds = ["a"] ∧
        MembershipKept [] t.shared.field.nodeIds t.shared.known.keys
          fun n => ∃ tid p, t.task tid = some p ∧ p.Registers n := by
  constructor
  · have htracked : emptyShared.registry.Tracked := by
      refine ⟨⟨List.nodup_nil, fun n i => ?_, rfl⟩, by simp [emptyShared, Dict.keys, Dict.empty]⟩
      simp [emptyShared, Dict.enumerate, Dict.ofList]
    obtain ⟨t, ht, hids⟩ : ∃ t, Run.execAll program.step (.start emptyShared)
        (twoRegistrations 100.0 [0, 1, 0, 1]) = some t ∧ t.shared.registry.field.nodeIds = ["a"] :=
      ⟨_, rfl, rfl⟩
    exact ⟨t, ht, hids, membership_kept.1 emptyShared htracked [] _ (.start emptyShared) t rfl ht⟩
  · have htracked : emptyRedisShared.Tracked := by
      refine ⟨⟨rfl, List.nodup_nil, fun n => ?_⟩, by simp [emptyRedisShared, Dict.keys, Dict.empty]⟩
      simp [emptyRedisShared, RedisField.new, Dict.enumerate, Dict.ofList]
    obtain ⟨t, ht, hids⟩ : ∃ t, Run.execAll redisProgram.step (.start emptyRedisShared)
        (twoRegistrations ⟨fun _ => 100.0, 100.0⟩ [0, 1, 0, 0]) = some t ∧
          t.shared.field.nodeIds = ["a"] :=
      ⟨_, rfl, rfl⟩
    exact ⟨t, ht, hids,
      membership_kept.2 emptyRedisShared htracked [] _ (.start emptyRedisShared) t rfl ht⟩

end StigmergicMesh.Registry
