import StigmergicMesh.Library.Registers
import StigmergicMesh.Redis.Coroutines

/-!
# The stored timestamps

Every write stores the time that its call read from the clock before it sent the request. The
server takes the requests in the order in which they arrive, so a stored timestamp goes back
whenever a call with an earlier reading arrives later; the time in between is then decayed once
more by the next deposit. `remove_node`, which deletes a timestamp, is left out.
-/

namespace StigmergicMesh.Redis

variable {K : Type*}

section Definitions

/-- The timestamp stored for a node. -/
def Store.tsAt (s : Store K) (n : String) : Option K := (s.hgetall (nodeKey n)).ts

/-- The timestamp that a request leaves at a node, if it writes the node's hash. -/
def Request.stamp (n : String) : Request K → Option K
  | .hset mappings => mappings.reverse.findSome? (fun m => if m.1 = n then m.2.ts else none)
  | .evalsha m args => if m = n then some args.now else none
  | _ => none

/-- The request that the server takes in a step. -/
def servedBy (s : MeshState K) : MeshEvent K → Option (Request K)
  | .resume tid _ =>
    match s.task tid with
    | some ⟨_, .sent r _⟩ => some r
    | _ => none
  | _ => none

/-- The timestamps that a step writes. -/
def stampsOf (s : MeshState K) (e : MeshEvent K) (n : String) : Option K :=
  (servedBy s e).bind (Request.stamp n)

def MeshState.tsAt (s : MeshState K) (n : String) : Option K := s.shared.store.tsAt n

/-- A call that deletes no hash. -/
def Call.Keeps : Call K → Prop
  | .removeNode _ => False
  | _ => True

def MeshEvent.Keeps : MeshEvent K → Prop
  | .spawn _ call => call.2.Keeps
  | _ => True

def Wait.Keeps : Wait K → Prop
  | .baselines c => c.Keeps
  | .script c => c.Keeps
  | _ => True

def Point.Keeps : Point K → Prop
  | .start c => c.Keeps
  | .lock c => c.Keeps
  | .sent r w => (∀ n, r ≠ .delete n) ∧ w.Keeps
  | .replied _ _ w => w.Keeps
  | _ => True

/-- No call under way deletes a hash. -/
def MeshState.Keeps (s : MeshState K) : Prop := ∀ tid c, s.task tid = some c → c.point.Keeps

/-- The readings of the clock in a run: never earlier than the ones before, from `T` on. -/
def ClockRuns [LE K] : K → List (MeshEvent K) → Prop
  | _, [] => True
  | T, .resume _ clock :: es =>
    (∀ n, T ≤ clock.initTs n ∧ clock.initTs n ≤ clock.now) ∧ ClockRuns clock.now es
  | T, _ :: es => ClockRuns T es

variable [Field K] [LinearOrder K] [Transcendental K]

/-- A deposit starts to decay where an earlier deposit on the node stopped, or later: its script
finds a timestamp that is not before the time of the earlier one. -/
def ChargedOnce (s₀ : MeshState K) (es : List (MeshEvent K)) : Prop :=
  ∀ pre e mid e' post s s' n args args', es = pre ++ e :: (mid ++ e' :: post) →
    Run.execAll Mesh.program.step s₀ pre = some s →
    Run.execAll Mesh.program.step s₀ (pre ++ e :: mid) = some s' →
    servedBy s e = some (.evalsha n args) → servedBy s' e' = some (.evalsha n args') →
    ∃ ts, MeshState.tsAt s' n = some ts ∧ args.now ≤ ts

end Definitions

/-! ## What a request stores -/

theorem Store.tsAt_hset (s : Store K) (m n : String) (u : NodeHash K) :
    (s.hset (nodeKey m) u).tsAt n = if m = n then u.ts.or (s.tsAt n) else s.tsAt n := by
  by_cases hn : m = n
  · subst hn
    rw [if_pos rfl, tsAt, hgetall, Store.hset_nodeKey, if_pos rfl]
    rfl
  · rw [if_neg hn, tsAt, hgetall, Store.hset_nodeKey, if_neg (Ne.symm hn)]
    rfl

theorem Store.tsAt_hsetAll (s : Store K) (mappings : List (String × NodeHash K)) (n : String) :
    (s.hsetAll mappings).tsAt n = (Request.stamp n (.hset mappings)).or (s.tsAt n) := by
  induction mappings using List.reverseRecOn with
  | nil => rfl
  | append_singleton mappings m ih =>
    have hlast : s.hsetAll (mappings ++ [m]) = (s.hsetAll mappings).hset (nodeKey m.1) m.2 := by
      simp [hsetAll, List.foldl_append]
    rw [hlast, tsAt_hset, ih]
    simp only [Request.stamp, List.reverse_append, List.reverse_singleton, List.singleton_append,
      List.findSome?_cons]
    by_cases hm : m.1 = n
    · rw [if_pos hm, if_pos hm]
      cases m.2.ts <;> rfl
    · rw [if_neg hm, if_neg hm]

variable [Field K] [LinearOrder K] [Transcendental K]

/-- The last write of a timestamp stays. -/
theorem Request.tsAt_serve {r : Request K} (hr : ∀ n, r ≠ .delete n) (s : Store K) (n : String) :
    (r.serve s).1.tsAt n = (r.stamp n).or (s.tsAt n) := by
  cases r with
  | hset mappings => exact s.tsAt_hsetAll mappings n
  | scriptLoad => rfl
  | hgetall nodeIds => rfl
  | evalsha m args =>
    by_cases hm : m = n
    · subst hm
      simp [serve, stamp, Store.tsAt, Store.hgetall, depositScript]
    · have hkey : nodeKey n ≠ nodeKey m := fun h => hm (nodeKey_inj.mp h).symm
      simp [serve, stamp, Store.tsAt, Store.hgetall, hm, hkey]
  | delete m => exact absurd rfl (hr m)

/-! ## Calls that delete nothing -/

namespace RedisField

omit [Transcendental K]

theorem keeps_body (now : K) (f : RedisField K) {c : Call K} (hc : c.Keeps) :
    (f.body now c).2.Keeps := by
  cases c with
  | getStateVector | exportStateDict | applyEvaporation rate => exact ⟨by simp, trivial⟩
  | depositTrace n t | addNode n tags =>
    simp only [RedisField.body]
    split
    all_goals first | exact ⟨by simp, trivial⟩ | exact trivial
  | removeNode n => exact hc.elim
  | hydrateFromSnapshot snapshot =>
    simp only [RedisField.body]
    split
    · exact trivial
    · split
      all_goals first | exact ⟨by simp, trivial⟩ | exact trivial

theorem keeps_acquire (clock : Clock K) (f : RedisField K) {c : Call K} (hc : c.Keeps) :
    (f.acquire clock c).point.Keeps := by
  simp only [RedisField.acquire]
  split
  · exact keeps_body clock.now f hc
  · exact ⟨by simp, hc⟩

theorem keeps_enter (clock : Clock K) (f : RedisField K) (locked : Bool) {c : Call K}
    (hc : c.Keeps) : (f.enter clock locked c).point.Keeps := by
  simp only [RedisField.enter]
  split
  · exact keeps_body clock.now f hc
  · split
    · exact hc
    · exact keeps_acquire clock f hc

theorem keeps_begin (clock : Clock K) (f : RedisField K) (locked : Bool) {c : Call K}
    (hc : c.Keeps) : (f.begin clock locked c).point.Keeps := by
  cases c with
  | applyEvaporation rate =>
    simp only [RedisField.begin]
    split
    · exact keeps_enter clock f locked trivial
    · exact trivial
  | removeNode n => exact hc.elim
  | _ => exact keeps_enter clock f locked trivial

theorem keeps_onReply {clock : Clock K} {f : RedisField K} {locked : Bool} {a : Reply K}
    {w : Wait K} (hw : w.Keeps) {t : Turn K} (ht : f.onReply clock locked a w = some t) :
    t.point.Keeps := by
  cases a with
  | done =>
    cases w with
    | baselines c =>
      cases ht
      exact ⟨by simp, hw⟩
    | script c =>
      cases ht
      exact keeps_body clock.now _ hw
    | removed n =>
      simp only [RedisField.onReply] at ht
      split at ht <;> cases ht <;> exact trivial
    | stateVector | stateDict | evaporation => cases ht
    | _ =>
      cases ht
      exact trivial
  | hashes raws =>
    cases w with
    | evaporation factor now =>
      cases ht
      exact ⟨by simp, trivial⟩
    | stateVector | stateDict =>
      cases ht
      exact trivial
    | _ => cases ht

end RedisField

omit [Field K] [LinearOrder K] [Transcendental K] in
/-- A task that moves to a point that deletes nothing. -/
theorem MeshState.Keeps.move {s : MeshState K} (hs : MeshState.Keeps s) (tid : Nat) (x : Mesh K)
    {c : Coroutine K} (hc : c.point.Keeps) : MeshState.Keeps (s.move tid x c) := by
  intro tid' c' hc'
  by_cases htid : tid' = tid
  · subst htid
    obtain rfl : c = c' := by simpa using hc'
    exact hc
  · rw [s.task_move_of_ne htid] at hc'
    exact hs tid' c' hc'

/-- Every step keeps the last write of every timestamp. -/
theorem mesh_keepsLastWrite :
    Run.KeepsLastWrite Mesh.program.step MeshState.tsAt (stampsOf (K := K)) MeshState.Keeps
      MeshEvent.Keeps := by
  intro s e t hs he hstep
  obtain ⟨tid, call, rfl, -, rfl⟩ | ⟨tid, clock, c, x, d, rfl, hc, hx, rfl⟩ |
    ⟨construct, x, rfl, hx, rfl⟩ := Mesh.program.step_cases hstep
  · exact ⟨hs.move tid _ he, fun n => rfl⟩
  · obtain ⟨i, point⟩ := c
    obtain ⟨f, locked, -, hpoint⟩ := Mesh.step_of_resume hx
    have hkeeps := hs tid _ hc
    generalize hq : d.point = q at hpoint
    suffices h : q.Keeps ∧ ∀ n, x.store.tsAt n =
        (stampsOf s (.resume tid clock) n).or (s.shared.store.tsAt n) from
      ⟨hs.move tid _ (hq ▸ h.1), h.2⟩
    simp only [stampsOf, servedBy, hc]
    cases hpoint with
    | start => exact ⟨RedisField.keeps_begin clock f locked hkeeps, fun n => rfl⟩
    | lock hfree => exact ⟨RedisField.keeps_acquire clock f hkeeps, fun n => rfl⟩
    | serve => exact ⟨hkeeps.2, Request.tsAt_serve hkeeps.1 s.shared.store⟩
    | deliver ht => exact ⟨RedisField.keeps_onReply hkeeps ht, fun n => rfl⟩
  · refine ⟨hs, fun n => ?_⟩
    have hstore : x.store = s.shared.store := by
      simp only [Mesh.program, Mesh.construct] at hx
      split at hx <;> cases hx
      rfl
    simp [MeshState.tsAt, hstore, stampsOf, servedBy]

/-! ## Every run -/

omit [Field K] [LinearOrder K] [Transcendental K] in
theorem keeps_start (x : Mesh K) : MeshState.Keeps (.start x) := by
  intro tid c hc
  cases hc

/-- If no timestamp goes back, no stretch of time is decayed by two deposits. -/
theorem chargedOnce_of_neverBack {x₀ : Mesh K} {es : List (MeshEvent K)}
    (hes : ∀ e ∈ es, MeshEvent.Keeps e)
    (h : Run.EachStep Mesh.program.step (Run.NeverBack Mesh.program.step MeshState.tsAt)
      (.start x₀) es) : ChargedOnce (.start x₀) es := by
  rintro pre e mid e' post s s' n args args' rfl hs hs' he -
  have hkeeps := mesh_keepsLastWrite.execAll (keeps_start x₀)
    (fun e'' h'' => hes e'' (List.mem_append_left _ h'')) hs
  rw [Run.execAll_append, hs, Option.bind_some, Run.execAll_cons] at hs'
  obtain ⟨u, hu, hmid⟩ := Option.bind_eq_some_iff.mp hs'
  have hts : MeshState.tsAt u n = some args.now := by
    rw [(mesh_keepsLastWrite s e u hkeeps (hes e (by simp)) hu).2 n, stampsOf, he]
    simp [Request.stamp]
  have hpre : Run.execAll Mesh.program.step (.start x₀) (pre ++ [e]) = some u := by
    rw [Run.execAll_append, hs]
    simp [hu]
  have hstretch : Run.EachStep Mesh.program.step
      (Run.NeverBack Mesh.program.step MeshState.tsAt) (.start x₀)
      (pre ++ [e] ++ mid ++ e' :: post) := by
    simpa using h
  exact (hstretch.middle hpre).read_le hmid hts

/-- In a run without `remove_node` no timestamp goes back, and no time is charged twice, exactly
if at every node the writes are served in the order of their readings of the clock, none of which
is before the timestamp that was there at the start. -/
theorem timestamps_iff (s₀ : Store K) {es : List (MeshEvent K)}
    (hes : ∀ e ∈ es, MeshEvent.Keeps e) {s : MeshState K}
    (hrun : Run.execAll Mesh.program.step (.start ⟨s₀, fun _ => none⟩) es = some s) :
    (Run.EachStep Mesh.program.step (Run.NeverBack Mesh.program.step MeshState.tsAt)
        (.start ⟨s₀, fun _ => none⟩) es ∧ ChargedOnce (.start ⟨s₀, fun _ => none⟩) es) ↔
      Run.InOrder Mesh.program.step MeshState.tsAt stampsOf (.start ⟨s₀, fun _ => none⟩) es := by
  rw [← mesh_keepsLastWrite.eachStep_neverBack_iff (keeps_start _) hes hrun]
  exact ⟨fun h => h.1, fun h => ⟨h, chargedOnce_of_neverBack hes h⟩⟩

/-! ## Two deposits of one client -/

/-- A clock that shows `k`. -/
def tick (k : ℕ) : Clock ℝ := ⟨fun _ => k, k⟩

noncomputable def someTrace : Trace ℝ := ⟨2.0, 5, true, 4, 1⟩

/-- The client is initialised by its first deposit, which then waits with a reading of 5; its
second deposit, with a reading of 6, is served before it. -/
noncomputable def secondServed : List (MeshEvent ℝ) :=
  [.external ⟨0, ["a"], 0.1, ⟨true, true⟩, 0.05, 0.5⟩,
    .spawn 0 (0, .depositTrace "a" someTrace), .spawn 1 (0, .depositTrace "a" someTrace),
    .resume 0 (tick 1), .resume 0 (tick 2), .resume 0 (tick 3), .resume 0 (tick 4),
    .resume 0 (tick 5), .resume 1 (tick 6), .resume 1 (tick 7)]

theorem timestamps_iff_secondServed :
    Run.EachStep Mesh.program.step (Run.NeverBack Mesh.program.step MeshState.tsAt)
      (.start ⟨fun _ => none, fun _ => none⟩) secondServed := by
  have hkeeps : ∀ e ∈ secondServed, MeshEvent.Keeps e := by
    simp [secondServed, MeshEvent.Keeps, Call.Keeps]
  refine ((timestamps_iff (fun _ => none) hkeeps (s := _) rfl).mpr ?_).1
  have hwrites : Run.writesOf Mesh.program.step stampsOf
      (.start ⟨fun _ => none, fun _ => none⟩) secondServed =
      [fun _ => none, fun _ => none, fun _ => none, fun _ => none,
        fun n => Request.stamp n (.hset [("a", NodeHash.ofRow Row.defaultState ((1 : ℕ) : ℝ))]),
        fun _ => none, fun _ => none, fun _ => none, fun _ => none,
        fun n => if "a" = n then some ((6 : ℕ) : ℝ) else none] := rfl
  have hread : ∀ n, MeshState.tsAt
      (.start ⟨fun _ => none, fun _ => none⟩ : MeshState ℝ) n = none := fun n => rfl
  rw [Run.InOrder, hwrites]
  refine ⟨fun w _ n x y hx => ?_, ?_⟩
  · rw [hread] at hx
    cases hx
  · -- Of two writes that come to the node, the first stores 1 and the second 6.
    have hpair : ∀ n (x y : ℝ),
        Request.stamp n (.hset [("a", NodeHash.ofRow Row.defaultState ((1 : ℕ) : ℝ))]) = some x →
          (if "a" = n then some ((6 : ℕ) : ℝ) else none) = some y → x ≤ y := by
      intro n x y hx hy
      by_cases hn : "a" = n
      · subst hn
        obtain rfl : ((1 : ℕ) : ℝ) = x := Option.some.inj hx
        obtain rfl : ((6 : ℕ) : ℝ) = y := Option.some.inj hy
        norm_num
      · rw [if_neg hn] at hy
        cases hy
    simpa [Run.NotBelow] using hpair

/-- The first deposit is served last, and the timestamp goes from 6 back to 5. -/
theorem overtaken_deposit_goes_back :
    ClockRuns 0 (secondServed ++ [.resume 0 (tick 8)]) ∧
      ¬ Run.EachStep Mesh.program.step (Run.NeverBack Mesh.program.step MeshState.tsAt)
        (.start ⟨fun _ => none, fun _ => none⟩) (secondServed ++ [.resume 0 (tick 8)]) := by
  constructor
  · norm_num [secondServed, ClockRuns, tick]
  · intro h
    obtain ⟨b, hb, hle⟩ := h secondServed (.resume 0 (tick 8)) [] _ rfl rfl _ rfl "a" (6 : ℕ) rfl
    have hb : some ((5 : ℕ) : ℝ) = some b := hb
    obtain rfl := Option.some.inj hb
    exact absurd (Nat.cast_le.mp hle) (by decide)

end StigmergicMesh.Redis
