import StigmergicMesh.Registry.Coroutines

/-!
# Stale checks

A pruning drops a worker on the strength of an `EXISTS` that is two suspensions old, and a
heartbeat writes to an entry that it looked up before its `SETEX`. `Undisturbed` names the
placements of other calls in these windows that go wrong; without them a worker stays known from
the end of a registration or heartbeat until its key expires, and no call raises.
-/

namespace StigmergicMesh.Registry

variable {K : Type*} [Field K] [LinearOrder K]

/-! ## The workers that stay -/

/-- A registration, or a heartbeat of a known worker, has ended here. -/
def Point.Vouches (n : String) : Point → Prop
  | .registered m => m = n
  | .refreshed m => m = n
  | _ => False

/-- The step led a call to such an end. -/
def Completes (t : State K) (n : String) : Event K → Prop
  | .resume tid _ => ∃ p, t.task tid = some p ∧ p.Vouches n
  | _ => False

/-- A registration or accepted heartbeat of `n` has completed, and its key has not expired since. -/
def Vouched (x₀ : Shared K) (es : List (Event K)) (n : String) : Prop :=
  ∃ pre e post s t, es = pre ++ e :: post ∧ Run.execAll program.step (.start x₀) pre = some s ∧
    program.step s e = some t ∧ Completes t n e ∧ .external ⟨n⟩ ∉ post

/-- Live workers are known, and no call has raised `KeyError`. -/
def LiveKnown (x₀ : Shared K) (es : List (Event K)) (s : State K) : Prop :=
  (∀ n, Vouched x₀ es n → n ∈ s.shared.registry.known.keys) ∧
    ∀ tid key, s.task tid ≠ some (.raised (.keyError key))

/-! ## The windows -/

/-- A pruning has found no key for `n`, and has not deleted its entry yet. -/
def Point.Condemns (n : String) : Point → Prop
  | .checking m _ (some false) => m = n
  | .punishing m _ _ => m = n
  | _ => False

/-- The entries that the rest of the call expects to find. -/
def Point.expected : Point → List String
  | .adding _ n _ => [n]
  | .refreshing n _ => [n]
  | .checking _ rest (some true) => rest
  | .checking n rest _ => n :: rest
  | .punishing n rest _ => n :: rest
  | _ => []

/-- The next step of the call is its last, and vouches for `n`. -/
def Point.Completing (x : Shared K) (n : String) : Point → Prop
  | .registering _ m true => m = n ∧ n ∈ x.registry.field.nodeIds
  | .adding _ m true => m = n
  | .refreshing m true => m = n
  | _ => False

/-- The step disturbs no window, and is not disturbed in one. -/
structure Undisturbed (s : State K) (e : Event K) : Prop where
  /-- A registration has an id. -/
  config : ∀ tid cfg, e = .spawn tid (.registerWorker cfg) → cfg.nodeId.isSome
  /-- A call that completes leaves the key there, and no pruning about to delete the entry. -/
  completion : ∀ tid now p n, e = .resume tid now → s.task tid = some p →
    p.Completing s.shared n →
      s.shared.alive n ∧ ∀ tid' q, s.task tid' = some q → ¬q.Condemns n
  /-- No registration is waiting to add the row when a pruning deposits on it. -/
  deposit : ∀ tid now n rest, e = .resume tid now →
    s.task tid = some (.punishing n rest false) →
      ∀ tid' cfg, s.task tid' ≠ some (.adding cfg n false)
  /-- No other call expects the entry when a pruning deletes it. -/
  deletion : ∀ tid now n rest, e = .resume tid now → s.task tid = some (.punishing n rest true) →
    ∀ tid' q, tid' ≠ tid → s.task tid' = some q → n ∉ q.expected

/-! ## What a step does -/

omit [Field K] [LinearOrder K] in
theorem alive_setex (x : Shared K) (m n : String) :
    (x.setex m).alive n = (decide (n = m) || x.alive n) := by
  by_cases h : n = m <;> simp [Shared.setex, Shared.alive, h]

omit [Field K] [LinearOrder K] in
theorem expire_spec {x y : Shared K} {m : String} (h : x.expire m = some y) :
    y.registry = x.registry ∧ ∀ n, n ≠ m → y.alive n = x.alive n := by
  simp only [Shared.expire] at h
  split at h <;> cases h
  exact ⟨rfl, fun n hn => by simp [Shared.alive, hn]⟩

theorem orRaise_vouches {result : Except FieldError Unit} {p : Point} {n : String}
    (h : (Point.orRaise result p).Vouches n) : p.Vouches n := by
  cases result with
  | error e => cases h
  | ok u => exact h

theorem scan_vouches {ids : List String} {n : String} : ¬(scan ids).Vouches n := by
  cases ids <;> exact fun h => h

@[simp] theorem expected_scan (ids : List String) : (scan ids).expected = ids := by
  cases ids <;> rfl

theorem scan_condemns {ids : List String} {n : String} : ¬(scan ids).Condemns n := by
  cases ids <;> exact fun h => h

/-- Only a completing step vouches. -/
theorem completing_of_vouches {now : K} {x y : Shared K} {p q : Point}
    (h : resume now x p = some (y, q)) {n : String} (hq : q.Vouches n) :
    p.Completing x n := by
  cases step_of_resume h with
  | remember htracked => exact ⟨hq, hq ▸ htracked⟩
  | added => exact hq
  | touch => exact orRaise_vouches hq
  | punish => exact orRaise_vouches hq
  | forget => exact absurd (orRaise_vouches hq) scan_vouches
  | prune => exact absurd hq scan_vouches
  | healthy => exact absurd hq scan_vouches
  | _ => exact hq.elim

/-- No step but the deletion of a pruning takes an entry away, and none takes a key away. -/
theorem resume_keeps {now : K} {x y : Shared K} {p q : Point}
    (h : resume now x p = some (y, q)) :
    (∀ n, x.alive n → y.alive n) ∧
      ∀ n ∈ x.registry.known.keys, n ∈ y.registry.known.keys ∨
        ∃ rest, p = .punishing n rest true := by
  cases step_of_resume h with
  | setex => exact ⟨fun n hn => by simp [alive_setex, hn], fun n hn => Or.inl hn⟩
  | refresh => exact ⟨fun n hn => by simp [alive_setex, hn], fun n hn => Or.inl hn⟩
  | remember => exact ⟨fun n hn => hn, fun n hn => Or.inl (by simp [WorkerRegistry.remember, hn])⟩
  | rememberNew =>
    exact ⟨fun n hn => hn, fun n hn => Or.inl (by simp [WorkerRegistry.remember, hn])⟩
  | @touch m =>
    refine ⟨fun n hn => hn, fun n hn => Or.inl ?_⟩
    exact ((x.registry.touch_spec m now).2.1 n).mpr hn
  | @forget m rest =>
    refine ⟨fun n hn => hn, fun n hn => ?_⟩
    by_cases hnm : n = m
    · subst hnm
      exact Or.inr ⟨rest, rfl⟩
    · exact Or.inl (((x.registry.forget_spec m).2.1 n).mpr ⟨hnm, hn⟩)
  | _ => exact ⟨fun n hn => hn, fun n hn => Or.inl hn⟩

/-! ## Rows -/

/-- A known worker has a row, or a registration is about to add it. -/
def Enrolled (s : State K) : Prop :=
  s.shared.registry.field.Consistent ∧ ∀ n ∈ s.shared.registry.known.keys,
    n ∈ s.shared.registry.field.nodeIds ∨ ∃ tid cfg, s.task tid = some (.adding cfg n false)

/-- What a step does to the rows and to the known workers. -/
theorem resume_enrolls {now : K} {x y : Shared K} {p q : Point}
    (hf : x.registry.field.Consistent) (h : resume now x p = some (y, q)) :
    y.registry.field.Consistent ∧
      (∀ n ∈ x.registry.field.nodeIds, n ∈ y.registry.field.nodeIds) ∧
      (∀ n ∈ y.registry.known.keys, n ∈ x.registry.known.keys ∨
        n ∈ y.registry.field.nodeIds ∨ ∃ cfg, q = .adding cfg n false) ∧
      ∀ cfg n, p = .adding cfg n false → n ∈ y.registry.field.nodeIds := by
  cases step_of_resume h with
  | remember htracked =>
    refine ⟨hf, fun n hn => hn, fun n hn => ?_, by simp⟩
    rcases Dict.mem_keys_set.mp hn with rfl | hn
    · exact Or.inr (Or.inl htracked)
    · exact Or.inl hn
  | @rememberNew cfg m =>
    refine ⟨hf, fun n hn => hn, fun n hn => ?_, by simp⟩
    rcases Dict.mem_keys_set.mp hn with rfl | hn
    · exact Or.inr (Or.inr ⟨cfg, rfl⟩)
    · exact Or.inl hn
  | @addNode cfg m =>
    have hmem := hf.mem_addNode m cfg.tags
    refine ⟨(hf.addNode m cfg.tags).1, fun n hn => (hmem n).mpr (Or.inr hn),
      fun n hn => Or.inl hn, ?_⟩
    rintro _ n ⟨⟩
    exact (hmem m).mpr (Or.inl rfl)
  | @touch m =>
    obtain ⟨hfield, hkeys, -⟩ := x.registry.touch_spec m now
    refine ⟨hfield ▸ hf, fun n hn => hfield ▸ hn, fun n hn => Or.inl ((hkeys n).mp hn), by simp⟩
  | @punish m rest =>
    have hrows : x.registry.field.RowsOnly (x.registry.punish m).2.field :=
      x.registry.field.depositTrace_rowsOnly m _
    refine ⟨hrows.consistent hf, fun n hn => ?_, fun n hn => Or.inl hn, by simp⟩
    simpa [hrows.nodeIds] using hn
  | @forget m rest =>
    obtain ⟨hfield, hkeys, -⟩ := x.registry.forget_spec m
    refine ⟨hfield ▸ hf, fun n hn => hfield ▸ hn, fun n hn => Or.inl ?_, by simp⟩
    exact ((hkeys n).mp hn).2
  | _ => exact ⟨hf, fun n hn => hn, fun n hn => Or.inl hn, by simp⟩

theorem Enrolled.step {s t : State K} (h : Enrolled s) {e : Event K}
    (hstep : program.step s e = some t) : Enrolled t := by
  obtain ⟨hf, hknown⟩ := h
  obtain ⟨tid, call, rfl, hfree, rfl⟩ | ⟨tid, now, p, x, q, rfl, hp, hx, rfl⟩ |
    ⟨event, x, rfl, hx, rfl⟩ := program.step_cases hstep
  · refine ⟨hf, fun n hn => (hknown n hn).imp_right ?_⟩
    rintro ⟨tid', cfg, hadding⟩
    have hne : tid' ≠ tid := by
      rintro rfl
      rw [hfree] at hadding
      cases hadding
    exact ⟨tid', cfg, (s.task_move_of_ne hne _ _).trans hadding⟩
  · obtain ⟨hc, hgrow, hnew, hadded⟩ := resume_enrolls hf hx
    refine ⟨hc, fun n hn => ?_⟩
    rcases hnew n hn with hold | hrow | ⟨cfg, rfl⟩
    · rcases hknown n hold with hrow | ⟨tid', cfg, hadding⟩
      · exact Or.inl (hgrow n hrow)
      · by_cases hne : tid' = tid
        · subst hne
          obtain rfl : .adding cfg n false = p := Option.some.inj (hadding.symm.trans hp)
          exact Or.inl (hadded cfg n rfl)
        · exact Or.inr ⟨tid', cfg, (s.task_move_of_ne hne _ _).trans hadding⟩
    · exact Or.inl hrow
    · exact Or.inr ⟨tid, cfg, s.task_move_self tid x _⟩
  · obtain ⟨hregistry, -⟩ := expire_spec hx
    simp only [Enrolled, hregistry]
    exact ⟨hf, hknown⟩

theorem enrolled_run {x₀ : Shared K} (h₀ : x₀.registry.Tracked) {es : List (Event K)}
    {s : State K} (hrun : Run.execAll program.step (.start x₀) es = some s) : Enrolled s :=
  Run.execAll_invariant program.step (P := Enrolled)
    ⟨h₀.consistent, fun n hn => Or.inl (h₀.known n hn)⟩ (fun _ _ _ h hstep => h.step hstep) hrun

/-! ## Vouched workers -/

section Vouched

variable {x₀ : Shared K} {es : List (Event K)}

theorem not_vouched_nil {n : String} : ¬Vouched x₀ [] n := by
  rintro ⟨pre, e, post, s, t, hes, -⟩
  simp at hes

/-- Who is vouched for after a step was so before, or is by this step. -/
theorem vouched_snoc {s : State K} {e : Event K}
    (hrun : Run.execAll program.step (.start x₀) es = some s) {n : String}
    (h : Vouched x₀ (es ++ [e]) n) :
    (∃ t, program.step s e = some t ∧ Completes t n e) ∨
      Vouched x₀ es n ∧ e ≠ .external ⟨n⟩ := by
  obtain ⟨pre, e', post, s', t, hes, hrun', hstep, hdone, hpost⟩ := h
  rcases List.eq_nil_or_concat post with rfl | ⟨post', e'', rfl⟩
  · obtain ⟨rfl, he⟩ := List.append_inj' hes rfl
    obtain rfl : e = e' := by simpa using he
    obtain rfl : s = s' := Option.some.inj (hrun.symm.trans hrun')
    exact Or.inl ⟨t, hstep, hdone⟩
  · have hes' : es ++ [e] = (pre ++ e' :: post') ++ [e''] := by simpa using hes
    obtain ⟨rfl, he⟩ := List.append_inj' hes' rfl
    obtain rfl : e = e'' := by simpa using he
    simp only [List.concat_eq_append, List.mem_append, List.mem_singleton, not_or] at hpost
    exact Or.inr ⟨⟨pre, e', post', s', t, rfl, hrun', hstep, hdone, hpost.1⟩, Ne.symm hpost.2⟩

/-- What a call can count on at a point. -/
structure Safe (x₀ : Shared K) (es : List (Event K)) (x : Shared K) (p : Point) : Prop where
  config : ∀ cfg, p = .start (.registerWorker cfg) → cfg.nodeId.isSome
  condemned : ∀ n, p.Condemns n → ¬Vouched x₀ es n
  distinct : p.expected.Nodup
  known : ∀ n ∈ p.expected, n ∈ x.registry.known.keys
  calm : ∀ e, p ≠ .raised e

theorem Safe.quiet {x : Shared K} {p : Point} (hconfig : ∀ c, p ≠ .start c)
    (hcondemns : ∀ n, ¬p.Condemns n) (hexpected : p.expected = []) (hcalm : ∀ e, p ≠ .raised e) :
    Safe x₀ es x p :=
  ⟨fun cfg h => absurd h (hconfig _), fun n h => absurd h (hcondemns n), by simp [hexpected],
    by simp [hexpected], hcalm⟩

theorem safe_scan {x : Shared K} {ids : List String} (hnodup : ids.Nodup)
    (hknown : ∀ n ∈ ids, n ∈ x.registry.known.keys) : Safe x₀ es x (scan ids) := by
  refine ⟨fun cfg h => ?_, fun n h => absurd h scan_condemns, ?_, ?_, fun e h => ?_⟩
  · cases ids <;> cases h
  · rwa [expected_scan]
  · rwa [expected_scan]
  · cases ids <;> cases h

/-- A call whose expectations hold goes on to a point where they hold again. -/
theorem Safe.resume {now : K} {x y : Shared K} {p q : Point} (hp : Safe x₀ es x p)
    (hf : x.registry.field.Consistent) (halive : ∀ n, Vouched x₀ es n → x.alive n)
    (hrow : ∀ n rest, p = .punishing n rest false → n ∈ x.registry.field.nodeIds)
    (h : Registry.resume now x p = some (y, q)) : Safe x₀ es y q := by
  cases step_of_resume h with
  | @unnamed cfg hn =>
    have hsome := hp.config cfg rfl
    simp [hn] at hsome
  | @rememberNew cfg n =>
    exact ⟨by simp, fun m hm => hm.elim, List.nodup_singleton n,
      by simp [Point.expected, WorkerRegistry.remember], by simp⟩
  | addNode => exact ⟨by simp, fun m hm => hm.elim, hp.distinct, hp.known, by simp⟩
  | @heartbeat n hn =>
    exact ⟨by simp, fun m hm => hm.elim, List.nodup_singleton n, by simpa [Point.expected],
      by simp⟩
  | refresh => exact ⟨by simp, fun m hm => hm.elim, hp.distinct, hp.known, by simp⟩
  | @touch n =>
    rw [(x.registry.touch_spec n now).2.2 (hp.known n List.mem_cons_self)]
    exact .quiet (by simp) (by simp [Point.Condemns]) rfl (by simp)
  | prune => exact safe_scan x.registry.known.nodupKeys fun n hn => hn
  | @check n rest =>
    -- The reply says whether the key is there, so a missing key condemns no vouched worker.
    cases hreply : x.alive n with
    | true =>
      exact ⟨by simp, fun m hm => hm.elim, (List.nodup_cons.mp hp.distinct).2,
        fun m hm => hp.known m (List.mem_cons_of_mem n hm), by simp⟩
    | false =>
      refine ⟨by simp, fun m hm hv => ?_, hp.distinct, hp.known, by simp⟩
      obtain rfl : n = m := hm
      have halive' := halive n hv
      simp [hreply] at halive'
  | healthy => exact safe_scan hp.distinct hp.known
  | unhealthy => exact ⟨by simp, hp.condemned, hp.distinct, hp.known, by simp⟩
  | @punish n rest =>
    have hresult : (x.registry.punish n).1 = .ok () := by
      obtain ⟨-, hresult, -, -⟩ := hf.depositTrace n WorkerRegistry.pruneTrace
      simp [WorkerRegistry.punish, hresult, hrow n rest rfl]
    rw [hresult]
    exact ⟨by simp, hp.condemned, hp.distinct, hp.known, by simp⟩
  | @forget n rest =>
    obtain ⟨hn, hnodup⟩ := List.nodup_cons.mp hp.distinct
    obtain ⟨-, hkeys, hresult⟩ := x.registry.forget_spec n
    rw [hresult (hp.known n List.mem_cons_self)]
    refine safe_scan hnodup fun m hm => (hkeys m).mpr ⟨?_, ?_⟩
    · rintro rfl
      exact hn hm
    · exact hp.known m (List.mem_cons_of_mem n hm)
  | _ => exact .quiet (by simp) (by simp [Point.Condemns]) rfl (by simp)

/-- A call that completes leaves an entry. -/
theorem Safe.known_of_completing {now : K} {x y : Shared K} {p q : Point} (hp : Safe x₀ es x p)
    (h : Registry.resume now x p = some (y, q)) {n : String} (hn : p.Completing x n) :
    n ∈ y.registry.known.keys := by
  cases step_of_resume h with
  | remember =>
    obtain ⟨rfl, -⟩ := hn
    simp [WorkerRegistry.remember]
  | @rememberNew cfg m =>
    obtain ⟨rfl, -⟩ := hn
    simp [WorkerRegistry.remember]
  | @added cfg m =>
    obtain rfl : m = n := hn
    exact hp.known m List.mem_cons_self
  | @touch m =>
    obtain rfl : m = n := hn
    exact ((x.registry.touch_spec m now).2.1 m).mpr (hp.known m List.mem_cons_self)
  | _ => exact hn.elim

theorem Point.Condemns.not_vouches {p : Point} {n m : String} (h : p.Condemns n) :
    ¬p.Vouches m := by
  intro hv
  cases p <;> first | exact h | exact hv

/-- A step vouches only for workers that have their key and that no pruning condemns. -/
theorem Completes.spec {s t : State K} {e : Event K} (hstep : program.step s e = some t)
    (he : Undisturbed s e) {n : String} (h : Completes t n e) :
    ∃ tid now p x q, e = .resume tid now ∧ s.task tid = some p ∧
      Registry.resume now s.shared p = some (x, q) ∧ q.Vouches n ∧ p.Completing s.shared n ∧
      s.shared.alive n ∧ ∀ tid' q', s.task tid' = some q' → ¬q'.Condemns n := by
  obtain ⟨tid, call, rfl, -, rfl⟩ | ⟨tid, now, p, x, q, rfl, hp, hx, rfl⟩ |
    ⟨event, x, rfl, -, rfl⟩ := program.step_cases hstep
  · cases h
  · obtain ⟨q', hq', hv⟩ := h
    obtain rfl : q = q' := by simpa using hq'
    have hcompleting := completing_of_vouches hx hv
    exact ⟨tid, now, p, x, q, rfl, hp, hx, hv, hcompleting,
      he.completion tid now p n rfl hp hcompleting⟩
  · cases h

/-- A step of a call leaves the key and the entry of whoever is vouched for. -/
theorem vouched_resume {s : State K} {tid : Nat} {now : K} {p q : Point} {x : Shared K}
    (hrun : Run.execAll program.step (.start x₀) es = some s)
    (hvouched : ∀ n, Vouched x₀ es n →
      s.shared.alive n ∧ n ∈ s.shared.registry.known.keys)
    (hsafe : Safe x₀ es s.shared p) (he : Undisturbed s (.resume tid now))
    (hp : s.task tid = some p) (hx : Registry.resume now s.shared p = some (x, q)) :
    ∀ n, Vouched x₀ (es ++ [.resume tid now]) n → x.alive n ∧ n ∈ x.registry.known.keys := by
  intro n hn
  obtain ⟨halive, hknown⟩ := resume_keeps hx
  rcases vouched_snoc hrun hn with ⟨t, hstep, hc⟩ | ⟨hv, -⟩
  · obtain ⟨tid', now', p', x', q', htid, hp', -, -, hcompleting, hkey, -⟩ := hc.spec hstep he
    cases htid
    obtain rfl : p = p' := Option.some.inj (hp.symm.trans hp')
    exact ⟨halive n hkey, hsafe.known_of_completing hx hcompleting⟩
  · obtain ⟨hkey, hentry⟩ := hvouched n hv
    refine ⟨halive n hkey, ?_⟩
    rcases hknown n hentry with hentry | ⟨rest, rfl⟩
    · exact hentry
    · -- The pruning is about to delete `n`, so nobody vouches for it.
      exact absurd hv (hsafe.condemned n rfl)

/-- The step that leads a call to a point vouches for nobody whom the call condemns there. -/
theorem Safe.snoc {s : State K} {tid : Nat} {now : K} {p q : Point} {x : Shared K}
    (hrun : Run.execAll program.step (.start x₀) es = some s)
    (he : Undisturbed s (.resume tid now)) (hp : s.task tid = some p)
    (hx : Registry.resume now s.shared p = some (x, q)) (hq : Safe x₀ es x q) :
    Safe x₀ (es ++ [.resume tid now]) x q := by
  refine ⟨hq.config, fun n hcond hn => ?_, hq.distinct, hq.known, hq.calm⟩
  rcases vouched_snoc hrun hn with ⟨t, hstep, hc⟩ | ⟨hv, -⟩
  · obtain ⟨tid', now', p', x', q', htid, hp', hx', hvouches, -⟩ := hc.spec hstep he
    cases htid
    obtain rfl : p = p' := Option.some.inj (hp.symm.trans hp')
    obtain ⟨-, rfl⟩ : x = x' ∧ q = q' := by simpa using hx.symm.trans hx'
    exact hcond.not_vouches hvouches
  · exact hq.condemned n hcond hv

/-- What a call counts on survives a step of another. -/
theorem Safe.stable {s t : State K} {e : Event K} {tid : Nat} {p : Point}
    (hrun : Run.execAll program.step (.start x₀) es = some s) (he : Undisturbed s e)
    (hstep : program.step s e = some t) (hne : e.tid? ≠ some tid) (hp : s.task tid = some p)
    (hsafe : Safe x₀ es s.shared p) : Safe x₀ (es ++ [e]) t.shared p := by
  refine ⟨hsafe.config, fun n hcond hn => ?_, hsafe.distinct, fun n hn => ?_, hsafe.calm⟩
  · rcases vouched_snoc hrun hn with ⟨t', hstep', hc⟩ | ⟨hv, -⟩
    · obtain ⟨-, -, -, -, -, -, -, -, -, -, -, hquiet⟩ := hc.spec hstep' he
      exact hquiet tid p hp hcond
    · exact hsafe.condemned n hcond hv
  · obtain ⟨tid', call, rfl, -, rfl⟩ | ⟨tid', now, p', x, q, rfl, hp', hx, rfl⟩ |
      ⟨event, x, rfl, hx, rfl⟩ := program.step_cases hstep
    · exact hsafe.known n hn
    · rcases (resume_keeps hx).2 n (hsafe.known n hn) with hentry | ⟨rest, rfl⟩
      · exact hentry
      · have htid : tid ≠ tid' := fun h => hne (congrArg some h.symm)
        exact absurd hn (he.deletion tid' now n rest rfl hp' tid p htid hp)
    · obtain ⟨hregistry, -⟩ := expire_spec hx
      exact hregistry ▸ hsafe.known n hn

/-- Whoever is vouched for has the key and the entry, and every call can count on what it
expects. -/
theorem windowOutline (h₀ : x₀.registry.Tracked) :
    program.Outline (τ := Nat) x₀ Undisturbed
      (fun es x => ∀ n, Vouched x₀ es n → x.alive n ∧ n ∈ x.registry.known.keys)
      (fun es _ x p => Safe x₀ es x p) := by
  constructor
  · exact fun n hn => absurd hn not_vouched_nil
  · intro es s tid call hs hann he
    refine ⟨fun n hn => ?_, fun cfg hcfg => ?_, fun n hn => hn.elim, List.nodup_nil,
      fun n hn => absurd hn List.not_mem_nil, fun e => by simp [program]⟩
    · rcases vouched_snoc hs hn with ⟨t, -, hc⟩ | ⟨hv, -⟩
      · exact hc.elim
      · exact hann.1 n hv
    · obtain rfl : call = .registerWorker cfg := by simpa [program] using hcfg
      exact he.config tid cfg rfl
  · intro es s tid now p x q hs hann he hp hx
    have hsafe := hann.2 tid p hp
    obtain ⟨hf, henrolled⟩ := enrolled_run h₀ hs
    have hrow : ∀ n rest, p = .punishing n rest false → n ∈ s.shared.registry.field.nodeIds := by
      rintro n rest rfl
      rcases henrolled n (hsafe.known n List.mem_cons_self) with hrow | ⟨tid', cfg, hadding⟩
      · exact hrow
      · exact absurd hadding (he.deposit tid now n rest rfl hp tid' cfg)
    have hnext := hsafe.resume hf (fun n hn => (hann.1 n hn).1) hrow hx
    exact ⟨vouched_resume hs hann.1 hsafe he hp hx, hnext.snoc hs he hp hx⟩
  · intro es s event x hs hann he hx n hn
    obtain ⟨hregistry, hkeys⟩ := expire_spec hx
    rcases vouched_snoc hs hn with ⟨t, -, hc⟩ | ⟨hv, hother⟩
    · exact hc.elim
    · obtain ⟨hkey, hentry⟩ := hann.1 n hv
      have hne : n ≠ event.nodeId := by
        rintro rfl
        exact hother rfl
      exact ⟨(hkeys n hne).trans hkey, hregistry ▸ hentry⟩
  · intro es s e t tid p hs hann he hstep hne hp hsafe
    exact hsafe.stable hs he hstep hne hp

end Vouched

/-- In every run none of whose steps disturbs a window, live workers stay known and nothing
raises. -/
theorem live_workers_stay (x₀ : Shared K) (h₀ : x₀.registry.Tracked) (es : List (Event K))
    (s : State K) (hrun : Run.execAll program.step (.start x₀) es = some s)
    (hsteps : Run.EachStep program.step Undisturbed (.start x₀) es) : LiveKnown x₀ es s := by
  obtain ⟨hvouched, hsafe⟩ := (windowOutline h₀).run program hrun hsteps
  exact ⟨fun n hn => (hvouched n hn).2, fun tid key hp => (hsafe tid _ hp).calm _ rfl⟩

/-! ## One worker -/

/-- A registry that knows nobody, over a field with one node, and no key. -/
def oneNode : Shared ℚ :=
  ⟨⟨Dict.empty, ⟨["a"], Dict.enumerate ["a"], [Row.defaultState], 1, ⟨true, true⟩⟩⟩, fun _ => false⟩

theorem oneNode_tracked : oneNode.registry.Tracked :=
  ⟨(InMemoryField.consistent_new (List.nodup_singleton "a") (some [Row.defaultState]) rfl).1,
    fun _ hn => absurd hn List.not_mem_nil⟩

/-- The worker registers. -/
def registration : List (Event ℚ) :=
  .spawn 0 (.registerWorker ⟨some "a", none, []⟩) :: List.replicate 4 (.resume 0 100)

/-- A pruning asks for the key, and a heartbeat comes in between. -/
def heartbeatRun : List (Event ℚ) :=
  registration ++ [.spawn 1 .pruneUnhealthyWorkers, .resume 1 100, .spawn 2 (.sendHeartbeat "a"),
    .resume 2 101, .resume 1 101, .resume 2 101, .resume 2 101, .resume 1 101]

omit [Field K] [LinearOrder K] in
theorem undisturbed_resume {s : State K} {tid : Nat} {now : K} {p : Point}
    (hp : s.task tid = some p) (hpunishing : ∀ n rest served, p ≠ .punishing n rest served)
    (hcompletion : ∀ n, p.Completing s.shared n →
      s.shared.alive n ∧ ∀ tid' q, s.task tid' = some q → ¬q.Condemns n) :
    Undisturbed s (.resume tid now) := by
  have hpoint : ∀ tid' now' q, (.resume tid now : Event K) = .resume tid' now' →
      s.task tid' = some q → p = q := by
    rintro tid' now' q ⟨⟩ hq
    exact Option.some.inj (hp.symm.trans hq)
  refine ⟨by simp, fun tid' now' q n he hq hn => ?_, fun tid' now' n rest he hq => ?_,
    fun tid' now' n rest he hq => ?_⟩
  · exact hcompletion n (hpoint tid' now' q he hq ▸ hn)
  · exact absurd (hpoint tid' now' _ he hq) (hpunishing n rest false)
  · exact absurd (hpoint tid' now' _ he hq) (hpunishing n rest true)

/-- A step that completes nothing and is not a pruning's deposit or deletion. -/
def Point.Quiet : Point → Prop
  | .registering _ _ true => False
  | .adding _ _ true => False
  | .refreshing _ true => False
  | .punishing _ _ _ => False
  | _ => True

omit [Field K] [LinearOrder K] in
theorem undisturbed_quiet {s : State K} {tid : Nat} {now : K} {p : Point}
    (hp : s.task tid = some p) (hquiet : p.Quiet) : Undisturbed s (.resume tid now) := by
  refine undisturbed_resume hp ?_ fun n hn => ?_
  · rintro n rest served rfl
    exact hquiet
  · cases p with
    | registering cfg m served => cases served <;> [exact hn.elim; exact hquiet.elim]
    | adding cfg m served => cases served <;> [exact hn.elim; exact hquiet.elim]
    | refreshing m served => cases served <;> [exact hn.elim; exact hquiet.elim]
    | _ => exact hn.elim

omit [Field K] [LinearOrder K] in
theorem undisturbed_spawn {s : State K} {tid : Nat} {c : Call}
    (hc : ∀ cfg, c = .registerWorker cfg → cfg.nodeId.isSome) : Undisturbed s (.spawn tid c) :=
  ⟨by rintro tid' cfg ⟨⟩; exact hc cfg rfl, by simp, by simp, by simp⟩

theorem live_workers_stay_heartbeatRun :
    ∃ s, Run.execAll program.step (.start oneNode) heartbeatRun = some s ∧
      LiveKnown oneNode heartbeatRun s := by
  refine ⟨_, rfl, live_workers_stay oneNode oneNode_tracked heartbeatRun _ rfl ?_⟩
  simp only [heartbeatRun, registration, List.replicate, List.cons_append, List.nil_append]
  refine Run.EachStep.cons _ (undisturbed_spawn (by rintro cfg ⟨⟩; rfl)) rfl ?_
  refine Run.EachStep.cons _ (undisturbed_quiet rfl trivial) rfl ?_
  refine Run.EachStep.cons _ (undisturbed_quiet rfl trivial) rfl ?_
  refine Run.EachStep.cons _ (undisturbed_quiet rfl trivial) rfl ?_
  refine Run.EachStep.cons _ (undisturbed_resume rfl nofun ?_) rfl ?_
  · rintro n ⟨rfl, -⟩
    refine ⟨rfl, ?_⟩
    rintro (_ | tid) q ⟨⟩
    exact fun h => h
  refine Run.EachStep.cons _ (undisturbed_spawn (by simp)) rfl ?_
  refine Run.EachStep.cons _ (undisturbed_quiet rfl trivial) rfl ?_
  refine Run.EachStep.cons _ (undisturbed_spawn (by simp)) rfl ?_
  refine Run.EachStep.cons _ (undisturbed_quiet rfl trivial) rfl ?_
  refine Run.EachStep.cons _ (undisturbed_quiet rfl trivial) rfl ?_
  refine Run.EachStep.cons _ (undisturbed_quiet rfl trivial) rfl ?_
  refine Run.EachStep.cons _ (undisturbed_resume rfl nofun ?_) rfl ?_
  · rintro n rfl
    refine ⟨rfl, ?_⟩
    rintro (_ | _ | _ | tid) q ⟨⟩ <;> exact fun h => h
  exact Run.EachStep.cons _ (undisturbed_quiet rfl trivial) rfl (Run.eachStep_nil _)

/-- The key expires, the pruning does not find it, and the worker's heartbeat arrives before the
reply. -/
def staleRun : List (Event ℚ) :=
  registration ++ [.external ⟨"a"⟩, .spawn 1 .pruneUnhealthyWorkers, .resume 1 106, .resume 1 106,
    .spawn 2 (.sendHeartbeat "a"), .resume 2 106, .resume 2 106, .resume 2 106, .resume 1 107,
    .resume 1 107, .resume 1 107]

theorem stale_check_drops_worker :
    ∃ s, Run.execAll program.step (.start oneNode) staleRun = some s ∧
      ¬LiveKnown oneNode staleRun s := by
  refine ⟨_, rfl, fun h => ?_⟩
  have hvouched : Vouched oneNode staleRun "a" := by
    refine ⟨staleRun.take 12, .resume 2 106, staleRun.drop 13, _, _, rfl, rfl, rfl, ?_, ?_⟩
    · exact ⟨_, rfl, rfl⟩
    · simp [staleRun, registration]
  exact absurd (h.1 "a" hvouched) List.not_mem_nil

end StigmergicMesh.Registry
