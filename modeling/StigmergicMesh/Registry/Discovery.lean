import StigmergicMesh.Registry.Worker

/-!
# The discovery listener

`register_worker` publishes an announcement with `PUBLISH`, the listener subscribes to the channel
with `subscribe` and handles messages of type `pmessage` only. `announced_discovered_iff` says what
comes of that; `discovered_of_pmessages` that the handling itself discovers what it is given.

How `json` writes and reads text is a parameter. The dictionaries hold the string ids: an id that
is a number or `true` gets an entry of its own beside them.
-/

namespace StigmergicMesh

/-! ## JSON documents as Python reads them -/

/-- The exceptions that handling a message can raise. -/
inductive DiscoveryError where
  | jsonDecodeError
  | keyError
  | typeError
  | attributeError
  /-- Any other exception of `json.loads`, such as `UnicodeDecodeError`. -/
  | otherError

/-- `except (json.JSONDecodeError, KeyError)`. -/
def DiscoveryError.caught : DiscoveryError → Bool
  | .jsonDecodeError | .keyError => true
  | _ => false

/-- The dictionary that `register_worker` publishes. -/
def NodeConfig.announcementMembers (cfg : NodeConfig) (nodeId : String) (timestamp : ℚ) :
    List (String × Json) :=
  [("node_id", .string nodeId), ("capability_tags", .array (cfg.tags.map .string)),
    ("config", cfg.toJson), ("timestamp", .number timestamp), ("action", .string "register")]

def NodeConfig.announcement (cfg : NodeConfig) (nodeId : String) (timestamp : ℚ) : Json :=
  .object (cfg.announcementMembers nodeId timestamp)

/-- What `_listen_for_discovery` looks up in it. -/
theorem NodeConfig.get?_announcementMembers (cfg : NodeConfig) (n : String) (timestamp : ℚ) :
    (Dict.ofList (cfg.announcementMembers n timestamp)).get? "action" =
        some (.string "register") ∧
      (Dict.ofList (cfg.announcementMembers n timestamp)).get? "node_id" = some (.string n) := by
  have hkeys : ((cfg.announcementMembers n timestamp).map Prod.fst).Nodup := by
    simp [announcementMembers]
  constructor
  · exact (Dict.get?_ofList _ hkeys _ _).mpr (by simp [announcementMembers])
  · exact (Dict.get?_ofList _ hkeys _ _).mpr (by simp [announcementMembers])

/-! ## Messages -/

/-- The types of the messages redis-py delivers. -/
inductive MessageType where
  | subscribe
  | unsubscribe
  | psubscribe
  | punsubscribe
  | message
  | pmessage
  deriving DecidableEq

/-- `message["data"]`: a published payload, or the count in a confirmation. -/
inductive MessageData (β : Type*) where
  | payload (text : β)
  | count (n : Nat)

structure Message (β : Type*) where
  type : MessageType
  data : Option (MessageData β)

/-- A message with `_running` and the clock as they are when it arrives. -/
structure Delivery (β K : Type*) where
  running : Bool
  now : K
  message : Message β

/-- Where the loop is after the messages. -/
inductive Listening where
  | listening
  | stopped
  | raised (e : DiscoveryError)

namespace WorkerRegistry

variable {K : Type*} [Field K] {β : Type*}

/-- The `if action == "register"` of `_listen_for_discovery`. A list or a dictionary as the id is
not hashable, an empty one is not looked up. -/
def discover (now : K) (r : WorkerRegistry K) (data : Dict String Json) :
    Except DiscoveryError Unit × WorkerRegistry K :=
  if (data.getD "action" (.string "register")).isString "register" then
    let nodeConfig := data.getD "config" (.object [])
    let capabilityTags := data.getD "capability_tags" (.array [])
    match data.get? "node_id" with
    | some (.string nodeId) =>
      if nodeId ≠ "" ∧ nodeId ∉ r.known.keys then
        (.ok (), (r.remember nodeId capabilityTags nodeConfig now).track nodeId
          capabilityTags.strings)
      else (.ok (), r)
    | some (.array (_ :: _)) => (.error .typeError, r)
    | some (.object (_ :: _)) => (.error .typeError, r)
    | _ => (.ok (), r)
  else (.ok (), r)

/-- The `try` block. -/
def handle (loads : β → Except DiscoveryError Json) (now : K) (r : WorkerRegistry K) :
    Option (MessageData β) → Except DiscoveryError Unit × WorkerRegistry K
  | none => (.error .keyError, r)
  | some (.count _) => (.error .typeError, r)
  | some (.payload text) =>
    match loads text with
    | .error e => (.error e, r)
    | .ok (.object members) => discover now r (Dict.ofList members)
    | .ok _ => (.error .attributeError, r)

/-- The body of the loop after the check of `_running`. -/
def onMessage (loads : β → Except DiscoveryError Json) (now : K) (r : WorkerRegistry K)
    (m : Message β) : Except DiscoveryError Unit × WorkerRegistry K :=
  if m.type ≠ .pmessage then (.ok (), r)
  else
    match handle loads now r m.data with
    | (.error e, r) => if e.caught then (.ok (), r) else (.error e, r)
    | (.ok (), r) => (.ok (), r)

/-- `_listen_for_discovery`, from the subscription on. -/
def listenForDiscovery (loads : β → Except DiscoveryError Json) :
    List (Delivery β K) → WorkerRegistry K → Listening × WorkerRegistry K
  | [], r => (.listening, r)
  | d :: ds, r =>
    if d.running then
      match onMessage loads d.now r d.message with
      | (.error e, r) => (.raised e, r)
      | (.ok (), r) => listenForDiscovery loads ds r
    else (.stopped, r)

/-! ## Discovered workers -/

/-- The message carries what `register_worker` publishes for a configuration with this id. -/
def Announces (dumps : Json → β) (n : String) (m : Message β) : Prop :=
  ∃ cfg timestamp, NodeConfig.nodeId cfg = some n ∧
    m.data = some (.payload (dumps (cfg.announcement n timestamp)))

/-- The loop is still listening, and every announced worker is known and has one row. -/
def Discovered (dumps : Json → β) (ds : List (Delivery β K))
    (after : Listening × WorkerRegistry K) : Prop :=
  after.1 = .listening ∧ ∀ d ∈ ds, ∀ n, Announces dumps n d.message →
    n ∈ after.2.known.keys ∧ after.2.field.nodeIds.count n = 1

theorem listenForDiscovery_of_skipped (loads : β → Except DiscoveryError Json)
    (r : WorkerRegistry K) (ds : List (Delivery β K)) (hrunning : ∀ d ∈ ds, d.running = true)
    (htype : ∀ d ∈ ds, d.message.type ≠ .pmessage) :
    listenForDiscovery loads ds r = (.listening, r) := by
  induction ds with
  | nil => rfl
  | cons d ds ih =>
    have hskip : onMessage loads d.now r d.message = (.ok (), r) :=
      if_pos (htype d List.mem_cons_self)
    simp only [listenForDiscovery, hrunning d List.mem_cons_self, if_true, hskip]
    exact ih (fun e he => hrunning e (List.mem_cons_of_mem d he))
      fun e he => htype e (List.mem_cons_of_mem d he)

/-- Of the messages that a `subscribe` brings, the announcements are discovered exactly if they
announce workers that are known and tracked already. -/
theorem announced_discovered_iff (loads : β → Except DiscoveryError Json) (dumps : Json → β)
    (r : WorkerRegistry K) (hf : r.field.Consistent) (ds : List (Delivery β K))
    (hrunning : ∀ d ∈ ds, d.running = true) (htype : ∀ d ∈ ds, d.message.type ≠ .pmessage) :
    Discovered dumps ds (listenForDiscovery loads ds r) ↔
      ∀ d ∈ ds, ∀ n, Announces dumps n d.message → n ∈ r.known.keys ∧ n ∈ r.field.nodeIds := by
  rw [listenForDiscovery_of_skipped loads r ds hrunning htype, Discovered]
  simp only [true_and, hf.nodup.count, ite_eq_left_iff, Nat.zero_ne_one, imp_false, not_not]

/-! ## One announcement -/

/-- The configuration of a worker with an id and nothing else. -/
def sampleConfig : NodeConfig := ⟨some "b", none, []⟩

/-- What `json.dumps` makes of its announcement. -/
def sampleText : String :=
  "\x7b\"node_id\": \"b\", \"capability_tags\": [], \"config\": \x7b\"node_id\": \"b\"\x7d, " ++
    "\"timestamp\": 100.0, \"action\": \"register\"\x7d"

theorem sampleText_ne_empty : sampleText ≠ "" := fun h =>
  absurd (String.append_eq_empty_iff.mp h).2 (by decide)

def sampleDumps : Json → String
  | .object (("node_id", .string n) :: _) => if n = "b" then sampleText else ""
  | _ => ""

def sampleLoads (text : String) : Except DiscoveryError Json :=
  if text = sampleText then .ok (sampleConfig.announcement "b" 100) else .error .jsonDecodeError

/-- The confirmation of the subscription, then the announcement. -/
def sampleDeliveries : List (Delivery String ℚ) :=
  [⟨true, 100, ⟨.subscribe, some (.count 1)⟩⟩,
    ⟨true, 100, ⟨.message, some (.payload sampleText)⟩⟩]

/-- A registry over a field without nodes. -/
def emptyRegistry : WorkerRegistry ℚ := ⟨Dict.empty, ⟨[], Dict.empty, [], 1, ⟨true, true⟩⟩⟩

theorem emptyRegistry_consistent : emptyRegistry.field.Consistent :=
  ⟨List.nodup_nil, by simp [emptyRegistry], rfl⟩

theorem announces_sampleDeliveries {d : Delivery String ℚ} (hd : d ∈ sampleDeliveries)
    {n : String} (h : Announces sampleDumps n d.message) : n = "b" := by
  obtain ⟨cfg, timestamp, -, hdata⟩ := h
  have hdumps : sampleDumps (cfg.announcement n timestamp) = if n = "b" then sampleText else "" :=
    rfl
  rw [hdumps] at hdata
  by_contra hn
  rw [if_neg hn] at hdata
  simp only [sampleDeliveries, List.mem_cons, List.not_mem_nil, or_false] at hd
  rcases hd with hd | hd
  · simp [hd] at hdata
  · rw [hd, Option.some_inj, MessageData.payload.injEq] at hdata
    exact sampleText_ne_empty hdata

/-- A registry that has registered the worker itself. -/
theorem announced_discovered_iff_registered :
    Discovered sampleDumps sampleDeliveries (listenForDiscovery sampleLoads sampleDeliveries
      (emptyRegistry.registerWorker 100 sampleConfig).2) := by
  have htracks := track_spec (r := emptyRegistry.remember "b" (.array []) sampleConfig.toJson 100)
    emptyRegistry_consistent "b" []
  refine (announced_discovered_iff sampleLoads sampleDumps _ htracks.1 sampleDeliveries
    (by simp [sampleDeliveries]) (by simp [sampleDeliveries])).mpr fun d hd n hn => ?_
  obtain rfl := announces_sampleDeliveries hd hn
  refine ⟨?_, (htracks.2.1 "b").mpr (Or.inl rfl)⟩
  rw [htracks.2.2]
  simp [remember]

/-- A registry that has not never learns of it. -/
theorem announcement_goes_unheard :
    ¬Discovered sampleDumps sampleDeliveries
      (listenForDiscovery sampleLoads sampleDeliveries emptyRegistry) := by
  intro h
  have hb : Announces sampleDumps "b" ⟨.message, some (.payload sampleText)⟩ :=
    ⟨sampleConfig, 100, rfl, rfl⟩
  have hknown := (h.2 ⟨true, 100, ⟨.message, some (.payload sampleText)⟩⟩
    (by simp [sampleDeliveries]) "b" hb).1
  simp [sampleDeliveries, listenForDiscovery, onMessage, emptyRegistry, Dict.keys, Dict.empty]
    at hknown

/-! ## A pattern subscription -/

/-- The payload is no JSON, or a document that `discover` can work with. -/
def Sound (loads : β → Except DiscoveryError Json) (m : Message β) : Prop :=
  ∃ text, m.data = some (.payload text) ∧
    (loads text = .error .jsonDecodeError ∨
      ∃ members, loads text = .ok (.object members) ∧
        ∀ id, (Dict.ofList members).get? "node_id" = some id → ∃ n, id = .string n)

/-- Discovering keeps the known workers, and adds the one it is told of. -/
theorem discover_spec {r : WorkerRegistry K} (h : Tracked r) (now : K) (data : Dict String Json)
    (hid : ∀ id, data.get? "node_id" = some id → ∃ n, id = .string n) :
    (discover now r data).1 = .ok () ∧ Tracked (discover now r data).2 ∧
      (∀ m ∈ r.known.keys, m ∈ (discover now r data).2.known.keys) ∧
      ∀ n, n ≠ "" → (data.getD "action" (.string "register")).isString "register" →
        data.get? "node_id" = some (.string n) → n ∈ (discover now r data).2.known.keys := by
  unfold discover
  split
  · cases hdata : data.get? "node_id" with
    | none => exact ⟨rfl, h, fun m hm => hm, by simp⟩
    | some id =>
      obtain ⟨nodeId, rfl⟩ := hid id hdata
      dsimp only
      split
      · rename_i hnew
        set tags := data.getD "capability_tags" (.array []) with htags
        set r' := r.remember nodeId tags (data.getD "config" (.object [])) now with hr'
        have hkeys : ∀ m, m ∈ r'.known.keys ↔ m = nodeId ∨ m ∈ r.known.keys := fun m => by
          simp [hr', remember]
        obtain ⟨hc, hmem, hknown⟩ := track_spec (r := r') h.consistent nodeId tags.strings
        refine ⟨rfl, ⟨hc, fun m hm => ?_⟩, fun m hm => ?_, ?_⟩
        · rw [hknown, hkeys] at hm
          exact (hmem m).mpr (hm.imp_right (h.known m))
        · rw [hknown, hkeys]
          exact Or.inr hm
        · rintro n - - hn
          obtain rfl : nodeId = n := by simpa using hn
          rw [hknown, hkeys]
          exact Or.inl rfl
      · rename_i hold
        refine ⟨rfl, h, fun m hm => hm, fun n hn _ hget => ?_⟩
        obtain rfl : nodeId = n := by simpa using hget
        by_contra hnot
        exact hold ⟨hn, hnot⟩
  · rename_i hother
    exact ⟨rfl, h, fun m hm => hm, fun n _ hreg => absurd hreg hother⟩

/-- A message with a sound payload never ends the loop. -/
theorem onMessage_spec {loads : β → Except DiscoveryError Json} {r : WorkerRegistry K}
    (h : Tracked r) (now : K) {m : Message β} (hm : m.type = .pmessage → Sound loads m) :
    (onMessage loads now r m).1 = .ok () ∧ Tracked (onMessage loads now r m).2 ∧
      (∀ n ∈ r.known.keys, n ∈ (onMessage loads now r m).2.known.keys) ∧
      ∀ dumps : Json → β, (∀ j, loads (dumps j) = .ok j) → m.type = .pmessage →
        ∀ n, n ≠ "" → Announces dumps n m → n ∈ (onMessage loads now r m).2.known.keys := by
  unfold onMessage
  split
  · rename_i hother
    exact ⟨rfl, h, fun n hn => hn, fun _ _ htype => absurd htype hother⟩
  · rename_i htype
    obtain ⟨text, hdata, hloads | ⟨members, hloads, hid⟩⟩ := hm (not_not.mp htype)
    · have hhandle : handle loads now r m.data = (.error .jsonDecodeError, r) := by
        simp [handle, hdata, hloads]
      rw [hhandle]
      refine ⟨rfl, h, fun n hn => hn, ?_⟩
      rintro dumps hinv - n - ⟨cfg, timestamp, -, hpayload⟩
      rw [hdata] at hpayload
      obtain rfl : text = dumps (cfg.announcement n timestamp) := by simpa using hpayload
      simp [hinv] at hloads
    · have hhandle : handle loads now r m.data = discover now r (Dict.ofList members) := by
        simp [handle, hdata, hloads]
      obtain ⟨hok, htracked, hgrow, hnew⟩ := discover_spec h now (Dict.ofList members) hid
      obtain ⟨r', hdone⟩ : ∃ r', discover now r (Dict.ofList members) = (.ok (), r') :=
        ⟨_, Prod.ext hok rfl⟩
      rw [hdone] at htracked hgrow hnew
      simp only [hhandle, hdone]
      refine ⟨trivial, htracked, hgrow, ?_⟩
      rintro dumps hinv - n hn ⟨cfg, timestamp, -, hpayload⟩
      rw [hdata] at hpayload
      obtain rfl : text = dumps (cfg.announcement n timestamp) := by simpa using hpayload
      rw [hinv] at hloads
      obtain rfl : cfg.announcementMembers n timestamp = members := by
        simpa [NodeConfig.announcement] using hloads
      obtain ⟨haction, hnode⟩ := cfg.get?_announcementMembers n timestamp
      exact hnew n hn (by simp [Dict.getD, haction, Json.isString]) hnode

/-- Delivered as `pmessage`s, sound announcements would be discovered. -/
theorem discovered_of_pmessages (loads : β → Except DiscoveryError Json) (dumps : Json → β)
    (hinv : ∀ j, loads (dumps j) = .ok j) {r : WorkerRegistry K} (h : Tracked r)
    (ds : List (Delivery β K)) (hrunning : ∀ d ∈ ds, d.running = true)
    (hsound : ∀ d ∈ ds, d.message.type = .pmessage ∧ Sound loads d.message)
    (hids : ∀ d ∈ ds, ¬Announces dumps "" d.message) :
    Discovered dumps ds (listenForDiscovery loads ds r) := by
  suffices hrun : (listenForDiscovery loads ds r).1 = .listening ∧
      Tracked (listenForDiscovery loads ds r).2 ∧
      (∀ n ∈ r.known.keys, n ∈ (listenForDiscovery loads ds r).2.known.keys) ∧
      ∀ d ∈ ds, ∀ n, Announces dumps n d.message →
        n ∈ (listenForDiscovery loads ds r).2.known.keys by
    obtain ⟨hlistening, htracked, -, hknown⟩ := hrun
    refine ⟨hlistening, fun d hd n hn => ⟨hknown d hd n hn, ?_⟩⟩
    exact List.count_eq_one_of_mem htracked.consistent.nodup (htracked.known n (hknown d hd n hn))
  induction ds generalizing r with
  | nil => exact ⟨rfl, h, fun n hn => hn, by simp⟩
  | cons d ds ih =>
    have hhead := List.mem_cons_self (a := d) (l := ds)
    have htail : ∀ e ∈ ds, e ∈ d :: ds := fun e he => List.mem_cons_of_mem d he
    obtain ⟨hok, htracked, hgrow, hnew⟩ := onMessage_spec h d.now fun _ => (hsound d hhead).2
    set r' := (onMessage loads d.now r d.message).2
    have hstep : listenForDiscovery loads (d :: ds) r = listenForDiscovery loads ds r' := by
      have hdone : onMessage loads d.now r d.message = (.ok (), r') := Prod.ext hok rfl
      simp only [listenForDiscovery, hrunning d hhead, if_true, hdone]
    obtain ⟨hlistening, htracked', hgrow', hknown⟩ := ih htracked
      (fun e he => hrunning e (htail e he)) (fun e he => hsound e (htail e he))
      fun e he => hids e (htail e he)
    rw [hstep]
    refine ⟨hlistening, htracked', fun n hn => hgrow' n (hgrow n hn), fun e he n hn => ?_⟩
    rcases List.mem_cons.mp he with rfl | he
    · have hne : n ≠ "" := by
        rintro rfl
        exact hids e hhead hn
      exact hgrow' n (hnew dumps hinv (hsound e hhead).1 n hne hn)
    · exact hknown e he n hn

end WorkerRegistry

end StigmergicMesh
