import StigmergicMesh.Library.Dict
import Mathlib.Algebra.Field.Rat

/-!
# The resolution of API keys

`validate_api_key` asks Redis and then the static map. A hash that cannot be read as a tenant
counts as a miss, so it hands its key over to the static map; these are the hashes for which Redis
has not the last word. The decoding of bytes and the parsing of numbers are input.
-/

namespace StigmergicMesh.Auth

abbrev Bytes := List UInt8

/-- `str.encode`. -/
def encode (s : String) : Bytes := s.toUTF8.data.toList

structure TenantContext (K : Type*) where
  tenantId : String
  tier : String
  rpmLimit : Int
  tpmLimit : Int
  priorityWeight : K

/-- The tenant of unauthenticated mode. -/
def defaultTenant {K : Type*} [One K] : TenantContext K where
  tenantId := "local-dev"
  tier := "pro"
  rpmLimit := 999999999
  tpmLimit := 9999999999
  priorityWeight := 1

/-- The 401, with the label of the failure counter. -/
structure Unauthorized where
  reason : String
  detail : String

/-- How values are read: `decode("utf-8")`, `int` and `float`, which raise `ValueError` or return
something. -/
structure Readers (K : Type*) where
  decode : Bytes → Option String
  int : String → Option Int
  float : String → Option K

/-- The defaults of missing fields can be read. -/
structure Readers.Lawful {K : Type*} [One K] (readers : Readers K) : Prop where
  rpmLimit : readers.int "600" = some 600
  tpmLimit : readers.int "100000" = some 100000
  priorityWeight : readers.float "1.0" = some 1

variable {K : Type*} (readers : Readers K)

/-- `_field`. -/
def field (raw : Dict Bytes Bytes) (name default : String) : Option String :=
  match raw.get? (encode name) with
  | none => some default
  | some value => readers.decode value

/-- `_hash_to_context`. -/
def hashToContext (raw : Dict Bytes Bytes) : Option (TenantContext K) :=
  if raw.entries = [] then none
  else
    (field readers raw "tenant_id" "unknown").bind fun tenantId =>
    (field readers raw "tier" "pro").bind fun tier =>
    ((field readers raw "rpm_limit" "600").bind readers.int).bind fun rpmLimit =>
    ((field readers raw "tpm_limit" "100000").bind readers.int).bind fun tpmLimit =>
    ((field readers raw "priority_weight" "1.0").bind readers.float).map fun priorityWeight =>
    ⟨tenantId, tier, rpmLimit, tpmLimit, priorityWeight⟩

/-- The stores of the authenticator; `hgetall` returns a hash, which is empty for a missing key, or
raises. -/
structure APIKeyAuthenticator (K : Type*) where
  hgetall : Option (String → Except String (Dict Bytes Bytes))
  secretKeysMap : Dict String (TenantContext K)

variable (sha256 : Bytes → String)

/-- `hash_key`; `sha256` is the hex digest. -/
def hashKey (rawKey : String) : String := sha256 (encode rawKey)

/-- The key of the hash in Redis. -/
def redisKey (apiKey : String) : String := "tenant:key:" ++ hashKey sha256 apiKey

namespace APIKeyAuthenticator

/-- The static fallback map. -/
def fallback (a : APIKeyAuthenticator K) (keyHash : String) :
    Except Unauthorized (TenantContext K) :=
  match a.secretKeysMap.get? keyHash with
  | none => .error ⟨"invalid_key", "Invalid or missing API key"⟩
  | some ctx => .ok ctx

def validateApiKey (a : APIKeyAuthenticator K) (apiKey : String) :
    Except Unauthorized (TenantContext K) :=
  if apiKey = "" then .error ⟨"missing_key", "Invalid or missing API key"⟩
  else
    match a.hgetall with
    | none => a.fallback (hashKey sha256 apiKey)
    | some hgetall =>
      match hgetall (redisKey sha256 apiKey) with
      | .error _ => a.fallback (hashKey sha256 apiKey)
      | .ok raw =>
        match hashToContext readers raw with
        | some ctx => .ok ctx
        | none => a.fallback (hashKey sha256 apiKey)

end APIKeyAuthenticator

/-! ## What decides -/

/-- Each field that the hash has can be read: the texts decode, and the numbers parse. -/
structure WellFormed (raw : Dict Bytes Bytes) : Prop where
  tenantId : ∀ v, raw.get? (encode "tenant_id") = some v → (readers.decode v).isSome
  tier : ∀ v, raw.get? (encode "tier") = some v → (readers.decode v).isSome
  rpmLimit : ∀ v, raw.get? (encode "rpm_limit") = some v →
    ((readers.decode v).bind readers.int).isSome
  tpmLimit : ∀ v, raw.get? (encode "tpm_limit") = some v →
    ((readers.decode v).bind readers.int).isSome
  priorityWeight : ∀ v, raw.get? (encode "priority_weight") = some v →
    ((readers.decode v).bind readers.float).isSome

variable {readers}

/-- A field whose default can be read can be read if the hash has none or a readable one. -/
theorem isSome_field_bind_iff {α : Type*} {read : String → Option α} {default : String}
    (hdefault : (read default).isSome) (raw : Dict Bytes Bytes) (name : String) :
    ((field readers raw name default).bind read).isSome ↔
      ∀ v, raw.get? (encode name) = some v → ((readers.decode v).bind read).isSome := by
  unfold field
  cases raw.get? (encode name) with
  | none => simpa using hdefault
  | some v => simp

theorem isSome_field_iff (raw : Dict Bytes Bytes) (name default : String) :
    (field readers raw name default).isSome ↔
      ∀ v, raw.get? (encode name) = some v → (readers.decode v).isSome := by
  have h : ((field readers raw name default).bind some).isSome ↔
      ∀ v, raw.get? (encode name) = some v → ((readers.decode v).bind some).isSome :=
    isSome_field_bind_iff rfl raw name
  simpa using h

/-- The hashes that are read as a tenant. -/
theorem isSome_hashToContext_iff [One K] (hreaders : readers.Lawful) {raw : Dict Bytes Bytes}
    (hraw : raw.entries ≠ []) : (hashToContext readers raw).isSome ↔ WellFormed readers raw := by
  have hsome : (hashToContext readers raw).isSome ↔
      (field readers raw "tenant_id" "unknown").isSome ∧ (field readers raw "tier" "pro").isSome ∧
      ((field readers raw "rpm_limit" "600").bind readers.int).isSome ∧
      ((field readers raw "tpm_limit" "100000").bind readers.int).isSome ∧
      ((field readers raw "priority_weight" "1.0").bind readers.float).isSome := by
    rw [hashToContext, if_neg hraw]
    cases field readers raw "tenant_id" "unknown" <;> cases field readers raw "tier" "pro" <;>
      cases (field readers raw "rpm_limit" "600").bind readers.int <;>
      cases (field readers raw "tpm_limit" "100000").bind readers.int <;>
      cases (field readers raw "priority_weight" "1.0").bind readers.float <;> simp
  rw [hsome, isSome_field_iff, isSome_field_iff,
    isSome_field_bind_iff (by simp [hreaders.rpmLimit]),
    isSome_field_bind_iff (by simp [hreaders.tpmLimit]),
    isSome_field_bind_iff (by simp [hreaders.priorityWeight])]
  exact ⟨fun ⟨h₁, h₂, h₃, h₄, h₅⟩ => ⟨h₁, h₂, h₃, h₄, h₅⟩,
    fun ⟨h₁, h₂, h₃, h₄, h₅⟩ => ⟨h₁, h₂, h₃, h₄, h₅⟩⟩

variable (readers)

/-- For a key of which Redis holds a hash the static map has no say exactly if the key is empty or
the hash is well formed: a hash that is not is taken for a miss. -/
theorem redis_authoritative_iff [One K] (hreaders : readers.Lawful)
    (hgetall : String → Except String (Dict Bytes Bytes)) (apiKey : String)
    (raw : Dict Bytes Bytes) (hreachable : hgetall (redisKey sha256 apiKey) = .ok raw)
    (hraw : raw.entries ≠ []) :
    (∀ secretKeysMap secretKeysMap' : Dict String (TenantContext K),
      APIKeyAuthenticator.validateApiKey readers sha256 ⟨some hgetall, secretKeysMap⟩ apiKey =
        APIKeyAuthenticator.validateApiKey readers sha256 ⟨some hgetall, secretKeysMap'⟩ apiKey) ↔
      apiKey = "" ∨ WellFormed readers raw := by
  rw [← isSome_hashToContext_iff hreaders hraw]
  by_cases hkey : apiKey = ""
  · simp [APIKeyAuthenticator.validateApiKey, hkey]
  · simp only [APIKeyAuthenticator.validateApiKey, hreachable, hkey, false_or]
    cases hctx : hashToContext readers raw with
    | some ctx => simp
    | none =>
      -- A map with the key and one without it give different outcomes.
      simp only [Option.isSome_none, Bool.false_eq_true, iff_false, not_forall]
      refine ⟨.empty, Dict.empty.set (hashKey sha256 apiKey) defaultTenant, ?_⟩
      simp [APIKeyAuthenticator.fallback, Dict.get?_set]

/-! ## Two hashes -/

/-- The bytes of an ASCII text, and the numbers that are asked for. -/
def asciiReaders : Readers ℚ where
  decode := fun bytes =>
    if bytes.all (· < 128) then some (String.ofList (bytes.map fun b => Char.ofNat b.toNat))
    else none
  int := fun s => if s = "600" then some 600 else if s = "100000" then some 100000 else none
  float := fun s => if s = "1.0" then some 1 else none

theorem asciiReaders_lawful : asciiReaders.Lawful := ⟨rfl, rfl, rfl⟩

/-- A hash with one field. -/
def oneField (name value : String) : Dict Bytes Bytes := Dict.empty.set (encode name) (encode value)

/-- A hash that has nothing but a tier is well formed, and the whole answer. -/
theorem redis_authoritative_of_tier :
    WellFormed asciiReaders (oneField "tier" "free") ∧
    ∀ secretKeysMap secretKeysMap' : Dict String (TenantContext ℚ),
      APIKeyAuthenticator.validateApiKey asciiReaders (fun _ => "5e88")
          ⟨some fun _ => .ok (oneField "tier" "free"), secretKeysMap⟩ "key" =
        APIKeyAuthenticator.validateApiKey asciiReaders (fun _ => "5e88")
          ⟨some fun _ => .ok (oneField "tier" "free"), secretKeysMap'⟩ "key" := by
  have hwell : WellFormed asciiReaders (oneField "tier" "free") :=
    (isSome_hashToContext_iff asciiReaders_lawful (by decide)).mp (by decide)
  refine ⟨hwell, ?_⟩
  exact (redis_authoritative_iff asciiReaders (fun _ => "5e88") asciiReaders_lawful
    (fun _ => .ok (oneField "tier" "free")) "key" (oneField "tier" "free") rfl (by decide)).mpr
    (.inr hwell)

/-- With a limit that is no number the static map decides between a 401 and a tenant. -/
theorem malformed_limit_not_authoritative :
    (oneField "rpm_limit" "lots").entries ≠ [] ∧
    ¬∀ secretKeysMap secretKeysMap' : Dict String (TenantContext ℚ),
      APIKeyAuthenticator.validateApiKey asciiReaders (fun _ => "5e88")
          ⟨some fun _ => .ok (oneField "rpm_limit" "lots"), secretKeysMap⟩ "key" =
        APIKeyAuthenticator.validateApiKey asciiReaders (fun _ => "5e88")
          ⟨some fun _ => .ok (oneField "rpm_limit" "lots"), secretKeysMap'⟩ "key" := by
  refine ⟨by decide, fun h => ?_⟩
  have hnone : hashToContext asciiReaders (oneField "rpm_limit" "lots") = none :=
    Option.not_isSome_iff_eq_none.mp (by decide)
  have heq := h .empty (Dict.empty.set "5e88" defaultTenant)
  simp only [APIKeyAuthenticator.validateApiKey, hnone] at heq
  cases heq

end StigmergicMesh.Auth
