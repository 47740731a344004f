import StigmergicMesh.Auth.Keys
import StigmergicMesh.Library.Text

/-!
# The tenant of a request

`get_current_tenant` takes the key from the `Authorization` header and resolves it. A header is
accepted if it is the scheme, whitespace, and a token; whitespace before the scheme is skipped, and
all that follows the whitespace after it is the key, blanks included. What `str.lower` does to the
scheme is a parameter.
-/

namespace StigmergicMesh.Auth

variable {K : Type*}

section Header

variable (lower : String → String)

/-- `_parse_bearer`. -/
def parseBearer (authorization : Option String) : Option (String × String) :=
  match authorization with
  | none => none
  | some header =>
    if header = "" then none
    else
      match Text.splitOnce header.toList with
      | [scheme, token] =>
        if lower (String.ofList scheme) ≠ "bearer" ∨ token = [] then none
        else some (String.ofList scheme, String.ofList token)
      | _ => none

/-- `not authorization`. -/
def isMissing (authorization : Option String) : Bool :=
  match authorization with
  | none => true
  | some header => header = ""

end Header

section Tenant

variable [One K] (readers : Readers K) (sha256 : Bytes → String) (lower : String → String)

/-- `get_current_tenant`. -/
def getCurrentTenant (authenticator : Option (APIKeyAuthenticator K))
    (authorization : Option String) : Except Unauthorized (TenantContext K) :=
  match authenticator with
  | none => .ok defaultTenant
  | some a =>
    match parseBearer lower authorization with
    | none =>
      .error ⟨if isMissing authorization then "missing_key" else "malformed_key",
        "Missing or malformed Authorization header"⟩
    | some (_, token) => a.validateApiKey readers sha256 token

end Tenant

/-! ## The accepted headers -/

/-- A header with this scheme and this token. -/
structure IsHeader (header scheme token : String) : Prop where
  split : ∃ ws ws', header.toList = ws ++ (scheme.toList ++ (ws' ++ token.toList)) ∧
    (∀ c ∈ ws, Text.isSpace c = true) ∧ (∀ c ∈ ws', Text.isSpace c = true) ∧ ws' ≠ []
  scheme_ne : scheme ≠ ""
  scheme_word : ∀ c ∈ scheme.toList, Text.isSpace c = false
  token_head : ∃ c t, token.toList = c :: t ∧ Text.isSpace c = false

theorem IsHeader.token_ne {header scheme token : String} (h : IsHeader header scheme token) :
    token ≠ "" := by
  rintro rfl
  obtain ⟨c, t, hc, -⟩ := h.token_head
  cases hc

/-- The headers that are split into two. -/
theorem splitOnce_eq_iff_isHeader (header scheme token : String) :
    Text.splitOnce header.toList = [scheme.toList, token.toList] ↔
      IsHeader header scheme token := by
  rw [Text.splitOnce_eq_pair_iff]
  constructor
  · rintro ⟨ws, ws', hsplit, hws, hws', hne, hword, hchars, hhead⟩
    exact ⟨⟨ws, ws', hsplit, hws, hws', hne⟩, by rintro rfl; exact hword rfl, hchars, hhead⟩
  · rintro ⟨⟨ws, ws', hsplit, hws, hws', hne⟩, hscheme, hchars, hhead⟩
    refine ⟨ws, ws', hsplit, hws, hws', hne, fun h => hscheme ?_, hchars, hhead⟩
    exact String.toList_inj.mp h

/-- A header is accepted exactly if it is a scheme that says bearer, whitespace and a token, and
then it is taken apart into these. -/
theorem parseBearer_eq_some_iff (lower : String → String) (header scheme token : String) :
    parseBearer lower (some header) = some (scheme, token) ↔
      IsHeader header scheme token ∧ lower scheme = "bearer" := by
  rw [← splitOnce_eq_iff_isHeader]
  constructor
  · intro h
    simp only [parseBearer] at h
    split_ifs at h with hempty
    split at h
    · rename_i a b hsplit
      split_ifs at h with hbad
      obtain ⟨rfl, rfl⟩ : String.ofList a = scheme ∧ String.ofList b = token := by simpa using h
      refine ⟨by simpa using hsplit, ?_⟩
      by_contra hne
      exact hbad (Or.inl hne)
    · cases h
  · rintro ⟨hsplit, hlower⟩
    have hheader : header ≠ "" := by
      rintro rfl
      simp [Text.splitOnce] at hsplit
    have htoken : token.toList ≠ [] := by
      obtain ⟨c, t, hc, -⟩ := ((splitOnce_eq_iff_isHeader header scheme token).mp hsplit).token_head
      simp [hc]
    simp [parseBearer, hheader, hsplit, hlower, htoken]

/-- The request presents a key: its header is a scheme that says bearer, whitespace and the key. -/
def Presents (lower : String → String) (authorization : Option String) (token : String) : Prop :=
  ∃ header scheme, authorization = some header ∧ IsHeader header scheme token ∧
    lower scheme = "bearer"

theorem presents_iff {lower : String → String} {authorization : Option String} {token : String} :
    Presents lower authorization token ↔
      ∃ scheme, parseBearer lower authorization = some (scheme, token) := by
  constructor
  · rintro ⟨header, scheme, rfl, hheader, hlower⟩
    exact ⟨scheme, (parseBearer_eq_some_iff lower header scheme token).mpr ⟨hheader, hlower⟩⟩
  · rintro ⟨scheme, h⟩
    cases authorization with
    | none => cases h
    | some header =>
      obtain ⟨hheader, hlower⟩ := (parseBearer_eq_some_iff lower header scheme token).mp h
      exact ⟨header, scheme, rfl, hheader, hlower⟩

theorem Presents.token_ne {lower : String → String} {authorization : Option String}
    {token : String} (h : Presents lower authorization token) : token ≠ "" := by
  obtain ⟨header, scheme, -, hheader, -⟩ := h
  exact hheader.token_ne

theorem Presents.unique {lower : String → String} {authorization : Option String}
    {token token' : String} (h : Presents lower authorization token)
    (h' : Presents lower authorization token') : token = token' := by
  obtain ⟨scheme, hs⟩ := presents_iff.mp h
  obtain ⟨scheme', hs'⟩ := presents_iff.mp h'
  simpa using congrArg (Option.map Prod.snd) (hs.symm.trans hs')

theorem isMissing_iff {authorization : Option String} :
    isMissing authorization = true ↔ authorization = none ∨ authorization = some "" := by
  cases authorization <;> simp [isMissing]

theorem not_presents_of_isMissing {lower : String → String} {authorization : Option String}
    (h : isMissing authorization = true) (token : String) :
    ¬Presents lower authorization token := by
  rw [presents_iff]
  rcases isMissing_iff.mp h with rfl | rfl <;> rintro ⟨scheme, hs⟩ <;> cases hs

/-! ## The 401 -/

/-- A key that is not empty is refused because nothing resolves it. -/
theorem APIKeyAuthenticator.eq_of_validateApiKey_error {readers : Readers K}
    {sha256 : Bytes → String} {a : APIKeyAuthenticator K} {token : String} (htoken : token ≠ "")
    {u : Unauthorized} (h : a.validateApiKey readers sha256 token = .error u) :
    u = ⟨"invalid_key", "Invalid or missing API key"⟩ := by
  have hfallback : ∀ keyHash, a.fallback keyHash = .error u →
      u = ⟨"invalid_key", "Invalid or missing API key"⟩ := by
    intro keyHash hf
    unfold fallback at hf
    split at hf <;> cases hf
    rfl
  simp only [validateApiKey, htoken, if_false] at h
  split at h
  · exact hfallback _ h
  · split at h
    · exact hfallback _ h
    · split at h
      · cases h
      · exact hfallback _ h

/-- A key that Redis knows no tenant for is looked up in the static map. -/
theorem APIKeyAuthenticator.validateApiKey_of_unknown {readers : Readers K}
    {sha256 : Bytes → String} {a : APIKeyAuthenticator K} {token : String} (htoken : token ≠ "")
    (h : ∀ hgetall, a.hgetall = some hgetall → ∀ raw, hgetall (redisKey sha256 token) = .ok raw →
      hashToContext readers raw = none) :
    a.validateApiKey readers sha256 token = a.fallback (hashKey sha256 token) := by
  simp only [validateApiKey, htoken, if_false]
  split
  · rfl
  · rename_i hgetall hh
    split
    · rfl
    · rename_i raw hraw
      simp only [h hgetall hh raw hraw]

section Dependency

variable [One K] {readers : Readers K} {sha256 : Bytes → String} {lower : String → String}
  {a : APIKeyAuthenticator K} {authorization : Option String}

theorem getCurrentTenant_of_presents {token : String}
    (h : Presents lower authorization token) :
    getCurrentTenant readers sha256 lower (some a) authorization =
      a.validateApiKey readers sha256 token := by
  obtain ⟨scheme, hparsed⟩ := presents_iff.mp h
  simp only [getCurrentTenant, hparsed]

theorem getCurrentTenant_of_not_presents (h : ∀ token, ¬Presents lower authorization token) :
    getCurrentTenant readers sha256 lower (some a) authorization =
      .error ⟨if isMissing authorization then "missing_key" else "malformed_key",
        "Missing or malformed Authorization header"⟩ := by
  have hparsed : parseBearer lower authorization = none := by
    cases hp : parseBearer lower authorization with
    | none => rfl
    | some parts => exact absurd (presents_iff.mpr ⟨parts.1, hp⟩) (h parts.2)
  simp only [getCurrentTenant, hparsed]

end Dependency

/-- With security on, a request is let in as the tenant of the key it presents. A 401 says what is
wrong with it: there is no header, or the header presents no key, or nothing resolves the key. -/
theorem getCurrentTenant_iff [One K] (readers : Readers K) (sha256 : Bytes → String)
    (lower : String → String) (a : APIKeyAuthenticator K) (authorization : Option String) :
    (∀ tenant, getCurrentTenant readers sha256 lower (some a) authorization = .ok tenant ↔
      ∃ token, Presents lower authorization token ∧
        a.validateApiKey readers sha256 token = .ok tenant) ∧
    ∀ reason, (∃ detail, getCurrentTenant readers sha256 lower (some a) authorization =
        .error ⟨reason, detail⟩) ↔
      (reason = "missing_key" ∧ (authorization = none ∨ authorization = some "")) ∨
      (reason = "malformed_key" ∧ (∃ header, authorization = some header ∧ header ≠ "") ∧
        ∀ token, ¬Presents lower authorization token) ∨
      (reason = "invalid_key" ∧ ∃ token, Presents lower authorization token ∧
        ∀ tenant, a.validateApiKey readers sha256 token ≠ .ok tenant) := by
  by_cases hpresents : ∃ token, Presents lower authorization token
  · obtain ⟨token, htoken⟩ := hpresents
    have hothers : ∀ token', Presents lower authorization token' ↔ token' = token := fun token' =>
      ⟨fun h => h.unique htoken, fun h => h ▸ htoken⟩
    have hheader : ¬(authorization = none ∨ authorization = some "") := fun h =>
      not_presents_of_isMissing (isMissing_iff.mpr h) token htoken
    rw [getCurrentTenant_of_presents htoken]
    have hrefused : ¬∀ token', token' ≠ token := fun h => h token rfl
    simp only [hothers, exists_eq_left, hheader, hrefused, and_false, false_or]
    refine ⟨fun _ => trivial, fun reason => ?_⟩
    cases hkey : a.validateApiKey readers sha256 token with
    | ok tenant => simp
    | error u =>
      obtain rfl := APIKeyAuthenticator.eq_of_validateApiKey_error htoken.token_ne hkey
      simp [eq_comm]
  · have hnone : ∀ token, ¬Presents lower authorization token := not_exists.mp hpresents
    rw [getCurrentTenant_of_not_presents hnone]
    simp only [hnone, false_and, exists_false, and_false, or_false, not_false_iff, implies_true,
      and_true, reduceCtorEq, true_and]
    intro reason
    cases authorization with
    | none => simp [isMissing, eq_comm]
    | some header =>
      by_cases hempty : header = ""
      · simp [isMissing, hempty, eq_comm]
      · simp [isMissing, hempty, eq_comm]

end StigmergicMesh.Auth
