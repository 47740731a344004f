import Mathlib.Data.List.Nodup

/-!
# Insertion-ordered dictionaries

A `Dict` is a list of entries whose keys are pairwise distinct: the distinctness is a field, so
a dictionary with two entries for one key cannot be built. Assignment to a present key keeps the
key's place, a new key goes last, and iteration follows the entries.

`get?_eq_some_iff` reads lookups as membership; `get?_set`, `get?_ofList` and `get?_enumerate`
are the lookup laws the clients use.
-/

namespace StigmergicMesh

/-- A finite map that remembers the order of insertion. -/
structure Dict (α β : Type*) where
  entries : List (α × β)
  nodupKeys : (entries.map Prod.fst).Nodup

namespace Dict

variable {α β : Type*}

/-! ## Lookups -/

def empty : Dict α β := ⟨[], List.nodup_nil⟩

def keys (d : Dict α β) : List α := d.entries.map Prod.fst

def values (d : Dict α β) : List β := d.entries.map Prod.snd

variable [DecidableEq α]

def get? (d : Dict α β) (a : α) : Option β := (d.entries.find? (fun p => p.1 = a)).map Prod.snd

def getD (d : Dict α β) (a : α) (b : β) : β := (d.get? a).getD b

@[simp] theorem get?_empty (a : α) : (empty : Dict α β).get? a = none := rfl

/-- Distinct keys make a lookup the same as membership of the entry. -/
theorem get?_eq_some_iff (d : Dict α β) (a : α) (b : β) :
    d.get? a = some b ↔ (a, b) ∈ d.entries := by
  obtain ⟨es, hes⟩ := d
  simp only [get?]
  induction es with
  | nil => simp
  | cons p es ih =>
    obtain ⟨k, v⟩ := p
    have hk : ∀ w, (k, w) ∉ es := fun w hw =>
      (List.nodup_cons.mp hes).1 (List.mem_map.mpr ⟨(k, w), hw, rfl⟩)
    by_cases h : k = a
    · subst h
      simp [hk, eq_comm]
    · simpa [List.find?_cons, h, Ne.symm h] using ih (List.nodup_cons.mp hes).2

theorem mem_values_of_get? {d : Dict α β} {a : α} {b : β} (h : d.get? a = some b) :
    b ∈ d.values :=
  List.mem_map.mpr ⟨(a, b), (get?_eq_some_iff d a b).mp h, rfl⟩

theorem mem_values_iff (d : Dict α β) (b : β) : b ∈ d.values ↔ ∃ a, d.get? a = some b := by
  constructor
  · intro h
    obtain ⟨p, hp, rfl⟩ := List.mem_map.mp h
    exact ⟨p.1, (get?_eq_some_iff d p.1 p.2).mpr hp⟩
  · rintro ⟨a, h⟩
    exact mem_values_of_get? h

/-! ## Assignment -/

/-- `d[a] = b`. -/
def set (d : Dict α β) (a : α) (b : β) : Dict α β :=
  if h : a ∈ d.keys then
    ⟨d.entries.map (fun p => if p.1 = a then (p.1, b) else p), by
      have : (d.entries.map (fun p => if p.1 = a then (p.1, b) else p)).map Prod.fst = d.keys := by
        rw [List.map_map]
        exact List.map_congr_left fun p _ => by by_cases hp : p.1 = a <;> simp [hp]
      rw [this]
      exact d.nodupKeys⟩
  else
    ⟨d.entries ++ [(a, b)], by
      rw [List.map_append]
      exact d.nodupKeys.append (by simp) (by simpa [keys] using h)⟩

theorem get?_set (d : Dict α β) (a c : α) (b : β) :
    (d.set a b).get? c = if c = a then some b else d.get? c := by
  ext v
  rw [get?_eq_some_iff]
  by_cases h : a ∈ d.keys
  · obtain ⟨⟨a', w⟩, hw, rfl⟩ := List.mem_map.mp h
    by_cases hc : c = a'
    · subst hc
      simp only [set, h, dif_pos, List.mem_map, if_true, Option.some.injEq]
      constructor
      · rintro ⟨⟨k, x⟩, -, hp⟩
        by_cases hk : k = c <;> simp_all
      · rintro rfl
        exact ⟨(c, w), hw, by simp⟩
    · simp only [set, h, dif_pos, List.mem_map, if_neg hc, get?_eq_some_iff]
      constructor
      · rintro ⟨⟨k, x⟩, hp, he⟩
        by_cases hk : k = a' <;> simp_all
      · intro hp
        exact ⟨(c, v), hp, by simp [hc]⟩
  · by_cases hc : c = a
    · subst hc
      have hn : (c, v) ∉ d.entries := fun hm => h (List.mem_map.mpr ⟨_, hm, rfl⟩)
      simp [set, h, hn, eq_comm]
    · simp [set, h, hc, get?_eq_some_iff]

theorem mem_values_set {d : Dict α β} {a : α} {b c : β} (h : c ∈ (d.set a b).values) :
    c = b ∨ c ∈ d.values := by
  obtain ⟨k, hk⟩ := (mem_values_iff _ c).mp h
  rw [get?_set] at hk
  by_cases hka : k = a
  · rw [if_pos hka] at hk
    exact Or.inl (Option.some.inj hk).symm
  · rw [if_neg hka] at hk
    exact Or.inr (mem_values_of_get? hk)

/-! ## Deletion -/

omit [DecidableEq α] in
theorem mem_keys_iff_exists (d : Dict α β) (a : α) : a ∈ d.keys ↔ ∃ b, (a, b) ∈ d.entries := by
  simp [keys]

theorem mem_keys_iff (d : Dict α β) (a : α) : a ∈ d.keys ↔ (d.get? a).isSome := by
  simp [mem_keys_iff_exists, Option.isSome_iff_exists, get?_eq_some_iff]

/-- `del d[a]`. -/
def erase (d : Dict α β) (a : α) : Dict α β :=
  ⟨d.entries.filter (fun p => p.1 ≠ a), d.nodupKeys.sublist (List.filter_sublist.map _)⟩

theorem keys_erase (d : Dict α β) (a : α) : (d.erase a).keys = d.keys.filter (· ≠ a) := by
  simp only [erase, keys, List.filter_map]
  rfl

@[simp] theorem mem_keys_erase {d : Dict α β} {a c : α} :
    c ∈ (d.erase a).keys ↔ c ≠ a ∧ c ∈ d.keys := by
  simp [mem_keys_iff_exists, erase, and_comm]

@[simp] theorem mem_keys_set {d : Dict α β} {a c : α} {b : β} :
    c ∈ (d.set a b).keys ↔ c = a ∨ c ∈ d.keys := by
  rw [mem_keys_iff, get?_set, mem_keys_iff]
  by_cases hc : c = a <;> simp [hc]

/-! ## Keys and values -/

/-- Keys and values are listed in the same order. -/
theorem getElem?_values (d : Dict α β) {i : ℕ} {a : α} (h : d.keys[i]? = some a) :
    d.values[i]? = d.get? a := by
  rw [keys, List.getElem?_map] at h
  obtain ⟨⟨a', b⟩, hp, rfl⟩ := Option.map_eq_some_iff.mp h
  rw [values, List.getElem?_map, hp]
  exact ((get?_eq_some_iff d a' b).mpr (List.mem_of_getElem? hp)).symm

/-- The values as lookups of the keys. -/
theorem map_values {γ : Type*} (d : Dict α β) (f : β → γ) (default : γ) :
    d.values.map f = d.keys.map (fun a => ((d.get? a).map f).getD default) := by
  apply List.ext_getElem?
  intro i
  cases h : d.keys[i]? with
  | none =>
    have hlen : d.values.length ≤ i := by
      have := List.getElem?_eq_none_iff.mp h
      simpa [keys, values] using this
    simp [h, hlen]
  | some a =>
    have hvalue := d.getElem?_values h
    have hsome : (d.get? a).isSome := (d.mem_keys_iff a).mp (List.mem_of_getElem? h)
    obtain ⟨b, hb⟩ := Option.isSome_iff_exists.mp hsome
    simp [h, hvalue, hb]

/-! ## Building from a list -/

/-- Assign the pairs one after the other: the last value of a repeated key stays. -/
def ofList (l : List (α × β)) : Dict α β := l.foldl (fun d p => d.set p.1 p.2) empty

omit [DecidableEq α] in
private theorem fst_ne_of_nodup {p : α × β} {l : List (α × β)}
    (h : ((p :: l).map Prod.fst).Nodup) : ∀ q ∈ l, q.1 ≠ p.1 := fun q hq he =>
  (List.nodup_cons.mp h).1 (he ▸ List.mem_map.mpr ⟨q, hq, rfl⟩)

theorem get?_foldl_set (l : List (α × β)) (hl : (l.map Prod.fst).Nodup) (d : Dict α β) (a : α)
    (b : β) :
    (l.foldl (fun d p => d.set p.1 p.2) d).get? a = some b ↔
      (a, b) ∈ l ∨ (a ∉ l.map Prod.fst ∧ d.get? a = some b) := by
  induction l generalizing d with
  | nil => simp
  | cons p l ih =>
    have hp := fst_ne_of_nodup hl
    rw [List.foldl_cons, ih (List.nodup_cons.mp hl).2, get?_set]
    by_cases ha : a = p.1
    · subst ha
      have hnot : ∀ v, (p.1, v) ∉ l := fun v hv => hp _ hv rfl
      have hkey : p.1 ∉ l.map Prod.fst := (List.nodup_cons.mp hl).1
      simp [hnot, hkey, Prod.ext_iff, eq_comm]
    · simp [ha, Prod.ext_iff]

/-- A lookup in the dictionary built from a list finds an entry of the list. -/
theorem mem_of_get?_ofList {l : List (α × β)} {a : α} {b : β}
    (h : (ofList l).get? a = some b) : (a, b) ∈ l := by
  have hfold : ∀ d : Dict α β, (l.foldl (fun d p => d.set p.1 p.2) d).get? a = some b →
      (a, b) ∈ l ∨ d.get? a = some b := by
    clear h
    induction l with
    | nil => exact fun d h => Or.inr h
    | cons p l ih =>
      intro d h
      rcases ih (d.set p.1 p.2) h with h | h
      · exact Or.inl (List.mem_cons_of_mem p h)
      · rw [get?_set] at h
        by_cases ha : a = p.1
        · subst ha
          obtain rfl : p.2 = b := by simpa using h
          exact Or.inl List.mem_cons_self
        · exact Or.inr (by simpa [ha] using h)
  exact (hfold empty h).resolve_right (by simp)

/-- Distinct keys: a lookup in the dictionary built from a list is membership in the list. -/
theorem get?_ofList (l : List (α × β)) (hl : (l.map Prod.fst).Nodup) (a : α) (b : β) :
    (ofList l).get? a = some b ↔ (a, b) ∈ l := by
  simp [ofList, get?_foldl_set l hl]

theorem mem_keys_ofList {l : List (α × β)} {a : α} :
    a ∈ (ofList l).keys ↔ a ∈ l.map Prod.fst := by
  have hfold : ∀ d : Dict α β, a ∈ (l.foldl (fun d p => d.set p.1 p.2) d).keys ↔
      a ∈ d.keys ∨ a ∈ l.map Prod.fst := by
    induction l with
    | nil => simp
    | cons p l ih =>
      intro d
      rw [List.foldl_cons, ih, mem_keys_set, List.map_cons, List.mem_cons]
      tauto
  rw [ofList, hfold]
  simp [keys, empty]

/-- Values that are changed before or after the dictionary is built. -/
theorem get?_ofList_map {γ : Type*} (l : List (α × β)) (f : β → γ) (a : α) :
    (ofList (l.map (fun p => (p.1, f p.2)))).get? a = ((ofList l).get? a).map f := by
  have hfold : ∀ (d : Dict α β) (d' : Dict α γ), (∀ c, d'.get? c = (d.get? c).map f) →
      ((l.map (fun p => (p.1, f p.2))).foldl (fun d p => d.set p.1 p.2) d').get? a =
        ((l.foldl (fun d p => d.set p.1 p.2) d).get? a).map f := by
    induction l with
    | nil => exact fun d d' h => h a
    | cons p l ih =>
      intro d d' h
      rw [List.map_cons, List.foldl_cons, List.foldl_cons]
      apply ih
      intro c
      rw [get?_set, get?_set]
      by_cases hc : c = p.1
      · simp [hc]
      · simp [hc, h c]
  exact hfold empty empty fun _ => rfl

/-- `{x: i for i, x in enumerate(xs)}`. -/
def enumerate (xs : List α) : Dict α Nat := ofList xs.zipIdx

theorem get?_enumerate (xs : List α) (hxs : xs.Nodup) (a : α) (i : Nat) :
    (enumerate xs).get? a = some i ↔ xs[i]? = some a := by
  have hkeys : (xs.zipIdx.map Prod.fst).Nodup := by simpa using hxs
  rw [enumerate, get?_ofList _ hkeys, List.mem_zipIdx_iff_getElem?]

/-- Keys may repeat: the index points to an occurrence of its key. -/
theorem getElem?_of_enumerate {xs : List α} {a : α} {i : Nat}
    (h : (enumerate xs).get? a = some i) : xs[i]? = some a :=
  List.mem_zipIdx_iff_getElem?.mp (mem_of_get?_ofList h)

theorem isSome_enumerate {xs : List α} {a : α} : ((enumerate xs).get? a).isSome ↔ a ∈ xs := by
  rw [← mem_keys_iff, enumerate, mem_keys_ofList]
  simp

theorem enumerate_append_singleton (xs : List α) (a : α) :
    enumerate (xs ++ [a]) = (enumerate xs).set a xs.length := by
  simp [enumerate, ofList, List.zipIdx_append, List.foldl_append]

/-- Keys may repeat: the value is the one at the position that the index points to. -/
theorem get?_ofList_zip_enumerate {ks : List α} {vs : List β} (hlen : vs.length = ks.length)
    (a : α) : (ofList (ks.zip vs)).get? a = ((enumerate ks).get? a).bind (fun i => vs[i]?) := by
  have hlist : (ks.zip vs).map (fun p => (p.1, some p.2)) =
      ks.zipIdx.map (fun p => (p.1, vs[p.2]?)) := by
    apply List.ext_getElem (by simp [hlen])
    intro i hi hi'
    have hv : i < vs.length := by simpa [hlen] using hi'
    simp [List.getElem?_eq_getElem hv]
  have hsome := get?_ofList_map (ks.zip vs) some a
  rw [hlist, get?_ofList_map ks.zipIdx (fun i => vs[i]?) a] at hsome
  rw [enumerate]
  cases hz : (ofList (ks.zip vs)).get? a <;> cases he : (ofList ks.zipIdx).get? a <;>
    simp_all

/-! ## Other values under the same keys -/

omit [DecidableEq α] in
private theorem map_fst_mapValues {γ : Type*} (es : List (α × β)) (f : β → γ) :
    (es.map (fun p => (p.1, f p.2))).map Prod.fst = es.map Prod.fst := by
  rw [List.map_map]
  rfl

def mapValues {γ : Type*} (d : Dict α β) (f : β → γ) : Dict α γ :=
  ⟨d.entries.map (fun p => (p.1, f p.2)), by
    rw [map_fst_mapValues]
    exact d.nodupKeys⟩

theorem get?_mapValues {γ : Type*} (d : Dict α β) (f : β → γ) (a : α) :
    (d.mapValues f).get? a = (d.get? a).map f := by
  simp only [get?, mapValues, List.find?_map, Option.map_map]
  rfl

end Dict

end StigmergicMesh
