import Mathlib.Data.Rat.Defs

/-!
# JSON documents

A document as a tree. An object keeps its members as they are written, with what repetitions it
has; a reader that wants a dictionary builds one. Numbers are rational, so the non-finite numbers
that some writers emit are left out.
-/

namespace StigmergicMesh

/-- A JSON value. -/
inductive Json where
  | null
  | bool (b : Bool)
  | number (x : ℚ)
  | string (s : String)
  | array (xs : List Json)
  | object (members : List (String × Json))

namespace Json

instance : Coe String Json := ⟨.string⟩

instance : Coe Int Json := ⟨fun n => .number n⟩

instance (n : Nat) : OfNat Json n := ⟨.number n⟩

/-- The document is the string `s`. -/
def isString (s : String) : Json → Bool
  | .string t => t = s
  | _ => false

/-- The strings of an array. -/
def strings : Json → List String
  | .array xs => xs.filterMap fun
    | .string s => some s
    | _ => none
  | _ => []

/-- The first member of an object with the key. -/
def member (key : String) : Json → Option Json
  | .object members => (members.find? fun m => m.1 = key).map Prod.snd
  | _ => none

/-- An item of an array. -/
def item (i : Nat) : Json → Option Json
  | .array xs => xs[i]?
  | _ => none

/-! ## Reading a document as a dictionary -/

/-- The exceptions of a reader that takes a document for what it is not. -/
inductive AccessError where
  | noAttribute (value : Json) (name : String)
  | noKey (key : Nat)
  | noIndex
  | notSubscriptable (value : Json)

/-- The document counts as true. -/
def truthy : Json → Bool
  | .null => false
  | .bool b => b
  | .number x => x ≠ 0
  | .string s => s ≠ ""
  | .array xs => !xs.isEmpty
  | .object members => !members.isEmpty

/-- `document.get(key, default)`. -/
def get (document : Json) (key : String) (default : Json) : Except AccessError Json :=
  match document with
  | .object members => .ok (((Json.object members).member key).getD default)
  | value => .error (.noAttribute value "get")

/-- `document[0]`. -/
def first : Json → Except AccessError Json
  | .array (x :: _) => .ok x
  | .array [] => .error .noIndex
  | .string s =>
    match s.toList with
    | c :: _ => .ok (.string (String.singleton c))
    | [] => .error .noIndex
  | .object _ => .error (.noKey 0)
  | value => .error (.notSubscriptable value)

/-- `n + value`, if there is a sum; `True` is one. -/
def plus (n : Int) : Json → Option Json
  | .number x => some (.number (n + x))
  | .bool b => some (.number (n + if b then 1 else 0))
  | _ => none

theorem get_eq_ok {key : String} {default d v : Json} (h : d.get key default = .ok v) :
    v = (d.member key).getD default := by
  cases d with
  | object members => exact (Except.ok.inj h).symm
  | _ => cases h

/-- Only arrays and strings have a first item. -/
theorem first_eq_ok {d v : Json} (h : d.first = .ok v) :
    (∃ xs, d = .array (v :: xs)) ∨ ∃ s, v = .string s := by
  cases d with
  | array xs =>
    cases xs with
    | nil => cases h
    | cons x xs => exact Or.inl ⟨xs, by rw [Except.ok.inj h]⟩
  | string s =>
    simp only [first] at h
    split at h
    · exact Or.inr ⟨_, (Except.ok.inj h).symm⟩
    · cases h
  | _ => cases h

end Json

end StigmergicMesh
