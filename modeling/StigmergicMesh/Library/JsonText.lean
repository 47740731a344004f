import Mathlib.Data.Rat.Lemmas
import StigmergicMesh.Library.Json

/-!
# JSON documents as text

`json.dumps` with its default separators. Every character of a string that is not printable ASCII
is escaped, so the text of a document is printable ASCII whatever its strings are.
-/

namespace StigmergicMesh.Json

/-- `\uXXXX`. -/
def unicodeEscape (n : Nat) : String :=
  "\\u" ++ String.ofList ([n / 4096, n / 256 % 16, n / 16 % 16, n % 16].map Nat.digitChar)

/-- What is written for a character of a string; a character of more than sixteen bits is a pair of
surrogates. -/
def escape (c : Char) : String :=
  let n := c.toNat
  if n = 34 then "\\\""
  else if n = 92 then "\\\\"
  else if n = 8 then "\\b"
  else if n = 9 then "\\t"
  else if n = 10 then "\\n"
  else if n = 12 then "\\f"
  else if n = 13 then "\\r"
  else if 32 ≤ n ∧ n ≤ 126 then String.singleton c
  else if n < 65536 then unicodeEscape n
  else unicodeEscape (55296 + (n - 65536) / 1024) ++ unicodeEscape (56320 + (n - 65536) % 1024)

def dumpString (s : String) : String := "\"" ++ String.join (s.toList.map escape) ++ "\""

section Dumps

variable (repr : ℚ → String)

mutual

/-- `json.dumps`. A whole number is written as an integer, another one with `repr`. -/
def dumps : Json → String
  | .null => "null"
  | .bool b => if b then "true" else "false"
  | .number x => if x.den = 1 then toString x.num else repr x
  | .string s => dumpString s
  | .array xs => "[" ++ ", ".intercalate (dumpItems xs) ++ "]"
  | .object members => "\x7b" ++ ", ".intercalate (dumpMembers members) ++ "\x7d"

def dumpItems : List Json → List String
  | [] => []
  | x :: xs => dumps x :: dumpItems xs

def dumpMembers : List (String × Json) → List String
  | [] => []
  | (key, x) :: members => (dumpString key ++ ": " ++ dumps x) :: dumpMembers members

end

end Dumps

example : dumps (fun _ => "") (.object [("a", .array [.number 3, .string "b\n"])]) =
    "\x7b\"a\": [3, \"b\\n\"]\x7d" := by decide

/-! ## The text is printable -/

/-- Printable ASCII. -/
def Printable (s : String) : Prop := ∀ c ∈ s.toList, 32 ≤ c.toNat ∧ c.toNat ≤ 126

instance (s : String) : Decidable (Printable s) := List.decidableBAll _ s.toList

theorem Printable.append {s t : String} (hs : Printable s) (ht : Printable t) :
    Printable (s ++ t) := by
  intro c hc
  rw [String.toList_append, List.mem_append] at hc
  exact hc.elim (hs c) (ht c)

/-- A text between two others. -/
theorem Printable.between {s a b : String} (hs : Printable s) (ha : Printable a)
    (hb : Printable b) : Printable (a ++ s ++ b) := (ha.append hs).append hb

theorem printable_join {texts : List String} (h : ∀ s ∈ texts, Printable s) :
    Printable (String.join texts) := by
  intro c hc
  obtain ⟨s, hs, hc⟩ := List.mem_flatMap.mp (String.toList_join ▸ hc)
  exact h s hs c hc

theorem Printable.intercalate {s : String} (hs : Printable s) {texts : List String}
    (h : ∀ t ∈ texts, Printable t) : Printable (s.intercalate texts) := by
  induction texts with
  | nil => simp [Printable]
  | cons t texts ih =>
    obtain ⟨ht, htexts⟩ := List.forall_mem_cons.mp h
    by_cases hnil : texts = []
    · simpa [hnil] using ht
    · rw [String.intercalate_cons_of_ne_nil hnil]
      exact (ht.append hs).append (ih htexts)

theorem printable_digitChar (n : Nat) : 32 ≤ n.digitChar.toNat ∧ n.digitChar.toNat ≤ 126 := by
  have hdigit : ∀ m < 16, 32 ≤ m.digitChar.toNat ∧ m.digitChar.toNat ≤ 126 := by decide
  rcases lt_or_ge n 16 with h | h
  · exact hdigit n h
  · rw [Nat.digitChar_eq_star.mpr h]
    decide

theorem printable_unicodeEscape (n : Nat) : Printable (unicodeEscape n) := by
  apply Printable.append (by decide)
  intro c hc
  obtain ⟨d, -, rfl⟩ := List.mem_map.mp (String.toList_ofList ▸ hc)
  exact printable_digitChar d

theorem printable_escape (c : Char) : Printable (escape c) := by
  unfold escape
  dsimp only
  split_ifs with h₁ h₂ h₃ h₄ h₅ h₆ h₇ hprintable h₈
  any_goals decide
  · intro d hd
    obtain rfl : d = c := by simpa using hd
    exact hprintable
  · exact printable_unicodeEscape _
  · exact (printable_unicodeEscape _).append (printable_unicodeEscape _)

theorem printable_dumpString (s : String) : Printable (dumpString s) := by
  have hbody : Printable (String.join (s.toList.map escape)) := by
    apply printable_join
    intro t ht
    obtain ⟨c, -, rfl⟩ := List.mem_map.mp ht
    exact printable_escape c
  exact hbody.between (by decide) (by decide)

theorem printable_natRepr (n : Nat) : Printable n.repr := by
  intro c hc
  have hdigit := Nat.isDigit_of_mem_toDigits (by decide) (by decide) (Nat.toList_repr ▸ hc)
  obtain ⟨hlow, hhigh⟩ := Char.isDigit_iff_toNat.mp hdigit
  exact ⟨le_trans (by decide) hlow, hhigh.trans (by decide)⟩

theorem printable_intRepr (i : Int) : Printable (toString i) := by
  have hminus : Printable "-" := by decide
  rw [Int.toString_eq_repr, Int.repr_eq_if]
  split
  · exact printable_natRepr _
  · exact hminus.append (printable_natRepr _)

mutual

/-- The text of a document is printable ASCII if its fractions are. -/
theorem printable_dumps (repr : ℚ → String) (hrepr : ∀ x, Printable (repr x)) (document : Json) :
    Printable (document.dumps repr) := by
  cases document with
  | null => simp only [dumps]; decide
  | bool b => cases b <;> simp only [dumps] <;> decide
  | number x =>
    simp only [dumps]
    split
    · exact printable_intRepr x.num
    · exact hrepr x
  | string s => exact printable_dumpString s
  | array xs =>
    have hitems := Printable.intercalate (s := ", ") (by decide) (printable_dumpItems repr hrepr xs)
    exact hitems.between (by decide) (by decide)
  | object members =>
    have hmembers := Printable.intercalate (s := ", ") (by decide)
      (printable_dumpMembers repr hrepr members)
    exact hmembers.between (by decide) (by decide)

theorem printable_dumpItems (repr : ℚ → String) (hrepr : ∀ x, Printable (repr x))
    (xs : List Json) : ∀ s ∈ dumpItems repr xs, Printable s := by
  cases xs with
  | nil => simp [dumpItems]
  | cons x xs =>
    simp only [dumpItems, List.forall_mem_cons]
    exact ⟨printable_dumps repr hrepr x, printable_dumpItems repr hrepr xs⟩

theorem printable_dumpMembers (repr : ℚ → String) (hrepr : ∀ x, Printable (repr x))
    (members : List (String × Json)) : ∀ s ∈ dumpMembers repr members, Printable s := by
  match members with
  | [] => simp [dumpMembers]
  | (key, x) :: members =>
    simp only [dumpMembers, List.forall_mem_cons]
    exact ⟨((printable_dumpString key).append (by decide)).append (printable_dumps repr hrepr x),
      printable_dumpMembers repr hrepr members⟩

end

end StigmergicMesh.Json
