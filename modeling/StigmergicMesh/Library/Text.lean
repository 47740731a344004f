import Mathlib.Data.List.DropRight

/-!
# Text

The string methods `strip`, `split`, `splitlines` and `startswith` on lists of characters.
Whitespace is what Unicode counts as such, which is more than the blanks of ASCII, and a line ends
at more characters than the line feed.
-/

namespace StigmergicMesh.Text

/-- `str.isspace` of one character. -/
def isSpace (c : Char) : Bool :=
  let n := c.toNat
  (9 ≤ n && n ≤ 13) || (28 ≤ n && n ≤ 32) || n = 133 || n = 160 || n = 5760 ||
    (8192 ≤ n && n ≤ 8202) || n = 8232 || n = 8233 || n = 8239 || n = 8287 || n = 12288

/-- `strip()`. -/
def strip (s : List Char) : List Char := (s.dropWhile isSpace).rdropWhile isSpace

/-- `split()`: the runs of characters that are no whitespace. -/
def words (s : List Char) : List (List Char) := (s.splitOnP isSpace).filter (· ≠ [])

/-- `split(None, 1)`: the first word, and what follows the whitespace after it if there is more. -/
def splitOnce (s : List Char) : List (List Char) :=
  let s := s.dropWhile isSpace
  let word := s.takeWhile fun c => !isSpace c
  let rest := (s.dropWhile fun c => !isSpace c).dropWhile isSpace
  if word = [] then [] else if rest = [] then [word] else [word, rest]

/-- A character that `splitlines` ends a line at. -/
def isLineBreak (c : Char) : Bool :=
  let n := c.toNat
  (10 ≤ n && n ≤ 13) || (28 ≤ n && n ≤ 30) || n = 133 || n = 8232 || n = 8233

/-- `splitlines()`; a carriage return and the line feed after it are one end. -/
def splitLines : List Char → List (List Char)
  | [] => []
  | [c] => if isLineBreak c then [[]] else [[c]]
  | c :: d :: s =>
    if c = '\r' ∧ d = '\n' then [] :: splitLines s
    else if isLineBreak c then [] :: splitLines (d :: s)
    else (splitLines (d :: s)).modifyHead (c :: ·)

/-- The lines of a string. -/
def lines (s : String) : List String := (splitLines s.toList).map String.ofList

/-- `startswith`. -/
def startsWith (p : String) (s : String) : Bool := p.toList.isPrefixOf s.toList

/-- `s[n:]`. -/
def dropFirst (n : Nat) (s : String) : String := String.ofList (s.toList.drop n)

@[simp] theorem words_nil : words [] = [] := rfl

/-- What `dropWhile` leaves begins with a character that it does not drop. -/
theorem head_dropWhile {p : Char → Bool} {s : List Char} {c : Char} {rest : List Char}
    (h : s.dropWhile p = c :: rest) : p c = false := by
  have hhead := List.head_dropWhile_not p (l := s) (by simp [h])
  simpa [h] using hhead

/-- A text is split into two exactly if it has two words, whatever whitespace is before them; the
whitespace between them is left out, and what follows the second one stays. -/
theorem splitOnce_eq_pair_iff {s word rest : List Char} :
    splitOnce s = [word, rest] ↔
      ∃ ws ws', s = ws ++ (word ++ (ws' ++ rest)) ∧ (∀ c ∈ ws, isSpace c = true) ∧
        (∀ c ∈ ws', isSpace c = true) ∧ ws' ≠ [] ∧ word ≠ [] ∧ (∀ c ∈ word, isSpace c = false) ∧
        ∃ c t, rest = c :: t ∧ isSpace c = false := by
  constructor
  · intro h
    simp only [splitOnce] at h
    set a := s.dropWhile isSpace with ha
    set r := a.dropWhile (fun c => !isSpace c) with hr
    split_ifs at h with hword hrest
    · simp at h
    · obtain ⟨rfl, rfl⟩ :
          a.takeWhile (fun c => !isSpace c) = word ∧ r.dropWhile isSpace = rest := by
        simpa using h
      have hsplit : s = s.takeWhile isSpace ++ (a.takeWhile (fun c => !isSpace c) ++
          (r.takeWhile isSpace ++ r.dropWhile isSpace)) := by
        rw [List.takeWhile_append_dropWhile, hr, List.takeWhile_append_dropWhile, ha,
          List.takeWhile_append_dropWhile]
      obtain ⟨c, t, hc⟩ := List.exists_cons_of_ne_nil hrest
      -- The first word ends at whitespace, because something follows it.
      have hspaces : r.takeWhile isSpace ≠ [] := by
        cases hcase : r with
        | nil => simp [hcase] at hrest
        | cons d u =>
          have hd : isSpace d = true := by simpa using head_dropWhile (hr.symm.trans hcase)
          simp [hd]
      exact ⟨_, _, hsplit, fun d hd => List.mem_takeWhile_imp hd,
        fun d hd => List.mem_takeWhile_imp hd, hspaces, hword,
        fun d hd => by simpa using List.mem_takeWhile_imp hd, c, t, hc, head_dropWhile hc⟩
  · rintro ⟨ws, ws', rfl, hws, hws', hne, hword, hchars, c, t, rfl, hc⟩
    obtain ⟨d, u, rfl⟩ := List.exists_cons_of_ne_nil hword
    obtain ⟨e, v, rfl⟩ := List.exists_cons_of_ne_nil hne
    have hd : isSpace d = false := hchars d List.mem_cons_self
    have he : isSpace e = true := hws' e List.mem_cons_self
    have hstart : (ws ++ (d :: u ++ (e :: v ++ c :: t))).dropWhile isSpace =
        d :: u ++ (e :: v ++ c :: t) := by
      rw [List.dropWhile_append_of_pos hws]
      simp [hd]
    have hnot : ∀ x ∈ d :: u, (!isSpace x) = true := fun x hx => by simp [hchars x hx]
    have hafter : (e :: v ++ c :: t).dropWhile isSpace = c :: t := by
      rw [List.dropWhile_append_of_pos hws']
      simp [hc]
    have hfirst : (d :: u ++ (e :: v ++ c :: t)).takeWhile (fun c => !isSpace c) = d :: u := by
      rw [List.takeWhile_append_of_pos hnot]
      simp [he]
    have hrest : (d :: u ++ (e :: v ++ c :: t)).dropWhile (fun c => !isSpace c) =
        e :: v ++ c :: t := by
      rw [List.dropWhile_append_of_pos hnot]
      simp [he]
    simp only [splitOnce, hstart, hfirst, hrest, hafter, reduceCtorEq, if_false]

/-- What `rdropWhile` leaves out. -/
theorem exists_spaces_of_rdropWhile (s : List Char) :
    ∃ ws, s = s.rdropWhile isSpace ++ ws ∧ ∀ c ∈ ws, isSpace c = true :=
  ⟨s.rtakeWhile isSpace, by simp [List.rdropWhile, List.rtakeWhile, ← List.reverse_append],
    fun _ hc => List.mem_rtakeWhile_imp hc⟩

/-- Whitespace at the end is stripped. -/
theorem strip_append_spaces (s : List Char) {ws : List Char} (hws : ∀ c ∈ ws, isSpace c = true) :
    strip (s ++ ws) = strip s := by
  induction ws using List.reverseRecOn with
  | nil => rw [List.append_nil]
  | append_singleton ws c ih =>
    have hc : isSpace c = true := hws c (by simp)
    rw [← ih fun d hd => hws d (by simp [hd])]
    unfold strip
    rw [← List.append_assoc, List.dropWhile_append]
    split
    · rename_i h
      simp [List.isEmpty_iff.mp h, hc]
    · rw [List.rdropWhile_concat_pos _ _ _ hc]

/-- What is stripped of a text that starts with no whitespace is at its end. -/
theorem exists_spaces_of_strip {a : Char} (s : List Char) (ha : isSpace a = false) :
    ∃ ws, a :: s = strip (a :: s) ++ ws ∧ ∀ c ∈ ws, isSpace c = true := by
  have hstart : (a :: s).dropWhile isSpace = a :: s := by simp [ha]
  rw [strip, hstart]
  exact exists_spaces_of_rdropWhile (a :: s)

/-- A prefix that starts with no whitespace stays when its text is stripped. -/
theorem strip_of_strip_append {a : Char} {p s t : List Char} (ha : isSpace a = false)
    (hs : strip (a :: p ++ s) = a :: p ++ t) : strip s = strip t := by
  obtain ⟨ws, happend, hws⟩ := exists_spaces_of_strip (p ++ s) ha
  rw [← List.cons_append, hs, List.append_assoc] at happend
  rw [List.append_cancel_left happend, strip_append_spaces t hws]

/-! ## Lines -/

/-- Printable ASCII has no line breaks. -/
theorem isLineBreak_of_printable {c : Char} (h : 32 ≤ c.toNat ∧ c.toNat ≤ 126) :
    isLineBreak c = false := by
  unfold isLineBreak
  grind

/-- A character that is no line break belongs to the first line of what follows. -/
theorem splitLines_cons {c : Char} (hc : isLineBreak c = false) {s : List Char} (hs : s ≠ []) :
    splitLines (c :: s) = (splitLines s).modifyHead (c :: ·) := by
  have hreturn : c ≠ '\r' := by
    rintro rfl
    exact absurd hc (by decide)
  cases s with
  | nil => exact absurd rfl hs
  | cons d s => simp [splitLines, hreturn, hc]

/-- A text without line breaks is the first line before a line feed. -/
theorem splitLines_append {l : List Char} (hl : ∀ c ∈ l, isLineBreak c = false) (s : List Char) :
    splitLines (l ++ '\n' :: s) = l :: splitLines s := by
  induction l with
  | nil => cases s <;> simp [splitLines, isLineBreak]
  | cons c l ih =>
    obtain ⟨hc, hl⟩ := List.forall_mem_cons.mp hl
    rw [List.cons_append, splitLines_cons hc (by simp), ih hl, List.modifyHead_cons]

/-- A string without line breaks is the first line before a line feed. -/
theorem lines_append {s : String} (hs : ∀ c ∈ s.toList, isLineBreak c = false) (t : String) :
    lines (s ++ "\n" ++ t) = s :: lines t := by
  have hlines := splitLines_append hs t.toList
  simp_all [lines]

end StigmergicMesh.Text
