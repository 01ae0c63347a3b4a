import Mathlib.Data.List.Basic

/-! Searches of a text for a pattern anchored at the start of a line. -/
namespace LineScan
variable {α : Type*} {f : List Char → Option α} {a b : List Char}

/-- What follows each line break. -/
def later : List Char → List (List Char)
  | [] => []
  | c :: rest => if c = '\n' then rest :: later rest else later rest

/-- All matches, in order, one a line at most. -/
def findall (f : List Char → Option α) (text : List Char) : List α := (text :: later text).filterMap f

/-- A pattern that never reads past the end of a line. -/
structure Local (f : List Char → Option α) : Prop where
  empty : f [] = none
  line : ∀ a b, f (a ++ '\n' :: b) = f (a ++ ['\n'])

theorem later_append (a b : List Char) : later (a ++ b) = (later a).map (· ++ b) ++ later b := by
  induction a with
  | nil => rfl
  | cons c a ih =>
    rw [List.cons_append, later, later]
    split
    · rw [ih, List.map_cons, List.cons_append]
    · exact ih

theorem later_break (b : List Char) : later ('\n' :: b) = b :: later b := by
  rw [later, if_pos rfl]

theorem later_line (h : '\n' ∉ a) : later a = [] := by
  induction a with
  | nil => rfl
  | cons c a ih =>
    rw [List.mem_cons, not_or] at h
    rw [later, if_neg (Ne.symm h.1)]
    exact ih h.2

theorem findall_eq (f : List Char → Option α) (text : List Char) :
    findall f text = (f text).toList ++ (later text).filterMap f := by
  rw [findall, List.filterMap_cons]
  cases f text with
  | none => rfl
  | some x => rfl

/-- Matches past the first line do not depend on how it begins. -/
theorem findall_first (h : '\n' ∉ a) : findall f (a ++ b) = (f (a ++ b)).toList ++ (later b).filterMap f := by
  rw [findall_eq, later_append, later_line h]
  rfl

theorem Local.filterMap_append (h : Local f) (xs : List (List Char)) (b : List Char) :
    (xs.map (· ++ '\n' :: b)).filterMap f = (xs.map (· ++ ['\n'])).filterMap f := by
  rw [List.filterMap_map, List.filterMap_map]
  apply congrArg (fun g => xs.filterMap g)
  funext x
  exact h.line x b

/-- A text is searched line by line. -/
theorem Local.findall_append (h : Local f) (a b : List Char) :
    findall f (a ++ '\n' :: b) = findall f (a ++ ['\n']) ++ findall f b := by
  rw [findall_eq, findall_eq f (a ++ ['\n']), h.line, later_append, later_append, later_break, later_break,
    List.filterMap_append, List.filterMap_append, h.filterMap_append, findall]
  simp [later, h.empty]

theorem Local.findall_line (h : Local f) (ha : '\n' ∉ a) (b : List Char) :
    findall f (a ++ '\n' :: b) = (f (a ++ ['\n'])).toList ++ findall f b := by
  rw [h.findall_append, findall_first ha, later_break]
  simp [later, h.empty]

/-- A text of whole lines leaves what follows it alone, but for a match that begins right there. -/
theorem Local.later_closed (h : Local f) (ha : a = [] ∨ ∃ y, a = y ++ ['\n']) (hb : f b = none) :
    (later (a ++ b)).filterMap f = (later a).filterMap f ++ (later b).filterMap f := by
  rcases ha with rfl | ⟨y, rfl⟩
  · rfl
  · rw [List.append_assoc, List.singleton_append, later_append, later_append, later_break, later_break,
      List.filterMap_append, List.filterMap_append, h.filterMap_append]
    simp [later, h.empty, hb]

end LineScan
