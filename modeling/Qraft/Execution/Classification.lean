import Mathlib.Data.List.TakeWhile
import Qraft.Retry
import Qraft.Foundations.DecimalText
import Qraft.Foundations.LineScan

/-! What class a failure is taken to be of: `_extract_exception_class` reads it back from the text
of a traceback. -/
namespace Qraft
open LineScan

/-- `\w` of the regular expressions. -/
structure WordClass where
  isWord : Char → Bool
  colon : isWord ':' = false
  space : isWord ' ' = false
  newline : isWord '\n' = false

namespace WordClass

/-- `[\w.]`. -/
def nameChar (w : WordClass) (c : Char) : Bool := w.isWord c || c = '.'

/-- A match of `_EXC_PATTERN` at the start of a line. -/
def matchName (w : WordClass) (text : List Char) : Option (List Char) :=
  let name := text.takeWhile w.nameChar
  match text.dropWhile w.nameChar with
  | ':' :: c :: _ => if name ≠ [] ∧ Decimal.isSpace c = true then some name else none
  | _ => none

end WordClass

/-- `rsplit(".", 1)[-1]`. -/
def bareName (name : List Char) : List Char := (name.reverse.takeWhile (· ≠ '.')).reverse

/-- `_extract_exception_class`; `none` for a result that is no text. -/
def extractExceptionClass (w : WordClass) (result : Option (List Char)) : Option String :=
  match result with
  | none => none
  | some [] => none
  | some text => ((findall w.matchName text).getLast?).map fun name => String.ofList (bareName name)

structure StackLine where
  text : List Char
  indented : ∃ rest, text = ' ' :: rest
  oneLine : '\n' ∉ text

structure PyException where
  moduleName : List Char
  qualname : List Char
  /-- `str(e)`. -/
  message : List Char
  stack : List StackLine

/-- How an exception led to the next: as its `__cause__` or only its `__context__`. -/
inductive ChainLink where
  | cause
  | context

def ChainLink.text : ChainLink → List Char
  | .cause => "\nThe above exception was the direct cause of the following exception:\n\n".toList
  | .context => "\nDuring handling of the above exception, another exception occurred:\n\n".toList

namespace PyException

/-- The dotted name; that of a builtin stands alone. -/
def typeName (e : PyException) : List Char :=
  if e.moduleName = "__main__".toList ∨ e.moduleName = "builtins".toList then e.qualname
  else e.moduleName ++ '.' :: e.qualname

def finalLine (e : PyException) : List Char :=
  if e.message = [] then e.typeName else e.typeName ++ ':' :: ' ' :: e.message

def stackText (e : PyException) : List Char := e.stack.flatMap fun line => line.text ++ ['\n']

/-- One exception of a traceback. One that was never raised has no stack. -/
def text (e : PyException) : List Char :=
  (if e.stack = [] then [] else "Traceback (most recent call last):\n".toList ++ e.stackText) ++
    e.finalLine ++ ['\n']

end PyException

/-- What precedes the exception itself in its traceback, oldest first. -/
def chainText (chain : List (PyException × ChainLink)) : List Char :=
  chain.flatMap fun (e, link) => e.text ++ link.text

/-- The result `_execute_task_in_thread` reports: `str(e)`, and then `traceback.format_exc()`. -/
def failureText (chain : List (PyException × ChainLink)) (e : PyException) : List Char :=
  e.message ++ " : ".toList ++ (chainText chain ++ e.text)

/-- An exception a target function raised: it was caught, and so has a stack; its class is at the
top level of a module, and its message is one line. -/
structure RaisedException extends PyException where
  caught : stack ≠ []
  named : qualname ≠ []
  topLevel : ∀ c ∈ qualname, c ≠ '.' ∧ c ≠ ':' ∧ c ≠ '\n'
  dotted : ∀ c ∈ moduleName, c ≠ ':' ∧ c ≠ '\n'
  oneLine : '\n' ∉ message

/-- The final line shows the class to the pattern. -/
def PyException.Shown (w : WordClass) (e : PyException) : Prop :=
  e.message ≠ [] ∧ ∀ c ∈ e.typeName, w.nameChar c = true

instance (w : WordClass) (e : PyException) : Decidable (e.Shown w) :=
  inferInstanceAs (Decidable (e.message ≠ [] ∧ ∀ c ∈ e.typeName, w.nameChar c = true))

/-- The names that lines before the final one begin with: the message's, and the chain's. -/
def earlierNames (w : WordClass) (chain : List (PyException × ChainLink)) (e : PyException) :
    List (List Char) :=
  (w.matchName (e.message ++ [' '])).toList ++ (later (chainText chain)).filterMap w.matchName

namespace WordClass
variable {w : WordClass} {a b name : List Char} {c : Char}

theorem nameChar_eq_false (h : w.isWord c = false) (hc : c ≠ '.') : w.nameChar c = false := by
  rw [nameChar, h, Bool.false_or]
  exact decide_eq_false hc

/-- The first character that is none of a name decides. -/
theorem matchName_eq {n rest : List Char} {d : Char} (hn : ∀ x ∈ n, w.nameChar x = true)
    (hd : w.nameChar d = false) : w.matchName (n ++ d :: rest) =
      if d = ':' ∧ n ≠ [] ∧ (rest.head?.any Decimal.isSpace) = true then some n else none := by
  have hneg : ¬ w.nameChar d = true := by
    rw [hd]
    exact Bool.false_ne_true
  rw [matchName, List.takeWhile_append_of_pos hn, List.dropWhile_append_of_pos hn,
    List.takeWhile_cons_of_neg hneg, List.dropWhile_cons_of_neg hneg, List.append_nil]
  by_cases hcolon : d = ':'
  · subst hcolon
    cases rest with
    | nil => simp
    | cons c rest => simp
  · rw [if_neg fun h => hcolon h.1]
    split
    · rename_i heq
      exact absurd (List.cons.inj heq).1 hcolon
    · rfl

theorem exists_stop (w : WordClass) (a : List Char) : (∀ x ∈ a, w.nameChar x = true) ∨
    ∃ n d rest, a = n ++ d :: rest ∧ (∀ x ∈ n, w.nameChar x = true) ∧ w.nameChar d = false := by
  cases hdrop : a.dropWhile w.nameChar with
  | nil => exact .inl (List.dropWhile_eq_nil_iff.mp hdrop)
  | cons d rest =>
    refine .inr ⟨a.takeWhile w.nameChar, d, rest, ?_, fun x hx => List.mem_takeWhile_imp hx, ?_⟩
    · rw [← hdrop]
      exact List.takeWhile_append_dropWhile.symm
    · have hhead := List.head_dropWhile_not w.nameChar (l := a) (by rw [hdrop]; exact List.cons_ne_nil _ _)
      simp only [hdrop, List.head_cons] at hhead
      exact hhead

/-- What follows a blank is not read. -/
theorem matchName_stop (hn : w.nameChar c = false) (hc : c ≠ ':') (a b : List Char) :
    w.matchName (a ++ c :: b) = w.matchName (a ++ [c]) := by
  rcases w.exists_stop a with hall | ⟨n, d, rest, rfl, hname, hd⟩
  · rw [matchName_eq hall hn, matchName_eq hall hn, if_neg fun h => hc h.1, if_neg fun h => hc h.1]
  · rw [List.append_assoc, List.append_assoc, List.cons_append, List.cons_append, matchName_eq hname hd,
      matchName_eq hname hd]
    cases rest with
    | nil => rfl
    | cons x rest => rfl

/-- A line without a colon up to a blank names nothing. -/
theorem matchName_eq_none (ha : ':' ∉ a) (hn : w.nameChar c = false) (hc : c ≠ ':') :
    w.matchName (a ++ c :: b) = none := by
  rcases w.exists_stop a with hall | ⟨n, d, rest, rfl, hname, hd⟩
  · rw [matchName_eq hall hn, if_neg fun h => hc h.1]
  · rw [List.append_assoc, List.cons_append, matchName_eq hname hd, if_neg]
    rintro ⟨rfl, -⟩
    exact ha (List.mem_append_right _ List.mem_cons_self)

theorem space_stops (w : WordClass) : w.nameChar ' ' = false := nameChar_eq_false w.space (by decide)

theorem newline_stops (w : WordClass) : w.nameChar '\n' = false := nameChar_eq_false w.newline (by decide)

theorem colon_stops (w : WordClass) : w.nameChar ':' = false := nameChar_eq_false w.colon (by decide)

theorem matchName_local (w : WordClass) : Local w.matchName :=
  ⟨rfl, matchName_stop w.newline_stops (by decide)⟩

end WordClass

section
variable {w : WordClass} {chain : List (PyException × ChainLink)}

theorem bareName_eq {m n : List Char} (hn : ∀ c ∈ n, c ≠ '.') : bareName (m ++ '.' :: n) = n := by
  rw [bareName, List.reverse_append, List.reverse_cons, List.append_assoc, List.takeWhile_append_of_pos]
  · rw [List.singleton_append, List.takeWhile_cons_of_neg (by decide), List.append_nil, List.reverse_reverse]
  · intro c hc
    exact decide_eq_true (hn c (List.mem_reverse.mp hc))

theorem bareName_self {n : List Char} (hn : ∀ c ∈ n, c ≠ '.') : bareName n = n := by
  rw [bareName, List.takeWhile_eq_self_iff.mpr, List.reverse_reverse]
  intro c hc
  exact decide_eq_true (hn c (List.mem_reverse.mp hc))

namespace RaisedException

theorem typeName_chars (e : RaisedException) : ':' ∉ e.typeName ∧ '\n' ∉ e.typeName := by
  rw [PyException.typeName]
  split
  · exact ⟨fun h => (e.topLevel _ h).2.1 rfl, fun h => (e.topLevel _ h).2.2 rfl⟩
  · constructor
    · intro h
      rcases List.mem_append.mp h with h | h
      · exact (e.dotted _ h).1 rfl
      · rcases List.mem_cons.mp h with h | h
        · cases h
        · exact (e.topLevel _ h).2.1 rfl
    · intro h
      rcases List.mem_append.mp h with h | h
      · exact (e.dotted _ h).2 rfl
      · rcases List.mem_cons.mp h with h | h
        · cases h
        · exact (e.topLevel _ h).2.2 rfl

theorem typeName_ne_nil (e : RaisedException) : e.typeName ≠ [] := by
  rw [PyException.typeName]
  split
  · exact e.named
  · exact List.append_ne_nil_of_right_ne_nil _ (List.cons_ne_nil _ _)

theorem bareName_typeName (e : RaisedException) : bareName e.typeName = e.qualname := by
  rw [PyException.typeName]
  split
  · exact bareName_self fun c hc => (e.topLevel c hc).1
  · exact bareName_eq fun c hc => (e.topLevel c hc).1

theorem finalLine_oneLine (e : RaisedException) : '\n' ∉ e.finalLine := by
  rw [PyException.finalLine]
  split
  · exact e.typeName_chars.2
  · intro h
    rcases List.mem_append.mp h with h | h
    · exact e.typeName_chars.2 h
    · rcases List.mem_cons.mp h with h | h
      · cases h
      · rcases List.mem_cons.mp h with h | h
        · cases h
        · exact e.oneLine h

/-- The final line names the class, or nothing. -/
theorem matchName_finalLine (w : WordClass) (e : RaisedException) :
    w.matchName (e.finalLine ++ ['\n']) = if e.Shown w then some e.typeName else none := by
  rw [PyException.finalLine]
  by_cases hm : e.message = []
  · rw [if_pos hm, if_neg fun h => h.1 hm]
    exact WordClass.matchName_eq_none e.typeName_chars.1 w.newline_stops (by decide)
  · rw [if_neg hm, List.append_assoc, List.cons_append]
    by_cases hall : ∀ c ∈ e.typeName, w.nameChar c = true
    · rw [if_pos ⟨hm, hall⟩, WordClass.matchName_eq hall w.colon_stops, if_pos]
      exact ⟨rfl, e.typeName_ne_nil, rfl⟩
    · rw [if_neg fun h => hall h.2]
      rcases w.exists_stop e.typeName with h | ⟨n, d, rest, heq, hname, hd⟩
      · exact absurd h hall
      · rw [heq, List.append_assoc, List.cons_append, WordClass.matchName_eq hname hd, if_neg]
        rintro ⟨rfl, -⟩
        apply e.typeName_chars.1
        rw [heq]
        exact List.mem_append_right _ List.mem_cons_self

end RaisedException

/-- Stack lines are indented and name nothing. -/
theorem findall_stackText (w : WordClass) (stack : List StackLine) (rest : List Char) :
    findall w.matchName ((stack.flatMap fun line => line.text ++ ['\n']) ++ rest) = findall w.matchName rest := by
  induction stack with
  | nil => rfl
  | cons line stack ih =>
    obtain ⟨blank, hblank⟩ := line.indented
    rw [List.flatMap_cons, List.append_assoc, List.append_assoc, List.singleton_append,
      w.matchName_local.findall_line line.oneLine, ih, hblank, List.cons_append,
      ← List.nil_append (' ' :: (blank ++ _)),
      WordClass.matchName_eq_none List.not_mem_nil w.space_stops (by decide)]
    rfl

private theorem chainText_closed (chain : List (PyException × ChainLink)) :
    chainText chain = [] ∨ ∃ y, chainText chain = y ++ ['\n'] := by
  induction chain with
  | nil => exact .inl rfl
  | cons x chain ih =>
    have hhead : ∃ y, x.1.text ++ x.2.text = y ++ ['\n'] := by
      cases x.2 with
      | cause =>
        exact ⟨x.1.text ++ "\nThe above exception was the direct cause of the following exception:\n".toList, by
          rw [List.append_assoc]
          rfl⟩
      | context =>
        exact ⟨x.1.text ++ "\nDuring handling of the above exception, another exception occurred:\n".toList, by
          rw [List.append_assoc]
          rfl⟩
    obtain ⟨y, hy⟩ := hhead
    rw [chainText, List.flatMap_cons]
    rcases ih with hnil | ⟨z, hz⟩
    · rw [chainText] at hnil
      rw [hnil, List.append_nil]
      exact .inr ⟨y, hy⟩
    · rw [chainText] at hz
      rw [hz, ← List.append_assoc]
      exact .inr ⟨_, rfl⟩

private def stackHeader : List Char := "Traceback (most recent call last):".toList

private theorem header_matches (w : WordClass) : w.matchName (stackHeader ++ ['\n']) = none ∧
    (later (stackHeader ++ ['\n'])).filterMap w.matchName = [] := by
  constructor
  · have hsplit : stackHeader ++ ['\n'] = "Traceback".toList ++ ' ' :: "(most recent call last):\n".toList := rfl
    rw [hsplit]
    exact WordClass.matchName_eq_none (by decide) w.space_stops (by decide)
  · have hlater : later (stackHeader ++ ['\n']) = [[]] := by decide
    rw [hlater]
    rfl

/-- Every match in the text of a failure. -/
theorem findall_failureText (w : WordClass) (chain : List (PyException × ChainLink)) (e : RaisedException) :
    findall w.matchName (failureText chain e.toPyException) = earlierNames w chain e.toPyException ++
      (w.matchName (e.finalLine ++ ['\n'])).toList := by
  have htext : failureText chain e.toPyException =
      (e.message ++ ' ' :: ':' :: ' ' :: (chainText chain ++ stackHeader)) ++
        '\n' :: (e.stackText ++ (e.finalLine ++ ['\n'])) := by
    have hhead : "Traceback (most recent call last):\n".toList = stackHeader ++ ['\n'] := rfl
    have hcolon : " : ".toList = [' ', ':', ' '] := rfl
    rw [failureText, PyException.text, if_neg e.caught, hhead, hcolon]
    simp only [List.append_assoc, List.cons_append, List.nil_append]
  have hfirst : findall w.matchName ((e.message ++ ' ' :: ':' :: ' ' :: (chainText chain ++ stackHeader)) ++ ['\n']) =
      earlierNames w chain e.toPyException := by
    have hskip : later (' ' :: ':' :: ' ' :: (chainText chain ++ (stackHeader ++ ['\n']))) =
        later (chainText chain ++ (stackHeader ++ ['\n'])) := rfl
    have hassoc : (e.message ++ ' ' :: ':' :: ' ' :: (chainText chain ++ stackHeader)) ++ ['\n'] =
        e.message ++ ' ' :: ':' :: ' ' :: (chainText chain ++ (stackHeader ++ ['\n'])) := by
      simp only [List.append_assoc, List.cons_append]
    obtain ⟨hnone, hrest⟩ := header_matches w
    rw [hassoc, findall_first e.oneLine, WordClass.matchName_stop w.space_stops (by decide), hskip,
      w.matchName_local.later_closed (chainText_closed chain) hnone, hrest, List.append_nil, earlierNames]
  have hlast : findall w.matchName (e.stackText ++ (e.finalLine ++ ['\n'])) =
      (w.matchName (e.finalLine ++ ['\n'])).toList := by
    rw [PyException.stackText, findall_stackText, w.matchName_local.findall_line e.finalLine_oneLine]
    exact List.append_nil _
  rw [htext, w.matchName_local.findall_append, hfirst, hlast]

/-- The class read is the one the final line shows; if it shows none, the last that an earlier line
names. -/
theorem extractExceptionClass_failureText (w : WordClass) (chain : List (PyException × ChainLink))
    (e : RaisedException) :
    extractExceptionClass w (some (failureText chain e.toPyException)) =
      if e.Shown w then some (String.ofList e.qualname)
      else (earlierNames w chain e.toPyException).getLast?.map fun name => String.ofList (bareName name) := by
  have hne : failureText chain e.toPyException ≠ [] := by
    rw [failureText]
    exact List.append_ne_nil_of_left_ne_nil (List.append_ne_nil_of_right_ne_nil _ (by decide)) _
  rw [extractExceptionClass]
  · rw [findall_failureText, e.matchName_finalLine w]
    by_cases hs : e.Shown w
    · rw [if_pos hs, if_pos hs, Option.toList_some, List.getLast?_concat, Option.map_some, e.bareName_typeName]
    · rw [if_neg hs, if_neg hs, Option.toList_none, List.append_nil]
  · exact hne

/-- Two answers that no policy tells apart are one. -/
theorem eq_of_shouldRetry {read : Option String} {name : String}
    (h : ∀ (policy : RetryPolicy) attempt, policy.shouldRetry attempt read = policy.shouldRetry attempt (some name)) :
    read = some name := by
  let policy : RetryPolicy := {
    maxAttempts := 3, baseDelay := 30, backoffStrategy := .fixed, jitter := false, jitterMax := 0
    retryExceptions := [], skipExceptions := [name], rateLimitExceptions := [], rateLimitMaxDelay := 300
    maxAttempts_range := by decide
    jitterMax_range := by norm_num
    baseDelay_nonneg := by norm_num
    rateLimitMaxDelay_pos := by norm_num }
  have hskip : policy.shouldRetry 1 (some name) = false := by simp [RetryPolicy.shouldRetry, policy]
  have hread := h policy 1
  rw [hskip] at hread
  cases read with
  | none => simp [RetryPolicy.shouldRetry, policy] at hread
  | some other =>
    by_cases hsame : other = name
    · rw [hsame]
    · simp [RetryPolicy.shouldRetry, policy, hsame] at hread

/-- A failure is taken to be of the class that was raised, and every retry policy decides on that
class, exactly when the final line shows the class or the last earlier line that begins with a name
has the same one. -/
theorem classified_iff (w : WordClass) (chain : List (PyException × ChainLink)) (e : RaisedException) :
    let read := extractExceptionClass w (some (failureText chain e.toPyException))
    let right := e.Shown w ∨ (earlierNames w chain e.toPyException).getLast?.map bareName = some e.qualname
    (read = some (String.ofList e.qualname) ↔ right) ∧
      ((∀ (policy : RetryPolicy) attempt,
        policy.shouldRetry attempt read = policy.shouldRetry attempt (some (String.ofList e.qualname))) ↔ right) := by
  intro read right
  have hread : read = some (String.ofList e.qualname) ↔ right := by
    have heq : read = _ := extractExceptionClass_failureText w chain e
    rw [heq]
    by_cases hs : e.Shown w
    · rw [if_pos hs]
      exact iff_of_true rfl (.inl hs)
    · rw [if_neg hs]
      cases hlast : (earlierNames w chain e.toPyException).getLast? with
      | none => simp [right, hs, hlast]
      | some name => simp [right, hs, hlast, String.ofList_inj]
  refine ⟨hread, ?_, ?_⟩
  · intro hall
    exact hread.mp (eq_of_shouldRetry hall)
  · intro hright policy attempt
    rw [hread.mpr hright]

end

private def asciiWord : WordClass where
  isWord c := c.isAlphanum || c = '_'
  colon := rfl
  space := rfl
  newline := rfl

private def silentError : RaisedException where
  moduleName := "app.errors".toList
  qualname := "PermanentError".toList
  message := []
  stack := [⟨"  File worker.py, line 154, in _execute_task_in_thread".toList, ⟨_, rfl⟩, by decide⟩]
  caught := List.cons_ne_nil _ _
  named := by decide
  topLevel := fun c hc => of_decide_eq_true
    (List.all_eq_true.mp (show "PermanentError".toList.all (fun c => c ≠ '.' ∧ c ≠ ':' ∧ c ≠ '\n') = true from rfl) c hc)
  dotted := fun c hc => of_decide_eq_true
    (List.all_eq_true.mp (show "app.errors".toList.all (fun c => c ≠ ':' ∧ c ≠ '\n') = true from rfl) c hc)
  oneLine := List.not_mem_nil

/-- Without a message the final line has no colon, and no class is read. -/
theorem unclassified_without_message :
    extractExceptionClass asciiWord (some (failureText [] silentError.toPyException)) = none := by
  decide

end Qraft
