import AppSupervisor.Console
import AppSupervisor.Proofs.Text.Words
import Mathlib.Data.List.TakeWhile

namespace AppSupervisor.Console

def pieces (text : String) : List String := (text.toList.splitOn '\n').map String.ofList

/-- The lines that want a reply: those before the first that quits, unless they are blank. -/
def asked (lines : List String) : List String :=
  (lines.takeWhile fun line => RequestLine.parse line ≠ .ok .quit).filter
    fun line => !line.toList.all isBlank

variable {σ : Type} {e : Surroundings σ} {c : Console σ} {line line' : String}
  {more more' : List String} {begun cs : List Char}

theorem blank_iff : line.toList.all isBlank ↔ words line.toList = [] := by
  rw [words_eq_nil, List.all_eq_true]
  rfl

theorem answer_congr (h : words line.toList = words line'.toList) :
    c.answer e line = c.answer e line' := by
  have blank : line.toList.all isBlank = line'.toList.all isBlank := by
    rw [Bool.eq_iff_iff, blank_iff, blank_iff, h]
  have parse : RequestLine.parse line = RequestLine.parse line' := by
    rw [RequestLine.parse, RequestLine.parse, h]
  rw [answer, answer, blank, parse]

theorem answerAll_congr (h : words line.toList = words line'.toList)
    (rest : ∀ c : Console σ, c.answerAll e more = c.answerAll e more') :
    c.answerAll e (line :: more) = c.answerAll e (line' :: more') := by
  rw [answerAll, answerAll, answer_congr h]
  split
  next => exact rest _
  next => rw [rest]
  next => rfl

theorem answerAll_blank (blank : line.toList.all isBlank) :
    c.answerAll e (line :: more) = c.answerAll e more := by
  rw [answerAll, answer, if_pos blank]

theorem answerAll_quit (quits : RequestLine.parse line = .ok .quit) :
    c.answerAll e (line :: more) = ([], c) := by
  have shown : ¬line.toList.all isBlank := by
    rw [blank_iff]
    intro none
    rw [RequestLine.parse, none] at quits
    cases quits
  rw [answerAll, answer, if_neg shown, quits]

theorem words_ended (begun : List Char) :
    words (if begun.head? = some '\r' then begun.tail else begun).reverse = words begun.reverse := by
  split
  next ended =>
    obtain ⟨rest, rfl⟩ := List.head?_eq_some_iff.mp ended
    have gap : IsGap ['\r'] := by decide
    rw [List.tail_cons, List.reverse_cons, words_append_gap gap]
  next => rfl

theorem answerAll_linesFrom (unbroken : '\n' ∉ begun) :
    c.answerAll e (linesFrom begun cs) =
      c.answerAll e (((begun.reverse ++ cs).splitOn '\n').map String.ofList) := by
  -- The line begun is held backwards; a line feed ends it, anything else goes on with it.
  induction cs generalizing begun c with
  | nil =>
    rw [List.append_nil, List.splitOn_eq_singleton (by simpa using unbroken), linesFrom]
    by_cases none : begun = []
    · subst none
      exact (answerAll_blank rfl).symm
    · rw [if_neg (by simpa using none)]
      rfl
  | cons x cs ih =>
    by_cases feed : x = '\n'
    · subst feed
      have rest : ∀ c : Console σ, c.answerAll e (linesFrom [] cs) =
          c.answerAll e ((([].reverse ++ cs).splitOn '\n').map String.ofList) := fun c => ih nofun
      rw [List.splitOn_append_cons_self_of_not_mem (by simpa using unbroken), linesFrom, List.map_cons]
      refine answerAll_congr ?_ rest
      rw [String.toList_ofList, String.toList_ofList]
      exact words_ended begun
    · have longer : c.answerAll e (linesFrom (x :: begun) cs) =
          c.answerAll e ((((x :: begun).reverse ++ cs).splitOn '\n').map String.ofList) :=
        ih (by simpa [Ne.symm feed] using unbroken)
      rw [List.reverse_cons, List.append_assoc, List.singleton_append] at longer
      rw [linesFrom, longer]
      exact feed

theorem answerAll_pieces (c : Console σ) (text : String) :
    c.answerAll e (lines text) = c.answerAll e (pieces text) := by
  rw [lines, answerAll_linesFrom (by simp)]
  rfl

/-- Blank lines, and all lines from the first on that quits, change nothing. -/
theorem answerAll_asked (c : Console σ) (lines : List String) :
    c.answerAll e lines = c.answerAll e (asked lines) := by
  induction lines generalizing c with
  | nil => rfl
  | cons line lines ih =>
    by_cases quits : RequestLine.parse line = .ok .quit
    · rw [answerAll_quit quits, asked, List.takeWhile_cons_of_neg (by simpa using quits)]
      rfl
    · rw [asked, List.takeWhile_cons_of_pos (by simpa using quits)]
      by_cases blank : line.toList.all isBlank
      · rw [answerAll_blank blank, List.filter_cons_of_neg (by simpa using blank)]
        exact ih c
      · rw [List.filter_cons_of_pos (by simpa using blank)]
        exact answerAll_congr rfl ih

theorem mem_asked {lines : List String} (h : line ∈ asked lines) :
    ¬line.toList.all isBlank ∧ RequestLine.parse line ≠ .ok .quit := by
  obtain ⟨mem, shown⟩ := List.mem_filter.mp h
  exact ⟨by simpa using shown, by simpa using List.mem_takeWhile_imp mem⟩

end AppSupervisor.Console
