import AppSupervisor.Text.Words
import Mathlib.Data.List.Basic

namespace AppSupervisor

def IsGap (g : List Char) : Prop := ∀ c ∈ g, isBlank c

instance (g : List Char) : Decidable (IsGap g) := List.decidableBAll _ g

structure IsWord (w : List Char) : Prop where
  ne_nil : w ≠ []
  visible : ∀ c ∈ w, ¬isBlank c

instance {w : List Char} : Decidable (IsWord w) :=
  decidable_of_iff (w ≠ [] ∧ w.all (!isBlank ·))
    ⟨fun h => ⟨h.1, by simpa using h.2⟩, fun h => ⟨h.1, by simpa using h.2⟩⟩

/-- The text consists of the words in their order, and of white space. -/
inductive Shows : List (List Char) → List Char → Prop
  | gap {g : List Char} (blank : IsGap g) : Shows [] g
  | word {g w cs : List Char} {ws : List (List Char)} (blank : IsGap g) (word : IsWord w)
      (apart : ∀ c ∈ cs.head?, isBlank c) (rest : Shows ws cs) : Shows (w :: ws) (g ++ (w ++ cs))

/-- White space before, between and after words. -/
structure Spacing where
  before : List Char
  between : List Char
  after : List Char
  before_gap : IsGap before
  between_gap : IsGap between
  after_gap : IsGap after
  between_ne_nil : between ≠ []

def Spacing.space (s : Spacing) (ws : List (List Char)) : List Char :=
  s.before ++ (s.between.intercalate ws ++ s.after)

variable {g w v cs : List Char} {ws : List (List Char)} {c : Char}

theorem IsGap.append (h : IsGap g) (h' : IsGap cs) : IsGap (g ++ cs) :=
  List.forall_mem_append.mpr ⟨h, h'⟩

theorem Shows.blank (blank : isBlank c) (h : Shows ws cs) : Shows ws (c :: cs) := by
  cases h with
  | gap blanks => exact .gap (List.forall_mem_cons.mpr ⟨blank, blanks⟩)
  | word blanks word apart rest =>
    exact .word (g := c :: _) (List.forall_mem_cons.mpr ⟨blank, blanks⟩) word apart rest

theorem closeWord_of_isWord (h : IsWord w) : closeWord w.reverse ws = w :: ws := by
  cases hr : w.reverse with
  | nil => exact absurd (List.reverse_eq_nil_iff.mp hr) h.ne_nil
  | cons c cs => rw [closeWord, ← hr, List.reverse_reverse]; exact nofun

theorem shows_wordsFrom (visible : ∀ c ∈ w, ¬isBlank c) :
    Shows (wordsFrom w.reverse cs) (w ++ cs) := by
  induction cs generalizing w with
  | nil =>
    by_cases empty : w = []
    · subst empty
      exact .gap nofun
    · have word : IsWord w := ⟨empty, visible⟩
      rw [wordsFrom, closeWord_of_isWord word]
      exact .word (g := []) nofun word nofun (.gap nofun)
  | cons c cs ih =>
    rw [wordsFrom]
    split
    next blank =>
      have rest : Shows (wordsFrom [] cs) (c :: cs) := .blank blank (ih (w := []) nofun)
      by_cases empty : w = []
      · subst empty
        exact rest
      · have word : IsWord w := ⟨empty, visible⟩
        rw [closeWord_of_isWord word]
        exact .word (g := []) nofun word (by simpa using blank) rest
    next visible' =>
      have longer := ih (w := w ++ [c]) <|
        List.forall_mem_append.mpr ⟨visible, List.forall_mem_singleton.mpr visible'⟩
      simpa using longer

theorem wordsFrom_gap (h : IsGap g) : wordsFrom [] (g ++ cs) = wordsFrom [] cs := by
  induction g with
  | nil => rfl
  | cons c g ih =>
    obtain ⟨blank, blanks⟩ := List.forall_mem_cons.mp h
    rw [List.cons_append, wordsFrom, if_pos blank, closeWord, ih blanks]

theorem wordsFrom_visible (h : ∀ c ∈ w, ¬isBlank c) :
    wordsFrom v (w ++ cs) = wordsFrom (w.reverse ++ v) cs := by
  induction w generalizing v with
  | nil => rfl
  | cons c w ih =>
    obtain ⟨visible, rest⟩ := List.forall_mem_cons.mp h
    rw [List.cons_append, wordsFrom, if_neg visible, ih rest]
    simp

theorem wordsFrom_apart (apart : ∀ c ∈ cs.head?, isBlank c) :
    wordsFrom v cs = closeWord v (wordsFrom [] cs) := by
  cases cs with
  | nil => cases v <;> rfl
  | cons c cs =>
    have blank : isBlank c := apart c rfl
    simp only [wordsFrom, if_pos blank, closeWord]

theorem words_eq_iff : words cs = ws ↔ Shows ws cs := by
  constructor
  · rintro rfl
    exact shows_wordsFrom (w := []) nofun
  · intro h
    induction h with
    | gap blank =>
      have none : wordsFrom [] (_ ++ []) = wordsFrom [] [] := wordsFrom_gap blank
      rwa [List.append_nil] at none
    | word blank word apart rest ih =>
      rw [words, wordsFrom_gap blank, wordsFrom_visible word.visible, List.append_nil,
        wordsFrom_apart apart, closeWord_of_isWord word]
      exact congrArg _ ih

theorem words_eq_nil : words cs = [] ↔ IsGap cs := by
  rw [words_eq_iff]
  constructor
  · rintro (blank | _)
    exact blank
  · exact .gap

theorem words_append_gap (h : IsGap g) : words (cs ++ g) = words cs := by
  refine words_eq_iff.mpr ?_
  generalize shown : words cs = ws
  induction words_eq_iff.mp shown with
  | gap blank => exact .gap (blank.append h)
  | @word _ _ cs _ blank word apart rest ih =>
    rw [List.append_assoc, List.append_assoc]
    refine .word blank word (fun c first => ?_) (ih (words_eq_iff.mpr rest))
    cases cs with
    | nil => exact h c (List.mem_of_mem_head? first)
    | cons => exact apart c first

namespace Spacing

theorem shows (s : Spacing) (h : ∀ w ∈ ws, IsWord w) : Shows ws (s.space ws) := by
  have spread : ∀ g, IsGap g → Shows ws (g ++ (s.between.intercalate ws ++ s.after)) := by
    induction ws with
    | nil => exact fun g gap => .gap (gap.append (by simpa using s.after_gap))
    | cons w ws ih =>
      intro g gap
      obtain ⟨word, others⟩ := List.forall_mem_cons.mp h
      cases ws with
      | nil =>
        rw [List.intercalate_singleton]
        exact .word gap word (fun c first => s.after_gap c (List.mem_of_mem_head? first))
          (.gap s.after_gap)
      | cons w' ws =>
        rw [List.intercalate_cons_cons, List.append_assoc, List.append_assoc]
        refine .word gap word (fun c first => ?_) (ih others s.between s.between_gap)
        rw [List.head?_append_of_ne_nil _ s.between_ne_nil] at first
        exact s.between_gap c (List.mem_of_mem_head? first)
  exact spread s.before s.before_gap

theorem shows_single (s : Spacing) (h : IsWord w) : Shows [w] (s.space [w, []]) := by
  have blank : IsGap (s.between ++ s.after) := s.between_gap.append s.after_gap
  have text : s.space [w, []] = s.before ++ (w ++ (s.between ++ s.after)) := by
    simp [space]
  rw [text]
  exact .word s.before_gap h (fun c first => blank c (List.mem_of_mem_head? first)) (.gap blank)

end Spacing
end AppSupervisor
