import AppSupervisor.Proofs.Text.Substitution
import AppSupervisor.Template

namespace AppSupervisor.LaunchDesc

/-- The placeholders and their values in the order in which they are replaced. -/
def table (d : LaunchDesc) : List (List Char × List Char) :=
  d.placeholders.map fun (placeholder, value) => (placeholder.toList, value.toList)

/-- What an argument of a template may be rendered as. -/
structure Renders (d : LaunchDesc) (argument rendered : String) : Prop where
  once : Undisturbed d.table argument.toList →
    rendered.toList = substitute d.table argument.toList
  anyOrder : Undisturbed d.table argument.toList →
    ∀ order, order.Perm d.table → Undisturbed order argument.toList →
      rendered.toList = replaceEach order argument.toList
  /-- Otherwise a placeholder is met that is not in the template. -/
  disturbed : ¬Undisturbed d.table argument.toList → ∃ i, ∃ hi : i < d.table.length,
    occurrences d.table[i].1 argument.toList <
      occurrences d.table[i].1 (replaceEach (d.table.take i) argument.toList)
  /-- That takes a brace in a value, or one in the template that belongs to no placeholder. -/
  plain : Plain d.table argument.toList →
    ∀ order, order.Perm d.table → Undisturbed order argument.toList

theorem toList_fillIn (d : LaunchDesc) (argument : String) :
    (d.fillIn argument).toList = replaceEach d.table argument.toList := by
  simp only [fillIn, String.toList_ofList, replaceEach, table, List.foldl_map]

def placeholderNames : List String :=
  ["path", "content", "id", "name", "width", "height", "home"]

theorem patterns_table (d : LaunchDesc) :
    d.table.map Prod.fst =
      placeholderNames.map fun name => '\x7b' :: (name.toList ++ ['\x7d']) := by
  rfl

theorem names_table (d : LaunchDesc) : Names d.table := by
  have plain : ∀ name ∈ placeholderNames, '\x7b' ∉ name.toList ∧ '\x7d' ∉ name.toList := by
    decide
  refine ⟨fun e he => ?_, ?_⟩
  · have mem : e.1 ∈ d.table.map Prod.fst := List.mem_map_of_mem he
    rw [patterns_table] at mem
    obtain ⟨name, known, same⟩ := List.mem_map.mp mem
    exact ⟨name.toList, (plain name known).1, (plain name known).2, same.symm⟩
  · rw [patterns_table]
    decide

theorem renders_fillIn (d : LaunchDesc) (argument : String) :
    d.Renders argument (d.fillIn argument) := by
  have names := d.names_table
  refine ⟨fun quiet => ?_, fun quiet order p quiet' => ?_, names.exists_lt_of_disturbed,
    fun plain order p => ?_⟩
  · rw [toList_fillIn, names.replaceEach_eq quiet]
  · rw [toList_fillIn, names.replaceEach_eq quiet, (names.perm p).replaceEach_eq quiet',
      names.substitute_perm p]
  · exact (names.perm p).undisturbed_of_plain (names.plain_perm p plain)

/-- Each argument of the template is rendered by itself. -/
theorem argv_renders {templates : Templates} {d : LaunchDesc} {template : List String}
    (found : templates[d.contentType]? = some template) :
    ∃ rendered, d.argv templates = .ok rendered ∧ List.Forall₂ d.Renders template rendered := by
  refine ⟨template.map d.fillIn, ?_, ?_⟩
  · simp only [argv, found]
  · rw [List.forall₂_map_right_iff, List.forall₂_same]
    exact fun argument _ => d.renders_fillIn argument

def unruly : LaunchDesc :=
  ⟨"/opt/\x7bapp", "clock", "main", "native", "\x7bid\x7d", 800, 480, "\x7bname\x7d", []⟩

theorem argv_unruly :
    let template := ["\x7bpath\x7d/\x7bcontent\x7d", "--title=\x7bname\x7d", "\x7bhome\x7d"]
    let templates : Templates := .ofList [("native", template)]
    (templates[unruly.contentType]? = some template ∧
      ∀ argument ∈ template, Undisturbed unruly.table argument.toList) ∧
    ∃ rendered, unruly.argv templates = .ok rendered ∧
      List.Forall₂ unruly.Renders template rendered ∧
      rendered = ["/opt/\x7bapp/main", "--title=\x7bid\x7d", "\x7bname\x7d"] := by
  intro template templates
  have found : templates[unruly.contentType]? = some template := by rfl
  have quiet : ∀ argument ∈ template, Undisturbed unruly.table argument.toList := by
    decide +kernel
  obtain ⟨rendered, answer, renders⟩ := argv_renders found
  have text : unruly.argv templates =
      .ok ["/opt/\x7bapp/main", "--title=\x7bid\x7d", "\x7bname\x7d"] := by rfl
  exact ⟨⟨found, quiet⟩, rendered, answer, renders, Except.ok.inj (answer.symm.trans text)⟩

/-- A name that reads like a placeholder becomes the width. -/
theorem fillIn_rescans :
    let d : LaunchDesc := { unruly with name := "\x7bwidth\x7d" }
    (d.fillIn "\x7bname\x7d" = "800" ∧
      substitute d.table "\x7bname\x7d".toList = "\x7bwidth\x7d".toList) ∧
    replaceEach d.table.reverse "\x7bname\x7d".toList = "\x7bwidth\x7d".toList := by
  decide +kernel

end AppSupervisor.LaunchDesc
