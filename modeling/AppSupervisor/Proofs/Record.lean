import AppSupervisor.Proofs.Except
import AppSupervisor.Proofs.Json.Typed
import AppSupervisor.Record

namespace AppSupervisor.Record

open Json

inductive Field
  | runId | state | id
  deriving DecidableEq

namespace Field

def all : List Field := [runId, state, id]

def key : Field → String
  | runId => "runid"
  | state => "state"
  | id => "id"

def IsText (r : Record) : Field → List Char → Prop
  | runId => (· = decimalChars r.runId.toNat)
  | state => Quotes r.state.name
  | id => Quotes r.id

def toJson (r : Record) : Field → Json
  | runId => .ofInt r.runId.toNat
  | state => .string r.state.name
  | id => .string r.id

def read : Field → Draft → Reader Draft
  | runId => readRunId
  | state => readState
  | id => readId

end Field

/-- The text writes the record, as an object or as an array. -/
def Written (r : Record) (text : String) : Prop :=
  Padded (StructureText Field.key (Field.IsText r) Field.all) text.toList

def Draft.put (r : Record) : Field → Draft → Draft
  | .runId, d => { d with runId := some r.runId }
  | .state, d => { d with state := some r.state }
  | .id, d => { d with id := some r.id }

def draft (r : Record) (done : List Field) : Draft where
  runId := if .runId ∈ done then some r.runId else none
  state := if .state ∈ done then some r.state else none
  id := if .id ∈ done then some r.id else none

variable {r : Record} {text : String}

theorem draft_cons (i : Field) (done : List Field) :
    draft r (i :: done) = (draft r done).put r i := by
  cases i <;> simp [draft, Draft.put]

theorem reads_runId (d : Draft) (id : RunId) :
    Reads (readRunId d) { d with runId := some id } (· = decimalChars id.toNat) := by
  have same : (⟨UInt32.ofNat id.toNat⟩ : RunId) = id := by rw [RunId.toNat, UInt32.ofNat_toNat]
  have read := (reads_below (n := id.toNat) id.val.toNat_lt (by decide)).map fun n =>
    { d with runId := some ⟨UInt32.ofNat n⟩ }
  rwa [same] at read

theorem drafts (r : Record) :
    Drafts Field.key (Field.IsText r) Field.read readMember (draft r) where
  known done i fresh := by
    cases i <;> simp [readMember, Field.key, Field.read, draft, fresh]
  reads done i := by
    rw [draft_cons]
    generalize draft r done = d
    cases i with
    | runId => exact reads_runId d r.runId
    | state =>
      exact (reads_choice (Reported.ofName?_name r.state)).map fun s => { d with state := some s }
    | id => exact (reads_string r.id).map fun id => { d with id := some id }

theorem reads_record (r : Record) :
    Reads read r (StructureText Field.key (Field.IsText r) Field.all) where
  skips g cs spacing := by
    rw [read, read, readStructure_skips g cs spacing]
  opens _ text := text.opens
  takes cs text rest ends := by
    obtain ⟨order, fields, takes⟩ :=
      (drafts r).takes_structure (fun _ => .error .mistyped) (by decide) text
    have whole : draft r order = ⟨some r.runId, some r.state, some r.id⟩ := by
      have present : ∀ i, i ∈ order := fun i => fields.mem_iff.mpr (by cases i <;> decide)
      simp [draft, present]
    have drafted : readStructure readMember [readRunId, readState, readId]
        (fun _ => .error .mistyped) {} (cs ++ rest) = .ok (draft r order, rest) := takes rest ends
    rw [whole] at drafted
    simp only [read, drafted, bind, Except.bind, pure, Except.pure]

theorem ofJson_of_written (h : Written r text) : ofJson text = .ok r := by
  have read := readAll_padded (reads_record r) h
  rw [String.ofList_toList] at read
  rw [ofJson, read]
  rfl

theorem written_render (r : Record) : Written r r.toJson.render := by
  have fields : ∀ i, Field.IsText r i (print (Field.toJson r i)) := by
    intro i
    cases i with
    | runId => exact rfl
    | state => exact quotes_quote r.state.name
    | id => exact quotes_quote r.id
  have text : StructureText Field.key (Field.IsText r) Field.all (print r.toJson) := .print fields
  rw [Written, render, String.toList_ofList]
  exact .plain text

/-- A record is read back from its own text and from every other text that writes it, and what was
read once is read again from then on. -/
theorem stable_ofJson :
    (∀ r : Record, ofJson r.toJson.render = .ok r) ∧
    (∀ r text, Written r text → ofJson text = .ok r) ∧
    ∀ text r, ofJson text = .ok r → ofJson r.toJson.render = .ok r :=
  ⟨fun r => ofJson_of_written (written_render r), fun _ _ => ofJson_of_written,
    fun _ r _ => ofJson_of_written (written_render r)⟩

theorem stable_ofJson_reordered :
    ofJson (toJson ⟨⟨4294967295⟩, .stopped, "\"\\\x00😀"⟩).render =
      .ok ⟨⟨4294967295⟩, .stopped, "\"\\\x00😀"⟩ ∧
    ofJson "\n\x7b \"state\" :\"stopped\",\"id\":\"\\ud83d\\ude00\",\t\"runid\":4294967295\x7d " =
      .ok ⟨⟨4294967295⟩, .stopped, "😀"⟩ ∧
    ofJson (toJson ⟨⟨4294967295⟩, .stopped, "😀"⟩).render =
      .ok ⟨⟨4294967295⟩, .stopped, "😀"⟩ := by
  obtain ⟨roundTrip, written, stable⟩ := stable_ofJson
  have lead : unit? 'd' '8' '3' 'd' = some 0xd83d := rfl
  have trail : unit? 'd' 'e' '0' '0' = some 0xde00 := rfl
  have emoji : Quotes "😀" "\"\\ud83d\\ude00\"".toList :=
    ⟨["\\ud83d\\ude00".toList], .cons (.pair lead trail rfl rfl rfl) .nil, by decide⟩
  have text : Written ⟨⟨4294967295⟩, .stopped, "😀"⟩
      "\n\x7b \"state\" :\"stopped\",\"id\":\"\\ud83d\\ude00\",\t\"runid\":4294967295\x7d " := by
    have blank : IsSpacing [' '] := by decide
    have tab : IsSpacing ['\t'] := by decide
    have line : IsSpacing ['\n'] := by decide
    have number : decimalChars 4294967295 = decimalChars (RunId.toNat ⟨4294967295⟩) := rfl
    have members : List.Forall₂ (fun i => Padded
        (MemberText (Field.key i) (Field.IsText ⟨⟨4294967295⟩, .stopped, "😀"⟩ i)))
        [.state, .id, .runId] _ :=
      .cons (.pad blank (.member (quotes_quote _) blank .nil (quotes_quote _)) .nil)
        (.cons (.plain (.member (quotes_quote _) .nil .nil emoji))
          (.cons (.pad tab (.member (quotes_quote _) .nil .nil number) .nil) .nil))
    have object : StructureText Field.key _ Field.all _ := .object (by decide) members
    have padded := Padded.pad line object blank
    rw [Written]
    convert padded using 1
    decide
  exact ⟨roundTrip _, written _ _ text, stable _ _ (written _ _ text)⟩

end AppSupervisor.Record
