import AppSupervisor.Config
import AppSupervisor.Proofs.Except
import AppSupervisor.Proofs.Json.Typed

namespace AppSupervisor.Config

open Json

def validated (c : Config) : Except Error Config := do
  c.validate.mapError .invalid
  return c

/-- Some fields of a configuration; all others are the defaults. -/
def keep (c : Config) (fields : List Field) : Config where
  capacity := if .capacity ∈ fields then c.capacity else Config.default.capacity
  maxRunId := if .maxRunId ∈ fields then c.maxRunId else Config.default.maxRunId
  buckets := if .buckets ∈ fields then c.buckets else Config.default.buckets
  appDir := if .appDir ∈ fields then c.appDir else Config.default.appDir
  home := if .home ∈ fields then c.home else Config.default.home
  launch := if .launch ∈ fields then c.launch else Config.default.launch

def fieldsJson (c : Config) (fields : List Field) : Json :=
  .object (fields.map fun f => (f.key, f.toJson c))

def arrayJson (c : Config) : Json := .array (Field.all.map fun f => f.toJson c)

def TemplatesText (t : Templates) (cs : List Char) : Prop :=
  ∃ entries : List (String × List String), entries.Perm t.toList ∧
    ObjectText Prod.fst (fun entry => ArrayText Quotes entry.2) entries cs

/-- The texts of a field's value. -/
def IsText (c : Config) : Field → List Char → Prop
  | .capacity => (· = decimalChars c.capacity.toNat)
  | .maxRunId => (· = decimalChars c.maxRunId.toNat)
  | .buckets => (· = decimalChars c.buckets.toNat)
  | .appDir => Quotes c.appDir
  | .home => OptionText Quotes c.home
  | .launch => TemplatesText c.launch

/-- The text writes the configuration, as an object or as an array. -/
def Written (c : Config) (text : String) : Prop :=
  Padded (StructureText Field.key (IsText c) Field.all) text.toList

/-- The text is an object that writes some fields of the configuration, in this order. -/
def WrittenIn (c : Config) (fields : List Field) (text : String) : Prop :=
  Padded (ObjectText Field.key (IsText c) fields) text.toList

/-- What is read of the texts that write a configuration. -/
structure RoundTrips (c : Config) : Prop where
  object : c.validate = .ok () → ofJson c.toJson.render = .ok c
  reordered : c.validate = .ok () → ∀ order : List Field, order.Perm Field.all →
    ofJson (c.fieldsJson order).render = .ok c
  array : c.validate = .ok () → ofJson c.arrayJson.render = .ok c
  /-- Every spelling of strings and numbers, all white space and every order are covered. -/
  written : c.validate = .ok () → ∀ text, Written c text → ofJson text = .ok c
  /-- Fields may be left out of any configuration, and then the defaults count instead. -/
  kept : ∀ fields : List Field, fields.Nodup →
    ofJson (c.fieldsJson fields).render = (c.keep fields).validated
  keptIn : ∀ (fields : List Field) text, fields.Nodup → WrittenIn c fields text →
    ofJson text = (c.keep fields).validated

def put (c : Config) : Field → Config → Config
  | .capacity, d => { d with capacity := c.capacity }
  | .maxRunId, d => { d with maxRunId := c.maxRunId }
  | .buckets, d => { d with buckets := c.buckets }
  | .appDir, d => { d with appDir := c.appDir }
  | .home, d => { d with home := c.home }
  | .launch, d => { d with launch := c.launch }

variable {c d : Config} {t : Templates} {entries : List (String × List String)}
  {fields : List Field} {text : String}

theorem keep_cons (c : Config) (i : Field) (fields : List Field) :
    c.keep (i :: fields) = c.put i (c.keep fields) := by
  cases i <;> simp [keep, put]

theorem keep_perm (fields' : List Field) (perm : fields.Perm fields') :
    c.keep fields = c.keep fields' := by
  simp only [keep, perm.mem_iff]

theorem keep_all (c : Config) : c.keep Field.all = c := rfl

theorem foldl_insert_of_perm (perm : entries.Perm t.toList) :
    entries.foldl (fun t entry => t.insert entry.1 entry.2) (∅ : Templates) = t := by
  have inserted : ∀ s : Templates,
      entries.foldl (fun t entry => t.insert entry.1 entry.2) s = s.insertMany entries := by
    intro s
    clear perm
    induction entries generalizing s with
    | nil => exact Std.ExtTreeMap.insertMany_nil.symm
    | cons entry entries ih => rw [List.foldl_cons, ih, ← Std.ExtTreeMap.insertMany_cons]
  have distinct : entries.Pairwise fun a b => ¬compare a.1 b.1 = .eq :=
    (perm.pairwise_iff fun h same => h (Std.OrientedCmp.eq_symm same)).mpr
      Std.ExtTreeMap.distinct_keys_toList
  rw [inserted, ← Std.ExtTreeMap.ofList_eq_insertMany_empty]
  refine Std.ExtTreeMap.ext_getElem? fun contentType => ?_
  cases found : t[contentType]? with
  | some argv =>
    have listed := perm.mem_iff.mpr (Std.ExtTreeMap.mem_toList_iff_getElem?_eq_some.mpr found)
    exact Std.ExtTreeMap.getElem?_ofList_of_mem Std.ReflCmp.compare_self distinct listed
  | none =>
    refine Std.ExtTreeMap.getElem?_ofList_of_contains_eq_false ?_
    rw [List.contains_eq_mem, decide_eq_false_iff_not, List.mem_map]
    rintro ⟨⟨_, argv⟩, listed, rfl⟩
    have present := Std.ExtTreeMap.mem_toList_iff_getElem?_eq_some.mp (perm.mem_iff.mp listed)
    rw [found] at present
    cases present

theorem reads_templates (t : Templates) : Reads Field.readTemplates t (TemplatesText t) := by
  have read : ∀ entries : List (String × List String), Reads Field.readTemplates
      (entries.foldl (fun t entry => t.insert entry.1 entry.2) ∅)
      (ObjectText Prod.fst (fun entry => ArrayText Quotes entry.2) entries) := fun entries =>
    reads_object (fun t entry =>
      ⟨_, rfl, (reads_array reads_string entry.2).map fun argv => t.insert entry.1 argv⟩) entries ∅
  refine ⟨fun g cs spacing => (read []).skips g cs spacing, ?_, ?_⟩
  · rintro cs ⟨entries, _, text⟩
    exact (read entries).opens cs text
  · rintro cs ⟨entries, perm, text⟩
    have takes := (read entries).takes cs text
    rwa [foldl_insert_of_perm perm] at takes

theorem reads_home (home : Option String) :
    Reads (readOption readString) home (OptionText Quotes home) := by
  refine reads_option reads_string (fun s cs quoted => ?_) home
  obtain ⟨body, rfl, _⟩ := quoted.exists_body
  exact fun null => absurd (Option.some.inj null) (by decide)

theorem reads_field (c d : Config) (i : Field) : Reads (i.read d) (c.put i d) (IsText c i) := by
  cases i with
  | capacity =>
    have read := (reads_below c.capacity.toNat_lt (by decide)).map fun n =>
      { d with capacity := UInt64.ofNat n }
    rwa [UInt64.ofNat_toNat] at read
  | maxRunId =>
    have read := (reads_below c.maxRunId.toNat_lt (by decide)).map fun n =>
      { d with maxRunId := UInt32.ofNat n }
    rwa [UInt32.ofNat_toNat] at read
  | buckets =>
    have read := (reads_below c.buckets.toNat_lt (by decide)).map fun n =>
      { d with buckets := UInt64.ofNat n }
    rwa [UInt64.ofNat_toNat] at read
  | appDir => exact (reads_string c.appDir).map fun s => { d with appDir := s }
  | home => exact (reads_home c.home).map fun s => { d with home := s }
  | launch => exact (reads_templates c.launch).map fun t => { d with launch := t }

theorem drafts (c : Config) :
    Drafts Field.key (IsText c) readElement readMember fun done => (done, c.keep done) where
  known done i fresh := by
    have key : Field.ofKey? i.key = some i := by cases i <;> decide
    rw [readMember, key]
    exact if_neg fresh
  reads done i := by
    rw [keep_cons]
    exact (reads_field c (c.keep done) i).map fun d => (i :: done, d)

theorem reads_of_takes {P : List Char → Prop} (opens : ∀ cs, P cs → Opens cs)
    (takes : ∀ cs, P cs → ∃ done, Takes (readStructure readMember (Field.all.map readElement) .ok
      ([], Config.default)) (done, d) cs) : Reads read d P where
  skips g cs spacing := by rw [read, read, readStructure_skips g cs spacing]
  opens := opens
  takes cs text rest ends := by
    obtain ⟨done, takes⟩ := takes cs text
    simp only [read, takes rest ends, bind, Except.bind, pure, Except.pure]

theorem reads_written (c : Config) :
    Reads read c (StructureText Field.key (IsText c) Field.all) := by
  refine reads_of_takes (fun _ text => text.opens) fun cs text => ?_
  obtain ⟨order, perm, takes⟩ := (drafts c).takes_structure .ok (by decide) text
  rw [keep_perm _ perm, keep_all] at takes
  exact ⟨order, takes⟩

theorem reads_writtenIn (c : Config) (apart : fields.Nodup) :
    Reads read (c.keep fields) (ObjectText Field.key (IsText c) fields) := by
  refine reads_of_takes ?_ ?_
  · rintro _ ⟨members⟩
    exact .cons rfl (by decide)
  · rintro _ ⟨members⟩
    rw [← keep_perm _ (List.reverse_perm fields)]
    exact ⟨_, (drafts c).takes_object apart members⟩

theorem ofJson_of_reads {P : List Char → Prop} (h : Reads read c P) (text' : Padded P text.toList) :
    ofJson text = c.validated := by
  have whole := readAll_padded h text'
  rw [String.ofList_toList] at whole
  rw [ofJson, whole]
  rfl

theorem validated_of_validate (h : c.validate = .ok ()) : c.validated = .ok c := by
  rw [validated, h]
  rfl

theorem isText_toJson (c : Config) (i : Field) : IsText c i (print (i.toJson c)) := by
  cases i with
  | capacity => exact rfl
  | maxRunId => exact rfl
  | buckets => exact rfl
  | appDir => exact quotes_quote c.appDir
  | home =>
    rw [IsText, Field.toJson]
    cases c.home with
    | none => exact rfl
    | some home => exact quotes_quote home
  | launch =>
    have templates : ∀ entry : String × List String,
        ArrayText Quotes entry.2 (print (ofTexts entry.2)) := fun entry => .print quotes_quote entry.2
    exact ⟨_, .refl _, ObjectText.print templates c.launch.toList⟩

theorem written_render (c : Config) : Written c c.toJson.render := by
  have text : StructureText Field.key (IsText c) Field.all (print c.toJson) :=
    .print (isText_toJson c)
  rw [Written, render, String.toList_ofList]
  exact .plain text

theorem written_arrayJson (c : Config) : Written c c.arrayJson.render := by
  have text : ArrayText (IsText c) Field.all (print c.arrayJson) := .print (isText_toJson c) _
  rw [Written, render, String.toList_ofList]
  exact .plain text.structure

theorem writtenIn_render (c : Config) (fields : List Field) :
    WrittenIn c fields (c.fieldsJson fields).render := by
  have text : ObjectText Field.key (IsText c) fields (print (c.fieldsJson fields)) :=
    .print (isText_toJson c) fields
  rw [WrittenIn, render, String.toList_ofList]
  exact .plain text

theorem ofJson_of_written (valid : c.validate = .ok ()) (written : Written c text) :
    ofJson text = .ok c :=
  (ofJson_of_reads (reads_written c) written).trans (validated_of_validate valid)

theorem ofJson_of_writtenIn (apart : fields.Nodup) (written : WrittenIn c fields text) :
    ofJson text = (c.keep fields).validated :=
  ofJson_of_reads (reads_writtenIn c apart) written

/-- The order of the fields is of no account, and what is left out is the default. -/
theorem roundTrips_ofJson (c : Config) : RoundTrips c where
  object valid := ofJson_of_written valid (written_render c)
  reordered valid order perm := by
    have apart : order.Nodup := perm.nodup_iff.mpr (by decide)
    rw [ofJson_of_writtenIn apart (writtenIn_render c order), keep_perm _ perm, keep_all]
    exact validated_of_validate valid
  array valid := ofJson_of_written valid (written_arrayJson c)
  written valid _ := ofJson_of_written valid
  kept fields apart := ofJson_of_writtenIn apart (writtenIn_render c fields)
  keptIn _ _ := ofJson_of_writtenIn

/-- Run ids for so many runners have to be given as well: without them the default is too low. -/
theorem roundTrips_without_maxRunId :
    let c : Config := { Config.default with
      capacity := 40000, maxRunId := 40000, launch := .ofList [("b", ["\x7bpath\x7d"]), ("a", ["/a", "é"])] }
    ofJson c.toJson.render = .ok c ∧
    ofJson (c.fieldsJson [.launch, .maxRunId, .capacity]).render = .ok c ∧
    ofJson (c.fieldsJson [.launch, .capacity]).render = .error (.invalid .idRange) ∧
    ofJson "\n\x7b\"home\" :null,\t\"capacity\":40000\x7d " = .error (.invalid .idRange) := by
  intro c
  have valid : c.validate = .ok () := by decide +kernel
  have trips := roundTrips_ofJson c
  have text : WrittenIn c [.home, .capacity]
      "\n\x7b\"home\" :null,\t\"capacity\":40000\x7d " := by
    have blank : IsSpacing [' '] := by decide
    have tab : IsSpacing ['\t'] := by decide
    have line : IsSpacing ['\n'] := by decide
    have number : decimalChars 40000 = decimalChars c.capacity.toNat := rfl
    have members : List.Forall₂ (fun i => Padded (MemberText (Field.key i) (IsText c i)))
        [.home, .capacity] _ :=
      .cons (.plain (.member (quotes_quote _) blank .nil rfl))
        (.cons (.pad tab (.member (quotes_quote _) .nil .nil number) .nil) .nil)
    have padded := Padded.pad line (ObjectText.object members) blank
    rw [WrittenIn]
    convert padded using 1
    decide
  have whole : c.keep [.launch, .maxRunId, .capacity] = c := rfl
  refine ⟨trips.object valid, ?_, trips.kept [.launch, .capacity] (by decide),
    trips.keptIn [.home, .capacity] _ (by decide) text⟩
  rw [trips.kept _ (by decide), whole, validated_of_validate valid]

end AppSupervisor.Config
