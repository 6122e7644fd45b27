import AppSupervisor.Proofs.Except
import AppSupervisor.Proofs.Text.Decimal
import AppSupervisor.Proofs.Text.Words
import AppSupervisor.Request

namespace AppSupervisor

variable {w : List Char} {n : Nat} {id : RunId}

theorem isWord_decimalChars (n : Nat) : IsWord (decimalChars n) := by
  obtain ⟨some, digits, _⟩ := decimal?_eq_some.mp (decimal?_toDigits n)
  refine ⟨some, fun c hc => ?_⟩
  obtain ⟨low, high⟩ := Char.isDigit_iff_toNat.mp (isDigit_iff.mpr (digits c hc))
  simp only [Char.reduceToNat] at low high
  simp [isBlank]
  omega

namespace RunId

theorem ofNat?_eq_some : ofNat? n = some id ↔ id.toNat = n := by
  unfold ofNat?
  split
  next small =>
    have same : (UInt32.ofNat n).toNat = n := UInt32.toNat_ofNat_of_lt' small
    constructor
    · intro h
      cases h
      exact same
    · rintro rfl
      rw [toNat, UInt32.ofNat_toNat]
  next large => exact ⟨nofun, fun h => absurd (h ▸ id.val.toNat_lt) large⟩

theorem ofWord?_eq_some : ofWord? w = some id ↔ IsNumeral w id.toNat := by
  have value : ofWord? w = some id ↔
      decimal? (if w.head? = some '+' then w.tail else w) = some id.toNat := by
    simp only [ofWord?, Option.bind_eq_some_iff, ofNat?_eq_some]
    exact ⟨fun ⟨n, h, same⟩ => same ▸ h, fun h => ⟨_, h, rfl⟩⟩
  rw [value, decimal?_eq_some]
  constructor
  · intro digits
    refine ⟨_, ?_, digits⟩
    split
    next plus => exact .inr (List.eq_cons_of_mem_head? plus)
    next => exact .inl rfl
  · rintro ⟨ds, rfl | rfl, digits⟩
    · have bare : w.head? ≠ some '+' := by
        intro plus
        have range := digits.2.1 '+' (List.mem_of_mem_head? plus)
        exact absurd range (by decide)
      rwa [if_neg bare]
    · exact digits

end RunId

namespace RequestLine

def controls : List (String × (RunId → RequestLine)) :=
  [("terminate", terminate), ("stop", stop), ("continue", resume), ("state", state)]

def singles : List (String × RequestLine) := [("list", list), ("collect", collect), ("quit", quit)]

/-- The words are one of the forms in which the request is written. -/
inductive Documented : RequestLine → List (List Char) → Prop
  | start (file : List Char) : Documented (start (String.ofList file)) ["start".toList, file]
  | control {v : String} {f : RunId → RequestLine} {w : List Char} {id : RunId}
      (known : (v, f) ∈ controls) (numeral : IsNumeral w id.toNat) :
      Documented (f id) [v.toList, w]
  | single {v : String} {r : RequestLine} (known : (v, r) ∈ singles) : Documented r [v.toList]

def arguments : RequestLine → List (List Char)
  | start file => [file.toList]
  | terminate id | stop id | resume id | state id => [decimalChars id.toNat]
  | list | collect | quit => []

def toWords (r : RequestLine) : List (List Char) := r.verb.toList :: r.arguments

variable {r : RequestLine} {v line : String} {f : RunId → RequestLine}
  {argument : Option (List Char)} {ws : List (List Char)}

theorem mem_controls : (v, f) ∈ controls ↔ (v = "terminate" ∧ f = terminate) ∨
    (v = "stop" ∧ f = stop) ∨ (v = "continue" ∧ f = resume) ∨ v = "state" ∧ f = state := by
  simp [controls]

theorem mem_singles : (v, r) ∈ singles ↔
    (v = "list" ∧ r = list) ∨ (v = "collect" ∧ r = collect) ∨ v = "quit" ∧ r = quit := by
  simp [singles]

theorem documented_toWords (r : RequestLine) : Documented r r.toWords := by
  have numeral := fun id : RunId => isNumeral_decimalChars id.toNat
  cases r with
  | start file =>
    have written := Documented.start file.toList
    rwa [String.ofList_toList] at written
  | terminate id => exact .control (v := "terminate") (by simp [controls]) (numeral id)
  | stop id => exact .control (v := "stop") (by simp [controls]) (numeral id)
  | resume id => exact .control (v := "continue") (by simp [controls]) (numeral id)
  | state id => exact .control (v := "state") (by simp [controls]) (numeral id)
  | list => exact .single (v := "list") (by simp [singles])
  | collect => exact .single (v := "collect") (by simp [singles])
  | quit => exact .single (v := "quit") (by simp [singles])

theorem runIdArgument_eq_ok :
    runIdArgument v argument = .ok id ↔ ∃ w, argument = some w ∧ IsNumeral w id.toNat := by
  cases argument with
  | none => simp [runIdArgument]
  | some w =>
    simp only [Option.some.injEq, exists_eq_left', ← RunId.ofWord?_eq_some, runIdArgument]
    cases RunId.ofWord? w <;> simp

theorem ofVerb_control (known : (v, f) ∈ controls) :
    ofVerb v argument = (runIdArgument v argument).map f := by
  rcases mem_controls.mp known with ⟨rfl, rfl⟩ | ⟨rfl, rfl⟩ | ⟨rfl, rfl⟩ | ⟨rfl, rfl⟩ <;> rfl

theorem ofVerb_single (known : (v, r) ∈ singles) : ofVerb v argument = .ok r := by
  rcases mem_singles.mp known with ⟨rfl, rfl⟩ | ⟨rfl, rfl⟩ | ⟨rfl, rfl⟩ <;> rfl

theorem ofVerb_control_eq_ok (known : (v, f) ∈ controls) : ofVerb v argument = .ok r ↔
    ∃ w id, argument = some w ∧ IsNumeral w id.toNat ∧ r = f id := by
  rw [ofVerb_control known]
  constructor
  · intro h
    cases read : runIdArgument v argument with
    | error e =>
      rw [read] at h
      cases h
    | ok id =>
      rw [read] at h
      cases h
      obtain ⟨w, given, numeral⟩ := runIdArgument_eq_ok.mp read
      exact ⟨w, id, given, numeral, rfl⟩
  · rintro ⟨w, id, given, numeral, rfl⟩
    rw [runIdArgument_eq_ok.mpr ⟨w, given, numeral⟩]
    rfl

theorem documented_of_control (known : (v, f) ∈ controls) (h : ofVerb v argument = .ok r) :
    Documented r (v.toList :: argument.toList) := by
  obtain ⟨w, id, rfl, numeral, rfl⟩ := (ofVerb_control_eq_ok known).mp h
  exact .control known numeral

theorem ofVerb_eq_ok : ofVerb v argument = .ok r ↔
    Documented r (v.toList :: argument.toList) ∨ (v, r) ∈ singles := by
  constructor
  · intro h
    have asked := h
    unfold ofVerb at asked
    split at asked
    next =>
      split at asked
      next file =>
        cases asked
        exact .inl (.start file)
      next => cases asked
    next => exact .inl (documented_of_control (f := terminate) (by simp [controls]) h)
    next => exact .inl (documented_of_control (f := stop) (by simp [controls]) h)
    next => exact .inl (documented_of_control (f := resume) (by simp [controls]) h)
    next => exact .inl (documented_of_control (f := state) (by simp [controls]) h)
    iterate 3
      next =>
        cases asked
        exact .inr (by simp [singles])
    next => cases asked
  · rintro (written | alone)
    · generalize shown : v.toList :: argument.toList = ws at written
      cases written <;> rw [List.cons.injEq, String.toList_inj] at shown
      case start file =>
        obtain ⟨rfl, given⟩ := shown
        rw [Option.toList_eq_singleton_iff.mp given]
        rfl
      case control w id known numeral =>
        obtain ⟨rfl, given⟩ := shown
        exact (ofVerb_control_eq_ok known).mpr
          ⟨w, id, Option.toList_eq_singleton_iff.mp given, numeral, rfl⟩
      case single known =>
        obtain ⟨rfl, _⟩ := shown
        exact ofVerb_single known
    · exact ofVerb_single alone

theorem ofVerb_ofList {a : List Char} : ofVerb (String.ofList a) argument = .ok r ↔
    Documented r (a :: argument.toList) ∨ ∃ v, (v, r) ∈ singles ∧ a = v.toList := by
  have named : (∃ v, (v, r) ∈ singles ∧ a = v.toList) ↔ (String.ofList a, r) ∈ singles := by
    constructor
    · rintro ⟨v, known, rfl⟩
      rwa [String.ofList_toList]
    · exact fun known => ⟨_, known, String.toList_ofList.symm⟩
  rw [ofVerb_eq_ok, String.toList_ofList, named]

theorem Documented.length (h : Documented r ws) : ws.length = 1 ∨ ws.length = 2 := by
  cases h with
  | start | control => exact .inr rfl
  | single => exact .inl rfl

theorem Documented.length_eq_one (h : Documented r ws) (known : (v, r) ∈ singles) :
    ws.length = 1 := by
  cases h with
  | start => simp [singles] at known
  | control control =>
    rcases mem_controls.mp control with ⟨_, rfl⟩ | ⟨_, rfl⟩ | ⟨_, rfl⟩ | ⟨_, rfl⟩ <;>
      simp [singles] at known
  | single => rfl

/-- A line is taken for a request exactly when it is written as one, save that a verb that stands
alone may be followed by one more word. -/
theorem parse_of_shows (h : Shows ws line.toList) : parse line = .ok r ↔
    Documented r ws ∨ ∃ v w, (v, r) ∈ singles ∧ ws = [v.toList, w] := by
  rw [parse, words_eq_iff.mpr h, mapError_eq_ok]
  match ws with
  | [] =>
    have unwritten : ¬Documented r [] := fun written => by simpa using written.length
    simp [unwritten]
  | [a] =>
    rw [ofVerb_ofList]
    constructor
    · rintro (written | ⟨v, known, rfl⟩)
      · exact .inl written
      · exact .inl (.single known)
    · rintro (written | ⟨_, _, _, none⟩)
      · exact .inl written
      · cases none
  | [a, b] =>
    rw [ofVerb_ofList]
    refine or_congr_right ⟨?_, ?_⟩
    · rintro ⟨v, known, rfl⟩
      exact ⟨v, b, known, rfl⟩
    · rintro ⟨v, w, known, same⟩
      cases same
      exact ⟨v, known, rfl⟩
  | a :: b :: c :: more =>
    have unwritten : ¬Documented r (a :: b :: c :: more) := fun written => by
      simpa using written.length
    simp [unwritten]

theorem parse_error (h : ∀ r, parse line ≠ .ok r) :
    ∃ fault, parse line = .error (.request fault) := by
  cases found : parse line with
  | ok r => exact absurd found (h r)
  | error e =>
    obtain ⟨fault, _, rfl⟩ := mapError_error found
    exact ⟨fault, rfl⟩

theorem parse_crowded (h : Shows ws line.toList) (crowded : 2 < ws.length) :
    ∃ v, parse line = .error (.request (.tooManyArguments v)) := by
  rw [parse, words_eq_iff.mpr h]
  match ws, crowded with
  | v :: _ :: _ :: _, _ => exact ⟨String.ofList v, rfl⟩

theorem isWord_verb (r : RequestLine) : IsWord r.verb.toList := by
  have words : ∀ v ∈ "start" :: controls.map Prod.fst ++ singles.map Prod.fst, IsWord v.toList := by
    decide
  exact words _ (by cases r <;> simp [verb, controls, singles])

theorem verb_control (known : (v, f) ∈ controls) (id : RunId) : (f id).verb = v := by
  rcases mem_controls.mp known with ⟨rfl, rfl⟩ | ⟨rfl, rfl⟩ | ⟨rfl, rfl⟩ | ⟨rfl, rfl⟩ <;> rfl

theorem isWord_control (known : (v, f) ∈ controls) : IsWord v.toList :=
  verb_control known ⟨0⟩ ▸ isWord_verb _

theorem control_injective (known : (v, f) ∈ controls) : Function.Injective f := by
  intro a b same
  rcases mem_controls.mp known with ⟨_, rfl⟩ | ⟨_, rfl⟩ | ⟨_, rfl⟩ | ⟨_, rfl⟩ <;> cases same <;> rfl

theorem isWord_toWords (h : ∀ file, r = .start file → IsWord file.toList) :
    ∀ w ∈ r.toWords, IsWord w := by
  refine List.forall_mem_cons.mpr ⟨isWord_verb r, ?_⟩
  cases r with
  | start file => exact List.forall_mem_singleton.mpr (h file rfl)
  | terminate id | stop id | resume id | state id =>
    exact List.forall_mem_singleton.mpr (isWord_decimalChars id.toNat)
  | list | collect | quit => exact nofun

section Spaced

variable (s : Spacing)

theorem shows_space (h : ∀ w ∈ ws, IsWord w) : Shows ws (String.ofList (s.space ws)).toList := by
  rw [String.toList_ofList]
  exact s.shows h

/-- A verb that takes a run id takes any numeral for one, and nothing else. -/
theorem parse_control (known : (v, f) ∈ controls) (visible : ∀ c ∈ w, ¬isBlank c) :
    parse (String.ofList (s.space [v.toList, w])) = .ok r ↔
      ∃ id : RunId, IsNumeral w id.toNat ∧ r = f id := by
  have verb := isWord_control known
  by_cases empty : w = []
  · subst empty
    have shown : words (s.space [v.toList, []]) = [v.toList] :=
      words_eq_iff.mpr (s.shows_single verb)
    have unnumbered : ∀ n, ¬IsNumeral [] n := by
      rintro n ⟨ds, rfl | none, some, _⟩
      · exact some rfl
      · cases none
    simp only [parse, String.toList_ofList, shown, mapError_eq_ok, String.ofList_toList,
      ofVerb_control_eq_ok known]
    simp [unnumbered]
  · have shown : words (s.space [v.toList, w]) = [v.toList, w] :=
      words_eq_iff.mpr (s.shows (by simpa using ⟨verb, empty, visible⟩))
    simp only [parse, String.toList_ofList, shown, mapError_eq_ok, String.ofList_toList,
      ofVerb_control_eq_ok known]
    simp

theorem parse_control_iff (known : (v, f) ∈ controls) (visible : ∀ c ∈ w, ¬isBlank c) :
    (∃ id : RunId, id.toNat = n ∧ parse (String.ofList (s.space [v.toList, w])) = .ok (f id)) ↔
      IsNumeral w n ∧ n ≤ 2 ^ 32 - 1 := by
  simp only [parse_control s known visible]
  constructor
  · rintro ⟨id, rfl, id', numeral, same⟩
    cases control_injective known same
    exact ⟨numeral, Nat.le_sub_one_of_lt id.val.toNat_lt⟩
  · rintro ⟨numeral, small⟩
    have same : (UInt32.ofNat n).toNat = n :=
      UInt32.toNat_ofNat_of_lt' (Nat.lt_of_le_sub_one (by decide) small)
    have read : IsNumeral w (RunId.toNat ⟨UInt32.ofNat n⟩) := by rwa [RunId.toNat, same]
    exact ⟨⟨UInt32.ofNat n⟩, same, _, read, rfl⟩

theorem parse_control_error (known : (v, f) ∈ controls) (visible : ∀ c ∈ w, ¬isBlank c)
    (stray : ¬∃ n, IsNumeral w n ∧ n ≤ 2 ^ 32 - 1) :
    ∃ fault, parse (String.ofList (s.space [v.toList, w])) = .error (.request fault) := by
  refine parse_error fun r accepted => ?_
  obtain ⟨id, numeral, rfl⟩ := (parse_control s known visible).mp accepted
  exact stray ⟨_, (parse_control_iff s known visible).mp ⟨id, rfl, accepted⟩⟩

theorem parse_toWords (h : ∀ file, r = .start file → IsWord file.toList) :
    parse (String.ofList (s.space r.toWords)) = .ok r :=
  (parse_of_shows (shows_space s (isWord_toWords h))).mpr (.inl (documented_toWords r))

end Spaced

theorem parse_uncounted (h : Shows ws line.toList) (count : ws = [] ∨ 3 ≤ ws.length) :
    ∃ fault, parse line = .error (.request fault) := by
  rcases count with rfl | crowded
  · refine parse_error fun r accepted => ?_
    rcases (parse_of_shows h).mp accepted with written | ⟨_, _, _, none⟩
    · simpa using written.length
    · cases none
  · obtain ⟨v, refused⟩ := parse_crowded h crowded
    exact ⟨_, refused⟩

/-- Requests are read as they were meant, whatever the white space and the spelling of run ids. -/
theorem parse_space :
    (∀ v f, (v, f) ∈ controls → ∀ (s : Spacing) (w : List Char), (∀ c ∈ w, ¬isBlank c) →
      (∀ n, (∃ id : RunId, id.toNat = n ∧
          parse (String.ofList (s.space [v.toList, w])) = .ok (f id)) ↔
        IsNumeral w n ∧ n ≤ 2 ^ 32 - 1) ∧
      ((¬∃ n, IsNumeral w n ∧ n ≤ 2 ^ 32 - 1) →
        ∃ fault, parse (String.ofList (s.space [v.toList, w])) = .error (.request fault))) ∧
    (∀ (s : Spacing) (file : List Char), IsWord file →
      parse (String.ofList (s.space ["start".toList, file])) =
        .ok (start (String.ofList file))) ∧
    (∀ line ws, Shows ws line.toList → ws = [] ∨ 3 ≤ ws.length →
      ∃ fault, parse line = .error (.request fault)) ∧
    ∀ (s : Spacing) (r : RequestLine), (∀ file, r = start file → IsWord file.toList) →
      parse (String.ofList (s.space r.toWords)) = .ok r := by
  refine ⟨fun v f known s w visible => ⟨fun n => parse_control_iff s known visible,
      parse_control_error s known visible⟩, fun s file word => ?_,
    fun line ws => parse_uncounted, fun s r => parse_toWords s⟩
  have words : ∀ w ∈ ["start".toList, file], IsWord w := by
    simpa using ⟨isWord_verb (start ""), word⟩
  exact (parse_of_shows (shows_space s words)).mpr (.inl (.start file))

def wide : Spacing where
  before := ['\u00a0']
  between := ['\u2028', '\t']
  after := ['\u3000']
  before_gap := by decide
  between_gap := by decide
  after_gap := by decide
  between_ne_nil := by decide

theorem parse_space_wide :
    String.ofList (wide.space ["continue".toList, "+004294967295".toList]) =
      "\u00a0continue\u2028\t+004294967295\u3000" ∧
    (∃ id : RunId, id.toNat = 4294967295 ∧
      parse (String.ofList (wide.space ["continue".toList, "+004294967295".toList])) =
        .ok (resume id)) ∧
    parse (String.ofList (wide.space ["start".toList, "7".toList])) = .ok (start "7") ∧
    (∃ fault, parse "stop 1 2" = .error (.request fault)) ∧
    parse (String.ofList (wide.space (state ⟨7⟩).toWords)) = .ok (state ⟨7⟩) := by
  obtain ⟨controlled, started, uncounted, written⟩ := parse_space
  have numeral : IsNumeral "+004294967295".toList 4294967295 :=
    ⟨"004294967295".toList, .inr rfl, decimal?_eq_some.mp (by decide)⟩
  have word : IsWord "+004294967295".toList := by decide
  have crowded : Shows ["stop".toList, "1".toList, "2".toList] "stop 1 2".toList :=
    words_eq_iff.mp (by decide)
  exact ⟨by decide,
    ((controlled "continue" resume (by simp [controls]) wide _ word.visible).1 _).mpr
      ⟨numeral, by decide⟩,
    started wide _ (by decide), uncounted _ _ crowded (.inr (by decide)), written wide _ nofun⟩

/-- Behind a complete request a further word is an error, unless it is the only one behind a verb
that stands alone: then it is ignored. -/
theorem surplus_of_shows (h : Shows ws line.toList) :
    (∀ r, parse line = .ok r ↔
      Documented r ws ∨ ∃ v w, (v, r) ∈ singles ∧ ws = [v.toList, w]) ∧
    ∀ r complete surplus, Documented r complete → surplus ≠ [] → ws = complete ++ surplus →
      (∃ fault, parse line = .error (.request fault)) ∨
        (∃ v w, (v, r) ∈ singles ∧ complete = [v.toList] ∧ surplus = [w]) ∧ parse line = .ok r := by
  refine ⟨fun r => parse_of_shows h, ?_⟩
  rintro r complete surplus written more rfl
  by_cases crowded : 2 < (complete ++ surplus).length
  · exact .inl (parse_uncounted h (.inr crowded))
  · have few : complete.length = 1 ∧ surplus.length = 1 := by
      have present := List.length_pos_iff.mpr more
      have size := written.length
      rw [List.length_append] at crowded
      omega
    obtain ⟨w, rfl⟩ := List.length_eq_one_iff.mp few.2
    cases written with
    | start | control => simp at few
    | @single v r known =>
      exact .inr ⟨⟨v, w, known, rfl, rfl⟩, (parse_of_shows h).mpr (.inr ⟨v, w, known, rfl⟩)⟩

theorem surplus_collect :
    parse "\u00a0collect\u2028now " = .ok collect ∧
      ∃ fault, parse "state 3 now" = .error (.request fault) := by
  have single : Shows ["collect".toList, "now".toList] "\u00a0collect\u2028now ".toList :=
    words_eq_iff.mp (by decide)
  have crowded : Shows ["state".toList, "3".toList, "now".toList] "state 3 now".toList :=
    words_eq_iff.mp (by decide)
  refine ⟨((surplus_of_shows single).1 collect).mpr
    (.inr ⟨"collect", "now".toList, by simp [singles], rfl⟩), ?_⟩
  rcases (surplus_of_shows crowded).2 _ _ _ (documented_toWords (state ⟨3⟩))
    (List.cons_ne_nil "now".toList []) rfl with refused | ⟨⟨_, _, _, none, _⟩, _⟩
  · exact refused
  · exact absurd (congrArg List.length none) (Nat.succ_succ_ne_one 0)

/-- A word behind a verb that stands alone belongs to no form of the request. -/
theorem list_surplus : parse "list x" = .ok list ∧
    Shows ["list".toList, "x".toList] "list x".toList ∧
    ¬Documented list ["list".toList, "x".toList] :=
  ⟨by decide, words_eq_iff.mp (by decide), fun written => by
    simpa using written.length_eq_one (v := "list") (by simp [singles])⟩

end RequestLine
end AppSupervisor
