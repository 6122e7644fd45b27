import AppSupervisor.Manifest

namespace AppSupervisor

namespace Json

def at? (v : Json) : List String → Option Json
  | [] => some v
  | key :: path => (v.get? key).bind (·.at? path)

theorem members?_eq_some {v : Json} {ms : List (String × Json)} :
    v.members? = some ms ↔ v = .object ms := by
  cases v <;> simp [members?]

theorem string?_eq_some {v : Json} {s : String} : v.string? = some s ↔ v = .string s := by
  cases v <;> simp [string?]

theorem mapM_string?_eq_some {vs : List Json} {ss : List String} :
    vs.mapM string? = some ss ↔ vs = ss.map string := by
  induction vs generalizing ss with
  | nil => cases ss <;> simp
  | cons v vs ih =>
    cases ss <;> simp [List.mapM_cons, Option.bind_eq_some_iff, string?_eq_some, ih]

theorem all_string_iff {vs : List Json} :
    vs.all (· matches .string _) ↔ ∃ ss : List String, vs = ss.map string := by
  constructor
  · intro h
    induction vs with
    | nil => exact ⟨[], rfl⟩
    | cons v vs ih =>
      obtain ⟨str, rest⟩ := Bool.and_eq_true_iff.mp h
      obtain ⟨ss, rfl⟩ := ih rest
      cases v with
      | string s => exact ⟨s :: ss, rfl⟩
      | _ => cases str
  · rintro ⟨ss, rfl⟩
    simp

end Json

namespace Manifest

/-- An object whose public member is an object with that string as its id. -/
def HasId (v : Json) (id : String) : Prop :=
  ∃ app shown, v = .object app ∧ app.lookup "public" = some (.object shown) ∧
    shown.lookup "id" = some (.string id)

theorem public?_eq_some {v : Json} {shown : List (String × Json)} :
    public? v = some shown ↔
      ∃ app, v = .object app ∧ app.lookup "public" = some (.object shown) := by
  simp only [public?, Json.get?, Option.bind_eq_some_iff, Json.members?_eq_some]
  constructor
  · rintro ⟨_, ⟨app, rfl, found⟩, rfl⟩
    exact ⟨app, rfl, found⟩
  · rintro ⟨app, rfl, found⟩
    exact ⟨_, ⟨app, rfl, found⟩, rfl⟩

theorem ofValue_eq_ok {v : Json} {m : Manifest} :
    ofValue v = .ok m ↔ m.value = v ∧ HasId v m.appId := by
  have named : ∀ id, ((public? v).bind fun ms => (ms.lookup "id").bind Json.string?) = some id ↔
      HasId v id := by
    intro id
    simp only [Option.bind_eq_some_iff, public?_eq_some, Json.string?_eq_some, HasId]
    constructor
    · rintro ⟨shown, ⟨app, h, found⟩, _, known, rfl⟩
      exact ⟨app, shown, h, found, known⟩
    · rintro ⟨app, shown, h, found, known⟩
      exact ⟨shown, ⟨app, h, found⟩, _, known, rfl⟩
  unfold ofValue
  split
  next id known =>
    rw [Except.ok.injEq]
    constructor
    · rintro rfl
      exact ⟨rfl, (named id).mp known⟩
    · rintro ⟨rfl, h⟩
      have same : id = m.appId := Option.some.inj (known.symm.trans ((named _).mpr h))
      rw [same]
  next unknown =>
    refine ⟨fun h => (nomatch h), fun ⟨_, h⟩ => ?_⟩
    rw [(named _).mpr h] at unknown
    cases unknown

theorem HasId.ofValue_eq {v : Json} {id : String} (h : HasId v id) : ofValue v = .ok ⟨v, id⟩ :=
  ofValue_eq_ok.mpr ⟨rfl, h⟩

theorem ofValue_eq_error {v : Json} {e : Error} (h : ofValue v = .error e) :
    e = .invalid .manifestWithoutId := by
  unfold ofValue at h
  split at h
  next => cases h
  next =>
    cases h
    rfl

end Manifest

namespace LaunchDesc

inductive Kind
  | text | integer | texts
  deriving DecidableEq, Repr

namespace Kind

/-- Whether a field of the kind may have the value: an integer has neither a fraction nor an
exponent, and 32 bits hold it. -/
def fits : Kind → Json → Bool
  | text, .string _ => true
  | integer, .number (.int n) => -2147483648 ≤ n ∧ n ≤ 2147483647
  | texts, .array vs => vs.all (· matches .string _)
  | _, _ => false

def fault (key : String) : Kind → Option Json → InvalidArgument
  | text, _ => .notString key
  | integer, _ => .notInteger key
  | texts, some (.array _) => .pluginsNotStrings
  | texts, _ => .pluginsNotArray

def demand : Kind → Option Json → String
  | text, _ => "a string"
  | integer, _ => "an integer"
  | texts, some (.array _) => "strings"
  | texts, _ => "an array"

/-- What is read of a value: that which it stands for, if it fits. -/
inductive Reads {α : Type} (k : Kind) (key : String) (given : Option Json) (write : α → Json) :
    Except InvalidArgument α → Prop
  | fits (a : α) (carried : given = some (write a)) (fit : given.any k.fits) :
      Reads k key given write (.ok a)
  | unfit (unfit : given.any k.fits = false) : Reads k key given write (.error (k.fault key given))

variable {ms : List (String × Json)} {key : String}

theorem reads_text : text.Reads key (ms.lookup key) .string (requireString ms key) := by
  unfold requireString
  cases ms.lookup key with
  | none => exact .unfit rfl
  | some v =>
    cases v with
    | string s => exact .fits s rfl rfl
    | _ => exact .unfit rfl

theorem reads_integer :
    integer.Reads key (ms.lookup key) (fun n : Int32 => .ofInt n.toInt) (requireInt ms key) := by
  unfold requireInt
  cases ms.lookup key with
  | none => exact .unfit rfl
  | some v =>
    rcases v with _ | _ | (n | _) | _ | _ | _
    case number.int =>
      simp only [Option.bind_some, Json.int?]
      split
      next range =>
        have same : (Int32.ofInt n).toInt = n :=
          Int32.toInt_ofInt_of_le range.1 (Int.lt_add_one_of_le range.2)
        refine .fits _ ?_ (decide_eq_true range)
        rw [same]
        rfl
      next range => exact .unfit (decide_eq_false range)
    all_goals exact .unfit rfl

theorem reads_texts :
    texts.Reads "plugins" ((ms.lookup "plugins").or (some (.array []))) .ofTexts
      (requirePlugins ms) := by
  unfold requirePlugins
  cases ms.lookup "plugins" with
  | none => exact .fits [] rfl rfl
  | some v =>
    cases v with
    | array vs =>
      simp only [Option.or_some, Option.getD_some]
      split
      next ss read =>
        cases Json.mapM_string?_eq_some.mp read
        exact .fits ss rfl (by simp [fits])
      next unread =>
        refine .unfit (Bool.eq_false_iff.mpr fun fit => ?_)
        obtain ⟨ss, strings⟩ := Json.all_string_iff.mp fit
        rw [Json.mapM_string?_eq_some.mpr strings] at unread
        cases unread
    | _ => exact .unfit rfl

end Kind

inductive Field
  | plugins | path | tag | content | contentType | name | width | height
  deriving DecidableEq, Repr

namespace Field

def all : List Field := [plugins, path, tag, content, contentType, name, width, height]

def key : Field → String
  | plugins => "plugins"
  | path => "path"
  | tag => "id"
  | content => "content"
  | contentType => "type"
  | name => "name"
  | width => "width"
  | height => "height"

def kind : Field → Kind
  | plugins => .texts
  | width | height => .integer
  | _ => .text

def location : Field → List String
  | f@name | f@width | f@height => ["public", f.key]
  | f => [f.key]

def default? : Field → Option Json
  | plugins => some (.array [])
  | _ => none

def given? (f : Field) (v : Json) : Option Json := (v.at? f.location).or f.default?

def fits (f : Field) (v : Json) : Bool := (f.given? v).any f.kind.fits

def fault (f : Field) (v : Json) : InvalidArgument := f.kind.fault f.key (f.given? v)

def toJson (d : LaunchDesc) : Field → Json
  | plugins => .ofTexts d.plugins
  | path => .string d.path
  | tag => .string d.tag
  | content => .string d.content
  | contentType => .string d.contentType
  | name => .string d.name
  | width => .ofInt d.width.toInt
  | height => .ofInt d.height.toInt

theorem default?_of_kind {f : Field} (h : f.kind ≠ .texts) : f.default? = none := by
  cases f
  case plugins => exact absurd rfl h
  all_goals rfl

variable {app shown : List (String × Json)}

theorem given?_top {f : Field} (h : f.location = [f.key]) :
    f.given? (.object app) = (app.lookup f.key).or f.default? := by
  simp only [given?, h, Json.at?, Json.get?, Json.members?, Option.bind_some,
    Option.bind_fun_some]

theorem given?_shown {f : Field} (h : f.location = ["public", f.key])
    (found : app.lookup "public" = some (.object shown)) :
    f.given? (.object app) = (shown.lookup f.key).or f.default? := by
  simp only [given?, h, found, Json.at?, Json.get?, Json.members?, Option.bind_some,
    Option.bind_fun_some]

theorem message_fault (f : Field) (v : Json) :
    (f.fault v).message = f.key ++ " must be " ++ f.kind.demand (f.given? v) := by
  unfold fault
  cases f
  case plugins => rcases given? plugins v with _ | (_ | _ | _ | _ | _ | _) <;> rfl
  all_goals rfl

theorem fits_toJson (f : Field) (d : LaunchDesc) : f.kind.fits (f.toJson d) := by
  cases f
  case plugins => simp [kind, Kind.fits, toJson, Json.ofTexts]
  case width => exact decide_eq_true ⟨d.width.le_toInt, Int.le_of_lt_add_one d.width.toInt_lt⟩
  case height => exact decide_eq_true ⟨d.height.le_toInt, Int.le_of_lt_add_one d.height.toInt_lt⟩
  all_goals rfl

theorem fits_of_given {f : Field} {v : Json} {d : LaunchDesc} (h : f.given? v = some (f.toJson d)) :
    f.fits v := by
  simp only [fits, h, Option.any_some, f.fits_toJson d]

theorem unfit_of_find {fs : List Field} {v : Json} {f : Field}
    (h : fs.find? (!·.fits v) = some f) : ¬f.fits v := by
  simpa using List.find?_some h

theorem fault_ne (f : Field) (v : Json) :
    f.fault v ≠ .manifestNotObject ∧ f.fault v ≠ .manifestWithoutPublic := by
  unfold fault Kind.fault
  split <;> simp

end Field

theorem eq_of_toJson {d e : LaunchDesc} (here : d.home = e.home)
    (same : ∀ f : Field, f.toJson d = f.toJson e) : d = e := by
  have strings {ss ts : List String} (h : Json.ofTexts ss = .ofTexts ts) : ss = ts :=
    (List.map_inj_right fun _ _ => Json.string.inj).mp (Json.array.inj h)
  have integers {n k : Int32} (h : Json.ofInt n.toInt = .ofInt k.toInt) : n = k :=
    Int32.toInt_inj.mp (Json.Number.int.inj (Json.number.inj h))
  cases d
  cases e
  cases here
  cases strings (same .plugins)
  cases Json.string.inj (same .path)
  cases Json.string.inj (same .tag)
  cases Json.string.inj (same .content)
  cases Json.string.inj (same .contentType)
  cases Json.string.inj (same .name)
  cases integers (same .width)
  cases integers (same .height)
  rfl

/-- What becomes of a launch for which some fields are still to be read. -/
inductive Outcome (v : Json) (home : String) :
    List Field → Except InvalidArgument LaunchDesc → Prop
  | described {fs : List Field} (d : LaunchDesc) (here : d.home = home)
      (carried : ∀ f : Field, f.given? v = some (f.toJson d)) : Outcome v home fs (.ok d)
  | refused {fs : List Field} (f : Field) (first : fs.find? (!·.fits v) = some f) :
      Outcome v home fs (.error (f.fault v))

namespace Outcome

variable {v : Json} {home : String} {fs : List Field}

theorem cons {f : Field} {x : Except InvalidArgument LaunchDesc} (fit : f.fits v)
    (o : Outcome v home fs x) : Outcome v home (f :: fs) x := by
  cases o with
  | described d here carried => exact .described d here carried
  | refused g first =>
    refine .refused g (first ▸ List.find?_cons_of_neg ?_)
    rw [fit]
    decide

theorem bind {α : Type} (f : Field) (write : α → Json) {r : Except InvalidArgument α}
    {k : α → Except InvalidArgument LaunchDesc}
    (reads : f.kind.Reads f.key (f.given? v) write r)
    (rest : ∀ a, f.given? v = some (write a) → Outcome v home fs (k a)) :
    Outcome v home (f :: fs) (r >>= k) := by
  cases reads with
  | unfit unfit =>
    refine .refused f (List.find?_cons_of_pos ?_)
    rw [Field.fits, unfit]
    decide
  | fits a carried fit => exact (rest a carried).cons fit

theorem bind_text (f : Field) {ms : List (String × Json)} {k : String → Except _ LaunchDesc}
    (text : f.kind = .text) (h : f.given? v = (ms.lookup f.key).or f.default?)
    (rest : ∀ s, f.given? v = some (.string s) → Outcome v home fs (k s)) :
    Outcome v home (f :: fs) (requireString ms f.key >>= k) := by
  refine bind f .string ?_ rest
  rw [h, text, Field.default?_of_kind (by rw [text]; decide), Option.or_none]
  exact Kind.reads_text

theorem bind_integer (f : Field) {ms : List (String × Json)} {k : Int32 → Except _ LaunchDesc}
    (integer : f.kind = .integer) (h : f.given? v = (ms.lookup f.key).or f.default?)
    (rest : ∀ n : Int32, f.given? v = some (.ofInt n.toInt) → Outcome v home fs (k n)) :
    Outcome v home (f :: fs) (requireInt ms f.key >>= k) := by
  refine bind f (fun n => .ofInt n.toInt) ?_ rest
  rw [h, integer, Field.default?_of_kind (by rw [integer]; decide), Option.or_none]
  exact Kind.reads_integer

theorem eq_ok_iff {x : Except InvalidArgument LaunchDesc} {d : LaunchDesc}
    (o : Outcome v home fs x) :
    x = .ok d ↔ d.home = home ∧ ∀ f : Field, f.given? v = some (f.toJson d) := by
  cases o with
  | described e here carried =>
    constructor
    · rintro ⟨⟩
      exact ⟨here, carried⟩
    · rintro ⟨here', carried'⟩
      have same : ∀ f : Field, f.toJson e = f.toJson d := fun f =>
        Option.some.inj ((carried f).symm.trans (carried' f))
      rw [eq_of_toJson (here.trans here'.symm) same]
  | refused f first =>
    refine ⟨fun h => (nomatch h), fun ⟨_, carried⟩ => ?_⟩
    exact absurd (Field.fits_of_given (carried f)) (Field.unfit_of_find first)

theorem eq_error_iff {x : Except InvalidArgument LaunchDesc} {e : InvalidArgument}
    (o : Outcome v home fs x) :
    x = .error e ↔ ∃ f, fs.find? (!·.fits v) = some f ∧ e = f.fault v := by
  cases o with
  | described d here carried =>
    refine ⟨fun h => (nomatch h), fun ⟨f, first, _⟩ => ?_⟩
    exact absurd (Field.fits_of_given (carried f)) (Field.unfit_of_find first)
  | refused f first =>
    constructor
    · rintro ⟨⟩
      exact ⟨f, first, rfl⟩
    · rintro ⟨g, first', rfl⟩
      cases Option.some.inj (first.symm.trans first')
      rfl

end Outcome

theorem outcome_ofManifest {m : Manifest} {home : String} {shown : List (String × Json)}
    (shows : Manifest.public? m.value = some shown) :
    Outcome m.value home Field.all (ofManifest m home) := by
  obtain ⟨v, appId⟩ := m
  obtain ⟨app, rfl, found⟩ := Manifest.public?_eq_some.mp shows
  simp only [ofManifest, shows, Json.members?]
  -- Each step settles the launch or leaves what the field stands for.
  refine .bind .plugins .ofTexts ?_ fun plugins h₁ => ?_
  · rw [Field.given?_top rfl]
    exact Kind.reads_texts
  refine .bind_text .path rfl (Field.given?_top rfl) fun path h₂ => ?_
  refine .bind_text .tag rfl (Field.given?_top rfl) fun tag h₃ => ?_
  refine .bind_text .content rfl (Field.given?_top rfl) fun content h₄ => ?_
  refine .bind_text .contentType rfl (Field.given?_top rfl) fun contentType h₅ => ?_
  refine .bind_text .name rfl (Field.given?_shown rfl found) fun name h₆ => ?_
  refine .bind_integer .width rfl (Field.given?_shown rfl found) fun width h₇ => ?_
  refine .bind_integer .height rfl (Field.given?_shown rfl found) fun height h₈ => ?_
  refine .described _ rfl fun f => ?_
  cases f
  case plugins => exact h₁
  case path => exact h₂
  case tag => exact h₃
  case content => exact h₄
  case contentType => exact h₅
  case name => exact h₆
  case width => exact h₇
  case height => exact h₈

theorem given_of_ofManifest {m : Manifest} {home : String} {d : LaunchDesc}
    (h : ofManifest m home = .ok d) (f : Field) : f.given? m.value = some (f.toJson d) := by
  cases shows : Manifest.public? m.value with
  | none =>
    rw [ofManifest, shows] at h
    cases ms : m.value.members? <;> rw [ms] at h <;> cases h
  | some shown => exact ((outcome_ofManifest shows).eq_ok_iff.mp h).2 f

theorem tag_of_ofManifest {m : Manifest} {home : String} {d : LaunchDesc}
    (h : ofManifest m home = .ok d) : (m.value.get? "id").bind Json.string? = some d.tag := by
  have given : m.value.get? "id" = some (.string d.tag) := by
    simpa [Field.given?, Field.default?, Field.location, Field.key, Json.at?, Field.toJson] using
      given_of_ofManifest h .tag
  rw [given]
  rfl

/-- What the descriptor of a manifest takes, and what is made of it. -/
structure Exact (m : Manifest) (home : String) : Prop where
  possible : (∃ d, ofManifest m home = .ok d) ↔ ∀ f : Field, f.fits m.value
  described : ∀ d, ofManifest m home = .ok d ↔
    d.home = home ∧ ∀ f : Field, f.given? m.value = some (f.toJson d)
  /-- The first field that does not fit is the one that is named. -/
  refused : ∀ e, ofManifest m home = .error e ↔
    ∃ f, Field.all.find? (!·.fits m.value) = some f ∧ e = f.fault m.value
  told : ∀ f : Field, (f.fault m.value).message =
    f.key ++ " must be " ++ f.kind.demand (f.given? m.value)
  readable : ofManifest m home ≠ .error .manifestNotObject ∧
    ofManifest m home ≠ .error .manifestWithoutPublic

theorem exact_of_public? {m : Manifest} {home : String} {shown : List (String × Json)}
    (shows : Manifest.public? m.value = some shown) : Exact m home := by
  have outcome : Outcome m.value home Field.all (ofManifest m home) := outcome_ofManifest shows
  refine ⟨⟨?_, fun fits => ?_⟩, fun d => outcome.eq_ok_iff, fun e => outcome.eq_error_iff,
    fun f => f.message_fault m.value, ?_⟩
  · rintro ⟨d, h⟩ f
    exact Field.fits_of_given ((outcome.eq_ok_iff.mp h).2 f)
  · cases h : ofManifest m home with
    | ok d => exact ⟨d, rfl⟩
    | error e =>
      obtain ⟨f, first, _⟩ := outcome.eq_error_iff.mp h
      exact absurd (fits f) (Field.unfit_of_find first)
  · refine ⟨fun h => ?_, fun h => ?_⟩
    all_goals obtain ⟨f, _, same⟩ := outcome.eq_error_iff.mp h
    · exact (f.fault_ne m.value).1 same.symm
    · exact (f.fault_ne m.value).2 same.symm

end LaunchDesc

namespace Manifest

open LaunchDesc (Field)

structure Agree (v w : Json) : Prop where
  id : v.at? ["public", "id"] = w.at? ["public", "id"]
  fields : ∀ f : Field, v.at? f.location = w.at? f.location

theorem hasId_iff_at? {v : Json} {id : String} :
    HasId v id ↔ v.at? ["public", "id"] = some (.string id) := by
  simp only [Json.at?, Json.get?, Option.bind_eq_some_iff, Json.members?_eq_some, HasId]
  constructor
  · rintro ⟨app, shown, rfl, found, known⟩
    exact ⟨_, ⟨app, rfl, found⟩, _, ⟨shown, rfl, known⟩, rfl⟩
  · rintro ⟨_, ⟨app, rfl, found⟩, _, ⟨shown, rfl, known⟩, ⟨⟩⟩
    exact ⟨app, shown, rfl, found, known⟩

theorem exact_of_ofValue {v : Json} {m : Manifest} {home : String} (h : ofValue v = .ok m) :
    LaunchDesc.Exact m home := by
  obtain ⟨rfl, app, shown, value, found, _⟩ := ofValue_eq_ok.mp h
  exact LaunchDesc.exact_of_public? (public?_eq_some.mpr ⟨app, value, found⟩)

/-- A value is what its id and its fields make of it. -/
structure Exact (v : Json) (home : String) : Prop where
  accepted : ∀ m, ofValue v = .ok m ↔ m.value = v ∧ HasId v m.appId
  rejected : ∀ e, ofValue v = .error e → e = .invalid .manifestWithoutId
  launched : ∀ m, ofValue v = .ok m → LaunchDesc.Exact m home
  alike : ∀ w, Agree v w → (ofValue v).map (·.appId) = (ofValue w).map (·.appId) ∧
    ∀ m n, ofValue v = .ok m → ofValue w = .ok n →
      LaunchDesc.ofManifest m home = LaunchDesc.ofManifest n home

theorem Agree.map_ofValue {v w : Json} (h : Agree v w) :
    (ofValue v).map (·.appId) = (ofValue w).map (·.appId) := by
  have same : ∀ id, HasId v id ↔ HasId w id := by
    simp only [hasId_iff_at?, h.id, implies_true]
  cases hv : ofValue v with
  | ok m =>
    have named : HasId w m.appId := (same _).mp (ofValue_eq_ok.mp hv).2
    rw [named.ofValue_eq]
    rfl
  | error e =>
    cases hw : ofValue w with
    | ok n =>
      have named : HasId v n.appId := (same _).mpr (ofValue_eq_ok.mp hw).2
      rw [named.ofValue_eq] at hv
      cases hv
    | error e' => rw [ofValue_eq_error hv, ofValue_eq_error hw]

theorem Agree.ofManifest_eq {v w : Json} {m n : Manifest} {home : String} (h : Agree v w)
    (hm : ofValue v = .ok m) (hn : ofValue w = .ok n) :
    LaunchDesc.ofManifest m home = LaunchDesc.ofManifest n home := by
  have em : LaunchDesc.Exact m home := exact_of_ofValue hm
  have en : LaunchDesc.Exact n home := exact_of_ofValue hn
  have given : ∀ f : Field, f.given? m.value = f.given? n.value := by
    intro f
    rw [(ofValue_eq_ok.mp hm).1, (ofValue_eq_ok.mp hn).1, Field.given?, Field.given?, h.fields]
  cases hd : LaunchDesc.ofManifest n home with
  | ok d =>
    obtain ⟨here, carried⟩ := (en.described d).mp hd
    exact (em.described d).mpr ⟨here, fun f => (given f).trans (carried f)⟩
  | error e =>
    obtain ⟨f, first, rfl⟩ := (en.refused e).mp hd
    refine (em.refused _).mpr ⟨f, ?_, ?_⟩
    · simpa only [Field.fits, given] using first
    · simp only [Field.fault, given]

theorem exact_ofValue (v : Json) (home : String) : Exact v home :=
  ⟨fun _ => ofValue_eq_ok, fun _ => ofValue_eq_error, fun _ => exact_of_ofValue,
    fun _ h => ⟨h.map_ofValue, fun _ _ => h.ofManifest_eq⟩⟩

/-- Its content is missing, its name is null, and neither its width nor its height is an integer
of 32 bits. -/
def damaged : Json := .object [
  ("id", .string "clock@0.1"), ("path", .string "/opt/clock"), ("type", .ofInt 4),
  ("plugins", .ofTexts ["audio", "gps"]),
  ("public", .object [("id", .string "clock@0.1"), ("name", .null),
    ("width", .ofInt 2147483648), ("height", .number (.decimal false 480 0))])]

theorem refused_damaged :
    ofValue damaged = .ok ⟨damaged, "clock@0.1"⟩ ∧
      LaunchDesc.ofManifest ⟨damaged, "clock@0.1"⟩ "/home" = .error (.notString "content") ∧
      (InvalidArgument.notString "content").message = "content must be a string" := by
  have read : ofValue damaged = .ok ⟨damaged, "clock@0.1"⟩ := rfl
  have exact := (exact_ofValue damaged "/home").launched _ read
  exact ⟨read, (exact.refused _).mpr ⟨.content, rfl, rfl⟩, exact.told .content⟩

end Manifest
end AppSupervisor
