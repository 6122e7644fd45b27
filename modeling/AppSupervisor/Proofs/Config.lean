import AppSupervisor.Launcher
import AppSupervisor.Proofs.Except
import AppSupervisor.Proofs.Registry.Admission

namespace AppSupervisor

namespace Config

theorem find?_templates_eq_none_iff {templates : Templates} :
    templates.toList.find? (·.2.isEmpty) = none ↔
      ∀ contentType : String, templates[contentType]? ≠ some [] := by
  rw [List.find?_eq_none]
  constructor
  · intro h contentType found
    exact h (contentType, []) (Std.ExtTreeMap.mem_toList_iff_getElem?_eq_some.mpr found) rfl
  · rintro h ⟨contentType, template⟩ mem empty
    cases List.isEmpty_iff.mp empty
    exact h contentType (Std.ExtTreeMap.mem_toList_iff_getElem?_eq_some.mp mem)

theorem validate_of_not_admits {c : Config}
    (h : ¬Registry.Admits c.capacity c.maxRunId c.buckets) : ∃ a, c.validate = .error a := by
  unfold validate
  split
  next => exact ⟨_, rfl⟩
  next links =>
    split
    next => exact ⟨_, rfl⟩
    next room =>
      split
      next => exact ⟨_, rfl⟩
      next power =>
        exact absurd (Registry.admits_iff.mpr ⟨by simpa using links, room, by simpa using power⟩) h

theorem validate_eq_ok_iff {c : Config} : c.validate = .ok () ↔
    Registry.Admits c.capacity c.maxRunId c.buckets ∧
      (∀ home, c.home = some home → isAbsolutePath home) ∧
      ∀ contentType : String, c.launch[contentType]? ≠ some [] := by
  have absolute : c.home.filter (!isAbsolutePath ·) = none ↔
      ∀ home, c.home = some home → isAbsolutePath home := by
    simp [Option.filter_eq_none_iff]
  rw [← absolute, ← find?_templates_eq_none_iff]
  by_cases h : Registry.Admits c.capacity c.maxRunId c.buckets
  · obtain ⟨links, room, power⟩ := Registry.admits_iff.mp h
    simp only [validate, links, room, power, Bool.not_true, Bool.false_eq_true, if_false]
    split
    next relative => simp [relative]
    next empty => simp [empty]
    next absolute full => simp [h, absolute, full]
  · obtain ⟨a, rejected⟩ := validate_of_not_admits h
    simp [h, rejected]

theorem validate_of_ofJson {text : String} {c : Config} (h : ofJson text = .ok c) :
    c.validate = .ok () := by
  obtain ⟨c', _, h⟩ := exists_of_bind h
  obtain ⟨_, valid, h⟩ := exists_of_bind h
  cases h
  exact mapError_eq_ok.mp valid

/-- What is relied on of a configuration that was accepted: what may still fail, and why. -/
structure Reliable (c : Config) : Prop where
  registry : Registry.ofConfig c =
    if Registry.isReservable c.buckets then
      .ok (.empty c.capacity.toNat c.maxRunId c.buckets.toNat)
    else .error .outOfMemory
  supervisor : ∀ {σ : Type} (a : Account) (makeHome : String → Except IoFault σ) (e : Error),
    Supervisor.create c a makeHome = .error e →
      (c.home = none ∧ a.home = .error e) ∨
      (∃ home fault, c.appHome a = .ok home ∧ makeHome home = .error fault ∧ e = .io fault) ∨
      (¬Registry.isReservable c.buckets ∧ e = .outOfMemory)
  argv : ∀ d : LaunchDesc,
    (c.launch[d.contentType]? = none ∧ d.argv c.launch = .error (.unknownType d.contentType)) ∨
    ∃ program arguments, c.launch[d.contentType]? = some (program :: arguments) ∧
      d.argv c.launch = .ok (d.fillIn program :: arguments.map d.fillIn)
  launch : ∀ {σ : Type} (spawner : Spawner σ) (d : LaunchDesc) (w : σ) (e : Error),
    ((spawner.launcher c.launch).launch d w).1 = .error e →
      (c.launch[d.contentType]? = none ∧ e = .invalid (.unknownType d.contentType)) ∨
      ∃ invocation fault, d.invocation c.launch = .ok invocation ∧
        (spawner.spawn invocation w).1 = .error fault ∧ e = .io fault

theorem ofConfig_of_validate {c : Config} (h : c.validate = .ok ()) :
    Registry.ofConfig c =
      if Registry.isReservable c.buckets then
        .ok (.empty c.capacity.toNat c.maxRunId c.buckets.toNat)
      else .error .outOfMemory :=
  Registry.create_of_admits (validate_eq_ok_iff.mp h).1

theorem appHome_error {c : Config} {a : Account} {e : Error} (h : c.appHome a = .error e) :
    c.home = none ∧ a.home = .error e := by
  unfold appHome at h
  split at h
  next => cases h
  next unset =>
    cases asked : a.home with
    | ok directory =>
      rw [asked] at h
      cases h
    | error fault =>
      rw [asked] at h
      cases h
      exact ⟨unset, rfl⟩

theorem create_of_validate {c : Config} (h : c.validate = .ok ()) {σ : Type} {a : Account}
    {makeHome : String → Except IoFault σ} {e : Error}
    (failed : Supervisor.create c a makeHome = .error e) :
    (c.home = none ∧ a.home = .error e) ∨
    (∃ home fault, c.appHome a = .ok home ∧ makeHome home = .error fault ∧ e = .io fault) ∨
    (¬Registry.isReservable c.buckets ∧ e = .outOfMemory) := by
  rcases error_of_bind failed with invalid | ⟨_, _, failed⟩
  · rw [h] at invalid
    cases invalid
  rcases error_of_bind failed with homeless | ⟨home, named, failed⟩
  · exact .inl (appHome_error homeless)
  rcases error_of_bind failed with unmade | ⟨made, _, failed⟩
  · obtain ⟨fault, refused, rfl⟩ := mapError_error unmade
    exact .inr (.inl ⟨home, fault, named, refused, rfl⟩)
  rcases error_of_bind failed with full | ⟨r, _, failed⟩
  · rw [ofConfig_of_validate h] at full
    split at full
    next => cases full
    next large =>
      cases full
      exact .inr (.inr ⟨large, rfl⟩)
  · cases failed

theorem argv_of_validate {c : Config} (h : c.validate = .ok ()) (d : LaunchDesc) :
    (c.launch[d.contentType]? = none ∧ d.argv c.launch = .error (.unknownType d.contentType)) ∨
    ∃ program arguments, c.launch[d.contentType]? = some (program :: arguments) ∧
      d.argv c.launch = .ok (d.fillIn program :: arguments.map d.fillIn) := by
  have full := (validate_eq_ok_iff.mp h).2.2 d.contentType
  unfold LaunchDesc.argv
  cases found : c.launch[d.contentType]? with
  | none => exact .inl ⟨rfl, rfl⟩
  | some template =>
    cases template with
    | nil => exact absurd found full
    | cons program arguments => exact .inr ⟨program, arguments, rfl, rfl⟩

theorem launch_of_validate {c : Config} (h : c.validate = .ok ()) {σ : Type}
    {spawner : Spawner σ} {d : LaunchDesc} {w : σ} {e : Error}
    (failed : ((spawner.launcher c.launch).launch d w).1 = .error e) :
    (c.launch[d.contentType]? = none ∧ e = .invalid (.unknownType d.contentType)) ∨
    ∃ invocation fault, d.invocation c.launch = .ok invocation ∧
      (spawner.spawn invocation w).1 = .error fault ∧ e = .io fault := by
  rcases argv_of_validate h d with ⟨unlisted, unknown⟩ | ⟨program, arguments, _, known⟩
  · have refused : d.invocation c.launch = .error (.unknownType d.contentType) := by
      rw [LaunchDesc.invocation, unknown]
      rfl
    simp only [Spawner.launcher, refused] at failed
    cases failed
    exact .inl ⟨unlisted, rfl⟩
  · obtain ⟨invocation, made⟩ : ∃ invocation, d.invocation c.launch = .ok invocation := by
      rw [LaunchDesc.invocation, known]
      exact ⟨_, rfl⟩
    simp only [Spawner.launcher, made] at failed
    rcases spawned : spawner.spawn invocation w with ⟨fault | pid, w'⟩
    · simp only [spawned] at failed
      cases failed
      exact .inr ⟨invocation, fault, made, by rw [spawned], rfl⟩
    · simp only [spawned] at failed
      cases failed

theorem reliable_of_validate {c : Config} (h : c.validate = .ok ()) : c.Reliable :=
  ⟨ofConfig_of_validate h, fun _ _ _ => create_of_validate h, argv_of_validate h,
    fun _ _ _ _ => launch_of_validate h⟩

/-- Three measures in a configuration that is otherwise the default. -/
def measured (capacity : UInt64) (maxRunId : UInt32) (buckets : UInt64) : Config :=
  { Config.default with capacity, maxRunId, buckets }

theorem validate_measured {capacity buckets : UInt64} {maxRunId : UInt32} :
    (∃ a, (measured capacity maxRunId buckets).validate = .error a) ↔
      ¬Registry.Admits capacity maxRunId buckets := by
  have full : defaultLaunch.toList.find? (·.2.isEmpty) = none := by decide +kernel
  have valid : (measured capacity maxRunId buckets).validate = .ok () ↔
      Registry.Admits capacity maxRunId buckets := by
    rw [validate_eq_ok_iff]
    exact ⟨fun h => h.1, fun h => ⟨h, nofun, find?_templates_eq_none_iff.mp full⟩⟩
  rw [← valid]
  cases (measured capacity maxRunId buckets).validate <;> simp

/-- What was accepted is relied on, and a registry accepts what a configuration may say. -/
theorem reliable_of_ofJson :
    (∀ text c, ofJson text = .ok c → c.Reliable) ∧
    ∀ capacity maxRunId buckets,
      ((∃ a, Registry.create capacity maxRunId buckets = .error (.invalid a)) ↔
        ∃ a, (measured capacity maxRunId buckets).validate = .error a) ∧
      ((∃ a, Registry.create capacity maxRunId buckets = .error (.invalid a)) ↔
        ¬Registry.Admits capacity maxRunId buckets) :=
  ⟨fun _ _ h => reliable_of_validate (validate_of_ofJson h), fun _ _ _ =>
    ⟨Registry.create_invalid_iff.trans validate_measured.symm, Registry.create_invalid_iff⟩⟩

theorem reliable_partial :
    let c : Config := { Config.default with capacity := 4, launch := .ofList [("native", ["run"])] }
    let d := measured 4 9 32
    (ofJson "\x7b\"capacity\": 4, \"launch\": \x7b\"native\": [\"run\"]\x7d\x7d" = .ok c ∧
      ofJson "[4, 9]" = .ok d) ∧
    (c.Reliable ∧ d.Reliable) ∧ ∃ a, Registry.create 4 3 32 = .error (.invalid a) := by
  intro c d
  have someFields :
      ofJson "\x7b\"capacity\": 4, \"launch\": \x7b\"native\": [\"run\"]\x7d\x7d" = .ok c := by
    rfl
  have firstFields : ofJson "[4, 9]" = .ok d := by
    rfl
  have short : ∃ a, (measured 4 3 32).validate = .error a := ⟨.idRange, rfl⟩
  exact ⟨⟨someFields, firstFields⟩,
    ⟨reliable_of_ofJson.1 _ _ someFields, reliable_of_ofJson.1 _ _ firstFields⟩,
    (reliable_of_ofJson.2 4 3 32).1.mpr short⟩

end Config
end AppSupervisor
