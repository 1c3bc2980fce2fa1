import Cpip.Exec.Steps

/-!
# Execution orchestrator: what a submission may ask for

The validation pipeline in front of `SubmitExecution`, and the envelope of the job that is created.

* `Modest`  what the pipeline does not look at is within the limits of the language;
* `submission_bounded`  **the timeout is within the ceiling, and the envelope within every limit**.
-/

namespace Exec

/-! ## settings -/

/-- `config.Config`, as far as a submission meets it; the defaults are those of `config.Default` -/
structure Config where
  maxCodeSize : Int := 262144
  maxStdinSize : Int := 1048576
  maxMetadataEntries : Int := 32
  maxMetadataKeyLen : Int := 128
  maxMetadataValueLen : Int := 1024
  defaultTimeout : Int := 10000000000
  maxTimeout : Int := 60000000000
  maxMemoryBytes : Int := 536870912
  maxRetries : Int := 3
  minPriority : Int := 0
  maxPriority : Int := 3
  requireAuthentication : Bool := true
  enableAuthorization : Bool := false

def orDefault (x y : Int) : Int := if x ≤ 0 then y else x

variable (c : Config)

def Config.normalize : Config :=
  let d : Config := {}
  { c with
    maxCodeSize := orDefault c.maxCodeSize d.maxCodeSize
    maxStdinSize := orDefault c.maxStdinSize d.maxStdinSize
    maxMetadataEntries := orDefault c.maxMetadataEntries d.maxMetadataEntries
    maxMetadataKeyLen := orDefault c.maxMetadataKeyLen d.maxMetadataKeyLen
    maxMetadataValueLen := orDefault c.maxMetadataValueLen d.maxMetadataValueLen
    defaultTimeout := orDefault c.defaultTimeout d.defaultTimeout
    maxTimeout := orDefault c.maxTimeout d.maxTimeout
    maxMemoryBytes := orDefault c.maxMemoryBytes d.maxMemoryBytes
    maxRetries := if c.maxRetries = 0 then d.maxRetries else c.maxRetries }

def Config.validate : Except String Config :=
  let c := c.normalize
  if c.maxTimeout < c.defaultTimeout then .error "default_timeout must be <= max_timeout"
  else if c.maxRetries < 0 then .error "max_retries must be >= 0"
  else if c.maxPriority < c.minPriority then .error "min_priority must be <= max_priority"
  else .ok c

inductive Status where
  | stable | beta | deprecated | disabled
deriving DecidableEq

structure Registered extends Language where
  limits : ResourceProfile := {}
  status : Status := .stable

abbrev Languages := String → Option Registered

variable (langs : Languages)

def Config.deps (capacity : Int) : Deps where
  defaultTimeout := c.defaultTimeout
  maxTimeout := c.maxTimeout
  maxRetries := c.maxRetries
  langs id := (langs id).map Registered.toLanguage
  capacity := capacity

/-! ## the pipeline -/

structure Submission extends Request where
  source : String := ""
  stdin : String := ""
  authenticated : Bool := true

/-- why a request is rejected: a sentinel of `job`, or the context is done -/
inductive Rejection where
  | unauthenticated | unauthorized | unsupportedLanguage | invalidRequest | codeTooLarge | stdinTooLarge
  | invalidTimeout | invalidResourceProfile | invalidPriority | invalidMetadata | contextDone

/-- a stage of the pipeline; `none` accepts -/
structure Validator where
  name : String
  check : Submission → Option Rejection

def authenticationValidator (required : Bool) : Validator where
  name := "authentication"
  check req := if required ∧ req.authenticated = false then some .unauthenticated else none

def authorizationValidator (enabled : Bool) (authz : Option (Submission → Except String Bool)) : Validator where
  name := "authorization"
  check req :=
    if enabled then
      match (authz.getD fun _ => .ok true) req with
      | .ok true => none
      | _ => some .unauthorized
    else none

def languageValidator : Validator where
  name := "language"
  check req :=
    if req.language = "" then some .unsupportedLanguage
    else if (langs req.language).any (·.status ≠ .disabled) then none
    else some .unsupportedLanguage

def codeSizeValidator (max : Int) : Validator where
  name := "code_size"
  check req :=
    if req.source = "" then some .invalidRequest
    else if max < req.source.utf8ByteSize then some .codeTooLarge
    else none

def inputSizeValidator (max : Int) : Validator where
  name := "input_size"
  check req := if max < req.stdin.utf8ByteSize then some .stdinTooLarge else none

def timeoutValidator (max : Int) : Validator where
  name := "timeout"
  check req := if req.timeout < 0 ∨ max < req.timeout then some .invalidTimeout else none

def memoryProfileValidator (max : Int) (langs : Languages) : Validator where
  name := "memory_profile"
  check req :=
    match req.resources with
    | none => none
    | some rp =>
      if rp.memoryBytes < 0 ∨ rp.cpuMillicores < 0 ∨ rp.pidsLimit < 0 ∨ rp.tmpfsBytes < 0 ∨ max < rp.memoryBytes then
        some .invalidResourceProfile
      else
        match langs req.language with
        | none => none
        | some lang =>
          if lang.limits ≠ {} ∧ (lang.limits.memoryBytes < rp.memoryBytes ∧ 0 < lang.limits.memoryBytes ∨
              lang.limits.cpuMillicores < rp.cpuMillicores ∧ 0 < lang.limits.cpuMillicores) then
            some .invalidResourceProfile
          else none

def priorityValidator (min max : Int) : Validator where
  name := "priority"
  check req := if req.priority < min ∨ max < req.priority then some .invalidPriority else none

def metadataValidator (maxEntries maxKeyLen maxValueLen : Int) : Validator where
  name := "metadata"
  check req :=
    if maxEntries < req.metadata.length ∨ req.metadata.any fun kv =>
        kv.1 = "" ∨ maxKeyLen < kv.1.utf8ByteSize ∨ maxValueLen < kv.2.utf8ByteSize then
      some .invalidMetadata
    else none

def Config.validators (authz : Option (Submission → Except String Bool)) (custom : List Validator) : List Validator :=
  [authenticationValidator c.requireAuthentication, authorizationValidator c.enableAuthorization authz,
    languageValidator langs, codeSizeValidator c.maxCodeSize, inputSizeValidator c.maxStdinSize,
    timeoutValidator c.maxTimeout, memoryProfileValidator c.maxMemoryBytes langs,
    priorityValidator c.minPriority c.maxPriority,
    metadataValidator c.maxMetadataEntries c.maxMetadataKeyLen c.maxMetadataValueLen] ++ custom

/-- `Pipeline.Validate`; `done n` says that the context is done when `n` validators are left -/
def failures (stopOnFirst : Bool) (done : Nat → Bool) (req : Submission) : List Validator → List (String × Rejection)
  | [] => []
  | v :: vs =>
    if done vs.length then [(v.name, .contextDone)]
    else
      match v.check req with
      | none => failures stopOnFirst done req vs
      | some err => (v.name, err) :: if stopOnFirst then [] else failures stopOnFirst done req vs

theorem accepted_by {stopOnFirst : Bool} {done : Nat → Bool} {req : Submission} {vs : List Validator}
    (h : failures stopOnFirst done req vs = []) {v : Validator} (hv : v ∈ vs) : v.check req = none := by
  induction vs with
  | nil => cases hv
  | cons w vs ih =>
    unfold failures at h
    split at h
    · cases h
    split at h
    · rename_i hw
      rcases List.mem_cons.mp hv with rfl | hv
      · exact hw
      · exact ih h hv
    · cases h

/-! ## the envelope -/

/-- a limit that is set is kept -/
abbrev Cap (limit x : Int) : Prop := 0 < limit → x ≤ limit

structure ResourceProfile.Within (rp limits : ResourceProfile) : Prop where
  memory : Cap limits.memoryBytes rp.memoryBytes
  cpu : Cap limits.cpuMillicores rp.cpuMillicores
  pids : Cap limits.pidsLimit rp.pidsLimit
  tmpfs : Cap limits.tmpfsBytes rp.tmpfsBytes
  wall : Cap limits.wallTimeout rp.wallTimeout

/-- the first timeout that is set, of the request, of the language or of the settings, and at most the ceiling -/
def firstTimeout (l : Registered) (req : Request) : Int :=
  min c.maxTimeout
    (if 0 < req.timeout then req.timeout else if 0 < l.defaultTimeout then l.defaultTimeout else c.defaultTimeout)

/-- the wall timeout of a profile, or the first timeout, is within the limit -/
abbrev Timed (l : Registered) (req : Request) (rp : ResourceProfile) : Prop :=
  Cap l.limits.wallTimeout (if rp.wallTimeout ≤ 0 then firstTimeout c l req else rp.wallTimeout)

structure Modest (c : Config) (l : Registered) (req : Request) : Prop where
  asked : ∀ rp ∈ req.resources, rp ≠ {} →
    Cap l.limits.pidsLimit rp.pidsLimit ∧ Cap l.limits.tmpfsBytes rp.tmpfsBytes ∧ Timed c l req rp
  inherited : (∀ rp ∈ req.resources, rp = {}) →
    l.profile.memoryBytes ≤ c.maxMemoryBytes ∧ { l.profile with wallTimeout := 0 }.Within l.limits ∧
      Timed c l req l.profile

theorem validate_ok {cfg c : Config} (h : cfg.validate = .ok c) :
    0 < c.defaultTimeout ∧ c.defaultTimeout ≤ c.maxTimeout ∧ 0 < c.maxMemoryBytes := by
  have hpos : ∀ x y : Int, 0 < y → 0 < orDefault x y := by
    intro x y hy
    unfold orDefault
    split <;> omega
  unfold Config.validate at h
  dsimp only at h
  split at h
  · cases h
  rename_i hle
  split at h
  · cases h
  split at h
  · cases h
  cases h
  exact ⟨hpos _ _ (by decide), Int.not_lt.mp hle, hpos _ _ (by decide)⟩

section
variable {c : Config} {langs : Languages} {req : Submission} (capacity : Int) (id : String)

def created (c : Config) (langs : Languages) (capacity : Int) (req : Submission) (id : String) : Job :=
  Job.new req.toRequest ((c.deps langs capacity).resolveDefaults req.toRequest id)

theorem timeout_new {l : Registered} (hl : langs req.language = some l) (h0 : 0 < c.defaultTimeout)
    (hmax : c.defaultTimeout ≤ c.maxTimeout) (hreq : (timeoutValidator c.maxTimeout).check req = none) :
    0 < (created c langs capacity req id).timeout ∧ (created c langs capacity req id).timeout ≤ c.maxTimeout ∧
      (created c langs capacity req id).timeout = firstTimeout c l req.toRequest := by
  have hin : ¬ (req.timeout < 0 ∨ c.maxTimeout < req.timeout) := fun h => by simp [timeoutValidator, h] at hreq
  simp only [created, Job.new, Deps.resolveDefaults, Config.deps, hl, Option.map_some, firstTimeout]
  split_ifs <;> omega

/-- the profile of the job, and where it comes from -/
theorem resources_new {l : Registered} (hl : langs req.language = some l) : ∃ rp : ResourceProfile,
      (rp ∈ req.resources ∧ rp ≠ {} ∨ (∀ x ∈ req.resources, x = {}) ∧ rp = l.profile) ∧
      (created c langs capacity req id).resources = { rp with wallTimeout :=
        if rp.wallTimeout ≤ 0 then (created c langs capacity req id).timeout else rp.wallTimeout } := by
  have hwall : ∀ (rp : ResourceProfile) (t : Int), (if rp.wallTimeout ≤ 0 then { rp with wallTimeout := t } else rp) =
      { rp with wallTimeout := if rp.wallTimeout ≤ 0 then t else rp.wallTimeout } := by
    intro rp t
    split <;> rfl
  cases hres : req.resources with
  | none => exact ⟨l.profile, .inr ⟨nofun, rfl⟩, by simp [created, Job.new, hres, Deps.resolveDefaults, Config.deps,
    hl, hwall]⟩
  | some rp =>
    by_cases hz : rp = {}
    · refine ⟨l.profile, .inr ⟨fun x hx => ?_, rfl⟩, ?_⟩
      · cases hx
        exact hz
      · simp [created, Job.new, hres, hz, Deps.resolveDefaults, Config.deps, hl, hwall]
    · exact ⟨rp, .inl ⟨rfl, hz⟩, by simp [created, Job.new, hres, hz, hwall]⟩

theorem profile_accepted {rp : ResourceProfile} {l : Registered} {max : Int} (hrp : req.resources = some rp)
    (hl : langs req.language = some l) (h : (memoryProfileValidator max langs).check req = none) :
    rp.memoryBytes ≤ max ∧ Cap l.limits.memoryBytes rp.memoryBytes ∧ Cap l.limits.cpuMillicores rp.cpuMillicores := by
  simp only [memoryProfileValidator, hrp, hl] at h
  split at h
  · cases h
  split at h
  · cases h
  rename_i hlim
  by_cases hz : l.limits = {}
  · rw [hz]
    exact ⟨by omega, fun h0 => absurd h0 (by decide), fun h0 => absurd h0 (by decide)⟩
  · simp only [hz, ne_eq, not_false_eq_true, true_and] at hlim
    exact ⟨by omega, by omega, by omega⟩

/-- **The timeout of a job is within the ceiling, and its envelope within the limits** exactly when `Modest` holds. -/
theorem submission_bounded (cfg : Config) (hcfg : cfg.validate = .ok c) {stopOnFirst : Bool} {done : Nat → Bool}
    {authz : Option (Submission → Except String Bool)} {custom : List Validator}
    (hok : failures stopOnFirst done req (c.validators langs authz custom) = []) {s s' : Orchestrator} {a : Ans}
    {j : Job} (hadd : (Pc.add req.toRequest id).next (c.deps langs capacity) s a = some (.validated j, s')) :
    (0 < j.timeout ∧ j.timeout ≤ c.maxTimeout) ∧
      ((j.resources.memoryBytes ≤ c.maxMemoryBytes ∧ ∀ l ∈ langs req.language, j.resources.Within l.limits) ↔
        ∀ l ∈ langs req.language, Modest c l req.toRequest) := by
  obtain ⟨h0, hmax, hmem⟩ := validate_ok hcfg
  have htime := accepted_by hok (v := timeoutValidator c.maxTimeout) (by simp [Config.validators])
  have hlang := accepted_by hok (v := languageValidator langs) (by simp [Config.validators])
  have hprof := accepted_by hok (v := memoryProfileValidator c.maxMemoryBytes langs) (by simp [Config.validators])
  have hj : j = created c langs capacity req id := by
    simp only [Pc.next] at hadd
    split at hadd
    · cases hadd
      rfl
    · cases hadd
  subst hj
  cases hl : langs req.language with
  | none => simp [languageValidator, hl] at hlang
  | some l =>
    obtain ⟨hpos, hle, hfirst⟩ := timeout_new capacity id hl h0 hmax htime
    refine ⟨⟨hpos, hle⟩, ?_⟩
    obtain ⟨rp, hrp, hres⟩ := resources_new (c := c) capacity id hl
    rw [hres, hfirst]
    simp only [Option.mem_some_iff, forall_eq']
    rcases hrp with ⟨hmem', hne⟩ | ⟨hz, rfl⟩
    · obtain ⟨hglobal, hmem, hcpu⟩ := profile_accepted hmem' hl hprof
      constructor
      · rintro ⟨-, hw⟩
        refine ⟨fun x hx _ => ?_, fun h => absurd (h rp hmem') hne⟩
        cases hx.symm.trans hmem'
        exact ⟨hw.pids, hw.tmpfs, hw.wall⟩
      · intro hmod
        obtain ⟨hpids, htmpfs, htimed⟩ := hmod.asked rp hmem' hne
        exact ⟨hglobal, hmem, hcpu, hpids, htmpfs, htimed⟩
    · constructor
      · rintro ⟨hglobal, hw⟩
        refine ⟨fun x hx hne => absurd (hz x hx) hne, fun _ => ⟨hglobal, ?_, hw.wall⟩⟩
        exact ⟨hw.memory, hw.cpu, hw.pids, hw.tmpfs, Int.le_of_lt⟩
      · intro hmod
        obtain ⟨hglobal, hw, htimed⟩ := hmod.inherited hz
        exact ⟨hglobal, hw.memory, hw.cpu, hw.pids, hw.tmpfs, htimed⟩

end

/-! ## submissions -/

def std (memoryBytes cpuMillicores pidsLimit seconds : Int) : ResourceProfile :=
  ⟨"standard", memoryBytes, cpuMillicores, pidsLimit, 67108864, seconds * 1000000000⟩

def python3 : Registered where
  profile := std 268435456 1000 64 10
  defaultTimeout := 10000000000
  limits := std 536870912 2000 128 30

def onlyPython (l : Registered) : Languages := fun id => if id = "python3" then some l else none

def asking (timeout : Int) (resources : Option ResourceProfile) : Submission :=
  { language := "python3", source := "pass", timeout, resources }

abbrev Passes (req : Submission) : Prop :=
  failures true (fun _ => false) req (c.validators (onlyPython python3) none []) = []

abbrev envelope (req : Submission) : ResourceProfile :=
  (created c (onlyPython python3) 0 req "j").resources

theorem submission_bounded_default :
    Passes {} (asking 0 none) ∧ 0 < (created {} (onlyPython python3) 0 (asking 0 none) "j").timeout ∧
      (envelope {} (asking 0 none)).Within python3.limits := by
  have hok : Passes {} (asking 0 none) := by decide +kernel
  have hmod : ∀ l ∈ onlyPython python3 (asking 0 none).language, Modest {} l (asking 0 none).toRequest := by
    intro l hl
    cases hl
    exact ⟨nofun, fun _ => ⟨by decide, ⟨by decide, by decide, by decide, by decide, by decide⟩, by decide⟩⟩
  have hb := submission_bounded 0 "j" {} rfl hok (s := {}) (a := .ok) rfl
  exact ⟨hok, hb.1.1, (hb.2.mpr hmod).2 _ rfl⟩

/-- **A request may ask for more than its language allows**, and so may the default of a language. -/
theorem submission_unbounded : (Passes {} (asking 0 (some { pidsLimit := 1000000 })) ∧
      python3.limits.pidsLimit < (envelope {} (asking 0 (some { pidsLimit := 1000000 }))).pidsLimit) ∧
    (Passes {} (asking 60000000000 (some { memoryBytes := 1 })) ∧
      python3.limits.wallTimeout < (envelope {} (asking 60000000000 (some { memoryBytes := 1 }))).wallTimeout) ∧
    Passes { maxMemoryBytes := 1024 } (asking 0 none) ∧
      1024 < (envelope { maxMemoryBytes := 1024 } (asking 0 none)).memoryBytes := by
  decide +kernel

end Exec
