import Mathlib.Data.List.Nodup

/-!
# Sandbox: which runtime a container is created on

The security profile of a request is resolved to a policy, the policy becomes security settings, and the
`RuntimeController` negotiates a runtime for them.  `SelectionEngine.Select` chooses by the name of the profile.

* `requestContainer`  the whole way of a request;
* `leader`  the runtime that negotiation selects: the first of the highest priority;
* `isolation_honoured`  **when a high-security request ends on gvisor or is refused**.

The level is not part of the security settings, so negotiation never sees it, see `isolation_lost`.  A map is
iterated in any order: the order is a parameter.
-/

namespace Sandbox

open List

/-! ## from the profile to the settings -/

structure SecurityProfile where
  id : String
  readOnlyRoot : Bool
  networkMode : String
  runAsNonRoot : Bool
  uid : Int

def getDefaultSecurityProfile (id : String) : SecurityProfile :=
  if id = "ReadOnly" then ⟨"ReadOnly", true, "none", true, 1001⟩
  else if id = "Restricted" then ⟨"Restricted", true, "none", true, 1002⟩
  else if id = "HighSecurity" then ⟨"HighSecurity", true, "none", true, 2000⟩
  else if id = "Interactive" then ⟨"Interactive", false, "bridge", true, 1000⟩
  else ⟨"Default", true, "bridge", true, 1000⟩

/-- the custom adjustments of a request that have the right type -/
structure Custom where
  readOnlyRoot : Option Bool := none
  networkMode : Option String := none

structure SecurityPolicy where
  id : String
  profile : SecurityProfile

inductive Refusal where
  | emptyID
  | invalidNetworkMode (mode : String)
  | rootUser
  | noCompatibleRuntime
  | missingGPU (runtimeID : String)
  | missingReadOnlyRoot (runtimeID : String)
  | hostAccess (runtimeID : String)
  | emptyImage
  | noInstance (runtimeID : String)
  | createFailed (runtimeID : String)
deriving DecidableEq

def validateSecurityPolicy (policy : SecurityPolicy) : Except Refusal Unit :=
  if policy.id = "" then .error .emptyID
  else if policy.profile.networkMode ≠ "none" ∧ policy.profile.networkMode ≠ "bridge" ∧
      policy.profile.networkMode ≠ "isolated" then .error (.invalidNetworkMode policy.profile.networkMode)
  else if policy.profile.runAsNonRoot = true ∧ policy.profile.uid = 0 then .error .rootUser
  else .ok ()

/-- `PolicyResolver.ResolveSecurityPolicy`; `latest` is `GetLatestSecurityPolicy` of the policy registry -/
def resolveSecurityPolicy (latest : String → Option SecurityProfile) (id : String) (custom : Custom) :
    Except Refusal SecurityPolicy := do
  let base :=
    if id = "" then getDefaultSecurityProfile "Default" else (latest id).getD (getDefaultSecurityProfile id)
  let resolved : SecurityPolicy :=
    { id := if id = "" then base.id else id
      profile := { base with
        readOnlyRoot := custom.readOnlyRoot.getD base.readOnlyRoot
        networkMode := custom.networkMode.getD base.networkMode } }
  validateSecurityPolicy resolved
  return resolved

structure SecuritySettings where
  readOnlyRoot : Bool
  networkMode : String

def createSecuritySettings (policy : SecurityPolicy) : SecuritySettings :=
  ⟨policy.profile.readOnlyRoot, policy.profile.networkMode⟩

/-! ## the runtimes -/

structure Descriptor where
  runtimeID : String := ""
  priority : Int := 0
  defaultRuntime : Bool := false
  supportsGPU : Bool := false
  capabilities : List String := []
deriving DecidableEq

def Descriptor.hasFeature (d : Descriptor) (feature : String) : Bool := d.capabilities.contains feature

/-- `RuntimeRegistry`: descriptors by their ids, none of which is empty -/
structure Registry where
  descriptors : List Descriptor
  nodup : (descriptors.map (·.runtimeID)).Nodup
  named : ∀ d ∈ descriptors, d.runtimeID ≠ ""

def Registry.get (reg : Registry) (id : String) : Option Descriptor := reg.descriptors.find? (·.runtimeID = id)

variable {reg : Registry}

theorem mem_of_get {id : String} {d : Descriptor} (h : reg.get id = some d) :
    d ∈ reg.descriptors ∧ d.runtimeID = id := by
  have hid := find?_some h
  exact ⟨mem_of_find?_eq_some h, of_decide_eq_true hid⟩

theorem get_mem {d : Descriptor} (h : d ∈ reg.descriptors) : reg.get d.runtimeID = some d := by
  have hsome : (reg.get d.runtimeID).isSome := find?_isSome.mpr ⟨d, h, decide_eq_true rfl⟩
  obtain ⟨d', hd'⟩ := Option.isSome_iff_exists.mp hsome
  obtain ⟨hmem, hid⟩ := mem_of_get hd'
  rw [hd', inj_on_of_nodup_map reg.nodup hmem h hid]

/-! ## negotiation -/

structure Requirements where
  requiredFeatures : List String := []
  securityLevel : String

structure Report where
  compatibleRuntimes : List String := []
  selectedRuntime : String := ""
  rejectionReasons : List (String × String) := []

def Report.examine (req : Requirements) (report : Report) (rt : Descriptor) : Report :=
  match req.requiredFeatures.find? (fun feat => !rt.hasFeature feat) with
  | some feat =>
    { report with rejectionReasons := report.rejectionReasons ++
        [(rt.runtimeID, "Missing required feature capability: " ++ feat)] }
  | none =>
    if req.securityLevel = "HighSecurity" ∧ rt.runtimeID ≠ "gvisor" then
      { report with rejectionReasons := report.rejectionReasons ++
          [(rt.runtimeID, "Security level 'HighSecurity' requires gvisor isolation.")] }
    else { report with compatibleRuntimes := report.compatibleRuntimes ++ [rt.runtimeID] }

def Registry.better (reg : Registry) (best : String × Int) (rtID : String) : String × Int :=
  let rt := (reg.get rtID).getD {}
  if rt.priority > best.2 then (rtID, rt.priority) else best

def negotiate (reg : Registry) (order : List Descriptor) (req : Requirements) : Except Refusal Report :=
  let report := order.foldl (Report.examine req) {}
  if report.compatibleRuntimes.length = 0 then .error .noCompatibleRuntime
  else .ok { report with selectedRuntime := (report.compatibleRuntimes.foldl reg.better ("", -1)).1 }

def validateProfileCompatibility (desc : Descriptor) (lang secProfile image : String) : Except Refusal Unit :=
  if lang = "cuda" ∧ desc.supportsGPU = false then .error (.missingGPU desc.runtimeID)
  else if secProfile = "HostAccess" ∧ desc.runtimeID = "gvisor" then .error (.hostAccess desc.runtimeID)
  else if secProfile = "ReadOnly" ∧ desc.hasFeature "SupportsReadOnlyRootFS" = false then
    .error (.missingReadOnlyRoot desc.runtimeID)
  else if image = "" then .error .emptyImage
  else .ok ()

/-- what a creation meets: the order of the registry, the runtimes with an instance in the pool, whether the adapter
succeeds -/
structure Setting where
  order : List Descriptor
  instances : String → Bool
  adapterOk : Bool

def RuntimeController.createSandbox (reg : Registry) (env : Setting) (security : SecuritySettings) (image : String) :
    Except Refusal String := do
  let level := if security.readOnlyRoot then "ReadOnly" else security.networkMode
  let report ← negotiate reg env.order { securityLevel := level }
  let rtID := report.selectedRuntime
  validateProfileCompatibility ((reg.get rtID).getD {}) "go" level image
  if env.instances rtID = false then throw (.noInstance rtID)
  if env.adapterOk = false then throw (.createFailed rtID)
  return rtID

def requestContainer (reg : Registry) (env : Setting) (latest : String → Option SecurityProfile) (secProfile : String)
    (custom : Custom) (image : String) : Except Refusal String := do
  let policy ← resolveSecurityPolicy latest secProfile custom
  RuntimeController.createSandbox reg env (createSecuritySettings policy) image

/-! ## selection -/

structure SelectionPolicy where
  defaultRuntime : String := ""
  rules : String → Option String := fun _ => none

def Registry.getDefault (reg : Registry) (order order' : List Descriptor) : Option Descriptor :=
  match order.find? (·.defaultRuntime) with
  | some d => some d
  | none =>
    match reg.get "docker" with
    | some d => some d
    | none => order'.head?

def select (reg : Registry) (policy : SelectionPolicy) (order order' : List Descriptor) (secProfile : String) :
    Option String :=
  match (policy.rules secProfile).filter fun rtID => (reg.get rtID).isSome with
  | some rtID => some rtID
  | none =>
    if secProfile = "HighSecurity" ∧ (reg.get "gvisor").isSome then some "gvisor"
    else if policy.defaultRuntime ≠ "" ∧ (reg.get policy.defaultRuntime).isSome then some policy.defaultRuntime
    else (reg.getDefault order order').map (·.runtimeID)

/-! ## what negotiation chooses -/

/-- the first descriptor of the highest priority, and one without a name when no priority reaches `0` -/
def leader (order : List Descriptor) : Descriptor :=
  order.foldl (fun best d => if best.priority < d.priority then d else best) { priority := -1 }

theorem leader_mem (order : List Descriptor) : leader order ∈ order ∨ leader order = { priority := -1 } := by
  refine foldlRecOn (motive := fun best => best ∈ order ∨ best = { priority := -1 }) order _ (.inr rfl) ?_
  intro best hbest d hd
  split
  · exact .inl hd
  · exact hbest

theorem compatible_all {req : Requirements} (hf : req.requiredFeatures = []) (hl : req.securityLevel ≠ "HighSecurity")
    (order : List Descriptor) (report : Report) : (order.foldl (Report.examine req) report).compatibleRuntimes =
      report.compatibleRuntimes ++ order.map (·.runtimeID) := by
  induction order generalizing report with
  | nil => simp
  | cons rt order ih =>
    have hstep : report.examine req rt =
        { report with compatibleRuntimes := report.compatibleRuntimes ++ [rt.runtimeID] } := by
      unfold Report.examine
      rw [hf, find?_nil, if_neg fun h => hl h.1]
    rw [foldl_cons, ih, hstep]
    simp

theorem foldl_better {order : List Descriptor} (horder : ∀ d ∈ order, d ∈ reg.descriptors) (best : Descriptor) :
    (order.map (·.runtimeID)).foldl reg.better (best.runtimeID, best.priority) =
      let d := order.foldl (fun best d => if best.priority < d.priority then d else best) best
      (d.runtimeID, d.priority) := by
  induction order generalizing best with
  | nil => rfl
  | cons d order ih =>
    have hbetter : reg.better (best.runtimeID, best.priority) d.runtimeID =
        ((if best.priority < d.priority then d else best).runtimeID,
          (if best.priority < d.priority then d else best).priority) := by
      unfold Registry.better
      rw [get_mem (horder d (mem_cons_self ..))]
      dsimp only [Option.getD_some]
      split <;> rfl
    rw [map_cons, foldl_cons, foldl_cons, hbetter]
    exact ih (fun d hd => horder d (mem_cons_of_mem _ hd)) _

variable {order : List Descriptor} {rt : String}

theorem negotiate_leader {level : String} (horder : order.Perm reg.descriptors) (hl : level ≠ "HighSecurity")
    (hne : order ≠ []) : ∃ report, negotiate reg order { securityLevel := level } = .ok report ∧
      report.selectedRuntime = (leader order).runtimeID := by
  have hbest := foldl_better (fun d hd => horder.mem_iff.mp hd) { priority := -1 }
  unfold negotiate
  dsimp only
  rw [compatible_all rfl hl, nil_append, length_map, if_neg (mt length_eq_zero_iff.mp hne)]
  exact ⟨_, rfl, congrArg Prod.fst hbest⟩

theorem feature_leader (horder : order.Perm reg.descriptors) (feature : String) :
    ((reg.get (leader order).runtimeID).getD {}).hasFeature feature = (leader order).hasFeature feature := by
  rcases leader_mem order with h | h
  · rw [get_mem (horder.mem_iff.mp h)]
    rfl
  · have hnone : reg.get "" = none := by
      cases hget : reg.get "" with
      | none => rfl
      | some d => exact absurd (mem_of_get hget).2 (reg.named d (mem_of_get hget).1)
    rw [h, hnone]
    rfl

def Ordinary (mode : String) : Prop := mode = "none" ∨ mode = "bridge" ∨ mode = "isolated"

theorem ordinary_of_validate {policy : SecurityPolicy} (h : validateSecurityPolicy policy = .ok ()) :
    Ordinary policy.profile.networkMode := by
  unfold validateSecurityPolicy at h
  split at h
  · cases h
  split at h
  · cases h
  next hmode =>
  unfold Ordinary
  tauto

theorem ordinary_of_resolve {latest : String → Option SecurityProfile} {id : String} {custom : Custom}
    {policy : SecurityPolicy} (h : resolveSecurityPolicy latest id custom = .ok policy) :
    Ordinary policy.profile.networkMode := by
  unfold resolveSecurityPolicy at h
  dsimp only [bind, Except.bind] at h
  split at h
  · cases h
  next hval =>
  cases h
  exact ordinary_of_validate hval

/-- nothing but the choice of the runtime refuses the request -/
structure Ready (env : Setting) (security : SecuritySettings) (image : String) : Prop where
  runtimes : env.order ≠ []
  image : image ≠ ""
  feature : security.readOnlyRoot = true → (leader env.order).hasFeature "SupportsReadOnlyRootFS" = true
  instances : env.instances (leader env.order).runtimeID = true
  adapter : env.adapterOk = true

theorem createSandbox_iff {env : Setting} {security : SecuritySettings} {image : String}
    (horder : env.order.Perm reg.descriptors) (hmode : Ordinary security.networkMode) :
    RuntimeController.createSandbox reg env security image = .ok rt ↔
      Ready env security image ∧ rt = (leader env.order).runtimeID := by
  have hlevel : ∀ level, (level = if security.readOnlyRoot then "ReadOnly" else security.networkMode) →
      level ≠ "HighSecurity" ∧ level ≠ "HostAccess" ∧ (level = "ReadOnly" ↔ security.readOnlyRoot = true) := by
    rintro level rfl
    cases security.readOnlyRoot with
    | true => simp
    | false => rcases hmode with h | h | h <;> simp [h]
  unfold RuntimeController.createSandbox
  obtain ⟨hhigh, hhost, hread⟩ := hlevel _ rfl
  generalize (if security.readOnlyRoot then "ReadOnly" else security.networkMode) = level at hhigh hhost hread ⊢
  by_cases hne : env.order = []
  · refine ⟨fun h => ?_, fun h => absurd hne h.1.runtimes⟩
    rw [hne] at h
    cases h
  obtain ⟨report, hneg, hsel⟩ := negotiate_leader horder hhigh hne
  dsimp only
  rw [hneg]
  dsimp only [bind, Except.bind]
  rw [hsel]
  unfold validateProfileCompatibility
  rw [feature_leader horder, if_neg (by simp), if_neg fun h => hhost h.1]
  by_cases hfeat : level = "ReadOnly" ∧ (leader env.order).hasFeature "SupportsReadOnlyRootFS" = false
  · rw [if_pos hfeat]
    refine ⟨nofun, fun h => ?_⟩
    rw [h.1.feature (hread.mp hfeat.1)] at hfeat
    cases hfeat.2
  rw [if_neg hfeat]
  by_cases himage : image = ""
  · rw [if_pos himage]
    exact ⟨nofun, fun h => absurd himage h.1.image⟩
  rw [if_neg himage]
  cases hinst : env.instances (leader env.order).runtimeID with
  | false => exact ⟨nofun, fun h => by cases hinst.symm.trans h.1.instances⟩
  | true =>
    cases hok : env.adapterOk with
    | false => exact ⟨nofun, fun h => by cases hok.symm.trans h.1.adapter⟩
    | true =>
      have hready : Ready env security image := by
        refine ⟨hne, himage, fun hro => ?_, hinst, hok⟩
        simpa [hread.mpr hro] using hfeat
      exact ⟨fun h => ⟨hready, by cases h; rfl⟩, fun h => h.2 ▸ rfl⟩

/-! ## the guarantee -/

/-- the rule for the level names nothing but gvisor that is registered -/
def Rules (reg : Registry) (policy : SelectionPolicy) : Prop :=
  ∀ rtID, policy.rules "HighSecurity" = some rtID → (reg.get rtID).isSome → rtID = "gvisor"

section
variable {policy : SelectionPolicy} {order' : List Descriptor} (horder : order.Perm reg.descriptors)
  (horder' : order'.Perm reg.descriptors)
include horder horder'

theorem getDefault_mem {d : Descriptor} (h : reg.getDefault order order' = some d) : d ∈ reg.descriptors := by
  unfold Registry.getDefault at h
  split at h
  · next hd =>
    cases h
    exact horder.mem_iff.mp (mem_of_find?_eq_some hd)
  split at h
  · next hd =>
    cases h
    exact (mem_of_get hd).1
  · exact horder'.mem_iff.mp (mem_of_head? h)

/-- what is selected is registered -/
theorem select_registered {secProfile : String} (h : select reg policy order order' secProfile = some rt) :
    (reg.get rt).isSome := by
  unfold select at h
  split at h
  · next hrule =>
    cases h
    exact (Option.filter_eq_some_iff.mp hrule).2
  split at h
  · next hg =>
    cases h
    exact hg.2
  split at h
  · next hd =>
    cases h
    exact hd.2
  · obtain ⟨d, hd, rfl⟩ := Option.map_eq_some_iff.mp h
    rw [get_mem (getDefault_mem horder horder' hd)]
    rfl

omit horder in
/-- something is selected, if anything is registered -/
theorem select_some {secProfile : String} (hne : reg.descriptors ≠ []) :
    ∃ rt, select reg policy order order' secProfile = some rt := by
  unfold select
  split
  · exact ⟨_, rfl⟩
  split
  · exact ⟨_, rfl⟩
  split
  · exact ⟨_, rfl⟩
  unfold Registry.getDefault
  split
  · exact ⟨_, rfl⟩
  split
  · exact ⟨_, rfl⟩
  cases order' with
  | nil => exact absurd horder'.symm.eq_nil hne
  | cons d order' => exact ⟨_, rfl⟩

theorem select_iff : (∀ rt, select reg policy order order' "HighSecurity" = some rt → rt = "gvisor") ↔
    Rules reg policy ∧ ((reg.get "gvisor").isSome ∨ reg.descriptors = []) := by
  constructor
  · intro h
    refine ⟨fun id hid hreg => h id ?_, ?_⟩
    · unfold select
      rw [Option.filter_eq_some_iff.mpr ⟨hid, hreg⟩]
    · by_cases hne : reg.descriptors = []
      · exact .inr hne
      obtain ⟨rt, hrt⟩ := select_some horder' hne
      cases h rt hrt
      exact .inl (select_registered horder horder' hrt)
  · rintro ⟨hrules, hg | hnil⟩ rt hrt
    · unfold select at hrt
      split at hrt
      · next hrule =>
        cases hrt
        obtain ⟨hrule, hreg⟩ := Option.filter_eq_some_iff.mp hrule
        exact hrules rt hrule hreg
      · rw [if_pos ⟨rfl, hg⟩] at hrt
        cases hrt
        rfl
    · have hreg := select_registered horder horder' hrt
      rw [Registry.get, hnil] at hreg
      cases hreg

end

/-- **A high-security request ends on gvisor or is refused** exactly when gvisor leads or something else
refuses it; **`Select`** exactly when its rule allows, and gvisor is registered unless nothing is. -/
theorem isolation_honoured (reg : Registry) :
    (∀ (env : Setting) (latest : String → Option SecurityProfile) (custom : Custom) (image : String),
      env.order.Perm reg.descriptors →
        ((∀ rt, requestContainer reg env latest "HighSecurity" custom image = .ok rt → rt = "gvisor") ↔
          ∀ policy, resolveSecurityPolicy latest "HighSecurity" custom = .ok policy →
            Ready env (createSecuritySettings policy) image → (leader env.order).runtimeID = "gvisor")) ∧
    ∀ (policy : SelectionPolicy) (order order' : List Descriptor), order.Perm reg.descriptors →
      order'.Perm reg.descriptors →
        ((∀ rt, select reg policy order order' "HighSecurity" = some rt → rt = "gvisor") ↔
          Rules reg policy ∧ ((reg.get "gvisor").isSome ∨ reg.descriptors = [])) := by
  refine ⟨fun env latest custom image horder => ?_, fun policy order order' h h' => select_iff h h'⟩
  unfold requestContainer
  dsimp only [bind, Except.bind]
  cases hpol : resolveSecurityPolicy latest "HighSecurity" custom with
  | error err =>
    refine ⟨fun _ policy h => ?_, fun _ rt h => ?_⟩
    · cases h
    · cases h
  | ok policy =>
    have hiff : ∀ rt, RuntimeController.createSandbox reg env (createSecuritySettings policy) image = .ok rt ↔
        Ready env (createSecuritySettings policy) image ∧ rt = (leader env.order).runtimeID := fun rt =>
      createSandbox_iff horder (ordinary_of_resolve hpol)
    constructor
    · intro h policy' hpol' hready
      cases hpol'
      exact h _ ((hiff _).mpr ⟨hready, rfl⟩)
    · intro h rt hrt
      obtain ⟨hready, rfl⟩ := (hiff rt).mp hrt
      exact h policy rfl hready

def registered : Registry where
  descriptors := [
    { runtimeID := "docker", priority := 10, defaultRuntime := true, capabilities := ["SupportsReadOnlyRootFS"] },
    { runtimeID := "gvisor", priority := 20, capabilities := ["SupportsReadOnlyRootFS"] }]
  nodup := by decide
  named := by decide

def selectionPolicy : SelectionPolicy where
  defaultRuntime := "docker"
  rules secProfile := if secProfile = "HighSecurity" then some "gvisor" else none

theorem isolation_honoured_registered :
    requestContainer registered ⟨registered.descriptors, fun _ => true, true⟩ (fun _ => none) "HighSecurity" {} "img" =
      .ok "gvisor" ∧
    (∀ rt, requestContainer registered ⟨registered.descriptors, fun _ => true, true⟩ (fun _ => none) "HighSecurity" {}
      "img" = .ok rt → rt = "gvisor") ∧
    ∀ rt, select registered selectionPolicy registered.descriptors registered.descriptors "HighSecurity" = some rt →
      rt = "gvisor" := by
  obtain ⟨hcreate, hselect⟩ := isolation_honoured registered
  refine ⟨by decide, (hcreate _ _ _ _ (.refl _)).mpr fun _ _ _ => by decide, ?_⟩
  refine (hselect selectionPolicy _ _ (.refl _) (.refl _)).mpr ⟨fun rtID h _ => ?_, .inl (by decide)⟩
  cases h
  rfl

/-- docker is registered with a higher priority than gvisor -/
def dockerFirst : Registry where
  descriptors := [{ runtimeID := "docker", priority := 30, capabilities := ["SupportsReadOnlyRootFS"] },
    { runtimeID := "gvisor", priority := 20, capabilities := ["SupportsReadOnlyRootFS"] }]
  nodup := by decide
  named := by decide

/-- the high-security request is created on docker; and `Select` follows a rule that names docker -/
theorem isolation_lost :
    requestContainer dockerFirst ⟨dockerFirst.descriptors, fun _ => true, true⟩ (fun _ => none) "HighSecurity"
      {} "img" = .ok "docker" ∧
    select dockerFirst { rules := fun _ => some "docker" } dockerFirst.descriptors dockerFirst.descriptors
      "HighSecurity" = some "docker" := by
  decide

end Sandbox
