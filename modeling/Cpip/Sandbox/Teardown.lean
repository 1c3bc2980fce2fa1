import Cpip.Sandbox.Steps

/-!
# Sandbox: creation and teardown of one sandbox

One `CreateSandbox` interleaved with any number of `DestroySandbox` and `Sweep` calls on the same sandbox.

* `Clean`  a sandbox that is not registered has no container and no workspace;
* `safe_createSandbox`, `safe_teardown`  the calls one by one;
* `no_leaks`  **nothing is leaked** in every patient run.

A teardown in the middle of the creation disarms the creation's own cleanup, see `teardown_leaks`.
-/

namespace Sandbox

open Pool List Code World Lts

inductive Call where
  | createSandbox
  | destroySandbox
  | sweep
deriving DecidableEq

def Call.body : Call → Op Unit
  | .createSandbox => Sandbox.createSandbox
  | .destroySandbox => Sandbox.destroySandbox
  | .sweep => Sandbox.sweep

abbrev Thread := Code.Thread Call Cmd Cmd.Ans Unit

def calls : Prog Call World Thread Choice := Code.prog exec Call.body

def creating : Sys World Thread :=
  ⟨{}, Function.update (fun _ => none) 0 (some (calls.start .createSandbox))⟩

/-- the accesses of a teardown to what is recorded, and what it does with it -/
def Cmd.removes : Cmd → Bool
  | .getContainerID | .stopContainer _ | .removeContainer _ | .getWorkspacePath | .cleanupWorkspace _
  | .unregister => true
  | _ => false

variable (sys : Sys World Thread)

/-- a teardown looks at what is recorded only when the creation has returned; the sandbox is created once -/
def Patient : Act Call Choice → Prop
  | .spawn _ c => c ≠ .createSandbox
  | .step i _ => ∀ t ∈ sys.pool i, t.what ≠ .createSandbox → t.next.any Cmd.removes = true → sys.shared.returned = true

/-! ## what is kept -/

def Clean (w : World) : Prop := w.registered = false → w.containers = [] ∧ w.workspaces = []

/-- what the sandbox has is recorded -/
structure Settled (w : World) : Prop where
  container : ∀ c ∈ w.containers, c ≠ "" ∧ c = w.containerID
  workspace : ∀ p ∈ w.workspaces, p ≠ "" ∧ p = w.workspacePath

structure Kept (w : World) : Prop where
  clean : Clean w
  settled : w.returned = true → Settled w

def World.res (w : World) : World := { w with state := .created }

/-- the record stays, and what the sandbox has can only go -/
structure Later (s t : World) : Prop where
  containerID : t.containerID = s.containerID
  workspacePath : t.workspacePath = s.workspacePath
  containers : ∀ c ∈ t.containers, c ∈ s.containers
  workspaces : ∀ p ∈ t.workspaces, p ∈ s.workspaces
  returned : t.returned = s.returned

theorem later_refl (s : World) : Later s s := ⟨rfl, rfl, fun _ h => h, fun _ h => h, rfl⟩

theorem later_trans {s t u : World} (h : Later s t) (h' : Later t u) : Later s u :=
  ⟨h'.containerID.trans h.containerID, h'.workspacePath.trans h.workspacePath,
    fun c hc => h.containers c (h'.containers c hc),
    fun p hp => h.workspaces p (h'.workspaces p hp), h'.returned.trans h.returned⟩

theorem settled_later {s t : World} (h : Settled s) (hl : Later s t) : Settled t := by
  refine ⟨fun c hc => ?_, fun p hp => ?_⟩
  · rw [hl.containerID]
    exact h.container c (hl.containers c hc)
  · rw [hl.workspacePath]
    exact h.workspace p (hl.workspaces p hp)

theorem later_of_res {s t : World} (h : t.res = s.res) : Later s t := by
  refine ⟨(congrArg containerID h :), (congrArg workspacePath h :), fun c hc => ?_, fun p hp => ?_,
    (congrArg returned h :)⟩
  · have hsame : t.containers = s.containers := (congrArg containers h :)
    exact hsame ▸ hc
  · have hsame : t.workspaces = s.workspaces := (congrArg workspaces h :)
    exact hsame ▸ hp

def Cmd.teardown : Cmd → Bool
  | .get | .validate _ | .hooks | .write _ | .due | .archiveLogs => true
  | c => c.removes

variable {c : Cmd}

theorem exec_teardown {s m : World} {e : Choice} {a : c.Ans} (hc : c.teardown = true)
    (h : exec c s e = some (a, m)) : Later s m ∧ (c.removes = false → m.res = s.res) := by
  cases c with
  | get | validate _ | hooks | write _ | due | archiveLogs =>
    cases h
    exact ⟨later_of_res rfl, fun _ => rfl⟩
  | getContainerID | stopContainer _ | getWorkspacePath =>
    cases h
    exact ⟨later_refl _, nofun⟩
  | unregister =>
    cases h
    exact ⟨⟨rfl, rfl, fun _ hc => hc, fun _ hp => hp, rfl⟩, nofun⟩
  | removeContainer cID =>
    cases h
    exact ⟨⟨rfl, rfl, fun _ hc => (mem_filter.mp hc).1, fun _ hp => hp, rfl⟩, nofun⟩
  | cleanupWorkspace path =>
    cases h
    exact ⟨⟨rfl, rfl, fun _ hc => hc, fun _ hp => (mem_filter.mp hp).1, rfl⟩, nofun⟩
  | _ => cases hc

/-! ## rely and guarantee -/

/-- the creation relies on nobody touching the resources; a teardown on them only going, afterwards -/
def Relies : Call → Cmd → World → World → Prop
  | .createSandbox, _, s, t => s.returned = false → t.res = s.res
  | _, _, s, t => s.returned = true → Later s t

def Grants : Call → Cmd → World → World → Prop
  | .createSandbox, _, s, _ => s.returned = false
  | _, _, s, t => (s.returned = false → t.res = s.res) ∧ (s.returned = true → Later s t)

def Permits : Call → World → Cmd → Prop
  | .createSandbox, _, _ => True
  | _, w, c => c.removes = true → w.returned = true

theorem relies_refl (w : Call) (c : Cmd) (s : World) : Relies w c s s := by
  cases w with
  | createSandbox => exact fun _ => rfl
  | destroySandbox | sweep => exact fun _ => later_refl s

theorem relies_trans (w : Call) (c : Cmd) (s t u : World) (h : Relies w c s t) (h' : Relies w c t u) :
    Relies w c s u := by
  cases w with
  | createSandbox =>
    intro hs
    have hres := h hs
    have ht : t.returned = false := (congrArg returned hres :).trans hs
    exact (h' ht).trans hres
  | destroySandbox | sweep =>
    intro hs
    have hl := h hs
    exact later_trans hl (h' (hl.returned.trans hs))

abbrev Safe (w : Call) {ρ : Type} (Q : ρ → World → Prop) (x : Op ρ) (s : World) : Prop :=
  x.Safe exec Kept (Relies w) (Grants w) (Permits w) Q s

theorem kept_res {s t : World} (h : Kept s) (hres : t.res = s.res) : Kept t := by
  have hreg : t.registered = s.registered := (congrArg World.registered hres :)
  have hc : t.containers = s.containers := (congrArg containers hres :)
  have hp : t.workspaces = s.workspaces := (congrArg workspaces hres :)
  refine ⟨fun hr => ?_, fun hr => ?_⟩
  · rw [hc, hp]
    exact h.clean (hreg ▸ hr)
  · have hl := later_of_res hres
    exact settled_later (h.settled (hl.returned ▸ hr)) hl

/-! ## the code -/

section
variable {w : Call} {s : World} {J : World → Prop}

theorem safe_transition {next : State} (hR : ∀ c s t, Relies w c s t → J s → J t)
    (hres : ∀ s t, t.res = s.res → J s → J t)
    (hG : ∀ c s t, J s → c.teardown = true → c.removes = false → t.res = s.res → Grants w c s t) (h : J s) :
    Safe w (fun _ => J) (transition next) s := by
  intro t ht hI _ e valid u he
  cases he
  have hJ := hR _ _ _ ht h
  refine ⟨hI, hG _ _ _ hJ rfl rfl rfl, ?_⟩
  dsimp only [Code.bind]
  split
  · intro t' ht' hI' _ e ok u' he
    cases he
    have hJ' := hR _ _ _ ht' hJ
    refine ⟨hI', hG _ _ _ hJ' rfl rfl rfl, ?_⟩
    dsimp only [Code.bind]
    split
    · intro t'' ht'' hI'' _ e _ u'' he
      cases he
      have hJ'' := hR _ _ _ ht'' hJ'
      exact ⟨kept_res hI'' rfl, hG _ _ _ hJ'' rfl rfl rfl, hres t'' _ rfl hJ''⟩
    · exact hJ'
  · exact hJ

end

/-! ## the removal -/

/-- what a call that removes resources can count on: `P` is kept, what there is is recorded and can only go -/
structure Stance (w : Call) (P : World → Prop) : Prop where
  rely : ∀ c s t, Relies w c s t → P s → P t ∧ Later s t
  settled : ∀ s, Kept s → P s → Settled s
  keeps : ∀ s t, P s → Later s t → P t
  grants : ∀ c s t, P s → Later s t → Grants w c s t

theorem stance_teardown {w : Call} (hw : w ≠ .createSandbox) : Stance w fun s => s.returned = true := by
  refine ⟨fun c s t hR hs => ?_, fun s hI hs => hI.settled hs, fun s t hs hl => hl.returned.trans hs,
    fun c s t hs hl => ?_⟩
  · cases w with
    | createSandbox => exact absurd rfl hw
    | destroySandbox | sweep =>
      have hl : Later s t := hR hs
      exact ⟨hl.returned.trans hs, hl⟩
  · cases w with
    | createSandbox => exact absurd rfl hw
    | destroySandbox | sweep =>
      refine ⟨fun hf => ?_, fun _ => hl⟩
      cases hs.symm.trans hf

theorem stance_create : Stance .createSandbox fun s => s.returned = false ∧ Settled s := by
  refine ⟨fun c s t hR hs => ?_, fun s _ hs => hs.2, fun s t hs hl => ⟨hl.returned.trans hs.1, settled_later hs.2 hl⟩,
    fun c s t hs _ => hs.1⟩
  have hl := later_of_res (hR hs.1)
  exact ⟨⟨hl.returned.trans hs.1, settled_later hs.2 hl⟩, hl⟩

theorem kept_teardown {s m : World} {e : Choice} {a : c.Ans} (hI : Kept s) (hc : c.teardown = true)
    (hne : c ≠ .unregister) (h : exec c s e = some (a, m)) : Kept m := by
  have hl := (exec_teardown hc h).1
  have hreg : m.registered = s.registered := by
    cases c with
    | unregister => exact absurd rfl hne
    | get | validate _ | hooks | write _ | due | archiveLogs | getContainerID | stopContainer _ | getWorkspacePath
    | removeContainer _ | cleanupWorkspace _ =>
      cases h
      rfl
    | _ => cases hc
  refine ⟨fun hr => ?_, fun hr => settled_later (hI.settled (hl.returned ▸ hr)) hl⟩
  obtain ⟨hc, hp⟩ := hI.clean (hreg ▸ hr)
  exact ⟨eq_nil_iff_forall_not_mem.mpr fun c h => by simpa [hc] using hl.containers c h,
    eq_nil_iff_forall_not_mem.mpr fun p h => by simpa [hp] using hl.workspaces p h⟩

section
variable {w : Call} {P : World → Prop} {s : World} (hS : Stance w P)
include hS

theorem safe_access {ρ : Type} {Q : ρ → World → Prop} {f : c.Ans → Op ρ} (hc : c.teardown = true)
    (hne : c ≠ .unregister) (h : P s)
    (hf : ∀ t e a u, Later s t → Kept t → P t → exec c t e = some (a, u) → P u → Safe w Q (f a) u) :
    Safe w Q ((access c).bind f) s := by
  intro t hR hI _ e a u he
  obtain ⟨hP, hl⟩ := hS.rely c s t hR h
  have hl' := (exec_teardown hc he).1
  have hP' := hS.keeps t u hP hl'
  exact ⟨kept_teardown hI hc hne he, hS.grants c t u hP hl', hf t e a u hl hI hP he hP'⟩

theorem safe_stopAndRemove (hI : Kept s) (h : P s) : Safe w (fun _ u => P u ∧ u.containers = [])
      (if s.containerID ≠ "" then
        (access (.stopContainer s.containerID)).bind fun _ => access (.removeContainer s.containerID)
      else .ret ()) s := by
  have hset := hS.settled s hI h
  split
  · refine safe_access hS rfl Cmd.noConfusion h fun t e _ u hl _ _ he hP => ?_
    cases he
    refine safe_access (f := .ret) hS rfl Cmd.noConfusion hP fun t' e _ u hl' _ _ he hP' => ?_
    cases he
    refine ⟨hP', eq_nil_iff_forall_not_mem.mpr fun c hc => ?_⟩
    -- the recorded container is the only one
    obtain ⟨hc, hne⟩ := mem_filter.mp hc
    exact of_decide_eq_true hne (hset.container c (hl.containers c (hl'.containers c hc))).2
  · next he =>
    refine ⟨h, eq_nil_iff_forall_not_mem.mpr fun c hc => ?_⟩
    obtain ⟨hne, hid⟩ := hset.container c hc
    exact hne (hid.trans (not_not.mp he))

theorem safe_cleanup (hI : Kept s) (h : P s) (hc : s.containers = []) :
    Safe w (fun _ u => P u ∧ u.containers = [] ∧ u.workspaces = [])
      (if s.workspacePath ≠ "" then access (.cleanupWorkspace s.workspacePath) else .ret ()) s := by
  have hset := hS.settled s hI h
  split
  · refine safe_access (f := .ret) hS rfl Cmd.noConfusion h fun t e _ u hl _ _ he hP => ?_
    cases he
    refine ⟨hP, eq_nil_iff_forall_not_mem.mpr fun c hm => ?_, eq_nil_iff_forall_not_mem.mpr fun p hm => ?_⟩
    · have hm' := hl.containers c hm
      rw [hc] at hm'
      cases hm'
    · obtain ⟨hm, hne⟩ := mem_filter.mp hm
      exact of_decide_eq_true hne (hset.workspace p (hl.workspaces p hm)).2
  · next he =>
    refine ⟨h, hc, eq_nil_iff_forall_not_mem.mpr fun p hp => ?_⟩
    obtain ⟨hne, hid⟩ := hset.workspace p hp
    exact hne (hid.trans (not_not.mp he))

/-- **the removal leaves nothing**, from the moment it looks at what is recorded -/
theorem safe_removal (hstart : ∀ t, Relies w .getContainerID s t → Kept t → Permits w t .getContainerID → P t) :
    Safe w (fun _ => P) removal s := by
  intro t hR hI hok e cID u he
  cases he
  have hP := hstart t hR hI hok
  refine ⟨hI, hS.grants _ t t hP (later_refl t), ?_⟩
  dsimp only [Code.bind]
  refine safe_bind (safe_stopAndRemove hS hI hP) fun _ t₁ h₁ => ?_
  refine safe_access hS rfl Cmd.noConfusion h₁.1 fun t₂ e path u hl hI₂ hP₂ he _ => ?_
  cases he
  have hc₂ : t₂.containers = [] :=
    eq_nil_iff_forall_not_mem.mpr fun c hc => by simpa [h₁.2] using hl.containers c hc
  refine safe_bind (safe_cleanup hS hI₂ hP₂ hc₂) fun _ t₃ h₃ => ?_
  refine safe_bind (M := fun _ u => P u ∧ u.containers = [] ∧ u.workspaces = []) ?_ fun _ t₄ h₄ => ?_
  · refine safe_transition (fun c s t hR hJ => ?_) (fun s t hres hJ => ?_) (fun c s t hJ _ _ hres => ?_) h₃
    · obtain ⟨hP, hl⟩ := hS.rely c s t hR hJ.1
      exact ⟨hP, eq_nil_iff_forall_not_mem.mpr fun c hc => by simpa [hJ.2.1] using hl.containers c hc,
        eq_nil_iff_forall_not_mem.mpr fun p hp => by simpa [hJ.2.2] using hl.workspaces p hp⟩
    · have hc : t.containers = s.containers := (congrArg containers hres :)
      have hp : t.workspaces = s.workspaces := (congrArg workspaces hres :)
      exact ⟨hS.keeps s t hJ.1 (later_of_res hres), hc.trans hJ.2.1, hp.trans hJ.2.2⟩
    · exact hS.grants c s t hJ.1 (later_of_res hres)
  · intro t₅ hR hI₅ _ e _ u he
    cases he
    obtain ⟨hP₅, hl₅⟩ := hS.rely _ t₄ t₅ hR h₄.1
    have hlast : Later t₅ { t₅ with registered := false } := ⟨rfl, rfl, fun _ h => h, fun _ h => h, rfl⟩
    refine ⟨⟨fun _ => ⟨?_, ?_⟩, fun hr => settled_later (hI₅.settled hr) hlast⟩, hS.grants _ _ _ hP₅ hlast,
      hS.keeps _ _ hP₅ hlast⟩
    · exact eq_nil_iff_forall_not_mem.mpr fun c hc => by simpa [h₄.2.1] using hl₅.containers c hc
    · exact eq_nil_iff_forall_not_mem.mpr fun p hp => by simpa [h₄.2.2] using hl₅.workspaces p hp

theorem safe_destroySandbox {J : World → Prop} (hR : ∀ c s t, Relies w c s t → J s → J t)
    (hres : ∀ s t, t.res = s.res → J s → J t) (hG : ∀ c s t, J s → c.teardown = true → c.removes = false →
      t.res = s.res → Grants w c s t) (hstart : ∀ t, J t → Kept t → Permits w t .getContainerID → P t) (h : J s) :
    Safe w (fun _ t => J t ∨ P t) destroySandbox s := by
  intro t ht hI _ e found u he
  cases he
  have hJ := hR _ _ _ ht h
  refine ⟨hI, hG _ _ _ hJ rfl rfl rfl, ?_⟩
  dsimp only [Code.bind]
  split
  · refine safe_bind (safe_transition hR hres hG hJ) fun _ t' hJ' => ?_
    refine safe_mono (fun _ _ h => .inr h) (safe_removal hS fun u hu => hstart u (hR _ _ _ hu hJ'))
  · exact .inl hJ

end

theorem safe_teardown {w : Call} (hw : w ≠ .createSandbox) (s : World) : Safe w (fun _ _ => True) destroySandbox s := by
  have hG : ∀ c s t, True → c.teardown = true → c.removes = false → t.res = s.res → Grants w c s t := by
    intro c s t _ _ _ hres
    cases w with
    | createSandbox => exact absurd rfl hw
    | destroySandbox | sweep => exact ⟨fun _ => hres, fun _ => later_of_res hres⟩
  refine safe_mono (fun _ _ _ => trivial) (safe_destroySandbox (J := fun _ => True) (stance_teardown hw)
    (fun _ _ _ _ _ => trivial) (fun _ _ _ _ => trivial) hG (fun t _ _ hok => ?_) trivial)
  cases w with
  | createSandbox => exact absurd rfl hw
  | destroySandbox | sweep => exact hok rfl

theorem safe_sweep (s : World) : Safe .sweep (fun _ _ => True) Sandbox.sweep s := by
  have hquiet : ∀ t, Grants .sweep .due t t := fun t => ⟨fun _ => rfl, fun _ => later_refl t⟩
  intro t _ hI _ e due u he
  cases he
  refine ⟨hI, hquiet t, ?_⟩
  dsimp only [Code.bind]
  split
  · intro t' _ hI' _ e found u' he
    cases he
    refine ⟨hI', hquiet t', ?_⟩
    dsimp only [Code.bind]
    split
    · intro t'' _ hI'' _ e _ u'' he
      cases he
      exact ⟨hI'', hquiet t'', safe_teardown Call.noConfusion _⟩
    · trivial
  · trivial

/-! ## the creation -/

/-- the creation is under way and has, for each of its resources, what `cs` and `ps` say, with this record -/
structure Making (cID path : String) (cs ps : List String) (w : World) : Prop where
  returned : w.returned = false
  registered : w.registered = true
  containerID : w.containerID = cID
  workspacePath : w.workspacePath = path
  containers : w.containers = cs
  workspaces : w.workspaces = ps

section
variable {cID path : String} {cs ps : List String} {s t : World}

theorem making_res (hres : t.res = s.res) (h : Making cID path cs ps s) : Making cID path cs ps t :=
  ⟨(congrArg returned hres :).trans h.returned, (congrArg World.registered hres :).trans h.registered,
    (congrArg containerID hres :).trans h.containerID, (congrArg workspacePath hres :).trans h.workspacePath,
    (congrArg containers hres :).trans h.containers, (congrArg workspaces hres :).trans h.workspaces⟩

theorem making_relies (hR : Relies .createSandbox c s t) (h : Making cID path cs ps s) : Making cID path cs ps t :=
  making_res (hR h.returned) h

theorem making_kept (h : Making cID path cs ps s) : Kept s := by
  refine ⟨fun hr => ?_, fun hr => ?_⟩
  · cases h.registered.symm.trans hr
  · cases h.returned.symm.trans hr

theorem safe_make {ρ : Type} {Q : ρ → World → Prop} {f : c.Ans → Op ρ} (h : Making cID path cs ps s)
    (hf : ∀ t e a u, Making cID path cs ps t → exec c t e = some (a, u) → Kept u ∧ Safe .createSandbox Q (f a) u) :
    Safe .createSandbox Q ((access c).bind f) s := by
  intro t hR _ _ e a u he
  have ht := making_relies hR h
  exact ⟨(hf t e a u ht he).1, ht.returned, (hf t e a u ht he).2⟩

theorem safe_making_transition {next : State} (h : Making cID path cs ps s) :
    Safe .createSandbox (fun _ => Making cID path cs ps) (transition next) s :=
  safe_transition (fun _ _ _ hR => making_relies hR) (fun _ _ hres => making_res hres)
    (fun _ _ _ hJ _ _ _ => hJ.returned) h

def Made (w : World) : Prop := w.returned = false ∧ Settled w

def Recorded (cID path : String) (cs ps : List String) : Prop :=
  (∀ c ∈ cs, c ≠ "" ∧ c = cID) ∧ ∀ p ∈ ps, p ≠ "" ∧ p = path

theorem made_of_making (hrec : Recorded cID path cs ps) (h : Making cID path cs ps s) : Made s := by
  obtain ⟨hret, -, rfl, rfl, rfl, rfl⟩ := h
  exact ⟨hret, hrec.1, hrec.2⟩

theorem safe_orDestroy {ok : Bool} {next : Op Unit} (hrec : Recorded cID path cs ps) (h : Making cID path cs ps s)
    (hnext : Safe .createSandbox (fun _ => Made) next s) :
    Safe .createSandbox (fun _ => Made) (orDestroy ok next) s := by
  cases ok with
  | true => exact hnext
  | false =>
    refine safe_mono (fun _ t ht => ?_) (safe_destroySandbox (P := Made) (J := Making cID path cs ps) stance_create
      (fun _ _ _ hR => making_relies hR) (fun _ _ hres => making_res hres) (fun _ _ _ hJ _ _ _ => hJ.returned)
      (fun t ht _ _ => made_of_making hrec ht) h)
    cases ht with
    | inl hJ => exact made_of_making hrec hJ
    | inr hM => exact hM

theorem safe_createContainer (hp : ∀ p ∈ ps, p ≠ "" ∧ p = path) (h : Making "" path [] ps s) :
    Safe .createSandbox (fun _ => Made) createContainer s := by
  refine safe_make h fun t e cID u ht he => ?_
  dsimp only [exec] at he
  split at he
  · cases he
  next hne =>
  cases he
  have hu : Making "" path [e.name] ps { t with containers := t.containers ++ [e.name] } :=
    ⟨ht.returned, ht.registered, ht.containerID, ht.workspacePath, by rw [ht.containers]; rfl, ht.workspaces⟩
  refine ⟨making_kept hu, safe_make hu fun t₁ _ _ u₁ ht₁ he => ?_⟩
  cases he
  have hu₁ : Making e.name path [e.name] ps { t₁ with containerID := e.name } :=
    ⟨ht₁.returned, ht₁.registered, rfl, ht₁.workspacePath, ht₁.containers, ht₁.workspaces⟩
  have hrec : Recorded e.name path [e.name] ps := by
    refine ⟨fun c hc => ?_, hp⟩
    cases mem_singleton.mp hc
    exact ⟨hne, rfl⟩
  refine ⟨making_kept hu₁, safe_make hu₁ fun t₂ _ _ u₂ ht₂ he => ?_⟩
  cases he
  refine ⟨making_kept ht₂, safe_bind (safe_making_transition ht₂) fun ok t₃ ht₃ => ?_⟩
  exact safe_orDestroy hrec ht₃ (made_of_making hrec ht₃)

theorem safe_createWorkspace (h : Making "" "" [] [] s) : Safe .createSandbox (fun _ => Made) createWorkspace s := by
  refine safe_make h fun t e path u ht he => ?_
  dsimp only [exec] at he
  split at he
  · cases he
  next hne =>
  cases he
  have hu : Making "" "" [] [e.name] { t with workspaces := t.workspaces ++ [e.name] } :=
    ⟨ht.returned, ht.registered, ht.containerID, ht.workspacePath, ht.containers, by rw [ht.workspaces]; rfl⟩
  refine ⟨making_kept hu, safe_make hu fun t₁ _ _ u₁ ht₁ he => ?_⟩
  cases he
  have hu₁ : Making "" e.name [] [e.name] { t₁ with workspacePath := e.name } :=
    ⟨ht₁.returned, ht₁.registered, ht₁.containerID, rfl, ht₁.containers, ht₁.workspaces⟩
  have hrec : Recorded "" e.name [] [e.name] := by
    refine ⟨nofun, fun p hp => ?_⟩
    cases mem_singleton.mp hp
    exact ⟨hne, rfl⟩
  refine ⟨making_kept hu₁, safe_make hu₁ fun t₂ _ _ u₂ ht₂ he => ?_⟩
  cases he
  refine ⟨making_kept ht₂, safe_orDestroy hrec ht₂ (safe_make ht₂ fun t₃ _ _ u₃ ht₃ he => ?_)⟩
  cases he
  refine ⟨making_kept ht₃, safe_orDestroy hrec ht₃ ?_⟩
  refine safe_bind (safe_making_transition ht₃) fun ok t₄ ht₄ => ?_
  exact safe_orDestroy hrec ht₄ (safe_createContainer hrec.2 ht₄)

end

/-- **the creation leaves everything recorded** -/
theorem safe_createSandbox : Safe .createSandbox (fun _ _ => True) Sandbox.createSandbox {} := by
  have hnone : Recorded "" "" [] [] := ⟨nofun, nofun⟩
  refine safe_bind (M := fun _ => Made) ?_ fun _ s hs => ?_
  · intro t hR _ _ e _ u he
    cases he
    have hres : t.res = res {} := hR rfl
    have hu : Making "" "" [] [] { t with registered := true } :=
      ⟨(congrArg returned hres :), rfl, (congrArg containerID hres :), (congrArg workspacePath hres :),
        (congrArg containers hres :), (congrArg workspaces hres :)⟩
    refine ⟨making_kept hu, (congrArg returned hres :), ?_⟩
    dsimp only [Code.bind]
    refine safe_bind (safe_making_transition hu) fun ok t₁ ht₁ => ?_
    cases ok with
    | true =>
      refine safe_bind (safe_making_transition ht₁) fun ok t₂ ht₂ => ?_
      exact safe_orDestroy hnone ht₂ (safe_createWorkspace ht₂)
    | false =>
      intro t₂ hR₂ _ _ e _ u he
      cases he
      have ht₂ := making_relies hR₂ ht₁
      have hl : Later t₂ { t₂ with registered := false } := ⟨rfl, rfl, fun _ h => h, fun _ h => h, rfl⟩
      have hM := stance_create.keeps _ _ (made_of_making hnone ht₂) hl
      refine ⟨⟨fun _ => ⟨ht₂.containers, ht₂.workspaces⟩, fun hr => ?_⟩, ht₂.returned, hM⟩
      cases ht₂.returned.symm.trans hr
  · intro t hR hI _ e _ u he
    cases he
    obtain ⟨hM, -⟩ := stance_create.rely _ s t hR hs
    exact ⟨⟨hI.clean, fun _ => ⟨hM.2.container, hM.2.workspace⟩⟩, hM.1, trivial⟩

/-! ## every run -/

def Sole : Prop := ∀ i t, sys.pool i = some t → t.what = .createSandbox → i = 0

theorem sole_next (l : Act Call Choice) (sys' : Sys World Thread)
    (hi : Sole sys) (hp : Patient sys l) (hn : calls.next sys l = some sys') : Sole sys' := by
  cases l with
  | spawn j c =>
    obtain ⟨-, rfl⟩ := next_spawn hn
    intro i t ht hw
    obtain ⟨rfl, rfl⟩ | ⟨-, ht⟩ := update_cases ht
    · exact absurd hw hp
    · exact hi i t ht hw
  | step j e =>
    obtain ⟨t, t', m, hj, hs, rfl⟩ := next_step hn
    obtain ⟨c, k, a, -, -, rfl⟩ := prog_step hs
    intro i u hu hw
    obtain ⟨rfl, rfl⟩ | ⟨-, hu⟩ := update_cases hu
    · exact hi i t hj hw
    · exact hi i u hu hw

abbrev TeardownInv : Sys World Thread → Prop :=
  Code.SafeSys exec Kept Relies Grants Permits fun _ _ _ => True

theorem teardownInv_next (l : Act Call Choice) (sys' : Sys World Thread)
    (hi : Sole sys ∧ TeardownInv sys) (hp : Patient sys l) (hn : calls.next sys l = some sys') :
    Sole sys' ∧ TeardownInv sys' := by
  refine ⟨sole_next sys l sys' hi.1 hp hn, ?_⟩
  refine safe_next (D := fun sys l => Sole sys ∧ Patient sys l) relies_refl relies_trans ?_ ?_ ?_ sys l sys' hi.2
    ⟨hi.1, hp⟩ hn
  · intro sys i w hD _
    cases w with
    | createSandbox => exact absurd rfl hD.2
    | destroySandbox => exact safe_teardown Call.noConfusion sys.shared
    | sweep => exact safe_sweep sys.shared
  · intro sys i e t c hD ht hc
    have hpatient := hD.2 t ht
    cases hw : t.what with
    | createSandbox => trivial
    | destroySandbox | sweep =>
      intro hr
      refine hpatient (by rw [hw]; exact Call.noConfusion) ?_
      rw [hc]
      exact hr
  · intro sys i e t c a m hD ht _ _ hG j u hj hu
    refine ⟨fun _ _ => trivial, fun d _ => ?_⟩
    cases hw : t.what with
    | createSandbox =>
      rw [hw] at hG
      cases hw' : u.what with
      | createSandbox => exact absurd ((hD.1 j u hu hw').trans (hD.1 i t ht hw).symm) hj
      | destroySandbox | sweep =>
        intro hret
        cases (show sys.shared.returned = false from hG).symm.trans hret
    | destroySandbox | sweep =>
      rw [hw] at hG
      cases hw' : u.what with
      | createSandbox => exact hG.1
      | destroySandbox | sweep => exact hG.2

theorem teardownInv_creating : Sole creating ∧ TeardownInv creating := by
  have hone : ∀ i t, creating.pool i = some t → i = 0 ∧ t = calls.start .createSandbox := by
    intro i t ht
    dsimp only [creating] at ht
    obtain ⟨rfl, rfl⟩ | ⟨-, ht⟩ := update_cases ht
    · exact ⟨rfl, rfl⟩
    · cases ht
  refine ⟨fun i t ht _ => (hone i t ht).1, ⟨⟨fun _ => ⟨rfl, rfl⟩, nofun⟩, fun i t ht => ?_,
    fun _ _ _ _ _ _ _ => trivial⟩⟩
  rw [(hone i t ht).2]
  exact safe_createSandbox

/-- **Nothing is leaked**, when teardowns wait for the creation to return. -/
theorem no_leaks {acts : List (Act Call Choice)} {sys : Sys World Thread}
    (hrun : run calls.next creating acts = some sys) (hp : Along calls.next Patient creating acts) :
    Clean sys.shared :=
  (run_inv teardownInv_next teardownInv_creating hp hrun).2.shared.clean

instance (sys : Sys World Thread) (l : Act Call Choice) : Decidable (Patient sys l) := by
  unfold Patient
  split <;> infer_instance

def upToContainer : List (Act Call Choice) :=
  replicate 7 (.step 0 {}) ++ [.step 0 { name := "ws" }] ++ replicate 6 (.step 0 {})

def containerStep : Act Call Choice := .step 0 { name := "ctr" }

def createdRun : List (Act Call Choice) :=
  upToContainer ++ [containerStep] ++ replicate 6 (.step 0 {}) ++ [.spawn 1 .destroySandbox, .spawn 2 .sweep] ++
  replicate 3 (.step 2 {}) ++ replicate 8 (.step 1 {}) ++ replicate 6 (.step 2 {}) ++
  replicate 5 (.step 1 {})

theorem no_leaks_createdRun : ∃ sys, run calls.next creating createdRun = some sys ∧ sys.shared.registered = false ∧
      sys.shared.containerID = "ctr" ∧ Clean sys.shared := by
  have hrun : ∃ sys ∈ run calls.next creating createdRun, sys.shared.registered = false ∧
      sys.shared.containerID = "ctr" := by decide +kernel
  obtain ⟨sys, hrun, hreg, hid⟩ := hrun
  exact ⟨sys, hrun, hreg, hid, no_leaks hrun (by decide +kernel)⟩

/-- a teardown runs from start to end right before the container is created -/
def leakRun : List (Act Call Choice) :=
  upToContainer ++ [.spawn 1 .destroySandbox] ++ replicate 11 (.step 1 {}) ++ [containerStep] ++
  replicate 5 (.step 0 {})

/-- every call has returned, the sandbox is gone, its container is not -/
theorem teardown_leaks : ∃ sys ∈ run calls.next creating leakRun,
      (∀ t ∈ sys.pool 0, t.result.isSome = true) ∧ (∀ t ∈ sys.pool 1, t.result.isSome = true) ∧
      sys.shared.registered = false ∧ sys.shared.containers = ["ctr"] := by
  decide +kernel

end Sandbox
